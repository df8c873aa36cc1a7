import ObjectModel.Interpreter
import ObjectModel.Proofs.Operators.Additions

/-!
# Conversions, lookups and texts that only add

What behaviors ask of other objects, they ask through the dispatcher. Where its operations add, so do the
conversions of arguments, the lookups in maps and the texts of containers.
-/

namespace ObjectModel

open ObjectModel.Action

-- ---------------------------------------------------------------------------
-- The dispatcher
-- ---------------------------------------------------------------------------

/-- Whether an operation on objects of a kind is to leave objects as they are. -/
def Operation.observes : Operation → Kind → Bool
  | .swap, _ | .call, _ | .setIndex, _ => false
  | .shiftLeft, .stream | .shiftRight, .stream => false
  | _, _ => true

class Operation.Observes (operation : Operation) : Prop where
  observes : ∀ kind, operation.observes kind = true

instance : Operation.Observes .compare := ⟨fun _ => rfl⟩
instance : Operation.Observes .index := ⟨fun _ => rfl⟩
instance : Operation.Observes .toInt := ⟨fun _ => rfl⟩
instance : Operation.Observes .toFloat := ⟨fun _ => rfl⟩
instance : Operation.Observes .toText := ⟨fun _ => rfl⟩
instance : Operation.Observes .toBuffer := ⟨fun _ => rfl⟩
instance : Operation.Observes .represent := ⟨fun _ => rfl⟩

/-- The operations that are to leave objects as they are add, when they are given inert objects. -/
class Dispatcher.Adds (R : Ref → Prop) (run : Dispatcher) : Prop where
  behaves : ∀ {kind operation args}, operation.observes kind = true → AllInside R args →
    Action.Adds R (run.behave kind operation args)

namespace Dispatcher

variable {R : Ref → Prop} {run : Dispatcher} [hd : Dispatcher.Adds R run] {args : List Ref}
  {object other : Ref}

instance adds_dispatch (operation : Operation) [ho : operation.Observes] [hargs : AllInside R args] :
    Action.Adds R (run.dispatch operation args) := by
  have hbehave (kind : Kind) := hd.behaves (ho.observes kind) hargs
  unfold dispatch
  cases args <;> infer_instance

instance adds_unary (operation : Operation) [operation.Observes] [Inside R object] :
    Action.Adds R (run.unary operation object) := by
  unfold unary; infer_instance

instance adds_binary (operation : Operation) [operation.Observes] [Inside R object] [Inside R other] :
    Action.Adds R (run.binary operation object other) := by
  unfold binary; infer_instance

omit hd in
instance adds_expectInt (answer : Ref) : Action.Adds R (expectInt answer) := by
  unfold expectInt
  refine .bind fun payload => ?_
  split <;> infer_instance

omit hd in
instance adds_expectText (answer : Ref) : Action.Adds R (expectText answer) := by
  unfold expectText
  refine .bind fun payload => ?_
  split
  · infer_instance
  · refine .bind fun bytes => ?_
    split <;> infer_instance

instance adds_compare [Inside R object] [Inside R other] :
    Action.Adds R (run.compare object other) := by
  unfold compare
  refine .bind fun answer => .bind fun payload => ?_
  split <;> infer_instance

instance adds_index [Inside R object] [Inside R other] : Action.Adds R (run.index object other) := by
  unfold index; infer_instance

instance adds_toInt [Inside R object] : Action.Adds R (run.toInt object) := by
  unfold toInt
  refine .bind fun payload => ?_
  split <;> infer_instance

instance adds_toFloat [Inside R object] : Action.Adds R (run.toFloat object) := by
  unfold toFloat
  refine .bind fun payload => ?_
  split
  · infer_instance
  · refine .bind fun converted => .bind fun payload => ?_
    split <;> infer_instance

instance adds_toText [Inside R object] : Action.Adds R (run.toText object) := by
  unfold toText
  refine .bind fun payload => ?_
  split <;> infer_instance

instance adds_toBuffer [Inside R object] : Action.Adds R (run.toBuffer object) := by
  unfold toBuffer; infer_instance

instance adds_represent [Inside R object] : Action.Adds R (run.represent object) := by
  unfold represent; infer_instance

variable [AllInside R args]

instance adds_intArgument (index : Nat) : Action.Adds R (run.intArgument args index) := by
  unfold intArgument
  exact .argument fun object _ => inferInstance

instance adds_floatArgument (index : Nat) : Action.Adds R (run.floatArgument args index) := by
  unfold floatArgument
  exact .argument fun object _ => inferInstance

instance adds_textArgument (index : Nat) : Action.Adds R (run.textArgument args index) := by
  unfold textArgument
  exact .argument fun object _ => inferInstance

instance adds_bufferArgument (index : Nat) : Action.Adds R (run.bufferArgument args index) := by
  unfold bufferArgument
  exact .argument fun object _ => inferInstance

end Dispatcher

-- ---------------------------------------------------------------------------
-- Maps
-- ---------------------------------------------------------------------------

namespace Map

open State

variable {R : Ref → Prop} {run : Dispatcher} [hd : Dispatcher.Adds R run] {s : State} {α : Type}
  {map key object : Ref}

instance adds_getNamed? (map : Ref) (name : String) : Adds R (getNamed? map name) :=
  .of_read _ (run_getNamed? map name)

instance adds_keyMatches (name : Option Bytes) [Inside R object] [Inside R key] :
    Adds R (keyMatches run object name key) := by
  unfold keyMatches
  refine .bind fun other => ?_
  split <;> infer_instance

/-- Cells that were made and hold inert objects are compared with an inert object one after the other. -/
theorem adds_firstMatch_of_inert [Inside R object] (name : Option Bytes) {cells : List Ref}
    (hs : s.Inert R)
    (hcells : ∀ cell ∈ cells, s.heap.Contains cell ∧ ∀ p ∈ (s.payload cell).references, R p)
    (hrun : (firstMatch run object name cells).ending? s = some (e, t)) : s.Adds R e t := by
  induction cells generalizing s e t with
  | nil => exact (adds_pure none).holds hs hrun
  | cons cell rest ih =>
    have hrest {u : State} (hadds : s.Adds R .value u) {e t}
        (h : (firstMatch run object name rest).ending? u = some (e, t)) : u.Adds R e t := by
      refine ih (hadds.inert hs) (fun c hc => ?_) h
      obtain ⟨hmade, hinert⟩ := hcells c (List.mem_cons_of_mem _ hc)
      exact ⟨Nat.lt_of_lt_of_le hmade hadds.size, hadds.kept c hmade ▸ hinert⟩
    obtain ⟨-, hparts⟩ := hcells cell List.mem_cons_self
    unfold firstMatch at hrun
    refine adds_bind_of_inert hs ((adds_payload cell).holds hs) (fun payload u hread hu h => ?_) hrun
    cases hread
    cases hcell : s.payload cell with
    | cell key value =>
      rw [hcell] at h hparts
      have hkey : Inside R key := ⟨hparts key (by simp [Payload.references])⟩
      have hmatches : Adds R (keyMatches run object name key) := adds_keyMatches name
      refine adds_bind_of_inert hs (hmatches.holds hs) (fun found u hfound hu h => ?_) h
      split at h
      · exact (adds_pure _).holds hu h
      · exact hrest (hmatches.holds hs (ending?_ok hfound)) h
    | _ => rw [hcell] at h; exact hrest (.refl s) h

theorem adds_findCell_of_inert [Inside R key] (hs : s.Inert R)
    (hcells : ∀ cell ∈ s.cells map, s.heap.Contains cell ∧ ∀ p ∈ (s.payload cell).references, R p)
    (hrun : (findCell run map key).ending? s = some (e, t)) : s.Adds R e t := by
  exact adds_firstMatch_of_inert _ hs hcells hrun

instance adds_findCell [ho : Inside R map] [Inside R key] : Adds R (findCell run map key) := by
  refine ⟨fun {s e t} hs => adds_findCell_of_inert hs fun cell hcell => ?_⟩
  have hinert := hs.inert_cell ho.holds hcell
  exact ⟨hs.made cell hinert, hs.closed cell hinert⟩

instance adds_get? [Inside R map] [Inside R key] : Adds R (get? run map key) := by
  unfold get?
  refine .bind fun cell => ?_
  split <;> infer_instance

theorem hook?_run (map : Ref) (name : String) (s : State) :
    (Map.hook? map name).run s = .ok (s.hook? map name) s := by
  unfold Map.hook? State.hook?
  rw [EStateM.run_bind, run_getNamed?]
  cases s.named? map name with
  | none => rfl
  | some value =>
    dsimp only
    rw [EStateM.run_bind, run_isNothing]
    by_cases h : value = s.nothing <;> simp [h, Option.filter]

omit hd in
theorem adds_hook?_bind {name : String} {f : Option Ref → Action α} [ho : Inside R map]
    (hname : name ∈ hookNames) (hnone : Adds R (f none))
    (hsome : ∀ hook, Inside R hook → ∀ {s e t}, s.Inert R → s.isCallable hook = false →
      (f (some hook)).ending? s = some (e, t) → s.Adds R e t) : Adds R (hook? map name >>= f) := by
  refine ⟨fun {s e t} hs hrun => ?_⟩
  rw [ending?_bind, hook?_run] at hrun
  cases hhook : s.hook? map name with
  | none =>
    rw [hhook] at hrun
    exact hnone.holds hs hrun
  | some hook =>
    obtain ⟨hinert, hcallable⟩ := hs.inert_hook ho.holds hname hhook
    rw [hhook] at hrun
    exact hsome hook ⟨hinert⟩ hs hcallable hrun

omit hd in
theorem adds_callableHook {name : String} {f : Option Ref → Action α} [Inside R map]
    (hname : name ∈ hookNames) (hf : Adds R (f none)) : Adds R (callableHook? map name >>= f) := by
  unfold callableHook?
  rw [bind_assoc]
  refine adds_hook?_bind hname ?_ fun hook _ {s e t} hs hcallable hrun => ?_
  · simpa only [pure_bind] using hf
  · rw [bind_assoc, ending?_bind, EStateM.run_get] at hrun
    simp only [hcallable, Bool.false_eq_true, if_false, pure_bind] at hrun
    exact hf.holds hs hrun

end Map

-- ---------------------------------------------------------------------------
-- Texts
-- ---------------------------------------------------------------------------

namespace Rendering

variable {R : Ref → Prop}

instance adds_guarded (object : Ref) (text : Action String) [Adds R text] :
    Adds R (guarded object text) := by
  unfold guarded; infer_instance

section Containers

variable {text : Ref → Action String} (htext : ∀ object, Inside R object → Adds R (text object))
  {object : Ref} [Inside R object]
include htext

theorem adds_enclosed (left right : String) (objects : List Ref) [ho : AllInside R objects] :
    Adds R (enclosed text left right objects) := by
  have hparts : Adds R (objects.mapM text) := adds_mapM fun o hmem => htext o ⟨ho.holds o hmem⟩
  unfold enclosed
  infer_instance

theorem adds_listText : Adds R (listText text object) := by
  have hitems : Adds R (do
      enclosed text "[" "]" ((← payload object).items?.getD #[]).toList) := by
    refine .payload fun payload hpayload => ?_
    have := hpayload.items
    exact adds_enclosed htext "[" "]" _
  unfold listText
  infer_instance

theorem adds_mapText : Adds R (mapText text object) := by
  have hcells : Adds R (do enclosed text "\x7b" "\x7d" ((← get).cells object)) :=
    .read id (fun _ => rfl) fun s hs =>
      @adds_enclosed _ _ htext _ _ _ ⟨fun cell hcell => hs.inert_cell (Inside.holds) hcell⟩
  unfold mapText
  infer_instance

theorem adds_cellText : Adds R (cellText text object) := by
  unfold cellText
  refine @adds_holding _ _ _ _ (@adds_guarded _ _ _ (.payload fun payload hpayload => ?_))
  cases payload with
  | cell key value =>
    have hkey := htext key ⟨hpayload.holds key (by simp [Payload.references])⟩
    have hvalue := htext value ⟨hpayload.holds value (by simp [Payload.references])⟩
    dsimp only [Payload.cellParts?]
    infer_instance
  | _ => exact adds_pure _

end Containers

variable {run : Dispatcher} [hd : Dispatcher.Adds R run]

theorem adds_textWithin (rounds : Nat) (object : Ref) (ho : Inside R object) :
    Adds R (textWithin run rounds object) := by
  induction rounds generalizing object with
  | zero => exact adds_exhausted
  | succ rounds ih =>
    unfold textWithin
    refine .bind fun kind => ?_
    split
    · exact adds_listText ih
    · exact adds_cellText ih
    · exact Map.adds_callableHook (by simp [Map.hookNames]) (adds_mapText ih)
    · infer_instance

theorem adds_text (object : Ref) (ho : Inside R object) : Adds R (text run object) :=
  adds_textWithin run.rounds object ho

end Rendering

end ObjectModel
