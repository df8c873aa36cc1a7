import ObjectModel.Proofs.Operators.Merges

/-!
# Behaviors that only add

What objects of every kind answer adds, for all operations that are to leave objects as they are.
-/

namespace ObjectModel

open ObjectModel.Action

namespace Behavior

variable {R : Ref → Prop} {machine : Machine} [hd : Dispatcher.Adds R machine.toDispatcher]
  {args : List Ref} [ha : AllInside R args] {operation : Operation} {body : Handler}

-- ---------------------------------------------------------------------------
-- What all kinds share
-- ---------------------------------------------------------------------------

namespace Shared

theorem adds_handler {kind : Kind} (ho : operation.observes kind = true)
    (h : handler operation = some body) : Adds R (body machine args) := by
  cases operation with
  | compare => cases h; unfold compare; infer_instance
  | toBuffer => cases h; unfold toBuffer; infer_instance
  | represent =>
    cases h
    unfold represent
    exact .argument fun object _ => inferInstance
  | init => cases h; infer_instance
  | free => cases h; infer_instance
  | swap => cases ho
  | _ => cases h

end Shared

-- ---------------------------------------------------------------------------
-- Singlets
-- ---------------------------------------------------------------------------

namespace Singlets

omit hd ha

instance adds_nameOf (object : Ref) : Adds R (nameOf object) := by
  unfold nameOf
  refine .bind fun payload => ?_
  split <;> infer_instance

theorem adds_handler (h : handler operation = some body) : Adds R (body machine args) := by
  cases operation with
  | toText => cases h; unfold toText; infer_instance
  | toBuffer => cases h; unfold toBuffer; infer_instance
  | _ => cases h

end Singlets

-- ---------------------------------------------------------------------------
-- Ints and floats
-- ---------------------------------------------------------------------------

namespace Numbers

omit hd ha in
instance adds_itself : Adds R (itself machine args) := by
  unfold itself; infer_instance

instance adds_intOperands : Adds R (intOperands machine args) := by
  unfold intOperands; infer_instance

instance adds_onInts (operation : Int64 → Int64 → Int64) : Adds R (onInts operation machine args) := by
  unfold onInts; infer_instance

instance adds_onIntsNonzero (fault : Fault) (operation : Int64 → Int64 → Int64) :
    Adds R (onIntsNonzero fault operation machine args) := by
  unfold onIntsNonzero; infer_instance

omit hd ha in
instance adds_intOrZero : Adds R (intOrZero args) := by
  unfold intOrZero; infer_instance

omit hd ha in
instance adds_intCompare : Adds R (intCompare machine args) := by
  unfold intCompare
  refine .bind fun first => .bind fun left => .bind fun second => .bind fun right => ?_
  split <;> infer_instance

theorem adds_intHandler (h : intHandler operation = some body) : Adds R (body machine args) := by
  cases operation with
  | bitNot => cases h; unfold intNot; infer_instance
  | toFloat => cases h; unfold intToFloat; infer_instance
  | toText => cases h; unfold intToText; infer_instance
  | _ => cases h <;> infer_instance

instance adds_floatOperands : Adds R (floatOperands machine args) := by
  unfold floatOperands; infer_instance

instance adds_onFloats (operation : Binary64 → Binary64 → Binary64) :
    Adds R (onFloats operation machine args) := by
  unfold onFloats; infer_instance

instance adds_floatDiv : Adds R (floatDiv machine args) := by
  unfold floatDiv; infer_instance

omit hd ha in
instance adds_floatOrZero : Adds R (floatOrZero args) := by
  unfold floatOrZero; infer_instance

omit hd ha in
instance adds_floatCompare : Adds R (floatCompare machine args) := by
  unfold floatCompare
  refine .bind fun first => .bind fun left => .bind fun second => .bind fun right => ?_
  split <;> infer_instance

theorem adds_floatHandler (h : floatHandler operation = some body) : Adds R (body machine args) := by
  cases operation with
  | toInt => cases h; unfold floatToInt; infer_instance
  | toText => cases h; unfold floatToText; infer_instance
  | _ => cases h <;> infer_instance

end Numbers

-- ---------------------------------------------------------------------------
-- Strings
-- ---------------------------------------------------------------------------

namespace Strings

omit hd ha in
instance adds_ofArgument (index : Nat) : Adds R (ofArgument args index) := by
  unfold ofArgument; infer_instance

omit hd ha in
instance adds_bytesOfArgument (index : Nat) : Adds R (bytesOfArgument args index) := by
  unfold bytesOfArgument; infer_instance

omit hd ha in
instance adds_repeated {α : Type} (unit : Nat) (elements : List α) (times : Int64) :
    Adds R (repeated unit elements times) := by
  unfold repeated; infer_instance

instance adds_compare : Adds R (compare machine args) := by
  unfold compare
  refine .bind fun left => .argument fun right _ => .bind fun kind => ?_
  split <;> infer_instance

omit hd ha in
instance adds_method (kind : Kind) (key : Ref) : Adds R (method kind key) := by
  unfold method methodsFor?
  refine .bind fun name => .bind fun methods => ?_
  split <;> infer_instance

instance adds_index : Adds R (index machine args) := by
  unfold index
  refine .argument fun key _ => ?_
  infer_instance

theorem adds_handler (h : handler operation = some body) : Adds R (body machine args) := by
  cases operation with
  | add => cases h; unfold add; infer_instance
  | mul => cases h; unfold mul; infer_instance
  | length => cases h; unfold length; infer_instance
  | iterate => cases h; unfold Iteration.stepper; infer_instance
  | toInt => cases h; unfold toInt; infer_instance
  | toFloat => cases h; unfold toFloat; infer_instance
  | toText => cases h; unfold toText; infer_instance
  | toBuffer => cases h; unfold toBuffer; infer_instance
  | represent => cases h; unfold represent; infer_instance
  | _ => cases h <;> infer_instance

end Strings

-- ---------------------------------------------------------------------------
-- Lists
-- ---------------------------------------------------------------------------

namespace Lists

omit hd ha in
instance adds_itemsOf (object : Ref) : Adds R (itemsOf object) := by
  unfold itemsOf; infer_instance

omit hd ha in
theorem adds_itemsOf_bind {α : Type} {object : Ref} {f : Array Ref → Action α} [ho : Inside R object]
    (hf : ∀ items : Array Ref, AllInside R items.toList → Adds R (f items)) :
    Adds R (itemsOf object >>= f) := by
  refine .read (fun s => (s.payload object).items?.getD #[]) (fun _ => rfl) fun s hs => hf _ ?_
  exact AllInside.items ⟨hs.closed object ho.holds⟩

omit hd in
instance adds_add : Adds R (add machine args) := by
  unfold add
  refine .argument fun other _ => .payload fun payload hpayload => ?_
  cases payload with
  | list tail =>
    refine .argument fun list _ => adds_itemsOf_bind fun head hhead => adds_create ?_
    intro p hp
    simp only [Payload.references, Array.toList_append, List.mem_append] at hp
    obtain (hp | hp) | hp := hp
    · simp at hp
    · exact hhead.holds p hp
    · exact hpayload.holds p hp
  | _ => exact adds_raise _

omit hd ha in
theorem mem_of_repeated {α : Type} {unit : Nat} {elements made : List α} {times : Int64} {s t : State}
    (hrun : (Strings.repeated unit elements times).run s = .ok made t) : ∀ x ∈ made, x ∈ elements := by
  unfold Strings.repeated at hrun
  dsimp only at hrun
  split at hrun
  · cases hrun
    simp
  · split at hrun
    · cases hrun
    · split at hrun
      · cases hrun
      · cases hrun
        intro x hx
        obtain ⟨copy, hcopy, hx⟩ := List.mem_flatten.mp hx
        exact List.eq_of_mem_replicate hcopy ▸ hx

instance adds_mul : Adds R (mul machine args) := by
  unfold mul
  refine .argument fun list _ => adds_itemsOf_bind fun items hitems => .bind fun times => ⟨fun hs => ?_⟩
  refine adds_bind_of_inert hs (Strings.adds_repeated _ _ _ |>.holds hs) fun made t hrun ht => ?_
  have hmade : AllInside R made := ⟨fun o ho => hitems.holds o (mem_of_repeated hrun o ho)⟩
  exact (adds_createList made).holds ht

omit hd ha in
theorem adds_compareItems (machine : Machine) [Dispatcher.Adds R machine.toDispatcher]
    {lefts rights : List Ref} (hlefts : AllInside R lefts)
    (hrights : AllInside R rights) : Adds R (compareItems machine.toDispatcher lefts rights) := by
  induction lefts generalizing rights with
  | nil => exact adds_pure 0
  | cons left lefts ih =>
    cases rights with
    | nil => exact adds_pure 0
    | cons right rights =>
      have hleft : Inside R left := ⟨hlefts.holds left List.mem_cons_self⟩
      have hright : Inside R right := ⟨hrights.holds right List.mem_cons_self⟩
      have hrest := ih ⟨fun o ho => hlefts.holds o (List.mem_cons_of_mem _ ho)⟩
        ⟨fun o ho => hrights.holds o (List.mem_cons_of_mem _ ho)⟩
      unfold compareItems
      infer_instance

instance adds_compare : Adds R (compare machine args) := by
  unfold compare
  refine .argument fun list _ => adds_itemsOf_bind fun left hleft => ?_
  refine .argument fun other _ => .payload fun payload hpayload => ?_
  cases payload with
  | list right =>
    have hright : AllInside R right.toList := hpayload
    have hitems := adds_compareItems machine hleft hright
    dsimp only [Payload.items?]
    infer_instance
  | _ => exact adds_createInt 1

instance adds_index : Adds R (index machine args) := by
  unfold index
  refine .argument fun list _ => .argument fun key _ => ?_
  infer_instance

instance adds_represent : Adds R (represent machine args) := by
  unfold represent
  refine .argument fun list _ => ?_
  have htext : Adds R (Rendering.listText (Rendering.text machine.toDispatcher) list) :=
    Rendering.adds_listText Rendering.adds_text
  infer_instance

theorem adds_handler (ho : operation.observes .list = true) (h : handler operation = some body) :
    Adds R (body machine args) := by
  cases operation with
  | length => cases h; unfold length; infer_instance
  | iterate => cases h; unfold Iteration.stepper; infer_instance
  | setIndex => cases ho
  | _ => cases h <;> infer_instance

end Lists

-- ---------------------------------------------------------------------------
-- Maps and cells
-- ---------------------------------------------------------------------------

namespace Maps

/-- The hook of an inert map is no function, so that the lookup is passed on if anything. -/
instance adds_index : Adds R (index machine args) := by
  unfold index
  refine .argument fun map _ => .argument fun key _ => .bind fun value => ?_
  split
  · infer_instance
  · refine Map.adds_hook?_bind (by simp [Map.hookNames]) adds_nothing
      fun hook _ {s e t} hs hcallable hrun => ?_
    have hkind : ¬ (s.kind hook = .function ∨ s.kind hook = .native) := by
      simpa [State.isCallable, Payload.isCallable, State.kind] using hcallable
    dsimp only at hrun
    rw [ending?_bind, run_kind] at hrun
    simp only [hkind, if_false] at hrun
    exact Adds.holds hs hrun

instance adds_represent : Adds R (represent machine args) := by
  unfold represent
  refine .argument fun map _ => Map.adds_callableHook (by simp [Map.hookNames]) ?_
  have htext : Adds R (Rendering.mapText (Rendering.text machine.toDispatcher) map) :=
    Rendering.adds_mapText Rendering.adds_text
  infer_instance

instance adds_toText : Adds R (toText machine args) := by
  unfold toText
  refine .argument fun map _ => Map.adds_hook?_bind (by simp [Map.hookNames])
    (adds_holding _ (represent machine args)) fun hook _ {s e t} hs hcallable hrun => ?_
  let inner := s.withHeld ([map, hook] :: s.held)
  have hasked : (do if (← get).isCallable hook then machine.call hook [map] else represent machine args :
      Action Ref).ending? inner = (represent machine args).ending? inner := by
    rw [ending?_bind, EStateM.run_get]
    simp only [show inner.isCallable hook = false from hcallable, Bool.false_eq_true, if_false]
  have hshown : (holding [map, hook] (do
      if (← get).isCallable hook then machine.call hook [map] else represent machine args)).ending? s =
      (holding [map, hook] (represent machine args)).ending? s := by
    rw [ending?_holding, ending?_holding]
    exact congrArg _ hasked
  exact Adds.holds hs (hshown.symm.trans hrun)

theorem adds_handler (ho : operation.observes .map = true) (h : handler operation = some body) :
    Adds R (body machine args) := by
  cases operation with
  | length => cases h; unfold length; infer_instance
  | iterate => cases h; unfold Iteration.stepper; infer_instance
  | setIndex => cases ho
  | call => cases ho
  | _ => cases h <;> infer_instance

instance adds_representCell : Adds R (representCell machine args) := by
  unfold representCell
  refine .argument fun cell _ => ?_
  have htext : Adds R (Rendering.cellText (Rendering.text machine.toDispatcher) cell) :=
    Rendering.adds_cellText Rendering.adds_text
  infer_instance

theorem adds_cellHandler (h : cellHandler operation = some body) : Adds R (body machine args) := by
  cases operation <;> cases h <;> infer_instance

end Maps

-- ---------------------------------------------------------------------------
-- Buffers
-- ---------------------------------------------------------------------------

namespace Buffers

omit hd ha

instance adds_viewOf (object : Ref) : Adds R (viewOf object) := by
  unfold viewOf
  refine .bind fun payload => ?_
  split <;> infer_instance

instance adds_sizedBytes (use : UnsizedUse) (object : Ref) : Adds R (sizedBytes use object) := by
  unfold sizedBytes
  refine .bind fun view => .bind fun state => ?_
  split <;> infer_instance

instance adds_createBorrowed (view : View) (anchors : List Ref) [h : AllInside R anchors] :
    Adds R (createBorrowed view anchors) := adds_create h.holds

instance adds_textBytes (object : Ref) : Adds R (textBytes object) := by
  unfold textBytes
  refine .bind fun payload => ?_
  split <;> infer_instance

instance adds_textOf (object : Ref) : Adds R (textOf object) := by
  unfold textOf
  refine .bind fun payload => ?_
  split <;> infer_instance

include hd ha

instance adds_add : Adds R (add machine args) := by
  unfold add; infer_instance

instance adds_mul : Adds R (mul machine args) := by
  unfold mul; infer_instance

instance adds_compare : Adds R (compare machine args) := by
  unfold compare
  refine .bind fun first => .bind fun left => .argument fun other _ => .bind fun kind => ?_
  split <;> infer_instance

instance adds_index : Adds R (index machine args) := by
  unfold index
  refine .argument fun buffer _ => .argument fun key _ => .bind fun name => ?_
  split
  · infer_instance
  · refine .bind fun view => .bind fun offset => ?_
    split <;> infer_instance

theorem adds_handler (h : handler operation = some body) : Adds R (body machine args) := by
  cases operation with
  | length => cases h; unfold length; infer_instance
  | iterate => cases h; unfold Iteration.stepper; infer_instance
  | toInt => cases h; unfold toInt; infer_instance
  | toFloat => cases h; unfold toFloat; infer_instance
  | toText => cases h; unfold toText; infer_instance
  | toBuffer => cases h; unfold toBuffer; infer_instance
  | represent => cases h; unfold represent; infer_instance
  | _ => cases h <;> infer_instance

end Buffers

-- ---------------------------------------------------------------------------
-- Functions of both sorts
-- ---------------------------------------------------------------------------

namespace Functions

omit hd ha in
instance adds_textOrNothing (text : Option String) : Adds R (textOrNothing text) := by
  unfold textOrNothing
  split <;> infer_instance

omit hd ha in
theorem adds_createTexts (texts : List String) :
    Adds R (do createList (← createAll (texts.map .string))) := by
  refine adds_of_spawned fun s => ?_
  simp only [createAll, List.mapM_map]
  have hlist := Nodes.ends_createList (s := s) (fun t o text => t.payload o = .string text)
    (fun hgrown h => hgrown.payload_eq h (by simp [Payload.kind]))
    (fun _ _ => Nodes.ends_create_copy rfl) texts
  exact hlist.imp_value fun _ _ h => h.1

omit hd ha in
theorem adds_part {function : Function} {name : Bytes} {part : Action Ref}
    (h : part? function name = some part) : Adds R part := by
  have htexts := adds_createTexts (R := R) function.params
  unfold part? at h
  repeat' split at h
  all_goals cases h <;> infer_instance

omit hd ha in
theorem adds_expect {α : Type} {object : Ref} {f : Function → Action α} [Inside R object]
    (hf : ∀ function, Inside R function.attributes → Adds R (f function)) :
    Adds R (expect object >>= f) := by
  unfold expect
  rw [bind_assoc]
  refine .payload fun payload hpayload => ?_
  cases payload with
  | function made =>
    simp only [pure_bind]
    exact hf made ⟨hpayload.holds _ (by simp [Payload.references])⟩
  | _ => exact adds_raise_bind _ _

instance adds_index : Adds R (index machine args) := by
  unfold index
  refine .argument fun callee _ => .argument fun key _ => ?_
  refine adds_expect fun function _ => .bind fun name => ?_
  split
  · rename_i part hpart
    obtain ⟨bytes, -, hpart⟩ := Option.bind_eq_some_iff.mp hpart
    exact adds_part hpart
  · infer_instance

omit hd ha in
instance adds_toText : Adds R (toText machine args) := by
  unfold toText
  refine .bind fun object => .bind fun payload => ?_
  split <;> infer_instance

theorem adds_handler (ho : operation.observes .function = true) (h : handler operation = some body) :
    Adds R (body machine args) := by
  cases operation with
  | call => cases ho
  | setIndex => cases ho
  | _ => cases h <;> infer_instance

end Functions

namespace Natives

omit hd ha in
instance adds_toText : Adds R (toText machine args) := by
  unfold toText
  refine .bind fun object => .bind fun payload => ?_
  split <;> infer_instance

omit hd ha in
theorem adds_handler (ho : operation.observes .native = true) (h : handler operation = some body) :
    Adds R (body machine args) := by
  cases operation with
  | call => cases ho
  | _ => cases h <;> infer_instance

end Natives

-- ---------------------------------------------------------------------------
-- Statements and expressions
-- ---------------------------------------------------------------------------

namespace Nodes

omit hd ha in
instance adds_expect (object : Ref) : Adds R (expect object) := by
  unfold expect
  refine .bind fun payload => ?_
  split <;> infer_instance

omit hd ha in
instance adds_createField (field : Field) : Adds R (createField field) :=
  adds_of_spawned fun _ => (ends_createField field).imp_value fun _ _ h => h.1

instance adds_index : Adds R (index machine args) := by
  unfold index
  refine .bind fun target => .bind fun node => .bind fun name => ?_
  split <;> infer_instance

omit hd ha in
instance adds_toText : Adds R (toText machine args) := by
  unfold toText
  refine .bind fun object => .bind fun payload => ?_
  split <;> infer_instance

theorem adds_handler {kind : Kind} (ho : operation.observes kind = true)
    (h : handler operation = some body) : Adds R (body machine args) := by
  cases operation with
  | call => cases ho
  | setIndex => cases ho
  | _ => cases h <;> infer_instance

end Nodes

-- ---------------------------------------------------------------------------
-- Libraries, symbols and streams
-- ---------------------------------------------------------------------------

namespace Libraries

instance adds_symbol : Adds R (symbol machine args) := by
  unfold symbol
  refine .bind fun library => .bind fun name => .bind fun payload => ?_
  split
  · split <;> infer_instance
  · infer_instance

theorem adds_handler (h : handler operation = some body) : Adds R (body machine args) := by
  cases operation <;> cases h <;> infer_instance

omit hd ha in
theorem adds_symbolHandler (h : symbolHandler operation = some body) : Adds R (body machine args) := by
  cases operation <;> cases h <;> infer_instance

end Libraries

namespace Streams

omit hd ha in
instance adds_index : Adds R (index machine args) := by
  unfold index; infer_instance

omit hd ha in
theorem adds_handler (ho : operation.observes .stream = true) (h : handler operation = some body) :
    Adds R (body machine args) := by
  cases operation with
  | shiftLeft => cases ho
  | shiftRight => cases ho
  | _ => cases h <;> infer_instance

end Streams

end Behavior

-- ---------------------------------------------------------------------------
-- All kinds
-- ---------------------------------------------------------------------------

section Machine

open Behavior

variable {R : Ref → Prop} {operation : Operation} {args : List Ref} {machine : Machine}
  [Dispatcher.Adds R machine.toDispatcher] [AllInside R args]
  {body : Handler} {kind : Kind}

theorem Kind.adds_ownHandler (ho : operation.observes kind = true)
    (h : kind.ownHandler operation = some body) : Adds R (body machine args) := by
  cases kind with
  | singlet => exact Singlets.adds_handler h
  | int => exact Numbers.adds_intHandler h
  | float => exact Numbers.adds_floatHandler h
  | string => exact Strings.adds_handler h
  | list => exact Lists.adds_handler ho h
  | map => exact Maps.adds_handler ho h
  | cell => exact Maps.adds_cellHandler h
  | function => exact Functions.adds_handler ho h
  | native => exact Natives.adds_handler ho h
  | statement => exact Nodes.adds_handler ho h
  | expression => exact Nodes.adds_handler ho h
  | buffer => exact Buffers.adds_handler h
  | library => exact Libraries.adds_handler h
  | symbol => exact Libraries.adds_symbolHandler h
  | stream => exact Streams.adds_handler ho h

theorem Kind.adds_handler (ho : operation.observes kind = true)
    (h : kind.handler operation = some body) : Adds R (body machine args) := by
  unfold handler at h
  split at h
  · rename_i own hown
    cases h
    exact Kind.adds_ownHandler ho hown
  · exact Shared.adds_handler ho h

end Machine

instance machine_adds {R : Ref → Prop} (host : Host) (rounds : Nat) :
    Dispatcher.Adds R (machine host rounds).toDispatcher := by
  induction rounds with
  | zero => exact ⟨fun _ _ => adds_exhausted⟩
  | succ rounds ih =>
    refine ⟨fun {kind operation args} ho hargs => ?_⟩
    show Adds R (behave host (rounds + 1) kind operation args)
    unfold behave
    split
    · rename_i body hbody
      have hadds : Adds R (body (machine host rounds) args) := Kind.adds_handler ho hbody
      exact hadds
    · infer_instance

end ObjectModel
