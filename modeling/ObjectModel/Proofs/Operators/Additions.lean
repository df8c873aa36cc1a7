import ObjectModel.Proofs.Code.Copies
import ObjectModel.Proofs.Comparison.Contents
import ObjectModel.Proofs.Maps.Lookup

/-!
# Actions that only add

Objects are inert when they refer to inert objects alone and no map among them has a hook to call. An
action adds when, from inert objects, it does nothing to what is there but make more: objects, blocks of
memory and the error it raises. This is closed under the steps that actions are made of, as long as what
they read is inert.
-/

namespace ObjectModel

open ObjectModel.Action

-- ---------------------------------------------------------------------------
-- Inert objects
-- ---------------------------------------------------------------------------

/-- The names under which a map holds what is called when the map is read or shown. -/
def Map.hookNames : List String := ["__index", "__tostring", "__repr"]

namespace State

/-- A map has no hook to call when it is read or shown. -/
def HasNoHook (s : State) (map : Ref) : Prop :=
  ∀ name ∈ Map.hookNames, ∀ hook, s.named? map name = some hook → s.isCallable hook = false

instance (s : State) (map : Ref) : Decidable (s.HasNoHook map) :=
  decidable_of_iff (∀ name ∈ Map.hookNames, (s.named? map name).all (!s.isCallable ·)) <| by
    simp [HasNoHook, Option.all_eq_true]

/-- A map has no hook to call, now or after more was made. A key that looks at memory which is not set
apart yet may come to read as the name of a hook. -/
def Unhooked (s : State) (map : Ref) : Prop :=
  ∀ t, s.Extends t → t.HasNoHook map

/-- Objects that refer to such objects alone, without a hook to call. The object for no value is one of
them, and stands for arguments that are missing. -/
structure Inert (s : State) (R : Ref → Prop) : Prop where
  made : ∀ o, R o → s.heap.Contains o
  closed : ∀ o, R o → ∀ p ∈ (s.payload o).references, R p
  unhooked : ∀ o, R o → s.Unhooked o
  nothing : R s.nothing
  frames : ∀ o ∈ s.frames, s.heap.Contains o

def HoldsInert (s : State) (R : Ref → Prop) (cell : Ref) : Prop :=
  ∃ key value, s.payload cell = .cell key value ∧ R key ∧ R value

/-- Objects and blocks of memory were made, and nothing else is another, but for the error if there is
one and for what a text under way has shown. Who is made refers to what was there before, unless it is
a map that got its cells later. -/
structure Adds (s : State) (R : Ref → Prop) (e : Ending) (t : State) : Prop extends s.Extends t where
  rest : t = { s with
    heap := t.heap, memory := t.memory, pending := t.pending, shown := t.shown, trail := t.trail }
  shown : t.shown.isSome = s.shown.isSome
  pending : e = .value → t.pending = s.pending
  layered : ∀ o, ¬ s.heap.Contains o → ∀ p ∈ (t.payload o).references,
    p.index < o.index ∨ t.HoldsInert R p

variable {R : Ref → Prop} {e : Ending} {s t u : State} {object : Ref}

theorem Inert.extends (h : s.Inert R) (hextends : s.Extends t) (hframes : t.frames = s.frames) :
    t.Inert R where
  made o ho := Nat.lt_of_lt_of_le (h.made o ho) hextends.size
  closed o ho := hextends.kept o (h.made o ho) ▸ h.closed o ho
  unhooked o ho u hu := h.unhooked o ho u (hextends.trans hu)
  nothing := hextends.nothing ▸ h.nothing
  frames o ho := Nat.lt_of_lt_of_le (h.frames o (hframes ▸ ho)) hextends.size

theorem Inert.inert_cell (h : s.Inert R) (ho : R object) (hcell : cell ∈ s.cells object) : R cell := by
  refine h.closed object ho cell ?_
  unfold cells at hcell
  cases hmap : s.payload object with
  | map cells => simpa [hmap, Payload.references] using hcell
  | _ => simp [hmap] at hcell

theorem Inert.inert_named (h : s.Inert R) (ho : R object) {name : String} {value : Ref}
    (hvalue : s.named? object name = some value) : R value := by
  obtain ⟨cell, hcell, hvalue⟩ := Option.bind_eq_some_iff.mp hvalue
  have hinert := h.inert_cell ho (List.mem_of_find?_eq_some hcell)
  unfold cellValue? at hvalue
  cases hparts : s.payload cell with
  | cell key held =>
    simp only [hparts, Payload.cellParts?, Option.map_some, Option.some.injEq] at hvalue
    exact hvalue ▸ h.closed cell hinert held (by simp [hparts, Payload.references])
  | _ => simp [hparts, Payload.cellParts?] at hvalue

theorem Inert.inert_hook (h : s.Inert R) (ho : R object) {name : String} {hook : Ref}
    (hname : name ∈ Map.hookNames) (hhook : s.hook? object name = some hook) :
    R hook ∧ s.isCallable hook = false := by
  obtain ⟨hnamed, -⟩ := Option.filter_eq_some_iff.mp hhook
  exact ⟨h.inert_named ho hnamed, h.unhooked object ho s (.refl s) name hname hook hnamed⟩

theorem HoldsInert.contains (h : s.HoldsInert R object) : s.heap.Contains object := by
  obtain ⟨key, value, hcell, -⟩ := h
  exact contains_of_kind_ne (by simp [kind_of_payload hcell, Payload.kind])

theorem HoldsInert.extends (h : s.HoldsInert R object) (hextends : s.Extends t) :
    t.HoldsInert R object := by
  obtain ⟨key, value, hcell, hparts⟩ := id h
  exact ⟨key, value, (hextends.kept object h.contains).trans hcell, hparts⟩

theorem Inert.below (h : s.Inert R) (hp : R object) (ho : ¬ s.heap.Contains o) :
    object.index < o.index :=
  Nat.lt_of_lt_of_le (h.made object hp) (Nat.le_of_not_lt ho)

namespace Adds

theorem frames (h : s.Adds R e t) : t.frames = s.frames := by rw [h.rest]

theorem inert (h : s.Adds R e t) (hs : s.Inert R) : t.Inert R := hs.extends h.toExtends h.frames

theorem refl (s : State) : s.Adds R .value s where
  toExtends := .refl s
  rest := rfl
  shown := rfl
  pending _ := rfl
  layered o ho := by simp [references_of_not_contains ho]

theorem trans (h : s.Adds R .value t) (h' : t.Adds R e u) : s.Adds R e u where
  toExtends := h.toExtends.trans h'.toExtends
  rest := by rw [h'.rest, h.rest]
  shown := h'.shown.trans h.shown
  pending he := (h'.pending he).trans (h.pending rfl)
  layered o ho p hp := by
    by_cases hin : t.heap.Contains o
    · rw [h'.kept o hin] at hp
      exact (h.layered o ho p hp).imp_right (·.extends h'.toExtends)
    · exact h'.layered o hin p hp

/-- What is made refers to what was there before. -/
theorem below_made (s : State) {payload : Payload} (h : ∀ p ∈ payload.references, s.heap.Contains p) :
    ∀ o, ¬ s.heap.Contains o → ∀ p ∈ ((s.made payload).payload o).references, p.index < o.index := by
  intro o ho p hp
  by_cases hnext : o = s.heap.next
  · subst hnext
    rw [payload_made_next] at hp
    exact h p hp
  · rw [payload_made_other hnext, references_of_not_contains ho] at hp
    cases hp

theorem made (s : State) {payload : Payload} (h : ∀ p ∈ payload.references, s.heap.Contains p) :
    s.Adds R .value (s.made payload) where
  toExtends := (Extends.refl s).thenMade payload
  rest := rfl
  shown := rfl
  pending _ := rfl
  layered o ho p hp := .inl (below_made s h o ho p hp)

theorem withBlock (s : State) (bytes : Bytes) : s.Adds R .value (s.withBlock bytes) where
  toExtends := extends_withBlock s bytes
  rest := rfl
  shown := rfl
  pending _ := rfl
  layered o ho p hp := .inl (below_made s (by simp [Payload.references]) o ho p hp)

theorem raising (s : State) (error : Ref) (h : ∀ o ∈ s.frames, s.heap.Contains o) :
    s.Adds R .raised (s.raising error) where
  toExtends := ⟨⟨rfl, (Grown.made s _).kept, (Grown.made s _).size⟩, Nat.le_refl _, fun _ _ => rfl⟩
  rest := rfl
  shown := rfl
  pending := nofun
  layered o ho p hp := .inl (below_made s (by simpa [Payload.references]) o ho p hp)

theorem faulting (s : State) (fault : Fault) (h : ∀ o ∈ s.frames, s.heap.Contains o) :
    s.Adds R .raised (s.faulting fault) :=
  (made s (by simp [Payload.references])).trans
    (raising _ _ fun o ho => Nat.lt_of_lt_of_le (h o ho) (Grown.made s _).size)

theorem of_spawned (h : s.Spawned t) : s.Adds R .value t where
  toExtends := h.grown.extends
  rest := by rw [h.grown.rest]
  shown := by rw [h.grown.rest]
  pending _ := by rw [h.grown.rest]
  layered o ho p hp := .inl (h.below o ho p hp)

theorem unheld {held : List (List Ref)} (h : (s.withHeld held).Adds R e t) :
    s.Adds R e (t.withHeld s.held) where
  toExtends := h.toExtends.unheld s.held
  rest := by rw [h.rest]; rfl
  shown := h.shown
  pending := h.pending
  layered := h.layered

theorem undelegated (h : s.deeper.Adds R e t) : s.Adds R e t.shallower where
  toExtends := ⟨⟨h.nothing, h.kept, h.size⟩, h.blocks, h.block⟩
  rest := by
    have hdelegations : t.delegations = s.delegations + 1 := by rw [h.rest]; rfl
    unfold shallower
    rw [hdelegations]
    exact congrArg (fun u => { u with delegations := s.delegations }) h.rest
  shown := h.shown
  pending := h.pending
  layered := h.layered

/-- A note that is taken meanwhile is gone in the end. -/
theorem unseen {note : Std.TreeSet Nat} (h : State.Adds { s with shown := some note } R e t)
    (hshown : s.shown = none) : s.Adds R e { t with shown := none } where
  toExtends := ⟨⟨h.nothing, h.kept, h.size⟩, h.blocks, h.block⟩
  rest := by rw [h.rest]
  shown := by rw [hshown]
  pending := h.pending
  layered := h.layered

theorem noted {note : Std.TreeSet Nat} (hshown : s.shown.isSome) :
    s.Adds R .value { s with shown := some note } where
  toExtends := ⟨⟨rfl, fun _ _ => rfl, Nat.le_refl _⟩, Nat.le_refl _, fun _ _ => rfl⟩
  rest := rfl
  shown := hshown.symm
  pending _ := rfl
  layered o ho := by
    have hnone := references_of_not_contains ho
    simp only [State.payload] at hnone ⊢
    simp [hnone]

end Adds

/-- Whether objects are inert is a matter of what they are. -/
theorem Inert.beside (h : s.Inert R) (hheap : t.heap = s.heap) (hmemory : t.memory = s.memory)
    (hnothing : t.nothing = s.nothing) (hframes : t.frames = s.frames) : t.Inert R := by
  refine h.extends ⟨⟨hnothing, fun o _ => ?_, ?_⟩, ?_, fun _ _ => ?_⟩ hframes
  · rw [payload, hheap, payload]
  · rw [hheap]
  · rw [hmemory]
  · rw [hmemory]

theorem Inert.withHeld (h : s.Inert R) (held : List (List Ref)) : (s.withHeld held).Inert R :=
  h.beside rfl rfl rfl rfl

end State

class Inside (R : Ref → Prop) (object : Ref) : Prop where
  holds : R object

class AllInside (R : Ref → Prop) (objects : List Ref) : Prop where
  holds : ∀ object ∈ objects, R object

instance {R : Ref → Prop} {object : Ref} [h : Inside R object] : AllInside R [object] :=
  ⟨List.forall_mem_singleton.mpr h.holds⟩

instance {R : Ref → Prop} {object : Ref} {rest : List Ref} [h : Inside R object]
    [hrest : AllInside R rest] : AllInside R (object :: rest) := ⟨List.forall_mem_cons.mpr ⟨h.holds, hrest.holds⟩⟩

theorem AllInside.items {R : Ref → Prop} {payload : Payload} (h : AllInside R payload.references) :
    AllInside R (payload.items?.getD #[]).toList := by
  cases payload with
  | list items => exact h
  | _ => exact ⟨nofun⟩

class Action.Adds (R : Ref → Prop) (action : Action α) : Prop where
  holds : ∀ {s e t}, s.Inert R → action.ending? s = some (e, t) → s.Adds R e t

namespace Action

variable {R : Ref → Prop} {α β : Type} {s t u : State} {e : Ending}

-- ---------------------------------------------------------------------------
-- Sequences and branches
-- ---------------------------------------------------------------------------

theorem ending?_bind (x : Action α) (f : α → Action β) (s : State) :
    (x >>= f).ending? s = match x.run s with
      | .ok a t => (f a).ending? t
      | .error .raised t => some (.raised, t)
      | .error .exhausted _ => none := by
  unfold ending?
  rw [EStateM.run_bind]
  cases x.run s with
  | ok => rfl
  | error stop => cases stop <;> rfl

/-- A bind in a given state: the rest is asked for only where the first part arrives. -/
theorem adds_bind_of_inert {x : Action α} {f : α → Action β} (hs : s.Inert R)
    (hx : ∀ {e t}, x.ending? s = some (e, t) → s.Adds R e t)
    (hf : ∀ a t, x.run s = .ok a t → t.Inert R → (f a).ending? t = some (e, u) → t.Adds R e u)
    (h : (x >>= f).ending? s = some (e, u)) : s.Adds R e u := by
  rw [ending?_bind] at h
  cases hrun : x.run s with
  | ok a t =>
    rw [hrun] at h
    have hfirst := hx (ending?_ok hrun)
    exact hfirst.trans (hf a t hrun (hfirst.inert hs) h)
  | error stop t =>
    rw [hrun] at h
    cases stop with
    | raised =>
      cases h
      exact hx (ending?_raised hrun)
    | exhausted => cases h

theorem Adds.bind {x : Action α} {f : α → Action β} [hx : Adds R x] (hf : ∀ a, Adds R (f a)) :
    Adds R (x >>= f) :=
  ⟨fun hs => adds_bind_of_inert hs (hx.holds hs) fun a _ _ ht => (hf a).holds ht⟩

instance adds_bind (x : Action α) (f : α → Action β) [Adds R x] [hf : ∀ a, Adds R (f a)] :
    Adds R (x >>= f) := .bind hf

theorem Adds.read {x : Action α} {f : α → Action β} (find : State → α)
    (hx : ∀ s, x.run s = .ok (find s) s) (hf : ∀ s, s.Inert R → Adds R (f (find s))) :
    Adds R (x >>= f) := by
  refine ⟨fun {s e t} hs h => ?_⟩
  rw [ending?_bind, hx] at h
  exact (hf s hs).holds hs h

theorem Adds.of_step {action : Action α} (f : State → α × State)
    (hrun : ∀ s, action.run s = .ok (f s).1 (f s).2)
    (hadds : ∀ s : State, s.Inert R → s.Adds R .value (f s).2) : Adds R action := by
  refine ⟨fun {s e t} hs h => ?_⟩
  rcases ending?_cases h with ⟨a, ha, rfl⟩ | ⟨ha, rfl⟩
  · rw [hrun] at ha
    cases ha
    exact hadds s hs
  · rw [hrun] at ha
    cases ha

theorem Adds.of_read {action : Action α} (find : State → α)
    (hrun : ∀ s, action.run s = .ok (find s) s) : Adds R action :=
  .of_step (fun s => (find s, s)) hrun fun _ _ => .refl _

instance adds_pure (a : α) : Adds R (pure a : Action α) := .of_read (fun _ => a) fun _ => rfl

instance adds_get : Adds R (get : Action State) := .of_read (fun s => s) fun _ => rfl

instance adds_ite (c : Prop) [Decidable c] (x y : Action α) [Adds R x] [Adds R y] :
    Adds R (if c then x else y) := by
  split <;> infer_instance

instance adds_exhausted : Adds R (throw .exhausted : Action α) := ⟨fun _ h => by cases h⟩

-- ---------------------------------------------------------------------------
-- Reading
-- ---------------------------------------------------------------------------

instance adds_payload (object : Ref) : Adds R (payload object) := .of_read _ (run_payload object)

instance adds_kind (object : Ref) : Adds R (kind object) := .of_read _ (run_kind object)

instance adds_nothing : Adds R nothing := .of_read _ run_nothing

instance adds_isNothing (object : Ref) : Adds R (isNothing object) := .of_read _ (run_isNothing object)

instance adds_orNothing (object : Option Ref) : Adds R (orNothing object) :=
  .of_read _ (run_orNothing object)

instance adds_nameBytes? (object : Ref) : Adds R (nameBytes? object) :=
  .of_read _ (run_nameBytes? object)

instance adds_argument (args : List Ref) (index : Nat) : Adds R (argument args index) :=
  .of_read _ (run_argument args index)

theorem Adds.payload {object : Ref} {f : Payload → Action α} [ho : Inside R object]
    (hf : ∀ payload, AllInside R payload.references → Adds R (f payload)) :
    Adds R (Action.payload object >>= f) :=
  .read _ (run_payload object) fun _ hs => hf _ ⟨hs.closed object ho.holds⟩

theorem Adds.argument {args : List Ref} {index : Nat} {f : Ref → Action α} [hargs : AllInside R args]
    (hf : ∀ object, Inside R object → Adds R (f object)) :
    Adds R (Action.argument args index >>= f) := by
  refine .read _ (run_argument args index) fun s hs => hf _ ⟨?_⟩
  cases hfound : args[index]? with
  | none => exact hs.nothing
  | some object => exact hargs.holds object (List.mem_of_getElem? hfound)

-- ---------------------------------------------------------------------------
-- Making and raising
-- ---------------------------------------------------------------------------

theorem adds_create {payload : Payload} (h : ∀ p ∈ payload.references, R p) : Adds R (create payload) :=
  .of_step (fun s => (s.heap.next, s.made payload)) (run_create payload) fun _ hs =>
    .made _ fun p hp => hs.made p (h p hp)

instance adds_createInt (value : Int64) : Adds R (createInt value) := adds_create nofun

instance adds_createString (text : String) : Adds R (createString text) := adds_create nofun

instance adds_createFloat (value : Binary64) : Adds R (create (.float value)) := adds_create nofun

instance adds_createNative (function : Native) : Adds R (createNative function) := adds_create nofun

instance adds_createSymbol (place : Nat) (name : String) : Adds R (create (.symbol place name)) :=
  adds_create nofun

instance adds_createStatement (node : Option Statement) : Adds R (create (.statement node)) :=
  adds_create nofun

instance adds_createList (items : List Ref) [h : AllInside R items] : Adds R (createList items) :=
  adds_create (by simpa [Payload.references] using h.holds)

theorem adds_of_spawned {action : Action α}
    (h : ∀ s, action.Ends s (fun _ t => s.Spawned t) fun _ => False) : Adds R action := by
  refine ⟨fun {s e t} _ hrun => ?_⟩
  rcases ending?_cases hrun with ⟨a, ha, rfl⟩ | ⟨ha, rfl⟩
  · exact .of_spawned ((ends_of_run ha).mp (h s))
  · exact ((ends_of_raised ha).mp (h s)).elim

instance adds_raise (fault : Fault) : Adds R (raise fault : Action α) :=
  ⟨fun hs h => by cases h; exact .faulting _ fault hs.frames⟩

instance (priority := high) adds_raise_bind (fault : Fault) (f : β → Action α) :
    Adds R (raise fault >>= f) := ⟨fun hs h => by cases h; exact .faulting _ fault hs.frames⟩

instance adds_createBuffer (bytes : Bytes) : Adds R (createBuffer bytes) := by
  refine ⟨fun {s e t} hs h => ?_⟩
  rcases ending?_cases h with ⟨object, hrun, rfl⟩ | ⟨hrun, rfl⟩ <;> rw [run_createBuffer] at hrun <;>
    split at hrun <;> cases hrun
  · exact .withBlock s bytes
  · exact .faulting s _ hs.frames

-- ---------------------------------------------------------------------------
-- Lists of steps
-- ---------------------------------------------------------------------------

theorem adds_mapM {f : β → Action α} {xs : List β} (hf : ∀ x ∈ xs, Adds R (f x)) :
    Adds R (xs.mapM f) := by
  induction xs with
  | nil => simp only [List.mapM_nil]; infer_instance
  | cons x xs ih =>
    have hfirst := hf x List.mem_cons_self
    have hrest := ih fun y hy => hf y (List.mem_cons_of_mem _ hy)
    simp only [List.mapM_cons]
    infer_instance

-- ---------------------------------------------------------------------------
-- Steps around an action
-- ---------------------------------------------------------------------------

instance adds_holding (objects : List Ref) (action : Action α) [ha : Adds R action] :
    Adds R (holding objects action) := by
  refine ⟨fun {s e t} hs h => ?_⟩
  rw [ending?_holding, Option.map_eq_some_iff] at h
  obtain ⟨⟨e, t⟩, hrun, h⟩ := h
  cases h
  exact .unheld (ha.holds (hs.withHeld (objects :: s.held)) hrun)

instance adds_delegated (action : Action α) [ha : Adds R action] : Adds R (delegated action) := by
  refine ⟨fun {s e t} hs h => ?_⟩
  rw [ending?_delegated] at h
  split at h
  · cases h
    exact .faulting s _ hs.frames
  · obtain ⟨⟨e, t⟩, hrun, h⟩ := Option.map_eq_some_iff.mp h
    cases h
    exact .undelegated (ha.holds (hs.beside rfl rfl rfl rfl) hrun)

end Action

namespace Rendering

variable {R : Ref → Prop} {α : Type}

instance adds_noting (action : Action α) [ha : Adds R action] : Adds R (noting action) := by
  refine ⟨fun {s e t} hs h => ?_⟩
  rw [ending?_noting] at h
  split at h
  · exact ha.holds hs h
  · rename_i hshown
    obtain ⟨⟨e, t⟩, hrun, h⟩ := Option.map_eq_some_iff.mp h
    cases h
    exact .unseen (ha.holds (hs.beside rfl rfl rfl rfl) hrun) hshown

instance adds_note (object : Ref) : Adds R (note object) := by
  refine ⟨fun {s e t} hs h => ?_⟩
  rcases ending?_cases h with ⟨fresh, hrun, rfl⟩ | ⟨hrun, rfl⟩ <;> rw [run_note] at hrun <;>
    split at hrun
  · split at hrun <;> cases hrun
    · exact .refl s
    · rename_i hshown _
      exact .noted (by rw [hshown]; rfl)
  · cases hrun
    exact .refl s
  · split at hrun <;> cases hrun
  · cases hrun

end Rendering

end ObjectModel
