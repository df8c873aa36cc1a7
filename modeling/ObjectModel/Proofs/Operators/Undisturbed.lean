import ObjectModel.Builtin.Globals
import ObjectModel.Proofs.Operators.Behaviors
import ObjectModel.Proofs.References.Counts

/-!
# Operators leave objects alone

An operation that neither exchanges nor stores nor calls does nothing to the objects that are there, as
long as it meets no hook that it calls. It makes its result and what it needs on the way, or the error it
raises; all that is made is released with it, so that the counts of references are what they were
(`operators_disturb_nothing`).
-/

namespace ObjectModel

open ObjectModel.Action Relation

variable {R : Ref → Prop} {s t : State} {e : Ending} {operation : Operation} {args : List Ref} {o : Ref}

-- ---------------------------------------------------------------------------
-- What arguments lead to
-- ---------------------------------------------------------------------------

namespace State

/-- The object is one of the objects, or they lead to it by what they refer to. -/
def Leads (s : State) (objects : List Ref) (o : Ref) : Prop :=
  ∃ a ∈ objects, ReflTransGen (fun p c => c ∈ (s.payload p).references) a o

/-- Objects and whoever else holds objects refer to objects that were made. -/
structure Whole (s : State) : Prop where
  closed : s.Closed
  roots : ∀ o ∈ s.roots, s.heap.Contains o

def answeringKind (s : State) (args : List Ref) : Kind := (args.head?.map s.kind).getD .singlet

theorem Whole.made_leads (h : s.Whole) {objects : List Ref} (hobjects : ∀ a ∈ objects, s.heap.Contains a)
    (ho : s.Leads objects o) : s.heap.Contains o := by
  obtain ⟨a, ha, hpath⟩ := ho
  induction hpath with
  | refl => exact hobjects a ha
  | tail _ hstep => exact h.closed.made_of_mem hstep

theorem Leads.tail {objects : List Ref} {p : Ref} (h : s.Leads objects o)
    (hp : p ∈ (s.payload o).references) : s.Leads objects p := by
  obtain ⟨a, ha, hpath⟩ := h
  exact ⟨a, ha, hpath.tail hp⟩

/-- What the arguments and the object for missing ones lead to is inert if nothing has a hook to call. -/
theorem Whole.inert (h : s.Whole) (hargs : ∀ a ∈ args, s.heap.Contains a)
    (hhooks : ∀ o, s.Leads (s.nothing :: args) o → s.Unhooked o) :
    s.Inert (s.Leads (s.nothing :: args)) where
  made _ := h.made_leads (List.forall_mem_cons.mpr ⟨h.roots _ List.mem_cons_self, hargs⟩)
  closed _ ho _ hp := ho.tail hp
  unhooked := hhooks
  nothing := ⟨_, List.mem_cons_self, .refl⟩
  frames o ho := h.roots o (by simp [State.roots, ho])

-- ---------------------------------------------------------------------------
-- Hooks that are there
-- ---------------------------------------------------------------------------

theorem Leads.mem_of_closed {objects args : List Ref} (hargs : args ⊆ objects)
    (hclosed : ∀ p ∈ objects, (s.payload p).references ⊆ objects) (h : s.Leads args o) :
    o ∈ objects := by
  obtain ⟨a, ha, hpath⟩ := h
  induction hpath with
  | refl => exact hargs ha
  | tail _ hstep ih => exact hclosed _ ih hstep

/-- Where the keys of a map are no buffers, or look at memory that was set apart, no hook comes to be
there that was not. -/
theorem Unhooked.of_placed (hclosed : s.Closed) (hmap : s.heap.Contains o)
    (hplaced : ∀ cell ∈ s.cells o, ∀ key value, s.payload cell = .cell key value →
      ∀ buffer, s.payload key = .buffer buffer → s.memory.Placed buffer.view.address)
    (h : s.HasNoHook o) : s.Unhooked o := by
  intro t ht name hname hook hhook
  have hnamed (cell : Ref) (hcell : cell ∈ s.cells o) :
      t.cellIsNamed name cell = s.cellIsNamed name cell := by
    unfold cellIsNamed
    rw [ht.kept cell (hclosed.made_cell hcell)]
    cases hparts : s.payload cell with
    | cell key value =>
      dsimp only
      unfold isNamed
      rw [ht.kept key (hclosed.made_key hparts)]
      cases hkey : s.payload key with
      | buffer buffer =>
        dsimp only
        rw [(ht.same (hplaced cell hcell key value hparts buffer hkey)).textBytes?]
      | _ => rfl
    | _ => rfl
  have hcells : t.cells o = s.cells o := by rw [cells, ht.kept o hmap, cells]
  obtain ⟨cell, hcell, hvalue⟩ := Option.bind_eq_some_iff.mp hhook
  rw [findNamed?, hcells, List.find?_congr hnamed] at hcell
  have hmade := hclosed.made_cell (List.mem_of_find?_eq_some hcell)
  rw [cellValue?, ht.kept cell hmade] at hvalue
  have hold : s.named? o name = some hook := Option.bind_eq_some_iff.mpr ⟨cell, hcell, hvalue⟩
  obtain ⟨⟨key, held⟩, hparts, rfl⟩ := Option.map_eq_some_iff.mp hvalue
  have hheld : s.heap.Contains held := by
    cases hpayload : s.payload cell <;> rw [hpayload] at hparts <;> cases hparts
    exact hclosed.made_value hpayload
  rw [isCallable, ht.kept held hheld]
  exact h name hname held hold

theorem unhooked_of_listed (objects : List Ref) {args : List Ref} (hclosed : s.Closed)
    (hargs : args ⊆ objects) (hrefers : ∀ p ∈ objects, (s.payload p).references ⊆ objects)
    (hmade : ∀ o ∈ objects, s.heap.Contains o) (hbuffers : ∀ o ∈ objects, s.kind o ≠ .buffer)
    (hhooks : ∀ o ∈ objects, s.HasNoHook o) : ∀ o, s.Leads args o → s.Unhooked o := by
  intro o ho
  have hmem := ho.mem_of_closed hargs hrefers
  refine .of_placed hclosed (hmade o hmem) (fun cell hcell key value hparts buffer hkey => ?_)
    (hhooks o hmem)
  have hcellMem : cell ∈ objects := by
    refine hrefers o hmem ?_
    unfold cells at hcell
    cases hmap : s.payload o <;> simp [hmap, Payload.references] at hcell ⊢
    exact hcell
  have hkeyMem : key ∈ objects := hrefers cell hcellMem (by simp [hparts, Payload.references])
  exact absurd (kind_of_payload hkey) (hbuffers key hkeyMem)

/-- No list among what objects lead to is a part of itself. -/
def ListsEnd (s : State) (objects : List Ref) : Prop :=
  ∀ o, s.Leads objects o → s.kind o = .list → ¬ TransGen (fun p c => c ∈ (s.payload p).references) o o

theorem listsEnd_of_listed (objects : List Ref) {args : List Ref} (hargs : args ⊆ objects)
    (hrefers : ∀ p ∈ objects, (s.payload p).references ⊆ objects)
    (hflat : ∀ p ∈ objects, s.kind p = .list →
      ∀ c ∈ (s.payload p).references, (s.payload c).references = []) : s.ListsEnd args := by
  intro o ho hlist hcycle
  obtain ⟨item, hitem, hpath⟩ := TransGen.head'_iff.mp hcycle
  have hnone := hflat o (ho.mem_of_closed hargs hrefers) hlist item hitem
  rcases hpath.cases_head with rfl | ⟨next, hnext, -⟩
  · rw [hnone] at hitem
    cases hitem
  · rw [hnone] at hnext
    cases hnext

-- ---------------------------------------------------------------------------
-- What was made is released
-- ---------------------------------------------------------------------------

theorem Adds.roots (h : s.Adds R .value t) : t.roots = s.roots := by
  rw [h.rest]
  simp only [State.roots, h.pending rfl]

theorem Adds.holder (h : s.Adds R e t) (hs : s.Inert R) (hclosed : s.Closed) {holder : Ref}
    (ho : ¬ s.heap.Contains o) (hrefers : o ∈ (t.payload holder).references) :
    ¬ s.heap.Contains holder ∧ ¬ t.HoldsInert R holder := by
  refine ⟨fun hold => ho ?_, ?_⟩
  · rw [h.kept holder hold] at hrefers
    exact hclosed.made_of_mem hrefers
  · rintro ⟨key, value, hcell, hkey, hvalue⟩
    rw [hcell] at hrefers
    rcases hrefers with _ | ⟨_, _ | ⟨_, ⟨⟩⟩⟩
    · exact ho (hs.made o hkey)
    · exact ho (hs.made o hvalue)

theorem Adds.released_made (h : s.Adds R .value t) (hs : s.Inert R) (hwhole : s.Whole)
    (ho : ¬ s.heap.Contains o) : t.Released o := by
  have hroot {o : Ref} (ho : ¬ s.heap.Contains o) : o ∉ t.roots := fun hmem =>
    ho (hwhole.roots o (h.roots ▸ hmem))
  -- Objects other than cells are referred to by later ones alone, of which there are finitely many.
  have hlast (o : Ref) (ho : ¬ s.heap.Contains o) (hcell : ¬ t.HoldsInert R o) : t.Released o := by
    induction hn : t.heap.size - o.index using Nat.strong_induction_on generalizing o with
    | _ n ih =>
      refine .intro (hroot ho) fun holder hmade hrefers => ?_
      obtain ⟨hnew, hholder⟩ := h.holder hs hwhole.closed ho hrefers
      have hlater := (h.layered holder hnew o hrefers).resolve_right hcell
      exact ih _ (by omega) holder hnew hholder rfl
  refine .intro (hroot ho) fun holder _ hrefers => ?_
  obtain ⟨hnew, hholder⟩ := h.holder hs hwhole.closed ho hrefers
  exact hlast holder hnew hholder

/-- Who was there before is released if and only if it was. -/
theorem Adds.released_iff (h : s.Adds R .value t) (hs : s.Inert R) (hwhole : s.Whole)
    (ho : s.heap.Contains o) : t.Released o ↔ s.Released o := by
  constructor
  · intro hreleased
    induction hreleased with
    | @intro o hroot _ ih =>
      refine .intro (h.roots ▸ hroot) fun holder hmade hrefers => ?_
      exact ih holder (Nat.lt_of_lt_of_le hmade h.size) ((h.kept holder hmade).symm ▸ hrefers) hmade
  · intro hreleased
    induction hreleased with
    | @intro o hroot _ ih =>
      refine .intro (h.roots.symm ▸ hroot) fun holder hmade hrefers => ?_
      by_cases hold : s.heap.Contains holder
      · exact ih holder hold (h.kept holder hold ▸ hrefers) hold
      · exact h.released_made hs hwhole hold

/-- What was made holds nobody who was there before. -/
theorem Adds.refCount_eq (h : s.Adds R .value t) (hs : s.Inert R) (hwhole : s.Whole)
    (ho : s.heap.Contains o) : t.refCount o = s.refCount o := by
  classical
  have hholders : {index ∈ Finset.range t.heap.size | ¬ t.Released ⟨index⟩} =
      {index ∈ Finset.range s.heap.size | ¬ s.Released ⟨index⟩} := by
    ext index
    simp only [Finset.mem_filter, Finset.mem_range]
    by_cases hold : s.heap.Contains ⟨index⟩
    · have hmade : index < t.heap.size := Nat.lt_of_lt_of_le hold h.size
      simp only [h.released_iff hs hwhole hold, hmade, show index < s.heap.size from hold]
    · have hnew := h.released_made hs hwhole hold
      simp only [hnew, not_true, and_false, show ¬ index < s.heap.size from hold, false_and]
  rw [State.refCount_eq (Nat.lt_of_lt_of_le ho h.size), State.refCount_eq ho, h.roots]
  congr 1
  refine Finset.sum_congr hholders fun index hindex => ?_
  rw [h.kept ⟨index⟩ (Finset.mem_range.mp (Finset.mem_filter.mp hindex).1)]

theorem Whole.slotted (h : s.Whole) {slot : Option Pending} (hslot : slot = none ∨ slot = s.pending) :
    State.Whole { s with pending := slot } := by
  refine ⟨h.closed.of_heap rfl, fun o ho => h.roots o ?_⟩
  rcases hslot with rfl | rfl
  · simp only [State.roots, List.mem_cons, List.mem_append, List.not_mem_nil] at ho ⊢
    tauto
  · exact ho

theorem Adds.slotted (h : s.Adds R e t) (slot : Option Pending) :
    State.Adds { s with pending := slot } R .value { t with pending := slot } where
  toExtends := ⟨⟨h.nothing, h.kept, h.size⟩, h.blocks, h.block⟩
  rest := by rw [h.rest]
  shown := h.shown
  pending _ := rfl
  layered := h.layered

end State

-- ---------------------------------------------------------------------------
-- Operators
-- ---------------------------------------------------------------------------

/-- Objects, scopes, frames and everything else are as they were, the error slot too unless an error was
raised, and only the trail may tell more. Once the slot is what it was, or empty, objects are held as often
as they would have been. -/
structure State.Untouched (s : State) (e : Ending) (t : State) : Prop where
  rest : t = { s with heap := t.heap, memory := t.memory, pending := t.pending, trail := t.trail }
  kept : ∀ o, s.heap.Contains o → t.payload o = s.payload o
  bytes : ∀ index < s.memory.blocks.size, t.memory.block index = s.memory.block index
  slot : e = .value → t.pending = s.pending
  counts : ∀ slot, slot = none ∨ slot = s.pending → ∀ o, s.heap.Contains o →
    State.refCount { t with pending := slot } o = State.refCount { s with pending := slot } o

/-- Where no text is under way, an operation that neither exchanges nor stores nor calls leaves everything
as it was, whether it gives a value or raises, if neither its arguments nor the object for missing ones
lead to a map with a hook to call. -/
theorem operators_disturb_nothing (host : Host) (rounds : Nat)
    (hobserves : operation.observes (s.answeringKind args) = true) (hquiet : s.shown = none)
    (hwhole : s.Whole) (hargs : ∀ a ∈ args, s.heap.Contains a)
    (hhooks : ∀ o, s.Leads (s.nothing :: args) o → s.Unhooked o)
    (hrun : ((machine host rounds).dispatch operation args).ending? s = some (e, t)) :
    s.Untouched e t := by
  have hinert := hwhole.inert hargs hhooks
  have hinside : AllInside (s.Leads (s.nothing :: args)) args :=
    ⟨fun a ha => ⟨a, List.mem_cons_of_mem _ ha, .refl⟩⟩
  have hbehave := (machine_adds host rounds).behaves hobserves hinside
  have hadds : s.Adds (s.Leads (s.nothing :: args)) e t := by
    refine hbehave.holds hinert ?_
    cases args <;> exact hrun
  have hshown : t.shown = s.shown := by
    have hnone := hadds.shown
    rw [hquiet] at hnone ⊢
    exact Option.not_isSome_iff_eq_none.mp (by simp [hnone])
  refine ⟨?_, hadds.kept, hadds.block, hadds.pending, fun slot hslot o ho => ?_⟩
  · conv_lhs => rw [hadds.rest, hshown]
  · have hslotted := hadds.slotted slot
    exact hslotted.refCount_eq (hinert.beside rfl rfl rfl rfl) (hwhole.slotted hslot) ho

/-- Two maps are merged. Both are as they were. -/
theorem operators_disturb_nothing_merged :
    let s := { Globals.bare {} .discard {} with
      heap := ⟨#[.singlet "None", .map [], .map [], .map [⟨4⟩], .cell ⟨5⟩ ⟨6⟩, .string "a", .int 1,
        .map [⟨8⟩], .cell ⟨5⟩ ⟨3⟩]⟩ }
    ∃ t, ((machine {} 3).dispatch .add [⟨3⟩, ⟨7⟩]).ending? s = some (.value, t) ∧
      t.entries ⟨10⟩ = [(⟨5⟩, ⟨3⟩)] ∧ s.Untouched .value t := by
  intro s
  have hclosed : s.Closed := by decide
  have hhooks : ∀ o, s.Leads (s.nothing :: [⟨3⟩, ⟨7⟩]) o → s.Unhooked o :=
    State.unhooked_of_listed [⟨0⟩, ⟨3⟩, ⟨4⟩, ⟨5⟩, ⟨6⟩, ⟨7⟩, ⟨8⟩] hclosed (by decide) (by decide)
      (by decide) (by decide) (by decide +kernel)
  have hmerged : (((machine {} 3).dispatch .add [⟨3⟩, ⟨7⟩]).ending? s).map
      (fun r => (r.1, r.2.entries ⟨10⟩)) = some (.value, [(⟨5⟩, ⟨3⟩)]) := by
    decide +kernel
  obtain ⟨⟨e, t⟩, hrun, hentries⟩ := Option.map_eq_some_iff.mp hmerged
  obtain ⟨rfl, hentries⟩ := Prod.mk.inj hentries
  exact ⟨t, hrun, hentries,
    operators_disturb_nothing {} 3 rfl rfl ⟨hclosed, by decide⟩ (by decide) hhooks hrun⟩

/-- What the arguments lead to is not enough to look at, as a payload can be given to the object for no
value, and a missing argument then has a hook. Nor is it enough to look at what is there now, as a key can
look at memory that is set apart in the meantime. -/
theorem operators_disturb_something :
    (¬ ∀ (host : Host) (rounds : Nat) (operation : Operation) (args : List Ref) (s t : State)
        (e : Ending),
      operation.observes (s.answeringKind args) = true → s.shown = none → s.Whole →
      (∀ a ∈ args, s.heap.Contains a) → s.ListsEnd args → (∀ o, s.Leads args o → s.Unhooked o) →
      ((machine host rounds).dispatch operation args).ending? s = some (e, t) → s.Untouched e t) ∧
    ¬ ∀ (host : Host) (rounds : Nat) (operation : Operation) (args : List Ref) (s t : State)
        (e : Ending),
      operation.observes (s.answeringKind args) = true → s.shown = none → s.Whole →
      (∀ a ∈ args, s.heap.Contains a) → s.ListsEnd (s.nothing :: args) →
      (∀ o, s.Leads (s.nothing :: args) o → s.HasNoHook o) →
      ((machine host rounds).dispatch operation args).ending? s = some (e, t) → s.Untouched e t := by
  constructor
  · intro hclaim
    let s := { Globals.bare {} .discard {} with
      heap := ⟨#[.map [⟨3⟩], .map [], .map [], .cell ⟨4⟩ ⟨5⟩, .string "__tostring",
        .native (.behavior .map .setIndex), .string "a"]⟩ }
    have hclosed : s.Closed := by decide
    have hhooks : ∀ o, s.Leads [⟨6⟩] o → s.Unhooked o :=
      State.unhooked_of_listed [⟨6⟩] hclosed (by decide) (by decide) (by decide) (by decide)
        (by decide +kernel)
    have hlists : s.ListsEnd [⟨6⟩] :=
      State.listsEnd_of_listed [⟨6⟩] (by decide) (by decide) (by decide)
    have hstored : (((machine {} 6).dispatch .add [⟨6⟩]).ending? s).map
        (fun r => (r.1, r.2.cells ⟨0⟩)) = some (.raised, [⟨3⟩, ⟨8⟩]) := by
      decide +kernel
    obtain ⟨⟨e, t⟩, hrun, hcells⟩ := Option.map_eq_some_iff.mp hstored
    have huntouched := hclaim {} 6 .add [⟨6⟩] s t e rfl rfl ⟨hclosed, by decide⟩ (by decide) hlists
      hhooks hrun
    have hcells : t.cells ⟨0⟩ = [⟨3⟩, ⟨8⟩] := (Prod.mk.inj hcells).2
    rw [State.cells, huntouched.kept ⟨0⟩ (by decide)] at hcells
    cases hcells
  · intro hclaim
    let s := { Globals.bare {} .discard {} with
      heap := ⟨#[.singlet "None", .map [], .map [], .map [⟨4⟩, ⟨7⟩], .cell ⟨5⟩ ⟨0⟩, .list #[⟨6⟩],
        .string "__index", .cell ⟨8⟩ ⟨9⟩, .buffer { view := .sized (Memory.base 0) 7 },
        .native (.behavior .map .setIndex), .list #[⟨11⟩],
        .buffer { view := .sized Memory.emptyBlock 0 }]⟩ }
    have hclosed : s.Closed := by decide
    let objects : List Ref := [⟨0⟩, ⟨3⟩, ⟨4⟩, ⟨5⟩, ⟨6⟩, ⟨7⟩, ⟨8⟩, ⟨9⟩, ⟨10⟩, ⟨11⟩]
    have hlisted : ∀ o ∈ objects, s.HasNoHook o := by decide +kernel
    have hlists : s.ListsEnd (s.nothing :: [⟨3⟩, ⟨10⟩]) :=
      State.listsEnd_of_listed objects (by decide) (by decide) (by decide)
    have hstored : (((machine {} 6).dispatch .index [⟨3⟩, ⟨10⟩]).ending? s).map
        (fun r => (r.1, (r.2.cells ⟨3⟩).length)) = some (.value, 3) := by
      decide +kernel
    obtain ⟨⟨e, t⟩, hrun, hcells⟩ := Option.map_eq_some_iff.mp hstored
    have huntouched := hclaim {} 6 .index [⟨3⟩, ⟨10⟩] s t e rfl rfl ⟨hclosed, by decide⟩ (by decide)
      hlists (fun o ho => hlisted o (ho.mem_of_closed (by decide) (by decide))) hrun
    have hcells : (t.cells ⟨3⟩).length = 3 := (Prod.mk.inj hcells).2
    rw [State.cells, huntouched.kept ⟨3⟩ (by decide)] at hcells
    cases hcells

end ObjectModel
