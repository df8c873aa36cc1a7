import ObjectModel.Proofs.Operators.Lookups

/-!
# Merged maps

The sum of two maps is a new map into which entries are stored one after the other. The stores go to the
new map and its cells, which nobody refers to who was there before: all that is stored was made since
(`State.Merging`), and so the whole only adds.
-/

namespace ObjectModel

open ObjectModel.Action Behavior Map

variable {R : Ref → Prop} {e : Ending} {s t u : State} {object merged cell key value : Ref}

namespace State

theorem HoldsInert.kind (h : s.HoldsInert R object) : s.kind object = .cell := by
  obtain ⟨key, value, hcell, -⟩ := h
  exact kind_of_payload hcell

theorem HoldsInert.ne_map (h : s.HoldsInert R cell) (hmap : s.kind object = .map) : cell ≠ object := by
  rintro rfl
  rw [h.kind] at hmap
  cases hmap

theorem HoldsInert.stored {payload : Payload} (h : s.HoldsInert R cell)
    (hcell : cell = object → ∃ key value, payload = .cell key value ∧ R key ∧ R value) :
    (s.stored object payload).HoldsInert R cell := by
  by_cases heq : cell = object
  · obtain ⟨key, value, rfl, hparts⟩ := hcell heq
    exact ⟨key, value, heq ▸ payload_stored_same (heq ▸ h.contains), hparts⟩
  · obtain ⟨key, value, hpayload, hparts⟩ := h
    exact ⟨key, value, (payload_stored_other heq).trans hpayload, hparts⟩

theorem Adds.thenStored {payload : Payload} (h : s.Adds R .value t) (hnew : ¬ s.heap.Contains object)
    (hrefers : ∀ p ∈ payload.references, p.index < object.index ∨ t.HoldsInert R p)
    (hcell : t.HoldsInert R object → ∃ key value, payload = .cell key value ∧ R key ∧ R value) :
    s.Adds R .value (t.stored object payload) := by
  have hcells {p : Ref} (hp : t.HoldsInert R p) : (t.stored object payload).HoldsInert R p :=
    hp.stored fun heq => hcell (heq ▸ hp)
  refine ⟨⟨⟨h.nothing, fun o ho => ?_, ?_⟩, h.blocks, h.block⟩, ?_, h.shown, h.pending,
    fun o ho p hp => ?_⟩
  · have hne : o ≠ object := fun heq => hnew (heq ▸ ho)
    exact (payload_stored_other hne).trans (h.kept o ho)
  · rw [size_stored]
    exact h.size
  · rw [h.rest]
    rfl
  · by_cases heq : o = object
    · subst heq
      by_cases hmade : t.heap.Contains o
      · rw [payload_stored_same hmade] at hp
        exact (hrefers p hp).imp_right hcells
      · rw [references_of_not_contains ((contains_stored t o payload o).not.mpr hmade)] at hp
        cases hp
    · rw [payload_stored_other heq] at hp
      exact (h.layered o ho p hp).imp_right hcells

/-- A map under way: it and its cells were made since, and what its cells hold is inert. -/
structure Merging (s : State) (R : Ref → Prop) (merged : Ref) (t : State) : Prop where
  adds : s.Adds R .value t
  map : t.kind merged = .map
  fresh : ¬ s.heap.Contains merged
  cells : ∀ cell ∈ t.cells merged, ¬ s.heap.Contains cell ∧ t.HoldsInert R cell

namespace Merging

theorem contains (h : s.Merging R merged t) : t.heap.Contains merged :=
  contains_of_kind_ne (by simp [h.map])

theorem trans (h : s.Merging R merged t) (hadds : t.Adds R .value u) : s.Merging R merged u := by
  have hpayload := hadds.kept merged h.contains
  refine ⟨h.adds.trans hadds, ?_, h.fresh, fun cell hcell => ?_⟩
  · rw [kind, hpayload]
    exact h.map
  · rw [State.cells, hpayload] at hcell
    obtain ⟨hnew, hinert⟩ := h.cells cell hcell
    exact ⟨hnew, hinert.extends hadds.toExtends⟩

theorem replaced (h : s.Merging R merged t) (hs : s.Inert R) (hcell : cell ∈ t.cells merged)
    (hvalue : R value) : s.Merging R merged (Map.replaced t cell value) := by
  obtain ⟨hnew, hinert⟩ := h.cells cell hcell
  obtain ⟨key, old, hparts, hkey, -⟩ := id hinert
  have hmap : (t.stored cell (.cell key value)).payload merged = t.payload merged :=
    payload_stored_other (hinert.ne_map h.map).symm
  rw [Map.replaced, hparts]
  dsimp only
  refine ⟨h.adds.thenStored hnew ?_ fun _ => ⟨key, value, rfl, hkey, hvalue⟩, ?_, h.fresh, ?_⟩
  · rintro p (_ | ⟨_, _ | ⟨_, ⟨⟩⟩⟩)
    · exact .inl (hs.below hkey hnew)
    · exact .inl (hs.below hvalue hnew)
  · rw [kind, hmap]
    exact h.map
  · intro other hother
    rw [State.cells, hmap] at hother
    obtain ⟨hnew', hinert'⟩ := h.cells other hother
    exact ⟨hnew', hinert'.stored fun _ => ⟨key, value, rfl, hkey, hvalue⟩⟩

theorem withCell (h : s.Merging R merged t) (hs : s.Inert R) (hkey : R key) (hvalue : R value) :
    s.Merging R merged (t.made (.cell key value)) := by
  refine h.trans (.made t ?_)
  rintro p (_ | ⟨_, _ | ⟨_, ⟨⟩⟩⟩)
  · exact Nat.lt_of_lt_of_le (hs.made key hkey) h.adds.size
  · exact Nat.lt_of_lt_of_le (hs.made value hvalue) h.adds.size

theorem appended (h : s.Merging R merged t) (hnew : ¬ s.heap.Contains cell)
    (hcell : t.HoldsInert R cell) : s.Merging R merged (Map.appended t merged cell) := by
  obtain ⟨cells, hcells⟩ := payload_of_map h.map
  have hall : ∀ c ∈ cells ++ [cell], ¬ s.heap.Contains c ∧ t.HoldsInert R c := by
    intro c hc
    rcases List.mem_append.mp hc with hc | hc
    · exact h.cells c (by simpa [State.cells, hcells] using hc)
    · rw [List.mem_singleton.mp hc]
      exact ⟨hnew, hcell⟩
  rw [Map.appended, hcells]
  have hsame : (t.stored merged (.map (cells ++ [cell]))).payload merged = _ :=
    payload_stored_same h.contains
  refine ⟨h.adds.thenStored h.fresh (fun p hp => .inr (hall p hp).2)
    (fun ho => absurd rfl (ho.ne_map h.map)), kind_of_payload hsame, h.fresh, fun c hmem => ?_⟩
  obtain ⟨hnew', hinert⟩ := hall c (by simpa [State.cells, hsame] using hmem)
  exact ⟨hnew', hinert.stored fun heq => absurd heq (hinert.ne_map h.map)⟩

end Merging

end State

-- ---------------------------------------------------------------------------
-- Stores into a map under way
-- ---------------------------------------------------------------------------

variable {run : Dispatcher} [hd : Dispatcher.Adds R run]

namespace Map

/-- An entry is stored in a map under way. -/
theorem merging_set (hs : s.Inert R) (h : s.Merging R merged t) [hkey : Inside R key] (hvalue : R value)
    (hrun : (Map.set run merged key value).ending? t = some (e, u)) :
    s.Adds R e u ∧ (e = .value → s.Merging R merged u) := by
  have hcells : ∀ cell ∈ t.cells merged,
      t.heap.Contains cell ∧ ∀ p ∈ (t.payload cell).references, R p := by
    intro cell hcell
    obtain ⟨-, hinert⟩ := h.cells cell hcell
    refine ⟨hinert.contains, ?_⟩
    obtain ⟨key, value, hparts, hkey, hvalue⟩ := hinert
    simp [hparts, Payload.references, hkey, hvalue]
  have hfind {e v} (hrun : (findCell run merged key).ending? t = some (e, v)) : t.Adds R e v :=
    adds_findCell_of_inert (h.adds.inert hs) hcells hrun
  unfold Map.set at hrun
  cases hfound : (findCell run merged key).run t with
  | ok found v =>
    have hv := h.trans (hfind (ending?_ok hfound))
    rw [ending?_bind, hfound] at hrun
    cases found with
    | none =>
      have hstore : (do appendCell merged (← create (.cell key value)) : Action Unit).run v =
          .ok () (appended (v.made (.cell key value)) merged v.heap.next) := run_appendCell ..
      have hnew : ¬ s.heap.Contains v.heap.next := State.not_contains_next hv.adds.size
      have hstored := (hv.withCell hs hkey.holds hvalue).appended hnew
        ⟨key, value, payload_made_next .., hkey.holds, hvalue⟩
      obtain ⟨rfl, rfl⟩ := Prod.mk.inj (Option.some.inj ((ending?_ok hstore).symm.trans hrun))
      exact ⟨hstored.adds, fun _ => hstored⟩
    | some cell =>
      have hcell : cell ∈ v.cells merged := by
        have hmem : cell ∈ t.cells merged := mem_of_firstMatch hfound
        rwa [State.cells, (hfind (ending?_ok hfound)).kept merged h.contains]
      have hstored := hv.replaced hs hcell hvalue
      obtain ⟨rfl, rfl⟩ :=
        Prod.mk.inj (Option.some.inj ((ending?_ok (run_replaceValue cell value v)).symm.trans hrun))
      exact ⟨hstored.adds, fun _ => hstored⟩
  | error stop v =>
    rw [ending?_bind, hfound] at hrun
    cases stop with
    | raised =>
      cases hrun
      exact ⟨h.adds.trans (hfind (ending?_raised hfound)), fun hvalue => by cases hvalue⟩
    | exhausted => cases hrun

end Map

namespace Behavior.Maps

theorem merging_setAll (hs : s.Inert R) (h : s.Merging R merged t) {entries : List (Ref × Ref)}
    (hentries : ∀ entry ∈ entries, R entry.1 ∧ R entry.2)
    (hrun : (setAll run merged entries).ending? t = some (e, u)) : s.Adds R e u := by
  induction entries generalizing t with
  | nil =>
    cases hrun
    exact h.adds
  | cons entry rest ih =>
    obtain ⟨key, value⟩ := entry
    obtain ⟨hkey, hvalue⟩ := hentries (key, value) List.mem_cons_self
    have hinside : Inside R key := ⟨hkey⟩
    have hset {e v} (hrun : (Map.set run merged key value).ending? t = some (e, v)) :
        s.Adds R e v ∧ (e = .value → s.Merging R merged v) := Map.merging_set hs h hvalue hrun
    unfold setAll at hrun
    rw [ending?_bind] at hrun
    split at hrun
    · rename_i v hfirst
      obtain ⟨-, hmerging⟩ := hset (ending?_ok hfirst)
      exact ih (hmerging rfl) (fun entry hentry => hentries entry (List.mem_cons_of_mem _ hentry)) hrun
    · rename_i v hfirst
      cases hrun
      exact (hset (ending?_raised hfirst)).1
    · cases hrun

theorem ends_createCells (hs : s.Inert R) {entries : List (Ref × Ref)}
    (hentries : ∀ entry ∈ entries, R entry.1 ∧ R entry.2) :
    (createAll (entries.map fun entry => .cell entry.1 entry.2)).Ends s
      (fun cells t => s.Adds R .value t ∧ ∀ cell ∈ cells, ¬ s.heap.Contains cell ∧ t.HoldsInert R cell)
      fun _ => False := by
  unfold createAll
  induction entries generalizing s with
  | nil => exact ⟨.refl s, nofun⟩
  | cons entry rest ih =>
    obtain ⟨hkey, hvalue⟩ := hentries entry List.mem_cons_self
    have hmade : s.Adds R .value (s.made (.cell entry.1 entry.2)) := .made s (by
      simp [Payload.references, hs.made _ hkey, hs.made _ hvalue])
    simp only [List.map_cons, List.mapM_cons, ends_bind, ends_create, ends_pure]
    have hrest : ∀ entry ∈ rest, R entry.1 ∧ R entry.2 := fun entry hentry =>
      hentries entry (List.mem_cons_of_mem _ hentry)
    refine (ih (hmade.inert hs) hrest).imp_value ?_
    rintro cells t ⟨hadds, hcells⟩
    refine ⟨hmade.trans hadds, ?_⟩
    rintro cell (_ | ⟨_, hcell⟩)
    · have hfirst : (s.made (.cell entry.1 entry.2)).HoldsInert R s.heap.next :=
        ⟨entry.1, entry.2, payload_made_next .., hkey, hvalue⟩
      exact ⟨State.not_contains_next (Nat.le_refl _), hfirst.extends hadds.toExtends⟩
    · obtain ⟨hnew, hinert⟩ := hcells cell hcell
      exact ⟨fun hold => hnew (Nat.lt_of_lt_of_le hold hmade.size), hinert⟩

theorem inert_entries (hs : s.Inert R) (ho : R object) :
    ∀ entry ∈ s.entries object, R entry.1 ∧ R entry.2 := by
  intro entry hentry
  obtain ⟨cell, hcell, hparts⟩ := List.mem_filterMap.mp hentry
  have hinert := hs.closed cell (hs.inert_cell ho hcell)
  cases hpayload : s.payload cell with
  | cell key value =>
    rw [hpayload] at hparts hinert
    cases hparts
    exact ⟨hinert _ List.mem_cons_self, hinert _ (List.mem_cons_of_mem _ List.mem_cons_self)⟩
  | _ => rw [hpayload] at hparts; cases hparts

instance adds_add {machine : Machine} [Dispatcher.Adds R machine.toDispatcher] {args : List Ref}
    [AllInside R args] : Adds R (add machine args) := by
  unfold add
  refine .argument fun other hother => .bind fun kind => ?_
  dsimp only
  split
  · infer_instance
  · refine .read (fun s => s) (fun _ => rfl) fun s hs => .argument fun own hown => ?_
    refine ⟨fun {t e u} ht hrun => ?_⟩
    obtain ⟨cells, v, hcells, hadds, hinert⟩ :=
      (ends_createCells ht (inert_entries hs hown.holds)).exists_run
    rw [ending?_bind, hcells] at hrun
    have hmade : (v.made (.map cells)).payload v.heap.next = .map cells := payload_made_next ..
    have hsize := hadds.size
    have hmerging : t.Merging R v.heap.next (v.made (.map cells)) := by
      refine ⟨hadds.trans ?_, State.kind_of_payload hmade, State.not_contains_next hsize,
        fun cell hcell => ?_⟩
      · exact .made v fun cell hcell => (hinert cell hcell).2.contains
      · obtain ⟨hnew, hheld⟩ := hinert cell (by simpa [State.cells, hmade] using hcell)
        exact ⟨hnew, hheld.extends (State.Extends.refl v |>.thenMade _)⟩
    have hentries := inert_entries (hmerging.adds.inert ht) hother.holds
    dsimp only at hrun
    rw [ending?_bind, run_create] at hrun
    dsimp only at hrun
    rw [ending?_bind, EStateM.run_get] at hrun
    dsimp only at hrun
    rw [ending?_bind] at hrun
    split at hrun
    · rename_i _ w hset
      cases hrun
      exact merging_setAll ht hmerging hentries (ending?_ok hset)
    · rename_i w hset
      cases hrun
      exact merging_setAll ht hmerging hentries (ending?_raised hset)
    · cases hrun

end Behavior.Maps

end ObjectModel
