import ObjectModel.Proofs.Maps.Delegation
import ObjectModel.Proofs.Maps.Histories
import ObjectModel.Proofs.Operators.Sparing

/-!
# Maps that share nothing

A store into a map writes to the map and its cells alone, whatever the key is compared with
(`MapStore.ends_run`). Maps that share no cell stay so whatever is stored where (`State.Apart.altered`),
and a store into one of them leaves the other as it is (`State.Apart.spared`).
-/

namespace ObjectModel

open ObjectModel.Action Behavior Relation

variable {s t u : State} {map other cell key value left right : Ref} {e : Ending}

-- ---------------------------------------------------------------------------
-- Lookups
-- ---------------------------------------------------------------------------

namespace Map

variable (host : Host) (rounds : Nat)

instance sparing_keyMatches (probe : Ref) (name : Option Bytes) (key : Ref) :
    Sparing (keyMatches (machine host rounds).toDispatcher probe name key) := by
  unfold keyMatches
  refine .bind fun other => ?_
  split <;> infer_instance

instance sparing_firstMatch (probe : Ref) (name : Option Bytes) (cells : List Ref) :
    Sparing (firstMatch (machine host rounds).toDispatcher probe name cells) := by
  induction cells with
  | nil => exact sparing_pure none
  | cons cell rest ih =>
    unfold firstMatch
    refine .bind fun payload => ?_
    split
    · exact ih
    · refine .bind fun matched => ?_
      split <;> infer_instance

instance sparing_findCell (map key : Ref) :
    Sparing (findCell (machine host rounds).toDispatcher map key) := by
  unfold findCell; infer_instance

theorem ends_findCell_spared (h : (findCell (machine host rounds).toDispatcher map key).Halts s) :
    (findCell (machine host rounds).toDispatcher map key).Ends s
      (fun found t => (∀ cell, found = some cell → cell ∈ s.cells map) ∧ s.Keeps t) s.Keeps := by
  refine (Sparing.ends h.and_run).imp ?_ fun _ h => h.2
  rintro found t ⟨⟨-, hrun⟩, hkeeps⟩
  refine ⟨?_, hkeeps⟩
  rintro cell rfl
  exact mem_of_firstMatch hrun

end Map

-- ---------------------------------------------------------------------------
-- Stores
-- ---------------------------------------------------------------------------

namespace State

/-- The objects that a map consists of: it, and its cells. -/
def parts (s : State) (map : Ref) : List Ref := map :: s.cells map

def Spared (s t : State) (map : Ref) : Prop := ∀ o ∈ s.parts map, t.payload o = s.payload o

/-- A map was written to: it or its cells, and what was put behind its cells is new. -/
structure Altered (s : State) (map : Ref) (t : State) : Prop where
  size : s.heap.size ≤ t.heap.size
  kept : ∀ o, s.heap.Contains o → o ∉ s.parts map → t.payload o = s.payload o
  cells : ∀ o, s.heap.Contains o → ∀ cell ∈ t.cells o,
    cell ∈ s.cells o ∨ (o = map ∧ ¬ s.heap.Contains cell ∧ t.heap.Contains cell)

theorem Altered.unheld {held others : List (List Ref)} (h : (s.withHeld held).Altered map t) :
    s.Altered map (t.withHeld others) := ⟨h.size, h.kept, h.cells⟩

theorem Keeps.cells_eq (h : s.Keeps t) (ho : s.heap.Contains o) : t.cells o = s.cells o := by
  simp only [cells, h.kept o ho]

theorem Keeps.altered (h : s.Keeps t) : s.Altered map t where
  size := h.size
  kept o ho _ := h.kept o ho
  cells _ ho _ hcell := .inl (h.cells_eq ho ▸ hcell)

theorem Keeps.altered_replaced (h : s.Keeps t) (hcell : cell ∈ s.cells map) (value : Ref) :
    s.Altered map (Map.replaced t cell value) := by
  unfold Map.replaced
  cases hparts : t.payload cell with
  | cell key old =>
    dsimp only
    constructor
    case size => simpa using h.size
    case kept =>
      intro o ho hother
      have hne : o ≠ cell := by
        rintro rfl
        exact hother (List.mem_cons_of_mem _ hcell)
      exact (payload_stored_other hne).trans (h.kept o ho)
    case cells =>
      intro o ho other hmem
      refine .inl ?_
      by_cases hne : o = cell
      · subst hne
        have hin : t.heap.Contains o := Nat.lt_of_lt_of_le ho h.size
        simp [State.cells, payload_stored_same hin] at hmem
      · rw [State.cells, payload_stored_other hne] at hmem
        exact h.cells_eq ho ▸ hmem
  | _ => exact h.altered

theorem Keeps.altered_appended (h : s.Keeps t) (hnew : ¬ s.heap.Contains cell)
    (hmade : t.heap.Contains cell) : s.Altered map (Map.appended t map cell) := by
  unfold Map.appended
  cases hcells : t.payload map with
  | map cells =>
    dsimp only
    constructor
    case size => simpa using h.size
    case kept =>
      intro o ho hother
      have hne : o ≠ map := by
        rintro rfl
        exact hother List.mem_cons_self
      exact (payload_stored_other hne).trans (h.kept o ho)
    case cells =>
      intro o ho other hmem
      by_cases hne : o = map
      · subst hne
        have hin : t.heap.Contains o := Nat.lt_of_lt_of_le ho h.size
        have hbefore : s.cells o = cells := by rw [← h.cells_eq ho, State.cells, hcells]
        simp only [State.cells, payload_stored_same hin, List.mem_append, List.mem_singleton] at hmem
        rcases hmem with hold | rfl
        · exact .inl (hbefore ▸ hold)
        · exact .inr ⟨rfl, hnew, (contains_stored t o _ other).mpr hmade⟩
      · rw [State.cells, payload_stored_other hne] at hmem
        exact .inl (h.cells_eq ho ▸ hmem)
  | _ => exact h.altered

end State

namespace Map

open State

@[simp] theorem ends_replaceValue (cell value : Ref) {Q : Unit → State → Prop} {E : State → Prop} :
    (replaceValue cell value).Ends s Q E ↔ Q () (replaced s cell value) :=
  ends_of_run (run_replaceValue cell value s)

@[simp] theorem ends_appendCell (map cell : Ref) {Q : Unit → State → Prop} {E : State → Prop} :
    (appendCell map cell).Ends s Q E ↔ Q () (appended s map cell) :=
  ends_of_run (run_appendCell map cell s)

theorem altered_withCell (h : s.Keeps t) (map key value : Ref) :
    s.Altered map (appended (t.made (.cell key value)) map t.heap.next) := by
  refine (h.thenMade _).altered_appended (not_contains_next h.size) ?_
  exact Nat.lt_of_lt_of_eq (Nat.lt_succ_self _) (size_made ..).symm

theorem ends_set_altered (host : Host) (rounds : Nat)
    (h : (Map.set (machine host rounds).toDispatcher map key value).Halts s) :
    (Map.set (machine host rounds).toDispatcher map key value).Ends s
      (fun _ t => s.Altered map t) (s.Altered map) := by
  rw [Map.set, Halts, ends_bind] at h
  rw [Map.set, ends_bind]
  refine (ends_findCell_spared host rounds h.halts).imp ?_ fun t hkeeps => hkeeps.altered
  rintro (_ | cell) t ⟨hfound, hkeeps⟩
  · simpa using altered_withCell hkeeps map key value
  · simpa using hkeeps.altered_replaced (hfound cell rfl) value

theorem ends_setNamed_altered (map : Ref) (name : String) (value : Ref) :
    (setNamed map name value).Ends s (fun _ t => s.Altered map t) (s.Altered map) := by
  simp only [setNamed, ends_bind, ends_get]
  cases hfound : s.findNamed? map name with
  | some cell =>
    rw [ends_replaceValue]
    exact (Keeps.refl s).altered_replaced (List.mem_of_find?_eq_some hfound) value
  | none =>
    simp only [ends_bind, ends_createString, ends_create, ends_appendCell]
    exact altered_withCell ((Keeps.refl s).thenMade _) map _ value

end Map

/-- A store into a map: one that asks no hook, or one by the operator. -/
inductive MapStore where
  | raw (store : RawStore)
  | operator (key value : Ref)

namespace MapStore

def run (machine : Machine) (map : Ref) : MapStore → Action Unit
  | .raw store => store.run machine map
  | .operator key value => machine.setIndex map key value

/-- The map takes the value itself: no hook of it is called, or takes the store over. -/
def Lands (s : State) (map : Ref) : MapStore → Prop
  | .raw _ => True
  | .operator _ _ => s.kind map = .map ∧ ∀ hook, s.hook? map "__setindex" = some hook →
      s.kind hook ≠ .native ∧ (s.kind hook).answers .setIndex = false

theorem ends_run (host : Host) (rounds : Nat) {store : MapStore} (hlands : store.Lands s map)
    (h : (store.run (machine host rounds) map).Halts s) :
    (store.run (machine host rounds) map).Ends s (fun _ t => s.Altered map t) (s.Altered map) := by
  cases store with
  | raw store =>
    cases store with
    | byKey key value => exact Map.ends_set_altered host rounds h
    | byName name value => exact Map.ends_setNamed_altered map name value
    | byCall key value =>
      simp only [run, RawStore.run, Prelude.rawSet, Prelude.mapArgument, Halts, ends_discard, ends_bind,
        ends_argument_first, ends_argument_second, ends_argument_third, ends_kind] at h ⊢
      by_cases hmap : s.kind map = .map
      · simp only [hmap, ne_eq, not_true, if_false, ends_pure, ends_nothing] at h ⊢
        exact Map.ends_set_altered host rounds h
      · simp only [hmap, ne_eq, not_false_eq_true, if_true]
        exact (State.raised_faulting s _).keeps.altered
  | operator key value =>
    obtain ⟨hmap, hhook⟩ := hlands
    cases rounds with
    | zero => exact h.elim
    | succ rounds =>
      have hset (held : List (List Ref))
          (h : (Map.set (machine host rounds).toDispatcher map key value).Halts (s.withHeld held)) :
          (Map.set (machine host rounds).toDispatcher map key value).Ends (s.withHeld held)
            (fun _ t => s.Altered map (t.withHeld s.held)) fun t => s.Altered map (t.withHeld s.held) :=
        (Map.ends_set_altered host rounds h).imp (fun _ _ h => h.unheld) fun _ h => h.unheld
      have hseen (held : List (List Ref)) :
          (s.withHeld held).hook? map "__setindex" = s.hook? map "__setindex" := rfl
      rw [run, Halts, ends_setIndex host rounds hmap rfl] at h
      rw [run, ends_setIndex host rounds hmap rfl]
      simp only [Behavior.Maps.setIndex, ends_bind, ends_argument_first, ends_argument_second,
        ends_argument_third, Map.ends_hook?, hseen] at h ⊢
      cases hfound : s.hook? map "__setindex" with
      | none =>
        simp only [hfound, ends_bind, ends_nothing] at h ⊢
        exact hset _ h
      | some hook =>
        obtain ⟨hnative, hstores⟩ := hhook hook hfound
        obtain ⟨-, hfunction⟩ := Kind.not_map_or_function hstores
        simp only [hfound, ends_bind, ends_kind, ends_holding, ends_nothing, State.kind_withHeld,
          State.withHeld_withHeld, State.held_withHeld, hstores, hfunction, hnative, or_self, if_false,
          Bool.false_eq_true] at h ⊢
        exact hset _ h

end MapStore

-- ---------------------------------------------------------------------------
-- Maps apart
-- ---------------------------------------------------------------------------

namespace State

/-- Two maps share no object that they consist of. -/
structure Apart (s : State) (left right : Ref) : Prop where
  made : ∀ o ∈ s.parts left ++ s.parts right, s.heap.Contains o
  disjoint : (s.parts left).Disjoint (s.parts right)

theorem Apart.symm (h : s.Apart left right) : s.Apart right left where
  made o ho := h.made o (by simpa [or_comm] using ho)
  disjoint _ hright hleft := h.disjoint hleft hright

theorem Apart.spared (h : s.Apart left right) (haltered : s.Altered left t) : s.Spared t right :=
  fun o ho => haltered.kept o (h.made o (List.mem_append_right _ ho)) fun hleft => h.disjoint hleft ho

theorem Altered.mem_parts (h : s.Altered map t) (hmade : s.heap.Contains other) (ho : o ∈ t.parts other) :
    o ∈ s.parts other ∨ (other = map ∧ ¬ s.heap.Contains o ∧ t.heap.Contains o) := by
  rcases List.mem_cons.mp ho with rfl | hcell
  · exact .inl List.mem_cons_self
  · exact (h.cells other hmade o hcell).imp_left (List.mem_cons_of_mem _)

/-- Maps that share nothing still do so after a store into any map, be it one of them or not. -/
theorem Apart.altered (h : s.Apart left right) (haltered : s.Altered map t) : t.Apart left right := by
  obtain ⟨hleft, hright⟩ := List.forall_mem_append.mp h.made
  have hinLeft := hleft left List.mem_cons_self
  have hinRight := hright right List.mem_cons_self
  refine ⟨List.forall_mem_append.mpr ⟨fun o ho => ?_, fun o ho => ?_⟩, fun o hol hor => ?_⟩
  · rcases haltered.mem_parts hinLeft ho with hold | ⟨-, -, hmade⟩
    · exact Nat.lt_of_lt_of_le (hleft o hold) haltered.size
    · exact hmade
  · rcases haltered.mem_parts hinRight ho with hold | ⟨-, -, hmade⟩
    · exact Nat.lt_of_lt_of_le (hright o hold) haltered.size
    · exact hmade
  · rcases haltered.mem_parts hinLeft hol with hl | ⟨rfl, hnewLeft, -⟩ <;>
      rcases haltered.mem_parts hinRight hor with hr | ⟨rfl, hnewRight, -⟩
    · exact h.disjoint hl hr
    · exact hnewRight (hleft o hl)
    · exact hnewLeft (hright o hr)
    · exact h.disjoint List.mem_cons_self List.mem_cons_self

/-- A step of a program, as far as some maps are concerned: a store into any map comes to an end, or
something happens that leaves the maps as they are. -/
inductive MapStep (maps : List Ref) (s t : State) : Prop
  | store {host : Host} {rounds : Nat} {store : MapStore} {map : Ref} {e : Ending} (hlands : store.Lands s map)
      (hrun : (store.run (machine host rounds) map).ending? s = some (e, t))
  | meanwhile (hspared : ∀ map ∈ maps, s.Spared t map) (hsize : s.heap.size ≤ t.heap.size)

theorem Spared.parts_eq (h : s.Spared t map) : t.parts map = s.parts map := by
  simp only [parts, cells, h map List.mem_cons_self]

theorem Apart.keep (h : s.Apart left right) (hleft : s.Spared t left) (hright : s.Spared t right)
    (hsize : s.heap.size ≤ t.heap.size) : t.Apart left right := by
  constructor
  · rw [hleft.parts_eq, hright.parts_eq]
    exact fun o ho => Nat.lt_of_lt_of_le (h.made o ho) hsize
  · rw [hleft.parts_eq, hright.parts_eq]
    exact h.disjoint

theorem Apart.along {maps : List Ref} (h : s.Apart left right) (hleft : left ∈ maps) (hright : right ∈ maps)
    (hsteps : ReflTransGen (MapStep maps) s t) : t.Apart left right := by
  induction hsteps with
  | refl => exact h
  | tail _ hstep ih =>
    cases hstep with
    | store hlands hrun => exact ih.altered ((MapStore.ends_run _ _ hlands (halts_of_ending? hrun)).of_ending? hrun)
    | meanwhile hspared hsize => exact ih.keep (hspared left hleft) (hspared right hright) hsize

end State

end ObjectModel
