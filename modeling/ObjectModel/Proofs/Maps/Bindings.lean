import Mathlib.Data.List.Basic
import ObjectModel.Proofs.Maps.Names

/-!
# What names are bound to

A value that is put into a map under a name is found there under that name (`Puts.named?_self`). Under
every other name, all maps bind what they did (`Puts.named?_other`), and a map that did not bind the name
does so only if it is the map that was stored into (`Puts.named?_unbound`).
-/

namespace ObjectModel.State

structure MadeMap (s : State) (map : Ref) : Prop where
  kind : s.kind map = .map
  cells : ∀ cell ∈ s.cells map, s.MadeCell cell

variable {s t : State} {map o cell value : Ref} {found : Option Ref} {name other : String}

-- ---------------------------------------------------------------------------
-- Names of cells
-- ---------------------------------------------------------------------------

theorem cellIsNamed_iff : s.cellIsNamed name cell = true ↔
    ∃ key value, s.payload cell = .cell key value ∧ s.isNamed key name = true := by
  unfold cellIsNamed
  cases hparts : s.payload cell with
  | cell key value => simp
  | _ => simp

theorem name_unique (h : s.cellIsNamed name cell = true) (h' : s.cellIsNamed other cell = true) :
    other = name := by
  obtain ⟨key, value, hparts, hname⟩ := cellIsNamed_iff.mp h
  obtain ⟨_, _, hparts', hother⟩ := cellIsNamed_iff.mp h'
  obtain ⟨rfl, -⟩ := Payload.cell.inj (hparts.symm.trans hparts')
  rw [isNamed_iff] at hname hother
  exact Bytes.ofText_inj.mp (Option.some.inj (hother.symm.trans hname))

theorem named?_of_found (h : s.findNamed? map name = some cell) :
    ∃ key value, s.payload cell = .cell key value ∧ s.named? map name = some value := by
  obtain ⟨key, value, hparts, -⟩ := cellIsNamed_iff.mp (List.find?_some h)
  exact ⟨key, value, hparts, by simp [State.named?, h, cellValue?, hparts, Payload.cellParts?]⟩

theorem named?_eq_none_iff : s.named? map name = none ↔ s.findNamed? map name = none := by
  constructor
  · intro hnone
    cases hfound : s.findNamed? map name with
    | none => rfl
    | some cell =>
      obtain ⟨key, value, -, hvalue⟩ := named?_of_found hfound
      cases hnone.symm.trans hvalue
  · intro hnone
    simp [State.named?, hnone]

theorem Closed.madeMap (h : s.Closed) (hmap : s.kind map = .map) : s.MadeMap map :=
  ⟨hmap, h.madeCells map⟩

theorem MadeMap.made (h : s.MadeMap map) : s.heap.Contains map := contains_of_kind_ne (by simp [h.kind])

theorem MadeMap.like (h : s.MadeMap map) (hlike : s.Like t) : t.MadeMap map := by
  refine ⟨(hlike.kind_eq h.made).trans h.kind, fun cell hcell => ?_⟩
  rw [hlike.cells_eq h.made] at hcell
  obtain ⟨hin, hkey⟩ := h.cells cell hcell
  refine ⟨Nat.lt_of_lt_of_le hin hlike.size, fun key value hparts => ?_⟩
  exact Nat.lt_of_lt_of_le (hkey key value ((hlike.kept cell hin).symm.trans hparts)) hlike.size

-- ---------------------------------------------------------------------------
-- Cells after a store
-- ---------------------------------------------------------------------------

section Puts

variable {sort : State → Ref → Prop} (h : s.Puts map found sort value t)
include h

theorem Puts.cells_kept (ho : s.heap.Contains o) (hother : found = none → o ≠ map) :
    t.cells o = s.cells o := by
  by_cases hplace : o = found.getD map
  · cases found with
    | some found =>
      obtain rfl : o = found := hplace
      obtain ⟨key, old, hbefore, hafter⟩ := h.replaced o rfl
      simp [cells, hbefore, hafter]
    | none => exact absurd hplace (hother rfl)
  · simp only [cells, h.kept o ho hplace]

variable (hmap : s.kind map = .map)
include hmap

theorem Puts.kind_place : t.kind (found.getD map) = s.kind (found.getD map) ∧
    (s.kind (found.getD map) = .cell ∨ s.kind (found.getD map) = .map) := by
  cases found with
  | some cell =>
    obtain ⟨key, old, hbefore, hafter⟩ := h.replaced cell rfl
    simp [kind_of_payload hbefore, kind_of_payload hafter, Payload.kind]
  | none =>
    obtain ⟨cell, key, -, -, -, hafter⟩ := h.appended rfl
    simp [hmap, kind_of_payload hafter, Payload.kind]

theorem Puts.kind_eq (ho : s.heap.Contains o) : t.kind o = s.kind o := by
  by_cases hplace : o = found.getD map
  · rw [hplace, (h.kind_place hmap).1]
  · exact congrArg Payload.kind (h.kept o ho hplace)

theorem Puts.isNamed_eq (ho : s.heap.Contains o) : t.isNamed o name = s.isNamed o name := by
  have hmemory : t.memory = s.memory := by rw [h.rest]
  by_cases hplace : o = found.getD map
  · -- Neither cells nor maps are names.
    have hnone (u : State) (hkind : u.kind o = .cell ∨ u.kind o = .map) : u.isNamed o name = false := by
      unfold kind at hkind
      unfold isNamed
      cases ho : u.payload o <;> simp [ho, Payload.kind] at hkind ⊢
    obtain ⟨hsame, hkind⟩ := h.kind_place hmap
    rw [← hplace] at hsame hkind
    rw [hnone s hkind, hnone t (by rwa [hsame])]
  · simp only [isNamed, h.kept o ho hplace, hmemory]

theorem Puts.cellParts (hcell : s.heap.Contains cell) : (t.payload cell).cellParts? =
    (s.payload cell).cellParts?.map fun parts =>
      (parts.1, if found = some cell then value else parts.2) := by
  by_cases hplace : cell = found.getD map
  · cases found with
    | some found =>
      obtain rfl : cell = found := hplace
      obtain ⟨key, old, hbefore, hafter⟩ := h.replaced cell rfl
      simp [hbefore, hafter, Payload.cellParts?]
    | none =>
      obtain rfl : cell = map := hplace
      obtain ⟨cells, hbefore⟩ := payload_of_map hmap
      obtain ⟨_, _, -, -, -, hafter⟩ := h.appended rfl
      simp [hbefore, hafter, Payload.cellParts?]
  · have hother : found ≠ some cell := by
      rintro rfl
      exact hplace rfl
    simp [h.kept cell hcell hplace, hother]

theorem Puts.madeCell (hcell : s.MadeCell cell) : t.MadeCell cell := by
  refine ⟨Nat.lt_of_lt_of_le hcell.1 h.size, fun key value hparts => ?_⟩
  have hafter := h.cellParts hmap hcell.1
  rw [hparts] at hafter
  cases hbefore : s.payload cell with
  | cell stored old =>
    obtain ⟨rfl, -⟩ : key = stored ∧ _ := by simpa [hbefore, Payload.cellParts?] using hafter
    exact Nat.lt_of_lt_of_le (hcell.2 _ _ hbefore) h.size
  | _ => simp [hbefore, Payload.cellParts?] at hafter

theorem Puts.cellIsNamed_eq (hcell : s.MadeCell cell) :
    t.cellIsNamed name cell = s.cellIsNamed name cell := by
  have hparts := h.cellParts hmap hcell.1
  unfold cellIsNamed
  cases hbefore : s.payload cell with
  | cell key old =>
    cases hafter : t.payload cell with
    | cell stored now =>
      obtain ⟨rfl, -⟩ : stored = key ∧ _ := by simpa [hbefore, hafter, Payload.cellParts?] using hparts
      exact h.isNamed_eq hmap (hcell.2 _ _ hbefore)
    | _ => simp [hbefore, hafter, Payload.cellParts?] at hparts
  | _ =>
    cases hafter : t.payload cell with
    | cell => simp [hbefore, hafter, Payload.cellParts?] at hparts
    | _ => rfl

theorem Puts.cellValue?_eq (hcell : s.heap.Contains cell) (hother : found ≠ some cell) :
    t.cellValue? cell = s.cellValue? cell := by
  simp only [cellValue?, h.cellParts hmap hcell, if_neg hother]
  cases (s.payload cell).cellParts? <;> rfl

theorem Puts.findNamed?_kept (ho : s.heap.Contains o) (hcells : ∀ cell ∈ s.cells o, s.MadeCell cell)
    (hother : found = none → o ≠ map) : t.findNamed? o name = s.findNamed? o name := by
  unfold findNamed?
  rw [h.cells_kept ho hother]
  exact List.find?_congr fun cell hcell => h.cellIsNamed_eq hmap (hcells cell hcell)

/-- Other maps hold what they did, if they do not share the cell that was stored into. -/
theorem Puts.entries_eq (ho : s.heap.Contains o) (hcells : ∀ cell ∈ s.cells o, s.heap.Contains cell)
    (hother : o ≠ map) (hshared : ∀ cell ∈ s.cells o, found ≠ some cell) :
    t.entries o = s.entries o := by
  unfold entries
  rw [h.cells_kept ho fun _ => hother]
  refine List.filterMap_congr fun cell hcell => ?_
  simp only [h.cellParts hmap (hcells cell hcell), if_neg (hshared cell hcell)]
  cases (s.payload cell).cellParts? <;> rfl

theorem Puts.madeMap (hcells : ∀ cell ∈ s.cells map, s.MadeCell cell)
    (hsort : ∀ key, sort t key → t.heap.Contains key) : t.MadeMap map := by
  have hin : s.heap.Contains map := contains_of_kind_ne (by simp [hmap])
  refine ⟨(h.kind_eq hmap hin).trans hmap, fun cell hcell => ?_⟩
  cases found with
  | some found =>
    rw [h.cells_kept hin nofun] at hcell
    exact h.madeCell hmap (hcells cell hcell)
  | none =>
    obtain ⟨new, key, -, hparts, hkey, hafter⟩ := h.appended rfl
    simp only [cells, hafter] at hcell
    rcases List.mem_append.mp hcell with hold | hlast
    · exact h.madeCell hmap (hcells cell hold)
    · obtain rfl := List.mem_singleton.mp hlast
      refine ⟨contains_of_kind_ne (by simp [kind_of_payload hparts, Payload.kind]), ?_⟩
      intro stored now hstored
      obtain ⟨rfl, -⟩ := Payload.cell.inj (hparts.symm.trans hstored)
      exact hsort key hkey

end Puts

-- ---------------------------------------------------------------------------
-- Bindings after a store
-- ---------------------------------------------------------------------------

section Named

variable (hmap : s.MadeMap map)
include hmap

theorem Puts.findNamed?_appended
    (h : s.Puts map none (fun u key => u.payload key = .string name) value t) :
    ∃ cell, ¬ s.heap.Contains cell ∧ t.cellValue? cell = some value ∧ ∀ other,
      t.findNamed? map other = (s.findNamed? map other).or (if other = name then some cell else none) := by
  obtain ⟨cell, key, hnew, hparts, hkey, hafter⟩ := h.appended rfl
  refine ⟨cell, hnew, by simp [cellValue?, hparts, Payload.cellParts?], fun other => ?_⟩
  have hlist : t.cells map = s.cells map ++ [cell] := by simp only [cells, hafter]
  have hold : (s.cells map).find? (t.cellIsNamed other) = s.findNamed? map other :=
    List.find?_congr fun cell hcell => h.cellIsNamed_eq hmap.kind (hmap.cells cell hcell)
  have hlast : t.cellIsNamed other cell = decide (other = name) := by
    simp [cellIsNamed, hparts, isNamed, hkey, eq_comm]
  rw [findNamed?, hlist, List.find?_append, hold, List.find?_singleton, hlast]
  by_cases hname : other = name <;> simp [hname]

variable (h : s.Puts map (s.findNamed? map name) (fun u key => u.payload key = .string name) value t)
include h

theorem Puts.named?_self : t.named? map name = some value := by
  cases hfound : s.findNamed? map name with
  | some cell =>
    rw [hfound] at h
    obtain ⟨key, old, -, hafter⟩ := h.replaced cell rfl
    rw [State.named?, h.findNamed?_kept hmap.kind hmap.made hmap.cells nofun, hfound]
    simp [cellValue?, hafter, Payload.cellParts?]
  | none =>
    rw [hfound] at h
    obtain ⟨cell, -, hvalue, hfind⟩ := h.findNamed?_appended hmap
    simp [State.named?, hfind, hfound, hvalue]

variable (ho : s.heap.Contains o) (hcells : ∀ cell ∈ s.cells o, s.MadeCell cell)
include ho hcells

theorem Puts.named?_other (hother : other ≠ name) : t.named? o other = s.named? o other := by
  have hfind : t.findNamed? o other = s.findNamed? o other := by
    by_cases happended : s.findNamed? map name = none ∧ o = map
    · obtain ⟨hnone, rfl⟩ := happended
      rw [hnone] at h
      obtain ⟨cell, -, -, hfind⟩ := h.findNamed?_appended hmap
      simp [hfind, hother]
    · exact h.findNamed?_kept hmap.kind ho hcells fun hnone hsame => happended ⟨hnone, hsame⟩
  unfold State.named?
  rw [hfind]
  cases hfound : s.findNamed? o other with
  | none => rfl
  | some cell =>
    have hcell := (hcells cell (List.mem_of_find?_eq_some hfound)).1
    refine h.cellValue?_eq hmap.kind hcell fun hsame => hother ?_
    exact name_unique (List.find?_some hsame) (List.find?_some hfound)

theorem Puts.named?_unbound (hne : o ≠ map) (hunbound : s.named? o name = none) :
    t.named? o name = none := by
  rw [named?_eq_none_iff] at hunbound ⊢
  rw [h.findNamed?_kept hmap.kind ho hcells fun _ => hne, hunbound]

end Named

end ObjectModel.State
