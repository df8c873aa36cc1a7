import ObjectModel.Proofs.Maps.Bindings
import ObjectModel.Proofs.Maps.Tables

/-!
# Keys of one label

What was stored under a name or an int is found under it (`Stores.lookup?_self`). Keys of one label find the
same cell of a map (`found?_of_label`) if no key of it is a buffer of unknown size. Such a key is no name, and
names are compared with it by what they are: a buffer by its bytes, a string by its text.
-/

namespace ObjectModel.State

variable {s t : State} {map o cell key value probe : Ref} {label : Label}

/-- No key of the map is a buffer of unknown size. -/
def KeysSized (s : State) (map : Ref) : Prop := ∀ key ∈ s.keys map, s.isUnsized key = false

instance (s : State) (map : Ref) : Decidable (s.KeysSized map) :=
  inferInstanceAs (Decidable (∀ key ∈ s.keys map, s.isUnsized key = false))

-- ---------------------------------------------------------------------------
-- What keys match
-- ---------------------------------------------------------------------------

theorem isUnsized_of_label? (h : s.label? key = some label) : s.isUnsized key = false := by
  cases hkey : s.payload key with
  | buffer b =>
    rw [isUnsized_eq hkey]
    cases hbytes : b.textBytes? s.memory with
    | some bytes => rfl
    | none => simp [label?, State.nameBytes?, hkey, hbytes] at h
  | _ => simp [isUnsized, hkey]

/-- A name or an int that is found equal to what is neither meets a buffer of unknown size. -/
theorem Coincide.isUnsized (h : s.Coincide probe key) (hprobe : s.label? probe = some label)
    (hkey : s.label? key = none) : s.isUnsized key = true := by
  unfold Coincide at h
  unfold label? State.nameBytes? at hprobe hkey
  cases hk : s.payload key with
  | buffer b =>
    have hbytes : b.textBytes? s.memory = none := by simpa [hk] using hkey
    rw [isUnsized_eq hk, hbytes]
    rfl
  | int n => simp [hk] at hkey
  | string text => simp [hk] at hkey
  | _ => cases hp : s.payload probe <;> simp [hp, hk, Payload.seen?] at h hprobe

theorem selects_iff (hprobe : s.label? probe = some label) : s.selects probe key = true ↔
    s.label? key = some label ∨ (s.isUnsized key = true ∧ s.Coincide probe key) := by
  cases hkey : s.label? key with
  | some other => simp [selects_label hprobe hkey, isUnsized_of_label? hkey, eq_comm]
  | none =>
    have hname : s.nameBytes? key = none := by
      cases hname : s.nameBytes? key with
      | none => rfl
      | some bytes => cases hkey.symm.trans (label?_eq_name.mpr hname)
    have hleaf : s.Leaf probe key := (plainKey_of_label? hprobe).leaf (by simp [hname])
    have hselects : s.selects probe key = true ↔ s.Coincide probe key := by
      rw [← sign_leafOrder_eq_zero hleaf]
      simp [selects, hname]
    rw [hselects]
    simp only [reduceCtorEq, false_or]
    exact ⟨fun hcoincide => ⟨hcoincide.isUnsized hprobe hkey, hcoincide⟩, And.right⟩

/-- Keys of one label match the same keys but for buffers of unknown size. -/
theorem selects_of_sized (hprobe : s.label? probe = some label) (hsized : s.isUnsized key = false) :
    s.selects probe key = decide (s.label? key = some label) := by
  rw [Bool.eq_iff_iff, selects_iff hprobe, hsized, decide_eq_true_iff]
  simp

theorem selects_self (hkey : s.label? key = some label) : s.selects key key = true :=
  (selects_iff hkey).mpr (.inl hkey)

theorem label?_of_kind (hkind : s.kind o = .cell ∨ s.kind o = .map) :
    s.label? o = none ∧ s.isUnsized o = false := by
  unfold State.kind at hkind
  cases ho : s.payload o <;>
    simp [ho, Payload.kind, label?, State.nameBytes?, isUnsized] at hkind ⊢

theorem selects_of_kind (hprobe : s.label? probe = some label) (hkind : s.kind key = .cell ∨ s.kind key = .map) :
    s.selects probe key = false := by
  obtain ⟨hlabel, hsized⟩ := label?_of_kind hkind
  rw [selects_of_sized hprobe hsized, hlabel]
  rfl

theorem found?_of_label (hprobe : s.label? probe = some label) (hkey : s.label? key = some label)
    (hsized : s.KeysSized map) : s.found? map probe = s.found? map key := by
  refine List.find?_congr fun cell hcell => ?_
  unfold selectsCell
  cases hparts : s.payload cell with
  | cell stored value =>
    have hstored := hsized stored (mem_keys.mpr ⟨cell, hcell, value, hparts⟩)
    exact (selects_of_sized hprobe hstored).trans (selects_of_sized hkey hstored).symm
  | _ => rfl

-- ---------------------------------------------------------------------------
-- What is found after a store
-- ---------------------------------------------------------------------------

section Puts

variable {found : Option Ref} {sort : State → Ref → Prop} {stored : Ref} (h : s.Puts map found sort stored t)
  (hmap : s.kind map = .map)
include h hmap

theorem Puts.isUnsized_eq (ho : s.heap.Contains o) : t.isUnsized o = s.isUnsized o := by
  by_cases hplace : o = found.getD map
  · obtain ⟨hsame, hkind⟩ := h.kind_place hmap
    rw [← hplace] at hsame hkind
    rw [(label?_of_kind hkind).2, (label?_of_kind (by rwa [hsame])).2]
  · simp only [isUnsized, h.kept o ho hplace]

theorem Puts.selects_eq (hprobe : s.label? probe = some label) (ho : s.heap.Contains o) :
    t.selects probe o = s.selects probe o := by
  have hmemory : t.memory = s.memory := by rw [h.rest]
  have hsame := h.kept_plain hmap (plainKey_of_label? hprobe)
  by_cases hplace : o = found.getD map
  · obtain ⟨hkept, hkind⟩ := h.kind_place hmap
    rw [← hplace] at hkept hkind
    rw [selects_of_kind hprobe hkind, selects_of_kind (h.label?_eq hmap hprobe) (by rwa [hkept])]
  · have hother := h.kept o ho hplace
    have hname (o : Ref) (hpayload : t.payload o = s.payload o) : t.nameBytes? o = s.nameBytes? o := by
      simp only [State.nameBytes?, hpayload, hmemory]
    have horder : t.leafOrder probe o = s.leafOrder probe o := by
      unfold leafOrder
      rw [hsame, hother, hmemory]
    unfold selects
    rw [hname _ hsame, hname _ hother, horder]

theorem Puts.cell_before (hcell : s.heap.Contains cell) (hafter : t.payload cell = .cell key value) :
    ∃ old, s.payload cell = .cell key old := by
  have hparts := h.cellParts hmap hcell
  cases hbefore : s.payload cell with
  | cell stored old =>
    obtain ⟨rfl, -⟩ : key = stored ∧ _ := by simpa [hbefore, hafter, Payload.cellParts?] using hparts
    exact ⟨old, rfl⟩
  | _ => simp [hbefore, hafter, Payload.cellParts?] at hparts

theorem Puts.selectsCell_eq (hprobe : s.label? probe = some label) (hcell : s.MadeCell cell) :
    t.selectsCell probe cell = s.selectsCell probe cell := by
  have hparts := h.cellParts hmap hcell.1
  unfold selectsCell
  cases hbefore : s.payload cell with
  | cell key old =>
    cases hafter : t.payload cell with
    | cell stored now =>
      obtain ⟨rfl, -⟩ : stored = key ∧ _ := by simpa [hbefore, hafter, Payload.cellParts?] using hparts
      exact h.selects_eq hmap hprobe (hcell.2 _ _ hbefore)
    | _ => simp [hbefore, hafter, Payload.cellParts?] at hparts
  | _ =>
    cases hafter : t.payload cell with
    | cell => simp [hbefore, hafter, Payload.cellParts?] at hparts
    | _ => rfl

end Puts

section Stores

variable (h : s.Stores map key value t) (hmap : s.MadeMap map) (hkey : s.label? key = some label)
include h hmap hkey

theorem Stores.madeMap : t.MadeMap map := by
  have hputs : s.Puts map _ (fun _ o => o = key) value t := h.puts rfl
  refine hputs.madeMap hmap.kind hmap.cells ?_
  rintro _ rfl
  exact contains_of_plainKey (plainKey_of_label? (hputs.label?_eq hmap.kind hkey))

theorem Stores.lookup?_self : t.lookup? map key = some value := by
  have hputs : s.Puts map _ (fun _ o => o = key) value t := h.puts rfl
  have hold : (s.cells map).find? (t.selectsCell key) = s.found? map key :=
    List.find?_congr fun cell hcell => hputs.selectsCell_eq hmap.kind hkey (hmap.cells cell hcell)
  cases hfound : s.found? map key with
  | some cell =>
    have hlist : t.cells map = s.cells map := hputs.cells_kept hmap.made (by simp [hfound])
    obtain ⟨stored, old, -, hafter⟩ := h.replaced cell hfound
    rw [State.lookup?, State.found?, hlist, hold, hfound]
    simp [cellValue?, hafter, Payload.cellParts?]
  | none =>
    obtain ⟨cell, -, hparts, hafter⟩ := h.appended hfound
    have hlist : t.cells map = s.cells map ++ [cell] := by simp only [cells, hafter]
    have hlast : t.selectsCell key cell = true := by
      simp [selectsCell, hparts, selects_self (hputs.label?_eq hmap.kind hkey)]
    rw [State.lookup?, State.found?, hlist, List.find?_append, hold, hfound, List.find?_singleton, hlast]
    simp [cellValue?, hparts, Payload.cellParts?]

theorem Stores.keysSized (hsized : s.KeysSized map) : t.KeysSized map := by
  have hputs : s.Puts map _ (fun _ o => o = key) value t := h.puts rfl
  intro other hother
  obtain ⟨cell, hcell, now, hafter⟩ := mem_keys.mp hother
  by_cases hold : cell ∈ s.cells map
  · obtain ⟨hin, hmade⟩ := hmap.cells cell hold
    obtain ⟨old, hbefore⟩ := hputs.cell_before hmap.kind hin hafter
    rw [hputs.isUnsized_eq hmap.kind (hmade _ _ hbefore)]
    exact hsized _ (mem_keys.mpr ⟨cell, hold, old, hbefore⟩)
  · cases hfound : s.found? map key with
    | some found =>
      rw [hputs.cells_kept hmap.made (by simp [hfound])] at hcell
      exact absurd hcell hold
    | none =>
      obtain ⟨new, -, hparts, hlist⟩ := h.appended hfound
      simp only [cells, hlist] at hcell
      obtain rfl := List.mem_singleton.mp ((List.mem_append.mp hcell).resolve_left hold)
      obtain ⟨rfl, -⟩ := Payload.cell.inj (hparts.symm.trans hafter)
      exact isUnsized_of_label? (hputs.label?_eq hmap.kind hkey)

end Stores

end ObjectModel.State
