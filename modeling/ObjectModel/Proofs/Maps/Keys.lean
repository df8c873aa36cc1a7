import ObjectModel.Proofs.Comparison.Equality
import ObjectModel.Proofs.Maps.Histories

/-!
# Keys that are kept apart

A key matches another if both are names with the same bytes, or if it is found equal where one of them is no
name. A map whose keys match none that came before (`KeysApart`) stays so as long as what they hold stays,
and when a key is appended that matches none of them.
-/

namespace ObjectModel

open ObjectModel.Action Relation

variable {s t : State} {map cell key value probe newer older left right : Ref}

-- ---------------------------------------------------------------------------
-- Names that are found equal
-- ---------------------------------------------------------------------------

theorem View.Alike.textBytes? {memory : Memory} {a b : Buffer} (h : a.view.Alike memory b.view)
    (ha : a.textBytes? memory = some name) (hb : b.textBytes? memory = some other) : name = other := by
  obtain ⟨va, _, _⟩ := a
  obtain ⟨vb, _, _⟩ := b
  cases va <;> cases vb
  case sized.sized =>
    have hbytes := h.2
    simp only [Buffer.textBytes?, Buffer.bytes?, View.bytes?, Option.map_some, Option.some.injEq] at ha hb
    rw [← ha, ← hb, hbytes]
  all_goals simp [Buffer.textBytes?, Buffer.bytes?, View.bytes?] at ha hb

theorem View.Shows.textBytes? {memory : Memory} {b : Buffer} {text : String}
    (h : b.view.Shows memory (Bytes.ofText text)) (htext : b.text memory = text)
    (hb : b.textBytes? memory = some name) : name = Bytes.ofText text := by
  obtain ⟨view, _, _⟩ := b
  cases view with
  | sized address length =>
    simp only [Buffer.text, hb] at htext
    simp only [Buffer.textBytes?, Buffer.bytes?, View.bytes?, h.2, Option.map_some,
      Option.some.injEq] at hb
    rw [← hb] at htext ⊢
    exact Bytes.untilZero_of_toText htext
  | unsized => simp [Buffer.textBytes?, Buffer.bytes?, View.bytes?] at hb

namespace State

theorem Coincide.names (h : s.Coincide left right) (hspells : s.Spells left right)
    (hspells' : s.Spells right left) (hleft : s.nameBytes? left = some name)
    (hright : s.nameBytes? right = some other) : name = other := by
  unfold State.nameBytes? at hleft hright
  unfold Coincide at h
  cases hl : s.payload left with
  | string a =>
    rw [hl] at h hleft
    obtain rfl := Option.some.inj hleft
    cases hr : s.payload right with
    | string b =>
      rw [hr] at h hright
      obtain rfl : a = b := h
      exact Option.some.inj hright
    | buffer b =>
      rw [hr] at h hright
      exact (((hspells a b hl hr).mp h).textBytes? h hright).symm
    | _ => simp [hr] at hright
  | buffer a =>
    rw [hl] at h hleft
    cases hr : s.payload right with
    | string b =>
      rw [hr] at h hright
      obtain rfl := Option.some.inj hright
      have hshows : a.view.Shows s.memory (Bytes.ofText b) := h
      exact hshows.textBytes? ((hspells' b a hr hl).mpr h) hleft
    | buffer b =>
      rw [hr] at h hright
      have halike : a.view.Alike s.memory b.view := h
      exact halike.textBytes? hleft hright
    | _ => simp [hr] at hright
  | _ => simp [hl] at hleft

end State

-- ---------------------------------------------------------------------------
-- Keys that match
-- ---------------------------------------------------------------------------

namespace State

/-- A probe matches a key: names by their bytes, and what is no name by being found equal. -/
def Matches (s : State) (probe key : Ref) : Prop :=
  match s.nameBytes? probe, s.nameBytes? key with
  | some name, some other => name = other
  | _, _ => s.Equal probe key

/-- A key matches none that came before, unless it is the text of every buffer of unknown size. -/
def Parted (s : State) (newer older : Ref) : Prop :=
  s.Matches newer older → s.payload newer = .string "<UNSIZED_BUFFER>" ∧ s.isUnsized older

theorem matches_iff (hprobe : s.Unchanged t probe) (hkey : s.Unchanged t key) :
    t.Matches probe key ↔ s.Matches probe key := by
  unfold Matches
  rw [hprobe.nameBytes?, hkey.nameBytes?]
  split
  · rfl
  · exact equal_iff hprobe hkey

theorem matches_string (h : s.payload probe = .string text) : s.Matches probe key ↔
    s.nameBytes? key = some (Bytes.ofText text) ∨ (text = "<UNSIZED_BUFFER>" ∧ s.isUnsized key) := by
  have hlists : ¬ (s.kind probe = .list ∧ s.kind key = .list) := by
    simp [kind, h, Payload.kind]
  have hleaf : s.Leaf probe key := by
    constructor <;> simp [kind, h, Payload.kind]
  have hselects : s.Matches probe key ↔ s.selects probe key = true := by
    have hname : s.nameBytes? probe = some (Bytes.ofText text) := by simp [State.nameBytes?, h]
    unfold Matches selects
    rw [hname]
    cases s.nameBytes? key with
    | some other => simp
    | none => simp [equal_single hlists, sign_leafOrder_eq_zero hleaf]
  rw [hselects, selects_string h]
  simp [isNamed_iff]

theorem Parted.unchanged (h : s.Parted newer older) (hnewer : s.Unchanged t newer)
    (holder : s.Unchanged t older) : t.Parted newer older := by
  intro hmatches
  obtain ⟨hstring, hunsized⟩ := h ((matches_iff hnewer holder).mp hmatches)
  refine ⟨payload_of_seen hnewer.seen hstring rfl, ?_⟩
  cases hkey : s.payload older with
  | buffer b => simpa [isUnsized, payload_of_seen holder.seen hkey rfl, hkey] using hunsized
  | _ => simp [isUnsized, hkey] at hunsized

/-- Names that do not match are not found equal, if strings and buffers find each other equal both ways. -/
theorem not_equal_of_not_matches (h : ¬ s.Matches newer older) (haccord : s.Accord older newer) :
    ¬ s.Equal newer older ∧ ¬ s.Equal older newer := by
  have hdiffer : ¬ s.Equal newer older := by
    intro hequal
    unfold Matches at h
    cases hnewer : s.nameBytes? newer with
    | none => simp [hnewer, hequal] at h
    | some name =>
      cases holder : s.nameBytes? older with
      | none => simp [hnewer, holder, hequal] at h
      | some other =>
        simp only [hnewer, holder] at h
        -- Of two names neither is a list, so that they can only coincide.
        have hlist : s.kind newer ≠ .list := by
          intro hlist
          obtain ⟨items, hitems⟩ := payload_of_list hlist
          simp [State.nameBytes?, hitems] at hnewer
        have hcoincide := (equal_single fun hlists => hlist hlists.1).mp hequal
        obtain ⟨ho, hn⟩ := haccord _ .refl
        exact h (hcoincide.names hn ho hnewer holder)
  exact ⟨hdiffer, fun hequal => hdiffer (hequal.symm haccord)⟩

end State

-- ---------------------------------------------------------------------------
-- Keys of a map that is filled
-- ---------------------------------------------------------------------------

namespace State

structure KeysApart (s : State) (map : Ref) : Prop where
  kind : s.kind map = .map
  cells : ∀ cell ∈ s.cells map, ∃ key value, s.payload cell = .cell key value
  readable : ∀ key ∈ s.keys map, s.Readable key
  parted : (s.keys map).Pairwise fun older newer => s.Parted newer older

theorem keysApart_empty (h : s.payload map = .map []) : s.KeysApart map := by
  have hcells : s.cells map = [] := by simp only [State.cells, h]
  constructor
  case kind => exact kind_of_payload h
  case cells => simp [hcells]
  case readable => simp [keys, entries, hcells]
  case parted => simp [keys, entries, hcells]

theorem KeysApart.contains (h : s.KeysApart map) (hcell : cell ∈ s.cells map) : s.heap.Contains cell := by
  obtain ⟨key, value, hparts⟩ := h.cells cell hcell
  exact contains_of_kind_ne (by simp [kind_of_payload hparts, Payload.kind])

theorem KeysApart.ne (h : s.KeysApart map) (hcell : cell ∈ s.cells map) : cell ≠ map := by
  rintro rfl
  obtain ⟨key, value, hparts⟩ := h.cells cell hcell
  cases h.kind.symm.trans (kind_of_payload hparts)

theorem KeysApart.pairwise (h : s.KeysApart map) (hkeys : ∀ key ∈ s.keys map, s.Unchanged t key) :
    (s.keys map).Pairwise fun older newer => t.Parted newer older := by
  refine h.parted.imp_of_mem ?_
  intro older newer holder hnewer hparted
  exact hparted.unchanged (hkeys newer hnewer) (hkeys older holder)

theorem KeysApart.keep (h : s.KeysApart map) (hmap : t.payload map = s.payload map)
    (hcells : ∀ cell ∈ s.cells map, ∀ key value, s.payload cell = .cell key value →
      ∃ value, t.payload cell = .cell key value)
    (hkeys : ∀ key ∈ s.keys map, s.Unchanged t key) (hsize : s.heap.size ≤ t.heap.size)
    (hblocks : s.memory.blocks.size ≤ t.memory.blocks.size) : t.KeysApart map := by
  have hlist : t.cells map = s.cells map := by simp only [State.cells, hmap]
  have hsame : t.keys map = s.keys map := by
    unfold keys entries
    rw [hlist, List.map_filterMap, List.map_filterMap]
    refine List.filterMap_congr fun cell hcell => ?_
    obtain ⟨key, value, hparts⟩ := h.cells cell hcell
    obtain ⟨_, hafter⟩ := hcells cell hcell key value hparts
    simp [hparts, hafter, Payload.cellParts?]
  constructor
  case kind => exact (congrArg Payload.kind hmap).trans h.kind
  case cells =>
    rw [hlist]
    intro cell hcell
    obtain ⟨key, value, hparts⟩ := h.cells cell hcell
    exact ⟨key, hcells cell hcell key value hparts⟩
  case readable =>
    rw [hsame]
    intro key hkey
    exact (hkeys key hkey).readable (h.readable key hkey) hsize hblocks
  case parted =>
    rw [hsame]
    exact h.pairwise hkeys

theorem KeysApart.append (h : s.KeysApart map) (hmap : t.payload map = .map (s.cells map ++ [cell]))
    (hcell : t.payload cell = .cell key value) (hcells : ∀ c ∈ s.cells map, t.payload c = s.payload c)
    (hkeys : ∀ other ∈ s.keys map, s.Unchanged t other) (hreadable : t.Readable key)
    (hparted : ∀ older ∈ s.keys map, t.Parted key older)
    (hsize : s.heap.size ≤ t.heap.size) (hblocks : s.memory.blocks.size ≤ t.memory.blocks.size) :
    t.KeysApart map := by
  have hlist : t.cells map = s.cells map ++ [cell] := by simp only [State.cells, hmap]
  have hsame : t.keys map = s.keys map ++ [key] := by
    have hold : (s.cells map).filterMap (fun cell => (t.payload cell).cellParts?) = s.entries map :=
      List.filterMap_congr fun cell hcell => by rw [hcells cell hcell]
    unfold keys
    rw [entries, hlist, List.filterMap_append, hold, List.map_append]
    simp [hcell, Payload.cellParts?]
  constructor
  case kind => rw [kind_of_payload hmap, Payload.kind]
  case cells =>
    rw [hlist]
    intro c hc
    rcases List.mem_append.mp hc with hold | hnew
    · rw [hcells c hold]
      exact h.cells c hold
    · obtain rfl := List.mem_singleton.mp hnew
      exact ⟨key, value, hcell⟩
  case readable =>
    rw [hsame]
    intro other hother
    rcases List.mem_append.mp hother with hold | hnew
    · exact (hkeys other hold).readable (h.readable other hold) hsize hblocks
    · obtain rfl := List.mem_singleton.mp hnew
      exact hreadable
  case parted =>
    rw [hsame]
    refine List.pairwise_append.mpr ⟨h.pairwise hkeys, List.pairwise_singleton _ _, ?_⟩
    intro older holder newer hnewer
    obtain rfl := List.mem_singleton.mp hnewer
    exact hparted older holder

theorem KeysApart.extends (h : s.KeysApart map) (hextends : s.Extends t) : t.KeysApart map := by
  have hmap : s.heap.Contains map := contains_of_kind_ne (by simp [h.kind])
  refine h.keep (hextends.kept map hmap) ?_ ?_ hextends.size hextends.blocks
  · intro cell hcell key value hparts
    exact ⟨value, (hextends.kept cell (h.contains hcell)).trans hparts⟩
  · intro key hkey
    exact hextends.unchanged (h.readable key hkey)

/-- What is put into a map makes no difference to what other objects are found equal to. -/
theorem Puts.unchanged {found : Option Ref} {sort : State → Ref → Prop}
    (h : s.Puts map found sort value t) (hmap : s.kind map = .map) (hkey : s.Readable key) :
    s.Unchanged t key := by
  have hmemory : t.memory = s.memory := by rw [h.rest]
  intro o ho
  constructor
  · by_cases hsame : o = found.getD map
    · subst hsame
      cases found with
      | none =>
        obtain ⟨cells, hcells⟩ := payload_of_map hmap
        obtain ⟨_, _, -, -, -, hafter⟩ := h.appended rfl
        simp [hcells, hafter]
      | some cell =>
        obtain ⟨stored, old, hbefore, hafter⟩ := h.replaced cell rfl
        simp [hbefore, hafter]
    · rw [h.kept o (hkey o ho).1 hsame]
  · intro buffer _
    rw [hmemory]
    cases buffer.view with
    | sized => rfl
    | unsized => exact fun _ => rfl

theorem KeysApart.puts {found : Option Ref} {sort : State → Ref → Prop} (h : s.KeysApart map)
    (hputs : s.Puts map found sort value t) (hfound : ∀ cell, found = some cell → cell ∈ s.cells map)
    (hnew : found = none → ∀ key, sort t key → t.Readable key ∧
      ∀ older ∈ s.keys map, t.Parted key older) : t.KeysApart map := by
  have hmap : s.heap.Contains map := contains_of_kind_ne (by simp [h.kind])
  have hmemory : t.memory = s.memory := by rw [hputs.rest]
  have hkeys : ∀ key ∈ s.keys map, s.Unchanged t key :=
    fun key hkey => hputs.unchanged h.kind (h.readable key hkey)
  cases hcase : found with
  | some cell =>
    subst hcase
    have hsame := hputs.kept map hmap (h.ne (hfound cell rfl)).symm
    refine h.keep hsame ?_ hkeys hputs.size (by rw [hmemory])
    intro other hother key old hparts
    by_cases hcell : other = cell
    · subst hcell
      obtain ⟨stored, _, hbefore, hafter⟩ := hputs.replaced other rfl
      obtain ⟨rfl, rfl⟩ := Payload.cell.inj (hparts.symm.trans hbefore)
      exact ⟨value, hafter⟩
    · exact ⟨old, (hputs.kept other (h.contains hother) hcell).trans hparts⟩
  | none =>
    subst hcase
    obtain ⟨cell, key, -, hparts, hkey, hafter⟩ := hputs.appended rfl
    obtain ⟨hreadable, hparted⟩ := hnew rfl key hkey
    refine h.append hafter hparts ?_ hkeys hreadable hparted hputs.size (by rw [hmemory])
    intro other hother
    exact hputs.kept other (h.contains hother) (h.ne hother)

end State

end ObjectModel
