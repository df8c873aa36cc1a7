import ObjectModel.Iteration
import ObjectModel.Proofs.Calls.Starts
import ObjectModel.Proofs.Maps.Tables

/-!
# Scratch maps

A walk keeps its position in a scratch map. What a step changes is part of that map (`Touches`): the map,
its cells, or what is stored in them, and what it adds to the map is new. So the scratch maps of
different walks never come to share a part, and what has no part in a scratch map stays as it is.
-/

namespace ObjectModel

open ObjectModel.Action

namespace State

/-- What a scratch map consists of: the map, its cells, and the keys and values of these. -/
inductive Part (s : State) (map : Ref) : Ref → Prop
  | map : Part s map map
  | cell (hcell : cell ∈ s.cells map) : Part s map cell
  | key (hcell : cell ∈ s.cells map) (hparts : s.payload cell = .cell key value) : Part s map key
  | value (hcell : cell ∈ s.cells map) (hparts : s.payload cell = .cell key value) : Part s map value

/-- Objects were made, and no other was changed but parts of a scratch map, which takes in nothing but
new objects. -/
structure Touches (s : State) (map : Ref) (t : State) : Prop where
  rest : t = { s with heap := t.heap }
  size : s.heap.size ≤ t.heap.size
  kept : ∀ o, s.heap.Contains o → ¬ s.Part map o → t.payload o = s.payload o
  parts : ∀ o, t.Part map o → s.Part map o ∨ ¬ s.heap.Contains o

/-- A map that was filled under names, and the values it was given, from the first to the last. -/
structure Scratch (s : State) (map : Ref) (log : List (Label × Ref)) : Prop where
  table : s.Tabulates map log
  names : ∀ cell ∈ s.cells map, ∀ key value, s.payload cell = .cell key value → s.kind key = .string
  made : ∀ o, s.Part map o → s.heap.Contains o

variable {s t u : State} {map o cell key value : Ref} {log : List (Label × Ref)} {name : String}

-- ---------------------------------------------------------------------------
-- Parts
-- ---------------------------------------------------------------------------

/-- Who keeps the map and its cells keeps what the map consists of. -/
theorem part_iff (hmap : t.payload map = s.payload map)
    (hcells : ∀ cell ∈ s.cells map, t.payload cell = s.payload cell) : t.Part map o ↔ s.Part map o := by
  have hlist : t.cells map = s.cells map := cells_of_payload hmap
  constructor
  · intro h
    cases h with
    | map => exact .map
    | cell hcell => exact .cell (hlist ▸ hcell)
    | key hcell hparts => exact .key (hlist ▸ hcell) ((hcells _ (hlist ▸ hcell)).symm.trans hparts)
    | value hcell hparts => exact .value (hlist ▸ hcell) ((hcells _ (hlist ▸ hcell)).symm.trans hparts)
  · intro h
    cases h with
    | map => exact .map
    | cell hcell => exact .cell (hlist ▸ hcell)
    | key hcell hparts => exact .key (hlist ▸ hcell) ((hcells _ hcell).trans hparts)
    | value hcell hparts => exact .value (hlist ▸ hcell) ((hcells _ hcell).trans hparts)

theorem Touches.refl (s : State) (map : Ref) : s.Touches map s :=
  ⟨rfl, Nat.le_refl _, fun _ _ _ => rfl, fun _ => .inl⟩

theorem Touches.trans (h : s.Touches map t) (h' : t.Touches map u) : s.Touches map u where
  rest := by rw [h'.rest, h.rest]
  size := Nat.le_trans h.size h'.size
  kept o ho hpart := by
    have hlater : ¬ t.Part map o := fun hpart' => (h.parts o hpart').elim hpart fun hnew => hnew ho
    rw [h'.kept o (Nat.lt_of_lt_of_le ho h.size) hlater, h.kept o ho hpart]
  parts o hpart := by
    rcases h'.parts o hpart with hold | hnew
    · exact h.parts o hold
    · exact .inr fun hin => hnew (Nat.lt_of_lt_of_le hin h.size)

theorem Scratch.part_made (h : s.Scratch map log) (payload : Payload) :
    (s.made payload).Part map o ↔ s.Part map o := by
  have hgrown := Grown.made s payload
  refine part_iff (hgrown.kept map (h.made _ .map)) fun cell hcell => ?_
  exact hgrown.kept cell (h.made _ (.cell hcell))

theorem Touches.made (h : s.Scratch map log) (payload : Payload) : s.Touches map (s.made payload) :=
  ⟨rfl, (Grown.made s payload).size, fun o ho _ => (Grown.made s payload).kept o ho,
    fun _ hpart => .inl ((h.part_made payload).mp hpart)⟩

theorem Scratch.kind_cell (h : s.Scratch map log) (hcell : cell ∈ s.cells map) :
    s.kind cell = .cell := by
  obtain ⟨label, value, -, -, hrow⟩ := h.table.row hcell
  obtain ⟨key, hparts, -⟩ := row?_eq_some.mp hrow
  exact kind_of_payload hparts

theorem Scratch.kept (h : s.Scratch map log) (hsize : s.heap.size ≤ t.heap.size)
    (hkept : ∀ o, s.Part map o → s.kind o ≠ .buffer → t.payload o = s.payload o) :
    t.Scratch map log ∧ ∀ o, t.Part map o ↔ s.Part map o := by
  have hmap := hkept map .map (by simp [h.table.kind])
  have hcells (cell : Ref) (hcell : cell ∈ s.cells map) :=
    hkept cell (.cell hcell) (by simp [h.kind_cell hcell])
  have hkeys (cell key value : Ref) (hcell : cell ∈ s.cells map)
      (hparts : s.payload cell = .cell key value) : t.payload key = s.payload key :=
    hkept key (.key hcell hparts) (by simp [h.names cell hcell key value hparts])
  have hlist : t.cells map = s.cells map := cells_of_payload hmap
  have hpart (o : Ref) : t.Part map o ↔ s.Part map o := part_iff hmap hcells
  refine ⟨⟨⟨(congrArg Payload.kind hmap).trans h.table.kind, ?_⟩, ?_, ?_⟩, hpart⟩
  · rw [hlist, ← h.table.rows]
    refine List.map_congr_left fun cell hcell => ?_
    simp only [row?, hcells cell hcell]
    cases hparts : s.payload cell with
    | cell key value =>
      -- The name of a string is its text, whatever the memory holds.
      obtain ⟨text, htext⟩ := payload_of_string (h.names cell hcell key value hparts)
      simp only [label?, State.nameBytes?, hkeys cell key value hcell hparts, htext]
    | _ => rfl
  · intro cell hcell key value hparts
    rw [hlist] at hcell
    have hbefore := (hcells cell hcell).symm.trans hparts
    exact (congrArg Payload.kind (hkeys cell key value hcell hbefore)).trans
      (h.names cell hcell key value hbefore)
  · intro o ho
    exact Nat.lt_of_lt_of_le (h.made o ((hpart o).mp ho)) hsize

theorem part_of_empty (h : s.payload map = .map []) (hpart : s.Part map o) : o = map := by
  have hcells : s.cells map = [] := by simp [cells, h]
  cases hpart with
  | map => rfl
  | cell hcell => simp [hcells] at hcell
  | key hcell => simp [hcells] at hcell
  | value hcell => simp [hcells] at hcell

theorem Scratch.empty (h : s.payload map = .map []) : s.Scratch map [] := by
  have hcells : s.cells map = [] := by simp [cells, h]
  refine ⟨⟨kind_of_payload h, by simp [hcells]; rfl⟩, by simp [hcells], fun o hpart => ?_⟩
  rw [part_of_empty h hpart]
  exact contains_of_kind_ne (by simp [kind_of_payload h, Payload.kind])

theorem Scratch.named? (h : s.Scratch map log) (name : String) :
    s.named? map name = Log.last? log (.name (Bytes.ofText name)) := by
  rw [State.named?, findNamed?_eq, h.table.value_eq]

theorem Scratch.made_object (h : s.Scratch map log) (payload : Payload) :
    (s.made payload).Scratch map log := by
  have hgrown := Grown.made s payload
  exact (h.kept (t := s.made payload) hgrown.size fun o hpart _ => hgrown.kept o (h.made o hpart)).1

theorem Scratch.stored (h : s.Scratch map log) (hpart : s.Part map o) (hkind : s.kind o = .buffer)
    (payload : Payload) :
    (s.stored o payload).Scratch map log ∧ s.Touches map (s.stored o payload) := by
  have hsize : s.heap.size ≤ (s.stored o payload).heap.size := by simp
  have hkept (p : Ref) (hp : p ≠ o) : (s.stored o payload).payload p = s.payload p :=
    payload_stored_other hp
  obtain ⟨hscratch, hparts⟩ := h.kept (t := s.stored o payload) hsize fun p _ hp =>
    hkept p fun hsame => hp (hsame ▸ hkind)
  refine ⟨hscratch, rfl, hsize, fun p _ hp => hkept p ?_, fun p hp => .inl ((hparts p).mp hp)⟩
  rintro rfl
  exact hp hpart

-- ---------------------------------------------------------------------------
-- Stores
-- ---------------------------------------------------------------------------

section Put

/-- A value was put under a name: the key is a string, and a new one if it was not there. -/
def PutNamed (s : State) (map : Ref) (name : String) (value : Ref) (t : State) : Prop :=
  s.Puts map (s.findNamed? map name) (fun u key => u.payload key = .string name ∧ ¬ s.heap.Contains key)
    value t

variable {sort : State → Ref → Prop}

/-- The cells of a map after a value was put into it: those that were there, one of them with the value,
and one that was made for it. -/
theorem Scratch.cell_put (h : s.Scratch map log)
    (hputs : s.Puts map (s.findNamed? map name) sort value t) (hcell : cell ∈ t.cells map) :
    (cell ∈ s.cells map ∧ t.payload cell = s.payload cell) ∨
    (cell ∈ s.cells map ∧ ∃ stored old, s.payload cell = .cell stored old ∧
      t.payload cell = .cell stored value) ∨
    ¬ s.heap.Contains cell ∧ ∃ stored, sort t stored ∧ t.payload cell = .cell stored value := by
  have hin := h.made map .map
  have hkind (other : Ref) (hother : other ∈ s.cells map) : other ≠ map := by
    rintro rfl
    cases h.table.kind.symm.trans (h.kind_cell hother)
  cases hfound : s.findNamed? map name with
  | some found =>
    rw [hfound] at hputs
    have hmem : found ∈ s.cells map := List.mem_of_find?_eq_some hfound
    have hmap : t.payload map = s.payload map := hputs.kept map hin (Ne.symm (hkind found hmem))
    rw [cells_of_payload hmap] at hcell
    by_cases hsame : cell = found
    · subst hsame
      exact .inr (.inl ⟨hcell, hputs.replaced cell rfl⟩)
    · exact .inl ⟨hcell, hputs.kept cell (h.made cell (.cell hcell)) hsame⟩
  | none =>
    rw [hfound] at hputs
    obtain ⟨new, stored, hnew, hparts, hstored, hmap⟩ := hputs.appended rfl
    rw [cells, hmap] at hcell
    rcases List.mem_append.mp hcell with hold | hlast
    · exact .inl ⟨hold, hputs.kept cell (h.made cell (.cell hold)) (hkind cell hold)⟩
    · obtain rfl := List.mem_singleton.mp hlast
      exact .inr (.inr ⟨hnew, stored, hstored, hparts⟩)

theorem Scratch.part_put (h : s.Scratch map log) (hputs : s.PutNamed map name value t)
    (hpart : t.Part map o) :
    s.Part map o ∨ o = value ∨ ¬ s.heap.Contains o ∧ t.heap.Contains o := by
  cases hpart with
  | map => exact .inl .map
  | cell hcell =>
    rcases h.cell_put hputs hcell with ⟨hold, -⟩ | ⟨hold, -⟩ | ⟨hnew, stored, -, hparts⟩
    · exact .inl (.cell hold)
    · exact .inl (.cell hold)
    · exact .inr (.inr ⟨hnew, contains_of_kind_ne (by simp [kind_of_payload hparts, Payload.kind])⟩)
  | key hcell hparts =>
    rcases h.cell_put hputs hcell with ⟨hold, hsame⟩ | ⟨hold, stored, old, hbefore, hafter⟩ |
      ⟨hnew, stored, hstored, hafter⟩
    · exact .inl (.key hold (hsame.symm.trans hparts))
    · obtain ⟨rfl, -⟩ := Payload.cell.inj (hparts.symm.trans hafter)
      exact .inl (.key hold hbefore)
    · obtain ⟨rfl, -⟩ := Payload.cell.inj (hparts.symm.trans hafter)
      exact .inr (.inr ⟨hstored.2, contains_of_kind_ne (by simp [kind_of_payload hstored.1, Payload.kind])⟩)
  | value hcell hparts =>
    rcases h.cell_put hputs hcell with ⟨hold, hsame⟩ | ⟨-, stored, old, -, hafter⟩ | ⟨-, stored, -, hafter⟩
    · exact .inl (.value hold (hsame.symm.trans hparts))
    · obtain ⟨-, rfl⟩ := Payload.cell.inj (hparts.symm.trans hafter)
      exact .inr (.inl rfl)
    · obtain ⟨-, rfl⟩ := Payload.cell.inj (hparts.symm.trans hafter)
      exact .inr (.inl rfl)

theorem part_place (s : State) (map : Ref) (name : String) :
    s.Part map ((s.findNamed? map name).getD map) := by
  cases hfound : s.findNamed? map name with
  | some found => exact .cell (List.mem_of_find?_eq_some hfound)
  | none => exact .map

theorem PutNamed.labelled (hputs : s.PutNamed map name value t) :
    s.Puts map (s.labelled? map (.name (Bytes.ofText name)))
      (fun u key => u.label? key = some (.name (Bytes.ofText name))) value t := by
  rw [← findNamed?_eq]
  exact hputs.imp fun key hkey => by simp [label?, State.nameBytes?, hkey.1]

theorem Scratch.names_put (h : s.Scratch map log) (hputs : s.PutNamed map name value t)
    (hcell : cell ∈ t.cells map) (hparts : t.payload cell = .cell key o) : t.kind key = .string := by
  have hkey (key : Ref) (hstring : s.kind key = .string) : t.kind key = .string := by
    obtain ⟨text, htext⟩ := payload_of_string hstring
    have hplain : s.PlainKey key := .inl (by simp [State.nameBytes?, htext])
    exact (congrArg Payload.kind (hputs.kept_plain h.table.kind hplain)).trans hstring
  rcases h.cell_put hputs hcell with ⟨hold, hsame⟩ | ⟨hold, stored, old, hbefore, hafter⟩ |
    ⟨-, stored, hstored, hafter⟩
  · exact hkey key (h.names cell hold key o (hsame.symm.trans hparts))
  · obtain ⟨rfl, -⟩ := Payload.cell.inj (hparts.symm.trans hafter)
    exact hkey key (h.names cell hold key old hbefore)
  · obtain ⟨rfl, -⟩ := Payload.cell.inj (hparts.symm.trans hafter)
    exact kind_of_payload hstored.1

theorem Scratch.put (h : s.Scratch map log) (hputs : s.PutNamed map name value t)
    (hvalue : s.heap.Contains value) :
    t.Scratch map (log ++ [(.name (Bytes.ofText name), value)]) := by
  refine ⟨h.table.puts hputs.labelled, fun cell hcell key o => h.names_put hputs hcell, fun o hpart => ?_⟩
  rcases h.part_put hputs hpart with hold | rfl | ⟨-, hin⟩
  · exact Nat.lt_of_lt_of_le (h.made o hold) hputs.size
  · exact Nat.lt_of_lt_of_le hvalue hputs.size
  · exact hin

theorem PutNamed.kept (hputs : s.PutNamed map name value t) (hin : s.heap.Contains o)
    (hpart : ¬ s.Part map o) : t.payload o = s.payload o := by
  refine Puts.kept hputs o hin ?_
  rintro rfl
  exact hpart (part_place s map name)

theorem Scratch.ends_put (h : s.Scratch map log) (name : String) (payload : Payload) :
    (Map.setNamed map name s.heap.next).Ends (s.made payload)
      (fun _ t => t.Scratch map (log ++ [(.name (Bytes.ofText name), s.heap.next)]) ∧
        t.payload s.heap.next = payload ∧ (∀ o, s.kind o = .int → t.payload o = s.payload o) ∧
        s.Touches map t)
      fun _ => False := by
  have hmade := h.made_object payload
  have hgrown := Grown.made s payload
  have hnew : ¬ s.heap.Contains s.heap.next := not_contains_next (Nat.le_refl _)
  have hnext : (s.made payload).heap.Contains s.heap.next := contains_made_next ..
  refine (Map.ends_setNamed_fresh hmade.table.kind name s.heap.next).imp_value fun _ t hputs => ?_
  have hputs : (s.made payload).PutNamed map name s.heap.next t := hputs
  refine ⟨hmade.put hputs hnext, ?_, ?_, ?_, ?_, ?_, ?_⟩
  · have hpart : ¬ (s.made payload).Part map s.heap.next := by
      rw [h.part_made]
      exact fun hpart => hnew (h.made _ hpart)
    exact (hputs.kept hnext hpart).trans (payload_made_next s payload)
  · intro o hint
    have hsame := hgrown.kept o (contains_of_kind_ne (by simp [hint]))
    have hplain : (s.made payload).PlainKey o := .inr ((congrArg Payload.kind hsame).trans hint)
    exact (hputs.kept_plain hmade.table.kind hplain).trans hsame
  · rw [hputs.rest]
    rfl
  · exact Nat.le_trans hgrown.size hputs.size
  · intro o ho hpart
    refine (hputs.kept (Nat.lt_of_lt_of_le ho hgrown.size) ?_).trans (hgrown.kept o ho)
    rwa [h.part_made]
  · intro o hpart
    rcases hmade.part_put hputs hpart with hold | rfl | ⟨hout, -⟩
    · exact .inl ((h.part_made payload).mp hold)
    · exact .inr hnew
    · exact .inr fun hin => hout (Nat.lt_of_lt_of_le hin hgrown.size)

end Put

end State

end ObjectModel
