import ObjectModel.Builtin.Body
import ObjectModel.Proofs.Iteration.Steps
import ObjectModel.Proofs.Maps.Bindings

/-!
# Steps with any scratch map

Whatever is in the scratch map, a stepping function gives an element that is inside the container, or no
value (`steps_bounded`). What it changes in the scratch map are the cells under `idx` and `sz`
(`State.Fills`), and a cursor of that very container.
-/

namespace ObjectModel

open ObjectModel.Action

namespace State

/-- Values were put into a map under names. Its other cells are what they were, all keep their keys, and
those that were added are under the names. -/
structure Fills (s : State) (map : Ref) (names : List String) (t : State) : Prop where
  rest : t = { s with heap := t.heap }
  size : s.heap.size ≤ t.heap.size
  kept : ∀ o, s.heap.Contains o → o ≠ map → (∀ name ∈ names, s.findNamed? map name ≠ some o) →
    t.payload o = s.payload o
  keys : ∀ cell ∈ s.cells map,
    (t.payload cell).cellParts?.map (·.1) = (s.payload cell).cellParts?.map (·.1)
  cells : ∃ added, t.cells map = s.cells map ++ added ∧ ∀ cell ∈ added, ¬ s.heap.Contains cell ∧
    ∃ name ∈ names, ∃ key value, t.payload cell = .cell key value ∧ t.payload key = .string name
  finds : ∀ name o, s.heap.Contains o → t.findNamed? map name = some o → s.findNamed? map name = some o

variable {s t u : State} {map o value : Ref} {name : String} {names others : List String}

theorem Fills.made (hmap : s.MadeMap map) (payload : Payload) : s.Fills map [] (s.made payload) := by
  have hgrown := Grown.made s payload
  have hlike := (Like.refl s).grown hgrown
  refine ⟨hgrown.rest, hgrown.size, fun o ho _ _ => hgrown.kept o ho, fun cell hcell => ?_, ⟨[], ?_⟩, ?_⟩
  · rw [hgrown.kept cell (hmap.cells cell hcell).1]
  · simp [hlike.cells_eq hmap.made]
  · intro name o _ hfound
    rwa [hlike.findNamed?_eq hmap.made hmap.cells] at hfound

theorem Fills.put (hmap : s.MadeMap map)
    (hputs : s.Puts map (s.findNamed? map name) (fun u key => u.payload key = .string name) value t) :
    s.Fills map [name] t := by
  constructor
  case rest => exact hputs.rest
  case size => exact hputs.size
  case kept =>
    intro o ho hother hfound
    refine hputs.kept o ho ?_
    cases hplace : s.findNamed? map name with
    | none => exact hother
    | some cell =>
      rintro rfl
      exact hfound name (by simp) hplace
  case keys =>
    intro cell hcell
    rw [hputs.cellParts hmap.kind (hmap.cells cell hcell).1]
    cases (s.payload cell).cellParts? <;> rfl
  case cells =>
    cases hfound : s.findNamed? map name with
    | some cell =>
      rw [hfound] at hputs
      exact ⟨[], by simp [hputs.cells_kept hmap.made nofun]⟩
    | none =>
      rw [hfound] at hputs
      obtain ⟨cell, key, hnew, hparts, hkey, hafter⟩ := hputs.appended rfl
      refine ⟨[cell], by simp only [State.cells, hafter], fun other hother => ?_⟩
      obtain rfl := List.mem_singleton.mp hother
      exact ⟨hnew, name, by simp, key, value, hparts, hkey⟩
  case finds =>
    intro other o ho hlater
    cases hfound : s.findNamed? map name with
    | some cell =>
      rw [hfound] at hputs
      rwa [hputs.findNamed?_kept hmap.kind hmap.made hmap.cells nofun] at hlater
    | none =>
      rw [hfound] at hputs
      obtain ⟨cell, hnew, -, hfind⟩ := hputs.findNamed?_appended hmap
      rw [hfind, Option.or_eq_some_iff] at hlater
      rcases hlater with hold | ⟨-, hlast⟩
      · exact hold
      · by_cases hname : other = name
        · obtain rfl : cell = o := by simpa [hname] using hlast
          exact absurd ho hnew
        · simp [hname] at hlast

theorem Fills.kept_plain (hmap : s.MadeMap map) (h : s.Fills map names t) (ho : s.heap.Contains o)
    (hother : s.kind o ≠ .map) (hcell : s.kind o ≠ .cell) : t.payload o = s.payload o := by
  refine h.kept o ho ?_ fun name _ hfound => ?_
  · rintro rfl
    exact hother hmap.kind
  · obtain ⟨key, value, hparts, -⟩ := cellIsNamed_iff.mp (List.find?_some hfound)
    exact hcell (kind_of_payload hparts)

theorem contains_of_string {text : String} (h : s.payload o = .string text) : s.heap.Contains o :=
  contains_of_kind_ne (by simp [kind_of_payload h, Payload.kind])

theorem Fills.trans (hmap : t.MadeMap map) (h : s.Fills map names t) (h' : t.Fills map others u) :
    s.Fills map (names ++ others) u := by
  obtain ⟨added, hcells, hadded⟩ := h.cells
  obtain ⟨later, hcells', hlater⟩ := h'.cells
  constructor
  case rest => rw [h'.rest, h.rest]
  case size => exact Nat.le_trans h.size h'.size
  case kept =>
    intro o ho hother hfound
    have hfound' : ∀ name ∈ others, t.findNamed? map name ≠ some o := fun name hname hplace =>
      hfound name (List.mem_append_right _ hname) (h.finds name o ho hplace)
    rw [h'.kept o (Nat.lt_of_lt_of_le ho h.size) hother hfound']
    exact h.kept o ho hother fun name hname => hfound name (List.mem_append_left _ hname)
  case keys =>
    intro cell hcell
    rw [h'.keys cell (by simp [hcells, hcell]), h.keys cell hcell]
  case cells =>
    refine ⟨added ++ later, by rw [hcells', hcells, List.append_assoc], fun cell hcell => ?_⟩
    rcases List.mem_append.mp hcell with hcell | hcell
    · obtain ⟨hnew, name, hname, key, value, hparts, hkey⟩ := hadded cell hcell
      have hsame := h'.keys cell (by simp [hcells, hcell])
      rw [hparts] at hsame
      refine ⟨hnew, name, List.mem_append_left _ hname, key, ?_⟩
      cases hnow : u.payload cell with
      | cell stored now =>
        obtain rfl : stored = key := by simpa [hnow, Payload.cellParts?] using hsame
        have hkind : t.kind stored = .string := kind_of_payload hkey
        have hkept := h'.kept_plain hmap (contains_of_string hkey) (by simp [hkind]) (by simp [hkind])
        exact ⟨now, rfl, hkept.trans hkey⟩
      | _ => simp [hnow, Payload.cellParts?] at hsame
    · obtain ⟨hnew, name, hname, hparts⟩ := hlater cell hcell
      exact ⟨fun ho => hnew (Nat.lt_of_lt_of_le ho h.size), name, List.mem_append_right _ hname, hparts⟩
  case finds =>
    intro name o ho hlast
    exact h.finds name o ho (h'.finds name o (Nat.lt_of_lt_of_le ho h.size) hlast)

-- ---------------------------------------------------------------------------
-- Cursors
-- ---------------------------------------------------------------------------

/-- What is stored under `idx` is a cursor of the container, at a place. -/
def Points (s : State) (scratch container cursor : Ref) (place : Nat) : Prop :=
  s.named? scratch "idx" = some cursor ∧
    ∃ buffer, s.payload cursor = .buffer buffer ∧ buffer.ownership = .resource (.cursor place container)

def moved (s : State) (cursor container : Ref) (place : Nat) : State :=
  match s.payload cursor with
  | .buffer buffer => s.stored cursor (.buffer {
      buffer with ownership := .resource (.cursor place container) })
  | _ => s

theorem cellIsNamed_eq (s : State) (name : String) (cell : Ref) :
    s.cellIsNamed name cell = (s.payload cell).cellParts?.any fun parts => s.isNamed parts.1 name := by
  unfold cellIsNamed
  cases s.payload cell <;> rfl

theorem moved_eq {cursor container : Ref} {buffer : Buffer} (hp : s.payload cursor = .buffer buffer)
    (place : Nat) : s.moved cursor container place = s.stored cursor (.buffer {
      buffer with ownership := .resource (.cursor place container) }) := by simp only [moved, hp]

theorem payload_moved {cursor container : Ref} {buffer : Buffer} (hp : s.payload cursor = .buffer buffer)
    (place : Nat) (o : Ref) : (s.moved cursor container place).payload o = if o = cursor
      then .buffer { buffer with ownership := .resource (.cursor place container) }
      else s.payload o := by
  have hin : s.heap.Contains cursor := contains_of_kind_ne (by simp [kind_of_payload hp, Payload.kind])
  rw [moved_eq hp]
  split
  case isTrue hsame => rw [hsame, payload_stored_same hin]
  case isFalse hother => exact payload_stored_other hother

theorem named?_moved {cursor container : Ref} {buffer : Buffer} (hp : s.payload cursor = .buffer buffer)
    (place : Nat) (map : Ref) (name : String) :
    (s.moved cursor container place).named? map name = s.named? map name := by
  have hmemory : (s.moved cursor container place).memory = s.memory := by rw [moved_eq hp]; rfl
  have hcells (o : Ref) : (s.moved cursor container place).cells o = s.cells o := by
    by_cases hsame : o = cursor <;> simp [cells, payload_moved hp, hsame, hp]
  have hparts (o : Ref) : ((s.moved cursor container place).payload o).cellParts? =
      (s.payload o).cellParts? := by
    by_cases hsame : o = cursor <;> simp [payload_moved hp, hsame, hp, Payload.cellParts?]
  have hnames (o : Ref) : (s.moved cursor container place).isNamed o name = s.isNamed o name := by
    by_cases hsame : o = cursor
    · simp only [isNamed, payload_moved hp, hsame, hp, hmemory, if_true]
      rfl
    · simp only [isNamed, payload_moved hp, hmemory, if_neg hsame]
  have hvalues : (s.moved cursor container place).cellValue? = s.cellValue? :=
    funext fun o => by rw [cellValue?, hparts, cellValue?]
  simp only [State.named?, findNamed?, hcells, funext (cellIsNamed_eq _ name), hparts, hnames, hvalues]

def extent (s : State) (function : Builtin) (container : Ref) : Nat :=
  match function, s.payload container with
  | .iterString, .string text => text.utf8ByteSize
  | .iterBuffer, .buffer buffer => buffer.view.size.toNat
  | _, _ => 0

/-- The element is what the container has at a place: an item of a list, a key of a map, a new string of
one byte or a new view of one byte, which is inside what the buffer looks at. -/
def Element (s : State) (function : Builtin) (container : Ref) (place : Nat) (element : Ref)
    (t : State) : Prop :=
  match function, t.payload container with
  | .iterList, .list items => items[place]? = some element
  | .iterMap, .map cells => ∃ cell value, cells[place]? = some cell ∧ t.payload cell = .cell element value
  | .iterString, .string text => ∃ byte, (Bytes.ofText text)[place]? = some byte ∧
    ¬ s.heap.Contains element ∧ t.payload element = .string (Bytes.toText [byte])
  | .iterBuffer, .buffer buffer => ∃ address length, buffer.view = .sized address length ∧
    place < length ∧ ¬ s.heap.Contains element ∧ t.payload element = .buffer {
      view := .sized (View.displaced address place) 1, anchors := [container] }
  | _, _ => False

/-- What a step by offsets leads to. The offset is an int under `idx`, or else 0; the bound is an int under
`sz`, or else the length. Inside both the bound and the length, the element there is given and the next
offset stored; otherwise there is no value and nothing is changed. -/
inductive StepsByOffset (s : State) (function : Builtin) (container scratch element : Ref) (t : State) :
    Prop where
  | inside {place : Nat} {bound next : Int64} (hplace : ((s.slotInt? scratch "idx").getD 0).toInt = place)
      (hbound : (s.slotInt? scratch "sz").getD (Integer.ofLength (s.extent function container)) = bound)
      (hbefore : (place : Int) < bound.toInt) (hinside : place < s.extent function container)
      (helement : s.Element function container place element t)
      (hfills : s.Fills scratch ["idx", "sz"] t) (hnext : t.slotInt? scratch "idx" = some next)
      (hadvanced : next.toInt = (place + 1 : Nat)) (hkept : t.slotInt? scratch "sz" = some bound)
  | outside {offset bound : Int64} (hoffset : (s.slotInt? scratch "idx").getD 0 = offset)
      (hbound : (s.slotInt? scratch "sz").getD (Integer.ofLength (s.extent function container)) = bound)
      (houtside : offset.toInt < 0 ∨ bound.toInt ≤ offset.toInt ∨
        (s.extent function container : Int) ≤ offset.toInt)
      (hnothing : element = s.nothing) (hsame : t = s)

/-- A walk by a cursor goes on from a place. A cursor of the very container is moved on. If there is none
under `idx`, a new one is stored there, and the place is the first. -/
def GoesOn (s : State) (scratch container : Ref) (place : Nat) (t : State) : Prop :=
  (∃ cursor, t.Points scratch container cursor (place + 1)) ∧
    ((∃ cursor, s.Points scratch container cursor place ∧ t = s.moved cursor container (place + 1)) ∨
      place = 0 ∧ (∀ cursor other, ¬ s.Points scratch container cursor other) ∧
        s.Fills scratch ["idx"] t)

/-- What a step by a cursor leads to: the element at the place that the walk goes on from, or no value if
there is none. -/
def StepsByCursor (s : State) (function : Builtin) (container scratch element : Ref) (t : State) : Prop :=
  ∃ place, s.GoesOn scratch container place t ∧
    (s.Element function container place element t ∨
      element = s.nothing ∧ ∀ other, ¬ s.Element function container place other t)

theorem GoesOn.nothing {scratch container : Ref} {place : Nat} (h : s.GoesOn scratch container place t) :
    t.nothing = s.nothing := by
  obtain ⟨-, ⟨cursor, -, rfl⟩ | ⟨-, -, hfills⟩⟩ := h
  · unfold moved
    split <;> rfl
  · rw [hfills.rest]

end State

namespace Iteration

variable {s t : State} {scratch container : Ref} {name : String} {n : Int64}

theorem ends_fill (hmap : s.MadeMap scratch) (name : String) (payload : Payload) :
    (do Map.setNamed scratch name (← create payload) : Action Unit).Ends s
      (fun _ t => s.Fills scratch [name] t ∧ t.MadeMap scratch ∧
        t.named? scratch name = some s.heap.next ∧ t.payload s.heap.next = payload ∧
        (∀ other, other ≠ name → t.named? scratch other = s.named? scratch other) ∧
        ∀ o, s.kind o = .int → t.payload o = s.payload o)
      fun _ => False := by
  have hgrown := State.Grown.made s payload
  have hlike := (State.Like.refl s).grown hgrown
  have hmade := hmap.like hlike
  simp only [ends_bind, ends_create]
  refine (Map.ends_setNamed hmade.kind name s.heap.next).imp_value fun _ t hputs => ?_
  have hfills := (State.Fills.made hmap payload).trans hmade (.put hmade hputs)
  have hin : (s.made payload).heap.Contains s.heap.next := contains_made_next ..
  refine ⟨hfills, ?_, hputs.named?_self hmade, ?_, fun other hother => ?_, fun o hint => ?_⟩
  · refine hputs.madeMap hmade.kind hmade.cells fun key hkey => ?_
    exact State.contains_of_string hkey
  · -- What is written to was there before.
    have hplace : s.heap.Contains (((s.made payload).findNamed? scratch name).getD scratch) := by
      rw [hlike.findNamed?_eq hmap.made hmap.cells]
      cases hfound : s.findNamed? scratch name with
      | none => exact hmap.made
      | some cell => exact (hmap.cells cell (List.mem_of_find?_eq_some hfound)).1
    have hnew : ¬ s.heap.Contains s.heap.next := State.not_contains_next (Nat.le_refl _)
    rw [hputs.kept _ hin fun hsame => hnew (hsame ▸ hplace), payload_made_next]
  · rw [hputs.named?_other hmade hmade.made hmade.cells hother]
    exact hlike.named?_eq hmap.made hmap.cells other
  · have hold : s.heap.Contains o := State.contains_of_kind_ne (by simp [hint])
    exact hfills.kept_plain hmap hold (by simp [hint]) (by simp [hint])

theorem ends_advance_filled (hmap : s.MadeMap scratch) (offset bound : Int64) :
    (advance scratch offset bound).Ends s
      (fun _ t => s.Fills scratch ["idx", "sz"] t ∧ t.MadeMap scratch ∧
        t.slotInt? scratch "idx" = some (offset + 1) ∧ t.slotInt? scratch "sz" = some bound)
      fun _ => False := by
  have hidx := ends_fill hmap "idx" (.int (offset + 1))
  simp only [ends_bind, ends_create] at hidx
  simp only [advance, ends_bind, ends_createInt]
  refine hidx.imp_value ?_
  rintro _ t ⟨hfills, hmade, hnamed, hvalue, -, -⟩
  have hsz := ends_fill hmade "sz" (.int bound)
  simp only [ends_bind, ends_create] at hsz
  refine hsz.imp_value ?_
  rintro _ u ⟨hfills', hmade', hnamed', hvalue', hothers, hints⟩
  refine ⟨hfills.trans hmade hfills', hmade', ?_, by simp [State.slotInt?, hnamed', hvalue', Payload.int?]⟩
  have hkept := (hints _ (State.kind_of_payload hvalue)).trans hvalue
  simp [State.slotInt?, hothers "idx" (by decide), hnamed, hkept, Payload.int?]

theorem slotInt?_made (hmap : s.MadeMap scratch) (hslot : s.slotInt? scratch name = some n)
    (payload : Payload) : (s.made payload).slotInt? scratch name = some n := by
  have hgrown := State.Grown.made s payload
  have hlike := (State.Like.refl s).grown hgrown
  unfold State.slotInt? at hslot ⊢
  rw [hlike.named?_eq hmap.made hmap.cells]
  obtain ⟨value, hvalue, hint⟩ := Option.bind_eq_some_iff.mp hslot
  have hin : s.heap.Contains value := by
    refine State.contains_of_kind_ne fun hkind => ?_
    unfold State.kind at hkind
    cases hp : s.payload value <;> simp [hp, Payload.int?, Payload.kind] at hint hkind
  rw [hvalue, Option.bind_some, hgrown.kept value hin, hint]

theorem toInt_next {offset bound : Int64} (h : offset.toInt < bound.toInt) :
    (offset + 1).toInt = offset.toInt + 1 := by
  have hone : (1 : Int64).toInt = 1 := rfl
  have hlow := offset.le_toInt
  have hhigh := bound.toInt_lt
  rw [Int64.toInt_add, hone, Int.bmod_eq_of_le]
  · omega
  · omega

theorem ends_stepInside {function : Builtin} (hmap : s.MadeMap scratch) (hin : s.heap.Contains container)
    (hother : s.kind container ≠ .map) (hcell : s.kind container ≠ .cell) {place : Nat}
    {offset bound : Int64} (hoffset : (s.slotInt? scratch "idx").getD 0 = offset) (hplace : offset.toInt = place)
    (hbound : (s.slotInt? scratch "sz").getD (Integer.ofLength (s.extent function container)) = bound)
    (hbefore : (place : Int) < bound.toInt) (hinside : place < s.extent function container)
    {payload : Payload} (helement : ∀ element t, t.payload container = s.payload container →
      ¬ s.heap.Contains element → t.payload element = payload →
      s.Element function container place element t) :
    (do advance scratch offset bound; create payload : Action Ref).Ends s
      (s.StepsByOffset function container scratch) fun _ => False := by
  simp only [ends_bind, ends_create]
  refine (ends_advance_filled hmap offset bound).imp_value ?_
  rintro _ t ⟨hfills, hmade, hidx, hsz⟩
  have hgrown := State.Grown.made t payload
  have hsame : (t.made payload).payload container = s.payload container :=
    (hgrown.kept container (Nat.lt_of_lt_of_le hin hfills.size)).trans
      (hfills.kept_plain hmap hin hother hcell)
  refine .inside (hoffset ▸ hplace) hbound hbefore hinside ?_ ?_ (slotInt?_made hmade hidx payload) ?_
    (slotInt?_made hmade hsz payload)
  · exact helement _ _ hsame (State.not_contains_next hfills.size) (payload_made_next t payload)
  · simpa using hfills.trans hmade (.made hmade payload)
  · rw [toInt_next (show offset.toInt < bound.toInt by omega), hplace]
    rfl

variable (machine : Machine)

theorem ends_stepString_any (hmap : s.MadeMap scratch) (container : Ref) :
    (stepString machine [container, scratch]).Ends s
      (s.StepsByOffset .iterString container scratch) fun _ => False := by
  simp only [stepString, ends_bind, ends_argument_first, ends_argument_second, ends_payload, ends_offsets]
  have hextent : s.extent .iterString container = (s.payload container).stringOrEmpty.utf8ByteSize := by
    unfold State.extent
    cases s.payload container <;> rfl
  rw [← hextent]
  generalize hoffset : (s.slotInt? scratch "idx").getD 0 = offset
  generalize hbound : (s.slotInt? scratch "sz").getD
    (Integer.ofLength (s.extent .iterString container)) = bound
  by_cases hin : 0 ≤ offset.toInt ∧ offset.toInt < bound.toInt ∧
      offset.toInt < s.extent .iterString container
  · obtain ⟨hzero, hbefore, hinside⟩ := hin
    obtain ⟨place, hplace⟩ := Int.eq_ofNat_of_zero_le hzero
    cases hp : s.payload container with
    | string text =>
      have hlength : s.extent .iterString container = (Bytes.ofText text).length := by
        rw [hextent, hp, Bytes.length_ofText]
        rfl
      have hbyte : place < (Bytes.ofText text).length := by omega
      have hkind : s.kind container = .string := State.kind_of_payload hp
      rw [if_pos (Int64.lt_iff_toInt_lt.mpr hbefore), Bytes.ofTextAt?_eq, Bytes.at?, if_neg (by omega),
        hplace]
      simp only [Payload.stringOrEmpty, Payload.string?, Option.getD_some, Int.toNat_natCast,
        List.getElem?_eq_getElem hbyte]
      refine ends_stepInside hmap (State.contains_of_string hp) (by simp [hkind]) (by simp [hkind]) hoffset
        hplace hbound (hplace ▸ hbefore) (by omega) fun element t hsame hnew hvalue => ?_
      simp only [State.Element, hsame, hp]
      exact ⟨_, List.getElem?_eq_getElem hbyte, hnew, hvalue⟩
    | _ => simp [State.extent, hp] at hinside; omega
  · have hnone : (if offset < bound then
        Bytes.ofTextAt? (s.payload container).stringOrEmpty offset.toInt else none) = none := by
      split
      case isFalse => rfl
      case isTrue hbefore =>
        rw [Int64.lt_iff_toInt_lt] at hbefore
        rw [Bytes.ofTextAt?_eq, Bytes.at?]
        split
        case isTrue => rfl
        case isFalse hzero =>
          rw [List.getElem?_eq_none]
          rw [Bytes.length_ofText, ← hextent]
          omega
    rw [hnone, ends_nothing]
    exact .outside hoffset hbound (by omega) rfl rfl

theorem ends_stepBuffer_any (hmap : s.MadeMap scratch) (container : Ref) :
    (stepBuffer machine [container, scratch]).Ends s
      (s.StepsByOffset .iterBuffer container scratch) fun _ => False := by
  simp only [stepBuffer, ends_bind, ends_argument_first, ends_argument_second, ends_payload]
  split
  case h_1 address length hview =>
    obtain ⟨buffer, hp, hview⟩ : ∃ buffer, s.payload container = .buffer buffer ∧
        buffer.view = .sized address length := by
      cases hp : s.payload container <;> simp [hp, Payload.buffer?] at hview ⊢
      exact hview
    have hextent : s.extent .iterBuffer container = length := by simp [State.extent, hp, hview, View.size]
    have hkind : s.kind container = .buffer := State.kind_of_payload hp
    simp only [ends_bind, ends_offsets]
    rw [← hextent]
    generalize hoffset : (s.slotInt? scratch "idx").getD 0 = offset
    generalize hbound : (s.slotInt? scratch "sz").getD
      (Integer.ofLength (s.extent .iterBuffer container)) = bound
    split
    case isTrue hin =>
      obtain ⟨hbefore, hzero, hinside⟩ := hin
      rw [Int64.lt_iff_toInt_lt] at hbefore
      obtain ⟨place, hplace⟩ := Int.eq_ofNat_of_zero_le (Int64.le_iff_toInt_le.mp hzero)
      refine ends_stepInside hmap (State.contains_of_kind_ne (by simp [hkind])) (by simp [hkind])
        (by simp [hkind]) hoffset hplace hbound (hplace ▸ hbefore) (by omega)
        fun element t hsame hnew hvalue => ?_
      simp only [State.Element, hsame, hp]
      exact ⟨address, length, hview, by omega, hnew, hplace ▸ hvalue⟩
    case isFalse hin =>
      rw [ends_nothing]
      rw [Int64.lt_iff_toInt_lt, Int64.le_iff_toInt_le] at hin
      refine .outside hoffset hbound ?_ rfl rfl
      have hzero : (0 : Int64).toInt = 0 := rfl
      omega
  case h_2 hview =>
    have hextent : s.extent .iterBuffer container = 0 := by
      unfold State.extent
      cases hp : s.payload container with
      | buffer buffer =>
        cases hsize : buffer.view with
        | sized address length => exact absurd (by simp [hp, Payload.buffer?, hsize]) (hview address length)
        | unsized => simp [View.size, hsize]
      | _ => rfl
    rw [ends_nothing]
    refine .outside rfl rfl ?_ rfl rfl
    rw [hextent]
    omega

/-- The position is that of a cursor of the container, which moves on, or of a new one. -/
theorem ends_nextPosition_any (hmap : s.MadeMap scratch) (container : Ref) :
    (nextPosition container scratch).Ends s (s.GoesOn scratch container) fun _ => False := by
  have hfresh (hnone : ∀ cursor other, ¬ s.Points scratch container cursor other) :
      (do Map.setNamed scratch "idx" (← create (.buffer {
        view := .sized (Heap.address s.heap.next) 0, ownership := .resource (.cursor 1 container) })) :
          Action Unit).Ends s (fun _ t => s.GoesOn scratch container 0 t) fun _ => False := by
    refine (ends_fill hmap "idx" _).imp_value ?_
    rintro _ t ⟨hfills, -, hnamed, hvalue, -⟩
    exact ⟨⟨_, hnamed, _, hvalue, rfl⟩, .inr ⟨rfl, hnone, hfills⟩⟩
  simp only [ends_bind, ends_create] at hfresh
  simp only [nextPosition, ends_bind, Map.ends_getNamed?]
  cases hnamed : s.named? scratch "idx" with
  | none =>
    simp only [ends_bind, ends_get, ends_create, ends_pure]
    exact hfresh fun cursor other h => by simp [h.1] at hnamed
  | some cursor =>
    have hforeign (hnot : ∀ buffer place, s.payload cursor = .buffer buffer →
        buffer.ownership ≠ .resource (.cursor place container)) (other : Ref) (place : Nat) :
        ¬ s.Points scratch container other place := by
      rintro ⟨hother, buffer, hp, howns⟩
      obtain rfl : cursor = other := Option.some.inj (hnamed.symm.trans hother)
      exact hnot buffer place hp howns
    simp only [ends_bind, ends_payload]
    split
    case h_2 hp =>
      simp only [ends_bind, ends_get, ends_create, ends_pure]
      exact hfresh (hforeign fun buffer _ h => absurd h (hp buffer))
    case h_1 buffer hp =>
      split
      case h_2 hown =>
        simp only [ends_bind, ends_get, ends_create, ends_pure]
        refine hfresh (hforeign fun other place h => ?_)
        obtain rfl := Payload.buffer.inj (hp.symm.trans h)
        exact hown place container
      case h_1 position walked hown =>
        split
        case isTrue hsame =>
          subst hsame
          simp only [ends_bind, ends_store, ends_pure]
          have hpoints : s.Points scratch walked cursor position := ⟨hnamed, buffer, hp, hown⟩
          rw [← State.moved_eq hp]
          refine ⟨⟨cursor, (State.named?_moved hp ..).trans hnamed, ?_⟩, .inl ⟨cursor, hpoints, rfl⟩⟩
          exact ⟨_, (State.payload_moved hp ..).trans (if_pos rfl), rfl⟩
        case isFalse hother =>
          simp only [ends_bind, ends_get, ends_create, ends_pure]
          refine hfresh (hforeign fun other place h howns => hother ?_)
          obtain rfl := Payload.buffer.inj (hp.symm.trans h)
          exact (Resource.cursor.inj (Ownership.resource.inj (hown.symm.trans howns))).2

theorem ends_stepList_any (hmap : s.MadeMap scratch) (container : Ref) :
    (stepList machine [container, scratch]).Ends s (s.StepsByCursor .iterList container scratch)
      fun _ => False := by
  simp only [stepList, ends_bind, ends_argument_first, ends_argument_second]
  refine (ends_nextPosition_any hmap container).imp_value fun place t hgoes => ?_
  cases hp : t.payload container with
  | list items =>
    simp only [ends_payload, hp, ends_orNothing, hgoes.nothing]
    refine ⟨place, hgoes, ?_⟩
    cases hitem : items[place]? <;> simp [State.Element, hp, hitem]
  | _ =>
    simp only [ends_payload, hp, ends_nothing, hgoes.nothing]
    exact ⟨place, hgoes, .inr ⟨rfl, by simp [State.Element, hp]⟩⟩

theorem ends_stepMap_any (hmap : s.MadeMap scratch) (container : Ref) :
    (stepMap machine [container, scratch]).Ends s (s.StepsByCursor .iterMap container scratch)
      fun _ => False := by
  simp only [stepMap, ends_bind, ends_argument_first, ends_argument_second]
  refine (ends_nextPosition_any hmap container).imp_value fun place t hgoes => ?_
  cases hp : t.payload container with
  | map cells =>
    cases hcell : cells[place]? with
    | none =>
      simp only [ends_payload, hp, hcell, ends_nothing, hgoes.nothing]
      exact ⟨place, hgoes, .inr ⟨rfl, by simp [State.Element, hp, hcell]⟩⟩
    | some cell =>
      simp only [ends_bind, ends_payload, hp, hcell, ends_orNothing, hgoes.nothing]
      refine ⟨place, hgoes, ?_⟩
      cases hparts : t.payload cell <;> simp [State.Element, hp, hcell, hparts, Payload.cellParts?]
  | _ =>
    simp only [ends_payload, hp, ends_nothing, hgoes.nothing]
    exact ⟨place, hgoes, .inr ⟨rfl, by simp [State.Element, hp]⟩⟩

/-- Whatever the scratch map holds, a stepping function gives an element that is inside the container, or
no value, and raises nothing. -/
theorem steps_bounded (hclosed : s.Closed) (hscratch : s.kind scratch = .map) (container : Ref) :
    (∀ function ∈ [Builtin.iterString, .iterBuffer], (function.body machine [container, scratch]).Ends s
      (s.StepsByOffset function container scratch) fun _ => False) ∧
    ∀ function ∈ [Builtin.iterList, .iterMap], (function.body machine [container, scratch]).Ends s
      (s.StepsByCursor function container scratch) fun _ => False := by
  have hmap := hclosed.madeMap hscratch
  simp only [List.forall_mem_cons, List.not_mem_nil, false_implies, implies_true, and_true]
  exact ⟨⟨ends_stepString_any machine hmap container, ends_stepBuffer_any machine hmap container⟩,
    ends_stepList_any machine hmap container, ends_stepMap_any machine hmap container⟩

/-- A list is walked over with the cursor of another list, and a string from the largest offset. -/
theorem steps_bounded_foreign :
    let s := { Globals.bare {} .discard {} with
      heap := ⟨#[.singlet "None", .map [], .map [], .list #[⟨7⟩], .list #[],
        .buffer { view := .sized (Heap.address ⟨5⟩) 0, ownership := .resource (.cursor 3 ⟨4⟩) },
        .string "idx", .int Int64.maxValue, .cell ⟨6⟩ ⟨5⟩, .map [⟨8⟩], .cell ⟨6⟩ ⟨7⟩, .map [⟨10⟩],
        .string "ab"]⟩ }
    (Builtin.iterList.body (ObjectModel.machine {} 1) [⟨3⟩, ⟨9⟩]).Ends s (fun element _ => element = ⟨7⟩) (fun _ => False) ∧
    (Builtin.iterString.body (ObjectModel.machine {} 1) [⟨12⟩, ⟨11⟩]).Ends s
      (fun element t => element = s.nothing ∧ t = s) fun _ => False := by
  intro s
  have hclosed : s.Closed := by decide +kernel
  obtain ⟨-, hcursors⟩ := steps_bounded (ObjectModel.machine {} 1) hclosed (show s.kind ⟨9⟩ = .map from rfl) ⟨3⟩
  obtain ⟨hoffsets, -⟩ := steps_bounded (ObjectModel.machine {} 1) hclosed (show s.kind ⟨11⟩ = .map from rfl) ⟨12⟩
  refine ⟨(hcursors .iterList (by simp)).imp_value ?_, (hoffsets .iterString (by simp)).imp_value ?_⟩
  · rintro element t ⟨place, ⟨-, ⟨cursor, hpoints, -⟩ | ⟨rfl, -, hfills⟩⟩, hplace⟩
    · obtain ⟨hnamed, buffer, hp, hown⟩ := hpoints
      have hcursor : s.named? ⟨9⟩ "idx" = some ⟨5⟩ := by decide
      obtain rfl : (⟨5⟩ : Ref) = cursor := Option.some.inj (hcursor.symm.trans hnamed)
      obtain rfl := Payload.buffer.inj hp
      cases hown
    · have hlist : t.payload ⟨3⟩ = .list #[⟨7⟩] :=
        hfills.kept ⟨3⟩ (by decide) (by decide) (by decide)
      simpa [State.Element, hlist, eq_comm] using hplace
  · intro element t hstep
    cases hstep with
    | inside hplace _ _ hinside =>
      have hslot : s.slotInt? ⟨11⟩ "idx" = some Int64.maxValue := by decide
      have hextent : s.extent .iterString ⟨12⟩ = 2 := by decide
      rw [hslot, Option.getD_some, Int64.toInt_maxValue] at hplace
      omega
    | outside _ _ _ hnothing hsame => exact ⟨hnothing, hsame⟩

end Iteration

end ObjectModel
