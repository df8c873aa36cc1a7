import ObjectModel.Proofs.Iteration.Scratch

/-!
# Steps of a walk

A stepping function finds its position in the scratch map, gives the element there and moves on
(`ends_step`). Behind the last element it gives no value, as often as it is asked.
-/

namespace ObjectModel

open ObjectModel.Action

namespace State

/-- The stepping function is for containers like this one, which is well formed: a map has cells, and no
text or buffer is larger than what is addressed by an int. -/
inductive Walkable (s : State) (container : Ref) : Builtin → Prop
  | list {items : Array Ref} (h : s.payload container = .list items) : Walkable s container .iterList
  | map {cells : List Ref} (h : s.payload container = .map cells)
      (hcells : ∀ cell ∈ cells, s.kind cell = .cell) : Walkable s container .iterMap
  | string {text : String} (h : s.payload container = .string text)
      (hsize : (text.utf8ByteSize : Int) ≤ Int64.maxValue.toInt) : Walkable s container .iterString
  | buffer {buffer : Buffer} {address : Address} {length : Nat}
      (h : s.payload container = .buffer buffer) (hview : buffer.view = .sized address length)
      (hsize : (length : Int) ≤ Int64.maxValue.toInt) : Walkable s container .iterBuffer

/-- What a container consists of: itself, and the cells of a map. -/
def Consists (s : State) (container o : Ref) : Prop := o = container ∨ o ∈ s.cells container

/-- The element of a container at a place: an item of a list, a key of a map, a new string of one byte or a
new view of one byte; no value behind the last one. -/
def Yields (s : State) (container : Ref) (k : Nat) (element : Ref) (t : State) : Prop :=
  match s.payload container with
  | .list items => element = items[k]?.getD s.nothing
  | .map _ => element = (s.keys container)[k]?.getD s.nothing
  | .string text =>
    match (Bytes.ofText text)[k]? with
    | some byte => t.payload element = .string (Bytes.toText [byte])
    | none => element = s.nothing
  | .buffer buffer =>
    if (k : Int) < buffer.view.size then
      t.payload element = .buffer {
        view := .sized (View.displaced buffer.view.address k) 1, anchors := [container] }
    else element = s.nothing
  | _ => False

def slotInt? (s : State) (map : Ref) (name : String) : Option Int64 :=
  (s.named? map name).bind fun value => (s.payload value).int?

structure Offset (s : State) (scratch : Ref) (place length : Nat) : Prop where
  offset : ((s.slotInt? scratch "idx").getD 0).toInt = place
  bound : ((s.slotInt? scratch "sz").getD (Integer.ofLength length)).toInt = length

def Cursor (s : State) (scratch container : Ref) (place : Nat) : Prop :=
  place = 0 ∧ s.named? scratch "idx" = none ∨
  ∃ cursor buffer, s.named? scratch "idx" = some cursor ∧ s.payload cursor = .buffer buffer ∧
    buffer.ownership = .resource (.cursor place container)

/-- The scratch map is that of a walk over the container after `k` steps. -/
def Stands (s : State) (container scratch : Ref) (k : Nat) : Prop :=
  match s.payload container with
  | .list _ | .map _ => s.Cursor scratch container k
  | .string text => s.Offset scratch (min k text.utf8ByteSize) text.utf8ByteSize
  | .buffer buffer => s.Offset scratch (min k buffer.view.size.toNat) buffer.view.size.toNat
  | _ => False

def byteCount? (s : State) (container : Ref) : Option Nat :=
  match s.payload container with
  | .string text => some text.utf8ByteSize
  | .buffer buffer => some buffer.view.size.toNat
  | _ => none

variable {s t : State} {map container scratch o : Ref} {log : List (Label × Ref)} {name : String}
  {k place length : Nat}

-- ---------------------------------------------------------------------------
-- Positions
-- ---------------------------------------------------------------------------

theorem Walkable.kept {function : Builtin} (h : s.Walkable container function)
    (hcontainer : t.payload container = s.payload container)
    (hcells : ∀ cell ∈ s.cells container, t.payload cell = s.payload cell) :
    t.Walkable container function := by
  cases h with
  | list hlist => exact .list (hcontainer.trans hlist)
  | map hmap hkinds =>
    refine .map (hcontainer.trans hmap) fun cell hcell => ?_
    have hsame := hcells cell (by simpa [cells, hmap] using hcell)
    exact (congrArg Payload.kind hsame).trans (hkinds cell hcell)
  | string hstring hsize => exact .string (hcontainer.trans hstring) hsize
  | buffer hbuffer hview hsize => exact .buffer (hcontainer.trans hbuffer) hview hsize

theorem Walkable.kind_cell {function : Builtin} {cell : Ref} (h : s.Walkable container function)
    (hcell : cell ∈ s.cells container) : s.kind cell = .cell := by
  cases h with
  | map hmap hcells => exact hcells cell (by simpa [cells, hmap] using hcell)
  | list h | string h | buffer h => simp [cells, h] at hcell

theorem Walkable.kind_ne {function : Builtin} (h : s.Walkable container function)
    (ho : s.Consists container o) : s.kind o ≠ .singlet := by
  rcases ho with rfl | hcell
  · cases h with
    | list h | map h | string h | buffer h => simp [kind_of_payload h, Payload.kind]
  · simp [h.kind_cell hcell]

theorem part_of_named? (h : s.named? map name = some o) : s.Part map o := by
  obtain ⟨cell, hfound, hvalue⟩ := Option.bind_eq_some_iff.mp h
  have hcell : cell ∈ s.cells map := List.mem_of_find?_eq_some hfound
  cases hparts : s.payload cell with
  | cell key value =>
    obtain rfl : value = o := by simpa [cellValue?, hparts, Payload.cellParts?] using hvalue
    exact .value hcell hparts
  | _ => simp [cellValue?, hparts, Payload.cellParts?] at hvalue

theorem stands_iff_cursor (h : s.kind container = .list ∨ s.kind container = .map) :
    s.Stands container scratch k ↔ s.Cursor scratch container k := by
  cases hp : s.payload container with
  | list | map => simp only [Stands, hp]
  | _ => simp [kind, hp, Payload.kind] at h

theorem stands_iff_offset (h : s.byteCount? container = some length) :
    s.Stands container scratch k ↔ s.Offset scratch (min k length) length := by
  cases hp : s.payload container <;> simp only [byteCount?, hp, reduceCtorEq, Option.some.injEq] at h
  · simp only [Stands, hp, h]
  · simp only [Stands, hp, h]

theorem Stands.kept (h : s.Stands container scratch k) (hscratch : s.Scratch scratch log)
    (hafter : t.Scratch scratch log) (hcontainer : t.payload container = s.payload container)
    (hkept : ∀ o, s.Part scratch o → t.payload o = s.payload o) : t.Stands container scratch k := by
  have hnamed (name : String) : t.named? scratch name = s.named? scratch name := by
    rw [hafter.named?, hscratch.named?]
  have hslot (name : String) : t.slotInt? scratch name = s.slotInt? scratch name := by
    simp only [slotInt?, hnamed]
    cases hvalue : s.named? scratch name with
    | none => rfl
    | some value => simp [hkept value (part_of_named? hvalue)]
  have hcursor (place : Nat) (h : s.Cursor scratch container place) :
      t.Cursor scratch container place := by
    refine h.imp (fun ⟨hplace, hnone⟩ => ⟨hplace, (hnamed _).trans hnone⟩) ?_
    rintro ⟨cursor, buffer, hfound, hbuffer, hposition⟩
    have hsame := hkept cursor (part_of_named? hfound)
    exact ⟨cursor, buffer, (hnamed _).trans hfound, hsame.trans hbuffer, hposition⟩
  have hoffset (place length : Nat) (h : s.Offset scratch place length) :
      t.Offset scratch place length :=
    ⟨by rw [hslot]; exact h.offset, by rw [hslot]; exact h.bound⟩
  cases hp : s.payload container with
  | list | map =>
    simp only [Stands, hcontainer, hp] at h ⊢
    exact hcursor _ h
  | string | buffer =>
    simp only [Stands, hcontainer, hp] at h ⊢
    exact hoffset _ _ h
  | _ => simp [Stands, hp] at h

theorem Walkable.stands_zero {function : Builtin} (h : s.Walkable container function)
    (hempty : s.payload scratch = .map []) : s.Stands container scratch 0 := by
  have hnamed (name : String) : s.named? scratch name = none := by
    simp [State.named?, findNamed?, cells, hempty]
  have hoffset (length : Nat) (hsize : (length : Int) ≤ Int64.maxValue.toInt) :
      s.Offset scratch 0 length := by
    rw [Int64.toInt_maxValue] at hsize
    have hlength : min length Int64.maxValue.toInt.toNat = length := by
      rw [Int64.toInt_maxValue]
      omega
    refine ⟨by simp [slotInt?, hnamed], ?_⟩
    simp only [slotInt?, hnamed, Option.bind_none, Option.getD_none, Integer.ofLength, hlength]
    exact Int64.toInt_ofNat_of_lt (by omega)
  have hcursor : s.Cursor scratch container 0 := .inl ⟨rfl, hnamed "idx"⟩
  cases h with
  | list hlist => simpa [Stands, hlist] using hcursor
  | map hmap hcells => simpa [Stands, hmap] using hcursor
  | string hstring hsize => simpa [Stands, hstring] using hoffset _ hsize
  | buffer hbuffer hview hsize => simpa [Stands, hbuffer, hview, View.size] using hoffset _ hsize

end State

namespace Iteration

variable {s t : State} {map container scratch o : Ref} {log : List (Label × Ref)} {name : String}
  {k place length : Nat}

theorem ends_slot? {Q : Option Int64 → State → Prop} {E : State → Prop} :
    (slot? scratch name).Ends s Q E ↔ Q (s.slotInt? scratch name) s := by
  simp only [slot?, ends_bind, Map.ends_getNamed?, State.slotInt?]
  cases s.named? scratch name with
  | none => simp
  | some value => simp

theorem ends_advance (h : s.Scratch scratch log) (offset bound : Int64) :
    (advance scratch offset bound).Ends s
      (fun _ t => (∃ log, t.Scratch scratch log) ∧ s.Touches scratch t ∧
        t.slotInt? scratch "idx" = some (offset + 1) ∧ t.slotInt? scratch "sz" = some bound)
      fun _ => False := by
  simp only [advance, ends_bind, ends_createInt]
  refine (h.ends_put "idx" (.int (offset + 1))).imp_value ?_
  rintro _ t ⟨hscratch, hvalue, -, htouches⟩
  refine (hscratch.ends_put "sz" (.int bound)).imp_value ?_
  rintro _ u ⟨hscratch', hvalue', hints, htouches'⟩
  have hname : Label.name (Bytes.ofText "idx") ≠ .name (Bytes.ofText "sz") := by decide
  refine ⟨⟨_, hscratch'⟩, htouches.trans htouches', ?_, ?_⟩
  · have hkept := (hints _ (State.kind_of_payload hvalue)).trans hvalue
    rw [State.slotInt?, hscratch'.named?, Log.last?_append, if_neg hname, Log.last?_append, if_pos rfl]
    simp [hkept, Payload.int?]
  · rw [State.slotInt?, hscratch'.named?, Log.last?_append, if_pos rfl]
    simp [hvalue', Payload.int?]

theorem ends_nextPosition (h : s.Scratch scratch log) (hcursor : s.Cursor scratch container k) :
    (nextPosition container scratch).Ends s
      (fun position t => position = k ∧ (∃ log, t.Scratch scratch log) ∧ s.Touches scratch t ∧
        t.Cursor scratch container (k + 1))
      fun _ => False := by
  simp only [nextPosition, ends_bind, Map.ends_getNamed?]
  rcases hcursor with ⟨rfl, hnone⟩ | ⟨cursor, buffer, hfound, hbuffer, hposition⟩
  · simp only [hnone, ends_bind, ends_get, ends_create]
    refine (h.ends_put "idx" _).imp_value ?_
    rintro _ t ⟨hscratch, hvalue, -, htouches⟩
    refine ⟨rfl, ⟨_, hscratch⟩, htouches, .inr ⟨_, _, ?_, hvalue, rfl⟩⟩
    simp [hscratch.named?, Log.last?_append]
  · obtain ⟨hscratch, htouches⟩ := h.stored (State.part_of_named? hfound) (State.kind_of_payload hbuffer)
      (.buffer { buffer with ownership := .resource (.cursor (k + 1) container) })
    simp only [hfound, ends_bind, ends_payload, hbuffer, hposition, if_true, ends_store, ends_pure]
    refine ⟨trivial, ⟨_, hscratch⟩, htouches, .inr ⟨cursor, _, ?_, payload_stored_same ?_, rfl⟩⟩
    · rw [hscratch.named?, ← h.named?, hfound]
    · exact h.made _ (State.part_of_named? hfound)

/-- What one step of a walk leads to: the element, and the scratch map one step further on. -/
def Stepped (s : State) (container scratch : Ref) (k : Nat) (element : Ref) (t : State) : Prop :=
  s.Yields container k element t ∧ (∃ log, t.Scratch scratch log) ∧ s.Touches scratch t ∧
    t.Stands container scratch (k + 1)

variable (machine : Machine)

theorem ends_offsets {bound : Int64} {Q : Int64 × Int64 → State → Prop} {E : State → Prop} :
    (offsets scratch bound).Ends s Q E ↔
      Q ((s.slotInt? scratch "idx").getD 0, (s.slotInt? scratch "sz").getD bound) s := by
  simp only [offsets, ends_bind, ends_slot?, ends_pure]

theorem ends_position (hkind : s.kind container = .list ∨ s.kind container = .map)
    (h : s.Scratch scratch log) (hstands : s.Stands container scratch k)
    (haside : ¬ s.Part scratch container) :
    (nextPosition container scratch).Ends s
      (fun position t => position = k ∧ (∃ log, t.Scratch scratch log) ∧ s.Touches scratch t ∧
        t.Stands container scratch (k + 1) ∧ t.payload container = s.payload container)
      fun _ => False := by
  have hin : s.heap.Contains container :=
    State.contains_of_kind_ne (by rcases hkind with hkind | hkind <;> simp [hkind])
  refine (ends_nextPosition h ((State.stands_iff_cursor hkind).mp hstands)).imp_value ?_
  rintro position t ⟨hposition, hscratch, htouches, hnext⟩
  have hkept : t.payload container = s.payload container := htouches.kept container hin haside
  refine ⟨hposition, hscratch, htouches, (State.stands_iff_cursor ?_).mpr hnext, hkept⟩
  rwa [State.kind, hkept]

theorem ends_stepList {items : Array Ref} (hlist : s.payload container = .list items)
    (h : s.Scratch scratch log) (hstands : s.Stands container scratch k)
    (haside : ¬ s.Part scratch container) :
    (stepList machine [container, scratch]).Ends s (Stepped s container scratch k) fun _ => False := by
  simp only [stepList, ends_bind, ends_argument_first, ends_argument_second]
  refine (ends_position (.inl (State.kind_of_payload hlist)) h hstands haside).imp_value ?_
  rintro position t ⟨rfl, hscratch, htouches, hnext, hkept⟩
  have hnothing : t.nothing = s.nothing := by rw [htouches.rest]
  simp only [ends_payload, hkept, hlist, ends_orNothing, hnothing]
  exact ⟨by simp [State.Yields, hlist], hscratch, htouches, hnext⟩

theorem keys_getElem? {cells : List Ref} (hmap : s.payload container = .map cells)
    (hcells : ∀ cell ∈ cells, s.kind cell = .cell) (k : Nat) :
    (s.keys container)[k]? = (cells[k]?.bind fun cell => (s.payload cell).cellParts?.map (·.1)) := by
  have hkeys : s.keys container = cells.filterMap fun cell => (s.payload cell).cellParts?.map (·.1) := by
    simp [State.keys, State.entries, State.cells, hmap, List.map_filterMap]
  rw [hkeys]
  clear hkeys hmap
  induction cells generalizing k with
  | nil => simp
  | cons cell rest ih =>
    obtain ⟨key, value, hparts⟩ := State.payload_of_cell (hcells cell (by simp))
    cases k with
    | zero => simp [hparts, Payload.cellParts?]
    | succ k => simpa [hparts, Payload.cellParts?] using ih (fun c hc => hcells c (by simp [hc])) k

theorem ends_stepMap {cells : List Ref} (hmap : s.payload container = .map cells)
    (hcells : ∀ cell ∈ cells, s.kind cell = .cell) (h : s.Scratch scratch log)
    (hstands : s.Stands container scratch k) (haside : ¬ s.Part scratch container)
    (hbeside : ∀ cell ∈ cells, ¬ s.Part scratch cell) :
    (stepMap machine [container, scratch]).Ends s (Stepped s container scratch k) fun _ => False := by
  simp only [stepMap, ends_bind, ends_argument_first, ends_argument_second]
  refine (ends_position (.inr (State.kind_of_payload hmap)) h hstands haside).imp_value ?_
  rintro position t ⟨rfl, hscratch, htouches, hnext, hkept⟩
  have hnothing : t.nothing = s.nothing := by rw [htouches.rest]
  simp only [ends_payload, hkept, hmap]
  cases hcell : cells[position]? with
  | none =>
    simp only [ends_nothing, hnothing]
    refine ⟨?_, hscratch, htouches, hnext⟩
    simp [State.Yields, hmap, keys_getElem? hmap hcells, hcell]
  | some cell =>
    have hmem := List.mem_of_getElem? hcell
    have hmade : s.heap.Contains cell := State.contains_of_kind_ne (by simp [hcells cell hmem])
    simp only [ends_bind, ends_payload, htouches.kept cell hmade (hbeside cell hmem), ends_orNothing,
      hnothing]
    refine ⟨?_, hscratch, htouches, hnext⟩
    simp [State.Yields, hmap, keys_getElem? hmap hcells, hcell]

theorem toInt_succ {offset : Int64} (h : offset.toInt = place) (hlt : place < length)
    (hsize : (length : Int) ≤ Int64.maxValue.toInt) : (offset + 1).toInt = (place + 1 : Nat) := by
  have hone : (1 : Int64).toInt = 1 := rfl
  rw [Int64.toInt_maxValue] at hsize
  rw [Int64.toInt_add, h, hone, Int.bmod_eq_of_le]
  · omega
  · omega
  · omega

theorem offset_lt_iff (h : s.Offset scratch (min k length) length) :
    (s.slotInt? scratch "idx").getD 0 < (s.slotInt? scratch "sz").getD (Integer.ofLength length) ↔
      k < length := by
  rw [Int64.lt_iff_toInt_lt, h.offset, h.bound, Int.ofNat_lt]
  omega

theorem ends_advanced (hcount : s.byteCount? container = some length)
    (hsize : (length : Int) ≤ Int64.maxValue.toInt) (h : s.Scratch scratch log)
    (hstands : s.Stands container scratch k) (haside : ¬ s.Part scratch container) (hlt : k < length)
    {payload : Payload} (hyields : ∀ t : State, s.Yields container k t.heap.next (t.made payload)) :
    (do
      advance scratch ((s.slotInt? scratch "idx").getD 0)
        ((s.slotInt? scratch "sz").getD (Integer.ofLength length))
      create payload).Ends s (Stepped s container scratch k) fun _ => False := by
  have hin : s.heap.Contains container := by
    refine State.contains_of_kind_ne fun hkind => ?_
    cases hp : s.payload container <;> simp [State.byteCount?, State.kind, hp, Payload.kind] at hcount hkind
  have hoffset := (State.stands_iff_offset hcount).mp hstands
  rw [Nat.min_eq_left (Nat.le_of_lt hlt)] at hoffset
  simp only [ends_bind, ends_create]
  refine (ends_advance h _ _).imp_value ?_
  rintro _ t ⟨⟨log, hscratch⟩, htouches, hidx, hsz⟩
  have hkept : t.payload container = s.payload container := htouches.kept container hin haside
  have hnext : t.Stands container scratch (k + 1) := by
    rw [State.stands_iff_offset (by rwa [State.byteCount?, hkept]), Nat.min_eq_left hlt]
    exact ⟨by rw [hidx]; exact toInt_succ hoffset.offset hlt hsize, by rw [hsz]; exact hoffset.bound⟩
  have hgrown := State.Grown.made t payload
  have hafter := hscratch.made_object payload
  refine ⟨hyields t, ⟨log, hafter⟩, htouches.trans (.made hscratch payload), ?_⟩
  refine hnext.kept hscratch hafter ?_ fun o hpart => hgrown.kept o (hscratch.made o hpart)
  exact hgrown.kept container (Nat.lt_of_lt_of_le hin htouches.size)

/-- Behind the last byte a walk by offsets stays where it is. -/
theorem stepped_past (hcount : s.byteCount? container = some length) (h : s.Scratch scratch log)
    (hstands : s.Stands container scratch k) (hle : length ≤ k)
    (hyields : s.Yields container k s.nothing s) : Stepped s container scratch k s.nothing s := by
  refine ⟨hyields, ⟨log, h⟩, .refl s scratch, ?_⟩
  rw [State.stands_iff_offset hcount, Nat.min_eq_right hle] at hstands
  rwa [State.stands_iff_offset hcount, Nat.min_eq_right (Nat.le_succ_of_le hle)]

theorem ends_stepString {text : String} (hstring : s.payload container = .string text)
    (hsize : (text.utf8ByteSize : Int) ≤ Int64.maxValue.toInt) (h : s.Scratch scratch log)
    (hstands : s.Stands container scratch k) (haside : ¬ s.Part scratch container) :
    (stepString machine [container, scratch]).Ends s (Stepped s container scratch k) fun _ => False := by
  have hcount : s.byteCount? container = some text.utf8ByteSize := by simp [State.byteCount?, hstring]
  have hoffset := (State.stands_iff_offset hcount).mp hstands
  simp only [stepString, ends_bind, ends_argument_first, ends_argument_second, ends_payload, hstring,
    Payload.stringOrEmpty, Payload.string?, Option.getD_some, ends_offsets, offset_lt_iff hoffset]
  by_cases hlt : k < text.utf8ByteSize
  · have hbyte : k < (Bytes.ofText text).length := by rwa [Bytes.length_ofText]
    rw [if_pos hlt, hoffset.offset, Nat.min_eq_left (Nat.le_of_lt hlt), Bytes.ofTextAt?_eq, Bytes.at?,
      if_neg (by omega), Int.toNat_natCast, List.getElem?_eq_getElem hbyte]
    refine ends_advanced hcount hsize h hstands haside hlt fun t => ?_
    simp [State.Yields, hstring, List.getElem?_eq_getElem hbyte, payload_made_next]
  · have hpast : text.utf8ByteSize ≤ k := Nat.le_of_not_lt hlt
    have hbyte : (Bytes.ofText text).length ≤ k := by rwa [Bytes.length_ofText]
    rw [if_neg hlt]
    refine stepped_past hcount h hstands hpast ?_
    simp [State.Yields, hstring, List.getElem?_eq_none hbyte]

theorem ends_stepBuffer {buffer : Buffer} {address : Address}
    (hbuffer : s.payload container = .buffer buffer) (hview : buffer.view = .sized address length)
    (hsize : (length : Int) ≤ Int64.maxValue.toInt) (h : s.Scratch scratch log)
    (hstands : s.Stands container scratch k) (haside : ¬ s.Part scratch container) :
    (stepBuffer machine [container, scratch]).Ends s (Stepped s container scratch k) fun _ => False := by
  have hcount : s.byteCount? container = some length := by
    simp [State.byteCount?, hbuffer, hview, View.size]
  have hoffset := (State.stands_iff_offset hcount).mp hstands
  have hzero : 0 ≤ (s.slotInt? scratch "idx").getD 0 := by
    rw [Int64.le_iff_toInt_le, hoffset.offset]
    exact Int.natCast_nonneg _
  simp only [stepBuffer, ends_bind, ends_argument_first, ends_argument_second, ends_payload, hbuffer,
    Payload.buffer?, Option.map_some, hview, ends_offsets, offset_lt_iff hoffset, hzero, hoffset.offset,
    Int.ofNat_lt, true_and]
  by_cases hlt : k < length
  · rw [if_pos ⟨hlt, Nat.lt_of_le_of_lt (Nat.min_le_left ..) hlt⟩, Nat.min_eq_left (Nat.le_of_lt hlt)]
    refine ends_advanced hcount hsize h hstands haside hlt fun t => ?_
    simp [State.Yields, hbuffer, hview, View.size, View.address, hlt, payload_made_next]
  · rw [if_neg fun hboth => hlt hboth.1]
    refine stepped_past hcount h hstands (Nat.le_of_not_lt hlt) ?_
    simp [State.Yields, hbuffer, hview, View.size, hlt]

/-- A stepping function gives the element at its place and moves on. -/
theorem ends_step {function : Builtin} (hwalkable : s.Walkable container function)
    (h : s.Scratch scratch log) (hstands : s.Stands container scratch k)
    (haside : ∀ o, s.Consists container o → ¬ s.Part scratch o) :
    (function.body machine [container, scratch]).Ends s (Stepped s container scratch k)
      fun _ => False := by
  have hself := haside container (.inl rfl)
  cases hwalkable with
  | list hlist => exact ends_stepList machine hlist h hstands hself
  | map hmap hcells =>
    refine ends_stepMap machine hmap hcells h hstands hself ?_
    exact fun cell hcell => haside cell (.inr (by simpa [State.cells, hmap] using hcell))
  | string hstring hsize => exact ends_stepString machine hstring hsize h hstands hself
  | buffer hbuffer hview hsize => exact ends_stepBuffer machine hbuffer hview hsize h hstands hself

/-- What a step leads to is said of objects alone, not of the frame that it ran in. -/
theorem Stepped.outside {inner after : State} (hheap : inner.heap = s.heap)
    (hnothing : inner.nothing = s.nothing) (h : Stepped inner container scratch k o after) :
    Stepped s container scratch k o { s with heap := after.heap } := by
  obtain ⟨hyields, ⟨log', hafter⟩, htouches, hstands⟩ := h
  have hpayload (p : Ref) : inner.payload p = s.payload p := congrArg (Heap.get · p) hheap
  obtain ⟨hlater, hparts⟩ := hafter.kept (t := { s with heap := after.heap }) (Nat.le_refl _)
    fun _ _ _ => rfl
  have hbefore (p : Ref) : inner.Part scratch p ↔ s.Part scratch p :=
    State.part_iff (hpayload scratch) fun cell _ => hpayload cell
  refine ⟨?_, ⟨log', hlater⟩, ⟨rfl, hheap ▸ htouches.size, fun p hp hpart => ?_, fun p hpart => ?_⟩, ?_⟩
  · have hkeys : inner.keys container = s.keys container := by
      simp only [State.keys, State.entries, State.cells, hpayload]
    simp only [State.Yields, hpayload, hkeys, hnothing] at hyields
    exact hyields
  · exact (htouches.kept p (hheap ▸ hp) fun hin => hpart ((hbefore p).mp hin)).trans (hpayload p)
  · rw [← hbefore, ← hheap]
    exact htouches.parts p ((hparts p).mp hpart)
  · exact hstands.kept hafter hlater rfl fun _ _ => rfl

theorem ends_call_step {host : Host} {rounds : Nat} {function : Builtin} {step : Ref}
    (hstep : s.payload step = .native (.builtin function)) (hroom : s.room ≠ 0)
    (hwalkable : s.Walkable container function) (h : s.Scratch scratch log)
    (hstands : s.Stands container scratch k) (haside : ∀ o, s.Consists container o → ¬ s.Part scratch o) :
    ((ObjectModel.machine host (rounds + 1)).call step [container, scratch]).Ends s
      (Stepped s container scratch k) fun _ => False := by
  rw [ends_call_native hstep, ends_inFrame]
  refine ⟨fun hfull => absurd hfull hroom, fun _ => ?_⟩
  generalize hinner :
    (s.withHeld ([step] :: (step :: [container, scratch]) :: s.held)).framed step = inner
  have hheap : inner.heap = s.heap := by rw [← hinner]; rfl
  have hnothing : inner.nothing = s.nothing := by rw [← hinner]; rfl
  have hpayload (p : Ref) : inner.payload p = s.payload p := congrArg (Heap.get · p) hheap
  obtain ⟨hscratch, hparts⟩ := h.kept (t := inner) (Nat.le_of_eq (congrArg Heap.size hheap.symm))
    fun p _ _ => hpayload p
  have hplace := hstands.kept h hscratch (hpayload container) fun p _ => hpayload p
  have hwalkable' := hwalkable.kept (hpayload container) fun p _ => hpayload p
  have haside' (p : Ref) (hp : inner.Consists container p) : ¬ inner.Part scratch p := by
    rw [hparts]
    exact haside p (hp.imp_right (State.cells_of_payload (hpayload container) ▸ ·))
  rw [ends_followedBy]
  refine (ends_step _ hwalkable' hscratch hplace haside').imp_sure ?_
  intro element after hstepped
  have hrest : after = { inner with heap := after.heap } := hstepped.2.2.1.rest
  have hframes : after.frames = step :: s.frames := by rw [hrest, ← hinner]; rfl
  have hout : State.withHeld { after with frames := s.frames } s.held = { s with heap := after.heap } := by
    rw [hrest, ← hinner]
    rfl
  rw [ends_popFrame hframes, hout]
  exact hstepped.outside hheap hnothing

end Iteration

end ObjectModel
