import ObjectModel.Builtin.Globals
import ObjectModel.Proofs.Comparison.Ties
import ObjectModel.Proofs.Maps.Lookup

/-!
# Names and the strings that hold them

A map is asked for a name as such, which runs no operation, or for a string, which is compared with keys
that are no names. Both find and store the same (`names_agree`), but for the one text that every buffer
of unknown size gives itself.
-/

namespace ObjectModel

open ObjectModel.Action

namespace State

def keys (s : State) (map : Ref) : List Ref := (s.entries map).map (·.1)

/-- A buffer of unknown size. It is no name, but has a text. -/
def isUnsized (s : State) (o : Ref) : Bool :=
  match s.payload o with
  | .buffer buffer => buffer.view.length?.isNone
  | _ => false

/-- A value was put into a map: into the cell that was found, or into a new cell behind the others, under
a key of some sort. Objects were made, and all else is as it was. -/
structure Puts (s : State) (map : Ref) (found : Option Ref) (sort : State → Ref → Prop) (value : Ref)
    (t : State) : Prop where
  rest : t = { s with heap := t.heap }
  size : s.heap.size ≤ t.heap.size
  kept : ∀ o, s.heap.Contains o → o ≠ found.getD map → t.payload o = s.payload o
  replaced : ∀ cell, found = some cell →
    ∃ stored old, s.payload cell = .cell stored old ∧ t.payload cell = .cell stored value
  appended : found = none → ∃ cell key, ¬ s.heap.Contains cell ∧ t.payload cell = .cell key value ∧
    sort t key ∧ t.payload map = .map (s.cells map ++ [cell])

variable {s t : State} {map cell key value probe : Ref} {text : String}

theorem mem_keys : key ∈ s.keys map ↔ ∃ cell ∈ s.cells map, ∃ value, s.payload cell = .cell key value := by
  constructor
  · intro hkey
    obtain ⟨⟨_, value⟩, hentry, rfl⟩ := List.mem_map.mp hkey
    obtain ⟨cell, hcell, hparts⟩ := List.mem_filterMap.mp hentry
    refine ⟨cell, hcell, value, ?_⟩
    cases hp : s.payload cell <;> simp [hp, Payload.cellParts?] at hparts ⊢
    exact hparts
  · rintro ⟨cell, hcell, value, hparts⟩
    refine List.mem_map.mpr ⟨(key, value), List.mem_filterMap.mpr ⟨cell, hcell, ?_⟩, rfl⟩
    rw [hparts, Payload.cellParts?]

theorem isNamed_iff : s.isNamed key text = true ↔ s.nameBytes? key = some (Bytes.ofText text) := by
  unfold isNamed State.nameBytes?
  cases s.payload key with
  | string other => simp [Bytes.ofText_inj]
  | buffer buffer => simp
  | _ => simp

theorem isUnsized_eq (h : s.payload o = .buffer b) : s.isUnsized o = (b.textBytes? s.memory).isNone := by
  simp only [isUnsized, h, Buffer.textBytes?, Buffer.bytes?]
  cases b.view <;> rfl

/-- A string matches the keys that are the name, and one text matches every buffer of unknown size. -/
theorem selects_string (h : s.payload probe = .string text) (key : Ref) :
    s.selects probe key = (s.isNamed key text || (text = "<UNSIZED_BUFFER>" && s.isUnsized key)) := by
  have hleaf : s.Leaf probe key := by
    constructor <;> simp [kind, h, Payload.kind]
  have hname : s.nameBytes? probe = some (Bytes.ofText text) := by simp [nameBytes?, h]
  have hcompare := sign_leafOrder_eq_zero hleaf
  unfold selects
  rw [hname]
  cases hkey : s.payload key with
  | string other =>
    rw [Bool.eq_iff_iff]
    simp [nameBytes?, isNamed, isUnsized, hkey, Bytes.ofText_inj, eq_comm (a := text)]
  | buffer b =>
    rw [isUnsized_eq hkey]
    simp only [nameBytes?, isNamed, hkey]
    cases hbytes : b.textBytes? s.memory with
    | some bytes => simp [eq_comm]
    | none => simp [hcompare, Coincide, h, hkey, Buffer.text, hbytes, eq_comm]
  | _ => simp [nameBytes?, isNamed, isUnsized, hkey, hcompare, Coincide, h]

theorem found?_string (h : s.payload probe = .string text)
    (hsized : text = "<UNSIZED_BUFFER>" → ∀ key ∈ s.keys map, s.isUnsized key = false) :
    s.found? map probe = s.findNamed? map text := by
  refine List.find?_congr fun cell hcell => ?_
  simp only [selectsCell, cellIsNamed]
  cases hparts : s.payload cell with
  | cell key value =>
    have hstored : key ∈ s.keys map := mem_keys.mpr ⟨cell, hcell, value, hparts⟩
    show s.selects probe key = s.isNamed key text
    rw [selects_string h]
    by_cases htext : text = "<UNSIZED_BUFFER>"
    · simp [hsized htext _ hstored]
    · simp [htext]
  | _ => rfl

theorem Stores.puts (h : s.Stores map key value t) (hkey : sort t key) :
    s.Puts map (s.found? map key) sort value t where
  rest := h.rest
  size := h.size
  kept := h.kept
  replaced := h.replaced
  appended hfound := by
    obtain ⟨cell, hnew, hcell, hmap⟩ := h.appended hfound
    exact ⟨cell, key, hnew, hcell, hkey, hmap⟩

theorem Puts.imp (h : s.Puts map found sort value t) (hsort : ∀ key, sort t key → others t key) :
    s.Puts map found others value t where
  rest := h.rest
  size := h.size
  kept := h.kept
  replaced := h.replaced
  appended hfound := by
    obtain ⟨cell, key, hnew, hcell, hkey, hmap⟩ := h.appended hfound
    exact ⟨cell, key, hnew, hcell, hsort key hkey, hmap⟩

theorem Puts.kept_plain (h : s.Puts map found sort value t) (hmap : s.kind map = .map)
    (hplain : s.PlainKey o) : t.payload o = s.payload o := by
  refine h.kept o (contains_of_plainKey hplain) ?_
  rintro rfl
  cases found with
  | none =>
    obtain ⟨cells, hcells⟩ := payload_of_map hmap
    simp [PlainKey, nameBytes?, kind, hcells, Payload.kind] at hplain
  | some cell =>
    obtain ⟨stored, old, hparts, -⟩ := h.replaced cell rfl
    simp [PlainKey, nameBytes?, kind, hparts, Payload.kind] at hplain

theorem Puts.of_replaced (hparts : s.payload cell = .cell key old) :
    s.Puts map (some cell) sort value (s.stored cell (.cell key value)) := by
  have hcell : s.heap.Contains cell := contains_of_kind_ne (by simp [kind_of_payload hparts, Payload.kind])
  constructor
  case rest => rfl
  case size => simp
  case kept =>
    intro o _ ho
    exact payload_stored_other ho
  case replaced =>
    rintro _ ⟨⟩
    exact ⟨key, old, hparts, payload_stored_same hcell⟩
  case appended => simp

theorem Puts.of_appended (h : s.Grown t s.shown) (hmap : s.heap.Contains map)
    (hkey : sort ((t.made (.cell key value)).stored map (.map (s.cells map ++ [t.heap.next]))) key) :
    s.Puts map none sort value
      ((t.made (.cell key value)).stored map (.map (s.cells map ++ [t.heap.next]))) := by
  have hgrown := h.thenMade (.cell key value)
  have hin : (t.made (.cell key value)).heap.Contains map := Nat.lt_of_lt_of_le hmap hgrown.size
  have hnext : ¬ s.heap.Contains t.heap.next := not_contains_next h.size
  constructor
  case rest => rw [h.rest]; rfl
  case size => simpa using hgrown.size
  case kept =>
    intro o ho hne
    exact (payload_stored_other hne).trans (hgrown.kept o ho)
  case replaced => simp
  case appended =>
    have hne : t.heap.next ≠ map := by
      rintro rfl
      exact hnext hmap
    refine fun _ => ⟨t.heap.next, key, hnext, ?_, hkey, payload_stored_same hin⟩
    rw [payload_stored_other hne, payload_made_next]

end State

theorem Map.ends_setNamed_fresh {s : State} {map : Ref} (hmap : s.kind map = .map) (text : String)
    (value : Ref) : (setNamed map text value).Ends s
      (fun _ t => s.Puts map (s.findNamed? map text)
        (fun u key => u.payload key = .string text ∧ ¬ s.heap.Contains key) value t)
      fun _ => False := by
  simp only [setNamed, ends_bind, ends_get]
  cases hfound : s.findNamed? map text with
  | some cell =>
    have hnamed := List.find?_some hfound
    cases hparts : s.payload cell with
    | cell key old =>
      simp only [replaceValue, ends_bind, ends_payload, hparts, ends_store]
      exact .of_replaced hparts
    | _ => simp [State.cellIsNamed, hparts] at hnamed
  | none =>
    have hin : s.heap.Contains map := State.contains_of_kind_ne (by simp [hmap])
    have hgrown := State.Grown.made s (.string text)
    have hsame := hgrown.kept map hin
    have hlist : (s.made (.string text)).cells map = s.cells map := by simp only [State.cells, hsame]
    rw [ends_bind, ends_createString]
    refine (ends_append ((congrArg Payload.kind hsame).trans hmap)).mpr ?_
    rw [hlist]
    have hnew : ¬ s.heap.Contains s.heap.next := State.not_contains_next (Nat.le_refl _)
    refine .of_appended hgrown hin ⟨?_, hnew⟩
    have hkey : (s.made (.string text)).heap.Contains s.heap.next := contains_made_next ..
    have hne : s.heap.next ≠ map := by
      rintro rfl
      exact hnew hin
    rw [payload_stored_other hne, (State.Grown.made _ _).kept _ hkey, payload_made_next]

theorem Map.ends_setNamed {s : State} {map : Ref} (hmap : s.kind map = .map) (text : String)
    (value : Ref) : (setNamed map text value).Ends s
      (fun _ t => s.Puts map (s.findNamed? map text) (fun u key => u.payload key = .string text) value t)
      fun _ => False :=
  (ends_setNamed_fresh hmap text value).imp_value fun _ _ hputs => hputs.imp fun _ hkey => hkey.1

-- ---------------------------------------------------------------------------
-- Strings and names
-- ---------------------------------------------------------------------------

/-- Looking for a string gives what is stored under the name, and storing under one puts the value where
the other does. The text that a buffer of unknown size has is left out while such a buffer is a key: as a
string it matches the buffer, as a name it does not. -/
theorem names_agree (host : Host) (rounds : Nat) {s : State} {map key : Ref} {text : String}
    (hclosed : s.Closed) (hmap : s.kind map = .map) (hkey : s.payload key = .string text)
    (hsized : text = "<UNSIZED_BUFFER>" → ∀ key ∈ s.keys map, s.isUnsized key = false)
    (value : Ref) :
    (Map.get? (machine host (rounds + 2)).toDispatcher map key).Ends s
      (fun found t => found = s.named? map text ∧ s.Grown t s.shown) (fun _ => False) ∧
    (Map.getNamed? map text).Ends s (fun found t => found = s.named? map text ∧ t = s)
      (fun _ => False) ∧
    (Map.set (machine host (rounds + 2)).toDispatcher map key value).Ends s
      (fun _ t => s.Puts map (s.findNamed? map text) (fun u k => u.payload k = .string text) value t)
      (fun _ => False) ∧
    (Map.setNamed map text value).Ends s
      (fun _ t => s.Puts map (s.findNamed? map text) (fun u k => u.payload k = .string text) value t)
      (fun _ => False) := by
  have hin : s.heap.Contains map := State.contains_of_kind_ne (by simp [hmap])
  have hplain : s.PlainKey key := .inl (by simp [State.nameBytes?, hkey])
  have hfound := State.found?_string hkey hsized
  have hcells := hclosed.madeCells map
  refine ⟨?_, ⟨rfl, rfl⟩, ?_, Map.ends_setNamed hmap text value⟩
  · refine (Map.ends_get? host rounds hcells hin hplain (.refl s)).imp_value ?_
    rintro _ t ⟨rfl, hgrown⟩
    refine ⟨?_, hgrown⟩
    rw [State.lookup?, hfound]
    rfl
  · refine (Map.ends_set host rounds hcells hmap hplain value).imp_value ?_
    intro _ t h
    have hputs : s.Puts map _ (fun _ _ => True) value t := h.puts trivial
    rw [← hfound]
    exact h.puts ((hputs.kept_plain hmap hplain).trans hkey)

/-- A map with an int under a string, where a buffer of unknown size is no key. -/
theorem names_agree_unsized :
    let s := { Globals.bare {} .discard {} with
      heap := ⟨#[.singlet "None", .map [], .map [], .string "<UNSIZED_BUFFER>", .int 1,
        .cell ⟨3⟩ ⟨4⟩, .map [⟨5⟩], .string "<UNSIZED_BUFFER>"]⟩ }
    s.Closed ∧ ∀ rounds, (Map.get? (machine {} (rounds + 2)).toDispatcher ⟨6⟩ ⟨7⟩).Ends s
      (fun found t => found = some ⟨4⟩ ∧ s.Grown t s.shown) fun _ => False := by
  intro s
  have hclosed : s.Closed := by decide
  have hmap : s.kind ⟨6⟩ = .map := rfl
  have hkey : s.payload ⟨7⟩ = .string "<UNSIZED_BUFFER>" := rfl
  refine ⟨hclosed, fun rounds => ?_⟩
  obtain ⟨hget, -⟩ := names_agree {} rounds hclosed hmap hkey (by decide) ⟨4⟩
  exact hget

end ObjectModel
