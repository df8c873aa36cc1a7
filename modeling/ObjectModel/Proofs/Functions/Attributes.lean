import ObjectModel.Proofs.Functions.Parts
import ObjectModel.Proofs.Maps.Labels

/-!
# Functions as containers

A function keeps what is stored under a name of a part as that part, and everything else in its map of
attributes, which is asked as it is, without its hooks. Either way, what was stored is read back, and what is
stored under other names stays (`function_contents`).
-/

namespace ObjectModel

open ObjectModel.Action Behavior State

/-- No part of a function has this name. -/
def Label.IsAttribute (label : Label) : Prop := ∀ field : FunctionField, label ≠ .name field.bytes

/-- The key reads the value. -/
def State.ReadsAttribute (s : State) (machine : Machine) (f key value : Ref) : Prop :=
  (machine.index f key).Ends s (fun o t => o = value ∧ s.Grown t s.shown) fun _ => False

variable {s t : State} {f key again value : Ref} {function : Function} {field : FunctionField}
  {part : FunctionPart} {label : Label} {host : Host} {rounds : Nat}

-- ---------------------------------------------------------------------------
-- Attributes
-- ---------------------------------------------------------------------------

theorem nameBytes?_ne_of_attribute (hkey : s.label? key = some label) (hlabel : label.IsAttribute)
    (field : FunctionField) : s.nameBytes? key ≠ some field.bytes := by
  intro hname
  rw [label?_eq_name.mpr hname] at hkey
  exact hlabel field (Option.some.inj hkey).symm

theorem part?_of_attribute (hkey : s.label? key = some label) (hlabel : label.IsAttribute) :
    (s.nameBytes? key).bind (Functions.part? function) = none := by
  cases hname : s.nameBytes? key with
  | none => rfl
  | some name =>
    refine part?_eq_none fun field heq => nameBytes?_ne_of_attribute hkey hlabel field ?_
    rw [hname, heq]

/-- The text under which something is stored is that of a part for the names of parts only. -/
theorem text_ne_of_attribute (hkey : s.label? key = some label) (hlabel : label.IsAttribute)
    (field : FunctionField) : ((s.nameBytes? key).map Bytes.toText).getD "" ≠ field.key := by
  cases hname : s.nameBytes? key with
  | none => cases field <;> decide
  | some name =>
    intro htext
    refine nameBytes?_ne_of_attribute hkey hlabel field ?_
    rw [hname, (field.toText_eq_key).mp htext]

section Attributes

variable (hf : s.payload f = .function function) (hkey : s.label? key = some label) (hlabel : label.IsAttribute)
include hf hkey hlabel

theorem ends_index_attribute (hcells : ∀ cell ∈ s.cells function.attributes, s.MadeCell cell)
    (hin : s.heap.Contains function.attributes) : s.ReadsAttribute (machine host (rounds + 3)) f key
      ((s.lookup? function.attributes key).getD s.nothing) := by
  rw [ReadsAttribute, ends_index_function hf, part?_of_attribute hkey hlabel]
  simp only [ends_bind, ends_orNothing]
  refine (Map.ends_get? host rounds hcells hin (plainKey_of_label? hkey) ((Like.refl s).withHeld _)).imp_value ?_
  rintro _ t ⟨rfl, hgrown⟩
  exact ⟨by rw [hgrown.keeps.nothing]; rfl, hgrown.unheld⟩

theorem ends_setIndex_attribute (hcells : ∀ cell ∈ s.cells function.attributes, s.MadeCell cell)
    (hmap : s.kind function.attributes = .map) (value : Ref) :
    ((machine host (rounds + 3)).setIndex f key value).Ends s
      (fun _ t => s.Stores function.attributes key value t) fun _ => False := by
  have hhere (held : List (List Ref)) : (s.withHeld held).payload f = .function function := hf
  have htext (held : List (List Ref)) (field : FunctionField) :
      (((s.withHeld held).nameBytes? key).map Bytes.toText).getD "" ≠ field.key :=
    text_ne_of_attribute hkey hlabel field
  have hset (held : List (List Ref)) := Map.ends_set host rounds (s := s.withHeld held) hcells hmap
    (plainKey_of_label? hkey) value
  rw [ends_setIndex_function hf]
  simp only [Functions.setIndex, ends_bind, ends_argument_first, ends_argument_second, ends_argument_third,
    ends_discard, ends_expect_function (hhere _), ends_nameBytes?, ends_kind, ends_holding, withHeld_withHeld]
  split
  case h_1 hname => exact absurd hname (htext _ .name)
  case h_2 hname => exact absurd hname (htext _ .rest)
  case h_3 hname => exact absurd hname (htext _ .params)
  case h_4 hname => exact absurd hname (htext _ .body)
  case h_5 hname => exact absurd hname (htext _ .closure)
  case h_6 hname => exact absurd hname (htext _ .attributes)
  case h_7 hname => exact absurd hname (htext _ .annotations)
  case h_8 =>
    simp only [ends_bind, ends_payload, hhere]
    exact (hset _).imp_value fun _ t h => h.unheld

end Attributes

-- ---------------------------------------------------------------------------
-- Contents
-- ---------------------------------------------------------------------------

theorem ends_write_attribute (hclosed : s.Closed) (hf : s.payload f = .function function)
    (hmap : s.kind function.attributes = .map) (hkey : s.label? key = some label)
    (hlabel : label.IsAttribute) (value : Ref) : ((machine host (rounds + 3)).setIndex f key value).Ends s
      (fun _ t => s.Stores function.attributes key value t ∧ t.payload f = .function function ∧
        t.ReadsAttribute (machine host (rounds + 3)) f key value ∧
        (s.KeysSized function.attributes → ∀ again, t.label? again = some label →
          t.ReadsAttribute (machine host (rounds + 3)) f again value))
      fun _ => False := by
  have hmade := hclosed.madeMap hmap
  have hkind : s.kind f = .function := kind_of_payload hf
  refine (ends_setIndex_attribute hf hkey hlabel hmade.cells hmap value).imp_value fun _ t hstores => ?_
  have hputs : s.Puts function.attributes _ (fun _ o => o = key) value t := hstores.puts rfl
  have hafter : t.payload f = .function function := by
    refine (hstores.kept f (contains_of_function hf) ?_).trans hf
    rintro rfl
    rcases (hputs.kind_place hmap).2 with hplace | hplace <;> cases hkind.symm.trans hplace
  have hread (again : Ref) (hagain : t.label? again = some label)
      (hfound : t.lookup? function.attributes again = some value) :
      t.ReadsAttribute (machine host (rounds + 3)) f again value := by
    have hmadeAfter := hstores.madeMap hmade hkey
    have hlookup : t.ReadsAttribute (machine host (rounds + 3)) f again _ :=
      ends_index_attribute hafter hagain hlabel hmadeAfter.cells hmadeAfter.made
    rwa [hfound] at hlookup
  have hself := hputs.label?_eq hmap hkey
  have hfound := hstores.lookup?_self hmade hkey
  refine ⟨hstores, hafter, hread key hself hfound, fun hsized again hagain => hread again hagain ?_⟩
  have hsame := found?_of_label hagain hself (hstores.keysSized hmade hkey hsized)
  rwa [State.lookup?, hsame]

/-- What is read from a part and written back changes nothing. What is written to a part is read from it
under every string and buffer that names it, and all other parts stay. Every other name and every int stands
for an attribute, which is stored in the map and read from it without its hooks, while the function stays.
Names with the same bytes stand for one attribute, unless a key of the map is a buffer of unknown size. -/
theorem function_contents (host : Host) (rounds : Nat) {s : State} {f : Ref} {function : Function}
    (hclosed : s.Closed) (hnothing : s.heap.Contains s.nothing) (hf : s.payload f = .function function) :
    (∀ (field : FunctionField) key again, s.nameBytes? key = some field.bytes →
      s.nameBytes? again = some field.bytes →
      (do (machine host (rounds + 3)).setIndex f again (← (machine host (rounds + 3)).index f key)).Ends s
        (fun _ t => s.Grown t s.shown) fun _ => False) ∧
    (∀ field, s.ReadsPart (machine host (rounds + 3)) f field (function.part field)) ∧
    (∀ (field : FunctionField) part key value, s.nameBytes? key = some field.bytes → s.Takes field part →
      s.ShowsPart value part → ((machine host (rounds + 3)).setIndex f key value).Ends s
        (fun _ t => s.WritesPart f field part t ∧ t.ReadsPart (machine host (rounds + 3)) f field part)
        fun _ => False) ∧
    (s.kind function.attributes = .map →
      (∀ key label, s.label? key = some label → label.IsAttribute →
        s.ReadsAttribute (machine host (rounds + 3)) f key
          ((s.lookup? function.attributes key).getD s.nothing) ∧
        ∀ value, ((machine host (rounds + 3)).setIndex f key value).Ends s
          (fun _ t => s.Stores function.attributes key value t ∧ t.payload f = .function function ∧
            t.ReadsAttribute (machine host (rounds + 3)) f key value ∧
            (s.KeysSized function.attributes → ∀ again, t.label? again = some label →
              t.ReadsAttribute (machine host (rounds + 3)) f again value))
          fun _ => False) ∧
      (s.KeysSized function.attributes → ∀ key again label, s.label? key = some label →
        s.label? again = some label →
        s.found? function.attributes again = s.found? function.attributes key)) := by
  refine ⟨?parts, ?read, ?written, fun hmap => ⟨?attributes, ?alike⟩⟩
  case parts => exact fun _ _ _ hkey hagain => ends_write_back hf hnothing hkey hagain
  case read => exact fun _ _ hkey => ends_index_part hf hnothing hkey
  case written => exact fun _ _ _ _ hkey htakes hvalue => ends_write_part hf hnothing hkey htakes hvalue
  case attributes =>
    intro key label hkey hlabel
    have hmade := hclosed.madeMap hmap
    exact ⟨ends_index_attribute hf hkey hlabel hmade.cells hmade.made,
      ends_write_attribute hclosed hf hmap hkey hlabel⟩
  case alike => exact fun hsized _ _ _ hkey hagain => found?_of_label hagain hkey hsized

/-- A function is renamed under a buffer that shows the name of that part, and is given a tag. -/
theorem function_contents_tagged :
    let function : Function := ⟨some "f", [], none, .mk ⟨0, 0⟩ (.block []), ⟨1⟩, ⟨3⟩, ⟨4⟩⟩
    let s := { Globals.bare {} .discard {} with
      memory := (Memory.empty.allocate [0x6E, 0x61, 0x6D, 0x65]).2
      heap := ⟨#[.singlet "None", .map [], .map [], .map [], .map [], .function function,
        .buffer { view := .sized (Memory.base 0) 4 }, .string "g", .string "tag", .int 1]⟩ }
    s.Closed ∧ s.payload ⟨5⟩ = .function function ∧ ∀ rounds,
    ((machine {} (rounds + 3)).setIndex ⟨5⟩ ⟨6⟩ ⟨7⟩).Ends s
      (fun _ t => s.WritesPart ⟨5⟩ .name (.text (some "g")) t ∧
        t.ReadsPart (machine {} (rounds + 3)) ⟨5⟩ .name (.text (some "g"))) (fun _ => False) ∧
    ((machine {} (rounds + 3)).setIndex ⟨5⟩ ⟨8⟩ ⟨9⟩).Ends s
      (fun _ t => s.Stores ⟨3⟩ ⟨8⟩ ⟨9⟩ t ∧ t.payload ⟨5⟩ = .function function ∧
        ∀ again, t.label? again = some (.name [0x74, 0x61, 0x67]) →
          t.ReadsAttribute (machine {} (rounds + 3)) ⟨5⟩ again ⟨9⟩) fun _ => False := by
  intro function s
  have hclosed : s.Closed := by decide
  have hf : s.payload ⟨5⟩ = .function function := rfl
  have hname : s.nameBytes? ⟨6⟩ = some FunctionField.name.bytes := by decide +kernel
  have htakes : s.Takes .name (.text (some "g")) := trivial
  have hvalue : s.ShowsPart ⟨7⟩ (.text (some "g")) := ⟨by decide, rfl⟩
  have htag : s.label? ⟨8⟩ = some (.name [0x74, 0x61, 0x67]) := by decide +kernel
  have hattribute : (Label.name [0x74, 0x61, 0x67]).IsAttribute := by
    intro field
    cases field <;> decide
  have hsized : s.KeysSized ⟨3⟩ := by decide
  have hmap : s.kind ⟨3⟩ = .map := rfl
  have hnothing : s.heap.Contains s.nothing := by decide
  -- What is known of the state is enough, and running it would take long.
  clear_value s
  refine ⟨hclosed, hf, fun rounds => ?_⟩
  obtain ⟨-, -, hpart, hattributes⟩ := function_contents {} rounds hclosed hnothing hf
  obtain ⟨-, hset⟩ := (hattributes hmap).1 _ _ htag hattribute
  constructor
  · exact hpart .name _ _ _ hname htakes hvalue
  · refine (hset ⟨9⟩).imp_value ?_
    rintro _ t ⟨hstores, hkept, -, hread⟩
    exact ⟨hstores, hkept, hread hsized⟩

end ObjectModel
