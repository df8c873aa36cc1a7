import ObjectModel.Proofs.Code.Copies
import ObjectModel.Proofs.Functions.Names

/-!
# Parts of functions

A function answers as a container of its parts. What is written to a part is read back from it, while all
others stay (`ends_write_part`); what was read from a part and is written back changes nothing
(`ends_write_back`).
-/

namespace ObjectModel

open ObjectModel.Action Behavior State

inductive FunctionPart where
  /-- A name, which may be missing. -/
  | text (text : Option String)
  /-- A map, as the object that it is. -/
  | object (held : Ref)
  | code (body : Statement)
  | texts (texts : List String)

namespace Function

def part (function : Function) : FunctionField → FunctionPart
  | .name => .text function.name
  | .closure => .object function.closure
  | .attributes => .object function.attributes
  | .body => .code function.body
  | .params => .texts function.params
  | .rest => .text function.rest
  | .annotations => .object function.annotations

/-- The function with a part replaced by another of its shape. -/
def withPart (function : Function) : FunctionField → FunctionPart → Function
  | .name, .text name => { function with name }
  | .closure, .object closure => { function with closure }
  | .attributes, .object attributes => { function with attributes }
  | .body, .code body => { function with body }
  | .params, .texts params => { function with params }
  | .rest, .text rest => { function with rest }
  | .annotations, .object annotations => { function with annotations }
  | _, _ => function

theorem withPart_part (function : Function) (field : FunctionField) :
    function.withPart field (function.part field) = function := by
  cases field <;> rfl

theorem part_withPart_other (function : Function) {field other : FunctionField} (part : FunctionPart)
    (h : other ≠ field) : (function.withPart field part).part other = function.part other := by
  cases field <;> cases part <;> cases other <;> first | rfl | exact absurd rfl h

end Function

namespace State

theorem contains_of_function {s : State} {f : Ref} {function : Function} (hf : s.payload f = .function function) :
    s.heap.Contains f := contains_of_kind_ne (by simp [kind_of_payload hf, Payload.kind])

/-- The object shows what a part of a function holds. No value shows a missing name. -/
def ShowsPart (s : State) (object : Ref) : FunctionPart → Prop
  | .text none => object = s.nothing
  | .text (some text) => object ≠ s.nothing ∧ s.payload object = .string text
  | .object held => object = held
  | .code body => s.payload object = .statement (some body)
  | .texts texts => s.ShowsEach (fun item text => s.payload item = .string text) object texts

/-- A part takes what has its shape; only maps are taken as objects. -/
def Takes (s : State) : FunctionField → FunctionPart → Prop
  | .name, .text _ | .rest, .text _ | .body, .code _ | .params, .texts _ => True
  | .closure, .object held | .attributes, .object held | .annotations, .object held => s.kind held = .map
  | _, _ => False

theorem Takes.part_withPart {s : State} {field : FunctionField} {part : FunctionPart}
    (h : s.Takes field part) (function : Function) : (function.withPart field part).part field = part := by
  cases field <;> cases part <;> first | rfl | exact h.elim

/-- A part of a function was written, and nothing else. -/
structure WritesPart (s : State) (f : Ref) (field : FunctionField) (part : FunctionPart) (t : State) :
    Prop where
  rest : t = { s with heap := t.heap }
  size : t.heap.size = s.heap.size
  kept : ∀ o, o ≠ f → t.payload o = s.payload o
  written : ∃ before after, s.payload f = .function before ∧ t.payload f = .function after ∧
    after.part field = part ∧ ∀ other, other ≠ field → after.part other = before.part other

/-- Every name of the part reads an object that shows this. -/
def ReadsPart (s : State) (machine : Machine) (f : Ref) (field : FunctionField) (part : FunctionPart) :
    Prop :=
  ∀ key, s.nameBytes? key = some field.bytes → (machine.index f key).Ends s
    (fun o t => s.Grown t s.shown ∧ t.ShowsPart o part) fun _ => False

end State

variable {s t : State} {f key again value : Ref} {function : Function} {field : FunctionField}
  {part : FunctionPart} {host : Host} {rounds : Nat}

-- ---------------------------------------------------------------------------
-- Reading
-- ---------------------------------------------------------------------------

theorem ends_expect_function (hf : s.payload f = .function function) {Q : Function → State → Prop}
    {E : State → Prop} : (Functions.expect f).Ends s Q E ↔ Q function s := by
  simp only [Functions.expect, ends_bind, ends_payload, hf, ends_pure]

theorem ends_textOrNothing (hnothing : s.heap.Contains s.nothing) (text : Option String) :
    (Functions.textOrNothing text).Ends s (fun o t => s.Grown t s.shown ∧ t.ShowsPart o (.text text))
      fun _ => False := by
  cases text with
  | none => exact ⟨.refl s, rfl⟩
  | some text =>
    have hnew : ¬ s.heap.Contains s.heap.next := not_contains_next (Nat.le_refl _)
    refine ⟨.made s _, ?_, payload_made_next s _⟩
    rintro (heq : s.heap.next = s.nothing)
    exact hnew (heq ▸ hnothing)

theorem part?_bytes (function : Function) (field : FunctionField) : ∃ action : Action Ref,
    Functions.part? function field.bytes = some action ∧ ∀ s : State, s.heap.Contains s.nothing →
      action.Ends s (fun o t => s.Grown t s.shown ∧ t.ShowsPart o (function.part field)) fun _ => False := by
  cases field <;> simp only [Functions.part?, FunctionField.bytes, FunctionField.key, beq_iff_eq,
    Bytes.ofText_inj, String.reduceEq, if_true, if_false]
  case name | rest => exact ⟨_, rfl, fun s hnothing => ends_textOrNothing hnothing _⟩
  case closure | attributes | annotations => exact ⟨_, rfl, fun s _ => ⟨.refl s, rfl⟩⟩
  case body => exact ⟨_, rfl, fun s _ => ⟨.made s _, payload_made_next s _⟩⟩
  case params =>
    refine ⟨_, rfl, fun s _ => ?_⟩
    exact (Nodes.ends_createField (.names function.params)).imp_value fun o t h => ⟨h.1.grown, h.2.2⟩

theorem part?_eq_none {name : Bytes} (h : ∀ field : FunctionField, name ≠ field.bytes) :
    Functions.part? function name = none := by
  have hname (field : FunctionField) : (name == Bytes.ofText field.key) = false :=
    beq_eq_false_iff_ne.mpr (h field)
  have hfirst := And.intro (hname .name) (And.intro (hname .closure) (hname .attributes))
  have hsecond := And.intro (hname .body) (And.intro (hname .params) (hname .rest))
  have hlast := hname .annotations
  simp only [FunctionField.key] at hfirst hsecond hlast
  simp only [Functions.part?, hfirst, hsecond, hlast, Bool.false_eq_true, if_false]

theorem ends_index_function (hf : s.payload f = .function function) {Q : Ref → State → Prop}
    {E : State → Prop} : ((machine host (rounds + 1)).index f key).Ends s Q E ↔
      (match (s.nameBytes? key).bind (Functions.part? function) with
        | some part => part
        | none => do
          orNothing (← Map.get? (machine host rounds).toDispatcher function.attributes key)).Ends
        (s.withHeld ([f, key] :: s.held)) (fun o t => Q o (t.withHeld s.held)) fun t => E (t.withHeld s.held) := by
  have hhere (held : List (List Ref)) : (s.withHeld held).payload f = .function function := hf
  rw [Dispatcher.index, ends_binary host rounds (kind_of_payload hf) rfl]
  simp only [Functions.index, ends_bind, ends_argument_first, ends_argument_second,
    ends_expect_function (hhere _), ends_nameBytes?]
  rfl

theorem ends_index_part (hf : s.payload f = .function function) (hnothing : s.heap.Contains s.nothing)
    (hkey : s.nameBytes? key = some field.bytes) :
    ((machine host (rounds + 1)).index f key).Ends s
      (fun o t => s.Grown t s.shown ∧ t.ShowsPart o (function.part field)) fun _ => False := by
  obtain ⟨action, hpart, hends⟩ := part?_bytes function field
  rw [ends_index_function hf, hkey, Option.bind_some, hpart]
  exact (hends (s.withHeld ([f, key] :: s.held)) hnothing).imp_value fun o t h => ⟨h.1.unheld, h.2⟩

-- ---------------------------------------------------------------------------
-- Writing
-- ---------------------------------------------------------------------------

theorem ends_update_function (hf : s.payload f = .function function) (change : Function → Function)
    {Q : Unit → State → Prop} {E : State → Prop} :
    (Functions.update f change).Ends s Q E ↔ Q () (s.stored f (.function (change function))) := by
  simp only [Functions.update, ends_bind, ends_payload, hf, ends_store]

theorem ends_optionalText (run : Dispatcher) {text : Option String} (h : s.ShowsPart value (.text text))
    {Q : Option String → State → Prop} {E : State → Prop} :
    (Functions.optionalText run value).Ends s Q E ↔ Q text s := by
  simp only [Functions.optionalText, ends_bind, ends_isNothing]
  cases text with
  | none => simp [show value = s.nothing from h]
  | some text =>
    obtain ⟨hvalue, hpayload⟩ := h
    simp [hvalue, ends_of_run (Nodes.run_toText run hpayload)]

theorem ends_textsOf (run : Dispatcher) {texts : List String} (h : s.ShowsPart value (.texts texts))
    {Q : List String → State → Prop} {E : State → Prop} :
    (Functions.textsOf run value).Ends s Q E ↔ Q texts s := by
  obtain ⟨items, hitems, hshows⟩ := h
  simp only [Functions.textsOf, ends_bind, ends_payload, hitems, Payload.items?, Option.getD_some,
    ends_of_run (Nodes.run_textsOfAll run hshows)]

theorem ends_setIndex_function (hf : s.payload f = .function function) {Q : Unit → State → Prop}
    {E : State → Prop} : ((machine host (rounds + 1)).setIndex f key value).Ends s Q E ↔
      (Functions.setIndex (machine host rounds) [f, key, value]).Ends (s.withHeld ([f, key, value] :: s.held))
        (fun _ t => Q () (t.withHeld s.held)) fun t => E (t.withHeld s.held) := by
  rw [ends_setIndex host rounds (kind_of_payload hf) rfl]

section Parts

variable (hf : s.payload f = .function function) (hkey : s.nameBytes? key = some field.bytes)
include hf hkey

theorem ends_setIndex_part (htakes : s.Takes field part) (hvalue : s.ShowsPart value part)
    {Q : Unit → State → Prop} {E : State → Prop} :
    ((machine host (rounds + 1)).setIndex f key value).Ends s Q E ↔
      Q () (s.stored f (.function (function.withPart field part))) := by
  have hhere (held : List (List Ref)) : (s.withHeld held).payload f = .function function := hf
  have hname (held : List (List Ref)) : (s.withHeld held).nameBytes? key = some field.bytes := hkey
  have hshown (held : List (List Ref)) : (s.withHeld held).ShowsPart value part := hvalue
  rw [ends_setIndex_function hf]
  simp only [Functions.setIndex, ends_bind, ends_argument_first, ends_argument_second, ends_argument_third,
    ends_discard, ends_expect_function (hhere _), ends_nameBytes?, hname, Option.map_some, Option.getD_some,
    FunctionField.bytes, Bytes.toText_ofText, ends_kind, ends_holding, withHeld_withHeld]
  cases field <;> cases part <;> try exact htakes.elim
  case name.text | rest.text =>
    simp only [FunctionField.key, ends_bind, ends_optionalText _ (hshown _), ends_update_function (hhere _)]
    rfl
  case params.texts =>
    simp only [FunctionField.key, ends_bind, ends_textsOf _ (hshown _), ends_update_function (hhere _)]
    rfl
  case body.code body =>
    have hbody (held : List (List Ref)) : (s.withHeld held).payload value = .statement (some body) := hvalue
    simp only [FunctionField.key, ends_bind, ends_payload, hbody, ends_update_function (hhere _)]
    rfl
  case closure.object | attributes.object | annotations.object =>
    obtain rfl : value = _ := hvalue
    have hmap (held : List (List Ref)) : (s.withHeld held).kind value = .map := htakes
    simp only [FunctionField.key, hmap, if_true, ends_update_function (hhere _)]
    rfl

theorem ends_setIndex_refused {held : Ref} (hpart : function.part field = .object held)
    (hvalue : s.kind value ≠ .map) {Q : Unit → State → Prop} {E : State → Prop} :
    ((machine host (rounds + 1)).setIndex f key value).Ends s Q E ↔ Q () s := by
  have hhere (held : List (List Ref)) : (s.withHeld held).payload f = .function function := hf
  have hname (held : List (List Ref)) : (s.withHeld held).nameBytes? key = some field.bytes := hkey
  rw [ends_setIndex_function hf]
  simp only [Functions.setIndex, ends_bind, ends_argument_first, ends_argument_second, ends_argument_third,
    ends_discard, ends_expect_function (hhere _), ends_nameBytes?, hname, Option.map_some, Option.getD_some,
    FunctionField.bytes, Bytes.toText_ofText, ends_kind, ends_holding, withHeld_withHeld, kind_withHeld]
  cases field <;> try cases hpart
  all_goals
    simp only [FunctionField.key, hvalue, if_false]
    rfl

/-- What shows the part that a function has leaves it as it was. -/
theorem ends_setIndex_own (hvalue : s.ShowsPart value (function.part field)) {Q : Unit → State → Prop}
    {E : State → Prop} : ((machine host (rounds + 1)).setIndex f key value).Ends s Q E ↔ Q () s := by
  by_cases htakes : s.Takes field (function.part field)
  · rw [ends_setIndex_part hf hkey htakes hvalue, function.withPart_part, stored_self hf]
  · cases hpart : function.part field with
    | object held =>
      rw [hpart] at hvalue htakes
      obtain rfl : value = held := hvalue
      refine ends_setIndex_refused hf hkey hpart fun hmap => htakes ?_
      cases field <;> cases hpart <;> exact hmap
    | _ => cases field <;> cases hpart <;> exact absurd trivial htakes

end Parts

-- ---------------------------------------------------------------------------
-- Reading what was written
-- ---------------------------------------------------------------------------

theorem State.WritesPart.stored (hf : s.payload f = .function function) (htakes : s.Takes field part) :
    s.WritesPart f field part (s.stored f (.function (function.withPart field part))) where
  rest := rfl
  size := size_stored s f _
  kept _ hne := payload_stored_other hne
  written := by
    exact ⟨function, _, hf, payload_stored_same (contains_of_function hf), htakes.part_withPart function,
      fun _ hother => function.part_withPart_other part hother⟩

theorem ends_write_back (hf : s.payload f = .function function) (hnothing : s.heap.Contains s.nothing)
    (hkey : s.nameBytes? key = some field.bytes) (hagain : s.nameBytes? again = some field.bytes) :
    (do (machine host (rounds + 1)).setIndex f again (← (machine host (rounds + 1)).index f key)).Ends s
      (fun _ t => s.Grown t s.shown) fun _ => False := by
  have hname : s.heap.Contains again := contains_of_plainKey (.inl (by simp [hagain]))
  rw [ends_bind]
  refine (ends_index_part hf hnothing hkey).imp_value ?_
  rintro value t ⟨hgrown, hvalue⟩
  have hlike := (Like.refl s).grown hgrown
  have hafter := (hlike.kept f (contains_of_function hf)).trans hf
  exact (ends_setIndex_own hafter ((hlike.nameBytes?_eq hname).trans hagain) hvalue).mpr hgrown

theorem ends_write_part (hf : s.payload f = .function function) (hnothing : s.heap.Contains s.nothing)
    (hkey : s.nameBytes? key = some field.bytes) (htakes : s.Takes field part)
    (hvalue : s.ShowsPart value part) : ((machine host (rounds + 1)).setIndex f key value).Ends s
      (fun _ t => s.WritesPart f field part t ∧ t.ReadsPart (machine host (rounds + 1)) f field part)
      fun _ => False := by
  have hwrites := State.WritesPart.stored hf htakes
  refine (ends_setIndex_part hf hkey htakes hvalue).mpr ⟨hwrites, fun again hagain => ?_⟩
  obtain ⟨_, after, -, hafter, hpart, -⟩ := hwrites.written
  refine (ends_index_part hafter ((contains_stored ..).mpr hnothing) hagain).imp_value fun _ _ hread => ?_
  rwa [hpart] at hread

end ObjectModel
