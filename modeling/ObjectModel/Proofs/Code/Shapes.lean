import ObjectModel.Builtin.Globals
import ObjectModel.Proofs.Code.Copies

/-!
# Values of the wrong shape

A field that holds a node or a place takes values of one kind only and is left alone by any other
(`mismatched_writes`). A field that holds a list takes any value at all: one that is no list counts as a
list without items, so it empties the field.
-/

namespace ObjectModel

open State ObjectModel.Action Behavior

/-- The kind of the values that a field of the shape is made for. Numbers and texts are converted from
values of any kind. -/
def FieldShape.kind? : FieldShape → Option Kind
  | .int | .float | .text | .name => none
  | .position => some .map
  | .expression => some .expression
  | .statement => some .statement
  | .expressions | .statements | .names | .pairs => some .list

/-- What a value of the wrong kind leaves of what a field holds. -/
def Field.remaining (held : Field) : Field :=
  if held.shape.kind? = some .list then .blank held.shape else held

variable {s : State} {target key value : Ref} {node : Node} {name : String} {held : Field}
  {shape : FieldShape} {kind : Kind}

-- ---------------------------------------------------------------------------
-- What is left of a field
-- ---------------------------------------------------------------------------

theorem Field.shape_remaining (held : Field) : held.remaining.shape = held.shape := by
  unfold remaining
  split
  · cases held <;> rfl
  · rfl

theorem Field.remaining_eq_self : held.remaining = held ↔
    (held.shape.kind? = some .list → held = .blank held.shape) := by
  unfold remaining
  split
  · simp [*, eq_comm]
  · simp [*]

namespace Node

variable (hheld : node.field? name = some held) (hkind : held.shape.kind? = some kind)
include hheld hkind

theorem name_ne_of_kind? : name ≠ "kind" ∧ name ≠ "type" := by
  constructor <;> rintro rfl <;> cases hheld <;> cases hkind

theorem withField_remaining_eq_self : node.withField name held.remaining = node ↔
    (kind = .list → held = .blank held.shape) := by
  obtain ⟨hname, htype⟩ := name_ne_of_kind? hheld hkind
  have hsame : node.withField name held.remaining = node ↔ held.remaining = held := by
    constructor
    · intro h
      have hread := field?_withField hheld hname htype held.shape_remaining
      rwa [h, hheld, Option.some.injEq, eq_comm] at hread
    · intro h
      rw [h, withField_field? hheld hname]
  rw [hsame, Field.remaining_eq_self, hkind, Option.some.injEq]

end Node

-- ---------------------------------------------------------------------------
-- Conversions
-- ---------------------------------------------------------------------------

theorem Payload.items?_eq_none {payload : Payload} (h : payload.kind ≠ .list) : payload.items? = none := by
  cases payload
  case list => exact absurd rfl h
  all_goals rfl

/-- A value of the wrong kind gives nothing to store, or else a list without items. -/
theorem Behavior.Nodes.run_convert_mismatched (run : Dispatcher) (hkind : shape.kind? = some kind)
    (hvalue : s.kind value ≠ kind) : (convert run value shape).run s =
      .ok (if kind = .list then some (.blank shape) else none) s := by
  cases shape <;> cases hkind
  case position =>
    simp only [convert, EStateM.run_bind, run_kind, hvalue, if_false]
    rfl
  case expression | statement =>
    simp only [convert, EStateM.run_bind, run_payload]
    split
    · exact absurd (kind_of_payload ‹_›) hvalue
    · rfl
  all_goals
    have hitems : (s.payload value).items? = none := Payload.items?_eq_none hvalue
    simp only [convert, items, Functions.textsOf, EStateM.run_bind, run_payload, hitems, EStateM.run_pure]
    rfl

-- ---------------------------------------------------------------------------
-- Writes
-- ---------------------------------------------------------------------------

section Writes

variable {host : Host} {rounds : Nat} (hnode : s.node? target = some node)
  (hkey : s.payload key = .string name) (hheld : node.field? name = some held)
  (hkind : held.shape.kind? = some kind) (hvalue : s.kind value ≠ kind)
include hnode hkey hheld hkind hvalue

theorem ends_setIndex_mismatched {Q : Unit → State → Prop} {E : State → Prop} :
    ((machine host (rounds + 1)).setIndex target key value).Ends s Q E ↔
      Q () (if kind = .list then s.withNode target (node.withField name held.remaining) else s) := by
  have hhere (held : List (List Ref)) : (s.withHeld held).node? target = some node := hnode
  have hconvert (held' : List (List Ref)) := Nodes.run_convert_mismatched (s := s.withHeld held')
    (machine host rounds).toDispatcher hkind hvalue
  have hshape := Node.shape_of_field? hheld (Node.name_ne_of_kind? hheld hkind).1
  rw [ends_setIndex_field hnode hkey, hshape]
  simp only [ends_bind, ends_of_run (hconvert _)]
  by_cases hlist : kind = .list
  · have hblank : held.remaining = .blank held.shape := if_pos (hlist ▸ hkind)
    simp only [hlist, if_true, ends_update (hhere _), hblank]
    rfl
  · simp only [hlist, if_false]
    rfl

end Writes

/-- A value of the wrong kind is written to a field without fail, and neither the other fields of the node
nor any other object is touched. A node or a place that the field holds stays as well, and with it the
whole state. A list that the field holds is emptied, so that the node stays as it is only if the list was
empty before. -/
theorem mismatched_writes (host : Host) (rounds : Nat) (s : State) (target key value : Ref) (node : Node)
    (name : String) (held : Field) (kind : Kind) (hnode : s.node? target = some node)
    (hkey : s.payload key = .string name) (hheld : node.field? name = some held)
    (hkind : held.shape.kind? = some kind) (hvalue : s.kind value ≠ kind) :
    ∃ after t, ((machine host (rounds + 1)).setIndex target key value).run s = .ok () t ∧
      t.node? target = some after ∧ t = { s with heap := t.heap } ∧
      (∀ o, o ≠ target → t.payload o = s.payload o) ∧
      (∀ other, other ≠ name → after.field? other = node.field? other) ∧
      (kind ≠ .list → t = s ∧ after = node) ∧
      (kind = .list → after.field? name = some (.blank held.shape)) ∧
      (after = node ↔ (kind = .list → held = .blank held.shape)) := by
  obtain ⟨_, _, hrun, rfl⟩ : ∃ (_ : Unit) (t : State),
      ((machine host (rounds + 1)).setIndex target key value).run s = .ok () t ∧
        t = if kind = .list then s.withNode target (node.withField name held.remaining) else s :=
    ((ends_setIndex_mismatched hnode hkey hheld hkind hvalue).mpr rfl).exists_run
  have hiff := Node.withField_remaining_eq_self hheld hkind
  by_cases hlist : kind = .list
  · obtain ⟨hname, htype⟩ := Node.name_ne_of_kind? hheld hkind
    have hblank : held.remaining = .blank held.shape := if_pos (hlist ▸ hkind)
    have hread := Node.field?_withField hheld hname htype held.shape_remaining
    rw [if_pos hlist] at hrun
    refine ⟨_, _, hrun, node?_withNode hnode, rfl, fun o ho => payload_stored_other ho, fun other hother =>
      Node.field?_withField_other hheld hname htype held.shape_remaining hother, absurd hlist, fun _ => ?_,
      hiff⟩
    rw [hread, hblank]
  · rw [if_neg hlist] at hrun
    exact ⟨node, s, hrun, hnode, rfl, fun _ _ => rfl, fun _ _ => rfl, fun _ => ⟨rfl, rfl⟩,
      (absurd · hlist), iff_of_true rfl (absurd · hlist)⟩

/-- An int in the place of the arguments of a call empties them, in the place of its callee it does
nothing. -/
theorem mismatched_writes_args :
    let callee : Expression := .ofForm (.reference "f")
    let s := { Globals.bare {} .discard {} with
      heap := ⟨#[.singlet "None", .map [], .map [],
        .expression (some (.ofForm (.call (some callee) [.ofInt 1]))), .string "args", .string "expr",
        .int 5]⟩ }
    (∃ t, ((machine {} 2).setIndex ⟨3⟩ ⟨4⟩ ⟨6⟩).run s = .ok () t ∧
      t.payload ⟨3⟩ = .expression (some (.ofForm (.call (some callee) [])))) ∧
    ((machine {} 2).setIndex ⟨3⟩ ⟨5⟩ ⟨6⟩).run s = .ok () s := by
  intro callee s
  let node : Node := .expression (.ofForm (.call (some callee) [.ofInt 1]))
  obtain ⟨_, t, hargs, -⟩ := mismatched_writes {} 1 s ⟨3⟩ ⟨4⟩ ⟨6⟩ node "args" _ .list rfl rfl rfl rfl
    (by decide)
  obtain ⟨_, u, hcallee, -, -, -, -, hkept, -⟩ := mismatched_writes {} 1 s ⟨3⟩ ⟨5⟩ ⟨6⟩ node "expr" _
    .expression rfl rfl rfl rfl (by decide)
  refine ⟨⟨t, hargs, ?_⟩, ?_⟩
  · cases hargs
    rfl
  · rwa [(hkept (by decide)).1] at hcallee

end ObjectModel
