import Mathlib.Data.List.Forall2
import ObjectModel.Proofs.Calls.Starts
import ObjectModel.Proofs.Code.Fields

/-!
# Fields as objects

What a field holds is shown by objects. Reading a field makes new objects that show it and that refer to
new objects alone; writing one takes from objects what they show. The two halves meet at `State.Shows`.
-/

namespace ObjectModel

open ObjectModel.Action

-- ---------------------------------------------------------------------------
-- What objects show
-- ---------------------------------------------------------------------------

namespace State

/-- The object is a list of objects that show values, in their order. -/
def ShowsEach {α : Type} (s : State) (shows : Ref → α → Prop) (object : Ref) (values : List α) : Prop :=
  ∃ items, s.payload object = .list items ∧ List.Forall₂ shows items.toList values

def ShowsExpression (s : State) (object : Ref) (node : Expression) : Prop :=
  s.payload object = .expression (some node)

def ShowsStatement (s : State) (object : Ref) (node : Statement) : Prop :=
  s.payload object = .statement (some node)

def ShowsPair (s : State) (object : Ref) (pair : Expression × Expression) : Prop :=
  s.ShowsEach s.ShowsExpression object [pair.1, pair.2]

def ShowsInt (s : State) (map : Ref) (name : String) (value : Int64) : Prop :=
  ∃ held, s.named? map name = some held ∧ s.payload held = .int value

/-- The object shows what a field holds. A name that is missing shows as the empty one. -/
def Shows (s : State) (object : Ref) : Field → Prop
  | .int value => s.payload object = .int value
  | .float value => s.payload object = .float value
  | .text value => s.payload object = .string value
  | .name value => s.payload object = .string (value.getD "")
  | .position place =>
    s.kind object = .map ∧ s.ShowsInt object "line" place.line ∧ s.ShowsInt object "col" place.column
  | .expression value => s.payload object = .expression value
  | .statement value => s.payload object = .statement value
  | .expressions values => s.ShowsEach s.ShowsExpression object values
  | .statements values => s.ShowsEach s.ShowsStatement object values
  | .names values => s.ShowsEach (fun item text => s.payload item = .string text) object values
  | .pairs values => s.ShowsEach s.ShowsPair object values

/-- What is stored of an object that shows what a field holds: no name for no value. -/
def taken (s : State) (object : Ref) : Field → Field
  | .name value => .name (if object = s.nothing then none else some (value.getD ""))
  | other => other

/-- Objects were made that refer to such objects alone, and only to earlier ones. -/
structure Spawned (s t : State) : Prop where
  grown : s.Grown t s.shown
  apart : ∀ o, ¬ s.heap.Contains o → ∀ p ∈ (t.payload o).references, ¬ s.heap.Contains p
  below : ∀ o, ¬ s.heap.Contains o → ∀ p ∈ (t.payload o).references, p.index < o.index

variable {s t u : State} {object : Ref} {field : Field}

theorem references_of_not_contains (h : ¬ s.heap.Contains object) :
    (s.payload object).references = [] := by
  cases hp : s.payload object with
  | singlet => rfl
  | _ => exact absurd (contains_of_kind_ne (by simp [kind, hp, Payload.kind])) h

namespace Spawned

theorem refl (s : State) : s.Spawned s where
  grown := .refl s
  apart o ho := by simp [references_of_not_contains ho]
  below o ho := by simp [references_of_not_contains ho]

theorem trans (h : s.Spawned t) (h' : t.Spawned u) : s.Spawned u where
  grown := h.grown.thenGrown h'.grown
  apart o ho p hp := by
    by_cases hin : t.heap.Contains o
    · exact h.apart o ho p (h'.grown.kept o hin ▸ hp)
    · exact fun hold => h'.apart o hin p hp (Nat.lt_of_lt_of_le hold h.grown.size)
  below o ho p hp := by
    by_cases hin : t.heap.Contains o
    · exact h.below o ho p (h'.grown.kept o hin ▸ hp)
    · exact h'.below o hin p hp

theorem thenMade (h : s.Spawned t) {payload : Payload}
    (hnew : ∀ p ∈ payload.references, ¬ s.heap.Contains p ∧ t.heap.Contains p) :
    s.Spawned (t.made payload) where
  grown := h.grown.thenMade payload
  apart o ho p hp := by
    by_cases hlast : o = t.heap.next
    · rw [hlast, payload_made_next] at hp
      exact (hnew p hp).1
    · exact h.apart o ho p (payload_made_other hlast ▸ hp)
  below o ho p hp := by
    by_cases hlast : o = t.heap.next
    · rw [hlast, payload_made_next] at hp
      rw [hlast]
      exact (hnew p hp).2
    · exact h.below o ho p (payload_made_other hlast ▸ hp)

/-- Who is held meanwhile is held no longer. -/
theorem unheld {held : List (List Ref)} (h : (s.withHeld held).Spawned t) :
    s.Spawned (t.withHeld s.held) where
  grown := h.grown.unheld
  apart := h.apart
  below := h.below

end Spawned

/-- The object was made between two states. -/
def Since (s t : State) (o : Ref) : Prop := ¬ s.heap.Contains o ∧ t.heap.Contains o

theorem since_next (h : s.heap.size ≤ t.heap.size) (payload : Payload) :
    s.Since (t.made payload) t.heap.next := ⟨not_contains_next h, contains_made_next ..⟩

theorem Since.grown {note : Option (Std.TreeSet Nat)} (h : s.Since t object) (h' : t.Grown u note) :
    s.Since u object := ⟨h.1, Nat.lt_of_lt_of_le h.2 h'.size⟩

theorem Grown.payload_eq {note : Option (Std.TreeSet Nat)} (h : s.Grown t note) {payload : Payload}
    (hp : s.payload object = payload) (hkind : payload.kind ≠ .singlet) : t.payload object = payload :=
  (h.kept object (contains_of_kind_ne (by rwa [kind, hp]))).trans hp

theorem ShowsEach.grown {α : Type} {shows later : Ref → α → Prop} {values : List α}
    (h : s.ShowsEach shows object values) {note : Option (Std.TreeSet Nat)} (hgrown : s.Grown t note)
    (hkept : ∀ item value, shows item value → later item value) : t.ShowsEach later object values := by
  obtain ⟨items, hitems, hshows⟩ := h
  exact ⟨items, hgrown.payload_eq hitems nofun, hshows.imp hkept⟩

end State

-- ---------------------------------------------------------------------------
-- Reading
-- ---------------------------------------------------------------------------

namespace Behavior.Nodes

open State

variable {s t : State} {α : Type}

theorem ends_mapM {make : α → Action Ref} (shows : State → Ref → α → Prop)
    (hkept : ∀ {t u o value}, t.Grown u t.shown → shows t o value → shows u o value)
    (hmake : ∀ s value, (make value).Ends s
      (fun o t => s.Spawned t ∧ s.Since t o ∧ shows t o value) fun _ => False) (values : List α) :
    (values.mapM make).Ends s
      (fun objects t => s.Spawned t ∧ (∀ o ∈ objects, s.Since t o) ∧
        List.Forall₂ (shows t) objects values) fun _ => False := by
  induction values generalizing s with
  | nil => exact ⟨.refl s, by simp, .nil⟩
  | cons value rest ih =>
    simp only [List.mapM_cons, ends_bind, ends_pure]
    refine (hmake s value).imp_value ?_
    rintro object t ⟨hspawned, hsince, hshows⟩
    refine ih.imp_value ?_
    rintro objects u ⟨hspawned', hsince', hall⟩
    refine ⟨hspawned.trans hspawned', ?_, .cons (hkept hspawned'.grown hshows) hall⟩
    rintro o (_ | ⟨_, ho⟩)
    · exact hsince.grown hspawned'.grown
    · obtain ⟨hnew, hmade⟩ := hsince' o ho
      exact ⟨fun hold => hnew (Nat.lt_of_lt_of_le hold hspawned.grown.size), hmade⟩

theorem ends_create_copy {payload : Payload} (h : payload.references = []) :
    (create payload).Ends s
      (fun o t => s.Spawned t ∧ s.Since t o ∧ t.payload o = payload) fun _ => False :=
  ⟨(Spawned.refl s).thenMade (by simp [h]), since_next (Nat.le_refl _) _, payload_made_next ..⟩

theorem ends_createList {make : α → Action Ref} (shows : State → Ref → α → Prop)
    (hkept : ∀ {t u o value}, t.Grown u t.shown → shows t o value → shows u o value)
    (hmake : ∀ s value, (make value).Ends s
      (fun o t => s.Spawned t ∧ s.Since t o ∧ shows t o value) fun _ => False) (values : List α) :
    (do createList (← values.mapM make) : Action Ref).Ends s
      (fun o t => s.Spawned t ∧ s.Since t o ∧ t.ShowsEach (shows t) o values) fun _ => False := by
  simp only [createList, ends_bind, ends_create]
  refine (ends_mapM shows hkept hmake values).imp_value ?_
  rintro objects t ⟨hspawned, hsince, hall⟩
  have hgrown := Grown.made t (.list objects.toArray)
  refine ⟨hspawned.thenMade hsince, since_next hspawned.grown.size _, _, payload_made_next .., ?_⟩
  exact hall.imp fun o value h => hkept hgrown h

theorem payload_made (s : State) (payload : Payload) (o : Ref) :
    (s.made payload).payload o = if o.index = s.heap.size then payload else s.payload o := by
  by_cases h : o.index = s.heap.size
  · obtain rfl : o = s.heap.next := congrArg Ref.mk h
    rw [if_pos h, payload_made_next]
  · rw [if_neg h]
    exact payload_made_other fun heq => h (congrArg Ref.index heq)

theorem ends_createPosition {place : Position} (hfield : field = .position place) : (createField field).Ends s
    (fun o t => s.Spawned t ∧ s.Since t o ∧ t.Shows o field) fun _ => False := by
  subst hfield
  simp only [createField, Map.ofNamed, List.mapM_cons, List.mapM_nil, ends_bind, ends_createInt,
    ends_createString, ends_create, ends_pure]
  refine ⟨?_, ?_, ?_, ⟨s.heap.next, ?_, ?_⟩, ⟨(s.made (.int place.line)).heap.next, ?_, ?_⟩⟩
  · refine ((((((Spawned.refl s).thenMade ?_).thenMade ?_).thenMade ?_).thenMade ?_).thenMade
      ?_ |>.thenMade ?_).thenMade ?_ <;>
        simp [Payload.references, Heap.Contains, Heap.next, Nat.add_assoc]
  · simp [Since, Heap.Contains, Heap.next, Nat.add_assoc]
  all_goals simp [State.kind, named?, findNamed?, cells, cellIsNamed, isNamed, cellValue?, payload_made,
    Heap.next, Nat.add_assoc, Payload.cellParts?, Payload.kind]

theorem ends_createExpression (node : Expression) : (createExpression node).Ends s
    (fun o t => s.Spawned t ∧ s.Since t o ∧ t.ShowsExpression o node) fun _ => False :=
  ends_create_copy rfl

theorem ends_createExpressions (nodes : List Expression) : (createExpressions nodes).Ends s
    (fun o t => s.Spawned t ∧ s.Since t o ∧ t.ShowsEach t.ShowsExpression o nodes) fun _ => False :=
  ends_createList State.ShowsExpression (fun hgrown h => hgrown.payload_eq h nofun)
    (fun _ => ends_createExpression) nodes

/-- Reading a field makes objects that show it and share nothing with what was there. -/
theorem ends_createField (field : Field) : (createField field).Ends s
    (fun o t => s.Spawned t ∧ s.Since t o ∧ t.Shows o field) fun _ => False := by
  cases hfield : field with
  | int | float | text | name | expression | statement => exact ends_create_copy rfl
  | position place =>
    -- With the place in sight, the action would be run to compare the two.
    rw [← hfield]
    exact ends_createPosition hfield
  | expressions nodes => exact ends_createExpressions nodes
  | statements nodes =>
    simp only [createField, createAll, List.mapM_map]
    exact ends_createList State.ShowsStatement (fun hgrown h => hgrown.payload_eq h (by simp [Payload.kind]))
      (fun _ _ => ends_create_copy rfl) nodes
  | names names =>
    simp only [createField, createAll, List.mapM_map]
    exact ends_createList (fun t o text => t.payload o = .string text)
      (fun hgrown h => hgrown.payload_eq h (by simp [Payload.kind])) (fun _ _ => ends_create_copy rfl) names
  | pairs pairs =>
    refine ends_createList State.ShowsPair (fun hgrown h => ?_)
      (fun _ _ => ends_createExpressions _) pairs
    exact h.grown hgrown fun _ _ hitem => hgrown.payload_eq hitem (by simp [Payload.kind])

-- ---------------------------------------------------------------------------
-- Writing
-- ---------------------------------------------------------------------------

theorem run_collect {find? : Ref → Action (Option α)} {shows : Ref → α → Prop}
    (hfind : ∀ o value, shows o value → (find? o).run s = .ok (some value) s) {objects : List Ref}
    {values : List α} (h : List.Forall₂ shows objects values) :
    (collect find? objects).run s = .ok values s := by
  induction h with
  | nil => rfl
  | cons hfirst _ ih =>
    simp only [collect, EStateM.run_bind, hfind _ _ hfirst, ih, EStateM.run_pure]

theorem run_expression? (o : Ref) (node : Expression) (h : s.ShowsExpression o node) :
    (expression? o).run s = .ok (some node) s := by
  unfold ShowsExpression at h
  simp only [expression?, EStateM.run_bind, run_payload, h, EStateM.run_pure]

theorem run_statement? (o : Ref) (node : Statement) (h : s.ShowsStatement o node) :
    (statement? o).run s = .ok (some node) s := by
  unfold ShowsStatement at h
  simp only [statement?, EStateM.run_bind, run_payload, h, EStateM.run_pure]

theorem run_items {o : Ref} {held : Array Ref} (h : s.payload o = .list held) :
    (items o).run s = .ok held.toList s := by
  simp only [items, EStateM.run_bind, run_payload, h, EStateM.run_pure]
  rfl

theorem run_pair? (o : Ref) (pair : Expression × Expression) (h : s.ShowsPair o pair) :
    (pair? o).run s = .ok (some pair) s := by
  obtain ⟨held, hheld, hshows⟩ := h
  generalize hlist : held.toList = objects at hshows
  obtain _ | ⟨hkey, _ | ⟨hvalue, _⟩⟩ := hshows
  simp only [pair?, EStateM.run_bind, run_items hheld, hlist, run_expression? _ _ hkey,
    run_expression? _ _ hvalue, EStateM.run_pure]

variable (run : Dispatcher)

theorem run_toText {o : Ref} {text : String} (h : s.payload o = .string text) :
    (run.toText o).run s = .ok text s := by
  simp only [Dispatcher.toText, EStateM.run_bind, run_payload, h, EStateM.run_pure]

theorem run_toFloat {o : Ref} {value : Binary64} (h : s.payload o = .float value) :
    (run.toFloat o).run s = .ok value s := by
  simp only [Dispatcher.toFloat, EStateM.run_bind, run_payload, h, EStateM.run_pure]

theorem run_textsOfAll {objects : List Ref} {names : List String}
    (h : List.Forall₂ (fun o text => s.payload o = .string text) objects names) :
    (Functions.textsOfAll run objects).run s = .ok names s := by
  induction h with
  | nil => rfl
  | @cons o text rest _ hfirst _ ih =>
    have hheld : ({ s with held := (o :: rest) :: s.held } : State).payload o = .string text := hfirst
    simp only [Functions.textsOfAll, EStateM.run_bind, run_holding, run_toText run hheld, ih,
      EStateM.run_pure]

theorem run_positionOf {map : Ref} {place : Position} (hline : s.ShowsInt map "line" place.line)
    (hcolumn : s.ShowsInt map "col" place.column) :
    (positionOf run map).run s = .ok place s := by
  obtain ⟨line, hline, hlineInt⟩ := hline
  obtain ⟨column, hcolumn, hcolumnInt⟩ := hcolumn
  simp only [positionOf, EStateM.run_bind, Map.run_getNamed?, hline, hcolumn, Dispatcher.run_toInt run hlineInt,
    Dispatcher.run_toInt run hcolumnInt, EStateM.run_pure]

/-- Writing takes from an object what it shows. -/
theorem run_convert {value : Ref} {field : Field} (h : s.Shows value field) :
    (convert run value field.shape).run s = .ok (some (s.taken value field)) s := by
  cases field with
  | int =>
    simp only [convert, Field.shape, EStateM.run_bind, Dispatcher.run_toInt run h, EStateM.run_pure, taken]
  | float =>
    simp only [convert, Field.shape, EStateM.run_bind, run_toFloat run h, EStateM.run_pure, taken]
  | text =>
    simp only [convert, Field.shape, EStateM.run_bind, run_toText run h, EStateM.run_pure, taken]
  | name text =>
    simp only [convert, Field.shape, EStateM.run_bind, Functions.optionalText, run_isNothing, taken]
    by_cases hvalue : value = s.nothing
    · simp [hvalue]
    · simp only [hvalue, decide_false, if_false, Bool.false_eq_true, EStateM.run_bind, run_toText run h,
        EStateM.run_pure]
  | position =>
    obtain ⟨hmap, hline, hcolumn⟩ := h
    simp only [convert, Field.shape, EStateM.run_bind, run_kind, hmap, if_true,
      run_positionOf run hline hcolumn, EStateM.run_pure, taken]
  | expression | statement =>
    simp only [Shows] at h
    simp only [convert, Field.shape, EStateM.run_bind, run_payload, h, EStateM.run_pure, taken]
  | expressions nodes =>
    obtain ⟨held, hheld, hshows⟩ := h
    simp only [convert, Field.shape, EStateM.run_bind, run_items hheld,
      run_collect run_expression? hshows, EStateM.run_pure, taken]
  | statements nodes =>
    obtain ⟨held, hheld, hshows⟩ := h
    simp only [convert, Field.shape, EStateM.run_bind, run_items hheld,
      run_collect run_statement? hshows, EStateM.run_pure, taken]
  | names texts =>
    obtain ⟨held, hheld, hshows⟩ := h
    simp only [convert, Field.shape, EStateM.run_bind, Functions.textsOf, run_payload, hheld,
      Payload.items?, Option.getD_some, run_textsOfAll run hshows, EStateM.run_pure, taken]
  | pairs pairs =>
    obtain ⟨held, hheld, hshows⟩ := h
    simp only [convert, Field.shape, EStateM.run_bind, run_items hheld,
      run_collect run_pair? hshows, EStateM.run_pure, taken]

end Behavior.Nodes

-- ---------------------------------------------------------------------------
-- Nodes in objects
-- ---------------------------------------------------------------------------

def Node.payload : Node → Payload
  | .statement node => .statement (some node)
  | .expression node => .expression (some node)

theorem State.node?_eq_some {s : State} {o : Ref} {node : Node} :
    s.node? o = some node ↔ s.payload o = node.payload := by
  unfold node?
  constructor
  · intro h
    split at h <;> cases h <;> assumption
  · intro h
    rw [h]
    cases node <;> rfl

def State.withNode (s : State) (target : Ref) (node : Node) : State := s.stored target node.payload

theorem State.node?_withNode {s : State} {target : Ref} {node old : Node}
    (h : s.node? target = some old) : (s.withNode target node).node? target = some node := by
  rw [node?_eq_some] at h ⊢
  refine payload_stored_same (contains_of_kind_ne ?_)
  rw [kind, h]
  cases old <;> simp [Node.payload, Payload.kind]

section Nodes

open State Behavior

variable {s : State} {target key value : Ref} {node : Node} {name : String} {host : Host} {rounds : Nat}

theorem ends_update (h : s.node? target = some node) (field : Field) {Q : Unit → State → Prop}
    {E : State → Prop} : (Nodes.update target name field).Ends s Q E ↔
      Q () (s.withNode target (node.withField name field)) := by
  rw [node?_eq_some] at h
  have hkind := Node.kindTag_withField node name field
  cases node <;> simp only [Nodes.update, ends_bind, ends_payload, h, Node.payload] <;> split <;>
    rename_i hafter <;> rw [hafter] at hkind ⊢ <;> cases hkind <;> exact ends_store ..

variable (hnode : s.node? target = some node) (hkey : s.payload key = .string name)
include hnode

theorem handler_of_node? {operation : Operation} {handler : Handler}
    (h : Nodes.handler operation = some handler) :
    (s.kind target).handler operation = some handler := by
  rw [State.kind, node?_eq_some.mp hnode]
  cases node <;> simp only [Node.payload, Payload.kind, Kind.handler, Kind.ownHandler, h]

include hkey

theorem ends_index_field {Q : Ref → State → Prop} {E : State → Prop} :
    ((machine host (rounds + 1)).index target key).Ends s Q E ↔
      (match node.field? name with
        | some held => Nodes.createField held
        | none => nothing).Ends (s.withHeld ([target, key] :: s.held))
          (fun a t => Q a (t.withHeld s.held)) fun t => E (t.withHeld s.held) := by
  have hhere (held : List (List Ref)) : (s.withHeld held).node? target = some node := hnode
  have htext (held : List (List Ref)) :=
    Nodes.run_toText (s := s.withHeld held) (machine host rounds).toDispatcher hkey
  rw [Dispatcher.index, ends_binary host rounds rfl (handler_of_node? hnode rfl)]
  simp only [Nodes.index, ends_bind, ends_argument_first, ends_argument_second, ends_expectNode (hhere _),
    ends_holding, Dispatcher.textArgument, withHeld_withHeld, ends_of_run (htext _)]
  cases node.field? name <;> rfl

theorem ends_index_node {held : Field} (hheld : node.field? name = some held) :
    ((machine host (rounds + 1)).index target key).Ends s
      (fun o t => s.Spawned t ∧ s.Since t o ∧ t.Shows o held) fun _ => False := by
  rw [ends_index_field hnode hkey, hheld]
  exact (Nodes.ends_createField held).imp_value fun o t h => ⟨h.1.unheld, h.2⟩

theorem ends_setIndex_field {Q : Unit → State → Prop} {E : State → Prop} :
    ((machine host (rounds + 1)).setIndex target key value).Ends s Q E ↔
      (match FieldShape.of? node.isDeclaration name with
        | none => pure ()
        | some shape => do
          match ← Nodes.convert (machine host rounds).toDispatcher value shape with
          | some converted => Nodes.update target name converted
          | none => pure () : Action Unit).Ends
          (s.withHeld ([target, value] :: [target, key, value] :: s.held))
          (fun a t => Q a (t.withHeld s.held)) fun t => E (t.withHeld s.held) := by
  have hhere (held : List (List Ref)) : (s.withHeld held).node? target = some node := hnode
  have htext (held : List (List Ref)) :=
    Nodes.run_toText (s := s.withHeld held) (machine host rounds).toDispatcher hkey
  rw [ends_setIndex host rounds rfl (handler_of_node? hnode rfl)]
  simp only [Nodes.setIndex, ends_bind, ends_argument_first, ends_argument_second, ends_argument_third,
    ends_expectNode (hhere _), ends_holding, Dispatcher.textArgument, withHeld_withHeld,
    ends_of_run (htext _), ends_nothing]
  cases FieldShape.of? node.isDeclaration name <;> rfl

theorem ends_setIndex_unknown (hshape : FieldShape.of? node.isDeclaration name = none)
    {Q : Unit → State → Prop} {E : State → Prop} :
    ((machine host (rounds + 1)).setIndex target key value).Ends s Q E ↔ Q () s := by
  rw [ends_setIndex_field hnode hkey, hshape]
  rfl

theorem ends_setIndex_node {new : Field}
    (hshape : FieldShape.of? node.isDeclaration name = some new.shape) (hvalue : s.Shows value new)
    {Q : Unit → State → Prop} {E : State → Prop} :
    ((machine host (rounds + 1)).setIndex target key value).Ends s Q E ↔
      Q () (s.withNode target (node.withField name (s.taken value new))) := by
  have hhere (held : List (List Ref)) : (s.withHeld held).node? target = some node := hnode
  have hfield (held : List (List Ref)) :=
    Nodes.run_convert (s := s.withHeld held) (machine host rounds).toDispatcher hvalue
  rw [ends_setIndex_field hnode hkey, hshape]
  simp only [ends_bind, ends_of_run (hfield _), ends_update (hhere _)]
  rfl

end Nodes

end ObjectModel
