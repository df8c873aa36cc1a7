import ObjectModel.Behavior.Nodes
import ObjectModel.Proofs.Laws.Values

/-!
# Behaviors of functions and of code

What functions, statements and expressions answer keeps to every law that the dispatcher keeps to, if
what runs the code does.
-/

namespace ObjectModel.Behavior

open ObjectModel.Action

variable {law : Law} {run : Dispatcher} [hr : Dispatcher.Obeys law run] {machine : Machine}
  [hd : Dispatcher.Obeys law machine.toDispatcher] [hh : Host.Obeys law machine.host] {args : List Ref}

-- ---------------------------------------------------------------------------
-- Functions
-- ---------------------------------------------------------------------------

namespace Functions

omit hr hd hh

instance obeys_expect (object : Ref) : Obeys law (expect object) := by
  unfold expect
  refine .bind fun payload => ?_
  split <;> infer_instance

instance obeys_bindParams (scope : Ref) (params : List String) (args : List Ref) :
    Obeys law (bindParams scope params args) := by
  induction params generalizing args with
  | nil => exact obeys_pure args
  | cons param params ih => cases args <;> (unfold bindParams; infer_instance)

instance obeys_bindArguments (function : Function) (args : List Ref) :
    Obeys law (bind function args) := by
  unfold bind
  refine .bind fun scope => .bind fun surplus => ?_
  split <;> infer_instance

instance obeys_textOrNothing (text : Option String) : Obeys law (textOrNothing text) := by
  unfold textOrNothing
  split <;> infer_instance

theorem obeys_part (h : part? function name = some part) : Obeys law part := by
  unfold part? at h
  split at h
  · cases h; infer_instance
  split at h
  · cases h; infer_instance
  split at h
  · cases h; infer_instance
  split at h
  · cases h; infer_instance
  split at h
  · cases h; infer_instance
  split at h
  · cases h; infer_instance
  split at h
  · cases h; infer_instance
  · cases h

instance obeys_update (object : Ref) (change : Function → Function) :
    Obeys law (update object change) := by
  unfold update
  refine ⟨holds_bind Obeys.holds fun payload t hread => ?_⟩
  cases hread
  split
  · rename_i function hfunction
    have hnew : (Payload.function (change function)).kind ≠ .buffer := nofun
    exact holds_store (.of_kinds (by rw [hfunction]; nofun) hnew)
  · exact (obeys_pure ()).holds

instance obeys_toText : Obeys law (toText machine args) := by
  unfold toText
  refine .bind fun object => .bind fun payload => ?_
  split <;> infer_instance

include hr

instance obeys_optionalText (object : Ref) : Obeys law (optionalText run object) := by
  unfold optionalText; infer_instance

instance obeys_textsOfAll (objects : List Ref) : Obeys law (textsOfAll run objects) := by
  induction objects with
  | nil => exact obeys_pure []
  | cons object rest ih => unfold textsOfAll; infer_instance

instance obeys_textsOf (object : Ref) : Obeys law (textsOf run object) := by
  unfold textsOf; infer_instance

omit hr
include hd

instance obeys_index : Obeys law (index machine args) := by
  unfold index
  refine .bind fun callee => .bind fun key => .bind fun function => .bind fun name => ?_
  split
  · rename_i part hpart
    obtain ⟨name, -, hpart⟩ := Option.bind_eq_some_iff.mp hpart
    exact obeys_part hpart
  · infer_instance

instance obeys_setIndex : Obeys law (setIndex machine args) := by
  unfold setIndex
  refine .bind fun callee => .bind fun key => .bind fun value => .bind fun _ => ?_
  refine .bind fun name => .bind fun kind => @obeys_bind _ _ _ _ _ (@obeys_holding _ _ _ _ ?_) _
  split
  · infer_instance
  · infer_instance
  · infer_instance
  · refine .bind fun payload => ?_
    split <;> infer_instance
  · infer_instance
  · infer_instance
  · infer_instance
  · refine .bind fun payload => ?_
    split <;> infer_instance

include hh

instance obeys_call : Obeys law (call machine args) := by
  unfold call
  refine .bind fun callee => .bind fun function => ?_
  split
  · infer_instance
  · rename_i evaluator hevaluator
    have hbody := hh.executes hevaluator machine.toDispatcher function.body
    infer_instance

theorem obeys_handler (h : handler operation = some body) : Obeys law (body machine args) := by
  cases operation <;> cases h <;> infer_instance

end Functions

-- ---------------------------------------------------------------------------
-- Statements and expressions
-- ---------------------------------------------------------------------------

namespace Nodes

omit hr hd hh

instance obeys_expect (object : Ref) : Obeys law (expect object) := by
  unfold expect
  refine .bind fun payload => ?_
  split <;> infer_instance

instance obeys_createExpression (node : Expression) : Obeys law (createExpression node) := by
  unfold createExpression; infer_instance

instance obeys_createExpressions (nodes : List Expression) : Obeys law (createExpressions nodes) := by
  unfold createExpressions; infer_instance

instance obeys_createField (field : Field) : Obeys law (createField field) := by
  unfold createField
  split <;> infer_instance

instance obeys_items (object : Ref) : Obeys law (items object) := by
  unfold items; infer_instance

instance obeys_expression? (object : Ref) : Obeys law (expression? object) := by
  unfold expression?
  refine .bind fun payload => ?_
  split <;> infer_instance

instance obeys_statement? (object : Ref) : Obeys law (statement? object) := by
  unfold statement?
  refine .bind fun payload => ?_
  split <;> infer_instance

instance obeys_pair? (object : Ref) : Obeys law (pair? object) := by
  unfold pair?
  refine .bind fun items => ?_
  split
  · refine .bind fun key => .bind fun value => ?_
    split <;> infer_instance
  · infer_instance

instance obeys_collect {α : Type} (find? : Ref → Action (Option α)) [∀ object, Obeys law (find? object)]
    (objects : List Ref) : Obeys law (collect find? objects) := by
  induction objects with
  | nil => exact obeys_pure []
  | cons object rest ih =>
    unfold collect
    refine .bind fun found => ?_
    split <;> infer_instance

instance obeys_update (object : Ref) (field : String) (value : Field) :
    Obeys law (update object field value) := by
  unfold update
  refine ⟨holds_bind Obeys.holds fun payload t hread => ?_⟩
  cases hread
  split
  · rename_i node hnode
    split
    · rename_i node' _
      have hnew : (Payload.statement (some node')).kind ≠ .buffer := nofun
      exact holds_store (.of_kinds (by rw [hnode]; nofun) hnew)
    · exact (obeys_pure ()).holds
  · rename_i node hnode
    split
    · rename_i node' _
      have hnew : (Payload.expression (some node')).kind ≠ .buffer := nofun
      exact holds_store (.of_kinds (by rw [hnode]; nofun) hnew)
    · exact (obeys_pure ()).holds
  · exact (obeys_pure ()).holds

instance obeys_toText : Obeys law (toText machine args) := by
  unfold toText
  refine .bind fun object => .bind fun payload => ?_
  split <;> infer_instance

include hr

instance obeys_positionOf (object : Ref) : Obeys law (positionOf run object) := by
  unfold positionOf
  refine .bind fun line => .bind fun column => ?_
  cases line <;> cases column <;> infer_instance

instance obeys_convert (value : Ref) (shape : FieldShape) : Obeys law (convert run value shape) := by
  unfold convert
  split
  · infer_instance
  · infer_instance
  · infer_instance
  · infer_instance
  · infer_instance
  · refine .bind fun payload => ?_
    split <;> infer_instance
  · refine .bind fun payload => ?_
    split <;> infer_instance
  · infer_instance
  · infer_instance
  · infer_instance
  · infer_instance

omit hr
include hd

instance obeys_index : Obeys law (index machine args) := by
  unfold index
  refine .bind fun target => .bind fun node => .bind fun field => ?_
  split <;> infer_instance

instance obeys_setIndex : Obeys law (setIndex machine args) := by
  unfold setIndex
  refine .bind fun target => .bind fun node => .bind fun field => .bind fun value => ?_
  refine @obeys_bind _ _ _ _ _ (@obeys_holding _ _ _ _ ?_) _
  split
  · infer_instance
  · refine .bind fun converted => ?_
    split <;> infer_instance

include hh

instance obeys_call : Obeys law (call machine args) := by
  unfold call
  refine .bind fun target => .bind fun node => ?_
  split
  · infer_instance
  · rename_i evaluator hevaluator
    have hrun : Obeys law (Nodes.run evaluator machine.toDispatcher node) := by
      have hbody := hh.executes hevaluator machine.toDispatcher
      have hvalue := hh.evaluates hevaluator machine.toDispatcher
      unfold Nodes.run
      split <;> infer_instance
    refine .bind fun scope => ?_
    split <;> infer_instance

theorem obeys_handler (h : handler operation = some body) : Obeys law (body machine args) := by
  cases operation <;> cases h <;> infer_instance

end Nodes

end ObjectModel.Behavior
