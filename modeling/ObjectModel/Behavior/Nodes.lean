import ObjectModel.Behavior.Functions
import ObjectModel.Code.Fields

/-!
# Statements and expressions as objects

A node is called to run it, in a scope of its own if one is given. Reads give new objects that share
nothing with the node; writes convert the value to the shape of the field, and a value of any other
shape leaves the node as it is.
-/

namespace ObjectModel.Behavior.Nodes

open ObjectModel.Action

/-- The node an object holds. An absent node and an object of another kind raise an error. -/
def expect (object : Ref) : Action Node := do
  match ← payload object with
  | .statement (some node) => return .statement node
  | .expression (some node) => return .expression node
  | .statement none => raise .absentNode
  | .expression none => raise .absentNode
  | other => raise (.mismatch .expression other.kind)

/-- Runs a node: an expression gives its value, a statement no value. -/
def run (evaluator : Evaluator) (dispatcher : Dispatcher) : Node → Action Ref
  | .statement node => do
    discard (evaluator.execute dispatcher node)
    nothing
  | .expression node => evaluator.evaluate dispatcher node

def call : Handler := fun machine args => do
  let target ← argument args 0
  let node ← expect target
  match machine.host.evaluator with
  | none => raise .noEvaluator
  | some evaluator =>
    match ← optional args 1 with
    | some scope =>
      holding [target, scope] (inScope scope (run evaluator machine.toDispatcher node))
    | none => holding [target] (run evaluator machine.toDispatcher node)

/-! ## Reading fields -/

def createExpression (node : Expression) : Action Ref := create (.expression (some node))

def createExpressions (nodes : List Expression) : Action Ref := do
  createList (← nodes.mapM createExpression)

def createField : Field → Action Ref
  | .int value => createInt value
  | .float value => create (.float value)
  | .text value => createString value
  | .name value => createString (value.getD "")
  | .position value => do
    let line ← createInt value.line
    let column ← createInt value.column
    Map.ofNamed [("line", line), ("col", column)]
  | .expression value => create (.expression value)
  | .statement value => create (.statement value)
  | .expressions values => createExpressions values
  | .statements values => do
    createList (← createAll (values.map fun node => .statement (some node)))
  | .names values => do createList (← createAll (values.map .string))
  | .pairs values => do
    createList (← values.mapM fun (key, value) => createExpressions [key, value])

/-- A new object for the field of a name; a field that the node does not have gives no value. -/
def index : Handler := fun machine args => do
  let target ← argument args 0
  let node ← expect target
  let field ← holding [target] (machine.textArgument args 1)
  match node.field? field with
  | some value => createField value
  | none => nothing

/-! ## Writing fields -/

def items (object : Ref) : Action (List Ref) :=
  return ((← payload object).items?.getD #[]).toList

def expression? (object : Ref) : Action (Option Expression) := do
  match ← payload object with
  | .expression node => return node
  | _ => return none

def statement? (object : Ref) : Action (Option Statement) := do
  match ← payload object with
  | .statement node => return node
  | _ => return none

/-- The key and the value that the first two items of a list hold, if both are expressions. -/
def pair? (object : Ref) : Action (Option (Expression × Expression)) := do
  match ← items object with
  | key :: value :: _ =>
    match ← expression? key, ← expression? value with
    | some key, some value => return some (key, value)
    | _, _ => return none
  | _ => return none

/-- What an action finds in objects, in order; objects in which it finds nothing are passed over. -/
def collect (find? : Ref → Action (Option α)) : List Ref → Action (List α)
  | [] => return []
  | object :: rest => do
    match ← find? object with
    | some found => return found :: (← collect find? rest)
    | none => collect find? rest

/-- The position in a map with a line and a column; what is missing counts as zero. -/
def positionOf (dispatcher : Dispatcher) (object : Ref) : Action Position := do
  let line ← Map.getNamed? object "line"
  let column ← Map.getNamed? object "col"
  let line ← match line with
    | some line => dispatcher.toInt line
    | none => pure 0
  let column ← match column with
    | some column => dispatcher.toInt column
    | none => pure 0
  return ⟨line, column⟩

/-- The value of an object in a shape; none when it cannot have it. -/
def convert (dispatcher : Dispatcher) (value : Ref) : FieldShape → Action (Option Field)
  | .int => return some (.int (← dispatcher.toInt value))
  | .float => return some (.float (← dispatcher.toFloat value))
  | .text => return some (.text (← dispatcher.toText value))
  | .name => return some (.name (← Functions.optionalText dispatcher value))
  | .position => do
    if (← kind value) = .map then return some (.position (← positionOf dispatcher value))
    else return none
  | .expression => do
    match ← payload value with
    | .expression node => return some (.expression node)
    | _ => return none
  | .statement => do
    match ← payload value with
    | .statement node => return some (.statement node)
    | _ => return none
  | .expressions => return some (.expressions (← collect expression? (← items value)))
  | .statements => return some (.statements (← collect statement? (← items value)))
  | .names => return some (.names (← Functions.textsOf dispatcher value))
  | .pairs => return some (.pairs (← collect pair? (← items value)))

def update (object : Ref) (field : String) (value : Field) : Action Unit := do
  match ← payload object with
  | .statement (some node) =>
    match (Node.statement node).withField field value with
    | .statement node => store object (.statement (some node))
    | .expression _ => return
  | .expression (some node) =>
    match (Node.expression node).withField field value with
    | .expression node => store object (.expression (some node))
    | .statement _ => return
  | _ => return

/-- Converts a value for the field of a name and stores it. -/
def setIndex : Handler := fun machine args => do
  let target ← argument args 0
  let node ← expect target
  let field ← holding [target] (machine.textArgument args 1)
  let value ← argument args 2
  holding [target, value] do
    match FieldShape.of? node.isDeclaration field with
    | none => return ()
    | some shape =>
      match ← convert machine.toDispatcher value shape with
      | some converted => update target field converted
      | none => return ()
  nothing

def toText : Handler := fun _ args => do
  match ← payload (← argument args 0) with
  | .statement (some node) => createString ("<Stmt[" ++ node.form.name ++ "]>")
  | .statement none => createString "<NULL Stmt>"
  | .expression (some node) => createString ("<Expr[" ++ node.form.name ++ "]>")
  | .expression none => createString "<NULL Expr>"
  | _ => createString "<Invalid Node>"

def handler : Operation → Option Handler
  | .call => some call
  | .index => some index
  | .setIndex => some setIndex
  | .toText => some toText
  | _ => none

end ObjectModel.Behavior.Nodes
