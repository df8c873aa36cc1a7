import ObjectModel.Code.Basic

/-!
# Fields of code trees

A node shows its parts as named fields. Reading a field copies it out, writing one replaces it, and
a value of the wrong shape for the node leaves the node as it is. A write to `type` empties the node
into another form and keeps its position.
-/

namespace ObjectModel

/-- A statement or an expression. -/
inductive Node where
  | statement (value : Statement)
  | expression (value : Expression)

inductive Field where
  | int (value : Int64)
  | float (value : Binary64)
  | text (value : String)
  | name (value : Option String)
  | position (value : Position)
  | expression (value : Option Expression)
  | statement (value : Option Statement)
  | expressions (values : List Expression)
  | statements (values : List Statement)
  | names (values : List String)
  | pairs (values : List (Expression × Expression))

/-- The shape that a value must have to be stored in a field. -/
inductive FieldShape where
  | int
  | float
  | text
  | name
  | position
  | expression
  | statement
  | expressions
  | statements
  | names
  | pairs
  deriving DecidableEq, Repr

/-- The shape of the field of a name, in a function declaration or in any other node. -/
def FieldShape.of? (inDeclaration : Bool) (field : String) : Option FieldShape :=
  if field ∈ ["type", "littype", "ival", "binoptype", "unoptype"] then some .int
  else if field = "fval" then some .float
  else if field ∈ ["str", "ident", "var"] then some .text
  else if field = "name" then some .name
  else if field = "loc" then some .position
  else if field = "args" then some (if inDeclaration then .names else .expressions)
  else if field = "list" then some .expressions
  else if field = "stmtlist" then some .statements
  else if field = "map" then some .pairs
  else if field ∈ ["body", "iftrue", "iffalse", "loop"] then some .statement
  else if field ∈ ["expr", "left", "right", "ret", "val", "index", "value", "cond", "iter"] then
    some .expression
  else none

namespace StatementForm

/-- The field of a statement's form. -/
def field? (form : StatementForm) (field : String) : Option Field :=
  match form, field with
  | .expression value, "expr" => some (.expression value)
  | .block statements, "stmtlist" => some (.statements statements)
  | .ret value, "ret" => some (.expression value)
  | .proceed value, "val" => some (.expression value)
  | .leave value, "val" => some (.expression value)
  | _, _ => none

def withField (form : StatementForm) (field : String) (value : Field) : StatementForm :=
  match form, field, value with
  | .expression _, "expr", .expression value => .expression value
  | .block _, "stmtlist", .statements statements => .block statements
  | .ret _, "ret", .expression value => .ret value
  | .proceed _, "val", .expression value => .proceed value
  | .leave _, "val", .expression value => .leave value
  | form, _, _ => form

end StatementForm

namespace ExpressionForm

/-- The field of an expression's form. -/
def field? (form : ExpressionForm) (field : String) : Option Field :=
  match form with
  | .literal value =>
    match field with
    | "littype" => some (.int value.tag)
    | "ival" => some (.int value.int)
    | "fval" => some (.float value.float)
    | "str" => some (.text value.text)
    | _ => none
  | .list items => if field = "list" then some (.expressions items) else none
  | .map entries => if field = "map" then some (.pairs entries) else none
  | .binary operator left right =>
    match field with
    | "binoptype" => some (.int operator)
    | "left" => some (.expression left)
    | "right" => some (.expression right)
    | _ => none
  | .unary operator operand =>
    match field with
    | "unoptype" => some (.int operator)
    | "expr" => some (.expression operand)
    | _ => none
  | .index target key =>
    match field with
    | "expr" => some (.expression target)
    | "index" => some (.expression key)
    | _ => none
  | .setIndex target key value =>
    match field with
    | "expr" => some (.expression target)
    | "index" => some (.expression key)
    | "value" => some (.expression value)
    | _ => none
  | .assign name value =>
    match field with
    | "ident" => some (.text name)
    | "value" => some (.expression value)
    | _ => none
  | .reference name => if field = "ident" then some (.text name) else none
  | .call callee args =>
    match field with
    | "expr" => some (.expression callee)
    | "args" => some (.expressions args)
    | _ => none
  | .function name params body =>
    match field with
    | "name" => some (.name name)
    | "args" => some (.names params)
    | "body" => some (.statement body)
    | _ => none
  | .ifElse condition ifTrue ifFalse =>
    match field with
    | "cond" => some (.expression condition)
    | "iftrue" => some (.statement ifTrue)
    | "iffalse" => some (.statement ifFalse)
    | _ => none
  | .loop condition body =>
    match field with
    | "cond" => some (.expression condition)
    | "loop" => some (.statement body)
    | _ => none
  | .each name source body =>
    match field with
    | "var" => some (.text name)
    | "iter" => some (.expression source)
    | "loop" => some (.statement body)
    | _ => none

def withField (form : ExpressionForm) (field : String) (value : Field) : ExpressionForm :=
  match form with
  | .literal held =>
    match field, value with
    | "littype", .int tag => .literal { held with tag }
    | "ival", .int int => .literal { held with int }
    | "fval", .float float => .literal { held with float }
    | "str", .text text => .literal { held with text }
    | _, _ => form
  | .list _ =>
    match field, value with
    | "list", .expressions items => .list items
    | _, _ => form
  | .map _ =>
    match field, value with
    | "map", .pairs entries => .map entries
    | _, _ => form
  | .binary operator left right =>
    match field, value with
    | "binoptype", .int operator => .binary operator left right
    | "left", .expression left => .binary operator left right
    | "right", .expression right => .binary operator left right
    | _, _ => form
  | .unary operator operand =>
    match field, value with
    | "unoptype", .int operator => .unary operator operand
    | "expr", .expression operand => .unary operator operand
    | _, _ => form
  | .index target key =>
    match field, value with
    | "expr", .expression target => .index target key
    | "index", .expression key => .index target key
    | _, _ => form
  | .setIndex target key stored =>
    match field, value with
    | "expr", .expression target => .setIndex target key stored
    | "index", .expression key => .setIndex target key stored
    | "value", .expression stored => .setIndex target key stored
    | _, _ => form
  | .assign name stored =>
    match field, value with
    | "ident", .text name => .assign name stored
    | "value", .expression stored => .assign name stored
    | _, _ => form
  | .reference _ =>
    match field, value with
    | "ident", .text name => .reference name
    | _, _ => form
  | .call callee args =>
    match field, value with
    | "expr", .expression callee => .call callee args
    | "args", .expressions args => .call callee args
    | _, _ => form
  | .function name params body =>
    match field, value with
    | "name", .name name => .function name params body
    | "args", .names params => .function name params body
    | "body", .statement body => .function name params body
    | _, _ => form
  | .ifElse condition ifTrue ifFalse =>
    match field, value with
    | "cond", .expression condition => .ifElse condition ifTrue ifFalse
    | "iftrue", .statement ifTrue => .ifElse condition ifTrue ifFalse
    | "iffalse", .statement ifFalse => .ifElse condition ifTrue ifFalse
    | _, _ => form
  | .loop condition body =>
    match field, value with
    | "cond", .expression condition => .loop condition body
    | "loop", .statement body => .loop condition body
    | _, _ => form
  | .each name source body =>
    match field, value with
    | "var", .text name => .each name source body
    | "iter", .expression source => .each name source body
    | "loop", .statement body => .each name source body
    | _, _ => form

end ExpressionForm

namespace Node

/-- What a read of `kind` gives: one number for statements, one for expressions. -/
def kindTag : Node → Int64
  | .statement _ => -1
  | .expression _ => -2

def formTag : Node → Int64
  | .statement value => value.form.tag
  | .expression value => value.form.tag

def position : Node → Position
  | .statement value => value.position
  | .expression value => value.position

def isDeclaration : Node → Bool
  | .expression (.mk _ (.function ..)) => true
  | _ => false

/-- The field of a node: those of every node first, then those of its form. -/
def field? (node : Node) (field : String) : Option Field :=
  if field = "kind" then some (.int node.kindTag)
  else if field = "type" then some (.int node.formTag)
  else if field = "loc" then some (.position node.position)
  else match node with
    | .statement value => value.form.field? field
    | .expression value => value.form.field? field

/-- The node in the form of another number, empty; in its own form, or of a number without a form,
it stays as it is. -/
def reshape (node : Node) (tag : Int64) : Node :=
  if tag = node.formTag then node
  else match node with
    | .statement (.mk position _) =>
      match StatementForm.empty? tag with
      | some form => .statement (.mk position form)
      | none => node
    | .expression (.mk position _) =>
      match ExpressionForm.empty? tag with
      | some form => .expression (.mk position form)
      | none => node

def withField (node : Node) (field : String) (value : Field) : Node :=
  match field, value with
  | "type", .int tag => node.reshape tag
  | _, .position position =>
    match node with
    | .statement (.mk _ form) => .statement (.mk position form)
    | .expression (.mk _ form) => .expression (.mk position form)
  | _, _ =>
    match node with
    | .statement (.mk position form) => .statement (.mk position (form.withField field value))
    | .expression (.mk position form) => .expression (.mk position (form.withField field value))

end Node

end ObjectModel
