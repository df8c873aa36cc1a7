import ObjectModel.Binary64

/-!
# Code trees

Statements and expressions are plain data. A child may be absent, and every node has a position in
its text. Nodes are numbered by their form, and a form can be made empty from its number.
-/

namespace ObjectModel

structure Position where
  line : Int64 := 0
  column : Int64 := 0
  deriving DecidableEq, Repr, Inhabited

/-- A literal. It has a value of every type; its tag says which one counts. -/
structure Literal where
  tag : Int64 := 0
  int : Int64 := 0
  float : Binary64 := .zero
  text : String := ""
  deriving DecidableEq, Repr, Inhabited

mutual

/-- A statement with its position. -/
inductive Statement where
  | mk (position : Position) (form : StatementForm)

inductive StatementForm where
  | expression (value : Option Expression)
  | block (statements : List Statement)
  | ret (value : Option Expression)
  | proceed (value : Option Expression)
  | leave (value : Option Expression)

/-- An expression with its position. -/
inductive Expression where
  | mk (position : Position) (form : ExpressionForm)

inductive ExpressionForm where
  | literal (value : Literal)
  | list (items : List Expression)
  | map (entries : List (Expression × Expression))
  | binary (operator : Int64) (left right : Option Expression)
  | unary (operator : Int64) (operand : Option Expression)
  | index (target key : Option Expression)
  | setIndex (target key value : Option Expression)
  | assign (name : String) (value : Option Expression)
  | reference (name : String)
  | call (callee : Option Expression) (args : List Expression)
  | function (name : Option String) (params : List String) (body : Option Statement)
  | ifElse (condition : Option Expression) (ifTrue ifFalse : Option Statement)
  | loop (condition : Option Expression) (body : Option Statement)
  | each (name : String) (source : Option Expression) (body : Option Statement)

end

instance : Inhabited Expression := ⟨.mk {} (.list [])⟩
instance : Inhabited Statement := ⟨.mk {} (.block [])⟩

namespace StatementForm

def tag : StatementForm → Int64
  | .expression _ => 0
  | .block _ => 1
  | .ret _ => 2
  | .proceed _ => 3
  | .leave _ => 4

def empty? (tag : Int64) : Option StatementForm :=
  if tag = 0 then some (.expression none)
  else if tag = 1 then some (.block [])
  else if tag = 2 then some (.ret none)
  else if tag = 3 then some (.proceed none)
  else if tag = 4 then some (.leave none)
  else none

def name : StatementForm → String
  | .expression _ => "EXPR"
  | .block _ => "LIST"
  | .ret _ => "RET"
  | .proceed _ => "CONT"
  | .leave _ => "BREAK"

end StatementForm

namespace ExpressionForm

def tag : ExpressionForm → Int64
  | .literal _ => 0
  | .list _ => 1
  | .map _ => 2
  | .binary .. => 3
  | .unary .. => 4
  | .index .. => 5
  | .setIndex .. => 6
  | .assign .. => 7
  | .reference _ => 8
  | .call .. => 9
  | .function .. => 10
  | .ifElse .. => 11
  | .loop .. => 12
  | .each .. => 13

def empty? (tag : Int64) : Option ExpressionForm :=
  if tag = 0 then some (.literal {})
  else if tag = 1 then some (.list [])
  else if tag = 2 then some (.map [])
  else if tag = 3 then some (.binary 0 none none)
  else if tag = 4 then some (.unary 0 none)
  else if tag = 5 then some (.index none none)
  else if tag = 6 then some (.setIndex none none none)
  else if tag = 7 then some (.assign "" none)
  else if tag = 8 then some (.reference "")
  else if tag = 9 then some (.call none [])
  else if tag = 10 then some (.function none [] none)
  else if tag = 11 then some (.ifElse none none none)
  else if tag = 12 then some (.loop none none)
  else if tag = 13 then some (.each "" none none)
  else none

def name : ExpressionForm → String
  | .literal _ => "LIT"
  | .list _ => "LISTGEN"
  | .map _ => "MAPGEN"
  | .binary .. => "BINOP"
  | .unary .. => "UNOP"
  | .index .. => "INDEX"
  | .setIndex .. => "SETINDEX"
  | .assign .. => "ASSIGN"
  | .reference _ => "REF"
  | .call .. => "CALL"
  | .function .. => "FUNCDECL"
  | .ifElse .. => "IFELSE"
  | .loop .. => "LOOP"
  | .each .. => "ITER"

end ExpressionForm

namespace Expression

def ofForm (form : ExpressionForm) : Expression := .mk {} form

def ofInt (value : Int64) : Expression := .ofForm (.literal { int := value })

def ofName (name : String) : Expression := .ofForm (.reference name)

def form : Expression → ExpressionForm
  | .mk _ form => form

def position : Expression → Position
  | .mk position _ => position

end Expression

namespace Statement

def ofForm (form : StatementForm) : Statement := .mk {} form

def ofExpression (value : Expression) : Statement := .ofForm (.expression (some value))

/-- The statement that gives an expression's value back. -/
def ofResult (value : Expression) : Statement := .ofForm (.ret (some value))

def nothing : Statement := .ofForm (.block [])

def form : Statement → StatementForm
  | .mk _ form => form

def position : Statement → Position
  | .mk position _ => position

end Statement

end ObjectModel
