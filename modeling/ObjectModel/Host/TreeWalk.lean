import ObjectModel.State.Scopes

/-!
# An evaluator that walks code trees

Children are evaluated from left to right, and an absent child has no value. A result statement ends
the block it stands in, and the blocks around that one; branches and bodies of loops are run for
themselves, so that a result ends no more than its branch or round. Loops have no bound of their own
and use up the rounds they are granted.
-/

namespace ObjectModel.TreeWalk

open ObjectModel.Action

def literal (value : Literal) : Action Ref :=
  if value.tag = 0 then createInt value.int
  else if value.tag = 1 then create (.float value.float)
  else if value.tag = 2 then createString value.text
  else nothing

/-- Runs one of two actions, by the integer that a condition's value stands for. The value stays
held meanwhile. -/
def choose (run : Dispatcher) (verdict : Ref) (ifNonzero ifZero : Action α) : Action α :=
  holding [verdict] do
    if (← run.toInt verdict) ≠ 0 then ifNonzero else ifZero

/-- Runs a body as long as a condition holds; gives the last value of the body. -/
def whileLoop (run : Dispatcher) (condition body : Action Ref) :
    (rounds : Nat) → Ref → Action Ref
  | 0, _ => throw .exhausted
  | rounds + 1, last => do
    let round : Action (Option Ref) := do
      choose run (← condition) (return some (← body)) (return none)
    match ← holding [last] round with
    | some value => whileLoop run condition body rounds value
    | none => return last

/-- Runs a body for every element until a step gives no value; gives the last value of the body. -/
def eachLoop (step : Action Ref) (body : Ref → Action Ref) : (rounds : Nat) → Ref → Action Ref
  | 0, _ => throw .exhausted
  | rounds + 1, last => do
    let item ← holding [last] step
    if ← isNothing item then return last
    else
      let value ← holding [last] (body item)
      eachLoop step body rounds value

def declare (name : Option String) (params : List String) (body : Option Statement) :
    Action Ref := do
  let closure := (← get).locals
  let attributes ← createMap
  let annotations ← createMap
  create (.function {
    name, params, rest := none, body := body.getD .nothing, closure, attributes, annotations })

variable (run : Dispatcher)

mutual

def evaluate : Expression → Action Ref
  | .mk _ form => evaluateForm form

def evaluateOption : Option Expression → Action Ref
  | some child => evaluate child
  | none => nothing

/-- The values of expressions, after those of earlier ones. -/
def evaluateAll (earlier : List Ref) : List Expression → Action (List Ref)
  | [] => return earlier
  | child :: rest => do
    let value ← holding earlier (evaluate child)
    evaluateAll (earlier ++ [value]) rest

def storeEntries (map : Ref) : List (Expression × Expression) → Action Unit
  | [] => return
  | (key, value) :: rest => do
    let key ← evaluate key
    let value ← holding [key] (evaluate value)
    Map.set run map key value
    storeEntries map rest

def evaluateForm : ExpressionForm → Action Ref
  | .literal value => literal value
  | .list items => do createList (← evaluateAll [] items)
  | .map entries => do
    let map ← createMap
    holding [map] (storeEntries map entries)
    return map
  | .binary operator left right => do
    let left ← evaluateOption left
    let right ← holding [left] (evaluateOption right)
    match Operation.ofIndex? operator with
    | some operation => holding [left, right] (run.binary operation left right)
    | none => nothing
  | .unary operator operand => do
    let operand ← evaluateOption operand
    match Operation.ofIndex? operator with
    | some operation => holding [operand] (run.unary operation operand)
    | none => nothing
  | .index target key => do
    let target ← evaluateOption target
    let key ← holding [target] (evaluateOption key)
    holding [target, key] (run.index target key)
  | .setIndex target key value => do
    let target ← evaluateOption target
    let key ← holding [target] (evaluateOption key)
    let value ← holding [target, key] (evaluateOption value)
    holding [target, key, value] (run.setIndex target key value)
    return value
  | .assign name value => do
    let value ← evaluateOption value
    setVariable name value
    return value
  | .reference name => getVariable name
  | .call callee args => do
    let callee ← evaluateOption callee
    let args ← holding [callee] (evaluateAll [] args)
    holding (callee :: args) (run.call callee args)
  | .function name params body => declare name params body
  | .ifElse condition ifTrue ifFalse => do
    choose run (← evaluateOption condition) (executeBranch ifTrue) (executeBranch ifFalse)
  | .loop condition body => do
    whileLoop run (evaluateOption condition) (executeBranch body) run.rounds (← nothing)
  | .each name source body => do
    let container ← evaluateOption source
    let step ← holding [container] (run.iterate container)
    let scratch ← createMap
    let visit (item : Ref) : Action Ref := do
      setVariable name item
      executeBranch body
    holding [container, step, scratch] do
      eachLoop (run.call step [container, scratch]) visit run.rounds (← nothing)

/-- Runs a statement. Gives the value of a result statement, if one was reached. -/
def execute : Statement → Action (Option Ref)
  | .mk _ form => executeForm form

def executeForm : StatementForm → Action (Option Ref)
  | .expression value => do
    discard (evaluateOption value)
    return none
  | .block statements => executeAll statements
  | .ret value => return some (← evaluateOption value)
  | .proceed value => do
    discard (evaluateOption value)
    return none
  | .leave value => do
    discard (evaluateOption value)
    return none

/-- Runs statements in order, up to the first that reaches a result. -/
def executeAll : List Statement → Action (Option Ref)
  | [] => return none
  | statement :: rest => do
    match ← execute statement with
    | some value => return some value
    | none => executeAll rest

/-- Runs a branch for itself; without a result, and without a branch, it has no value. -/
def executeBranch : Option Statement → Action Ref
  | some body => do orNothing (← execute body)
  | none => nothing

end

def evaluator : Evaluator where
  execute run statement := do orNothing (← execute run statement)
  evaluate run expression := evaluate run expression

end ObjectModel.TreeWalk
