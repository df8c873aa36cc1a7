import ObjectModel.Host.Probes
import ObjectModel.Host.TreeWalk
import ObjectModel.Interpreter
import ObjectModel.Proofs.Laws.Builtins
import ObjectModel.Proofs.Laws.Code

/-!
# Programs keep to every law

Every behavior of the table keeps to every law that its dispatcher and host keep to, so a machine does
by induction on its rounds (`machine_obeys`). The evaluator that walks code trees keeps to every law
(`evaluate_obeys`, `execute_obeys`), and so do the native functions that leave no frame behind.
-/

namespace ObjectModel

open ObjectModel.Action Behavior

variable {law : Law}

-- ---------------------------------------------------------------------------
-- Native functions
-- ---------------------------------------------------------------------------

namespace Behavior.Natives

variable {machine : Machine} [hd : Dispatcher.Obeys law machine.toDispatcher]
  [hh : Host.Obeys law machine.host] {args : List Ref}

instance obeys_run (function : Native) : Obeys law (run machine args function) := by
  unfold run
  split
  · infer_instance
  · infer_instance
  · split
    · rename_i body hbody
      exact hh.runs hbody machine.toDispatcher args
    · infer_instance

instance obeys_call : Obeys law (call machine args) := by
  unfold call
  refine .bind fun callee => .bind fun payload => ?_
  split <;> infer_instance

omit hd hh in
instance obeys_toText : Obeys law (toText machine args) := by
  unfold toText
  refine .bind fun object => .bind fun payload => ?_
  split <;> infer_instance

theorem obeys_handler (h : handler operation = some body) : Obeys law (body machine args) := by
  cases operation <;> cases h <;> infer_instance

end Behavior.Natives

-- ---------------------------------------------------------------------------
-- The table
-- ---------------------------------------------------------------------------

section

variable {machine : Machine} [hd : Dispatcher.Obeys law machine.toDispatcher]
  [hh : Host.Obeys law machine.host] {args : List Ref}

theorem Kind.obeys_ownHandler {kind : Kind} (h : kind.ownHandler operation = some body) :
    Obeys law (body machine args) := by
  cases kind with
  | singlet => exact Singlets.obeys_handler h
  | int => exact Numbers.obeys_intHandler h
  | float => exact Numbers.obeys_floatHandler h
  | string => exact Strings.obeys_handler h
  | list => exact Lists.obeys_handler h
  | map => exact Maps.obeys_handler h
  | cell => exact Maps.obeys_cellHandler h
  | function => exact Functions.obeys_handler h
  | native => exact Natives.obeys_handler h
  | statement => exact Nodes.obeys_handler h
  | expression => exact Nodes.obeys_handler h
  | buffer => exact Buffers.obeys_handler h
  | library => exact Libraries.obeys_handler h
  | symbol => exact Libraries.obeys_symbolHandler h
  | stream => exact Streams.obeys_handler h

theorem Kind.obeys_handler {kind : Kind} (h : kind.handler operation = some body) :
    Obeys law (body machine args) := by
  unfold handler at h
  split at h
  · rename_i own hown
    cases h
    exact Kind.obeys_ownHandler hown
  · exact Shared.obeys_handler h

-- ---------------------------------------------------------------------------
-- Conversions to ints
-- ---------------------------------------------------------------------------

omit hd hh in
theorem spares_toIntHandler {kind : Kind} (h : kind.handler .toInt = some body) :
    SparesBuffers (body machine args) := by
  cases kind with
  | int => cases h; unfold Numbers.itself; infer_instance
  | float => cases h; unfold Numbers.floatToInt Numbers.floatOrZero; infer_instance
  | string =>
    cases h
    unfold Strings.toInt Strings.bytesOfArgument Strings.ofArgument
    infer_instance
  | buffer =>
    cases h
    have htext (object : Ref) : SparesBuffers (Buffers.textBytes object) := by
      unfold Buffers.textBytes
      refine .bind fun payload => ?_
      split <;> infer_instance
    unfold Buffers.toInt
    infer_instance
  | _ => cases h

end

theorem spares_behave_toInt (host : Host) (rounds : Nat) (kind : Kind) (args : List Ref) :
    SparesBuffers (behave host rounds kind .toInt args) := by
  cases rounds with
  | zero => exact ⟨fun h => by cases h⟩
  | succ rounds =>
    unfold behave
    split
    · rename_i body hbody
      exact spares_toIntHandler hbody
    · exact spares_raise _

theorem spares_toInt (host : Host) (rounds granted : Nat) (object : Ref) :
    SparesBuffers (Dispatcher.toInt ⟨behave host rounds, granted⟩ object) := by
  have hanswer (kind : Kind) (args : List Ref) : SparesBuffers (behave host rounds kind .toInt args) :=
    spares_behave_toInt host rounds kind args
  have hraise (fault : Fault) : SparesBuffers (raise fault : Action Int64) := spares_raise fault
  have hexpect (object : Ref) : SparesBuffers (Dispatcher.expectInt object) := by
    unfold Dispatcher.expectInt
    refine .bind fun payload => ?_
    split <;> infer_instance
  unfold Dispatcher.toInt Dispatcher.unary Dispatcher.dispatch
  refine .bind fun payload => ?_
  split <;> infer_instance

-- ---------------------------------------------------------------------------
-- Machines
-- ---------------------------------------------------------------------------

/-- What a behavior does inside others keeps to the law, however many rounds it is granted. -/
theorem behave_obeys (host : Host) [Host.Obeys law host] (rounds : Nat) (kind : Kind)
    (operation : Operation) (args : List Ref) : Obeys law (behave host rounds kind operation args) := by
  induction rounds generalizing kind operation args with
  | zero => exact obeys_exhausted
  | succ rounds ih =>
    have hd : Dispatcher.Obeys law ⟨behave host rounds, rounds⟩ :=
      ⟨ih, (spares_toInt host rounds rounds _).spares⟩
    unfold behave
    split
    · rename_i body hbody
      exact @Kind.obeys_handler law ⟨⟨behave host rounds, rounds⟩, host⟩ hd _ args _ _ _ hbody
    · infer_instance

instance machine_obeys (host : Host) [Host.Obeys law host] (rounds : Nat) :
    Dispatcher.Obeys law (machine host rounds).toDispatcher :=
  ⟨behave_obeys host rounds, (spares_toInt host rounds rounds _).spares⟩

-- ---------------------------------------------------------------------------
-- The evaluator of code trees
-- ---------------------------------------------------------------------------

namespace TreeWalk

instance obeys_literal (value : Literal) : Obeys law (literal value) := by
  unfold literal; infer_instance

instance obeys_declare (name : Option String) (params : List String) (body : Option Statement) :
    Obeys law (declare name params body) := by
  unfold declare; infer_instance

instance obeys_eachLoop (step : Action Ref) (body : Ref → Action Ref) [Obeys law step]
    [∀ item, Obeys law (body item)] (rounds : Nat) (last : Ref) :
    Obeys law (eachLoop step body rounds last) := by
  induction rounds generalizing last with
  | zero => exact obeys_exhausted
  | succ rounds ih => unfold eachLoop; infer_instance

variable (run : Dispatcher)

instance obeys_choose {α : Type} [Dispatcher.Obeys law run] (verdict : Ref)
    (ifNonzero ifZero : Action α) [Obeys law ifNonzero] [Obeys law ifZero] :
    Obeys law (choose run verdict ifNonzero ifZero) := by
  unfold choose; infer_instance

instance obeys_whileLoop [Dispatcher.Obeys law run] (condition body : Action Ref)
    [Obeys law condition] [Obeys law body] (rounds : Nat) (last : Ref) :
    Obeys law (whileLoop run condition body rounds last) := by
  induction rounds generalizing last with
  | zero => exact obeys_exhausted
  | succ rounds ih =>
    unfold whileLoop
    refine .bind fun value => ?_
    split <;> infer_instance

mutual

theorem evaluate_obeys [Dispatcher.Obeys law run] (expression : Expression) :
    Obeys law (evaluate run expression) := by
  cases expression with
  | mk _ form =>
    unfold evaluate
    exact evaluateForm_obeys form

theorem evaluateOption_obeys [Dispatcher.Obeys law run] (child : Option Expression) :
    Obeys law (evaluateOption run child) := by
  cases child with
  | none => unfold evaluateOption; infer_instance
  | some child =>
    unfold evaluateOption
    exact evaluate_obeys child

theorem evaluateAll_obeys [Dispatcher.Obeys law run] (earlier : List Ref) (children : List Expression) :
    Obeys law (evaluateAll run earlier children) := by
  cases children with
  | nil => unfold evaluateAll; infer_instance
  | cons child rest =>
    have hchild := evaluate_obeys child
    have hrest (earlier : List Ref) := evaluateAll_obeys earlier rest
    unfold evaluateAll
    infer_instance

theorem storeEntries_obeys [Dispatcher.Obeys law run] (map : Ref) (entries : List (Expression × Expression)) :
    Obeys law (storeEntries run map entries) := by
  cases entries with
  | nil => unfold storeEntries; infer_instance
  | cons entry rest =>
    obtain ⟨key, value⟩ := entry
    have hkey := evaluate_obeys key
    have hvalue := evaluate_obeys value
    have hrest := storeEntries_obeys map rest
    unfold storeEntries
    infer_instance

theorem evaluateForm_obeys [Dispatcher.Obeys law run] (form : ExpressionForm) :
    Obeys law (evaluateForm run form) := by
  cases form with
  | literal value => unfold evaluateForm; infer_instance
  | list items =>
    have hitems := evaluateAll_obeys [] items
    unfold evaluateForm
    infer_instance
  | map entries =>
    have hentries (map : Ref) := storeEntries_obeys map entries
    unfold evaluateForm
    infer_instance
  | binary operator left right =>
    have hleft := evaluateOption_obeys left
    have hright := evaluateOption_obeys right
    unfold evaluateForm
    refine .bind fun left => .bind fun right => ?_
    split <;> infer_instance
  | unary operator operand =>
    have hoperand := evaluateOption_obeys operand
    unfold evaluateForm
    refine .bind fun operand => ?_
    split <;> infer_instance
  | index target key =>
    have htarget := evaluateOption_obeys target
    have hkey := evaluateOption_obeys key
    unfold evaluateForm
    infer_instance
  | setIndex target key value =>
    have htarget := evaluateOption_obeys target
    have hkey := evaluateOption_obeys key
    have hvalue := evaluateOption_obeys value
    unfold evaluateForm
    infer_instance
  | assign name value =>
    have hvalue := evaluateOption_obeys value
    unfold evaluateForm
    infer_instance
  | reference name => unfold evaluateForm; infer_instance
  | call callee args =>
    have hcallee := evaluateOption_obeys callee
    have hargs := evaluateAll_obeys [] args
    unfold evaluateForm
    infer_instance
  | function name params body => unfold evaluateForm; infer_instance
  | ifElse condition ifTrue ifFalse =>
    have hcondition := evaluateOption_obeys condition
    have htrue := executeBranch_obeys ifTrue
    have hfalse := executeBranch_obeys ifFalse
    unfold evaluateForm
    infer_instance
  | loop condition body =>
    have hcondition := evaluateOption_obeys condition
    have hbody := executeBranch_obeys body
    unfold evaluateForm
    infer_instance
  | each name source body =>
    have hsource := evaluateOption_obeys source
    have hbody := executeBranch_obeys body
    unfold evaluateForm
    infer_instance

theorem execute_obeys [Dispatcher.Obeys law run] (statement : Statement) :
    Obeys law (execute run statement) := by
  cases statement with
  | mk _ form =>
    unfold execute
    exact executeForm_obeys form

theorem executeForm_obeys [Dispatcher.Obeys law run] (form : StatementForm) :
    Obeys law (executeForm run form) := by
  cases form with
  | block statements =>
    unfold executeForm
    exact executeAll_obeys statements
  | expression value | ret value | proceed value | leave value =>
    have hvalue := evaluateOption_obeys value
    unfold executeForm
    infer_instance

theorem executeAll_obeys [Dispatcher.Obeys law run] (statements : List Statement) :
    Obeys law (executeAll run statements) := by
  cases statements with
  | nil => unfold executeAll; infer_instance
  | cons statement rest =>
    have hstatement := execute_obeys statement
    have hrest := executeAll_obeys rest
    unfold executeAll
    refine .bind fun value => ?_
    split <;> infer_instance

theorem executeBranch_obeys [Dispatcher.Obeys law run] (body : Option Statement) :
    Obeys law (executeBranch run body) := by
  cases body with
  | none => unfold executeBranch; infer_instance
  | some body =>
    have hbody := execute_obeys body
    unfold executeBranch
    infer_instance

end

end TreeWalk

-- ---------------------------------------------------------------------------
-- Hosts
-- ---------------------------------------------------------------------------

theorem Probes.obeys_native (h : native name = some body) (hname : name ≠ "stray") (run : Dispatcher)
    (args : List Ref) : Obeys law (body run args) := by
  unfold native at h
  split at h
  · cases h; unfold echo; infer_instance
  · cases h; unfold pick; infer_instance
  · cases h; unfold pick; infer_instance
  · cases h; unfold count; infer_instance
  · cases h; unfold boom; infer_instance
  · cases h; unfold fail; infer_instance
  · exact absurd rfl hname
  · cases h; unfold rendering; infer_instance
  · cases h

/-- A host with the evaluator that walks code trees and all functions but the one that leaves a frame
behind. -/
def Host.steady : Host where
  evaluator := some TreeWalk.evaluator
  native name := if name = "stray" then none else Probes.native name

instance Host.steady_obeys : Host.Obeys law Host.steady where
  executes h run hd statement := by
    cases h
    have hbody : Action.Obeys law (TreeWalk.execute run statement) :=
      TreeWalk.execute_obeys run statement
    show Action.Obeys law (do orNothing (← TreeWalk.execute run statement))
    infer_instance
  evaluates h run hd expression := by
    cases h
    exact TreeWalk.evaluate_obeys run expression
  runs h run hd args := by
    unfold steady at h
    dsimp only at h
    split at h
    · cases h
    · rename_i hname
      exact Probes.obeys_native h hname run args

end ObjectModel
