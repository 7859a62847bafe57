import Bella.Eval.Expression
import Bella.Value.Render

/-!
# Executing statements

Statements act on a frame. As with expressions, each construct has a function that takes the
executor for its parts, and `exec` ties the knot by the number of levels that are left.
A loop may make any number of passes; `passes` bounds the tests that each loop may make, and a loop
that would go on shows as `Halt.unfinished`.

The block under a program is not a statement of its own: the program itself goes through it, and an
error inside it never takes its position.

## Main definitions

* `Bella.StatementParts`: executors and an evaluator for the parts of a statement.
* `Bella.repeatWhile`: the passes of a loop.
* `Bella.execNode`: one statement, given what its parts need.
* `Bella.exec`: statements.
-/

namespace Bella

/-- Executes a node in a frame. -/
abbrev Executor := Node → FrameId → Run Unit

/-- Executors and an evaluator for the parts of a statement. The executors differ in the levels that
they have left. -/
structure StatementParts where
  /-- The levels that the statement leaves to its parts. -/
  levels : Nat
  /-- Executes a statement of a block or the body of a loop. -/
  statement : Executor
  /-- Executes a statement of the block under a program. -/
  outermost : Executor
  /-- Evaluates an expression. -/
  expression : Evaluator

/-! ### Blocks -/

/-- Statements in order. -/
def execAll (exec : Executor) (frame : FrameId) : List Node → Run Unit
  | [] => pure ()
  | n :: ns => do
    exec n frame
    execAll exec frame ns

/-- The statements of a block, in order. -/
def execBlock (exec : Executor) (frame : FrameId) (n : Node) : Run Unit :=
  if n.label? = some StatementForm.block.label then execAll exec frame n.children
  else Run.fail (.notBlock n)

/-- A program, which has one block. -/
def execProgram (exec : Executor) (frame : FrameId) : List Node → Run Unit
  | [body] => execBlock exec frame body
  | _ => Run.fail .blockCount

/-! ### Simple statements -/

/-- The declaration of a variable; its value is computed before the name is bound. -/
def execDeclaration (eval : Evaluator) (frame : FrameId) : List Node → Run Unit
  | [nameNode, init] => do
    let name ← Run.check (Check.identifier "Declared name" nameNode)
    let v ← eval init frame
    Run.declare frame name v
    Run.note (.declared name)
  | _ => Run.fail (.wrongParts .declaration)

/-- The declaration of a function; its body is not looked at. -/
def execFunction (frame : FrameId) : List Node → Run Unit
  | [nameNode, parametersNode, body] => do
    let name ← Run.check (Check.identifier "Function name" nameNode)
    let parameters ← Run.check (Check.parameters parametersNode)
    let _ ← Run.declareFunction frame name parameters body
    Run.note (.declaredFunction name parameters.length)
  | _ => Run.fail (.wrongParts .function)

/-- An assignment; the value is computed before the name is resolved. -/
def execAssignment (eval : Evaluator) (frame : FrameId) : List Node → Run Unit
  | [nameNode, value] => do
    let name ← Run.check (Check.identifier "Assignment target" nameNode)
    let v ← eval value frame
    Run.assign frame name v
  | _ => Run.fail (.wrongParts .assignment)

/-- A print statement, which sends one line to the sink of the frame's options. -/
def execPrint (levels : Nat) (eval : Evaluator) (frame : FrameId) : List Node → Run Unit
  | [value] => do
    let v ← eval value frame
    let line ← Run.checkWithin (v.renderWithin (arraysWithin levels))
    Run.print (← Run.options frame).sink line
  | _ => Run.fail (.wrongParts .print)

/-! ### Loops -/

/-- Repeats `body` while `test` gives true and gives the number of repetitions, `done` included. At
most `passes` tests are made. -/
def repeatWhile (test : Run Bool) (body : Run Unit) : (passes done : Nat) → Run Nat
  | 0, _ => throw .unfinished
  | passes + 1, done => do
    if ← test then
      body
      repeatWhile test body passes (done + 1)
    else return done

/-- The test of a loop. -/
def evalTest (eval : Evaluator) (frame : FrameId) (test : Node) : Run Bool := do
  let v ← eval test frame
  Run.check (Check.boolean "While test" v)

/-- A loop. -/
def execLoop (passes : Nat) (exec : Executor) (eval : Evaluator) (frame : FrameId) :
    List Node → Run Unit
  | [test, body] => do
    let done ← repeatWhile (evalTest eval frame test) (exec body frame) passes 0
    Run.note (.finished done)
  | _ => Run.fail (.wrongParts .loop)

/-! ### All statements -/

/-- A tree of a known form, given its children. -/
def execForm (passes : Nat) (parts : StatementParts) (frame : FrameId) :
    StatementForm → List Node → Run Unit
  | .program => execProgram parts.outermost frame
  | .block => execAll parts.statement frame
  | .declaration => execDeclaration parts.expression frame
  | .function => execFunction frame
  | .assignment => execAssignment parts.expression frame
  | .print => execPrint parts.levels parts.expression frame
  | .loop => execLoop passes parts.statement parts.expression frame

/-- A tree of a known form whose children are missing; a block is then empty. -/
def execHollow : StatementForm → Run Unit
  | .block => pure ()
  | _ => throw (.defect (.hollow .count))

/-- One statement, given executors and an evaluator for its parts. -/
def execNode (passes : Nat) (parts : StatementParts) (n : Node) (frame : FrameId) : Run Unit :=
  match n with
  | .tree label children _ =>
    match StatementForm.ofLabel? label with
    | some form => execForm passes parts frame form children
    | none => Run.fail (.unknownStatement label)
  | .hollow label _ =>
    match StatementForm.ofLabel? label with
    | some form => execHollow form
    | none => Run.fail (.unknownStatement label)
  | .token .. | .improper _ | .plain _ | .list _ => Run.fail (.notStatement n)

/-- Executes a statement in a frame, in so many levels and with at most `passes` tests of each loop.
The parts of a statement lie three levels below it, and those of the block under a program four; with
fewer than four levels nothing is executed. -/
def exec (passes : Nat) : (levels : Nat) → Executor
  | levels + 4, n, frame =>
    Run.within n (execNode passes
      { levels := levels + 1, statement := exec passes (levels + 1), outermost := exec passes levels,
        expression := eval (levels + 1) } n frame)
  | _, _, _ => throw .overflow

end Bella
