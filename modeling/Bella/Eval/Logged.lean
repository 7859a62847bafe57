import Bella.Eval.Statement

/-!
# Runs under a handler

A handler of records writes each one out when it is noted: a call is written out before the body of
the function is evaluated, and the end of a declaration or a loop when the statement is done. This
takes levels, which lie below what the record is about. Near the end of the levels a run may
therefore halt while it writes, after it has done what it would have reported.

A run under a handler is the run without one, but for this. The handler is given by the number of
levels that it takes; none of them stands for no handler.

## Main definitions

* `Bella.evalLogged`: expressions under a handler.
* `Bella.execLogged`: statements under a handler.
-/

namespace Bella

/-- Evaluates an expression in a frame, in so many levels, under a handler that takes `need` of them
to write a record out. -/
def evalLogged (need : Nat) : (levels : Nat) → Evaluator
  | levels + 6, n, frame =>
    Run.within n (evalNode
      { levels := levels + 2, operand := evalLogged need (levels + 2),
        element := evalLogged need (levels + 1), argument := evalLogged need levels,
        body := fun body target => do
          Run.writeOut need levels
          evalLogged need levels body target } n frame)
  | _, _, _ => throw .overflow

/-- The statements that leave a record when they are done. -/
def StatementForm.isNoted : StatementForm → Bool
  | .declaration | .function | .loop => true
  | .program | .block | .assignment | .print => false

/-- Whether the node is a statement that leaves a record when it is done. -/
def Node.isNoted (n : Node) : Bool :=
  ((n.label?.bind StatementForm.ofLabel?).map StatementForm.isNoted).getD false

/-- Executes a statement in a frame, in so many levels and with at most `passes` tests of each loop,
under a handler that takes `need` levels to write a record out. -/
def execLogged (need passes : Nat) : (levels : Nat) → Executor
  | levels + 4, n, frame =>
    Run.within n do
      execNode passes
        { levels := levels + 1, statement := execLogged need passes (levels + 1),
          outermost := execLogged need passes levels, expression := evalLogged need (levels + 1) }
        n frame
      if n.isNoted then Run.writeOut need (levels + 1)
  | _, _, _ => throw .overflow

end Bella
