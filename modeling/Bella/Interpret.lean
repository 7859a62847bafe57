import Bella.Eval.Logged

/-!
# Interpreting programs

A program is interpreted in a fresh frame for globals or in one that is passed in, which keeps the
bindings of earlier runs. Options that come with a program are set on the frame that it runs in, and
on no other frame.

Nesting is bounded. The host allows ten thousand levels to a program, and a program that needs more
ends with an error of the language. An expression, statement or call that is not part of a program has
a thousand levels, and needing more is then no error of the language but a halt of its own.

## Main definitions

* `Bella.interpret`, `Bella.interpretLogged`: runs a program, the latter under a handler of records.
* `Bella.run`: runs a program and gives the lines that it printed.
* `Bella.evaluate`, `Bella.execute`, `Bella.executeLogged`, `Bella.callDirectly`,
  `Bella.renderDirectly`, `Bella.equalsDirectly`: single steps outside a program.
-/

namespace Bella

/-- More tests than any loop can make in practice. -/
def amplePasses : Nat := Nat.pow 2 62

/-- The frame that a program runs in: the given one, with new options if there are any, or a fresh
one for globals. -/
def prepareFrame (frame : Option FrameId) (options : Option Options) : Run FrameId :=
  match frame with
  | none => Run.globalFrame (options.getD {})
  | some f => do
    if let some o := options then Run.setOptions f o
    return f

/-- A halt as it leaves a program: too deep a nesting is an error of the language. -/
def Halt.leaveProgram : Halt → Halt
  | .overflow => .error { cause := .nestedTooDeeply hostLimit }
  | h => h

/-- Runs a program in a frame, given an executor for it. -/
def interpretBy (exec : Executor) (program : Node) (frame : FrameId) : Run Unit := do
  if program.label? = some StatementForm.program.label then
    Run.note (.interpreting (← Run.options frame).scoping)
    EStateM.adaptExcept Halt.leaveProgram (exec program frame)
  else Run.fail (.notProgram program)

/-- Runs a program in a frame. -/
def interpretIn (passes : Nat) (program : Node) (frame : FrameId) : Run Unit :=
  interpretBy (exec passes programLevels) program frame

/-- Runs a program in a frame or in a fresh one. -/
def interpret (passes : Nat) (program : Node) (frame : Option FrameId)
    (options : Option Options) : Run Unit := do
  let f ← prepareFrame frame options
  interpretIn passes program f

/-- Runs a program in a frame or in a fresh one, under a handler that takes `need` levels to write a
record out. -/
def interpretLogged (need passes : Nat) (program : Node) (frame : Option FrameId)
    (options : Option Options) : Run Unit := do
  let f ← prepareFrame frame options
  interpretBy (execLogged need passes programLevels) program f

/-- Runs a program and gives the lines that it printed, in order. -/
def run (passes : Nat) (program : Node) (scoping : Scoping) (mathematics : Bool)
    (frame : Option FrameId) : Run (List String) := do
  let sink := Sink.collector (← Run.issue)
  interpret passes program frame (some { sink, scoping, mathematics })
  return (← get).linesTo sink

/-! ### Single steps outside a program -/

/-- Evaluates an expression in a frame. -/
def evaluate (n : Node) (frame : FrameId) : Run Value := eval outsideLimit n frame

/-- Executes a statement in a frame. -/
def execute (passes : Nat) (n : Node) (frame : FrameId) : Run Unit :=
  exec passes outsideLimit n frame

/-- Executes a statement in a frame, under a handler that takes `need` levels to write a record out.
-/
def executeLogged (need passes : Nat) (n : Node) (frame : FrameId) : Run Unit :=
  execLogged need passes outsideLimit n frame

/-- The levels that a call takes from the body of the function. -/
def levelsPerCall : Nat := 2

/-- Calls a value under a name, from a frame. -/
def callDirectly (name : String) (callee : Value) (arguments : List Value) (caller : FrameId) :
    Run Value :=
  callValue (eval (outsideLimit - levelsPerCall)) name callee arguments caller

/-- The printed text of a value. -/
def renderDirectly (v : Value) : Run String :=
  Run.checkWithin (v.renderWithin (arraysWithin outsideLimit))

/-- Whether two values are equal. -/
def equalsDirectly (v w : Value) : Run Bool :=
  Run.checkWithin ((v.equalsWithin (arraysWithin outsideLimit) w).map .ok)

end Bella
