import Bella.Error
import Bella.Prelude
import Bella.Record
import Bella.Store

/-!
# The state of a run and its actions

A world holds the frames, the lines printed so far with their sinks, the debug records, and the
number of identities handed out. A run is an action on a world that ends with a result or halts; what
it did to the world before it halted stays done.

## Main definitions

* `Bella.World`: the state.
* `Bella.Halt`: why a run ends without a result.
* `Bella.Run`: actions, with one function for each thing that the evaluator does to a world.
-/

namespace Bella

/-- The state of a run. -/
structure World where
  /-- The frames. -/
  store : Store := {}
  /-- The lines printed so far, oldest first. -/
  printed : Array (Sink × String) := #[]
  /-- The debug records so far, oldest first. -/
  records : Array Record := #[]
  /-- The number of identities handed out; the functions of the prelude have the first ones. -/
  issued : Nat := Prelude.functions.length
deriving Inhabited

namespace World

/-- The lines that a sink received, oldest first. -/
def linesTo (w : World) (sink : Sink) : List String :=
  w.printed.toList.filterMap fun (s, line) => if s = sink then some line else none

end World

/-- Why a run ends without a result. -/
inductive Halt where
  /-- An error of the language. -/
  | error (e : Error)
  /-- A tree that cannot be taken apart. -/
  | defect (d : Defect)
  /-- The run needs more levels than it has. -/
  | overflow
  /-- A loop has made all the passes it may make and would go on. -/
  | unfinished
deriving Inhabited

/-- The halt seen from a node at position `p`: an error without location takes the position. -/
def Halt.locate (p : Position) : Halt → Halt
  | .error e => .error (e.locate p)
  | h => h

/-- An action on a world. -/
abbrev Run := EStateM Halt World

namespace Run

variable {α : Type}

/-- Halts with an error that has no location yet. -/
def fail (c : Cause) : Run α := throw (.error { cause := c })

/-- Goes on with the result of a check, or halts with its cause. -/
def check : Except Cause α → Run α
  | .ok a => pure a
  | .error c => fail c

/-- Goes on with the result of a check whose depth is bounded, and halts if the bound was met. -/
def checkWithin : Option (Except Cause α) → Run α
  | some r => check r
  | none => throw .overflow

/-- An action whose errors take `need` levels to be made: with fewer than these it runs out of
levels in the place of an error. -/
def refusing (need levels : Nat) (x : Run α) : Run α :=
  EStateM.adaptExcept (fun h => if levels < need then .overflow else h) x

/-- The action inside a node: an error that leaves it without location takes the node's position. -/
def within (n : Node) (x : Run α) : Run α := EStateM.adaptExcept (Halt.locate n.position) x

/-! ### Identities, records and lines -/

/-- Hands out a new identity. -/
def issue : Run Nat := modifyGet fun w => (w.issued, { w with issued := w.issued + 1 })

/-- Notes a record. Nothing is written yet, so this does not fail. -/
def note (r : Record) : Run Unit := modify fun w => { w with records := w.records.push r }

/-- Has a handler write out the last record, which takes it `need` levels; without a handler these
are none. With fewer levels than that the record is lost, and the run is out of levels. -/
def writeOut (need levels : Nat) : Run Unit :=
  if levels < need then do
    modify fun w => { w with records := w.records.pop }
    throw .overflow
  else pure ()

/-- Prints a line to a sink. -/
def print (sink : Sink) (line : String) : Run Unit :=
  modify fun w => { w with printed := w.printed.push (sink, line) }

/-! ### Frames -/

/-- The options in force in a frame. -/
def options (frame : FrameId) : Run Options := do return (← get).store.options frame

/-- Sets the options of a frame. -/
def setOptions (frame : FrameId) (o : Options) : Run Unit :=
  modify fun w => { w with store := w.store.setOptions frame o }

/-- Makes a frame and gives its address. -/
def newFrame (parent : Option FrameId) (label : String) (o : Option Options) : Run FrameId :=
  modifyGet fun w => (w.store.next, { w with store := w.store.push parent label o })

/-- The outermost frame of a chain. -/
def root (frame : FrameId) : Run FrameId := do return (← get).store.root frame

/-- The value of a name, seen from a frame. -/
def lookup (frame : FrameId) (name : String) : Run Value := do
  match (← get).store.lookup? frame name with
  | some v => pure v
  | none => fail (.notDeclared name)

/-- Binds a name that the frame itself does not bind yet. -/
def bindFresh (frame : FrameId) (name : String) (v : Value) (what : Declared) : Run Unit := do
  if (← get).store.binds frame name then fail (.alreadyDeclared name what)
  else modify fun w => { w with store := w.store.bind frame name v }

/-- Declares a variable. -/
def declare (frame : FrameId) (name : String) (v : Value) : Run Unit :=
  bindFresh frame name v .variable

/-- Declares a function, which gets an identity of its own if the name is free. -/
def declareFunction (frame : FrameId) (name : String) (parameters : List String) (body : Node) :
    Run Closure := do
  if (← get).store.binds frame name then fail (.alreadyDeclared name .function)
  else
    let id ← issue
    let closure : Closure := { id, parameters, body, frame := some frame }
    modify fun w => { w with store := w.store.bind frame name (.closure closure) }
    return closure

/-- Gives another value to a name, in the first frame on the chain that binds it. -/
def assign (frame : FrameId) (name : String) (v : Value) : Run Unit := do
  match (← get).store.resolve? frame name with
  | some i => modify fun w => { w with store := w.store.update i name v }
  | none => fail (.notDeclared name)

/-- Declares names with their values, in order. -/
def declareAll (frame : FrameId) : List (String × Value) → Run Unit
  | [] => pure ()
  | (name, v) :: rest => do
    declare frame name v
    declareAll frame rest

/-- Makes a frame for globals, with the frame of the prelude behind it if the options ask for it. -/
def globalFrame (o : Options) : Run FrameId := do
  if o.mathematics then
    let behind ← newFrame none "prelude" (some o)
    declareAll behind Prelude.bindings
    newFrame (some behind) "global" (some o)
  else
    newFrame none "global" (some o)

end Run
end Bella
