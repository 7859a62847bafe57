import Bella.Options

/-!
# Debug records

A run notes what it does: that it starts, what it declares, which closures it calls, and how often a
loop ran. Each record has a channel, the part of the evaluator that it comes from, and a message.

## Main definitions

* `Bella.Record`: what a run notes.
* `Bella.Record.channel`, `Bella.Record.message`: how a record is shown.
-/

namespace Bella

/-- What a run notes. -/
inductive Record where
  /-- A program starts. -/
  | interpreting (scoping : Scoping)
  /-- A variable is declared. -/
  | declared (name : String)
  /-- A function is declared. -/
  | declaredFunction (name : String) (arity : Nat)
  /-- The parameters of a closure are bound, and its body is about to be evaluated. -/
  | called (name : String) (parameters : List String) (scoping : Scoping)
  /-- A loop ends after its body ran the given number of times. -/
  | finished (passes : Nat)
deriving DecidableEq, Inhabited

namespace Record

/-- The part of the evaluator that a record comes from. -/
def channel : Record → String
  | .interpreting _ => "bella.evaluator"
  | .declared _ => "bella.eval.let"
  | .declaredFunction .. => "bella.eval.fn"
  | .called .. => "bella.runtime"
  | .finished _ => "bella.eval.loops"

/-- The message of a record. -/
def message : Record → String
  | .interpreting scoping => "interpreting program with " ++ scoping.name ++ " scoping"
  | .declared name => "declared " ++ name
  | .declaredFunction name arity => "declared function " ++ name ++ "/" ++ toString arity
  | .called name parameters scoping =>
    "call " ++ name ++ "(" ++ Node.commas parameters ++ ") in " ++ scoping.name ++ " frame"
  | .finished passes => "while loop finished after " ++ toString passes ++ " iteration(s)"

end Record
end Bella
