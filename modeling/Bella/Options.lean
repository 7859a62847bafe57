import Bella.Node.Text

/-!
# Options of a run

A run has a policy for the parameters of calls, a sink that receives the printed lines, and the
choice whether the mathematical prelude lies behind its globals. Frames remember the options that
they were made with.

## Main definitions

* `Bella.Scoping`: where a call binds its parameters.
* `Bella.Sink`: where printed lines go.
* `Bella.Options`: the options of a run.
-/

namespace Bella

/-- Where a call binds its parameters. -/
inductive Scoping where
  /-- In a new frame behind which the frame of the declaration lies. -/
  | lexical
  /-- In the frame of the declaration itself, where they collide and stay. -/
  | flat
deriving DecidableEq, Inhabited

namespace Scoping

/-- The name of a policy. -/
def name : Scoping → String
  | .lexical => "lexical"
  | .flat => "flat"

/-- The policies in the order in which messages list them. -/
def all : List Scoping := [.lexical, .flat]

/-- The policy that a plain text names. -/
def ofNode? : Node → Option Scoping
  | .plain (.text s) => all.find? fun policy => policy.name == s
  | _ => none

/-- The message that refuses as a policy what has the text `got`. -/
def refusal (got : String) : String :=
  "scoping must be one of (" ++ Node.commas (all.map fun policy => Text.quote policy.name)
    ++ "); got " ++ got

end Scoping

/-- Where printed lines go. -/
inductive Sink where
  /-- The standard output. -/
  | standard
  /-- A collector of lines with an identity of its own. -/
  | collector (id : Nat)
deriving DecidableEq, Inhabited

/-- The options of a run. -/
structure Options where
  /-- Where printed lines go. -/
  sink : Sink := .standard
  /-- Where calls bind their parameters. -/
  scoping : Scoping := .lexical
  /-- Whether the mathematical prelude lies behind the globals. -/
  mathematics : Bool := false
deriving DecidableEq, Inhabited

end Bella
