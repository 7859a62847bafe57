import Bella.Number.Arithmetic
import Bella.Value.Basic

/-!
# The mathematical prelude

Functions and a constant that a run can lie behind its globals. Outside their domains the functions
give an infinity or the number that is not a number; they never fail.

## Main definitions

* `Bella.Prelude.functions`: the functions, whose identities are fixed.
* `Bella.Prelude.bindings`: everything the prelude binds, in order.
-/

namespace Bella.Prelude

/-- A function of one number. -/
def onOne (f : Float → Float) : List Float → Float
  | [x] => f x
  | _ => Number.nan

/-- A function of two numbers. -/
def onTwo (f : Float → Float → Float) : List Float → Float
  | [x, y] => f x y
  | _ => Number.nan

/-- The functions, in the order in which they are bound. Each one's identity is its place. -/
def functions : List Builtin :=
  [ { id := 0, name := "sqrt", arity := some 1, apply := onOne Float.sqrt },
    { id := 1, name := "sin", arity := some 1, apply := onOne Float.sin },
    { id := 2, name := "cos", arity := some 1, apply := onOne Float.cos },
    { id := 3, name := "exp", arity := some 1, apply := onOne Float.exp },
    { id := 4, name := "ln", arity := some 1, apply := onOne Float.log },
    { id := 5, name := "hypot", arity := some 2, apply := onTwo Number.hypotenuse } ]

/-- The number nearest to the ratio of a circle's circumference to its diameter. -/
def circleRatio : Float := Float.ofBits 0x400921fb54442d18

/-- Everything the prelude binds, in order. -/
def bindings : List (String × Value) :=
  functions.map (fun b => (b.name, .builtin b)) ++ [("π", .number circleRatio)]

/-- The function of a given name. -/
def function? (name : String) : Option Builtin := functions.find? fun b => b.name == name

end Bella.Prelude
