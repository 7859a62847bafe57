import Bella.Node.Text

/-!
# Values

What expressions evaluate to: numbers, booleans, arrays and functions. A function is a closure, which
a program declares, or a builtin, which comes from outside; each function has an identity of its own
that copies share. A host may also bind a plain value that is none of these; programs can pass it on
but do nothing else with it.

## Main definitions

* `Bella.Value`, `Bella.Closure`, `Bella.Builtin`: values.
* `Bella.Value.kind`: the kind of a value, as messages name it.
-/

namespace Bella

/-- The address of a frame in a store. -/
abbrev FrameId := Nat

/-- A function that a program declares. -/
structure Closure where
  /-- The identity, shared by copies and by nothing else. -/
  id : Nat
  /-- The names of the parameters, in order. -/
  parameters : List String
  /-- The expression that a call evaluates. -/
  body : Node
  /-- The frame of the declaration; a closure made outside any program may lack it. -/
  frame : Option FrameId
deriving Inhabited

/-- A function on numbers that comes from outside. What the host passes for one is assumed to be
such a function: pure, total and with numbers for results. -/
structure Builtin where
  /-- The identity, shared by copies and by nothing else. -/
  id : Nat
  /-- The name, which messages show. -/
  name : String
  /-- The number of arguments, if it is fixed; no call meets a negative one. -/
  arity : Option Int
  /-- What the function computes: one number for every list of numbers, without failing and without
  any effect on frames or output. -/
  apply : List Float → Float

/-- What expressions evaluate to. -/
inductive Value where
  /-- A number. -/
  | number (x : Float)
  /-- A boolean. -/
  | boolean (b : Bool)
  /-- Values in order. -/
  | array (items : List Value)
  /-- A function that a program declares. -/
  | closure (c : Closure)
  /-- A function that comes from outside. -/
  | builtin (b : Builtin)
  /-- A plain value of the host. -/
  | foreign (p : Plain)
deriving Inhabited

/-- The kind of a value. -/
inductive Kind where
  | number | boolean | array | function
  /-- The kind of the plain values of one type. -/
  | foreign (typeName : String)
deriving DecidableEq, Inhabited

/-- The kind as messages name it. -/
def Kind.name : Kind → String
  | .number => "number"
  | .boolean => "boolean"
  | .array => "array"
  | .function => "function"
  | .foreign typeName => typeName

namespace Value

/-- The kind of a value. -/
def kind : Value → Kind
  | .number _ => .number
  | .boolean _ => .boolean
  | .array _ => .array
  | .closure _ | .builtin _ => .function
  | .foreign p => .foreign p.typeName

/-- Whether the value can be called. -/
def isFunction : Value → Bool
  | .closure _ | .builtin _ => true
  | _ => false

/-- Whether two values are of one kind. -/
def sameKind (v w : Value) : Bool := v.kind == w.kind

end Value

/-- A short text that describes a closure. -/
def Closure.text (c : Closure) : String :=
  let parameters := if c.parameters.isEmpty then "nullary" else Node.commas c.parameters
  let body := c.body.label?.getD c.body.typeName
  "<closure params=" ++ parameters ++ " body=" ++ body ++ ">"

/-- A short text that describes a builtin. -/
def Builtin.text (b : Builtin) : String := "<builtin " ++ b.name ++ ">"

end Bella
