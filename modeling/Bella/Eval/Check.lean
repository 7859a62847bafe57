import Bella.Error
import Bella.Number.Numeral

/-!
# Checks on nodes and values

What the evaluator demands of the nodes and values that it meets. A check either gives what was asked
for or the cause of the error; none of them looks at the state of the run.

## Main definitions

* `Bella.Check.identifier`, `Bella.Check.parameters`: names in a tree.
* `Bella.Check.numeral`: the number that a numeral spells.
* `Bella.Check.number`, `Bella.Check.boolean`, `Bella.Check.index`: values of a kind.
* `Bella.Check.element`: the element of an array under a subscript.
-/

namespace Bella.Check

/-- The name that a node in the given role holds. -/
def identifier (role : String) : Node → Except Cause String
  | .token type text _ =>
    if type = TokenForm.name.type then .ok text else .error (.notIdentifier role)
  | _ => .error (.notIdentifier role)

/-- The names of the parameters that a node lists; the absent value lists none. -/
def parameters (n : Node) : Except Cause (List String) :=
  if n.isNothing then .ok []
  else if n.label? = some Node.parametersLabel then n.children.mapM (identifier "Parameter")
  else .error (.wrongParameters n)

/-- The number that the text of a numeral spells. -/
def numeral (text : String) : Except Cause Float :=
  match Numeral.read? text with
  | some x => .ok x
  | none => .error (.wrongNumeral text)

/-- The number that a value is. -/
def number (context : String) : Value → Except Cause Float
  | .number x => .ok x
  | v => .error (.needsNumber context v.kind)

/-- The boolean that a value is. -/
def boolean (context : String) : Value → Except Cause Bool
  | .boolean b => .ok b
  | v => .error (.needsBoolean context v.kind)

/-- The integer that a subscript is; a fraction is refused, not rounded. -/
def index (v : Value) : Except Cause Int :=
  match number "Subscript" v with
  | .error c => .error c
  | .ok x =>
    match Number.toInt? x with
    | some k => .ok k
    | none => .error (.notIntegral x)

/-- The element of an array under a subscript; a negative subscript is out of range. -/
def element (target subscript : Value) : Except Cause Value :=
  match target with
  | .array items =>
    match index subscript with
    | .error c => .error c
    | .ok k =>
      if k < 0 then .error (.outOfRange k items.length)
      else match items[k.toNat]? with
        | some v => .ok v
        | none => .error (.outOfRange k items.length)
  | v => .error (.notArray v.kind)

/-- The numbers that the arguments of a builtin are. -/
def numbers (builtin : String) : List Value → Except Cause (List Float)
  | [] => .ok []
  | .number x :: vs => (numbers builtin vs).map (x :: ·)
  | v :: _ => .error (.notNumeric builtin v.kind)

end Bella.Check
