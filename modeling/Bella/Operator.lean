import Bella.Number.Arithmetic

/-!
# Operators

The operators of the language, by the family that decides how their operands are treated: arithmetic
and comparisons take numbers, equality takes operands of one kind, and the connectives take booleans
and look at the right operand only if the left one leaves the result open.

## Main definitions

* `Bella.UnaryOp`, `Bella.BinaryOp`: the operators, with `symbol` and `ofSymbol?`.
* `Bella.ArithmeticOp.apply`, `Bella.ComparisonOp.apply`: what they compute on numbers.
-/

namespace Bella

/-- Operators on numbers that give numbers. -/
inductive ArithmeticOp where
  | add | sub | mul | div | rem | pow
deriving DecidableEq, Inhabited

/-- Operators on numbers that give booleans. -/
inductive ComparisonOp where
  | lt | gt | le | ge
deriving DecidableEq, Inhabited

/-- Operators on two values of one kind. -/
inductive EqualityOp where
  | eq | ne
deriving DecidableEq, Inhabited

/-- Operators on booleans that may leave the right operand alone. -/
inductive ConnectiveOp where
  | and | or
deriving DecidableEq, Inhabited

/-- Operators between two operands. -/
inductive BinaryOp where
  | arithmetic (op : ArithmeticOp)
  | comparison (op : ComparisonOp)
  | equality (op : EqualityOp)
  | connective (op : ConnectiveOp)
deriving DecidableEq, Inhabited

/-- Operators before one operand. -/
inductive UnaryOp where
  | negate | not
deriving DecidableEq, Inhabited

namespace ArithmeticOp

/-- The symbol in a program. -/
def symbol : ArithmeticOp → String
  | .add => "+"
  | .sub => "-"
  | .mul => "*"
  | .div => "/"
  | .rem => "%"
  | .pow => "**"

/-- The operator with the given symbol. -/
def ofSymbol? : String → Option ArithmeticOp
  | "+" => some .add
  | "-" => some .sub
  | "*" => some .mul
  | "/" => some .div
  | "%" => some .rem
  | "**" => some .pow
  | _ => none

/-- What the operator computes. -/
def apply : ArithmeticOp → Float → Float → Float
  | .add, a, b => a + b
  | .sub, a, b => a - b
  | .mul, a, b => a * b
  | .div, a, b => a / b
  | .rem, a, b => Number.remainder a b
  | .pow, a, b => Number.power a b

@[simp] theorem ofSymbol?_symbol (op : ArithmeticOp) : ofSymbol? op.symbol = some op := by
  cases op <;> rfl

end ArithmeticOp

namespace ComparisonOp

/-- The symbol in a program. -/
def symbol : ComparisonOp → String
  | .lt => "<"
  | .gt => ">"
  | .le => "<="
  | .ge => ">="

/-- The operator with the given symbol. -/
def ofSymbol? : String → Option ComparisonOp
  | "<" => some .lt
  | ">" => some .gt
  | "<=" => some .le
  | ">=" => some .ge
  | _ => none

/-- Whether the comparison holds; it never does if an operand is not a number. -/
def apply : ComparisonOp → Float → Float → Bool
  | .lt, a, b => a < b
  | .gt, a, b => b < a
  | .le, a, b => a ≤ b
  | .ge, a, b => b ≤ a

@[simp] theorem ofSymbol?_symbol (op : ComparisonOp) : ofSymbol? op.symbol = some op := by
  cases op <;> rfl

end ComparisonOp

namespace EqualityOp

/-- The symbol in a program. -/
def symbol : EqualityOp → String
  | .eq => "=="
  | .ne => "!="

/-- The operator with the given symbol. -/
def ofSymbol? : String → Option EqualityOp
  | "==" => some .eq
  | "!=" => some .ne
  | _ => none

/-- The result for operands that are equal or not. -/
def apply : EqualityOp → Bool → Bool
  | .eq, equal => equal
  | .ne, equal => !equal

@[simp] theorem ofSymbol?_symbol (op : EqualityOp) : ofSymbol? op.symbol = some op := by
  cases op <;> rfl

end EqualityOp

namespace ConnectiveOp

/-- The symbol in a program. -/
def symbol : ConnectiveOp → String
  | .and => "&&"
  | .or => "||"

/-- The operator with the given symbol. -/
def ofSymbol? : String → Option ConnectiveOp
  | "&&" => some .and
  | "||" => some .or
  | _ => none

/-- The left operand that decides the result by itself; it is then the result. -/
def deciding : ConnectiveOp → Bool
  | .and => false
  | .or => true

@[simp] theorem ofSymbol?_symbol (op : ConnectiveOp) : ofSymbol? op.symbol = some op := by
  cases op <;> rfl

end ConnectiveOp

namespace BinaryOp

/-- The symbol in a program. -/
def symbol : BinaryOp → String
  | .arithmetic op => op.symbol
  | .comparison op => op.symbol
  | .equality op => op.symbol
  | .connective op => op.symbol

/-- The operator with the given symbol. -/
def ofSymbol? (s : String) : Option BinaryOp :=
  ((ArithmeticOp.ofSymbol? s).map .arithmetic)
    <|> ((ComparisonOp.ofSymbol? s).map .comparison)
    <|> ((EqualityOp.ofSymbol? s).map .equality)
    <|> ((ConnectiveOp.ofSymbol? s).map .connective)

@[simp] theorem ofSymbol?_symbol (op : BinaryOp) : ofSymbol? op.symbol = some op := by
  rcases op with op | op | op | op <;> cases op <;> rfl

end BinaryOp

namespace UnaryOp

/-- The symbol in a program. -/
def symbol : UnaryOp → String
  | .negate => "-"
  | .not => "!"

/-- The operator with the given symbol. -/
def ofSymbol? : String → Option UnaryOp
  | "-" => some .negate
  | "!" => some .not
  | _ => none

@[simp] theorem ofSymbol?_symbol (op : UnaryOp) : ofSymbol? op.symbol = some op := by
  cases op <;> rfl

end UnaryOp
end Bella
