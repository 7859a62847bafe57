/-!
# Forms of nodes

A tree says by its label which construct it is, and a token says so by its type. Labels and types
outside the lists below belong to no construct.

## Main definitions

* `Bella.StatementForm`, `Bella.ExpressionForm`: the constructs that trees stand for.
* `Bella.TokenForm`: the expressions that tokens stand for.
-/

namespace Bella

/-- The constructs that are executed. -/
inductive StatementForm where
  | program | block | declaration | function | assignment | print | loop
deriving DecidableEq, Inhabited

/-- The constructs that are evaluated and have operands. -/
inductive ExpressionForm where
  | unary | binary | conditional | array | subscript | call
deriving DecidableEq, Inhabited

/-- The constructs that are evaluated and have none. -/
inductive TokenForm where
  | numeral | true | false | name
deriving DecidableEq, Inhabited

namespace StatementForm

/-- The label of the trees of this form. -/
def label : StatementForm → String
  | .program => "program"
  | .block => "block"
  | .declaration => "vardecl"
  | .function => "fundecl"
  | .assignment => "assign"
  | .print => "printstmt"
  | .loop => "whilestmt"

/-- The form of the trees with a given label. -/
def ofLabel? : String → Option StatementForm
  | "program" => some .program
  | "block" => some .block
  | "vardecl" => some .declaration
  | "fundecl" => some .function
  | "assign" => some .assignment
  | "printstmt" => some .print
  | "whilestmt" => some .loop
  | _ => none

@[simp] theorem ofLabel?_label (form : StatementForm) : ofLabel? form.label = some form := by
  cases form <;> rfl

end StatementForm

namespace ExpressionForm

/-- The label of the trees of this form. -/
def label : ExpressionForm → String
  | .unary => "unary"
  | .binary => "binary"
  | .conditional => "conditional"
  | .array => "array"
  | .subscript => "subscript"
  | .call => "call"

/-- The form of the trees with a given label. -/
def ofLabel? : String → Option ExpressionForm
  | "unary" => some .unary
  | "binary" => some .binary
  | "conditional" => some .conditional
  | "array" => some .array
  | "subscript" => some .subscript
  | "call" => some .call
  | _ => none

@[simp] theorem ofLabel?_label (form : ExpressionForm) : ofLabel? form.label = some form := by
  cases form <;> rfl

end ExpressionForm

namespace TokenForm

/-- The type of the tokens of this form. -/
def type : TokenForm → String
  | .numeral => "NUMBER"
  | .true => "TRUE"
  | .false => "FALSE"
  | .name => "IDENT"

/-- The form of the tokens of a given type. -/
def ofType? : String → Option TokenForm
  | "NUMBER" => some .numeral
  | "TRUE" => some .true
  | "FALSE" => some .false
  | "IDENT" => some .name
  | _ => none

@[simp] theorem ofType?_type (form : TokenForm) : ofType? form.type = some form := by
  cases form <;> rfl

end TokenForm
end Bella
