import Bella.Operator
import Bella.Value.Basic

/-!
# Errors

An error of the language has a cause, and it may have the location of the innermost node that knew
its position. Causes fall into kinds, under which a program's caller can tell them apart, and each
cause has its message.

A tree may also be so badly shaped that the evaluator stops without an error of the language,
because it lacks operands that the construct is built on, and so may a numeral that holds something
else than a text. Such a defect has a message but neither a kind nor a location.

## Main definitions

* `Bella.Cause`, `Bella.Cause.kind`, `Bella.Cause.message`: what went wrong.
* `Bella.Error`, `Bella.Error.locate`, `Bella.Error.message`: a cause with its location.
* `Bella.Defect`: nodes that the evaluator cannot take apart.
-/

namespace Bella

/-- The kinds of errors. -/
inductive ErrorKind where
  | malformed | duplicateBinding | unboundName | typeMismatch | arityMismatch | indexOutOfRange
  | unknownOperator | stackOverflow
deriving DecidableEq, Inhabited

/-- The name of a kind of errors. -/
def ErrorKind.name : ErrorKind → String
  | .malformed => "RuntimeError"
  | .duplicateBinding => "DuplicateBinding"
  | .unboundName => "UnboundName"
  | .typeMismatch => "TypeMismatch"
  | .arityMismatch => "ArityMismatch"
  | .indexOutOfRange => "IndexOutOfRange"
  | .unknownOperator => "UnknownOperator"
  | .stackOverflow => "StackOverflow"

/-- The constructs that have a fixed number of parts. -/
inductive Construct where
  | declaration | assignment | function | print | loop | call
deriving DecidableEq, Inhabited

/-- A construct as messages name it. -/
def Construct.name : Construct → String
  | .declaration => "variable declaration"
  | .assignment => "assignment"
  | .function => "function declaration"
  | .print => "print statement"
  | .loop => "while statement"
  | .call => "call expression"

/-- What a name is declared as. -/
inductive Declared where
  | variable | function
deriving DecidableEq, Inhabited

/-- What a name is declared as, at the start of a message. -/
def Declared.name : Declared → String
  | .variable => "Variable"
  | .function => "Function"

/-- What went wrong. -/
inductive Cause where
  /-- Something other than a program was to be interpreted. -/
  | notProgram (got : Node)
  /-- Something other than a tree stands where a statement belongs. -/
  | notStatement (got : Node)
  /-- Something other than a block stands under a program. -/
  | notBlock (got : Node)
  /-- A plain value or list stands where an expression belongs. -/
  | notExpression (got : Node)
  /-- The label is that of no statement. -/
  | unknownStatement (label : String)
  /-- The label is that of no expression. -/
  | unknownExpression (label : String)
  /-- The type is that of no expression. -/
  | unknownToken (type text : String)
  /-- A program has no child or several. -/
  | blockCount
  /-- A construct has the wrong number of parts. -/
  | wrongParts (construct : Construct)
  /-- Something other than a list of parameters follows a function's name. -/
  | wrongParameters (got : Node)
  /-- Something other than a list of arguments follows a callee. -/
  | wrongArguments (got : Node)
  /-- Something other than a name stands where `role` belongs. -/
  | notIdentifier (role : String)
  /-- The text of a numeral spells no number. -/
  | wrongNumeral (text : String)
  /-- A token in the place of the text of a numeral spells no number. -/
  | wrongContents (got : Node)
  /-- The name is bound in the same frame already. -/
  | alreadyDeclared (name : String) (what : Declared)
  /-- No frame on the chain binds the name. -/
  | notDeclared (name : String)
  /-- The callee is no function. -/
  | notCallable (name : String) (got : Kind)
  /-- An argument of a builtin is no number. -/
  | notNumeric (builtin : String) (got : Kind)
  /-- The operands of an equality are of two kinds. -/
  | notComparable (op : EqualityOp) (left right : Kind)
  /-- The context takes numbers only. -/
  | needsNumber (context : String) (got : Kind)
  /-- The context takes booleans only. -/
  | needsBoolean (context : String) (got : Kind)
  /-- A subscript is infinite, fractional or not a number. -/
  | notIntegral (subscript : Float)
  /-- A subscripted value is no array. -/
  | notArray (got : Kind)
  /-- A function was to be printed. -/
  | functionPrinted
  /-- A plain value of the host was to be printed. -/
  | foreignPrinted (typeName : String)
  /-- A function was called with the wrong number of arguments. -/
  | wrongArity (name : String) (expected : Int) (got : Nat)
  /-- An integral subscript points outside the array. -/
  | outOfRange (index : Int) (length : Nat)
  /-- The symbol is that of no operator before an operand. -/
  | unknownUnary (symbol : String)
  /-- The symbol is that of no operator between operands. -/
  | unknownBinary (symbol : String)
  /-- Calls and expressions are nested too deeply; `limit` is the limit of the host. -/
  | nestedTooDeeply (limit : Nat)
deriving Inhabited

namespace Cause

/-- The kind of errors that a cause belongs to. -/
def kind : Cause → ErrorKind
  | .notProgram _ | .notStatement _ | .notBlock _ | .notExpression _ | .unknownStatement _
  | .unknownExpression _ | .unknownToken .. | .blockCount | .wrongParts _ | .wrongParameters _
  | .wrongArguments _ | .notIdentifier _ | .wrongNumeral _ | .wrongContents _ => .malformed
  | .alreadyDeclared .. => .duplicateBinding
  | .notDeclared _ => .unboundName
  | .notCallable .. | .notNumeric .. | .notComparable .. | .needsNumber .. | .needsBoolean ..
  | .notIntegral _ | .notArray _ | .functionPrinted | .foreignPrinted _ => .typeMismatch
  | .wrongArity .. => .arityMismatch
  | .outOfRange .. => .indexOutOfRange
  | .unknownUnary _ | .unknownBinary _ => .unknownOperator
  | .nestedTooDeeply _ => .stackOverflow

/-- A name in the quotes that messages put around it. -/
def quoted (name : String) : String := "'" ++ name ++ "'"

/-- The message, without any location. -/
def message : Cause → String
  | .notProgram got => "Expected a program, got " ++ got.headline
  | .notStatement got => "Expected a statement, got " ++ got.text
  | .notBlock got => "Expected a block, got " ++ got.headline
  | .notExpression got => "Expected an expression, got " ++ got.text
  | .unknownStatement label => "Unknown statement: " ++ label
  | .unknownExpression label => "Unknown expression: " ++ label
  | .unknownToken type text => "Unhandled token " ++ type ++ ":" ++ text
  | .blockCount => "Program must contain exactly one block"
  | .wrongParts construct => "Malformed " ++ construct.name
  | .wrongParameters got => "Malformed parameter list: " ++ got.text
  | .wrongArguments got => "Malformed argument list: " ++ got.text
  | .notIdentifier role => role ++ " must be an identifier"
  | .wrongNumeral text => "Malformed numeral " ++ Text.quote text
  | .wrongContents got => "Malformed numeral " ++ got.text
  | .alreadyDeclared name what => what.name ++ " " ++ quoted name ++ " already declared"
  | .notDeclared name => "Name " ++ quoted name ++ " not declared"
  | .notCallable name got => quoted name ++ " is not callable (got " ++ got.name ++ ")"
  | .notNumeric builtin got => builtin ++ " expects number arguments; got " ++ got.name
  | .notComparable op left right =>
    "Operator " ++ quoted op.symbol ++ " cannot compare " ++ left.name ++ " with " ++ right.name
  | .needsNumber context got => context ++ " expects a number; got " ++ got.name
  | .needsBoolean context got => context ++ " expects a boolean; got " ++ got.name
  | .notIntegral x => "Subscript must be an integer; got " ++ Number.Layout.literal.write x
  | .notArray got => "Subscripted expression must be an array; got " ++ got.name
  | .functionPrinted => "Cannot print a function value"
  | .foreignPrinted typeName => "Cannot print value of type " ++ typeName
  | .wrongArity name expected got =>
    "Function " ++ quoted name ++ " expects " ++ toString expected ++ " argument(s); got "
      ++ toString got ++ (if got < expected then " (too few)" else " (too many)")
  | .outOfRange index length =>
    "Index " ++ toString index ++ " out of range for array of length " ++ toString length
  | .unknownUnary symbol => "Unknown unary operator: " ++ symbol
  | .unknownBinary symbol => "Unknown binary operator: " ++ symbol
  | .nestedTooDeeply limit =>
    "Call nesting too deep (host recursion limit " ++ toString limit ++ " reached)"

end Cause

/-- The place that an error is reported at. -/
structure Location where
  /-- The line. -/
  line : Int
  /-- The column, if it is known. -/
  column : Option Int
deriving DecidableEq, Inhabited

/-- The place that a position gives, which needs a line. -/
def Position.location? (p : Position) : Option Location :=
  p.line.map fun line => ⟨line, p.column⟩

/-- The end of a message that gives the place. -/
def Location.text (l : Location) : String :=
  match l.column with
  | some column => " (line " ++ toString l.line ++ ", col " ++ toString column ++ ")"
  | none => " (line " ++ toString l.line ++ ")"

/-- An error of the language. -/
structure Error where
  /-- What went wrong. -/
  cause : Cause
  /-- Where it went wrong, if that is known. -/
  location : Option Location := none
deriving Inhabited

namespace Error

/-- The kind of an error. -/
def kind (e : Error) : ErrorKind := e.cause.kind

/-- The error seen from a node at position `p`: it keeps the location that it has and takes the
position of the node otherwise. -/
def locate (e : Error) (p : Position) : Error :=
  { e with location := e.location <|> p.location? }

/-- The message with the location at its end. -/
def message (e : Error) : String :=
  e.cause.message ++ (e.location.map Location.text).getD ""

end Error

/-- The ways in which the evaluator misses what a hollow node lacks: the children of a tree, or the
number in a numeral. -/
inductive HollowUse where
  /-- One of the children is picked. -/
  | pick
  /-- All of the children are named. -/
  | name
  /-- The children are gone through. -/
  | traverse
  /-- The children are counted. -/
  | count
  /-- What a numeral holds, which has the given type, is taken for a number. -/
  | convert (typeName : String)
  /-- The integer that a numeral holds is rounded to a finite number, and none is near it. -/
  | round
deriving DecidableEq, Inhabited

/-- A node that the evaluator cannot take apart. -/
inductive Defect where
  /-- A prefixed operator or its operand is missing. -/
  | noOperand
  /-- Some of the `expected` children are missing. -/
  | tooFew (expected got : Nat)
  /-- There are more children than the `expected` ones. -/
  | tooMany (expected : Nat)
  /-- What a hollow node lacks is used. -/
  | hollow (use : HollowUse)
deriving DecidableEq, Inhabited

/-- The message of a defect. -/
def Defect.message : Defect → String
  | .noOperand => "list index out of range"
  | .tooFew expected got =>
    "not enough values to unpack (expected " ++ toString expected ++ ", got " ++ toString got ++ ")"
  | .tooMany expected => "too many values to unpack (expected " ++ toString expected ++ ")"
  | .hollow .pick => "'NoneType' object is not subscriptable"
  | .hollow .name => "cannot unpack non-iterable NoneType object"
  | .hollow .traverse => "'NoneType' object is not iterable"
  | .hollow .count => "object of type 'NoneType' has no len()"
  | .hollow (.convert typeName) =>
    "float() argument must be a string or a real number, not '" ++ typeName ++ "'"
  | .hollow .round => "int too large to convert to float"

end Bella
