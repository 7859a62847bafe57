import Bella.Form
import Bella.Number.Layout

/-!
# Program trees

A program reaches the evaluator as a tree whose leaves are tokens. A front end may hand over anything
in the place of a node, so plain values and lists are nodes too, and a tree may lack its children
altogether; the evaluator refuses them where they do not belong. Trees and tokens may carry the
position in the source from which they come.

## Main definitions

* `Bella.Node`: trees, tokens, and what may stand in their place.
* `Bella.Node.label?`, `Bella.Node.children`, `Bella.Node.position`: what a node says of itself.
* `Bella.Node.program`, `Bella.Node.binary` and so on: one constructor for every construct.
-/

namespace Bella

/-- A place in a source, as far as it is known. -/
structure Position where
  /-- The line. -/
  line : Option Int := none
  /-- The column. -/
  column : Option Int := none
deriving DecidableEq, Inhabited

/-- The position of a tree, which counts as unknown when the mark is void. -/
structure Mark where
  /-- The position as the front end noted it. -/
  position : Position := {}
  /-- Whether the note is to be disregarded. -/
  void : Bool := false
deriving DecidableEq, Inhabited

/-- Whether the front end made a note at all; if not, there is neither a line nor a column, and the
mark is not void. -/
def Mark.isMade (m : Mark) : Bool :=
  m.void || m.position.line.isSome || m.position.column.isSome

/-- A value that is neither a tree nor a token. -/
inductive Plain where
  /-- The absent value. -/
  | nothing
  /-- A truth value. -/
  | truth (b : Bool)
  /-- An integer. -/
  | whole (k : Int)
  /-- A number. -/
  | real (x : Float)
  /-- A text. -/
  | text (s : String)
deriving DecidableEq, Inhabited

/-- The tokens that front ends make of anything that they are handed as an operator or a number. -/
inductive LooseToken where
  | operator | numeral
deriving DecidableEq, Inhabited

/-- The type of operator tokens. -/
def Node.operatorType : String := "OP"

/-- The type of these tokens. -/
def LooseToken.type : LooseToken → String
  | .operator => Node.operatorType
  | .numeral => TokenForm.numeral.type

/-- What a front end hands to the evaluator. Labels, types and the names that tokens hold are texts;
an operator or a numeral may hold something else. -/
inductive Node where
  /-- A labelled tree. -/
  | tree (label : String) (children : List Node) (mark : Mark)
  /-- A labelled tree whose children are missing, not just none. -/
  | hollow (label : String) (mark : Mark)
  /-- A token with its type and text. -/
  | token (type : String) (text : String) (position : Position)
  /-- An operator or a numeral that holds something other than a text. -/
  | improper {loose : LooseToken} {position : Position} (held : Node)
  /-- A plain value in the place of a node. -/
  | plain (value : Plain)
  /-- A list in the place of a node. -/
  | list (items : List Node)
deriving Inhabited

namespace Node

/-! ### What a node says of itself -/

/-- Whether the node is a tree, with or without children. -/
def isTree : Node → Bool
  | .tree .. | .hollow .. => true
  | _ => false

/-- Whether the node is a token. -/
def isToken : Node → Bool
  | .token .. | .improper _ => true
  | _ => false

/-- The label of a tree. -/
def label? : Node → Option String
  | .tree label .. | .hollow label _ => some label
  | _ => none

/-- The children of a tree; there are none if they are missing. -/
def children : Node → List Node
  | .tree _ children _ => children
  | _ => []

/-- The type of a token. -/
def tokenType? : Node → Option String
  | .token type .. => some type
  | @improper loose _ _ => some loose.type
  | _ => none

/-- The position of a node, as far as it is known. -/
def position : Node → Position
  | .tree _ _ mark | .hollow _ mark => if mark.void then {} else mark.position
  | .token _ _ position | @improper _ position _ => position
  | _ => {}

/-- Whether the node is the absent value. -/
def isNothing : Node → Bool
  | .plain .nothing => true
  | _ => false

/-! ### Constructs -/

/-- A tree without position. -/
def ofLabel (label : String) (children : List Node) : Node := .tree label children {}

/-- A token without position. -/
def ofType (type text : String) : Node := .token type text {}

/-- A name, as an expression and wherever a construct holds a name. -/
def name (s : String) : Node := ofType TokenForm.name.type s

/-- The literal of a number. -/
def number (x : Float) : Node := ofType TokenForm.numeral.type (Number.Layout.literal.write x)

/-- The literal of a boolean. -/
def boolean : Bool → Node
  | true => ofType TokenForm.true.type "true"
  | false => ofType TokenForm.false.type "false"

/-- An operator symbol. -/
def operator (symbol : String) : Node := ofType operatorType symbol

/-- An operator before its operand. -/
def unary (symbol : String) (operand : Node) : Node :=
  ofLabel ExpressionForm.unary.label [operator symbol, operand]

/-- An operator between its operands. -/
def binary (left : Node) (symbol : String) (right : Node) : Node :=
  ofLabel ExpressionForm.binary.label [left, operator symbol, right]

/-- The expression that is one of two branches. -/
def conditional (test consequent alternate : Node) : Node :=
  ofLabel ExpressionForm.conditional.label [test, consequent, alternate]

/-- The array of some elements. -/
def array (elements : List Node) : Node := ofLabel ExpressionForm.array.label elements

/-- An element of an array. -/
def subscript (target index : Node) : Node :=
  ofLabel ExpressionForm.subscript.label [target, index]

/-- The label of the trees that hold the arguments of a call. -/
def argumentsLabel : String := "args"

/-- The label of the trees that hold the parameters of a function. -/
def parametersLabel : String := "paramlist"

/-- A call of the function bound to a name. -/
def call (callee : Node) (arguments : List Node) : Node :=
  ofLabel ExpressionForm.call.label [callee, ofLabel argumentsLabel arguments]

/-- A program, which is one block. -/
def program (body : Node) : Node := ofLabel StatementForm.program.label [body]

/-- Statements in order. -/
def block (statements : List Node) : Node := ofLabel StatementForm.block.label statements

/-- The declaration of a variable. -/
def declaration (name init : Node) : Node := ofLabel StatementForm.declaration.label [name, init]

/-- The declaration of a function. -/
def function (name : Node) (parameters : List Node) (body : Node) : Node :=
  ofLabel StatementForm.function.label [name, ofLabel parametersLabel parameters, body]

/-- An assignment to a variable. -/
def assignment (name value : Node) : Node := ofLabel StatementForm.assignment.label [name, value]

/-- A print statement. -/
def print (value : Node) : Node := ofLabel StatementForm.print.label [value]

/-- A loop that runs while its test holds. -/
def loop (test body : Node) : Node := ofLabel StatementForm.loop.label [test, body]

end Node
end Bella
