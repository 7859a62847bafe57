import Bella.Node.Text

/-!
# Building program trees

A front end without a parser of its own can build trees construct by construct. The builders accept
loose material: a name may be a plain text or a name token, a number may be an integer, and the parts
of a block, an array or a call may come in anything that has elements. They refuse what cannot stand
in a tree, and they check nothing else.

## Main definitions

* `Bella.Build.Refusal`: why material cannot be used.
* `Bella.Build.name`, `Bella.Build.number`, `Bella.Build.call` and so on: one builder for every
  construct.
* `Bella.Build.recipes`: the builders by name, with the names of their parts.
-/

namespace Bella.Build

/-- Why material cannot be used. -/
inductive Refusal where
  /-- A token of another type stands where a name belongs. -/
  | wrongToken (type : String)
  /-- Something that is not a non-empty text stands where a name belongs. -/
  | wrongName (got : Node)
  /-- Something other than a number stands where a number belongs. -/
  | wrongNumber (got : Node)
  /-- The material for several parts has no elements. -/
  | noElements (got : Node)
  /-- No finite number is near the integer. -/
  | tooLarge
  /-- The material lacks the named parts. -/
  | missing (builder : String) (parts : List String)
  /-- There is material for more than the `expected` parts. -/
  | surplus (builder : String) (expected got : Nat)
deriving Inhabited

/-- Names in quotes, with commas between them and a word before the last. -/
def enumerate (names : List String) : String :=
  match names.map Text.quote with
  | [] => ""
  | [a] => a
  | [a, b] => a ++ " and " ++ b
  | quoted => Node.commas quoted.dropLast ++ ", and " ++ quoted.getLast?.getD ""

/-- A number of arguments in words. -/
def arguments (adjective : String) (n : Nat) : String :=
  toString n ++ adjective ++ " positional argument" ++ if n = 1 then "" else "s"

/-- The message of a refusal. -/
def Refusal.message : Refusal → String
  | .wrongToken type => "expected an IDENT token, got " ++ type
  | .wrongName got => "identifier name must be a non-empty string, got " ++ got.text
  | .wrongNumber got => "numeral expects a number, got " ++ got.text
  | .noElements got => "'" ++ got.typeName ++ "' object is not iterable"
  | .tooLarge => "int too large to convert to float"
  | .missing builder parts =>
    builder ++ "() missing " ++ arguments " required" parts.length ++ ": " ++ enumerate parts
  | .surplus builder expected got =>
    builder ++ "() takes " ++ arguments "" expected ++ " but " ++ toString got
      ++ if got = 1 then " was given" else " were given"

/-- Builds a node, or refuses to. -/
abbrev Builder := Except Refusal

/-! ### Material -/

/-- A name from a name token, which is kept with its position, or from a text. -/
def name : Node → Builder Node
  | .token type text position =>
    if type = TokenForm.name.type then .ok (.token type text position)
    else .error (.wrongToken type)
  | @Node.improper loose _ _ => .error (.wrongToken loose.type)
  | .plain (.text s) => if s.isEmpty then .error (.wrongName (.plain (.text s))) else .ok (.name s)
  | n => .error (.wrongName n)

/-- The characters of a text. -/
def characters (s : String) : List Node := s.toList.map fun c => .plain (.text c.toString)

/-- The elements of a list, or the characters of a text. -/
def elements : Node → Builder (List Node)
  | .list items => .ok items
  | .plain (.text s) | .token _ s _ => .ok (characters s)
  | .improper held => .ok (characters held.symbolText)
  | n => .error (.noElements n)

/-- An operator token; what it holds is not checked. -/
def operator : Node → Node
  | .plain (.text s) => .operator s
  | n => @Node.improper .operator {} n

/-! ### Statements -/

/-- A program. -/
def program (body : Node) : Builder Node := .ok (.program body)

/-- A block. -/
def block (statements : Node) : Builder Node := do return .block (← elements statements)

/-- The declaration of a variable. -/
def declaration (nameNode init : Node) : Builder Node := do return .declaration (← name nameNode) init

/-- The declaration of a function; the parameters are looked at before the name. -/
def function (nameNode parameters body : Node) : Builder Node := do
  let ps ← (← elements parameters).mapM name
  return .function (← name nameNode) ps body

/-- An assignment. -/
def assignment (nameNode value : Node) : Builder Node := do return .assignment (← name nameNode) value

/-- A print statement. -/
def print (value : Node) : Builder Node := .ok (.print value)

/-- A loop. -/
def loop (test body : Node) : Builder Node := .ok (.loop test body)

/-! ### Expressions -/

/-- The literal of the number nearest to the material. -/
def number : Node → Builder Node
  | .plain (.real x) => .ok (.number x)
  | .plain (.whole k) =>
    match Number.ofInt? k with
    | some x => .ok (.number x)
    | none => .error .tooLarge
  | n => .error (.wrongNumber n)

/-- The literal of a boolean, by what counts as true. -/
def boolean (n : Node) : Builder Node := .ok (.boolean n.isTruthy)

/-- An operator before its operand. -/
def unary (symbol operand : Node) : Builder Node :=
  .ok (.ofLabel ExpressionForm.unary.label [operator symbol, operand])

/-- An operator between its operands. -/
def binary (left symbol right : Node) : Builder Node :=
  .ok (.ofLabel ExpressionForm.binary.label [left, operator symbol, right])

/-- A conditional. -/
def conditional (test consequent alternate : Node) : Builder Node :=
  .ok (.conditional test consequent alternate)

/-- An array. -/
def array (items : Node) : Builder Node := do return .array (← elements items)

/-- An element of an array. -/
def subscript (target index : Node) : Builder Node := .ok (.subscript target index)

/-- A call; the name is looked at before the arguments. -/
def call (nameNode arguments : Node) : Builder Node := do
  let callee ← name nameNode
  return .call callee (← elements arguments)

/-! ### Builders by name -/

/-- What a builder makes of as many nodes as it has parts. -/
inductive Maker where
  | one (make : Node → Builder Node)
  | two (make : Node → Node → Builder Node)
  | three (make : Node → Node → Node → Builder Node)

/-- A builder with its name and the names of its parts. -/
structure Recipe where
  /-- The name of the builder. -/
  name : String
  /-- The names of its parts, in order. -/
  parts : List String
  /-- What it makes of them. -/
  maker : Maker

/-- Applies a builder to material, one node for each part. -/
def Recipe.apply (r : Recipe) (material : List Node) : Builder Node :=
  match r.maker, material with
  | .one make, [a] => make a
  | .two make, [a, b] => make a b
  | .three make, [a, b, c] => make a b c
  | _, _ =>
    if material.length < r.parts.length then
      .error (.missing r.name (r.parts.drop material.length))
    else .error (.surplus r.name r.parts.length material.length)

/-- All builders. -/
def recipes : List Recipe :=
  [ ⟨"program", ["body"], .one program⟩,
    ⟨"block", ["statements"], .one block⟩,
    ⟨"vardecl", ["name", "init"], .two declaration⟩,
    ⟨"fundecl", ["name", "params", "body"], .three function⟩,
    ⟨"assign", ["name", "value"], .two assignment⟩,
    ⟨"printstmt", ["value"], .one print⟩,
    ⟨"whilestmt", ["test", "body"], .two loop⟩,
    ⟨"numeral", ["value"], .one number⟩,
    ⟨"boolean", ["value"], .one boolean⟩,
    ⟨"ident", ["name"], .one name⟩,
    ⟨"unary", ["op", "operand"], .two unary⟩,
    ⟨"binary", ["left", "op", "right"], .three binary⟩,
    ⟨"conditional", ["test", "consequent", "alternate"], .three conditional⟩,
    ⟨"array", ["elements"], .one array⟩,
    ⟨"subscript", ["target", "index"], .two subscript⟩,
    ⟨"call", ["name", "args"], .two call⟩ ]

/-- The builder of a given name. -/
def recipe? (name : String) : Option Recipe := recipes.find? fun r => r.name == name

end Bella.Build
