import Bella.Node.Basic
import Bella.Text.Quoted

/-!
# Nodes as text

Messages show the node they complain about. Texts stand in quotes, trees and tokens show their label
or type and what they hold, and positions are not shown.

## Main definitions

* `Bella.Node.text`: the text of a node.
* `Bella.Node.symbolText`: the operator that a node in operator position spells.
* `Bella.Node.headline`: the text of the label of a tree, and of the whole node for anything else.
-/

namespace Bella

/-- The text of a plain value. -/
def Plain.shown : Plain → String
  | .nothing => "None"
  | .truth b => if b then "True" else "False"
  | .whole k => toString k
  | .real x => Number.Layout.literal.write x
  | .text s => Text.quote s

/-- The name of the type of a plain value. -/
def Plain.typeName : Plain → String
  | .nothing => "NoneType"
  | .truth _ => "bool"
  | .whole _ => "int"
  | .real _ => "float"
  | .text _ => "str"

namespace Node

/-- Texts in order, with commas between them. -/
def commas (texts : List String) : String := String.intercalate ", " texts

mutual

/-- The text of a node. -/
def text : Node → String
  | .tree label children _ =>
    "Tree(" ++ Text.quote label ++ ", [" ++ commas (texts children) ++ "])"
  | .hollow label _ => "Tree(" ++ Text.quote label ++ ", None)"
  | .token type text _ => "Token(" ++ Text.quote type ++ ", " ++ Text.quote text ++ ")"
  | @improper loose _ held => "Token(" ++ Text.quote loose.type ++ ", " ++ text held ++ ")"
  | .plain value => value.shown
  | .list items => "[" ++ commas (texts items) ++ "]"

/-- The texts of some nodes. -/
def texts : List Node → List String
  | [] => []
  | n :: ns => text n :: texts ns

end

/-- The operator that a node in operator position spells: a token or a plain text spells what it
holds, and any other node spells its text. -/
def symbolText : Node → String
  | .token _ text _ => text
  | .improper held => held.symbolText
  | .plain (.text s) => s
  | n => n.text

/-- The text of the label of a tree, unless that is empty, and of the whole node otherwise. -/
def headline (n : Node) : String :=
  match n.label? with
  | some label => if label.isEmpty then n.text else Text.quote label
  | none => n.text

/-- The name of the type of a node. -/
def typeName : Node → String
  | .tree .. | .hollow .. => "Tree"
  | .token .. | .improper _ => "Token"
  | .plain value => value.typeName
  | .list _ => "list"

/-- Whether a node counts as true where a truth value is wanted: the absent value, zero, and empty
texts, tokens and lists do not. -/
def isTruthy : Node → Bool
  | .tree .. | .hollow .. => true
  | .token _ text _ => !text.isEmpty
  | .improper held => !held.symbolText.isEmpty
  | .plain .nothing => false
  | .plain (.truth b) => b
  | .plain (.whole k) => k != 0
  | .plain (.real x) => !(x == 0)
  | .plain (.text s) => !s.isEmpty
  | .list items => !items.isEmpty

end Node
end Bella
