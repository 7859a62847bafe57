import Bella.Node.Basic

/-!
# The nodes in a tree

The subtrees of a node are the node itself and the subtrees of its children. What an operator token
or a list holds in the place of a node is never evaluated and does not count.

A few trees are taken apart before anything else is looked at: the operators, the conditional and
the subscript by their children, and every construct by having children at all. Of a numeral what it
holds is taken, which may be a text, a number, or something that is neither. A node is complete if
all its subtrees can be taken apart in this way; it may be malformed in every other respect.

## Main definitions

* `Bella.Node.subtrees`: the nodes in a tree.
* `Bella.Node.hasParts`, `Bella.Node.IsComplete`: nodes that can be taken apart.

## Main results

* `Bella.Node.subtrees_subset`: the subtrees of a subtree are subtrees.
-/

namespace Bella.Node

mutual

/-- The node itself and the subtrees of its children. -/
def subtrees : Node → List Node
  | .tree label children m => .tree label children m :: subtreesAll children
  | n => [n]

/-- The subtrees of some nodes. -/
def subtreesAll : List Node → List Node
  | [] => []
  | n :: ns => subtrees n ++ subtreesAll ns

end

theorem subtreesAll_eq_flatMap (ns : List Node) : subtreesAll ns = ns.flatMap subtrees := by
  induction ns with
  | nil => rfl
  | cons n ns ih => rw [subtreesAll, ih, List.flatMap_cons]

theorem mem_subtrees_self (n : Node) : n ∈ n.subtrees := by
  cases n <;> exact List.mem_cons_self

/-- The subtrees of a child are subtrees. -/
theorem subtrees_subset_of_mem_children {n c : Node} (hc : c ∈ n.children) :
    c.subtrees ⊆ n.subtrees := by
  cases n with
  | tree label ns m =>
    intro d hd
    rw [subtrees, subtreesAll_eq_flatMap]
    exact List.mem_cons_of_mem _ (List.mem_flatMap_of_mem hc hd)
  | hollow | token | improper | plain | list => cases hc

mutual

/-- The subtrees of a subtree are subtrees. -/
theorem subtrees_subset {n m : Node} (hm : m ∈ n.subtrees) : m.subtrees ⊆ n.subtrees := by
  match n, hm with
  | .tree label ns mark, hm =>
    obtain rfl | hm := List.mem_cons.mp hm
    · exact List.Subset.refl _
    · exact List.subset_cons_of_subset _ (subtrees_subset_subtreesAll hm)
  | .hollow .., hm | .token .., hm | .improper _, hm | .plain _, hm | .list _, hm =>
    rw [List.mem_singleton.mp hm]
    exact List.Subset.refl _

theorem subtrees_subset_subtreesAll {ns : List Node} {m : Node} (hm : m ∈ subtreesAll ns) :
    m.subtrees ⊆ subtreesAll ns := by
  match ns, hm with
  | n :: ns, hm =>
    obtain hm | hm := List.mem_append.mp hm
    · exact List.subset_append_of_subset_left _ (subtrees_subset hm)
    · exact List.subset_append_of_subset_right _ (subtrees_subset_subtreesAll hm)

end

/-- A child is a subtree. -/
theorem mem_subtrees_of_mem_children {n c : Node} (hc : c ∈ n.children) : c ∈ n.subtrees :=
  subtrees_subset_of_mem_children hc (mem_subtrees_self c)

/-! ### Nodes that can be taken apart -/

/-- Whether a numeral that holds the node can be taken for a number, or refused for its text. -/
def isNumeric : Node → Bool
  | .plain (.whole k) => (Number.ofInt? k).isSome
  | .plain (.real _) | .plain (.truth _) | .plain (.text _) | .token .. | .improper _ => true
  | .plain .nothing | .tree .. | .hollow .. | .list _ => false

/-- Whether the node has the parts that are taken from a node of its label without looking whether
they are there, and the number or the text that is taken from a numeral. -/
def hasParts : Node → Bool
  | .tree label children _ =>
    match ExpressionForm.ofLabel? label with
    | some .unary => decide (2 ≤ children.length)
    | some .binary | some .conditional => decide (children.length = 3)
    | some .subscript => decide (children.length = 2)
    | some .array | some .call | none => true
  | .hollow label _ =>
    (ExpressionForm.ofLabel? label).isNone && (StatementForm.ofLabel? label).isNone
  | @Node.improper .numeral _ held => held.isNumeric
  | @Node.improper .operator _ _ | .token .. | .plain _ | .list _ => true

/-- Every node in the tree can be taken apart. -/
def IsComplete (n : Node) : Prop := ∀ m ∈ n.subtrees, m.hasParts = true

instance (n : Node) : Decidable n.IsComplete := inferInstanceAs (Decidable (∀ m ∈ n.subtrees, _))

end Bella.Node
