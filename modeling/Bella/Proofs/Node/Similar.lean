import Bella.Eval.Check
import Mathlib.Data.List.Forall2

/-!
# Nodes that differ in positions

Two nodes differ in positions alone if they are the same without any.

What is evaluated is taken apart one level at a time. So the same is said one level at a time, too:
similar nodes are the same but for their own positions and for their parts, which are related. A
relation under which nodes are similar is a similarity. Equality is one, and so is to differ in
positions alone; a statement about every similarity is one about both.

No text shows a position. So checks of similar nodes give the same result, or refuse them with
causes that differ in the positions of the nodes they show.

## Main definitions

* `Bella.Node.bare`, `Bella.Node.Repositioned`: nodes without positions, and with other ones.
* `Bella.Node.Similar`, `Bella.Node.IsSimilarity`: the same but for positions, one level at a time.
* `Bella.Cause.Similar`: causes that show related nodes.

## Main results

* `Bella.Node.isSimilarity_repositioned`: to differ in positions alone is a similarity.
* `Bella.Node.IsSimilarity.bare_eq`: and every similarity is contained in it.
* `Bella.Check.parameters_similar`: lists of parameters that are similar are refused alike.
* `Bella.Cause.Similar.message_eq`: causes that show similar nodes have one message.
-/

namespace Bella

/-- Related lists are related in another way if their members are. -/
theorem forall₂_of_mem {α β : Type} {R S : α → β → Prop} {as : List α} {bs : List β}
    (h : List.Forall₂ R as bs) (himp : ∀ a ∈ as, ∀ b, R a b → S a b) : List.Forall₂ S as bs := by
  have hmem : List.Forall₂ (fun a b => a ∈ as ∧ R a b) as bs :=
    (List.forall₂_and_left _ _).mpr ⟨fun _ ha => ha, h⟩
  exact hmem.imp fun a b hab => himp a hab.1 b hab.2

namespace Node

mutual

/-- The node without its positions. -/
def bare : Node → Node
  | .tree label children _ => .tree label (bareAll children) {}
  | .hollow label _ => .hollow label {}
  | .token type text _ => .token type text {}
  | @Node.improper loose _ held => @Node.improper loose {} held.bare
  | .plain value => .plain value
  | .list items => .list (bareAll items)

/-- Some nodes without their positions. -/
def bareAll : List Node → List Node
  | [] => []
  | n :: ns => n.bare :: bareAll ns

end

theorem bareAll_eq_map (ns : List Node) : bareAll ns = ns.map bare := by
  induction ns with
  | nil => rfl
  | cons n ns ih => rw [bareAll, ih, List.map_cons]

@[simp] theorem label?_bare (n : Node) : n.bare.label? = n.label? := by cases n <;> rfl

mutual

/-- Texts do not show positions. -/
@[simp] theorem text_bare (n : Node) : n.bare.text = n.text := by
  match n with
  | .tree label children m => simp only [bare, text, texts_bareAll children]
  | @Node.improper loose _ held => simp only [bare, text, text_bare held]
  | .list items => simp only [bare, text, texts_bareAll items]
  | .hollow .. | .token .. | .plain _ => simp only [bare, text]

theorem texts_bareAll (ns : List Node) : texts (bareAll ns) = texts ns := by
  match ns with
  | [] => rfl
  | n :: ns => rw [bareAll, texts, texts, text_bare n, texts_bareAll ns]

end

@[simp] theorem headline_bare (n : Node) : n.bare.headline = n.headline := by
  simp only [headline, label?_bare, text_bare]

@[simp] theorem symbolText_bare (n : Node) : n.bare.symbolText = n.symbolText := by
  match n with
  | .improper held => exact symbolText_bare held
  | .tree label children m => exact text_bare (.tree label children m)
  | .list items => exact text_bare (.list items)
  | .hollow .. | .token .. | .plain _ => rfl

/-- The nodes differ in positions alone. -/
def Repositioned (n n' : Node) : Prop := n.bare = n'.bare

theorem Repositioned.refl (n : Node) : n.Repositioned n := rfl

/-! ### Similar nodes -/

/-- Nodes that are the same but for their own positions and for their parts, which are related. -/
inductive Similar (ρ : Node → Node → Prop) : Node → Node → Prop
  | tree {ns ns' : List Node} (label : String) (m m' : Mark) (h : List.Forall₂ ρ ns ns') :
      Similar ρ (.tree label ns m) (.tree label ns' m')
  | hollow (label : String) (m m' : Mark) : Similar ρ (.hollow label m) (.hollow label m')
  | token (type text : String) (p p' : Position) :
      Similar ρ (.token type text p) (.token type text p')
  | improper {n n' : Node} (loose : LooseToken) (p p' : Position) (h : ρ n n') :
      Similar ρ (@Node.improper loose p n) (@Node.improper loose p' n')
  | plain (value : Plain) : Similar ρ (.plain value) (.plain value)
  | list {ns ns' : List Node} (h : List.Forall₂ ρ ns ns') : Similar ρ (.list ns) (.list ns')

/-- Related nodes are similar, and so are their parts. -/
def IsSimilarity (ρ : Node → Node → Prop) : Prop := ∀ ⦃n n' : Node⦄, ρ n n' → n.Similar ρ n'

theorem isSimilarity_eq : IsSimilarity Eq := by
  rintro n _ rfl
  cases n with
  | tree label ns m => exact .tree label m m (List.forall₂_same.mpr fun _ _ => rfl)
  | hollow label m => exact .hollow label m m
  | token type text p => exact .token type text p p
  | @improper loose p held => exact .improper loose p p rfl
  | plain value => exact .plain value
  | list ns => exact .list (List.forall₂_same.mpr fun _ _ => rfl)

/-- The nodes of two lists that are the same without positions are so one by one. -/
private theorem forall₂_of_bareAll {ns ns' : List Node} (h : bareAll ns = bareAll ns') :
    List.Forall₂ Repositioned ns ns' := by
  rw [bareAll_eq_map, bareAll_eq_map] at h
  have hbare : List.Forall₂ Eq (ns.map bare) (ns'.map bare) := List.forall₂_eq_eq_eq ▸ h
  rwa [List.forall₂_map_left_iff, List.forall₂_map_right_iff] at hbare

/-- To differ in positions alone is a similarity. -/
theorem isSimilarity_repositioned : IsSimilarity Repositioned := by
  intro n n' h
  unfold Repositioned at h
  cases n with
  | tree label ns m =>
    cases n' with
    | tree label' ns' m' =>
      simp only [bare, tree.injEq, and_true] at h
      obtain ⟨rfl, hns⟩ := h
      exact .tree label m m' (forall₂_of_bareAll hns)
    | hollow | token | improper | plain | list => cases h
  | hollow label m =>
    cases n' with
    | hollow label' m' =>
      cases h
      exact .hollow label m m'
    | tree | token | improper | plain | list => cases h
  | token type text p =>
    cases n' with
    | token type' text' p' =>
      cases h
      exact .token type text p p'
    | tree | hollow | improper | plain | list => cases h
  | @improper loose p held =>
    cases n' with
    | @improper loose' p' held' =>
      obtain ⟨rfl, -, hheld⟩ := improper.inj h
      exact .improper loose p p' hheld
    | tree | hollow | token | plain | list => cases h
  | plain value =>
    cases n' with
    | plain value' =>
      cases h
      exact .plain value
    | tree | hollow | token | improper | list => cases h
  | list ns =>
    cases n' with
    | list ns' => exact .list (forall₂_of_bareAll (list.inj h))
    | tree | hollow | token | improper | plain => cases h

namespace IsSimilarity

variable {ρ : Node → Node → Prop} {n n' : Node}

mutual

/-- Nodes that are related by a similarity differ in positions alone. -/
theorem bare_eq (hρ : IsSimilarity ρ) {n n' : Node} (h : ρ n n') : n.bare = n'.bare := by
  match n with
  | .tree label ns m =>
    cases hρ h with
    | tree _ _ _ hns => rw [bare, bare, bareAll_eq hρ hns]
  | .improper held =>
    cases hρ h with
    | improper _ _ _ hheld => rw [bare, bare, bare_eq hρ hheld]
  | .list ns =>
    cases hρ h with
    | list hns => rw [bare, bare, bareAll_eq hρ hns]
  | .hollow .. | .token .. | .plain _ =>
    cases hρ h
    rfl

theorem bareAll_eq (hρ : IsSimilarity ρ) {ns ns' : List Node} (h : List.Forall₂ ρ ns ns') :
    bareAll ns = bareAll ns' := by
  match ns with
  | [] =>
    cases h with
    | nil => rfl
  | n :: ns =>
    cases h with
    | cons hn hns => rw [bareAll, bareAll, bare_eq hρ hn, bareAll_eq hρ hns]

end

variable (hρ : IsSimilarity ρ)
include hρ

theorem text_eq (h : ρ n n') : n.text = n'.text := by
  rw [← text_bare n, hρ.bare_eq h, text_bare]

theorem headline_eq (h : ρ n n') : n.headline = n'.headline := by
  rw [← headline_bare n, hρ.bare_eq h, headline_bare]

theorem symbolText_eq (h : ρ n n') : n.symbolText = n'.symbolText := by
  rw [← symbolText_bare n, hρ.bare_eq h, symbolText_bare]

theorem label?_eq (h : ρ n n') : n.label? = n'.label? := by
  cases hρ h <;> rfl

theorem isNothing_eq (h : ρ n n') : n.isNothing = n'.isNothing := by
  cases hρ h <;> rfl

/-- The children of related nodes are related. -/
theorem children (h : ρ n n') : List.Forall₂ ρ n.children n'.children := by
  cases hρ h with
  | tree label m m' hns => exact hns
  | hollow | token | improper | plain | list => exact .nil

end IsSimilarity
end Node

/-! ### Checks -/

/-- Causes that are the same but for the nodes they show, which are related. -/
inductive Cause.Similar (ρ : Node → Node → Prop) : Cause → Cause → Prop
  | same (c : Cause) : Similar ρ c c
  | notProgram {n n' : Node} (h : ρ n n') : Similar ρ (.notProgram n) (.notProgram n')
  | notStatement {n n' : Node} (h : ρ n n') : Similar ρ (.notStatement n) (.notStatement n')
  | notBlock {n n' : Node} (h : ρ n n') : Similar ρ (.notBlock n) (.notBlock n')
  | notExpression {n n' : Node} (h : ρ n n') : Similar ρ (.notExpression n) (.notExpression n')
  | wrongParameters {n n' : Node} (h : ρ n n') :
      Similar ρ (.wrongParameters n) (.wrongParameters n')
  | wrongArguments {n n' : Node} (h : ρ n n') : Similar ρ (.wrongArguments n) (.wrongArguments n')
  | wrongContents {n n' : Node} (h : ρ n n') : Similar ρ (.wrongContents n) (.wrongContents n')

namespace Cause.Similar

variable {ρ : Node → Node → Prop} {c c' : Cause}

theorem kind_eq (h : c.Similar ρ c') : c.kind = c'.kind := by cases h <;> rfl

theorem message_eq (hρ : Node.IsSimilarity ρ) (h : c.Similar ρ c') : c.message = c'.message := by
  cases h with
  | same => rfl
  | notProgram h | notBlock h => exact congrArg (_ ++ ·) (hρ.headline_eq h)
  | notStatement h | notExpression h | wrongParameters h | wrongArguments h | wrongContents h =>
    exact congrArg (_ ++ ·) (hρ.text_eq h)

theorem eq_of_eq (h : c.Similar Eq c') : c = c' := by
  cases h with
  | same => rfl
  | notProgram h | notStatement h | notBlock h | notExpression h | wrongParameters h
  | wrongArguments h | wrongContents h => rw [h]

end Cause.Similar

namespace Check

variable {ρ : Node → Node → Prop} (hρ : Node.IsSimilarity ρ) {n n' : Node}
include hρ

/-- Similar nodes hold the same name. -/
theorem identifier_eq (role : String) (h : ρ n n') : identifier role n = identifier role n' := by
  cases hρ h <;> rfl

/-- Similar nodes list the same parameters, or are refused with similar causes. -/
theorem parameters_similar (h : ρ n n') :
    (∃ ps, parameters n = .ok ps ∧ parameters n' = .ok ps) ∨
      ∃ c c', parameters n = .error c ∧ parameters n' = .error c' ∧ c.Similar ρ c' := by
  have hnames : n.children.mapM (identifier "Parameter") =
      n'.children.mapM (identifier "Parameter") := by
    have hchildren := hρ.children h
    generalize n.children = ns, n'.children = ns' at hchildren
    induction hchildren with
    | nil => rfl
    | cons hn _ ih => rw [List.mapM_cons, List.mapM_cons, identifier_eq hρ _ hn, ih]
  rw [parameters, parameters, hρ.isNothing_eq h, hρ.label?_eq h, hnames]
  split
  · exact .inl ⟨_, rfl, rfl⟩
  · split
    · cases n'.children.mapM (identifier "Parameter") with
      | ok ps => exact .inl ⟨ps, rfl, rfl⟩
      | error c => exact .inr ⟨c, c, rfl, rfl, .same c⟩
    · exact .inr ⟨_, _, rfl, rfl, .wrongParameters h⟩

end Check
end Bella
