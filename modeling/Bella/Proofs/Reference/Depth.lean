import Bella.Proofs.Reference.Basic

/-!
# Enough depth is enough

A tree that has a meaning at some depth has the same meaning at every greater depth: what is
evaluated with more depth for its parts answers wherever it answered before, and answers the same.
So a program that ends at one depth ends so from there on.

## Main definitions

* `Bella.Reference.Meaning.Below`, `Bella.Reference.Action.Below`: one answers as the other does
  wherever it answers.

## Main results

* `Bella.Reference.eval_below_succ`, `Bella.Reference.exec_below_succ`: one more depth.
* `Bella.Reference.yields_of_run`: a program that ends at some depth.
-/

namespace Bella.Reference

variable {α β : Type}

/-! ### Meanings -/

/-- The second meaning is the first one, if there is a first one. -/
def Meaning.Below (y y' : Meaning α) : Prop := ∀ r, y = some r → y' = some r

namespace Meaning.Below

theorem refl (y : Meaning α) : y.Below y := fun _ h => h

theorem none (y : Meaning α) : Meaning.Below Option.none y := nofun

theorem bind {y y' : Meaning α} {f f' : α → Meaning β} (hy : y.Below y')
    (hf : ∀ a, (f a).Below (f' a)) : (y >>= f).Below (y' >>= f') := by
  intro r hr
  cases hq : y with
  | none =>
    rw [hq] at hr
    cases hr
  | some q =>
    rw [hq] at hr
    rw [hy q hq]
    cases q with
    | ok a => exact hf a r hr
    | error e => exact hr

theorem mapM {f f' : α → Meaning β} (hf : ∀ a, (f a).Below (f' a)) (as : List α) :
    Meaning.Below (as.mapM f) (as.mapM f') := by
  induction as with
  | nil => exact .refl _
  | cons a as ih =>
    rw [List.mapM_cons, List.mapM_cons]
    exact .bind (hf a) fun b => .bind ih fun bs => .refl _

end Meaning.Below

/-! ### Expressions -/

/-- A valuation that answers as another one does wherever that one answers. -/
def Valuation.Below (ν ν' : Valuation) : Prop := ∀ here σ n, (ν here σ n).Below (ν' here σ n)

section Expressions

variable {ν ν' : Valuation} (hν : ν.Below ν') (here : Option Location) (σ : Scope)
include hν

theorem callClosure_below (name : String) (c : Closure) (arguments : List Value) :
    (callClosure ν here σ name c arguments).Below (callClosure ν' here σ name c arguments) := by
  unfold callClosure
  split
  · exact .refl _
  · split
    · exact .refl _
    · exact hν here _ c.body

/-- One node, whose parts may answer more often. -/
theorem evalNode_below (n : Node) : (evalNode ν here σ n).Below (evalNode ν' here σ n) := by
  unfold evalNode
  split
  · exact .refl _
  · split
    · -- an operator before its operand
      split
      · exact .refl _
      · exact .bind (hν here σ _) fun v => .refl _
    · -- an operator between its operands
      split
      · exact .refl _
      · refine .bind (hν here σ _) fun v => .bind (.refl _) fun b => ?_
        split
        · exact .refl _
        · exact .bind (hν here σ _) fun w => .refl _
      · exact .bind (hν here σ _) fun v => .bind (hν here σ _) fun w => .refl _
    · -- a conditional
      exact .bind (hν here σ _) fun v => .bind (.refl _) fun b => hν here σ _
    · -- an array
      exact .bind (.mapM (hν here σ) _) fun vs => .refl _
    · -- a subscript
      exact .bind (hν here σ _) fun v => .bind (hν here σ _) fun i => .refl _
    · -- a call
      refine .bind (.refl _) fun callee => ?_
      split
      · exact .bind (.mapM (hν here σ) _) fun vs => callClosure_below hν here σ _ _ vs
      · exact .bind (.mapM (hν here σ) _) fun vs => .refl _
      · exact .refl _
    · exact .refl _
  · exact .refl _

end Expressions

theorem eval_below_succ (depth : Nat) : (eval depth).Below (eval (depth + 1)) := by
  induction depth with
  | zero => exact fun here σ n => .none _
  | succ depth ih => exact fun here σ n => evalNode_below ih (place here n) σ n

/-! ### Actions -/

/-- The second action does what the first one does, if the first one does anything. -/
def Action.Below (y y' : Action α) : Prop := ∀ s r, y s = some r → y' s = some r

namespace Action.Below

theorem refl (y : Action α) : y.Below y := fun _ _ h => h

theorem none (y : Action α) : Action.Below (fun _ => Option.none) y := nofun

theorem bind {y y' : Action α} {f f' : α → Action β} (hy : y.Below y')
    (hf : ∀ a, (f a).Below (f' a)) : (y >>= f).Below (y' >>= f') := by
  intro s r hr
  rw [Action.bind_apply] at hr ⊢
  cases hq : y s with
  | none =>
    rw [hq] at hr
    cases hr
  | some q =>
    rw [hq] at hr
    rw [hy s q hq]
    obtain ⟨q, t⟩ := q
    cases q with
    | ok a => exact hf a t r hr
    | error e => exact hr

theorem forM {f f' : α → Action Unit} (hf : ∀ a, (f a).Below (f' a)) (as : List α) :
    Action.Below (as.forM f) (as.forM f') := by
  induction as with
  | nil => exact .refl _
  | cons a as ih => exact .bind (hf a) fun _ => ih

theorem eval {ν ν' : Valuation} (hν : ν.Below ν') (here : Option Location) (n : Node) :
    (Action.eval ν here n).Below (Action.eval ν' here n) := by
  intro s r hr
  obtain ⟨q, hq, rfl⟩ := Option.map_eq_some_iff.mp hr
  exact Option.map_eq_some_iff.mpr ⟨q, hν here s.scope n q hq, rfl⟩

/-- A loop may make more passes. -/
theorem repeatWhile {test test' : Action Bool} {body body' : Action Unit} (htest : test.Below test')
    (hbody : body.Below body') (passes : Nat) :
    (Action.repeatWhile test body passes).Below (Action.repeatWhile test' body' (passes + 1)) := by
  induction passes with
  | zero => exact .none _
  | succ passes ih =>
    refine .bind htest fun b => ?_
    cases b with
    | true => exact .bind hbody fun _ => ih
    | false => exact .refl _

end Action.Below

/-! ### Statements and programs -/

/-- One statement, whose parts may answer more often. -/
theorem execNode_below {ν ν' : Valuation} (hν : ν.Below ν')
    {ε ε' : Option Location → Node → Action Unit} (hε : ∀ here n, (ε here n).Below (ε' here n))
    (passes : Nat) (here : Option Location) (n : Node) :
    (execNode ν ε passes here n).Below (execNode ν' ε' (passes + 1) here n) := by
  unfold execNode
  split
  · split
    · -- a block
      exact .forM (hε here) _
    · -- the declaration of a variable
      exact .bind (.eval hν here _) fun v => .refl _
    · -- the declaration of a function, whose body is not evaluated
      exact .refl _
    · -- an assignment
      exact .bind (.eval hν here _) fun v => .refl _
    · -- a print statement
      exact .bind (.eval hν here _) fun v => .refl _
    · -- a loop
      have htest := Action.Below.eval hν here
      exact .repeatWhile (.bind (htest _) fun v => .refl _) (hε here _) passes
    · exact .refl _
  · exact .refl _

theorem exec_below_succ (depth : Nat) (here : Option Location) (n : Node) :
    (exec depth here n).Below (exec (depth + 1) here n) := by
  induction depth generalizing here n with
  | zero => exact .none _
  | succ depth ih => exact execNode_below (eval_below_succ depth) ih depth (place here n) n

theorem execProgram_below_succ (depth : Nat) (program : Node) :
    (execProgram depth program).Below (execProgram (depth + 1) program) := by
  unfold execProgram
  split
  · exact .forM (exec_below_succ depth _) _
  · exact .refl _

/-- A program that ends at some depth ends so at all greater depths. -/
theorem yields_of_run {depth : Nat} {prelude : Map} {declared : Nat} {program : Node}
    {r : Except Error Unit} {s : State} (h : run depth prelude declared program = some (r, s)) :
    Yields prelude declared program r s := by
  refine ⟨depth, fun depth' hdepth => ?_⟩
  induction hdepth with
  | refl => exact h
  | step _ ih => exact execProgram_below_succ _ program _ _ ih

end Bella.Reference
