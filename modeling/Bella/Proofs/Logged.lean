import Bella.Proofs.Levels
import Bella.Proofs.Purity

/-!
# A handler changes nothing but what it cuts off

A run under a handler of records takes the steps of the run without one. It may only be cut off
where the levels do not suffice to write a record out. So it is below the run without the handler,
in the order on actions by levels: unless it runs out of levels it ends in the same way and in the
same world, with the same records.

## Main results

* `Bella.evalLogged_below`, `Bella.execLogged_below`: runs under a handler are below those without.
* `Bella.execLogged_zero`, `Bella.interpretLogged_zero`: what no handler changes.
-/

namespace Bella

/-! ### Writing records out -/

theorem Run.writeOut_of_le {need levels : Nat} (h : need ≤ levels) :
    writeOut need levels = pure () :=
  if_neg (Nat.not_lt.mpr h)

/-- To write a record out is to do nothing, unless there are too few levels. -/
theorem Run.writeOut_below (need levels : Nat) : (writeOut need levels).Below (pure ()) := by
  unfold writeOut
  split
  · exact fun _ => .inl rfl
  · exact .refl _

/-! ### Expressions and statements -/

/-- Corresponding nodes evaluate alike under handlers that do. The body of a function is evaluated
behind a record. -/
theorem Simulation.evalLogged_agrees (S : Simulation) {need need' : Nat}
    (hwrite : ∀ {levels w w'}, S.worlds w w' →
      S.Agrees Eq (Run.writeOut need levels) (Run.writeOut need' levels) w w') (levels : Nat) :
    S.Evaluates (evalLogged need levels) (evalLogged need' levels) := by
  induction levels using Nat.strongRecOn with
  | ind levels ih =>
    intro c n n' f f' w w' hn hscope hworlds
    match levels with
    | levels + 6 =>
      have hbody : S.Evaluates
          (fun e t => do Run.writeOut need levels; evalLogged need levels e t)
          (fun e t => do Run.writeOut need' levels; evalLogged need' levels e t) := by
        intro c e e' t t' w w' he ht hworlds
        refine .bind (hwrite hworlds) fun _ _ v v' _ hv hgrows => ?_
        exact ih levels (by omega) he (S.scope_grows ht hgrows) hv
      have hparts : S.PartsAgree
          { levels := levels + 2, operand := evalLogged need (levels + 2),
            element := evalLogged need (levels + 1), argument := evalLogged need levels,
            body := fun e t => do Run.writeOut need levels; evalLogged need levels e t }
          { levels := levels + 2, operand := evalLogged need' (levels + 2),
            element := evalLogged need' (levels + 1), argument := evalLogged need' levels,
            body := fun e t => do Run.writeOut need' levels; evalLogged need' levels e t } :=
        ⟨.inl rfl, ih _ (by omega), ih _ (by omega), ih _ (by omega), hbody⟩
      exact (evalNode_agrees hparts (S.shape hn) hscope hworlds).within
        (fun _ _ => S.halts_locate hn) fun _ => S.excused_locate _
    | 0 | 1 | 2 | 3 | 4 | 5 => exact .throw S.comparison.overflow hworlds

theorem evalLogged_zero (levels : Nat) : evalLogged 0 levels = eval levels := by
  induction levels using Nat.strongRecOn with
  | ind levels ih =>
    match levels with
    | levels + 6 =>
      funext n f
      simp only [evalLogged, eval, Run.writeOut_of_le (Nat.zero_le levels), pure_bind,
        ih levels (by omega), ih (levels + 1) (by omega), ih (levels + 2) (by omega)]
    | 0 | 1 | 2 | 3 | 4 | 5 => rfl

/-- An expression under a handler does what it does without, unless it runs out of levels. -/
theorem evalLogged_below (need levels : Nat) (n : Node) (f : FrameId) :
    (evalLogged need levels n f).Below (eval levels n f) := by
  rw [← evalLogged_zero]
  refine .of_agrees fun w => ?_
  refine levelsSimulation.evalLogged_agrees (fun {k v _} hv => ?_) levels (c := ()) rfl rfl rfl
  subst hv
  rw [Run.writeOut_of_le (Nat.zero_le k)]
  unfold Run.writeOut
  split
  · exact .excused rfl
  · exact .pure rfl rfl

/-- An expression under a handler extends a world without flat scoping, however it ends. -/
theorem World.IsLexical.evalLogged {w : World} (hw : w.IsLexical) (need levels : Nat) (n : Node)
    (f : FrameId) :
    w.Extends ((Bella.evalLogged need levels n f).after w) ∧
      ((Bella.evalLogged need levels n f).after w).IsLexical := by
  refine purity_after (purity.evalLogged_agrees ?_ levels (c := ()) rfl rfl ⟨rfl, hw⟩)
  rintro levels v _ ⟨rfl, hv⟩
  unfold Run.writeOut
  split
  · exact .error rfl ⟨rfl, hv⟩ ⟨rfl, rfl, id⟩
  · exact .pure rfl ⟨rfl, hv⟩

/-- A statement under a handler does what it does without, unless it runs out of levels. What it
leaves a record of, it has done before. -/
theorem execLogged_below (need passes levels : Nat) (n : Node) (f : FrameId) :
    (execLogged need passes levels n f).Below (exec passes levels n f) := by
  induction levels using Nat.strongRecOn generalizing n f with
  | ind levels ih =>
    match levels with
    | levels + 4 =>
      have hparts : StatementParts.Below
          { levels := levels + 1, statement := execLogged need passes (levels + 1),
            outermost := execLogged need passes levels,
            expression := evalLogged need (levels + 1) }
          { levels := levels + 1, statement := exec passes (levels + 1),
            outermost := exec passes levels, expression := eval (levels + 1) } :=
        ⟨Nat.le_refl _, ih _ (by omega), ih _ (by omega), evalLogged_below need _⟩
      have hwrite : Run.Below (if n.isNoted then Run.writeOut need (levels + 1) else pure ())
          (pure ()) := by
        split
        · exact Run.writeOut_below need _
        · exact .refl _
      have hnode := (execNode_below hparts f passes n).bind fun _ => hwrite
      rw [bind_pure_unit] at hnode
      exact hnode.within rfl
    | 0 | 1 | 2 | 3 => exact .overflow _

/-! ### No handler -/

theorem execLogged_zero (passes levels : Nat) :
    execLogged 0 passes levels = exec passes levels := by
  induction levels using Nat.strongRecOn with
  | ind levels ih =>
    match levels with
    | levels + 4 =>
      funext n f
      simp only [execLogged, exec, Run.writeOut_of_le (Nat.zero_le _), ite_self, bind_pure_unit,
        ih levels (by omega), ih (levels + 1) (by omega), evalLogged_zero]
    | 0 | 1 | 2 | 3 => rfl

/-- Without a handler a program runs as it does. -/
theorem interpretLogged_zero (passes : Nat) (program : Node) (frame : Option FrameId)
    (options : Option Options) :
    interpretLogged 0 passes program frame options = interpret passes program frame options := by
  simp only [interpretLogged, execLogged_zero]
  rfl

end Bella
