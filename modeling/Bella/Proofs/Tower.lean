import Bella.Proofs.Logged

/-!
# Deep trees

Arrays inside one another bring an expression as close to the end of the levels as one likes. The
levels that such a tower takes can be counted: five for every array, three for every block, and the
program and the statement around them have some of their own. So what an expression does in few
levels it does at the bottom of a tower in a program, which has many.

Trees without positions are enough for this. Nothing locates an error inside them, and the
constructs can be taken off one by one.

## Main definitions

* `Bella.Node.inArrays`, `Bella.Value.inArrays`: a node and a value inside arrays of one element.

## Main results

* `Bella.evalLogged_inArrays`: a tower takes five levels for each of its arrays.
* `Bella.execAll_tower_of_error`, `Bella.execAll_tower_of_ok`, `Bella.execAll_block`: the
  declaration of a tower, and a block around it.
* `Bella.outcome_interpretLogged`: the end of a program.
-/

namespace Bella

/-- The node inside so many arrays of one element. -/
def Node.inArrays : (depth : Nat) → Node → Node
  | 0, n => n
  | depth + 1, n => .array [inArrays depth n]

/-- The value inside so many arrays of one element. -/
def Value.inArrays : (depth : Nat) → Value → Value
  | 0, v => v
  | depth + 1, v => .array [inArrays depth v]

variable {need passes : Nat} {f : FrameId} {w v : World}

/-- A tower evaluates to the tower of what is at its bottom, where five levels fewer are left for
each array. -/
theorem evalLogged_inArrays (need levels depth : Nat) (n : Node) (f : FrameId) :
    evalLogged need (levels + 1 + 5 * depth) (n.inArrays depth) f =
      (do return (← evalLogged need (levels + 1) n f).inArrays depth) := by
  induction depth with
  | zero => exact (bind_pure _).symm
  | succ depth ih =>
    have hlevels : levels + 1 + 5 * (depth + 1) = (levels + 5 * depth) + 6 := by omega
    have hunlocated (m : Node) : (Node.array [m]).position.location? = none := rfl
    have hbelow : levels + 1 + 5 * depth = levels + 5 * depth + 1 := by omega
    rw [hbelow] at ih
    rw [hlevels, evalLogged, Node.inArrays, Run.within_of_unlocated (hunlocated _)]
    change evalArray (evalLogged need (levels + 5 * depth + 1)) f [n.inArrays depth] = _
    simp only [evalArray, evalAll, ih, bind_assoc, pure_bind, Value.inArrays]

/-! ### Around a tower -/

/-- The statements of a program have four levels fewer than the program. -/
private theorem execLogged_program (need passes levels : Nat) (ns : List Node) (f : FrameId) :
    execLogged need passes (levels + 4) (.program (.block ns)) f =
      execAll (execLogged need passes levels) f ns := by
  rw [execLogged, Run.within_of_unlocated rfl]
  exact bind_pure_unit

/-- The statements of a block have three levels fewer than the block. -/
theorem execAll_block (need passes levels : Nat) (ns : List Node) (f : FrameId) :
    execAll (execLogged need passes (levels + 4)) f [.block ns] =
      execAll (execLogged need passes (levels + 1)) f ns := by
  rw [execAll, execAll, execLogged, Run.within_of_unlocated rfl, bind_pure_unit]
  exact bind_pure_unit

/-- A declaration whose record can be written out. -/
private theorem execLogged_declaration {levels : Nat} (hneed : need ≤ levels + 1) (x : String)
    (e : Node) :
    execLogged need passes (levels + 4) (.declaration (.name x) e) f =
      (do
        let a ← evalLogged need (levels + 1) e f
        Run.declare f x a
        Run.note (.declared x)) := by
  rw [execLogged, Run.within_of_unlocated rfl]
  change (do
    (do
      let y ← Run.check (Check.identifier "Declared name" (.name x))
      let a ← evalLogged need (levels + 1) e f
      Run.declare f y a
      Run.note (.declared y))
    Run.writeOut need (levels + 1)) = _
  rw [Run.writeOut_of_le hneed]
  exact bind_pure_unit

section Declarations

variable {outer levels depth : Nat} (hlevels : outer = levels + 5 * depth + 4)
  (hneed : need + 3 ≤ outer) {n : Node} (x : String)
include hlevels hneed

private theorem execLogged_tower :
    execLogged need passes outer (.declaration (.name x) (n.inArrays depth)) f =
      (do
        let a ← evalLogged need (levels + 1) n f
        Run.declare f x (a.inArrays depth)
        Run.note (.declared x)) := by
  have hbelow : levels + 5 * depth + 1 = levels + 1 + 5 * depth := Nat.add_right_comm ..
  rw [hlevels, execLogged_declaration (by omega), hbelow, evalLogged_inArrays, bind_assoc]
  simp only [pure_bind]

/-- A tower whose bottom halts is not declared, and nothing is executed after it. -/
theorem execAll_tower_of_error (ns : List Node) {k : Halt}
    (h : (evalLogged need (levels + 1) n f).outcome w = .error k) :
    (execAll (execLogged need passes outer) f
      (.declaration (.name x) (n.inArrays depth) :: ns)).outcome w = .error k := by
  obtain ⟨v, hv⟩ := Run.outcome_eq_error_iff.mp h
  refine Run.outcome_eq_error_iff.mpr ⟨v, ?_⟩
  rw [execAll, Run.bind_apply, execLogged_tower hlevels hneed, Run.bind_apply, hv]

/-- A tower whose bottom has a value is declared, if the name is free. -/
theorem execAll_tower_of_ok {a : Value} (h : (evalLogged need (levels + 1) n f).outcome w = .ok a)
    (hfree : ((evalLogged need (levels + 1) n f).after w).store.binds f x = false) :
    (execAll (execLogged need passes outer) f
      [.declaration (.name x) (n.inArrays depth)]).outcome w = .ok () := by
  obtain ⟨v, hv⟩ := Run.outcome_eq_ok_iff.mp h
  rw [Run.after, hv] at hfree
  rw [Run.outcome, execAll, Run.bind_apply, execLogged_tower hlevels hneed, Run.bind_apply, hv]
  simp only [Run.bind_apply, Run.declare_apply, hfree, Bool.false_eq_true, if_false, Run.note_apply]
  rfl

end Declarations

/-- After a statement that succeeds the others are executed. -/
theorem outcome_execAll_cons {exec : Executor} {n : Node} (h : exec n f w = .ok () v)
    (ns : List Node) : (execAll exec f (n :: ns)).outcome w = (execAll exec f ns).outcome v := by
  rw [execAll, Run.outcome, Run.bind_apply, h]
  rfl

/-- The levels that the outermost statements of a program have. -/
def outermostLevels : Nat := programLevels - 4

/-- The world in which a program on a fresh frame starts if nothing has run before. -/
def freshWorld (o : Options) : World := (prepareFrame none (some o)).after {}

/-- A program ends as its statements do, but too deep a nesting leaves it as an error. -/
theorem outcome_interpretLogged {frame : Option FrameId} {options : Option Options}
    (hprepare : prepareFrame frame options w = .ok f v) (ns : List Node) :
    (interpretLogged need passes (.program (.block ns)) frame options).outcome w =
      ((execAll (execLogged need passes outermostLevels) f ns).outcome
        (v.noted (.interpreting (v.store.options f).scoping))).mapError Halt.leaveProgram := by
  have hlabel : (Node.program (.block ns)).label? = some StatementForm.program.label := rfl
  have hlevels : programLevels = outermostLevels + 4 := rfl
  rw [interpretLogged, Run.outcome, Run.outcome, Run.bind_apply, hprepare]
  simp only [interpretBy, hlabel, if_true, Run.bind_apply, Run.options_apply, Run.note_apply,
    Run.adaptExcept_apply, hlevels, execLogged_program]
  cases execAll _ _ _ _ <;> rfl

end Bella
