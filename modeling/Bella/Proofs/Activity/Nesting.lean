import Bella.Proofs.Activity.Statement

/-!
# Activities inside one another

An activity is the evaluation of a node or the execution of a statement, with the frame, the world
and the number of levels that it is given. While it goes on, others go on inside it: its parts, and
the body of the closure that it calls. So at every moment of a run the nodes that are being
evaluated or executed form a chain, in which the body of a closure lies inside the expression that
calls it.

## Main definitions

* `Bella.Activity`: an evaluation or an execution that is under way.
* `Bella.Activity.Part`, `Bella.Activity.Enters`: an activity that goes on inside another one, as a
  part of it or as the body of a closure.
* `Bella.Activity.Reaches`: the activities that go on inside another one at any depth, with the
  number of closures that have been entered on the way.

## Main results

* `Bella.Activity.halts_of_part`, `Bella.Activity.halts_of_enters`: what is inside an activity halts
  together with it.
* `Bella.Activity.halts_cases`: an activity halts with one inside it, or by itself.
* `Bella.Activity.Reaches.halts`: no activity catches the errors of those inside it.
-/

namespace Bella

/-! ### One level of evaluation -/

/-- The evaluators that an expression has for its parts. -/
def Parts.below (levels : Nat) : Parts :=
  { levels := levels + 2, operand := eval (levels + 2), element := eval (levels + 1),
    argument := eval levels, body := eval levels }

theorem eval_eq_within (levels : Nat) (n : Node) (f : FrameId) :
    eval (levels + 6) n f = Run.within n (evalNode (Parts.below levels) n f) := rfl

/-- A tree of a known form is evaluated as the form says. -/
theorem eval_form (levels : Nat) (form : ExpressionForm) (children : List Node) (m : Mark)
    (f : FrameId) :
    eval (levels + 6) (.tree form.label children m) f =
      Run.within (.tree form.label children m)
        (evalForm (Parts.below levels) f form children) := by
  rw [eval_eq_within]
  simp only [evalNode, ExpressionForm.ofLabel?_label]

theorem Parts.evaluator_below (levels : Nat) (r : Role) :
    (below levels).evaluator r = eval (levels + 6 - r.levels) := by
  cases r <;> rfl

/-- The executors and the evaluator that a statement has for its parts. -/
def StatementParts.below (passes levels : Nat) : StatementParts :=
  { levels := levels + 1, statement := exec passes (levels + 1), outermost := exec passes levels,
    expression := eval (levels + 1) }

theorem exec_eq_within (passes levels : Nat) (n : Node) (f : FrameId) :
    exec passes (levels + 4) n f =
      Run.within n (execNode passes (StatementParts.below passes levels) n f) := rfl

theorem StatementParts.executor_below (passes levels : Nat) (r : StatementRole) :
    (below passes levels).executor r = exec passes (levels + 4 - r.levels) := by
  cases r <;> rfl

namespace Run

variable {α : Type} {x : Run α} {n : Node} {w v : World} {h : Halt}

theorem within_eq_error_iff :
    within n x w = .error h v ↔ ∃ k, x w = .error k v ∧ h = k.locate n.position := by
  rw [within_apply]
  cases x w with
  | ok a u => simp
  | error k u =>
    simp only [EStateM.Result.error.injEq]
    constructor
    · rintro ⟨rfl, rfl⟩
      exact ⟨k, ⟨rfl, rfl⟩, rfl⟩
    · rintro ⟨_, ⟨rfl, rfl⟩, rfl⟩
      exact ⟨rfl, rfl⟩

theorem within_eq_ok_iff {a : α} : within n x w = .ok a v ↔ x w = .ok a v := by
  rw [within_apply]
  cases x w <;> simp

end Run

/-! ### Activities -/

/-- An evaluation or an execution that is under way. -/
inductive Activity where
  /-- A node is evaluated in a frame and a world, in so many levels. -/
  | evaluation (levels : Nat) (n : Node) (f : FrameId) (w : World)
  /-- A statement is executed, with so many passes for each loop. -/
  | execution (passes levels : Nat) (n : Node) (f : FrameId) (w : World)

namespace Activity

/-- The node that is evaluated or executed. -/
def node : Activity → Node
  | evaluation _ n _ _ | execution _ _ n _ _ => n

/-- The frame in which that is done. -/
def frame : Activity → FrameId
  | evaluation _ _ f _ | execution _ _ _ f _ => f

/-- The world at the start. -/
def world : Activity → World
  | evaluation _ _ _ w | execution _ _ _ _ w => w

/-- The activity halts and leaves the world `v` behind. -/
def Halts : Activity → Halt → World → Prop
  | evaluation levels n f w, h, v => eval levels n f w = .error h v
  | execution passes levels n f w, h, v => exec passes levels n f w = .error h v

/-- The activity `b` goes on as a part of another one, in the same frame. -/
inductive Part : Activity → Activity → Prop
  | expression {levels : Nat} {n e : Node} {f : FrameId} {w v : World} {r : Role}
      (h : ExpressionPart (.below levels) f w n r e v) :
      Part (.evaluation (levels + 6) n f w) (.evaluation (levels + 6 - r.levels) e f v)
  | statement {passes levels : Nat} {n s : Node} {f : FrameId} {w v : World} {r : StatementRole}
      (h : StatementPart passes (.below passes levels) f w n r s v) :
      Part (.execution passes (levels + 4) n f w) (.execution passes (levels + 4 - r.levels) s f v)
  | inner {passes levels : Nat} {n e : Node} {f : FrameId} {w v : World}
      (h : StatementExpression passes (.below passes levels) f w n e v) :
      Part (.execution passes (levels + 4) n f w) (.evaluation (levels + 1) e f v)

/-- The activity calls the closure `k` under the name `x`, with arguments that have led to the world
`v`. -/
inductive Calls : Activity → String → Closure → List Value → World → Prop
  | call {levels : Nat} {n : Node} {f : FrameId} {w v : World} {x : String} {k : Closure}
      {vs : List Value} (h : ExpressionCall (.below levels) f w n x k vs v) :
      Calls (.evaluation (levels + 6) n f w) x k vs v

/-- The activity `b` is the evaluation of the body of a closure that another one calls, in the frame
and the world in which the parameters are bound. -/
inductive Enters : Activity → Activity → Prop
  | body {levels : Nat} {n : Node} {f t : FrameId} {w v u : World} {x : String} {k : Closure}
      {vs : List Value} (hcall : ExpressionCall (.below levels) f w n x k vs v)
      (hentered : enterCall x k vs f v = .ok t u) :
      Enters (.evaluation (levels + 6) n f w) (.evaluation levels k.body t u)

variable {a b : Activity} {h : Halt} {v : World}

/-! ### Halting -/

/-- An activity halts with what a part of it halts with, seen from its node. -/
theorem halts_of_part (hpart : Part a b) (hb : b.Halts h v) :
    a.Halts (h.locate a.node.position) v := by
  cases hpart with
  | expression hpart =>
    rw [Halts, ← Parts.evaluator_below] at hb
    rw [Halts, eval_eq_within]
    exact Run.within_eq_error_iff.mpr ⟨h, hpart.evalNode_eq hb, rfl⟩
  | statement hpart =>
    rw [Halts, ← StatementParts.executor_below] at hb
    rw [Halts, exec_eq_within]
    exact Run.within_eq_error_iff.mpr ⟨h, hpart.execNode_eq hb, rfl⟩
  | inner hexpression =>
    rw [Halts, exec_eq_within]
    exact Run.within_eq_error_iff.mpr ⟨h, hexpression.execNode_eq hb, rfl⟩

/-- An activity halts with what the body of the closure that it calls halts with. -/
theorem halts_of_enters (henters : Enters a b) (hb : b.Halts h v) :
    a.Halts (h.locate a.node.position) v := by
  obtain ⟨hcall, hentered⟩ := henters
  have hbody := hcall.evalNode_eq
  rw [Run.bind_eq_of_ok hentered] at hbody
  rw [Halts, eval_eq_within]
  exact Run.within_eq_error_iff.mpr ⟨h, hbody.trans hb, rfl⟩

/-- An activity that calls a closure which cannot be entered halts. -/
theorem halts_of_calls {x : String} {k : Closure} {vs : List Value} {u : World}
    (hcalls : Calls a x k vs v) (hrefused : enterCall x k vs a.frame v = .error h u) :
    a.Halts (h.locate a.node.position) u := by
  obtain ⟨hcall⟩ := hcalls
  have hnode := hcall.evalNode_eq.trans (Run.bind_eq_of_error hrefused)
  rw [Halts, eval_eq_within]
  exact Run.within_eq_error_iff.mpr ⟨h, hnode, rfl⟩

/-- An activity halts with a part or the body of the closure that it calls, or by itself; then the
halt has no location before the node adds its own. -/
theorem halts_cases (ha : a.Halts h v) :
    (∃ b k, (Part a b ∨ Enters a b) ∧ b.Halts k v ∧ h = k.locate a.node.position) ∨
      ∃ k : Halt, k.IsBare ∧ h = k.locate a.node.position := by
  have hoverflow (p : Position) : ∃ k : Halt, k.IsBare ∧ Halt.overflow = k.locate p :=
    ⟨.overflow, nofun, rfl⟩
  match a, ha with
  | .evaluation (levels + 6) n f w, ha =>
    rw [Halts, eval_eq_within] at ha
    obtain ⟨k, hk, rfl⟩ := Run.within_eq_error_iff.mp ha
    cases evalNode_halts hk with
    | part hpart he =>
      rw [Parts.evaluator_below] at he
      exact .inl ⟨_, k, .inl (.expression hpart), he, rfl⟩
    | body hcall hentered hbody => exact .inl ⟨_, k, .inr (.body hcall hentered), hbody, rfl⟩
    | alone hbare => exact .inr ⟨k, hbare, rfl⟩
  | .execution passes (levels + 4) n f w, ha =>
    rw [Halts, exec_eq_within] at ha
    obtain ⟨k, hk, rfl⟩ := Run.within_eq_error_iff.mp ha
    cases execNode_halts hk with
    | part hpart hs =>
      rw [StatementParts.executor_below] at hs
      exact .inl ⟨_, k, .inl (.statement hpart), hs, rfl⟩
    | expression hexpression he => exact .inl ⟨_, k, .inl (.inner hexpression), he, rfl⟩
    | alone hbare => exact .inr ⟨k, hbare, rfl⟩
  -- With too few levels nothing is begun.
  | .evaluation 0 n f w, ha | .evaluation 1 n f w, ha | .evaluation 2 n f w, ha
  | .evaluation 3 n f w, ha | .evaluation 4 n f w, ha | .evaluation 5 n f w, ha
  | .execution passes 0 n f w, ha | .execution passes 1 n f w, ha
  | .execution passes 2 n f w, ha | .execution passes 3 n f w, ha =>
    cases ha
    exact .inr (hoverflow _)

/-! ### Nesting -/

/-- What is inside an activity has fewer levels. -/
def levels : Activity → Nat
  | evaluation levels _ _ _ | execution _ levels _ _ _ => levels

theorem levels_lt_of_part (hpart : Part a b) : b.levels < a.levels := by
  cases hpart with
  | @expression levels n e f w v r hpart =>
    cases r <;> simp only [Activity.levels, Role.levels] <;> omega
  | @statement passes levels n s f w v r hpart =>
    cases r <;> simp only [Activity.levels, StatementRole.levels] <;> omega
  | @inner passes levels n e f w v hexpression =>
    simp only [Activity.levels]
    omega

theorem levels_lt_of_enters (henters : Enters a b) : b.levels < a.levels := by
  obtain ⟨hcall, hentered⟩ := henters
  simp only [Activity.levels]
  omega

/-- The activities that go on inside another one at any depth. The number counts the closures that
are entered on the way, one inside the other. -/
inductive Reaches (a : Activity) : Nat → Activity → Prop
  | refl : Reaches a 0 a
  | part {depth : Nat} {b c : Activity} (hb : Reaches a depth b) (hc : Part b c) :
      Reaches a depth c
  | enters {depth : Nat} {b c : Activity} (hb : Reaches a depth b) (hc : Enters b c) :
      Reaches a (depth + 1) c

/-- No activity catches the errors of those inside it. -/
theorem Reaches.halts {depth : Nat} (hreaches : a.Reaches depth b) {e : Error}
    (hb : b.Halts (.error e) v) : ∃ e', a.Halts (.error e') v ∧ e'.cause = e.cause := by
  induction hreaches generalizing e with
  | refl => exact ⟨e, hb, rfl⟩
  | part _ hpart ih => exact ih (e := e.locate _) (halts_of_part hpart hb)
  | enters _ henters ih => exact ih (e := e.locate _) (halts_of_enters henters hb)

end Activity
end Bella
