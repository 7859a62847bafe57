import Bella.Proofs.Logged
import Bella.Proofs.Simulation.Invariant

/-!
# The lines before a cut

What has been printed stays printed, and an expression prints nothing. So when a run under a handler
is cut off, the run without the handler has printed the same lines up to there, and all lines that
it prints begin with them.

As an order this refines the order on actions by levels: an action that is cut off is below those
that print its lines first.

## Main definitions

* `Bella.World.PrintsOn`: a world has the lines of another one, and perhaps more after them.
* `Bella.Run.Silent`: an action prints nothing.
* `Bella.Run.CutShort`: an action is another one, or it is cut off where the other one goes on.

## Main results

* `Bella.evalLogged_silent`: expressions are silent under every handler.
* `Bella.execLogged_cutShort`: a statement under a handler is the statement, or is cut off.
* `Bella.interpretLogged_cases`: so is a program.
-/

namespace Bella

variable {α β : Type}

/-- The lines of the world `w` are the first ones of the world `v`. -/
def World.PrintsOn (w v : World) : Prop := w.printed.toList <+: v.printed.toList

namespace World.PrintsOn

variable {w v u : World}

theorem refl (w : World) : w.PrintsOn w := List.prefix_refl _

theorem of_eq (h : v.printed = w.printed) : w.PrintsOn v := ⟨[], by rw [List.append_nil, h]⟩

theorem trans (h : w.PrintsOn v) (h' : v.PrintsOn u) : w.PrintsOn u := List.IsPrefix.trans h h'

theorem linesTo (h : w.PrintsOn v) (sink : Sink) : w.linesTo sink <+: v.linesTo sink := by
  unfold World.linesTo
  exact List.IsPrefix.filterMap _ h

end World.PrintsOn

/-! ### Silent actions -/

namespace Run

/-- The action prints nothing, however it ends. -/
def Silent (x : Run α) : Prop := ∀ w, (x.after w).printed = w.printed

theorem Silent.bind {x : Run α} {g : α → Run β} (hx : x.Silent) (hg : ∀ a, (g a).Silent) :
    (x >>= g).Silent := fun w =>
  after_bind (P := fun v => v.printed = w.printed) (hx w) fun a v _ hv => (hg a v).trans hv

theorem Silent.check (r : Except Cause α) : (Run.check r).Silent := fun w => by rw [after_check]

theorem Silent.checkWithin (r : Option (Except Cause α)) : (Run.checkWithin r).Silent := fun w => by
  rw [after_checkWithin]

theorem Silent.declare (f : FrameId) (x : String) (a : Value) : (Run.declare f x a).Silent :=
  fun w => by
    rw [after, declare_apply]
    cases w.store.binds f x <;> rfl

theorem Silent.declareFunction (f : FrameId) (x : String) (ps : List String) (body : Node) :
    (Run.declareFunction f x ps body).Silent := fun w => by
  rw [after, declareFunction_apply]
  cases w.store.binds f x <;> rfl

theorem Silent.assign (f : FrameId) (x : String) (a : Value) : (Run.assign f x a).Silent :=
  fun w => by
    rw [after, assign_apply]
    cases w.store.resolve? f x <;> rfl

theorem Silent.writeOut (need levels : Nat) : (Run.writeOut need levels).Silent := fun w => by
  unfold Run.writeOut
  split <;> rfl

end Run

/-- Expressions print nothing. -/
def silence : Invariant where
  holds _ := True
  scope _ _ := True
  closures _ := True
  grows w v := v.printed = w.printed
  grows_refl _ := rfl
  grows_trans h h' := h'.trans h
  scope_grows _ _ := trivial
  lookup _ _ _ _ _ := trivial
  enter := by
    rintro x k vs f w - - - - -
    have hends := enterCall_ends (x := x) (k := k) (f := f) (P := fun v => v.printed = w.printed) rfl
      rfl (fun _ _ b (_ : b ∈ k.parameters.zip vs) _ hv _ => hv) fun _ _ hv => hv
    exact hends.mono (fun h => ⟨trivial, h.1, trivial⟩) fun h => ⟨trivial, h⟩

theorem evalLogged_silent (need levels : Nat) (n : Node) (f : FrameId) :
    (evalLogged need levels n f).Silent := by
  have hwrite {k : Nat} {v v' : World} (hv : silence.toSimulation.worlds v v') :
      silence.toSimulation.Agrees Eq (Run.writeOut need k) (Run.writeOut need k) v v' := by
    obtain ⟨rfl, -⟩ := hv
    unfold Run.writeOut
    split
    · exact .error rfl ⟨rfl, trivial⟩ rfl
    · exact .pure rfl ⟨rfl, trivial⟩
  intro w
  have hagrees := silence.toSimulation.evalLogged_agrees hwrite levels (c := ()) (n := n) (f := f)
    (w := w) rfl ⟨rfl, trivial⟩ ⟨rfl, trivial⟩
  exact hagrees.grows fun _ _ => id

/-! ### Actions that are cut off -/

/-- The action `x` does what `y` does, or it is cut off, and then `y` prints the lines of `x` first.
The lines that there were stay in any case. -/
structure Run.CutShort (x y : Run α) : Prop where
  prints : ∀ w : World, w.PrintsOn (y.after w)
  same : ∀ w, x w = y w ∨ x.outcome w = .error .overflow ∧ (x.after w).PrintsOn (y.after w)

namespace Run.CutShort

variable {x y : Run α}

theorem refl (hx : ∀ w : World, w.PrintsOn (x.after w)) : x.CutShort x := ⟨hx, fun _ => .inl rfl⟩

theorem of_silent (hx : x.Silent) : x.CutShort x := refl fun w => .of_eq (hx w)

/-- Silent actions are cut off before anything is printed. -/
theorem of_below (h : x.Below y) (hx : x.Silent) (hy : y.Silent) : x.CutShort y :=
  ⟨fun w => .of_eq (hy w), fun w => (h w).symm.imp_right fun hoverflow =>
    ⟨hoverflow, .of_eq ((hy w).trans (hx w).symm)⟩⟩

theorem bind {g g' : α → Run β} (h : x.CutShort y) (hg : ∀ a, (g a).CutShort (g' a)) :
    (x >>= g).CutShort (y >>= g') where
  prints w := after_bind (P := w.PrintsOn) (h.prints w) fun a v _ hv => hv.trans ((hg a).prints v)
  same w := by
    obtain hsame | ⟨hoverflow, hprints⟩ := h.same w
    · simp only [outcome, after, bind_apply, hsame]
      cases y w with
      | error k v => exact .inl rfl
      | ok a v => exact (hg a).same v
    · obtain ⟨v, hv⟩ := outcome_eq_error_iff.mp hoverflow
      rw [after, hv] at hprints
      refine .inr ⟨outcome_eq_error_iff.mpr ⟨v, bind_eq_of_error hv⟩, ?_⟩
      rw [after_congr (bind_eq_of_error hv : (x >>= g) w = (throw .overflow : Run β) v)]
      exact after_bind (P := v.PrintsOn) hprints fun a u _ hu => hu.trans ((hg a).prints u)

theorem within (h : x.CutShort y) (n : Node) : (Run.within n x).CutShort (Run.within n y) where
  prints w := by
    rw [after_within]
    exact h.prints w
  same w := by
    rw [after_within, after_within, within_apply, within_apply]
    obtain hsame | ⟨hoverflow, hprints⟩ := h.same w
    · rw [hsame]
      exact .inl rfl
    · obtain ⟨v, hv⟩ := outcome_eq_error_iff.mp hoverflow
      exact .inr ⟨outcome_eq_error_iff.mpr ⟨v, within_eq_error_iff.mpr ⟨_, hv, rfl⟩⟩, hprints⟩

end Run.CutShort

/-! ### Statements -/

/-- Executors and evaluators for the parts of a statement of which the first ones may be cut off. -/
structure StatementParts.CutShort (parts parts' : StatementParts) : Prop where
  levels : parts.levels = parts'.levels
  statement : ∀ n f, (parts.statement n f).CutShort (parts'.statement n f)
  outermost : ∀ n f, (parts.outermost n f).CutShort (parts'.outermost n f)
  expression : ∀ n f, (parts.expression n f).CutShort (parts'.expression n f)

private theorem fail_cutShort (c : Cause) : (Run.fail c : Run α).CutShort (Run.fail c) :=
  .of_silent fun _ => rfl

private theorem execAll_cutShort {exec exec' : Executor}
    (h : ∀ n f, (exec n f).CutShort (exec' n f)) (f : FrameId) (ns : List Node) :
    (execAll exec f ns).CutShort (execAll exec' f ns) := by
  induction ns with
  | nil => exact .of_silent fun _ => rfl
  | cons n ns ih => exact .bind (h n f) fun _ => ih

private theorem repeatWhile_cutShort {test test' : Run Bool} {body body' : Run Unit}
    (htest : test.CutShort test') (hbody : body.CutShort body') (passes done : Nat) :
    (repeatWhile test body passes done).CutShort (repeatWhile test' body' passes done) := by
  induction passes generalizing done with
  | zero => exact .of_silent fun _ => rfl
  | succ passes ih =>
    refine .bind htest fun b => ?_
    cases b with
    | true => exact .bind hbody fun _ => ih (done + 1)
    | false => exact .of_silent fun _ => rfl

section Forms

variable {parts parts' : StatementParts} (h : parts.CutShort parts') (f : FrameId)
include h

private theorem execBlock_cutShort (n : Node) :
    (execBlock parts.outermost f n).CutShort (execBlock parts'.outermost f n) := by
  unfold execBlock
  split
  · exact execAll_cutShort h.outermost f _
  · exact fail_cutShort _

private theorem execPrint_cutShort (e : Node) :
    (execPrint parts.levels parts.expression f [e]).CutShort
      (execPrint parts'.levels parts'.expression f [e]) := by
  rw [execPrint, execPrint, h.levels]
  refine .bind (h.expression e f) fun a => .bind (.of_silent (.checkWithin _)) fun line => ?_
  exact .refl fun w => ⟨[_], Array.toList_push.symm⟩

private theorem execLoop_cutShort (passes : Nat) (test body : Node) :
    (execLoop passes parts.statement parts.expression f [test, body]).CutShort
      (execLoop passes parts'.statement parts'.expression f [test, body]) := by
  have htest : (evalTest parts.expression f test).CutShort (evalTest parts'.expression f test) :=
    .bind (h.expression test f) fun _ => .of_silent (.check _)
  exact .bind (repeatWhile_cutShort htest (h.statement body f) passes 0) fun _ =>
    .of_silent fun _ => rfl

private theorem execForm_cutShort (passes : Nat) (form : StatementForm) (ns : List Node) :
    (execForm passes parts f form ns).CutShort (execForm passes parts' f form ns) := by
  cases form with
  | program =>
    match ns with
    | [body] => exact execBlock_cutShort h f body
    | [] | _ :: _ :: _ => exact fail_cutShort _
  | block => exact execAll_cutShort h.statement f ns
  | declaration =>
    match ns with
    | [_, e] =>
      exact .bind (.of_silent (.check _)) fun x => .bind (h.expression e f) fun a =>
        .of_silent (.bind (.declare f x a) fun _ _ => rfl)
    | [] | [_] | _ :: _ :: _ :: _ => exact fail_cutShort _
  | function =>
    match ns with
    | [_, _, body] =>
      exact .of_silent (.bind (.check _) fun x => .bind (.check _) fun ps =>
        .bind (.declareFunction f x ps body) fun _ _ => rfl)
    | [] | [_] | [_, _] | _ :: _ :: _ :: _ :: _ => exact fail_cutShort _
  | assignment =>
    match ns with
    | [_, e] =>
      exact .bind (.of_silent (.check _)) fun x => .bind (h.expression e f) fun a =>
        .of_silent (.assign f x a)
    | [] | [_] | _ :: _ :: _ :: _ => exact fail_cutShort _
  | print =>
    match ns with
    | [e] => exact execPrint_cutShort h f e
    | [] | _ :: _ :: _ => exact fail_cutShort _
  | loop =>
    match ns with
    | [test, body] => exact execLoop_cutShort h f passes test body
    | [] | [_] | _ :: _ :: _ :: _ => exact fail_cutShort _

private theorem execNode_cutShort (passes : Nat) (n : Node) :
    (execNode passes parts n f).CutShort (execNode passes parts' n f) := by
  unfold execNode
  split
  · split
    · exact execForm_cutShort h f passes _ _
    · exact fail_cutShort _
  · split
    · exact .of_silent fun w => by cases ‹StatementForm› <;> rfl
    · exact fail_cutShort _
  all_goals exact fail_cutShort _

end Forms

/-- A statement under a handler does what it does without, or it is cut off, and then the lines that
it prints without begin with those that it has printed. -/
theorem execLogged_cutShort (need passes levels : Nat) (n : Node) (f : FrameId) :
    (execLogged need passes levels n f).CutShort (exec passes levels n f) := by
  induction levels using Nat.strongRecOn generalizing n f with
  | ind levels ih =>
    match levels with
    | levels + 4 =>
      have hexpression (n : Node) (f : FrameId) :
          (evalLogged need (levels + 1) n f).CutShort (eval (levels + 1) n f) := by
        refine .of_below (evalLogged_below need _ n f) (evalLogged_silent need _ n f) ?_
        rw [← evalLogged_zero]
        exact evalLogged_silent 0 _ n f
      have hparts : StatementParts.CutShort
          { levels := levels + 1, statement := execLogged need passes (levels + 1),
            outermost := execLogged need passes levels,
            expression := evalLogged need (levels + 1) }
          { levels := levels + 1, statement := exec passes (levels + 1),
            outermost := exec passes levels, expression := eval (levels + 1) } :=
        ⟨rfl, ih _ (by omega), ih _ (by omega), hexpression⟩
      have hwrite : Run.CutShort (if n.isNoted then Run.writeOut need (levels + 1) else pure ())
          (pure ()) := by
        refine .of_below ?_ (fun w => ?_) fun _ => rfl
        · split
          · exact Run.writeOut_below need _
          · exact .refl _
        · split
          · exact Run.Silent.writeOut need _ w
          · rfl
      have hnode := (execNode_cutShort hparts f passes n).bind fun _ => hwrite
      rw [bind_pure_unit] at hnode
      exact hnode.within n
    | 0 | 1 | 2 | 3 => exact ⟨fun _ => .refl _, fun _ => .inl rfl⟩

/-- A program under a handler does what it does without, or it is cut off, and then the lines that
it prints without begin with those that it has printed. -/
theorem interpretLogged_cases (need passes : Nat) (program : Node) (frame : Option FrameId)
    (options : Option Options) (w : World) :
    interpretLogged need passes program frame options w = interpret passes program frame options w ∨
      (interpretLogged need passes program frame options).outcome w =
          .error (.error { cause := .nestedTooDeeply hostLimit }) ∧
        ((interpretLogged need passes program frame options).after w).PrintsOn
          ((interpret passes program frame options).after w) := by
  simp only [interpretLogged, interpret, interpretIn, interpretBy, Run.outcome, Run.after,
    Run.bind_apply]
  cases prepareFrame frame options w with
  | error h v => exact .inl rfl
  | ok f v =>
    by_cases hlabel : program.label? = some StatementForm.program.label
    · simp only [hlabel, if_true, Run.bind_apply, Run.options_apply, Run.note_apply,
        Run.adaptExcept_apply]
      obtain hsame | ⟨hoverflow, hprints⟩ := (execLogged_cutShort need passes programLevels program
        f).same (v.noted (.interpreting (v.store.options f).scoping))
      · rw [hsame]
        exact .inl rfl
      · obtain ⟨u, hu⟩ := Run.outcome_eq_error_iff.mp hoverflow
        rw [Run.after, Run.after, hu] at hprints
        rw [hu]
        refine .inr ⟨rfl, ?_⟩
        cases hplain : exec passes programLevels program f _ <;> simpa only [hplain] using hprints
    · simp only [hlabel, if_false, true_or]

end Bella
