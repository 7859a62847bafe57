import Bella.Proofs.Activity.Nesting

/-!
# More levels change nothing

The levels that a run has left show in one way only: it halts when it needs more. So an action with
more levels for its parts does what it did with fewer, unless it ran out of them. This is an order on
actions, with running out of levels at the bottom, and every construct is monotone in it.

For expressions the order comes from the simulation of an evaluation by one with more levels.

## Main definitions

* `Bella.Run.Below`: one action does what another does, unless that one runs out of levels.

## Main results

* `Bella.Run.Below.bind`, `Bella.Run.Below.within`: sequences and locations are monotone.
* `Bella.eval_below`: expressions are monotone in the levels.
* `Bella.execNode_below`: statements are monotone in the executors and evaluators for their parts.
-/

namespace Bella

variable {α β : Type}

/-- The action `y` does what `x` does, unless `x` runs out of levels. -/
def Run.Below (x y : Run α) : Prop := ∀ w, x.outcome w = .error .overflow ∨ x w = y w

namespace Run.Below

theorem refl (x : Run α) : x.Below x := fun _ => .inr rfl

theorem overflow (y : Run α) : Run.Below (throw .overflow) y := fun _ => .inl rfl

theorem trans {x y z : Run α} (h : x.Below y) (h' : y.Below z) : x.Below z := by
  intro w
  obtain hoverflow | hsame := h w
  · exact .inl hoverflow
  · rw [outcome_congr hsame, hsame]
    exact h' w

/-- An action that does not run out of levels. -/
theorem eq_of_ne {x y : Run α} (h : x.Below y) {w : World}
    (hw : x.outcome w ≠ .error .overflow) : x w = y w :=
  (h w).resolve_left hw

/-- An action that gives a result. -/
theorem eq_ok {x y : Run α} (h : x.Below y) {w v : World} {a : α} (hx : x w = .ok a v) :
    y w = .ok a v := by
  rw [← h.eq_of_ne (outcome_eq_ok_iff.mpr ⟨v, hx⟩ ▸ nofun), hx]

theorem bind {x y : Run α} {g g' : α → Run β} (h : x.Below y) (hg : ∀ a, (g a).Below (g' a)) :
    (x >>= g).Below (y >>= g') := by
  intro w
  obtain hoverflow | hsame := h w
  · obtain ⟨v, hv⟩ := outcome_eq_error_iff.mp hoverflow
    exact .inl (outcome_eq_error_iff.mpr ⟨v, bind_eq_of_error hv⟩)
  · rw [outcome, bind_apply, bind_apply, ← hsame]
    cases x w with
    | error k v => exact .inr rfl
    | ok a v => exact hg a v

theorem within {x y : Run α} (h : x.Below y) {n n' : Node} (hposition : n.position = n'.position) :
    (Run.within n x).Below (Run.within n' y) := by
  intro w
  obtain hoverflow | hsame := h w
  · obtain ⟨v, hv⟩ := outcome_eq_error_iff.mp hoverflow
    exact .inl (outcome_eq_error_iff.mpr ⟨v, within_eq_error_iff.mpr ⟨_, hv, rfl⟩⟩)
  · rw [within_apply, within_apply, hsame, hposition]
    exact .inr rfl

theorem checkWithin {r r' : Option (Except Cause α)} (h : ∀ q, r = some q → r' = some q) :
    (Run.checkWithin r).Below (Run.checkWithin r') := by
  cases r with
  | none => exact .overflow _
  | some q =>
    rw [h q rfl]
    exact .refl _

end Run.Below

/-! ### Expressions -/

/-- An evaluation beside one with more levels, in the same world. -/
def levelsSetting : Setting where
  worlds := Eq
  grows _ _ _ _ := True
  halts := Eq
  excused h := h = .overflow
  grows_refl _ _ := trivial
  grows_trans _ _ := trivial
  comparison := Halt.isComparison_eq
  Context := Unit
  closures := Eq
  nodes _ := Eq
  names _ := Eq
  scope _ f f' _ _ := f = f'

private theorem levels_agrees_self {ρ : α → α → Prop} (hρ : ∀ a, ρ a a) (x : Run α) (w : World) :
    levelsSetting.Agrees ρ x x w w := by
  unfold Coupling.Agrees
  cases x w with
  | ok a v => exact .ok (hρ a) rfl trivial
  | error k v => exact .error rfl rfl trivial

/-- The simulation of an evaluation by one with more levels. -/
def levelsSimulation : Simulation where
  toSetting := levelsSetting
  shape := by
    rintro _ n _ rfl
    exact .refl (fun _ => rfl) (fun _ => rfl) (fun _ => rfl) n
  closures_id := congrArg Closure.id
  halts_locate := by
    rintro _ n _ h _ rfl rfl
    rfl
  excused_overflow _ := rfl
  excused_locate := by
    rintro _ p rfl
    rfl
  halts_notCallable := by
    rintro _ x _ kind rfl
    rfl
  scope_grows hscope _ := hscope
  lookup := by
    rintro _ x _ f _ w _ rfl rfl rfl
    exact levels_agrees_self (.refl fun _ => rfl) _ w
  call := by
    rintro eval eval' _ x _ k _ vs vs' f _ w _ heval rfl rfl hvs rfl rfl
    obtain rfl := Value.Related.eq_of_eq_items hvs
    rw [callClosure_eq_enterCall, callClosure_eq_enterCall]
    refine .bind (levels_agrees_self Eq.refl (enterCall x k vs f) w) fun t _ v v' ht hv _ => ?_
    subst ht
    exact heval (c := ()) rfl rfl hv

/-- Actions that agree in one world are ordered. -/
theorem Run.Below.of_agrees {x y : Run Value}
    (h : ∀ w, levelsSetting.Agrees levelsSetting.values x y w w) : x.Below y := by
  intro w
  have h := h w
  unfold Coupling.Agrees at h
  rw [Run.outcome]
  generalize x w = r, y w = r' at h ⊢
  cases h with
  | ok hresult hworlds _ =>
    obtain rfl := hresult.eq_of_eq
    cases hworlds
    exact .inr rfl
  | error hhalts hworlds _ =>
    cases hhalts
    cases hworlds
    exact .inr rfl
  | excused hexcused =>
    cases hexcused
    exact .inl rfl

/-- With more levels an expression does what it did, unless it ran out of them. -/
theorem eval_below {levels levels' : Nat} (hle : levels ≤ levels') (n : Node) (f : FrameId) :
    (eval levels n f).Below (eval levels' n f) :=
  .of_agrees fun _ =>
    levelsSimulation.eval_agrees_of_suffices (.inr ⟨rfl, hle⟩) (c := ()) rfl rfl rfl

/-! ### Statements -/

/-- A loop is monotone in its test and its body. -/
theorem repeatWhile_below {test test' : Run Bool} {body body' : Run Unit}
    (htest : test.Below test') (hbody : body.Below body') (passes done : Nat) :
    (repeatWhile test body passes done).Below (repeatWhile test' body' passes done) := by
  induction passes generalizing done with
  | zero => exact .refl _
  | succ passes ih =>
    refine .bind htest fun b => ?_
    cases b with
    | true => exact .bind hbody fun _ => ih (done + 1)
    | false => exact .refl _

theorem execAll_below {exec exec' : Executor} (h : ∀ n f, (exec n f).Below (exec' n f))
    (f : FrameId) (ns : List Node) : (execAll exec f ns).Below (execAll exec' f ns) := by
  induction ns with
  | nil => exact .refl _
  | cons n ns ih => exact .bind (h n f) fun _ => ih

/-- Executors and evaluators for the parts of a statement of which the second ones have more
levels. -/
structure StatementParts.Below (parts parts' : StatementParts) : Prop where
  levels : parts.levels ≤ parts'.levels
  statement : ∀ n f, (parts.statement n f).Below (parts'.statement n f)
  outermost : ∀ n f, (parts.outermost n f).Below (parts'.outermost n f)
  expression : ∀ n f, (parts.expression n f).Below (parts'.expression n f)

variable {parts parts' : StatementParts} (h : parts.Below parts') (f : FrameId)
include h

private theorem execPrint_below (ns : List Node) :
    (execPrint parts.levels parts.expression f ns).Below
      (execPrint parts'.levels parts'.expression f ns) := by
  unfold execPrint
  split
  · refine .bind (h.expression _ f) fun v => .bind (.checkWithin fun q hq => ?_) fun _ => .refl _
    exact Value.renderWithin_of_le (Nat.div_le_div_right h.levels) hq
  · exact .refl _

/-- The loop whose test is evaluated with more levels. -/
theorem execLoop_below (passes : Nat) {t body body' : Node}
    (hbody : (parts.statement body f).Below (parts'.statement body' f)) :
    (execLoop passes parts.statement parts.expression f [t, body]).Below
      (execLoop passes parts'.statement parts'.expression f [t, body']) := by
  have htest : (evalTest parts.expression f t).Below (evalTest parts'.expression f t) :=
    .bind (h.expression t f) fun _ => .refl _
  exact .bind (repeatWhile_below htest hbody passes 0) fun _ => .refl _

private theorem execBlock_below (n : Node) :
    (execBlock parts.outermost f n).Below (execBlock parts'.outermost f n) := by
  unfold execBlock
  split
  · exact execAll_below h.outermost f _
  · exact .refl _

private theorem execForm_below (passes : Nat) (form : StatementForm) (ns : List Node) :
    (execForm passes parts f form ns).Below (execForm passes parts' f form ns) := by
  cases form with
  | program =>
    match ns with
    | [body] => exact execBlock_below h f body
    | [] | _ :: _ :: _ => exact .refl _
  | block => exact execAll_below h.statement f ns
  | declaration | assignment =>
    match ns with
    | [_, e] => exact .bind (.refl _) fun _ => .bind (h.expression e f) fun _ => .refl _
    | [] | [_] | _ :: _ :: _ :: _ => exact .refl _
  | function => exact .refl _
  | print => exact execPrint_below h f ns
  | loop =>
    match ns with
    | [t, body] => exact execLoop_below h f passes (h.statement body f)
    | [] | [_] | _ :: _ :: _ :: _ => exact .refl _

/-- A statement does what it did if its parts have more levels, unless it ran out of them. -/
theorem execNode_below (passes : Nat) (n : Node) :
    (execNode passes parts n f).Below (execNode passes parts' n f) := by
  unfold execNode
  split
  · split
    · exact execForm_below h f passes _ _
    · exact .refl _
  all_goals exact .refl _

end Bella
