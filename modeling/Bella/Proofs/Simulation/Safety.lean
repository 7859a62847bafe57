import Bella.Proofs.Activity.Expression
import Bella.Proofs.Simulation.Invariant

/-!
# How a run may halt

An invariant of programs says what a run keeps. A safety property says in addition how the run may
halt: it names the expressions and statements that the run may meet, and the causes for which one
of them may be refused. Nodes of this sort have to have parts of this sort, and so have the bodies
of the closures that values may hold.

What a run adds to that is always the same. Looking a name up, calling, declaring, assigning and
printing fail with causes that lie in values and bindings, and a run may be cut off. So every halt
of such a run is an error with one of these causes, or the end of its levels or passes, and never a
defect.

## Main definitions

* `Bella.Halt.IsRegular`: halts with an ordinary cause or one of the given causes.
* `Bella.Safety`: an invariant together with the nodes that may be met.

## Main results

* `Bella.Safety.exec_regular`, `Bella.Safety.interpretIn_regular`: how statements and programs halt.
-/

namespace Bella

/-- The halt is no defect of a tree, and if it is an error, the cause is an ordinary one or one of
those given. -/
def Halt.IsRegular (refusals : Cause → Prop) : Halt → Prop
  | .error e => e.cause.isOrdinary = true ∨ refusals e.cause
  | .defect _ => False
  | .overflow | .unfinished => True

section Regular

variable {refusals : Cause → Prop} {h : Halt}

theorem Halt.IsRegular.locate (hh : h.IsRegular refusals) (p : Position) :
    (h.locate p).IsRegular refusals := by
  cases h with
  | error | defect | overflow | unfinished => exact hh

theorem Halt.IsRegular.leaveProgram (hh : h.IsRegular refusals) :
    h.leaveProgram.IsRegular refusals := by
  cases h with
  | overflow => exact .inl rfl
  | error | defect | unfinished => exact hh

theorem Halt.isRegular_of_ordinary {c : Cause} (hc : c.isOrdinary = true) :
    (Halt.error { cause := c }).IsRegular refusals :=
  .inl hc

/-- The coupling in which, moreover, the first run halts regularly. -/
def Coupling.regular (C : Coupling) (refusals : Cause → Prop) : Coupling :=
  { C with
    halts := fun h h' => C.halts h h' ∧ h.IsRegular refusals
    comparison :=
      { ordinary := fun hc => ⟨C.comparison.ordinary hc, .inl hc⟩
        overflow := ⟨C.comparison.overflow, trivial⟩
        unfinished := ⟨C.comparison.unfinished, trivial⟩ } }

/-- Actions that agree do so regularly if the first one halts regularly. -/
theorem Coupling.Agrees.regular {C : Coupling} {α β : Type} {ρ : α → β → Prop} {x : Run α}
    {y : Run β} {w w' : World} (hagrees : C.Agrees ρ x y w w')
    (hx : ∀ k v, x w = .error k v → k.IsRegular refusals) :
    (C.regular refusals).Agrees ρ x y w w' := by
  unfold Coupling.Agrees at hagrees ⊢
  generalize x w = r, y w' = r' at hagrees hx ⊢
  cases hagrees with
  | ok hresult hworlds hgrows => exact .ok hresult hworlds hgrows
  | error hhalts hworlds hgrows => exact .error ⟨hhalts, hx _ _ rfl⟩ hworlds hgrows
  | excused hexcused => exact .excused hexcused

end Regular

/-- An invariant of programs together with the nodes that a run may meet. -/
structure Safety extends ProgramInvariant where
  /-- The expressions that may be evaluated. -/
  expressions : Node → Prop
  /-- The statements that may be executed. -/
  statements : Node → Prop
  /-- The causes for which one of them may be refused. -/
  refusals : Cause → Prop
  body : ∀ {k}, closures k → expressions k.body
  expression_shape : ∀ {n}, expressions n →
    ExpressionMatch (fun e e' => e = e' ∧ expressions e) Eq
      (fun h h' => h = h' ∧ h.IsRegular refusals) n n
  statement_shape : ∀ {n}, statements n →
    StatementMatch (fun s s' => s = s' ∧ statements s) (fun e e' => e = e' ∧ expressions e)
      (fun _ => True) (fun ps body ps' body' => ps = ps' ∧ body = body' ∧ functions ps body)
      (fun h h' => h = h' ∧ h.IsRegular refusals) n n

namespace Safety

variable (S : Safety)

/-- A run beside itself, as it meets the nodes that it may meet. -/
def toSetting : Setting :=
  { S.toInvariant.toSetting with
    toCoupling := S.toInvariant.toSetting.toCoupling.regular S.refusals
    nodes := fun _ e e' => e = e' ∧ S.expressions e }

variable {S} {w u : World} {f : FrameId} {h : Halt}

private theorem lookup_regular {x : String} (hx : Run.lookup f x w = .error h u) :
    h.IsRegular S.refusals := by
  rw [Run.lookup_apply] at hx
  split at hx
  · cases hx
  · cases hx
    exact Halt.isRegular_of_ordinary rfl

private theorem enterCall_regular {x : String} {k : Closure} {vs : List Value}
    (hx : enterCall x k vs f w = .error h u) : h.IsRegular S.refusals := by
  obtain ⟨c, hc, rfl⟩ := enterCall_error hx
  exact Halt.isRegular_of_ordinary hc

private theorem callClosure_agrees {eval eval' : Evaluator} (heval : S.toSetting.Evaluates eval eval')
    (hw : S.holds w) (hf : S.scope f w) {x : String} {k : Closure} (hk : S.closures k)
    {vs : List Value} (hvs : ∀ v ∈ vs, v.HoldsOnly S.closures) :
    S.toSetting.Agrees S.toSetting.values (callClosure eval x k vs f) (callClosure eval' x k vs f)
      w w := by
  have henter := S.toInvariant.enterCall_keeps hw hf (x := x) hk hvs
  unfold Coupling.Agrees
  rw [callClosure_eq_enterCall, callClosure_eq_enterCall, Run.bind_apply, Run.bind_apply]
  cases hentered : enterCall x k vs f w with
  | error h v =>
    rw [hentered] at henter
    exact .error ⟨rfl, enterCall_regular hentered⟩ ⟨rfl, henter.1⟩ henter.2
  | ok t v =>
    rw [hentered] at henter
    obtain ⟨hv, hgrows, ht⟩ := henter
    exact (heval (c := ()) ⟨rfl, S.body hk⟩ ⟨rfl, ht⟩ ⟨rfl, hv⟩).trans hgrows

variable (S)

/-- The simulation of an evaluation by itself. -/
def toSimulation : Simulation where
  toSetting := S.toSetting
  shape := by
    rintro _ n _ ⟨rfl, hn⟩
    exact S.expression_shape hn
  closures_id h := congrArg Closure.id h.1
  halts_locate := by
    rintro _ n _ h _ ⟨rfl, -⟩ ⟨rfl, hh⟩
    exact ⟨rfl, hh.locate _⟩
  excused_locate _ := False.elim
  excused_overflow := False.elim
  halts_notCallable := by
    rintro _ x _ kind rfl
    exact ⟨rfl, Halt.isRegular_of_ordinary rfl⟩
  scope_grows h hgrows := ⟨h.1, S.scope_grows h.2 hgrows⟩
  lookup hx hf hw :=
    (S.toInvariant.toSimulation.lookup (c := ()) hx hf hw).regular fun _ _ => lookup_regular
  call := by
    rintro eval eval' _ x _ k _ vs vs' f _ w _ heval rfl ⟨rfl, hk⟩ hvs ⟨rfl, hf⟩ ⟨rfl, hw⟩
    obtain ⟨rfl, hholds⟩ := Value.Related.forall₂_holdsOnly hvs
    exact callClosure_agrees heval hw hf hk hholds

variable {S}

private theorem declare_regular {x : String} {a : Value} {r : Record}
    (hx : (do Run.declare f x a; Run.note r) w = .error h u) : h.IsRegular S.refusals := by
  obtain hdeclare | ⟨_, _, -, hnote⟩ := Run.bind_eq_error_iff.mp hx
  · rw [Run.declare_apply] at hdeclare
    split at hdeclare
    · cases hdeclare
      exact Halt.isRegular_of_ordinary rfl
    · cases hdeclare
  · cases hnote

private theorem declareFunction_regular {x : String} {ps : List String} {body : Node} {r : Record}
    (hx : (do let _ ← Run.declareFunction f x ps body; Run.note r) w = .error h u) :
    h.IsRegular S.refusals := by
  obtain hdeclare | ⟨_, _, -, hnote⟩ := Run.bind_eq_error_iff.mp hx
  · rw [Run.declareFunction_apply] at hdeclare
    split at hdeclare
    · cases hdeclare
      exact Halt.isRegular_of_ordinary rfl
    · cases hdeclare
  · cases hnote

/-- An action that has a result does not halt at all. -/
private theorem regular_of_ok {α : Type} {x : Run α} {a : α} {v : World} (hok : x w = .ok a v)
    (hx : x w = .error h u) : h.IsRegular S.refusals := by
  rw [hok] at hx
  cases hx

private theorem assign_regular {x : String} {a : Value} (hx : Run.assign f x a w = .error h u) :
    h.IsRegular S.refusals := by
  rw [Run.assign_apply] at hx
  split at hx
  · cases hx
  · cases hx
    exact Halt.isRegular_of_ordinary rfl

variable (S)

/-- The simulation of a program by itself. -/
def toProgramSimulation : ProgramSimulation where
  toSimulation := S.toSimulation
  outermost := ()
  top f f' := f = f' ∧ S.top f
  statements n n' := n = n' ∧ S.statements n
  targets _ := True
  functions ps body ps' body' := ps = ps' ∧ body = body' ∧ S.functions ps body
  changes w _ v _ := S.changes w v
  changes_refl w _ := S.changes_refl w
  changes_trans := S.changes_trans
  changes_of_grows := S.changes_of_grows
  scope_top htop hworlds := ⟨htop.1, S.scope_top htop.2 hworlds.2⟩
  statement_shape := by
    rintro n _ ⟨rfl, hn⟩
    exact S.statement_shape hn
  halts_locate_statement := by
    rintro n _ h _ ⟨rfl, -⟩ ⟨rfl, hh⟩
    exact ⟨rfl, hh.locate _⟩
  halts_leaveProgram := by
    rintro h _ ⟨rfl, hh⟩
    exact ⟨rfl, hh.leaveProgram⟩
  excused_leaveProgram := False.elim
  start htop hw :=
    (S.toProgramInvariant.toProgramSimulation.start htop hw).regular fun _ _ => regular_of_ok rfl
  finish hw :=
    (S.toProgramInvariant.toProgramSimulation.finish hw).regular fun _ _ => regular_of_ok rfl
  declare ha htop hw :=
    (S.toProgramInvariant.toProgramSimulation.declare ha htop hw).regular fun _ _ => declare_regular
  declareFunction hfunction htop hw :=
    (S.toProgramInvariant.toProgramSimulation.declareFunction hfunction htop hw).regular
      fun _ _ => declareFunction_regular
  assign hx ha htop hw :=
    (S.toProgramInvariant.toProgramSimulation.assign hx ha htop hw).regular
      fun _ _ => assign_regular
  print htop hw :=
    (S.toProgramInvariant.toProgramSimulation.print htop hw).regular fun _ _ => regular_of_ok rfl

/-- Statements that may be executed halt regularly. -/
theorem exec_regular (passes levels : Nat) {n : Node} (hn : S.statements n) (hf : S.top f)
    (hw : S.holds w) (hx : exec passes levels n f w = .error h u) : h.IsRegular S.refusals := by
  have hagrees := S.toProgramSimulation.exec_agrees passes levels ⟨rfl, hn⟩ ⟨rfl, hf⟩ ⟨rfl, hw⟩
  unfold Coupling.Agrees at hagrees
  rw [hx] at hagrees
  cases hagrees with
  | error hhalts => exact hhalts.2
  | excused hexcused => exact hexcused.elim

/-- Programs that may be executed halt regularly, and never for want of levels alone. -/
theorem interpretIn_regular (passes : Nat) {program : Node} (hprogram : S.statements program)
    (hlabel : program.label? = some StatementForm.program.label) (hf : S.top f) (hw : S.holds w)
    (hx : interpretIn passes program f w = .error h u) :
    h.IsRegular S.refusals ∧ h ≠ .overflow := by
  have hstart := S.start hf hw rfl
  rw [interpretIn_apply hlabel] at hx
  cases hexec : exec passes programLevels program f
      (w.noted (.interpreting (w.store.options f).scoping)) with
  | ok a v =>
    rw [hexec] at hx
    cases hx
  | error k v =>
    rw [hexec] at hx
    cases hx
    have hk := S.exec_regular passes programLevels hprogram hf hstart.1 hexec
    refine ⟨hk.leaveProgram, ?_⟩
    cases k <;> exact nofun

end Safety
end Bella
