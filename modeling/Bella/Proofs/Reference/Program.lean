import Bella.Proofs.Reference.Depth
import Bella.Proofs.Reference.Expression

/-!
# Programs on a ground do what they do without frames

The globals and the prelude of a running program are kept in step with the maps of a state: every
statement binds or changes the same names in both, prints the same lines, and fails with the same
error. A loop makes its passes in both as long as its test holds. So a program that is given a fresh
frame and ends, with lexical scoping and without being cut off, ends as it does without frames.

## Main definitions

* `Bella.Reference.Stands`: a world and a state with the same bindings and lines.
* `Bella.Reference.Does`: an execution ends as an action on a state does, or is cut off.
* `Bella.Closure.SameDeclaration`: closures of one declaration.

## Main results

* `Bella.Reference.exec_does`: statements of the grammar, in every number of levels and passes.
* `Bella.interpret_refines_reference`: programs.
-/

namespace Bella.Reference

/-! ### Executions and actions -/

/-- How an execution may end, given how an action on a state ends. -/
inductive Finishes {α β : Type} (C : World → State → Prop) (ρ : α → β → Prop)
    (here : Option Location) :
    EStateM.Result Halt World α → Option (Except Error β × State) → Prop
  | ok {a : α} {b : β} {v : World} {t : State} (hresult : ρ a b) (hstands : C v t) :
      Finishes C ρ here (.ok a v) (some (.ok b, t))
  | error {e : Error} {v : World} {t : State} (hstands : C v t) :
      Finishes C ρ here (.error (.error e) v) (some (.error (e.placed here), t))
  | exhausted {h : Halt} {v : World} {y : Option (Except Error β × State)}
      (hh : h = .overflow ∨ h = .unfinished) : Finishes C ρ here (.error h v) y

/-- An execution, started in the world `w`, ends as an action does that is started in the state
`s`. -/
def Does {α β : Type} (C : World → State → Prop) (ρ : α → β → Prop) (here : Option Location)
    (x : Run α) (y : Action β) (w : World) (s : State) : Prop :=
  Finishes C ρ here (x w) (y s)

section Does

variable {α β γ δ : Type} {C : World → State → Prop} {ρ : α → β → Prop} {τ : γ → δ → Prop}
  {here : Option Location} {x : Run α} {y : Action β} {w : World} {s : State}

section Apply

variable (here : Option Location) (x : String) (v : Value) (s : State)

theorem Action.declare_apply :
    Action.declare here x v s =
      if (s.globals x).isSome then
        some (.error { cause := .alreadyDeclared x .variable, location := here }, s)
      else some (.ok (), { s with globals := s.globals.bind x v }) := by
  change (if (s.globals x).isSome then Action.fail here (.alreadyDeclared x .variable)
    else set { s with globals := s.globals.bind x v } : Action Unit) s = _
  split <;> rfl

theorem Action.declareFunction_apply (parameters : List String) (body : Node) :
    Action.declareFunction here x parameters body s =
      if (s.globals x).isSome then
        some (.error { cause := .alreadyDeclared x .function, location := here }, s)
      else
        some (.ok (), { s with
          globals := s.globals.bind x
            (.closure { id := s.declared, parameters, body, frame := none })
          declared := s.declared + 1 }) := by
  change (if (s.globals x).isSome then Action.fail here (.alreadyDeclared x .function)
    else set _ : Action Unit) s = _
  split <;> rfl

theorem Action.assign_apply :
    Action.assign here x v s =
      if (s.globals x).isSome then some (.ok (), { s with globals := s.globals.bind x v })
      else if (s.prelude x).isSome then some (.ok (), { s with prelude := s.prelude.bind x v })
      else some (.error { cause := .notDeclared x, location := here }, s) := by
  change (if (s.globals x).isSome then set _
    else if (s.prelude x).isSome then set _
    else Action.fail here (.notDeclared x) : Action Unit) s = _
  split
  · rfl
  · split <;> rfl

end Apply

theorem Does.pure {a : α} {b : β} (h : ρ a b) (hstands : C w s) :
    Does C ρ here (Pure.pure a) (Pure.pure b) w s :=
  .ok h hstands

theorem Does.fail (c : Cause) (hstands : C w s) :
    Does C ρ here (Run.fail c) (Action.fail here c) w s :=
  .error (e := { cause := c }) hstands

/-- An execution that goes on does what its parts do in sequence. -/
theorem Does.bind {f : α → Run γ} {g : β → Action δ} (hx : Does C ρ here x y w s)
    (hf : ∀ a b v t, ρ a b → C v t → Does C τ here (f a) (g b) v t) :
    Does C τ here (x >>= f) (y >>= g) w s := by
  unfold Does at hx ⊢
  rw [Run.bind_apply, Action.bind_apply]
  generalize x w = r, y s = r' at hx ⊢
  cases hx with
  | ok hresult hstands => exact hf _ _ _ _ hresult hstands
  | error hstands => exact .error hstands
  | exhausted hh => exact .exhausted hh

/-- A node has its place, or else the place around it. -/
theorem Does.within {n : Node} {outer : Option Location} (hx : Does C ρ (place outer n) x y w s) :
    Does C ρ outer (Run.within n x) y w s := by
  unfold Does at hx ⊢
  rw [Run.within_apply]
  generalize x w = r, y s = r' at hx ⊢
  cases hx with
  | ok hresult hstands => exact .ok hresult hstands
  | @error e v t hstands =>
    rw [e.placed_place outer n]
    exact .error hstands
  | exhausted hh =>
    obtain rfl | rfl := hh
    · exact .exhausted (.inl rfl)
    · exact .exhausted (.inr rfl)

theorem Does.check {r : Except Cause α} {r' : Except Cause β} (h : Check.Alike ρ r r')
    (hstands : C w s) : Does C ρ here (Run.check r) (Action.check here r') w s := by
  cases h with
  | ok h => exact .pure h hstands
  | error h => exact .fail _ hstands

end Does

/-! ### Worlds and states -/

/-- A world in which a program has been running since `before`, and a state with the same bindings
and lines. -/
structure Stands (γ : Ground) (o : Options) (before w : World) (s : State) : Prop where
  holds : γ.Holds o w.store
  globals : ∀ x, Option.Rel (values γ) (γ.global? w.store x) (s.globals x)
  behind : ∀ x, Option.Rel (values γ) (γ.prelude? w.store x) (s.prelude x)
  printed : w.printed = before.printed ++ (s.lines.map fun line => (o.sink, line)).toArray
  issued : w.issued = s.declared

section Stands

variable {γ : Ground} {o : Options} {before w : World} {s : State} {here : Option Location}

theorem Stands.extends (h : Stands γ o before w s) {v : World} (hv : w.Extends v) :
    Stands γ o before v s where
  holds := h.holds.kept hv.frames
  globals x := by
    rw [h.holds.global?_kept hv.frames]
    exact h.globals x
  behind x := by
    rw [h.holds.prelude?_kept hv.frames]
    exact h.behind x
  printed := hv.printed.trans h.printed
  issued := hv.issued.trans h.issued

theorem Stands.noted (h : Stands γ o before w s) (r : Record) : Stands γ o before (w.noted r) s :=
  h.extends (.noted w r)

/-- An expression in a statement. -/
theorem Stands.eval_does {evaluator : Evaluator} {ν : Valuation} (heval : Evaluates γ o evaluator ν)
    {n : Node} (hn : n.IsExpression) (h : Stands γ o before w s) :
    Does (Stands γ o before) (values γ) here (evaluator n γ.globals) (Action.eval ν here n)
      w s := by
  have hsees : Sees γ o γ.globals w s.scope fun _ => none :=
    ⟨h.holds, .globals, fun _ => .none, h.globals, h.behind⟩
  have hmeans : Means (values γ) here (evaluator n γ.globals) (ν here s.scope n) w := heval hn hsees
  unfold Means at hmeans
  unfold Does Action.eval
  generalize evaluator n γ.globals w = r, ν here s.scope n = r' at hmeans ⊢
  cases hmeans with
  | ok hresult hextends => exact .ok hresult (h.extends hextends)
  | error hextends => exact .error (h.extends hextends)
  | exhausted hh => exact .exhausted hh

/-! ### Declaring, assigning and printing -/

variable {x : String} {a b : Value}

private theorem bind_rel {r : Option Value} {μ : Map} {y : String} (hab : values γ a b)
    (h : Option.Rel (values γ) r (μ y)) :
    Option.Rel (values γ) (if x = y then some a else r) (μ.bind x b y) := by
  unfold Map.bind
  split
  · exact .some hab
  · exact h

/-- Both sides may bind a global name and count on. -/
theorem Stands.bind (h : Stands γ o before w s) (hab : values γ a b) {n n' : Nat} (hn : n = n') :
    Stands γ o before { w with issued := n, store := w.store.bind γ.globals x a }
      { s with globals := s.globals.bind x b, declared := n' } where
  holds := h.holds.bind x a
  globals y := by
    rw [h.holds.global?_bind]
    exact bind_rel hab (h.globals y)
  behind y := by
    rw [h.holds.prelude?_bind]
    exact h.behind y
  printed := h.printed
  issued := hn

/-- A name is taken among the globals of the world and of the state, or of neither. -/
theorem Stands.binds_eq (h : Stands γ o before w s) (x : String) :
    w.store.binds γ.globals x = (s.globals x).isSome := by
  rw [Store.binds_eq_isSome_own?]
  exact Value.Related.isSome_eq (h.globals x)

theorem declare_does (hab : values γ a b) (h : Stands γ o before w s) :
    Does (Stands γ o before) Eq here (Run.declare γ.globals x a) (Action.declare here x b) w s := by
  unfold Does
  rw [Run.declare_apply, Action.declare_apply, h.binds_eq]
  split
  · exact .error (e := { cause := .alreadyDeclared x .variable }) h
  · exact .ok rfl (h.bind hab h.issued)

theorem declareFunction_does {ps : List String} {body : Node} (hbody : body.IsExpression)
    (h : Stands γ o before w s) :
    Does (Stands γ o before) (fun _ _ => True) here (Run.declareFunction γ.globals x ps body)
      (Action.declareFunction here x ps body) w s := by
  unfold Does
  rw [Run.declareFunction_apply, Action.declareFunction_apply, h.binds_eq]
  split
  · exact .error (e := { cause := .alreadyDeclared x .function }) h
  · have hclosure : values γ
        (.closure { id := w.issued, parameters := ps, body, frame := some γ.globals })
        (.closure { id := s.declared, parameters := ps, body, frame := none }) :=
      .closure ⟨h.issued, rfl, rfl, rfl, hbody⟩
    exact .ok trivial (h.bind hclosure (congrArg (· + 1) h.issued))

private theorem update_rel {r : Option Value} {μ : Map} {y : String} (hab : values γ a b)
    (hx : (μ x).isSome = true) (h : Option.Rel (values γ) r (μ y)) :
    Option.Rel (values γ) (if x = y then r.map fun _ => a else r) (μ.bind x b y) := by
  unfold Map.bind
  split
  · subst y
    rw [← Value.Related.isSome_eq h] at hx
    obtain ⟨c, rfl⟩ := Option.isSome_iff_exists.mp hx
    exact .some hab
  · exact h

/-- An assignment reaches the globals, else the prelude. -/
theorem assign_does (hab : values γ a b) (h : Stands γ o before w s) :
    Does (Stands γ o before) Eq here (Run.assign γ.globals x a) (Action.assign here x b) w s := by
  unfold Does
  rw [Run.assign_apply, Action.assign_apply, h.holds.resolve?_eq,
    Value.Related.isSome_eq (h.globals x), Value.Related.isSome_eq (h.behind x)]
  by_cases hglobals : (s.globals x).isSome = true
  · rw [if_pos hglobals, if_pos hglobals]
    exact .ok rfl
      { holds := h.holds.update _ x a
        globals := fun y => by
          rw [Ground.global?_update_globals]
          exact update_rel hab hglobals (h.globals y)
        behind := fun y => by
          rw [Ground.prelude?_update_globals]
          exact h.behind y
        printed := h.printed
        issued := h.issued }
  · rw [if_neg hglobals, if_neg hglobals]
    by_cases hbehind : (s.prelude x).isSome = true
    · rw [if_pos hbehind, if_pos hbehind]
      cases hb : γ.behind with
      | none =>
        -- without a frame behind the globals, the prelude binds nothing
        rw [← Value.Related.isSome_eq (h.behind x), Ground.prelude?, hb] at hbehind
        cases hbehind
      | some i =>
        exact .ok rfl
          { holds := h.holds.update _ x a
            globals := fun y => by
              rw [Ground.global?_update_behind _ hb]
              exact h.globals y
            behind := fun y => by
              rw [Ground.prelude?_update_behind _ hb]
              exact update_rel hab hbehind (h.behind y)
            printed := h.printed
            issued := h.issued }
    · rw [if_neg hbehind, if_neg hbehind]
      exact .error (e := { cause := .notDeclared x }) h

theorem print_does (line : String) (h : Stands γ o before w s) :
    Does (Stands γ o before) Eq here (do Run.print (← Run.options γ.globals).sink line)
      (Action.print line) w s := by
  unfold Does
  rw [Run.bind_apply, Run.options_apply]
  simp only [Run.print_apply, Ground.Within.globals.options_eq h.holds]
  refine .ok rfl ⟨h.holds, h.globals, h.behind, ?_, h.issued⟩
  simp [h.printed]

/-- A value that is printed within a bound. -/
theorem render_does (depth : Nat) (hab : values γ a b) (h : Stands γ o before w s) :
    Does (Stands γ o before) Eq here (Run.checkWithin (a.renderWithin depth))
      (Action.check here b.render) w s := by
  rw [hab.renderWithin_eq]
  cases hrender : b.renderWithin depth with
  | none => exact .exhausted (.inl rfl)
  | some r =>
    rw [Value.render_of_renderWithin hrender]
    cases r with
    | ok line => exact .pure rfl h
    | error c => exact .fail c h

/-! ### Statements -/

/-- Records do not show. -/
theorem Does.noted {α : Type} {ρ : α → Unit → Prop} {x : Run α} {y : Action Unit}
    (hx : Does (Stands γ o before) ρ here x y w s) (r : α → Record) :
    Does (Stands γ o before) Eq here (do let a ← x; Run.note (r a)) y w s := by
  unfold Does at hx ⊢
  rw [Run.bind_apply]
  generalize x w = q, y s = q' at hx ⊢
  cases hx with
  | ok _ hstands => exact .ok rfl (hstands.noted _)
  | error hstands => exact .error hstands
  | exhausted hh => exact .exhausted hh

/-- An executor that does what statements do, on the globals. -/
def Executes (γ : Ground) (o : Options) (before : World) (executor : Executor)
    (ε : Option Location → Node → Action Unit) : Prop :=
  ∀ {n : Node} {outer : Option Location} {w : World} {s : State}, n.IsStatement →
    Stands γ o before w s →
    Does (Stands γ o before) Eq outer (executor n γ.globals) (ε outer n) w s

variable {executor : Executor} {ε : Option Location → Node → Action Unit} {evaluator : Evaluator}
  {ν : Valuation}

theorem execAll_does (hexec : Executes γ o before executor ε) {ss : List Node}
    (hss : ∀ n ∈ ss, n.IsStatement) (h : Stands γ o before w s) :
    Does (Stands γ o before) Eq here (execAll executor γ.globals ss) (ss.forM (ε here)) w s := by
  induction ss generalizing w s with
  | nil => exact .pure rfl h
  | cons n ss ih =>
    refine .bind (hexec (hss n List.mem_cons_self) h) fun _ _ v t _ hv => ?_
    exact ih (fun d hd => hss d (List.mem_cons_of_mem n hd)) hv

/-- The test of a loop. -/
theorem evalTest_does (heval : Evaluates γ o evaluator ν) {t : Node} (ht : t.IsExpression)
    (h : Stands γ o before w s) :
    Does (Stands γ o before) Eq here (evalTest evaluator γ.globals t)
      (do Action.check here (Check.boolean "While test" (← Action.eval ν here t))) w s := by
  refine .bind (h.eval_does heval ht) fun a b v u hab hv => ?_
  exact .check (Check.boolean_alike _ hab) hv

/-- The passes of a loop. The induction is on the passes that are left to the execution. -/
theorem repeatWhile_does {test : Run Bool} {test' : Action Bool} {body : Run Unit}
    {body' : Action Unit}
    (htest : ∀ {w s}, Stands γ o before w s → Does (Stands γ o before) Eq here test test' w s)
    (hbody : ∀ {w s}, Stands γ o before w s → Does (Stands γ o before) Eq here body body' w s)
    {passes passes' : Nat} (hpasses : passes ≤ passes') (done : Nat) (h : Stands γ o before w s) :
    Does (Stands γ o before) (fun _ _ => True) here (repeatWhile test body passes done)
      (Action.repeatWhile test' body' passes') w s := by
  induction passes generalizing passes' done w s with
  | zero => exact .exhausted (.inr rfl)
  | succ passes ih =>
    obtain ⟨passes', rfl⟩ := Nat.exists_eq_add_of_lt hpasses
    refine .bind (htest h) fun b b' v u hb hv => ?_
    subst hb
    cases b with
    | true => exact .bind (hbody hv) fun _ _ v u _ hv => ih (by omega) (done + 1) hv
    | false => exact .pure trivial hv

/-- Executors and evaluators for the parts of a statement that do what they mean. -/
structure PartsExecute (γ : Ground) (o : Options) (before : World) (parts : StatementParts)
    (ν : Valuation) (ε : Option Location → Node → Action Unit) : Prop where
  statement : Executes γ o before parts.statement ε
  expression : Evaluates γ o parts.expression ν

variable {parts : StatementParts}

/-- One statement, if its parts do what they mean. -/
theorem execNode_does {passes passes' : Nat} (hpasses : passes ≤ passes')
    (hparts : PartsExecute γ o before parts ν ε) {n : Node} (hn : n.IsStatement)
    (h : Stands γ o before w s) :
    Does (Stands γ o before) Eq here (Bella.execNode passes parts n γ.globals)
      (execNode ν ε passes' here n) w s := by
  cases hn with
  | block m hss => exact execAll_does hparts.statement hss h
  | declaration x p m he =>
    simp only [Bella.execNode, execNode, StatementForm.ofLabel?_label, execForm, execDeclaration,
      Run.check_identifier, pure_bind]
    refine .bind (h.eval_does hparts.expression he) fun a b v t hab hv => ?_
    exact (declare_does hab hv).noted fun _ => .declared x
  | function x p ps m' m hbody =>
    have hparameters := Node.parameters_parameterList ps m'
    simp only [Bella.execNode, execNode, StatementForm.ofLabel?_label, execForm, execFunction,
      Run.check_identifier, hparameters, pure_bind]
    exact (declareFunction_does hbody h).noted fun _ => .declaredFunction x (ps.map Prod.fst).length
  | assignment x p m he =>
    simp only [Bella.execNode, execNode, StatementForm.ofLabel?_label, execForm, execAssignment,
      Run.check_identifier, pure_bind]
    refine .bind (h.eval_does hparts.expression he) fun a b v t hab hv => ?_
    exact assign_does hab hv
  | print m he =>
    simp only [Bella.execNode, execNode, StatementForm.ofLabel?_label, execForm, execPrint]
    refine .bind (h.eval_does hparts.expression he) fun a b v t hab hv => ?_
    refine .bind (render_does _ hab hv) fun line line' v t hline hv => ?_
    subst hline
    exact print_does line hv
  | loop m' m ht hbody =>
    simp only [Bella.execNode, execNode, StatementForm.ofLabel?_label, execForm, execLoop]
    exact (repeatWhile_does (evalTest_does hparts.expression ht) (hparts.statement hbody) hpasses 0
      h).noted fun done => .finished done

/-- Statements of the grammar do what they mean, in every number of levels and passes: as much depth
as both together is enough. -/
theorem exec_does (γ : Ground) (ho : o.scoping = .lexical) (before : World)
    {passes levels depth : Nat} (hdepth : levels + passes ≤ depth) :
    Executes γ o before (Bella.exec passes levels) (exec depth) := by
  induction levels using Nat.strongRecOn generalizing depth with
  | ind levels ih =>
    intro n outer w s hn h
    match levels, depth with
    | levels + 4, 0 => omega
    | levels + 4, depth + 1 =>
      have hparts : PartsExecute γ o before
          { levels := levels + 1, statement := Bella.exec passes (levels + 1),
            outermost := Bella.exec passes levels, expression := Bella.eval (levels + 1) }
          (eval depth) (exec depth) :=
        ⟨ih _ (by omega) (by omega), eval_means γ ho (by omega)⟩
      exact (execNode_does (by omega) hparts hn h).within
    | 0, _ | 1, _ | 2, _ | 3, _ => exact .exhausted (.inl rfl)

/-! ### Programs -/

/-- The statements of a program. -/
theorem program_does (ho : o.scoping = .lexical) {passes levels depth : Nat}
    (hdepth : levels + passes ≤ depth) {program : Node} (hprogram : program.IsProgram)
    (h : Stands γ o before w s) :
    Does (Stands γ o before) Eq none (Bella.exec passes (levels + 4) program γ.globals)
      (execProgram depth program) w s := by
  obtain ⟨m', m, hss⟩ := hprogram
  refine Does.within ?_
  exact execAll_does (exec_does γ ho before hdepth) hss h

/-- A fresh ground is where a program starts. -/
theorem stands_of_isLaid {v : World} (h : γ.IsLaid o w v) :
    Stands γ o w v
      { globals := fun _ => none, prelude := o.prelude?, lines := [], declared := w.issued }
    where
  holds := h.holds
  globals x := by
    rw [h.global?_eq]
    exact .none
  behind x := by
    rw [h.prelude?_eq]
    exact o.prelude?_related _ x
  printed := by simp [h.printed]
  issued := h.issued

end Stands

/-- A program that is given a fresh frame does what it does without frames, and then too deep a
nesting leaves it as an error. -/
theorem interpret_finishes {program : Node} (hprogram : program.IsProgram) (passes : Nat)
    {options : Option Options} (hlexical : (options.getD {}).scoping = .lexical) (w : World) :
    ∃ depth q, Finishes (Stands (Ground.fresh (options.getD {}) w) (options.getD {}) w) Eq none q
        (run depth (options.getD {}).prelude? w.issued program) ∧
      interpret passes program none options w = match q with
        | .ok a v => .ok a v
        | .error h v => .error h.leaveProgram v := by
  obtain ⟨v, hv, hrun⟩ := interpret_fresh passes program options w
  rw [interpretIn_apply hprogram.label?_eq] at hrun
  refine ⟨programLevels + passes, _, ?_, hrun⟩
  have hdepth : programLevels - 4 + passes ≤ programLevels + passes := by omega
  exact program_does hlexical hdepth hprogram ((stands_of_isLaid hv).noted _)

end Reference

/-- Closures that come from one declaration. -/
structure Closure.SameDeclaration (c d : Closure) : Prop where
  id : c.id = d.id
  parameters : c.parameters = d.parameters
  body : c.body = d.body

private theorem sameDeclaration_rel {γ : Ground} {r r' : Option Value}
    (h : Option.Rel (Reference.values γ) r r') :
    Option.Rel (Value.Related Closure.SameDeclaration) r r' := by
  cases h with
  | none => exact .none
  | some h => exact .some (h.mono fun _ _ hc => ⟨hc.id, hc.parameters, hc.body⟩)

theorem Error.placed_none (e : Error) : e.placed none = e := by
  obtain ⟨cause, location⟩ := e
  cases location <;> rfl

/-- **Lexical runs refine the semantics without frames.** A program of the grammar that is given a
fresh frame, with lexical scoping and with or without the prelude, ends as it does without frames
whenever it ends without being cut off: it succeeds or fails with the same error, prints the same
lines in the same order, and leaves the same values among the globals and in the prelude, where
closures are compared by the declarations that they come from. -/
theorem interpret_refines_reference {program : Node} (hprogram : program.IsProgram) (passes : Nat)
    (options : Option Options) (hlexical : (options.getD {}).scoping = .lexical) (w : World)
    (hends : (interpret passes program none options).outcome w ≠ .error .unfinished)
    (hlevels : ∀ e, (interpret passes program none options).outcome w = .error (.error e) →
      e.kind ≠ .stackOverflow) :
    ∃ r s, Reference.Yields (options.getD {}).prelude? w.issued program r s ∧
      (interpret passes program none options).outcome w = r.mapError Halt.error ∧
      ((interpret passes program none options).after w).printed =
        w.printed ++ (s.lines.map fun line => ((options.getD {}).sink, line)).toArray ∧
      ∀ x,
        Option.Rel (Value.Related Closure.SameDeclaration)
          ((Ground.fresh (options.getD {}) w).global?
            ((interpret passes program none options).after w).store x) (s.globals x) ∧
        Option.Rel (Value.Related Closure.SameDeclaration)
          ((Ground.fresh (options.getD {}) w).prelude?
            ((interpret passes program none options).after w).store x) (s.prelude x) := by
  obtain ⟨depth, q, hfinishes, hrun⟩ := Reference.interpret_finishes hprogram passes hlexical w
  have hsame {u : World} {s : Reference.State}
      (h : Reference.Stands (Ground.fresh (options.getD {}) w) (options.getD {}) w u s)
      (x : String) :=
    And.intro (sameDeclaration_rel (h.globals x)) (sameDeclaration_rel (h.behind x))
  generalize hy : Reference.run depth (options.getD {}).prelude? w.issued program = y at hfinishes
  unfold Run.outcome at hends hlevels ⊢
  unfold Run.after
  rw [hrun] at hends hlevels ⊢
  cases hfinishes with
  | ok _ hstands => exact ⟨_, _, Reference.yields_of_run hy, rfl, hstands.printed, hsame hstands⟩
  | @error e u s hstands =>
    refine ⟨_, _, Reference.yields_of_run hy, ?_, hstands.printed, hsame hstands⟩
    rw [e.placed_none]
    rfl
  | exhausted hh =>
    obtain rfl | rfl := hh
    · exact absurd rfl (hlevels _ rfl)
    · exact absurd rfl hends

/-- A program whose function `f` reads a global name that is a parameter of its caller `g`. The
global changes after both functions are declared. -/
def readingProgram : Node :=
  .program (.block
    [.declaration (.name "x") (.boolean true),
      .function (.name "f") [] (.name "x"),
      .function (.name "g") [.name "x"] (.call (.name "f") []),
      .assignment (.name "x") (.boolean false),
      .print (.call (.name "g") [.boolean true])])

private theorem readingProgram_isProgram : readingProgram.IsProgram := by
  refine .block {} {} fun s hs => ?_
  simp only [List.mem_cons, List.not_mem_nil, or_false] at hs
  obtain rfl | rfl | rfl | rfl | rfl := hs
  · exact .declaration "x" {} {} (.true {})
  · exact .function "f" {} [] {} {} (.name "x" {})
  · exact .function "g" {} [("x", {})] {} {} (.call "f" {} {} {} nofun)
  · exact .assignment "x" {} {} (.false {})
  · refine .print {} (.call "g" {} {} {} fun e he => ?_)
    obtain rfl := List.mem_singleton.mp he
    exact .true {}

/-- The program succeeds, without frames as well, and prints the value that the global has when `f`
is called. -/
theorem interpret_refines_reference_of_reading :
    readingProgram.IsProgram ∧ (interpret 1 readingProgram none none).outcome {} = .ok () ∧
      ((interpret 1 readingProgram none none).after {}).printed = #[(.standard, "false")] ∧
      ∃ s, Reference.Yields ({} : Options).prelude? 6 readingProgram (.ok ()) s ∧
        #[(Sink.standard, "false")] = (s.lines.map fun line => (Sink.standard, line)).toArray := by
  have hok : (interpret 1 readingProgram none none).outcome {} = .ok () := rfl
  have hprinted : ((interpret 1 readingProgram none none).after {}).printed =
      #[(.standard, "false")] := rfl
  refine ⟨readingProgram_isProgram, hok, hprinted, ?_⟩
  obtain ⟨r, s, hyields, hr, hlines, -⟩ :=
    interpret_refines_reference readingProgram_isProgram 1 none rfl {} (by simp [hok])
      (by simp [hok])
  rw [hok] at hr
  cases r with
  | error e => cases hr
  | ok a => exact ⟨s, hyields, hprinted ▸ hlines.trans (Array.empty_append ..)⟩

end Bella
