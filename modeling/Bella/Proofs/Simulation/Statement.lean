import Bella.Proofs.Simulation.Expression

/-!
# Simulations of statements and programs

A simulation of programs couples the execution of two statements on top of a simulation of their
expressions. It has a law for each thing that a statement does to the world: declaring a variable or
a function and noting so, assigning, printing, and noting that a program starts or a loop ends.
Corresponding statements are then executed alike, in every number of levels and passes, and so are
corresponding programs.

## Main definitions

* `Bella.StatementMatch`: statements that are executed by the same steps.
* `Bella.ProgramSimulation`: a simulation of expressions with the laws of statements.
* `Bella.Node.statementParts`, `Bella.Node.declaredFunction?`: the parts of a statement.

## Main results

* `Bella.ProgramSimulation.exec_agrees`: corresponding statements are executed alike.
* `Bella.ProgramSimulation.interpretIn_agrees`: corresponding programs run alike.
* `Bella.StatementMatch.of_similar`: similar statements are executed by the same steps if their parts
  correspond and they are refused alike.
* `Bella.StatementMatch.refl`: every statement is executed by the same steps as itself.
-/

namespace Bella

/-- Statements that are executed by the same steps, given which parts correspond. The names that are
declared or assigned are the same on both sides. -/
inductive StatementMatch (statements nodes : Node → Node → Prop) (targets : String → Prop)
    (functions : List String → Node → List String → Node → Prop) (halts : Halt → Halt → Prop) :
    Node → Node → Prop
  | halted {n n' : Node} {k k' : Halt} (h : ∀ passes parts f, execNode passes parts n f = throw k)
      (h' : ∀ passes parts f, execNode passes parts n' f = throw k') (hk : halts k k') :
      StatementMatch statements nodes targets functions halts n n'
  | program {n n' : Node} {ss ss' : List Node}
      (h : ∀ passes parts f, execNode passes parts n f = execAll parts.outermost f ss)
      (h' : ∀ passes parts f, execNode passes parts n' f = execAll parts.outermost f ss')
      (hss : List.Forall₂ statements ss ss') :
      StatementMatch statements nodes targets functions halts n n'
  | block {n n' : Node} {ss ss' : List Node}
      (h : ∀ passes parts f, execNode passes parts n f = execAll parts.statement f ss)
      (h' : ∀ passes parts f, execNode passes parts n' f = execAll parts.statement f ss')
      (hss : List.Forall₂ statements ss ss') :
      StatementMatch statements nodes targets functions halts n n'
  | declaration {x : String} {p p' : Position} {e e' : Node} {m m' : Mark} (he : nodes e e') :
      StatementMatch statements nodes targets functions halts
        (.tree StatementForm.declaration.label [.token TokenForm.name.type x p, e] m)
        (.tree StatementForm.declaration.label [.token TokenForm.name.type x p', e'] m')
  | function {x : String} {p p' : Position} {ps ps' body body' : Node} {m m' : Mark}
      {parameters parameters' : List String} (hps : Check.parameters ps = .ok parameters)
      (hps' : Check.parameters ps' = .ok parameters')
      (hfunction : functions parameters body parameters' body') :
      StatementMatch statements nodes targets functions halts
        (.tree StatementForm.function.label [.token TokenForm.name.type x p, ps, body] m)
        (.tree StatementForm.function.label [.token TokenForm.name.type x p', ps', body'] m')
  | assignment {x : String} {p p' : Position} {e e' : Node} {m m' : Mark} (hx : targets x)
      (he : nodes e e') :
      StatementMatch statements nodes targets functions halts
        (.tree StatementForm.assignment.label [.token TokenForm.name.type x p, e] m)
        (.tree StatementForm.assignment.label [.token TokenForm.name.type x p', e'] m')
  | print {e e' : Node} {m m' : Mark} (he : nodes e e') :
      StatementMatch statements nodes targets functions halts
        (.tree StatementForm.print.label [e] m) (.tree StatementForm.print.label [e'] m')
  | loop {t t' body body' : Node} {m m' : Mark} (ht : nodes t t') (hbody : statements body body') :
      StatementMatch statements nodes targets functions halts
        (.tree StatementForm.loop.label [t, body] m) (.tree StatementForm.loop.label [t', body'] m')

/-- A coupling with another notion of what the runs may do to their worlds. -/
def Coupling.changing (C : Coupling) (changes : World → World → World → World → Prop)
    (hrefl : ∀ w w', changes w w' w w')
    (htrans : ∀ {w w' v v' u u'}, changes w w' v v' → changes v v' u u' → changes w w' u u') :
    Coupling :=
  { C with grows := changes, grows_refl := hrefl, grows_trans := htrans }

/-- A simulation of expressions together with one of the statements around them. -/
structure ProgramSimulation extends Simulation where
  /-- The surroundings of an expression that stands in a statement. -/
  outermost : Context
  /-- The frames that statements act on. -/
  top : FrameId → FrameId → Prop
  /-- The statements that correspond to one another. -/
  statements : Node → Node → Prop
  /-- The names that statements may assign to. -/
  targets : String → Prop
  /-- The parameters and bodies of functions that correspond to one another. -/
  functions : List String → Node → List String → Node → Prop
  /-- What statements may do, together, to two worlds. -/
  changes : World → World → World → World → Prop
  changes_refl : ∀ w w', changes w w' w w'
  changes_trans : ∀ {w w' v v' u u'}, changes w w' v v' → changes v v' u u' → changes w w' u u'
  changes_of_grows : ∀ {w w' v v'}, grows w w' v v' → changes w w' v v'
  scope_top : ∀ {f f' w w'}, top f f' → worlds w w' → scope outermost f f' w w'
  statement_shape : ∀ {n n'}, statements n n' →
    StatementMatch statements (nodes outermost) targets functions halts n n'
  halts_locate_statement : ∀ {n n' h h'}, statements n n' → halts h h' →
    halts (h.locate n.position) (h'.locate n'.position)
  halts_leaveProgram : ∀ {h h'}, halts h h' → halts h.leaveProgram h'.leaveProgram
  excused_leaveProgram : ∀ {h}, excused h → excused h.leaveProgram
  start : ∀ {f f' w w'}, top f f' → worlds w w' →
    (toCoupling.changing changes changes_refl changes_trans).Agrees Eq
      (do Run.note (.interpreting (← Run.options f).scoping))
      (do Run.note (.interpreting (← Run.options f').scoping)) w w'
  finish : ∀ {done w w'}, worlds w w' →
    (toCoupling.changing changes changes_refl changes_trans).Agrees Eq (Run.note (.finished done))
      (Run.note (.finished done)) w w'
  declare : ∀ {x v v' f f' w w'}, toSetting.values v v' → top f f' → worlds w w' →
    (toCoupling.changing changes changes_refl changes_trans).Agrees Eq
      (do Run.declare f x v; Run.note (.declared x))
      (do Run.declare f' x v'; Run.note (.declared x)) w w'
  declareFunction : ∀ {x ps body ps' body' f f' w w'}, functions ps body ps' body' → top f f' →
    worlds w w' →
    (toCoupling.changing changes changes_refl changes_trans).Agrees Eq
      (do let _ ← Run.declareFunction f x ps body; Run.note (.declaredFunction x ps.length))
      (do let _ ← Run.declareFunction f' x ps' body'; Run.note (.declaredFunction x ps'.length))
      w w'
  assign : ∀ {x v v' f f' w w'}, targets x → toSetting.values v v' → top f f' → worlds w w' →
    (toCoupling.changing changes changes_refl changes_trans).Agrees Eq (Run.assign f x v)
      (Run.assign f' x v') w w'
  print : ∀ {line f f' w w'}, top f f' → worlds w w' →
    (toCoupling.changing changes changes_refl changes_trans).Agrees Eq
      (do Run.print (← Run.options f).sink line) (do Run.print (← Run.options f').sink line) w w'

namespace ProgramSimulation

variable (S : ProgramSimulation)

/-- The coupling of statements. -/
def outer : Coupling := S.toCoupling.changing S.changes S.changes_refl S.changes_trans

/-- What expressions do is among the things that statements may do. -/
theorem agrees_outer {α β : Type} {ρ : α → β → Prop} {x : Run α} {y : Run β} {w w' : World}
    (h : S.Agrees ρ x y w w') : S.outer.Agrees ρ x y w w' := by
  unfold Coupling.Agrees at h ⊢
  generalize x w = r, y w' = r' at h ⊢
  cases h with
  | ok hresult hworlds hgrows => exact .ok hresult hworlds (S.changes_of_grows hgrows)
  | error hhalts hworlds hgrows => exact .error hhalts hworlds (S.changes_of_grows hgrows)
  | excused hexcused => exact .excused hexcused

/-- Two executors that agree on corresponding statements. -/
def Executes (exec exec' : Executor) : Prop :=
  ∀ {n n' f f' w w'}, S.statements n n' → S.top f f' → S.worlds w w' →
    S.outer.Agrees Eq (exec n f) (exec' n' f') w w'

/-- Executors and evaluators for the parts of two statements, in the same number of levels, that
agree. -/
structure StatementPartsAgree (parts parts' : StatementParts) : Prop where
  levels : parts.levels = parts'.levels
  statement : S.Executes parts.statement parts'.statement
  outermost : S.Executes parts.outermost parts'.outermost
  expression : S.Evaluates parts.expression parts'.expression

variable {S} {f f' : FrameId} {w w' : World}

/-! ### Blocks and loops -/

theorem execAll_agrees {exec exec' : Executor} (hexec : S.Executes exec exec') {ss ss' : List Node}
    (hss : List.Forall₂ S.statements ss ss') (htop : S.top f f') (hworlds : S.worlds w w') :
    S.outer.Agrees Eq (execAll exec f ss) (execAll exec' f' ss') w w' := by
  induction hss generalizing w w' with
  | nil => exact .pure rfl hworlds
  | cons hs _ ih => exact .bind (hexec hs htop hworlds) fun _ _ v v' _ hv _ => ih hv

/-- An expression of a statement. -/
theorem expression_agrees {eval eval' : Evaluator} (heval : S.Evaluates eval eval') {e e' : Node}
    (he : S.nodes S.outermost e e') (htop : S.top f f') (hworlds : S.worlds w w') :
    S.outer.Agrees S.values (eval e f) (eval' e' f') w w' :=
  S.agrees_outer (heval he (S.scope_top htop hworlds) hworlds)

theorem evalTest_agrees {eval eval' : Evaluator} (heval : S.Evaluates eval eval') {t t' : Node}
    (ht : S.nodes S.outermost t t') (htop : S.top f f') (hworlds : S.worlds w w') :
    S.outer.Agrees Eq (evalTest eval f t) (evalTest eval' f' t') w w' :=
  .bind (expression_agrees heval ht htop hworlds) fun _ _ _ _ ha hv _ =>
    .check (Check.boolean_alike _ ha) hv

/-- Loops agree if their tests and bodies do, whatever they have led to. -/
theorem repeatWhile_agrees {test test' : Run Bool} {body body' : Run Unit}
    (htest : ∀ {v v'}, S.worlds v v' → S.outer.Agrees Eq test test' v v')
    (hbody : ∀ {v v'}, S.worlds v v' → S.outer.Agrees Eq body body' v v') (passes done : Nat)
    (hworlds : S.worlds w w') :
    S.outer.Agrees Eq (repeatWhile test body passes done) (repeatWhile test' body' passes done)
      w w' := by
  induction passes generalizing done w w' with
  | zero => exact .throw S.comparison.unfinished hworlds
  | succ passes ih =>
    refine .bind (htest hworlds) fun b b' v v' hb hv _ => ?_
    subst hb
    cases b with
    | false => exact .pure rfl hv
    | true => exact .bind (hbody hv) fun _ _ u u' _ hu _ => ih (done + 1) hu

/-! ### All statements -/

variable {parts parts' : StatementParts}

/-- Statements that are executed by the same steps are executed alike if their parts are. -/
theorem execNode_agrees (passes : Nat) (hparts : S.StatementPartsAgree parts parts') {n n' : Node}
    (hn : StatementMatch S.statements (S.nodes S.outermost) S.targets S.functions S.halts n n')
    (htop : S.top f f') (hworlds : S.worlds w w') :
    S.outer.Agrees Eq (execNode passes parts n f) (execNode passes parts' n' f') w w' := by
  cases hn with
  | halted h h' hk =>
    rw [h, h']
    exact .throw hk hworlds
  | program h h' hss =>
    rw [h, h']
    exact execAll_agrees hparts.outermost hss htop hworlds
  | block h h' hss =>
    rw [h, h']
    exact execAll_agrees hparts.statement hss htop hworlds
  | declaration he =>
    simp only [execNode, StatementForm.ofLabel?_label, execForm, execDeclaration,
      Run.check_identifier, pure_bind]
    refine .bind (expression_agrees hparts.expression he htop hworlds) fun a a' v v' ha hv _ => ?_
    exact S.declare ha htop hv
  | function hps hps' hfunction =>
    have hchecked (xs : List String) : Run.check (.ok xs) = pure xs := rfl
    simp only [execNode, StatementForm.ofLabel?_label, execForm, execFunction,
      Run.check_identifier, hps, hps', hchecked, pure_bind]
    exact S.declareFunction hfunction htop hworlds
  | assignment hx he =>
    simp only [execNode, StatementForm.ofLabel?_label, execForm, execAssignment,
      Run.check_identifier, pure_bind]
    refine .bind (expression_agrees hparts.expression he htop hworlds) fun a a' v v' ha hv _ => ?_
    exact S.assign hx ha htop hv
  | print he =>
    simp only [execNode, StatementForm.ofLabel?_label, execForm, execPrint, hparts.levels]
    refine .bind (expression_agrees hparts.expression he htop hworlds) fun a a' v v' ha hv _ => ?_
    refine .bind (.checkWithin (ha.renderWithin_alike _) hv) fun line line' u u' hline hu _ => ?_
    subst hline
    exact S.print htop hu
  | loop ht hbody =>
    simp only [execNode, StatementForm.ofLabel?_label, execForm, execLoop]
    refine .bind (repeatWhile_agrees (evalTest_agrees hparts.expression ht htop)
      (hparts.statement hbody htop) passes 0 hworlds) fun done done' v v' hdone hv _ => ?_
    subst hdone
    exact S.finish hv

variable (S)

private theorem exec_agrees_of_match {passes levels : Nat}
    (hstatement : S.Executes (exec passes (levels + 1)) (exec passes (levels + 1)))
    (houtermost : S.Executes (exec passes levels) (exec passes levels)) {n n' : Node}
    (hn : StatementMatch S.statements (S.nodes S.outermost) S.targets S.functions S.halts n n')
    (hlocate : ∀ h h', S.halts h h' → S.halts (h.locate n.position) (h'.locate n'.position))
    (htop : S.top f f') (hworlds : S.worlds w w') :
    S.outer.Agrees Eq (exec passes (levels + 4) n f) (exec passes (levels + 4) n' f') w w' := by
  have hparts : S.StatementPartsAgree
      { levels := levels + 1, statement := exec passes (levels + 1),
        outermost := exec passes levels, expression := eval (levels + 1) }
      { levels := levels + 1, statement := exec passes (levels + 1),
        outermost := exec passes levels, expression := eval (levels + 1) } :=
    ⟨rfl, hstatement, houtermost, S.eval_agrees _⟩
  exact (execNode_agrees passes hparts hn htop hworlds).within hlocate fun _ => S.excused_locate _

/-- Corresponding statements are executed alike, in every number of levels and passes. -/
theorem exec_agrees (passes levels : Nat) :
    S.Executes (exec passes levels) (exec passes levels) := by
  induction levels using Nat.strongRecOn with
  | ind levels ih =>
    intro n n' f f' w w' hn htop hworlds
    match levels with
    | levels + 4 =>
      exact S.exec_agrees_of_match (ih _ (by omega)) (ih _ (by omega)) (S.statement_shape hn)
        (fun _ _ => S.halts_locate_statement hn) htop hworlds
    | 0 | 1 | 2 | 3 => exact .throw S.comparison.overflow hworlds

/-- Programs that are executed by the same steps run alike. -/
theorem interpretIn_agrees (passes : Nat) {program program' : Node}
    (hmatch : StatementMatch S.statements (S.nodes S.outermost) S.targets S.functions S.halts
      program program')
    (hlocate : ∀ h h', S.halts h h' →
      S.halts (h.locate program.position) (h'.locate program'.position))
    (hlabel : program.label? = some StatementForm.program.label)
    (hlabel' : program'.label? = some StatementForm.program.label) (htop : S.top f f')
    (hworlds : S.worlds w w') :
    S.outer.Agrees Eq (interpretIn passes program f) (interpretIn passes program' f') w w' := by
  have hstart : S.outer.Agrees Eq (do Run.note (.interpreting (← Run.options f).scoping))
      (do Run.note (.interpreting (← Run.options f').scoping)) w w' := S.start htop hworlds
  simp only [interpretIn, interpretBy, hlabel, hlabel', if_true]
  rw [← bind_assoc, ← bind_assoc]
  refine .bind hstart fun _ _ u u' _ hu _ => ?_
  have hexec : S.outer.Agrees Eq (exec passes programLevels program f)
      (exec passes programLevels program' f') u u' :=
    S.exec_agrees_of_match (S.exec_agrees passes _) (S.exec_agrees passes _) hmatch hlocate htop hu
  exact hexec.adapt (fun _ _ => S.halts_leaveProgram) fun _ => S.excused_leaveProgram

end ProgramSimulation

/-! ### Similar statements -/

/-- The statements that a statement has as its parts. The block under a program is none of them, but
its statements are. -/
def Node.statementParts : Node → List Node
  | .tree label children _ =>
    match StatementForm.ofLabel? label, children with
    | some .program, [body] => body.children
    | some .block, _ => children
    | some .loop, [_, body] => [body]
    | _, _ => []
  | _ => []

/-- The parameters and the body of the function that a statement declares. -/
def Node.declaredFunction? : Node → Option (List String × Node)
  | .tree label children _ =>
    match StatementForm.ofLabel? label, children with
    | some .function, [_, parameters, body] =>
      (Check.parameters parameters).toOption.map fun ps => (ps, body)
    | _, _ => none
  | _ => none

/-- The parts of a statement are subtrees. -/
theorem Node.mem_subtrees_of_mem_statementParts {n s : Node} (hs : s ∈ n.statementParts) :
    s ∈ n.subtrees := by
  unfold statementParts at hs
  split at hs
  · rename_i label children m
    split at hs
    · exact subtrees_subset_of_mem_children (n := .tree label _ m) List.mem_cons_self
        (mem_subtrees_of_mem_children hs)
    · exact mem_subtrees_of_mem_children (n := .tree label _ m) hs
    · exact mem_subtrees_of_mem_children (n := .tree label _ m) (List.mem_cons_of_mem _ hs)
    · cases hs
  · cases hs

/-- The body of a function that a statement declares is one of its children. -/
theorem Node.mem_children_of_declaredFunction? {n body : Node} {ps : List String}
    (h : n.declaredFunction? = some (ps, body)) : body ∈ n.children := by
  unfold declaredFunction? at h
  split at h
  · split at h
    · obtain ⟨_, -, hq⟩ := Option.map_eq_some_iff.mp h
      cases hq
      simp [children]
    · cases h
  · cases h

theorem StatementForm.label_of_ofLabel? {label : String} {form : StatementForm}
    (h : ofLabel? label = some form) : label = form.label := by
  unfold ofLabel? at h
  split at h <;> first | (cases h; rfl) | contradiction

section Similar

variable {ρ statements nodes : Node → Node → Prop} {targets : String → Prop}
  {functions : List String → Node → List String → Node → Prop} {halts : Halt → Halt → Prop}

/-! A statement that is no hollow tree is refused with an error of the language, if it is refused at
all. -/

section Refused

variable (hρ : Node.IsSimilarity ρ)
  (hcauses : ∀ c c' : Cause, c.Similar ρ c' →
    halts (.error { cause := c }) (.error { cause := c' }))
include hρ hcauses

private theorem StatementMatch.program_of_similar {ns ns' : List Node} (m m' : Mark)
    (hns : List.Forall₂ ρ ns ns')
    (hstatements : ∀ s ∈ (Node.tree StatementForm.program.label ns m).statementParts, ∀ s', ρ s s' →
      statements s s') :
    StatementMatch statements nodes targets functions halts
      (.tree StatementForm.program.label ns m) (.tree StatementForm.program.label ns' m') := by
  obtain _ | @⟨body, body', _, _, hbody, _ | _⟩ := hns
  case cons.nil =>
    have hlabel_eq := hρ.label?_eq hbody
    by_cases hlabel : body'.label? = some StatementForm.block.label
    · have h {b : Node} {l : Mark} (hb : b.label? = body'.label?) (passes : Nat)
          (parts : StatementParts) (f : FrameId) :
          execNode passes parts (.tree StatementForm.program.label [b] l) f =
            execAll parts.outermost f b.children := by
        simp [execNode, execForm, execProgram, execBlock, hb, hlabel]
      exact .program (h hlabel_eq) (h rfl) (forall₂_of_mem (hρ.children hbody) hstatements)
    · have h {b : Node} {l : Mark} (hb : b.label? = body'.label?) (passes : Nat)
          (parts : StatementParts) (f : FrameId) :
          execNode passes parts (.tree StatementForm.program.label [b] l) f =
            throw (.error { cause := .notBlock b }) := by
        simp [execNode, execForm, execProgram, execBlock, hb, hlabel, Run.fail]
      exact .halted (h hlabel_eq) (h rfl) (hcauses _ _ (.notBlock hbody))
  all_goals exact .halted (fun _ _ _ => rfl) (fun _ _ _ => rfl) (hcauses _ _ (.same _))

/-- A declaration or an assignment is refused if what stands in the place of the name is none. -/
private theorem StatementMatch.named_of_similar (role : String) {named named' n n' : Node}
    (hnamed : ρ named named')
    (hsome : ∀ x p p', named = .token TokenForm.name.type x p →
      named' = .token TokenForm.name.type x p' →
      StatementMatch statements nodes targets functions halts n n')
    (hnone : ∀ c, Check.identifier role named = .error c → ∀ passes parts f,
      execNode passes parts n f = throw (.error { cause := c }))
    (hnone' : ∀ c, Check.identifier role named' = .error c → ∀ passes parts f,
      execNode passes parts n' f = throw (.error { cause := c })) :
    StatementMatch statements nodes targets functions halts n n' := by
  have hname_eq := Check.identifier_eq hρ role hnamed
  cases hname : Check.identifier role named' with
  | error c =>
    exact .halted (hnone c (hname_eq.trans hname)) (hnone' c hname) (hcauses _ _ (.same _))
  | ok x =>
    obtain ⟨p', hp'⟩ := Check.eq_token_of_identifier hname
    obtain ⟨p, hp⟩ := Check.eq_token_of_identifier (hname_eq.trans hname)
    exact hsome x p p' hp hp'

private theorem StatementMatch.function_of_similar {named named' ps ps' body body' : Node}
    (m m' : Mark) (hnamed : ρ named named') (hps : ρ ps ps')
    (hfunctions : ∀ parameters, Check.parameters ps = .ok parameters →
      functions parameters body parameters body') :
    StatementMatch statements nodes targets functions halts
      (.tree StatementForm.function.label [named, ps, body] m)
      (.tree StatementForm.function.label [named', ps', body'] m') := by
  have hnone {k ks b : Node} {l : Mark} (c : Cause)
      (hc : Check.identifier "Function name" k = .error c) (passes : Nat) (parts : StatementParts)
      (f : FrameId) :
      execNode passes parts (.tree StatementForm.function.label [k, ks, b] l) f =
        throw (.error { cause := c }) := by
    simp only [execNode, StatementForm.ofLabel?_label, execForm, execFunction, hc]
    rfl
  refine named_of_similar hρ hcauses "Function name" hnamed (fun x p p' hp hp' => ?_) hnone hnone
  subst hp hp'
  obtain ⟨parameters, hok, hok'⟩ | ⟨c, c', herror, herror', hc⟩ := Check.parameters_similar hρ hps
  · exact .function hok hok' (hfunctions parameters hok)
  · have h {q : Position} {ks b : Node} {l : Mark} {d : Cause}
        (hd : Check.parameters ks = .error d) (passes : Nat) (parts : StatementParts)
        (f : FrameId) :
        execNode passes parts (.tree StatementForm.function.label
          [.token TokenForm.name.type x q, ks, b] l) f = throw (.error { cause := d }) := by
      simp only [execNode, StatementForm.ofLabel?_label, execForm, execFunction,
        Run.check_identifier, pure_bind, hd]
      rfl
    exact .halted (h herror) (h herror') (hcauses c c' hc)

private theorem StatementMatch.declaration_of_similar {ns ns' : List Node} (m m' : Mark)
    (hns : List.Forall₂ ρ ns ns') (hnodes : ∀ e ∈ ns, ∀ e', ρ e e' → nodes e e') :
    StatementMatch statements nodes targets functions halts
      (.tree StatementForm.declaration.label ns m)
      (.tree StatementForm.declaration.label ns' m') := by
  have hnone {k b : Node} {l : Mark} (c : Cause)
      (hc : Check.identifier "Declared name" k = .error c) (passes : Nat) (parts : StatementParts)
      (f : FrameId) :
      execNode passes parts (.tree StatementForm.declaration.label [k, b] l) f =
        throw (.error { cause := c }) := by
    simp only [execNode, StatementForm.ofLabel?_label, execForm, execDeclaration, hc]
    rfl
  obtain _ | ⟨hnamed, _ | ⟨he, _ | _⟩⟩ := hns
  case cons.cons.nil =>
    refine named_of_similar hρ hcauses "Declared name" hnamed (fun x p p' hp hp' => ?_) hnone hnone
    subst hp hp'
    exact .declaration (hnodes _ (by simp) _ he)
  all_goals exact .halted (fun _ _ _ => rfl) (fun _ _ _ => rfl) (hcauses _ _ (.same _))

private theorem StatementMatch.assignment_of_similar (htargets : ∀ x, targets x)
    {ns ns' : List Node} (m m' : Mark) (hns : List.Forall₂ ρ ns ns')
    (hnodes : ∀ e ∈ ns, ∀ e', ρ e e' → nodes e e') :
    StatementMatch statements nodes targets functions halts
      (.tree StatementForm.assignment.label ns m)
      (.tree StatementForm.assignment.label ns' m') := by
  have hnone {k b : Node} {l : Mark} (c : Cause)
      (hc : Check.identifier "Assignment target" k = .error c) (passes : Nat)
      (parts : StatementParts) (f : FrameId) :
      execNode passes parts (.tree StatementForm.assignment.label [k, b] l) f =
        throw (.error { cause := c }) := by
    simp only [execNode, StatementForm.ofLabel?_label, execForm, execAssignment, hc]
    rfl
  obtain _ | ⟨hnamed, _ | ⟨he, _ | _⟩⟩ := hns
  case cons.cons.nil =>
    refine named_of_similar hρ hcauses "Assignment target" hnamed (fun x p p' hp hp' => ?_) hnone
      hnone
    subst hp hp'
    exact .assignment (htargets x) (hnodes _ (by simp) _ he)
  all_goals exact .halted (fun _ _ _ => rfl) (fun _ _ _ => rfl) (hcauses _ _ (.same _))

private theorem StatementMatch.tree_of_similar (htargets : ∀ x, targets x) (form : StatementForm)
    {ns ns' : List Node} (m m' : Mark) (hns : List.Forall₂ ρ ns ns')
    (hnodes : ∀ e ∈ ns, ∀ e', ρ e e' → nodes e e')
    (hstatements : ∀ s ∈ (Node.tree form.label ns m).statementParts, ∀ s', ρ s s' →
      statements s s')
    (hfunctions : ∀ ps body, (Node.tree form.label ns m).declaredFunction? = some (ps, body) →
      ∀ body', ρ body body' → functions ps body ps body') :
    StatementMatch statements nodes targets functions halts (.tree form.label ns m)
      (.tree form.label ns' m') := by
  cases form with
  | program => exact program_of_similar hρ hcauses m m' hns hstatements
  | block =>
    exact .block (fun _ _ _ => rfl) (fun _ _ _ => rfl) (forall₂_of_mem hns hstatements)
  | declaration => exact declaration_of_similar hρ hcauses m m' hns hnodes
  | assignment => exact assignment_of_similar hρ hcauses htargets m m' hns hnodes
  | print =>
    obtain _ | ⟨he, _ | _⟩ := hns
    case cons.nil => exact .print (hnodes _ (by simp) _ he)
    all_goals exact .halted (fun _ _ _ => rfl) (fun _ _ _ => rfl) (hcauses _ _ (.same _))
  | loop =>
    obtain _ | ⟨ht, _ | ⟨hbody, _ | _⟩⟩ := hns
    case cons.cons.nil =>
      exact .loop (hnodes _ (by simp) _ ht) (hstatements _ List.mem_cons_self _ hbody)
    all_goals exact .halted (fun _ _ _ => rfl) (fun _ _ _ => rfl) (hcauses _ _ (.same _))
  | function =>
    obtain _ | ⟨hnamed, _ | ⟨hps, _ | ⟨hbody, _ | _⟩⟩⟩ := hns
    case cons.cons.cons.nil =>
      refine function_of_similar hρ hcauses m m' hnamed hps fun parameters hok => ?_
      refine hfunctions parameters _ ?_ _ hbody
      simp [Node.declaredFunction?, hok, Except.toOption]
    all_goals exact .halted (fun _ _ _ => rfl) (fun _ _ _ => rfl) (hcauses _ _ (.same _))

/-- Similar statements are executed by the same steps if their parts correspond, and if, lacking
parts, they are refused alike. -/
theorem StatementMatch.of_similar (htargets : ∀ x, targets x) {n n' : Node} (hn : ρ n n')
    (hnodes : ∀ e ∈ n.subtrees, ∀ e', ρ e e' → nodes e e')
    (hdefects : n.hasParts = false → ∀ d, halts (.defect d) (.defect d))
    (hstatements : ∀ s ∈ n.statementParts, ∀ s', ρ s s' → statements s s')
    (hfunctions : ∀ ps body, n.declaredFunction? = some (ps, body) → ∀ body', ρ body body' →
      functions ps body ps body') :
    StatementMatch statements nodes targets functions halts n n' := by
  cases hρ hn with
  | token | improper | plain | list =>
    exact .halted (fun _ _ _ => rfl) (fun _ _ _ => rfl) (hcauses _ _ (.notStatement hn))
  | hollow label m m' =>
    cases hform : StatementForm.ofLabel? label with
    | none =>
      have h (l : Mark) (passes : Nat) (parts : StatementParts) (f : FrameId) :
          execNode passes parts (.hollow label l) f =
            throw (.error { cause := .unknownStatement label }) := by
        simp only [execNode, hform, Run.fail]
      exact .halted (h m) (h m') (hcauses _ _ (.same _))
    | some form =>
      obtain rfl := StatementForm.label_of_ofLabel? hform
      have hhollow := hdefects (by simp [Node.hasParts])
      cases form with
      | block =>
        have h (l : Mark) (passes : Nat) (parts : StatementParts) (f : FrameId) :
            execNode passes parts (.hollow StatementForm.block.label l) f =
              execAll parts.statement f [] := rfl
        exact .block (h m) (h m') .nil
      | program | declaration | function | assignment | print | loop =>
        exact .halted (fun _ _ _ => rfl) (fun _ _ _ => rfl) (hhollow _)
  | tree label m m' hns =>
    cases hform : StatementForm.ofLabel? label with
    | none =>
      have h (ks : List Node) (l : Mark) (passes : Nat) (parts : StatementParts) (f : FrameId) :
          execNode passes parts (.tree label ks l) f =
            throw (.error { cause := .unknownStatement label }) := by
        simp only [execNode, hform, Run.fail]
      exact .halted (h _ m) (h _ m') (hcauses _ _ (.same _))
    | some form =>
      obtain rfl := StatementForm.label_of_ofLabel? hform
      refine tree_of_similar hρ hcauses htargets form m m' hns (fun e he => hnodes e ?_)
        hstatements hfunctions
      exact Node.mem_subtrees_of_mem_children he

end Refused

/-- A statement is executed by the same steps as itself if its parts correspond to themselves, and
if, lacking parts, it is refused alike. -/
theorem StatementMatch.refl_of_subtrees
    (hcauses : ∀ c : Cause, halts (.error { cause := c }) (.error { cause := c }))
    (htargets : ∀ x, targets x) {n : Node} (hnodes : ∀ e ∈ n.subtrees, nodes e e)
    (hdefects : n.hasParts = false → ∀ d, halts (.defect d) (.defect d))
    (hstatements : ∀ s ∈ n.statementParts, statements s s)
    (hfunctions : ∀ ps body, n.declaredFunction? = some (ps, body) → functions ps body ps body) :
    StatementMatch statements nodes targets functions halts n n := by
  refine of_similar Node.isSimilarity_eq (fun c c' hc => ?_) htargets rfl ?_ hdefects ?_ ?_
  · rw [hc.eq_of_eq]
    exact hcauses c'
  · rintro e he _ rfl
    exact hnodes e he
  · rintro s hs _ rfl
    exact hstatements s hs
  · rintro ps body h _ rfl
    exact hfunctions ps body h

/-- Every statement, well-formed or not, is executed by the same steps as itself. -/
theorem StatementMatch.refl (hnodes : ∀ e, nodes e e) (htargets : ∀ x, targets x)
    (hhalts : ∀ h, halts h h) {n : Node} (hstatements : ∀ s ∈ n.statementParts, statements s s)
    (hfunctions : ∀ ps body, n.declaredFunction? = some (ps, body) → functions ps body ps body) :
    StatementMatch statements nodes targets functions halts n n :=
  refl_of_subtrees (fun _ => hhalts _) htargets (fun e _ => hnodes e) (fun _ _ => hhalts _)
    hstatements hfunctions

end Similar
end Bella
