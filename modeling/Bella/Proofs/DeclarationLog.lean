import Bella.Proofs.FlatCalls
import Bella.Proofs.LexicalRegion
import Bella.Proofs.Output
import Mathlib.Data.List.Perm.Basic

/-!
# The log of declarations

A run notes every name that it declares, after it has bound it. Under lexical scoping nothing else
binds a name in the frame that a statement acts on: calls bind their parameters in frames of their
own. So the records of a statement account for what its frame has got, name by name and without
repetition, and they do so after a statement that fails as well, since a declaration that fails binds
nothing. Only a handler of records that runs out of levels can come in between: the name is bound
then, but the record is lost.

Under flat scoping calls bind their parameters among the globals. A call that is refused at its second
parameter has bound the first one and is not noted, so the account is right if the run succeeds, once
the parameters of calls are counted in.

## Main definitions

* `Bella.Record.declaredNames`, `Bella.Record.boundNames`: the names that a record accounts for.
* `Bella.World.Accounts`: a frame has got the names that the records say.

## Main results

* `Bella.World.Accounts.trans`: accounts add up.
* `Bella.exec_accounts`: what a statement declares under lexical scoping.
* `Bella.FlatRun.interpretIn_accounts`: what a flat run binds if it succeeds.
* `Bella.declaration_log`: both.
-/

namespace Bella

/-! ### Accounts -/

/-- The names that a record says were declared. -/
def Record.declaredNames (r : Record) : List String := r.declaredName?.toList

/-- The names that a record says were declared or bound as parameters. -/
def Record.boundNames (r : Record) : List String :=
  r.declaredName?.toList ++ r.calledParameters?.getD []

/-- Going from the world `w` to `v`, the frame `f` has got the names of the records that were noted:
each of them once, none of them bound before, and no other name. -/
def World.Accounts (names : Record → List String) (f : FrameId) (w v : World) : Prop :=
  ∃ noted : List Record,
    v.records.toList = w.records.toList ++ noted ∧
    (noted.flatMap names).Nodup ∧
    (∀ x ∈ noted.flatMap names, w.store.binds f x = false) ∧
    ∀ x, v.store.binds f x = true ↔ w.store.binds f x = true ∨ x ∈ noted.flatMap names

namespace World.Accounts

variable {names : Record → List String} {f : FrameId} {w v u : World}

theorem trans (h : w.Accounts names f v) (h' : v.Accounts names f u) : w.Accounts names f u := by
  obtain ⟨noted, hrecords, hnodup, hfree, hbinds⟩ := h
  obtain ⟨noted', hrecords', hnodup', hfree', hbinds'⟩ := h'
  have hlater (x : String) (hx : x ∈ noted'.flatMap names) :
      w.store.binds f x = false ∧ x ∉ noted.flatMap names := by
    have hnot : ¬ v.store.binds f x = true := Bool.eq_false_iff.mp (hfree' x hx)
    rw [hbinds x, not_or] at hnot
    exact ⟨Bool.eq_false_iff.mpr hnot.1, hnot.2⟩
  refine ⟨noted ++ noted', ?_, ?_, ?_, fun x => ?_⟩
  · rw [hrecords', hrecords, List.append_assoc]
  · rw [List.flatMap_append]
    refine List.nodup_append.mpr ⟨hnodup, hnodup', ?_⟩
    rintro x hx _ hx' rfl
    exact (hlater x hx').2 hx
  · intro x hx
    rw [List.flatMap_append] at hx
    obtain hx | hx := List.mem_append.mp hx
    · exact hfree x hx
    · exact (hlater x hx).1
  · rw [hbinds' x, hbinds x, List.flatMap_append, List.mem_append, or_assoc]

/-- Nothing is noted, and the frame keeps its names. -/
theorem of_binds (hrecords : v.records = w.records)
    (hbinds : ∀ x, v.store.binds f x = w.store.binds f x) : w.Accounts names f v := by
  refine ⟨[], by simp [hrecords], List.nodup_nil, nofun, fun x => ?_⟩
  simp [hbinds x]

theorem refl (w : World) : w.Accounts names f w := of_binds rfl fun _ => rfl

/-- One record is noted, and its names are new to the frame. -/
theorem step {r : Record} (hrecords : v.records = w.records.push r) (hnodup : (names r).Nodup)
    (hfree : ∀ x ∈ names r, w.store.binds f x = false)
    (hbinds : ∀ x, v.store.binds f x = true ↔ w.store.binds f x = true ∨ x ∈ names r) :
    w.Accounts names f v := by
  have hnames : [r].flatMap names = names r := List.flatMap_singleton names r
  refine ⟨[r], ?_, ?_, ?_, ?_⟩
  · rw [hrecords, Array.toList_push]
  · rwa [hnames]
  · rwa [hnames]
  · rwa [hnames]

/-- A record is noted that accounts for nothing. -/
theorem noted (w : World) {r : Record} (hr : names r = []) : w.Accounts names f (w.noted r) :=
  step (r := r) rfl (by simp [hr]) (by simp [hr]) (by simp [hr, World.noted])

/-- A name that was free is bound and noted. -/
theorem declare {x : String} {r : Record} (hr : names r = [x]) (hf : ∃ F, w.store.get? f = some F)
    (hfree : w.store.binds f x = false) (a : Value) (n : Nat) :
    w.Accounts names f (World.noted { w with store := w.store.bind f x a, issued := n } r) := by
  obtain ⟨F, hF⟩ := hf
  refine step (r := r) rfl (by simp [hr]) (by simp [hr, hfree]) fun y => ?_
  have hown : (w.store.bind f x a).own? f y = if f = f ∧ x = y then some a else w.store.own? f y :=
    Store.own?_bind hF x a f y
  simp only [World.noted, Store.binds_eq_isSome_own?, hown, hr, List.mem_singleton, true_and]
  by_cases hxy : x = y
  · simp [hxy]
  · have hyx : ¬ y = x := fun h => hxy h.symm
    simp [hxy, hyx]

theorem update (i : FrameId) (x : String) (a : Value) :
    w.Accounts names f { w with store := w.store.update i x a } := by
  refine of_binds rfl fun y => ?_
  simp only [Store.binds_eq_isSome_own?, Store.own?_update]
  split
  · rw [Option.isSome_map]
  · rfl

/-- Another frame is added. -/
theorem append (w : World) (hf : f < w.store.next) (F : Frame) :
    w.Accounts names f (w.append F) := by
  refine of_binds rfl fun x => ?_
  simp only [Store.binds, World.append, Store.get?_append, if_neg (Nat.ne_of_lt hf)]

end World.Accounts

/-! ### Statements under lexical scoping -/

/-- No frame asks for flat scoping, and the frame `f` is there. -/
structure LexicalAt (f : FrameId) (w : World) : Prop where
  lexical : w.IsLexical
  there : f < w.store.next

namespace LexicalAt

variable {f : FrameId} {w : World}

private theorem exists_get? (h : LexicalAt f w) : ∃ F, w.store.get? f = some F :=
  ⟨_, Array.getElem?_eq_getElem h.there⟩

private theorem bind (h : LexicalAt f w) (i : FrameId) (x : String) (a : Value) (n : Nat) :
    LexicalAt f { w with store := w.store.bind i x a, issued := n } := by
  refine ⟨h.lexical.change (Store.get?_bind _ i x a) fun _ => rfl, ?_⟩
  rw [Store.next_bind]
  exact h.there

private theorem update (h : LexicalAt f w) (i : FrameId) (x : String) (a : Value) :
    LexicalAt f { w with store := w.store.update i x a } := by
  refine ⟨h.lexical.change (Store.get?_update _ i x a) fun _ => rfl, ?_⟩
  rw [Store.next_update]
  exact h.there

/-- A call makes a frame of its own. -/
private theorem enter (h : LexicalAt f w) {x : String} {k : Closure} {vs : List Value}
    (hlength : vs.length = k.parameters.length) (i : FrameId) :
    Run.Ends (enterCall x k vs i w)
      (fun _ v => LexicalAt f v ∧ w.Accounts Record.declaredNames f v)
      fun v => LexicalAt f v ∧ w.Accounts Record.declaredNames f v := by
  have happend : LexicalAt f
      (w.append ((Frame.ofCall w.store (k.home w.store i) x).bindAll (k.parameters.zip vs)).1) := by
    refine ⟨h.lexical.append_call (k.home w.store i) x (k.parameters.zip vs), ?_⟩
    rw [World.append, Store.next_append]
    exact Nat.lt_succ_of_lt h.there
  have haccounts : w.Accounts Record.declaredNames f
      (w.append ((Frame.ofCall w.store (k.home w.store i) x).bindAll (k.parameters.zip vs)).1) :=
    .append w h.there _
  rw [enterCall_lexical hlength (h.lexical.scoping_eq i) rfl]
  split
  · exact ⟨happend, haccounts⟩
  · exact ⟨⟨happend.lexical.noted _, happend.there⟩, haccounts.trans (.noted _ rfl)⟩

/-- Statements that act on the frame `f` account for the names that it gets. -/
def invariant (f : FrameId) : ProgramInvariant where
  holds := LexicalAt f
  scope _ _ := True
  closures _ := True
  grows := World.Accounts Record.declaredNames f
  grows_refl := .refl
  grows_trans := .trans
  scope_grows _ _ := trivial
  lookup _ _ _ _ _ := trivial
  enter := by
    rintro x k vs i w hw - - - hlength
    exact (hw.enter hlength i).mono (fun h => ⟨h.1, h.2, trivial⟩) id
  top i := i = f
  functions _ _ := True
  changes := World.Accounts Record.declaredNames f
  changes_refl := .refl
  changes_trans := .trans
  changes_of_grows := id
  scope_top _ _ := trivial
  start := by
    rintro _ w v - hw rfl
    exact ⟨⟨hw.lexical.noted _, hw.there⟩, .noted w rfl⟩
  finish := by
    rintro done w v hw rfl
    exact ⟨⟨hw.lexical.noted _, hw.there⟩, .noted w rfl⟩
  declare := by
    rintro _ x a w v rfl hw - hfree rfl
    obtain ⟨hlexical, hthere⟩ := hw.bind _ x a w.issued
    exact ⟨⟨hlexical.noted _, hthere⟩, .declare rfl hw.exists_get? hfree a w.issued⟩
  declareFunction := by
    rintro _ x ps body k w v rfl hw - hfree - rfl
    obtain ⟨hlexical, hthere⟩ := hw.bind _ x (.closure k) (w.issued + 1)
    exact ⟨⟨hlexical.noted _, hthere⟩, .declare rfl hw.exists_get? hfree (.closure k) _⟩
  assign := by
    rintro _ x i a w v rfl hw - - rfl
    exact ⟨hw.update i x a, .update i x a⟩
  print := by
    rintro _ line w v - hw rfl
    exact ⟨⟨hw.lexical, hw.there⟩, .of_binds rfl fun _ => rfl⟩

end LexicalAt

/-- The records of a statement account for the names that its frame has got, whether it succeeds or
fails. -/
theorem exec_accounts {w : World} (hw : w.IsLexical) {f : FrameId} (hf : f < w.store.next)
    (passes levels : Nat) (n : Node) :
    w.Accounts Record.declaredNames f ((exec passes levels n f).after w) :=
  ((LexicalAt.invariant f).exec_keeps passes levels (fun q (_ : q ∈ n.functions) => trivial) rfl
    ⟨hw, hf⟩).2

/-! ### Flat runs that succeed -/

namespace FlatRun

variable {R : FlatRun} {w v : World}

/-- A call that is entered accounts for its parameters. -/
private theorem accounts_of_enterCall (h : R.Holds w) {x : String} {k : Closure}
    (hk : R.Declares k) {vs : List Value} {t : FrameId}
    (hentered : enterCall x k vs R.ground.globals w = .ok t v) :
    w.Accounts Record.boundNames R.ground.globals v := by
  obtain ⟨D, hD, -⟩ := h.ground.globals
  have hscoping : (w.store.options R.ground.globals).scoping = .flat := by
    rw [Ground.Within.globals.options_eq h.ground, R.flat]
  have hhome : k.home w.store R.ground.globals = R.ground.globals := by
    rw [Closure.home, hk.1, Option.getD_some]
  by_cases hlength : vs.length = k.parameters.length
  · rw [enterCall_flat hlength hscoping hhome hD] at hentered
    cases hnone : (D.bindAll (k.parameters.zip vs)).2 with
    | some y =>
      rw [hnone] at hentered
      cases hentered
    | none =>
      rw [hnone] at hentered
      cases hentered
      obtain ⟨hnodup, hfree, hbound⟩ := bound_of_bindAll hlength hnone
      have hbinds (y : String) : w.store.binds R.ground.globals y = D.binds y := by
        simp [Store.binds, hD]
      refine .step (r := .called x k.parameters .flat) rfl hnodup (fun y hy => ?_) fun y => ?_
      · rw [hbinds]
        exact hfree y hy
      · have hafter : (w.replace R.ground.globals
            (D.bindAll (k.parameters.zip vs)).1).store.binds R.ground.globals y =
              (D.bindAll (k.parameters.zip vs)).1.binds y := by
          simp [Store.binds, World.replace, Store.get?_replace, hD]
        change (w.replace R.ground.globals
          (D.bindAll (k.parameters.zip vs)).1).store.binds R.ground.globals y = true ↔
            w.store.binds R.ground.globals y = true ∨ y ∈ k.parameters
        rw [hafter, hbinds]
        constructor
        · intro hy
          rw [Frame.binds_eq_isSome_get?, Frame.get?_bindAll hnone, Option.isSome_or,
            Bool.or_eq_true, ← Frame.binds_eq_isSome_get?] at hy
          refine hy.symm.imp_right fun hsome => ?_
          by_contra hmem
          rw [lookup_zip_eq_none hmem] at hsome
          cases hsome
        · rintro (hy | hy)
          · exact Frame.binds_bindAll hy _
          · exact hbound y hy
  · rw [enterCall_of_length_ne hlength] at hentered
    cases hentered

variable (R) (w₀ : World)

/-- A flat run beside itself, with an account since the world `w₀`. A run that halts is excused. -/
def accountSetting : Setting where
  worlds w w' := w = w' ∧ R.Holds w ∧ w₀.Accounts Record.boundNames R.ground.globals w
  grows _ _ _ _ := True
  halts := Eq
  excused _ := True
  grows_refl _ _ := trivial
  grows_trans _ _ := trivial
  comparison := Halt.isComparison_eq
  Context := Unit
  closures c d := c = d ∧ R.Declares c
  nodes _ := Eq
  names _ := Eq
  scope _ f f' _ _ := f = f' ∧ f = R.ground.globals

variable {R w₀}

/-- An action agrees with itself if, having a result, it leaves a world behind with an account. -/
private theorem accounts_agrees {α : Type} {ρ : α → α → Prop} {x : Run α}
    (h : ∀ a v, x w = .ok a v →
      ρ a a ∧ R.Holds v ∧ w₀.Accounts Record.boundNames R.ground.globals v) :
    (R.accountSetting w₀).Agrees ρ x x w w := by
  unfold Coupling.Agrees
  cases hx : x w with
  | error k v => exact .excused trivial
  | ok a v =>
    obtain ⟨ha, hv⟩ := h a v hx
    exact .ok ha ⟨rfl, hv⟩ trivial

/-- So does an action that is one step of the run. -/
private theorem accounts_step {x : Run Unit} (haccounts :
      w₀.Accounts Record.boundNames R.ground.globals w)
    (h : ∀ v, x w = .ok () v → R.Holds v ∧ w.Accounts Record.boundNames R.ground.globals v) :
    (R.accountSetting w₀).Agrees Eq x x w w :=
  accounts_agrees fun _ v hx => ⟨rfl, (h v hx).1, haccounts.trans (h v hx).2⟩

variable (R w₀)

/-- A flat run beside itself, with an account since the world `w₀`. -/
def accounting : ProgramSimulation where
  toSetting := R.accountSetting w₀
  shape := by
    rintro _ n _ rfl
    exact .refl (fun _ => rfl) (fun _ => rfl) (fun _ => rfl) n
  closures_id h := congrArg Closure.id h.1
  halts_locate := by
    rintro _ n _ h _ rfl rfl
    rfl
  excused_locate _ := id
  excused_overflow := id
  halts_notCallable := by
    rintro _ x _ kind rfl
    rfl
  scope_grows hscope _ := hscope
  lookup := by
    rintro _ x _ f _ w _ rfl ⟨rfl, rfl⟩ ⟨rfl, hw, haccounts⟩
    refine accounts_agrees fun a v hx => ?_
    obtain ⟨hlookup, rfl⟩ := Run.lookup_eq_ok_iff.mp hx
    exact ⟨(R.invariant.lookup hw rfl hlookup).related, hw, haccounts⟩
  call := by
    rintro eval eval' _ x _ k _ vs vs' f _ w _ heval rfl ⟨rfl, hk⟩ hvs ⟨rfl, rfl⟩
      ⟨rfl, hw, haccounts⟩
    obtain ⟨rfl, hholds⟩ := Value.Related.forall₂_holdsOnly hvs
    have henter : (R.accountSetting w₀).Agrees (fun t t' => t = t' ∧ t = R.ground.globals)
        (enterCall x k vs R.ground.globals) (enterCall x k vs R.ground.globals) w w := by
      refine accounts_agrees fun t v hentered => ?_
      obtain ⟨ht, hv, -⟩ := hw.enterCall_ok hk hholds hentered
      exact ⟨⟨rfl, ht⟩, hv, haccounts.trans (accounts_of_enterCall hw hk hentered)⟩
    rw [callClosure_eq_enterCall, callClosure_eq_enterCall]
    exact .bind henter fun t t' v v' ht hv _ => heval (c := ()) rfl ht hv
  outermost := ()
  top f f' := f = f' ∧ f = R.ground.globals
  statements n n' := n = n' ∧ ∀ q ∈ n.functions, q.1 ∈ R.parameters
  targets _ := True
  functions ps body ps' body' := ps = ps' ∧ body = body' ∧ ps ∈ R.parameters
  changes _ _ _ _ := True
  changes_refl _ _ := trivial
  changes_trans _ _ := trivial
  changes_of_grows _ := trivial
  scope_top htop _ := htop
  statement_shape := by
    rintro n _ ⟨rfl, hn⟩
    refine .refl (fun _ => rfl) (fun _ => trivial) (fun _ => rfl) (fun s hs => ⟨rfl, ?_⟩)
      fun ps body h => ⟨rfl, rfl, hn _ (Node.mem_functions_of_declaredFunction? h)⟩
    exact fun q hq => hn q (Node.functions_subset_of_mem_statementParts hs hq)
  halts_locate_statement := by
    rintro n _ h _ ⟨rfl, -⟩ rfl
    rfl
  halts_leaveProgram := by
    rintro h _ rfl
    rfl
  excused_leaveProgram := id
  start := by
    rintro f _ w _ ⟨rfl, rfl⟩ ⟨rfl, hw, haccounts⟩
    refine accounts_step haccounts ?_
    rintro v ⟨⟩
    exact ⟨(R.invariant.start rfl hw rfl).1, .noted w rfl⟩
  finish := by
    rintro done w _ ⟨rfl, hw, haccounts⟩
    refine accounts_step haccounts ?_
    rintro v ⟨⟩
    exact ⟨(R.invariant.finish hw rfl).1, .noted w rfl⟩
  declare := by
    rintro x a a' f _ w _ ha ⟨rfl, rfl⟩ ⟨rfl, hw, haccounts⟩
    obtain rfl := ha.eq_of_holdsOnly
    obtain ⟨F, hF, -⟩ := hw.ground.globals
    refine accounts_step haccounts fun v hv => ?_
    rw [Run.bind_apply, Run.declare_apply] at hv
    cases hfree : w.store.binds R.ground.globals x with
    | true =>
      rw [hfree] at hv
      cases hv
    | false =>
      rw [hfree] at hv
      cases hv
      exact ⟨(R.invariant.declare rfl hw ha.holdsOnly hfree rfl).1,
        .declare rfl ⟨F, hF⟩ hfree a w.issued⟩
  declareFunction := by
    rintro x ps body _ _ f _ w _ ⟨rfl, rfl, hps⟩ ⟨rfl, rfl⟩ ⟨rfl, hw, haccounts⟩
    obtain ⟨F, hF, -⟩ := hw.ground.globals
    refine accounts_step haccounts fun v hv => ?_
    rw [Run.bind_apply, Run.declareFunction_apply] at hv
    cases hfree : w.store.binds R.ground.globals x with
    | true =>
      rw [hfree] at hv
      cases hv
    | false =>
      rw [hfree] at hv
      cases hv
      exact ⟨(R.invariant.declareFunction rfl hw hps hfree rfl rfl).1,
        .declare rfl ⟨F, hF⟩ hfree _ _⟩
  assign := by
    rintro x a a' f _ w _ - ha ⟨rfl, rfl⟩ ⟨rfl, hw, haccounts⟩
    obtain rfl := ha.eq_of_holdsOnly
    refine accounts_step haccounts fun v hv => ?_
    rw [Run.assign_apply] at hv
    cases hresolve : w.store.resolve? R.ground.globals x with
    | none =>
      rw [hresolve] at hv
      cases hv
    | some i =>
      rw [hresolve] at hv
      cases hv
      exact ⟨(R.invariant.assign rfl hw ha.holdsOnly hresolve rfl).1, .update i x a⟩
  print := by
    rintro line f _ w _ ⟨rfl, rfl⟩ ⟨rfl, hw, haccounts⟩
    refine accounts_step haccounts ?_
    rintro v ⟨⟩
    have hprint := R.invariant.print (v := { w with
      printed := w.printed.push ((w.store.options R.ground.globals).sink, line) }) rfl hw rfl
    exact ⟨hprint.1, .of_binds rfl fun _ => rfl⟩

variable {R}

/-- The records of a flat run that succeeds account for all that it has bound among the globals. -/
theorem interpretIn_accounts (passes : Nat) {program : Node}
    (hprogram : ∀ q ∈ program.functions, q.1 ∈ R.parameters) (hw : R.Holds w)
    (hok : interpretIn passes program R.ground.globals w = .ok () v) :
    w.Accounts Record.boundNames R.ground.globals v := by
  by_cases hlabel : program.label? = some StatementForm.program.label
  · have hworlds : (R.accounting w).worlds w w := ⟨rfl, hw, .refl w⟩
    have hagrees := (R.accounting w).interpretIn_agrees passes
      ((R.accounting w).statement_shape ⟨rfl, hprogram⟩)
      (fun _ _ => (R.accounting w).halts_locate_statement ⟨rfl, hprogram⟩)
      hlabel hlabel (f := R.ground.globals) ⟨rfl, rfl⟩ hworlds
    unfold Coupling.Agrees at hagrees
    rw [hok] at hagrees
    cases hagrees with
    | ok _ hworlds _ => exact hworlds.2.2
  · rw [interpretIn_of_label_ne _ hlabel] at hok
    cases hok

end FlatRun

/-! ### The log -/

/-- The names that are declared and those that are bound by calls, sorted by what they are. -/
private theorem flatMap_boundNames_perm (noted : List Record) :
    (noted.flatMap Record.boundNames).Perm (noted.filterMap Record.declaredName? ++
      (noted.filterMap Record.calledParameters?).flatten) := by
  induction noted with
  | nil => exact .refl _
  | cons r noted ih =>
    rw [List.flatMap_cons, Record.boundNames]
    cases r with
    | declared x | declaredFunction x arity => exact ih.cons x
    | called name ps scoping =>
      have hswap : (ps ++ noted.flatMap Record.boundNames).Perm
          (noted.filterMap Record.declaredName? ++
            (ps ++ (noted.filterMap Record.calledParameters?).flatten)) := by
        refine (ih.append_left ps).trans ?_
        rw [← List.append_assoc, ← List.append_assoc]
        exact List.perm_append_comm.append_right _
      exact hswap
    | interpreting scoping | finished passes => exact ih

/-- **The log of declarations is the growth of a frame.** In a world without flat scoping, let a
statement be executed in a frame that is there, under a handler of records or under none, and
whether it succeeds or fails; but if there is a handler, it must not run out of levels. The names
that its records say were declared are different from one another and were not bound in the frame
before; together with the names that were, they are all names that the frame binds afterwards.

And if a program succeeds under flat scoping on a fresh frame, its global names are those that the
records say were declared, and the parameters of the calls that were noted: all of them are
different from one another, and there are no others. -/
theorem declaration_log (need passes : Nat) (w : World) :
    (w.IsLexical → ∀ (levels : Nat) (n : Node) (f : FrameId), f < w.store.next →
      (need = 0 ∨ (execLogged need passes levels n f).outcome w ≠ .error .overflow) →
      ∃ noted : List Record,
        ((execLogged need passes levels n f).after w).records.toList =
          w.records.toList ++ noted ∧
        (noted.filterMap Record.declaredName?).Nodup ∧
        (∀ x ∈ noted.filterMap Record.declaredName?, w.store.binds f x = false) ∧
        ∀ x, ((execLogged need passes levels n f).after w).store.binds f x = true ↔
          w.store.binds f x = true ∨ x ∈ noted.filterMap Record.declaredName?) ∧
    ∀ (program : Node) (o : Options), o.scoping = .flat →
      (interpretLogged need passes program none (some o)).outcome w = .ok () →
      ∃ noted : List Record,
        ((interpretLogged need passes program none (some o)).after w).records.toList =
          w.records.toList ++ noted ∧
        (noted.filterMap Record.declaredName? ++
          (noted.filterMap Record.calledParameters?).flatten).Nodup ∧
        ∀ x, ((interpretLogged need passes program none (some o)).after w).store.binds
            (Ground.fresh o w).globals x = true ↔
          x ∈ noted.filterMap Record.declaredName? ++
            (noted.filterMap Record.calledParameters?).flatten := by
  refine ⟨fun hw levels n f hf hhandler => ?_, fun program o ho hok => ?_⟩
  · have hsame : execLogged need passes levels n f w = exec passes levels n f w := by
      obtain rfl | hends := hhandler
      · rw [execLogged_zero]
      · exact (execLogged_below need passes levels n f).eq_of_ne hends
    obtain ⟨noted, haccount⟩ := exec_accounts hw hf passes levels n
    have hnames : noted.flatMap Record.declaredNames = noted.filterMap Record.declaredName? :=
      (List.filterMap_eq_flatMap_toList _ _).symm
    rw [hnames] at haccount
    rw [Run.after_congr hsame]
    exact ⟨noted, haccount⟩
  · have hsame : interpretLogged need passes program none (some o) w =
        interpret passes program none (some o) w :=
      (interpretLogged_cases need passes program none (some o) w).resolve_right fun hcut => by
        rw [hcut.1] at hok
        cases hok
    rw [Run.outcome_congr hsame] at hok
    rw [Run.after_congr hsame]
    obtain ⟨u, hlaid, hrun⟩ := interpret_fresh passes program (some o) w
    let R := FlatRun.ofProgram program ho w
    cases hend : interpretIn passes program R.ground.globals u with
    | error k v =>
      rw [Run.outcome, hrun.trans hend] at hok
      cases hok
    | ok a v =>
      have hafter : (interpret passes program none (some o)).after w = v := by
        rw [Run.after, hrun.trans hend]
      obtain ⟨noted, hrecords, hnodup, -, hbinds⟩ := FlatRun.interpretIn_accounts (R := R) passes
        (fun q hq => List.mem_map_of_mem hq) (FlatRun.holds_of_isLaid ho hlaid) hend
      have hperm := flatMap_boundNames_perm noted
      rw [hafter]
      refine ⟨noted, ?_, hperm.nodup_iff.mp hnodup, fun x => ?_⟩
      · rw [hrecords, hlaid.records]
      · have hfresh : u.store.binds R.ground.globals x = false := by
          rw [Store.binds_eq_isSome_own?]
          exact congrArg Option.isSome (hlaid.global?_eq x)
        have hx := hbinds x
        rw [hfresh, hperm.mem_iff] at hx
        exact hx.trans (or_iff_right Bool.false_ne_true)

/-- A program that declares a variable and a function, and another variable by calling the
function. -/
def loggedProgram : Node :=
  .program (.block
    [.declaration (.name "a") (.boolean true),
     .function (.name "f") [.name "x", .name "y"] (.name "y"),
     .declaration (.name "b") (.call (.name "f") [.name "a", .boolean false])])

/-- Where the name of the function is taken, the program fails and leaves the first variable behind.
On a fresh frame it succeeds, and under flat scoping the parameters are among the globals. -/
theorem declaration_log_of_loggedProgram :
    (execLogged recordLevels 1 100 loggedProgram 0).outcome negationWorld =
        .error (.error { cause := .alreadyDeclared "f" .function }) ∧
      ((execLogged recordLevels 1 100 loggedProgram 0).after negationWorld).records =
        #[.declared "a"] ∧
      (∀ x, ((execLogged recordLevels 1 100 loggedProgram 0).after negationWorld).store.binds 0 x =
        true ↔ negationWorld.store.binds 0 x = true ∨ x ∈ ["a"]) ∧
      (interpretLogged recordLevels 1 loggedProgram none (some { scoping := .flat })).outcome {} =
        .ok () ∧
      ∀ x, ((interpretLogged recordLevels 1 loggedProgram none
          (some { scoping := .flat })).after {}).store.binds 0 x =
        true ↔ x ∈ ["a", "f", "b"] ++ ["x", "y"] := by
  have hfails : (execLogged recordLevels 1 100 loggedProgram 0).outcome negationWorld =
      .error (.error { cause := .alreadyDeclared "f" .function }) := rfl
  obtain ⟨noted, hrecords, -, -, hbinds⟩ :=
    (declaration_log recordLevels 1 negationWorld).1 negationWorld_isLexical 100 loggedProgram 0
      (by decide) (.inr (hfails ▸ nofun))
  obtain rfl : noted = [.declared "a"] := hrecords.symm
  have hsucceeds : (interpretLogged recordLevels 1 loggedProgram none
      (some { scoping := .flat })).outcome {} = .ok () := rfl
  obtain ⟨flat, hflat, -, hglobals⟩ :=
    (declaration_log recordLevels 1 {}).2 loggedProgram { scoping := .flat } rfl hsucceeds
  obtain rfl : flat = [.interpreting .flat, .declared "a", .declaredFunction "f" 2,
    .called "f" ["x", "y"] .flat, .declared "b"] := hflat.symm
  exact ⟨hfails, rfl, hbinds, hsucceeds, hglobals⟩

/-- A variable is declared, although the handler has too few levels left for its record. The
declaration fails, and no record says that it was made. -/
theorem execLogged_declaration_cut_off :
    negationWorld.IsLexical ∧
      (execLogged recordLevels 1 13 (.declaration (.name "x") (.boolean true)) 0).outcome
        negationWorld = .error .overflow ∧
      ((execLogged recordLevels 1 13 (.declaration (.name "x") (.boolean true)) 0).after
        negationWorld).records = negationWorld.records ∧
      negationWorld.store.binds 0 "x" = false ∧
      ((execLogged recordLevels 1 13 (.declaration (.name "x") (.boolean true)) 0).after
        negationWorld).store.binds 0 "x" = true :=
  ⟨negationWorld_isLexical, rfl, rfl, rfl, rfl⟩

end Bella
