import Bella.Proofs.Simulation.Statement

/-!
# Runs that write elsewhere

A run does not read what it has written. Of the records nothing is ever looked at, and of the options
of a frame the sink is used to print and for nothing else. So two runs of one program go through the
same steps if their worlds differ in the sinks of frames and lines and in what had been noted before:
they end alike, print the same lines to the sinks that correspond to one another, and note the same
records.

Frames without options print to the standard output, which therefore has to correspond to itself.

## Main definitions

* `Bella.Store.redirect`: the store with other sinks.
* `Bella.Redirection`: other sinks, and other records from before.
* `Bella.Redirection.Couples`: worlds that differ in these.
* `Bella.Redirection.simulation`: two runs in such worlds.

## Main results

* `Bella.Store.lookup?_redirect`, `Bella.Store.root_redirect`: names and chains do not depend on
  sinks.
* `Bella.Redirection.exec_agrees`: a statement is executed alike.
* `Bella.Redirection.interpret_fresh_agrees`: a program runs alike in a fresh frame.
-/

namespace Bella

/-! ### Other sinks -/

/-- The options with the sink that stands for theirs. -/
def Options.redirect (σ : Sink → Sink) (o : Options) : Options := { o with sink := σ o.sink }

/-- The frame with the sink that stands for its own. -/
def Frame.redirect (σ : Sink → Sink) (F : Frame) : Frame :=
  { F with options := F.options.map (Options.redirect σ) }

namespace Store

/-- The store with the sinks that stand for those of its frames. -/
def redirect (σ : Sink → Sink) (s : Store) : Store := { frames := s.frames.map (Frame.redirect σ) }

variable (σ : Sink → Sink) (s : Store)

theorem get?_redirect (i : FrameId) :
    (s.redirect σ).get? i = (s.get? i).map (Frame.redirect σ) := by
  simp [get?, redirect]

theorem next_redirect : (s.redirect σ).next = s.next := by simp [next, redirect]

theorem own?_redirect (i : FrameId) (x : String) : (s.redirect σ).own? i x = s.own? i x := by
  rw [own?, own?, get?_redirect]
  cases s.get? i <;> rfl

theorem binds_redirect (i : FrameId) (x : String) : (s.redirect σ).binds i x = s.binds i x := by
  rw [binds_eq_isSome_own?, binds_eq_isSome_own?, own?_redirect]

theorem options?_redirect (i : FrameId) :
    (s.redirect σ).options? i = (s.options? i).map (Options.redirect σ) := by
  rw [options?, options?, get?_redirect]
  cases s.get? i <;> rfl

/-- The options in force in a frame, if the standard output stands for itself. -/
theorem options_redirect {σ : Sink → Sink} (hσ : σ .standard = .standard) (i : FrameId) :
    (s.redirect σ).options i = (s.options i).redirect σ := by
  rw [options, options, options?_redirect]
  cases s.options? i with
  | none => simp [Options.redirect, hσ]
  | some o => rfl

theorem chain_redirect (i : FrameId) : (s.redirect σ).chain i = s.chain i := by
  unfold chain
  generalize i + 1 = fuel
  induction fuel generalizing i with
  | zero => rfl
  | succ fuel ih =>
    rw [chainUpTo, chainUpTo, get?_redirect]
    cases s.get? i with
    | none => rfl
    | some F => simp only [Option.map_some, Frame.redirect, ih]

theorem root_redirect (i : FrameId) : (s.redirect σ).root i = s.root i := by
  rw [root, root, chain_redirect]

theorem resolve?_redirect (i : FrameId) (x : String) :
    (s.redirect σ).resolve? i x = s.resolve? i x := by
  simp only [resolve?, chain_redirect, binds_redirect]

theorem lookup?_redirect (i : FrameId) (x : String) :
    (s.redirect σ).lookup? i x = s.lookup? i x := by
  simp only [lookup?_eq_findSome?, chain_redirect, own?_redirect]

/-! Whatever is done to a store may be done before or after its sinks are exchanged. -/

theorem redirect_append (F : Frame) :
    (s.append F).redirect σ = (s.redirect σ).append (F.redirect σ) := by
  simp [append, redirect]

/-- A change to one frame that has nothing to do with sinks. -/
private theorem redirect_modify (i : FrameId) {g : Frame → Frame}
    (hg : ∀ F, (g F).redirect σ = g (F.redirect σ)) :
    redirect σ { frames := s.frames.modify i g } =
      { frames := (s.redirect σ).frames.modify i g } := by
  ext1
  apply Array.ext_getElem?
  intro j
  by_cases hij : i = j <;>
    simp [redirect, Array.getElem?_modify, hij, Function.comp_def, hg]

theorem redirect_bind (i : FrameId) (x : String) (v : Value) :
    (s.bind i x v).redirect σ = (s.redirect σ).bind i x v :=
  redirect_modify σ s i fun _ => rfl

theorem redirect_update (i : FrameId) (x : String) (v : Value) :
    (s.update i x v).redirect σ = (s.redirect σ).update i x v :=
  redirect_modify σ s i fun _ => rfl

theorem redirect_id : s.redirect id = s := by
  have hoptions : Options.redirect id = id := rfl
  have hframe : Frame.redirect id = id := by
    funext F
    rw [Frame.redirect, hoptions, Option.map_id]
    rfl
  simp [redirect, hframe]

end Store

/-! ### Two worlds -/

/-- How two runs may differ: in their sinks, and in the records from before. -/
structure Redirection where
  /-- The sink of the second run that stands for one of the first. -/
  sinks : Sink → Sink
  /-- The records that were noted before the first run. -/
  before : List Record
  /-- The records that were noted before the second run. -/
  before' : List Record
  standard : sinks .standard = .standard

namespace Redirection

variable (R : Redirection)

/-- The world `w'` is the world `w` with other sinks and other records from before. -/
structure Couples (w w' : World) : Prop where
  store : w'.store = w.store.redirect R.sinks
  printed : w'.printed = w.printed.map fun line => (R.sinks line.1, line.2)
  issued : w'.issued = w.issued
  records : ∃ noted, w.records.toList = R.before ++ noted ∧ w'.records.toList = R.before' ++ noted

/-- Two runs in worlds that differ in sinks and in the records from before. -/
def coupling : Coupling where
  worlds := R.Couples
  grows _ _ _ _ := True
  halts := Eq
  excused _ := False
  grows_refl _ _ := trivial
  grows_trans _ _ := trivial
  comparison := Halt.isComparison_eq

variable {R} {w w' : World} (h : R.Couples w w')
include h

/-! ### What the runs do -/

/-- A change to the frames that does not depend on sinks. -/
theorem Couples.change {s s' : Store} (hs : s' = s.redirect R.sinks) (n : Nat) :
    R.Couples { w with store := s, issued := n } { w' with store := s', issued := n } :=
  ⟨hs, h.printed, rfl, h.records⟩

theorem note_agrees (r : Record) : R.coupling.Agrees Eq (Run.note r) (Run.note r) w w' := by
  obtain ⟨noted, hrecords, hrecords'⟩ := h.records
  refine .ok rfl ⟨h.store, h.printed, h.issued, noted ++ [r], ?_, ?_⟩ trivial
  · rw [Array.toList_push, hrecords, List.append_assoc]
  · rw [Array.toList_push, hrecords', List.append_assoc]

theorem options_agrees (f : FrameId) :
    R.coupling.Agrees (fun o o' => o' = o.redirect R.sinks) (Run.options f) (Run.options f) w w' :=
  .ok (by rw [h.store, Store.options_redirect _ R.standard]) h trivial

theorem print_agrees (sink : Sink) (line : String) :
    R.coupling.Agrees Eq (Run.print sink line) (Run.print (R.sinks sink) line) w w' := by
  refine .ok rfl ⟨h.store, ?_, h.issued, h.records⟩ trivial
  simp [h.printed]

theorem lookup_agrees (f : FrameId) (x : String) :
    R.coupling.Agrees (Value.Related Eq) (Run.lookup f x) (Run.lookup f x) w w' := by
  unfold Coupling.Agrees
  rw [Run.lookup_apply, Run.lookup_apply, h.store, Store.lookup?_redirect]
  cases w.store.lookup? f x with
  | none => exact .error rfl h trivial
  | some v => exact .ok (.refl (fun _ => rfl) v) h trivial

theorem declare_agrees (f : FrameId) (x : String) (v : Value) :
    R.coupling.Agrees Eq (Run.declare f x v) (Run.declare f x v) w w' := by
  unfold Coupling.Agrees
  rw [Run.declare_apply, Run.declare_apply, h.store, Store.binds_redirect]
  split
  · exact .error rfl h trivial
  · refine .ok rfl ⟨?_, h.printed, h.issued, h.records⟩ trivial
    exact (Store.redirect_bind _ _ f x v).symm

theorem declareFunction_agrees (f : FrameId) (x : String) (ps : List String) (body : Node) :
    R.coupling.Agrees Eq (Run.declareFunction f x ps body) (Run.declareFunction f x ps body)
      w w' := by
  unfold Coupling.Agrees
  rw [Run.declareFunction_apply, Run.declareFunction_apply, h.store, Store.binds_redirect, h.issued]
  split
  · exact .error rfl h trivial
  · exact .ok rfl (h.change (Store.redirect_bind _ _ f x _).symm _) trivial

theorem assign_agrees (f : FrameId) (x : String) (v : Value) :
    R.coupling.Agrees Eq (Run.assign f x v) (Run.assign f x v) w w' := by
  unfold Coupling.Agrees
  rw [Run.assign_apply, Run.assign_apply, h.store, Store.resolve?_redirect]
  cases w.store.resolve? f x with
  | none => exact .error rfl h trivial
  | some i =>
    refine .ok rfl ⟨?_, h.printed, h.issued, h.records⟩ trivial
    exact (Store.redirect_update _ _ i x v).symm

theorem newFrame_agrees (parent : Option FrameId) (label : String) (o : Option Options) :
    R.coupling.Agrees Eq (Run.newFrame parent label o)
      (Run.newFrame parent label (o.map (Options.redirect R.sinks))) w w' := by
  have hinherited : parent.bind w'.store.options? =
      (parent.bind w.store.options?).map (Options.redirect R.sinks) := by
    cases parent with
    | none => rfl
    | some i => simp only [Option.bind_some, h.store, Store.options?_redirect]
  unfold Coupling.Agrees
  rw [Run.newFrame_apply, Run.newFrame_apply]
  refine .ok ?_ ⟨?_, h.printed, h.issued, h.records⟩ trivial
  · rw [h.store, Store.next_redirect]
  · simp only [World.append, h.store, Store.redirect_append, Frame.redirect] at hinherited ⊢
    cases o <;> simp [hinherited]

theorem declareAll_agrees (f : FrameId) (bs : List (String × Value)) :
    R.coupling.Agrees Eq (Run.declareAll f bs) (Run.declareAll f bs) w w' := by
  induction bs generalizing w w' with
  | nil => exact .pure rfl h
  | cons b bs ih => exact .bind (declare_agrees h f b.1 b.2) fun _ _ _ _ _ hv _ => ih hv

/-! ### Calls -/

/-- A call gets to the body of the closure in the same frame. -/
theorem enterCall_agrees (x : String) (k : Closure) (vs : List Value) (f : FrameId) :
    R.coupling.Agrees Eq (enterCall x k vs f) (enterCall x k vs f) w w' := by
  unfold enterCall
  split
  · exact .fail rfl h
  · have hget : R.coupling.Agrees R.Couples get get w w' := .ok h h trivial
    refine .bind hget fun u u' v v' hu hv _ => ?_
    have hhome : k.home u'.store f = k.home u.store f := by
      rw [Closure.home, Closure.home, hu.store, Store.root_redirect]
    have hscoping : (u'.store.options f).scoping = (u.store.options f).scoping := by
      rw [hu.store, Store.options_redirect _ R.standard]
      rfl
    have hbinds (scoping : Scoping) (i i' : FrameId) (t t' : World) (hi : i = i')
        (ht : R.Couples t t') :
        R.coupling.Agrees Eq
          (do
            Run.declareAll i (k.parameters.zip vs)
            Run.note (.called x k.parameters scoping)
            return i)
          (do
            Run.declareAll i' (k.parameters.zip vs)
            Run.note (.called x k.parameters scoping)
            return i') t t' := by
      subst hi
      refine .bind (declareAll_agrees ht i _) fun _ _ r r' _ hr _ => ?_
      exact .bind (note_agrees hr _) fun _ _ _ _ _ hs _ => .pure rfl hs
    rw [hhome, hscoping]
    cases (u.store.options f).scoping with
    | flat => exact .bind (.pure rfl hv) fun i i' t t' hi ht _ => hbinds _ i i' t t' hi ht
    | lexical =>
      refine .bind (newFrame_agrees hv _ _ none) fun i i' t t' hi ht _ => ?_
      exact hbinds _ i i' t t' hi ht

omit h

/-! ### Statements and programs -/

variable (R)

/-- Two evaluations in worlds that differ in sinks and in the records from before. -/
def setting : Setting where
  toCoupling := R.coupling
  Context := Unit
  closures := Eq
  nodes _ := Eq
  names _ := Eq
  scope _ f f' _ _ := f = f'

/-- Two runs of one program in worlds that differ in sinks and in the records from before. -/
def simulation : ProgramSimulation where
  toSetting := R.setting
  shape := by
    rintro _ n _ rfl
    exact .refl (fun _ => rfl) (fun _ => rfl) (fun _ => rfl) n
  closures_id := congrArg Closure.id
  halts_locate := by
    rintro _ n _ h _ rfl rfl
    rfl
  excused_locate _ := False.elim
  excused_overflow := False.elim
  halts_notCallable := by
    rintro _ x _ kind rfl
    rfl
  scope_grows hscope _ := hscope
  lookup := by
    rintro _ x _ f _ w w' rfl rfl hworlds
    exact lookup_agrees hworlds f x
  call := by
    rintro eval eval' _ x _ k _ vs vs' f _ w w' heval rfl rfl hvs rfl hworlds
    obtain rfl := Value.Related.eq_of_eq_items hvs
    rw [callClosure_eq_enterCall, callClosure_eq_enterCall]
    refine .bind (enterCall_agrees hworlds x k vs f) fun i _ v v' hi hv _ => ?_
    subst hi
    exact heval (c := ()) rfl rfl hv
  outermost := ()
  top := Eq
  statements := Eq
  targets _ := True
  functions ps body ps' body' := ps = ps' ∧ body = body'
  changes _ _ _ _ := True
  changes_refl _ _ := trivial
  changes_trans _ _ := trivial
  changes_of_grows _ := trivial
  scope_top htop _ := htop
  statement_shape := by
    rintro n _ rfl
    exact .refl (fun _ => rfl) (fun _ => trivial) (fun _ => rfl) (fun _ _ => rfl)
      fun _ _ _ => ⟨rfl, rfl⟩
  halts_locate_statement := by
    rintro n _ h _ rfl rfl
    rfl
  halts_leaveProgram := by
    rintro h _ rfl
    rfl
  excused_leaveProgram := False.elim
  start := by
    rintro f _ w w' rfl hworlds
    refine .bind (options_agrees hworlds f) fun o _ v v' ho hv _ => ?_
    subst ho
    exact note_agrees hv _
  finish hworlds := note_agrees hworlds _
  declare := by
    rintro x v v' f _ w w' hv rfl hworlds
    obtain rfl := hv.eq_of_eq
    exact .bind (declare_agrees hworlds f x v) fun _ _ _ _ _ hu _ => note_agrees hu _
  declareFunction := by
    rintro x ps body _ _ f _ w w' ⟨rfl, rfl⟩ rfl hworlds
    exact .bind (declareFunction_agrees hworlds f x ps body) fun _ _ _ _ _ hu _ =>
      note_agrees hu _
  assign := by
    rintro x v v' f _ w w' - hv rfl hworlds
    obtain rfl := hv.eq_of_eq
    exact assign_agrees hworlds f x v
  print := by
    rintro line f _ w w' rfl hworlds
    refine .bind (options_agrees hworlds f) fun o _ v v' ho hv _ => ?_
    subst ho
    exact print_agrees hv _ line

variable {R}

/-- A statement is executed alike, wherever its lines go and whatever was noted before. -/
theorem exec_agrees (h : R.Couples w w') (passes levels : Nat) (n : Node) (f : FrameId) :
    R.coupling.Agrees Eq (exec passes levels n f) (exec passes levels n f) w w' :=
  R.simulation.exec_agrees passes levels (n := n) rfl rfl h

/-- A program runs alike in a frame, and so is refused what is no program. -/
theorem interpretIn_agrees (h : R.Couples w w') (passes : Nat) (program : Node) (f : FrameId) :
    R.coupling.Agrees Eq (interpretIn passes program f) (interpretIn passes program f) w w' := by
  by_cases hlabel : program.label? = some StatementForm.program.label
  · refine R.simulation.interpretIn_agrees passes (R.simulation.statement_shape rfl) ?_ hlabel
      hlabel rfl h
    rintro k _ rfl
    rfl
  · rw [interpretIn_of_label_ne f hlabel]
    exact .throw rfl h

/-- A program runs alike in a fresh frame whose options have the other sink. -/
theorem interpret_fresh_agrees (h : R.Couples w w') (passes : Nat) (program : Node) (o : Options) :
    R.coupling.Agrees Eq (interpret passes program none (some o))
      (interpret passes program none (some (o.redirect R.sinks))) w w' := by
  have hframe : R.coupling.Agrees Eq (Run.globalFrame o) (Run.globalFrame (o.redirect R.sinks))
      w w' := by
    unfold Run.globalFrame
    by_cases hmathematics : o.mathematics = true
    · have hmathematics' : (o.redirect R.sinks).mathematics = true := hmathematics
      rw [if_pos hmathematics, if_pos hmathematics']
      refine .bind (newFrame_agrees h none "prelude" (some o)) fun i _ v v' hi hv _ => ?_
      subst hi
      refine .bind (declareAll_agrees hv i _) fun _ _ u u' _ hu _ => ?_
      exact newFrame_agrees hu (some i) "global" (some o)
    · have hmathematics' : ¬ (o.redirect R.sinks).mathematics = true := hmathematics
      rw [if_neg hmathematics, if_neg hmathematics']
      exact newFrame_agrees h none "global" (some o)
  refine .bind hframe fun f _ v v' hf hv _ => ?_
  subst hf
  exact interpretIn_agrees hv passes program f

end Redirection
end Bella
