import Bella.Proofs.Simulation.Statement

/-!
# Invariants of single runs

A run beside itself is a simulation, so what one run keeps need not be proved construct by construct
again. An invariant says in which worlds it holds, in which frames expressions are evaluated, which
closures values may hold, and what evaluation may do to a world. It has laws for the two things by
which an expression meets the world: looking a name up, and entering a call. An invariant of
programs has a law for each thing that a statement does. Both are then kept by every tree,
well-formed or not, however its evaluation or execution ends.

## Main definitions

* `Bella.Value.closures`, `Bella.Value.HoldsOnly`: the closures in a value, at any depth.
* `Bella.Node.functions`: the functions that a tree declares, at any depth.
* `Bella.Invariant`, `Bella.ProgramInvariant`: what expressions and statements keep.

## Main results

* `Bella.enterCall_ends`: what entering a closure keeps.
* `Bella.Invariant.eval_keeps`: expressions keep an invariant.
* `Bella.ProgramInvariant.exec_keeps`, `Bella.ProgramInvariant.interpretIn_keeps`: statements and
  programs keep an invariant of programs.
-/

namespace Bella

/-! ### Closures in values -/

namespace Value

mutual

/-- The closures in a value, at any depth. -/
def closures : Value → List Closure
  | .closure c => [c]
  | .array items => closuresAll items
  | .number _ | .boolean _ | .builtin _ | .foreign _ => []

/-- The closures in some values. -/
def closuresAll : List Value → List Closure
  | [] => []
  | v :: vs => closures v ++ closuresAll vs

end

/-- All closures in the value are of one sort. -/
def HoldsOnly (P : Closure → Prop) (v : Value) : Prop := ∀ c ∈ v.closures, P c

variable {P : Closure → Prop}

mutual

theorem Related.holdsOnly {v v' : Value} :
    Related (fun c d => c = d ∧ P c) v v' → v.HoldsOnly P
  | .number _ | .boolean _ | .builtin _ | .foreign _ => nofun
  | .closure h => fun _ hc => List.mem_singleton.mp hc ▸ h.2
  | .array h => Related.holdsOnly_items h

theorem Related.holdsOnly_items {vs vs' : List Value} :
    List.Forall₂ (Related fun c d => c = d ∧ P c) vs vs' → ∀ c ∈ closuresAll vs, P c
  | .nil => nofun
  | .cons h hs => fun c hc =>
    (List.mem_append.mp hc).elim (Related.holdsOnly h c) (Related.holdsOnly_items hs c)

end

mutual

theorem HoldsOnly.related {v : Value} (h : v.HoldsOnly P) :
    Related (fun c d => c = d ∧ P c) v v := by
  match v, h with
  | .number x, _ => exact .number x
  | .boolean b, _ => exact .boolean b
  | .builtin b, _ => exact .builtin b
  | .foreign p, _ => exact .foreign p
  | .closure c, h => exact .closure ⟨rfl, h c List.mem_cons_self⟩
  | .array items, h => exact .array (HoldsOnly.related_items h)

theorem HoldsOnly.related_items {vs : List Value} (h : ∀ c ∈ closuresAll vs, P c) :
    List.Forall₂ (Related fun c d => c = d ∧ P c) vs vs := by
  match vs, h with
  | [], _ => exact .nil
  | v :: vs, h =>
    exact .cons (HoldsOnly.related fun c hc => h c (List.mem_append_left _ hc))
      (HoldsOnly.related_items fun c hc => h c (List.mem_append_right _ hc))

end

/-- Values that are related by such closures to some value are that value. -/
theorem Related.eq_of_holdsOnly {v v' : Value} (h : Related (fun c d => c = d ∧ P c) v v') :
    v = v' :=
  eq_of_eq (h.mono fun _ _ hc => hc.1)

/-- What is related in this way, value by value, are the same values. -/
theorem Related.forall₂_holdsOnly {vs vs' : List Value}
    (h : List.Forall₂ (Related fun c d => c = d ∧ P c) vs vs') :
    vs = vs' ∧ ∀ v ∈ vs, v.HoldsOnly P := by
  induction h with
  | nil => exact ⟨rfl, nofun⟩
  | cons hv _ ih =>
    obtain ⟨rfl, hrest⟩ := ih
    refine ⟨by rw [hv.eq_of_holdsOnly], fun u hu => ?_⟩
    obtain rfl | hu := List.mem_cons.mp hu
    · exact hv.holdsOnly
    · exact hrest u hu

end Value

/-! ### Functions in trees -/

namespace Node

mutual

/-- The parameters and bodies of the functions that a tree declares, at any depth. -/
def functions : Node → List (List String × Node)
  | .tree label children m =>
    (declaredFunction? (.tree label children m)).toList ++ functionsAll children
  | _ => []

/-- The functions that some trees declare. -/
def functionsAll : List Node → List (List String × Node)
  | [] => []
  | n :: ns => functions n ++ functionsAll ns

end

theorem functions_subset_functionsAll {n : Node} {ns : List Node} (hn : n ∈ ns) :
    n.functions ⊆ functionsAll ns := by
  induction ns with
  | nil => cases hn
  | cons m ns ih =>
    obtain rfl | hn := List.mem_cons.mp hn
    · exact List.subset_append_left _ _
    · exact List.Subset.trans (ih hn) (List.subset_append_right _ _)

/-- What a part of a tree declares is declared in the tree. -/
theorem functions_subset_of_mem_children {n c : Node} (hc : c ∈ n.children) :
    c.functions ⊆ n.functions := by
  cases n with
  | tree label children m =>
    exact List.Subset.trans (functions_subset_functionsAll hc) (List.subset_append_right _ _)
  | hollow | token | improper | plain | list => cases hc

theorem functions_subset_of_mem_statementParts {n s : Node} (hs : s ∈ n.statementParts) :
    s.functions ⊆ n.functions := by
  unfold statementParts at hs
  split at hs
  · rename_i label children m
    split at hs
    · exact List.Subset.trans (functions_subset_of_mem_children hs)
        (functions_subset_of_mem_children (n := .tree label _ m) List.mem_cons_self)
    · exact functions_subset_of_mem_children (n := .tree label _ m) hs
    · exact functions_subset_of_mem_children (n := .tree label _ m) (List.mem_cons_of_mem _ hs)
    · cases hs
  · cases hs

theorem mem_functions_of_declaredFunction? {n : Node} {q : List String × Node}
    (h : n.declaredFunction? = some q) : q ∈ n.functions := by
  cases n with
  | tree label children m => exact List.mem_append_left _ (by simp [h])
  | hollow | token | improper | plain | list => cases h

end Node

/-! ### What expressions keep -/

/-- What holds however an action ends: `done` of its result and the last world if it has a result,
and `halted` of the last world otherwise. -/
def Run.Ends {α : Type} (r : EStateM.Result Halt World α) (done : α → World → Prop)
    (halted : World → Prop) : Prop :=
  match r with
  | .ok a v => done a v
  | .error _ v => halted v

section Ends

variable {α β : Type} {x : Run α} {g : α → Run β} {w : World} {done : α → World → Prop}
  {done' : β → World → Prop} {halted : World → Prop}

theorem Run.Ends.bind (h : Run.Ends (x w) done halted)
    (hg : ∀ a v, done a v → Run.Ends (g a v) done' halted) :
    Run.Ends ((x >>= g) w) done' halted := by
  rw [Run.bind_apply]
  cases hx : x w with
  | ok a v =>
    rw [hx] at h
    exact hg a v h
  | error k v =>
    rw [hx] at h
    exact h

theorem Run.Ends.within (h : Run.Ends (x w) done halted) (n : Node) :
    Run.Ends (Run.within n x w) done halted := by
  rw [Run.within_apply]
  cases hx : x w with
  | ok a v =>
    rw [hx] at h
    exact h
  | error k v =>
    rw [hx] at h
    exact h

theorem Run.Ends.mono {r : EStateM.Result Halt World α} {done' : α → World → Prop}
    {halted' : World → Prop} (h : Run.Ends r done halted) (hdone : ∀ {a v}, done a v → done' a v)
    (hhalted : ∀ {v}, halted v → halted' v) : Run.Ends r done' halted' := by
  cases r with
  | ok a v => exact hdone h
  | error k v => exact hhalted h

/-- What holds however an action ends holds of the last world. -/
theorem Run.Ends.after {P : World → Prop} (h : Run.Ends (x w) (fun _ => P) P) : P (x.after w) := by
  unfold Run.after
  cases hx : x w with
  | ok a v =>
    rw [hx] at h
    exact h
  | error k v =>
    rw [hx] at h
    exact h

/-- What holds of the last world holds however the action ends. -/
theorem Run.ends_of_after {P : World → Prop} (h : P (x.after w)) :
    Run.Ends (x w) (fun a v => x w = .ok a v ∧ P v) P := by
  unfold Run.after at h
  cases hx : x w with
  | ok a v =>
    rw [hx] at h
    exact ⟨rfl, h⟩
  | error k v =>
    rw [hx] at h
    exact h

theorem Run.ends_check {r : Except Cause α} (hw : halted w) :
    Run.Ends (Run.check r w) (fun a v => r = .ok a ∧ w = v) halted := by
  cases r with
  | ok a => exact ⟨rfl, rfl⟩
  | error c => exact hw

theorem Run.ends_checkWithin {r : Option (Except Cause α)} (hw : halted w) :
    Run.Ends (Run.checkWithin r w) (fun a v => r = some (.ok a) ∧ w = v) halted := by
  match r with
  | some (.ok a) => exact ⟨rfl, rfl⟩
  | some (.error c) => exact hw
  | none => exact hw

/-- Declaring names in order keeps what each fresh binding keeps, also if one is refused and if there
is no such frame. -/
theorem Run.declareAll_ends {P : World → Prop} {i : FrameId} {bs : List (String × Value)}
    (hbind : ∀ b ∈ bs, ∀ v, P v → v.store.binds i b.1 = false →
      P { v with store := v.store.bind i b.1 b.2 }) (hw : P w) :
    Run.Ends (Run.declareAll i bs w) (fun _ => P) P := by
  induction bs generalizing w with
  | nil => exact hw
  | cons b bs ih =>
    rw [Run.declareAll, Run.bind_apply, Run.declare_apply]
    by_cases hbinds : w.store.binds i b.1
    · rw [if_pos hbinds]
      exact hw
    · rw [if_neg hbinds]
      have hfirst := hbind b List.mem_cons_self w hw (Bool.eq_false_iff.mpr hbinds)
      exact ih (fun c hc => hbind c (List.mem_cons_of_mem b hc)) hfirst

/-- Entering a closure keeps what is kept by making the frame of a call, by binding a parameter and
by a record, whichever policy it follows and however it ends. The body is to be evaluated in the
frame of the declaration or in the frame of the call. -/
theorem enterCall_ends {P : World → Prop} {x : String} {k : Closure} {vs : List Value} {f : FrameId}
    (hw : P w) (happend : P (w.append (Frame.ofCall w.store (k.home w.store f) x)))
    (hbind : ∀ i, i = k.home w.store f ∨ i = w.store.next → ∀ b ∈ k.parameters.zip vs, ∀ v, P v →
      v.store.binds i b.1 = false → P { v with store := v.store.bind i b.1 b.2 })
    (hnoted : ∀ v r, P v → P (v.noted r)) :
    Run.Ends (enterCall x k vs f w)
      (fun t v => P v ∧ (t = k.home w.store f ∨ t = w.store.next)) P := by
  by_cases hlength : vs.length = k.parameters.length
  · have hlast {t : FrameId} (ht : t = k.home w.store f ∨ t = w.store.next) {v : World} (hv : P v)
        (r : Record) :
        Run.Ends ((do Run.declareAll t (k.parameters.zip vs); Run.note r; pure t : Run FrameId) v)
          (fun t v => P v ∧ (t = k.home w.store f ∨ t = w.store.next)) P :=
      (Run.declareAll_ends (hbind t ht) hv).bind fun _ u hu => ⟨hnoted u r hu, ht⟩
    rw [enterCall, if_neg (not_not_intro hlength), Run.bind_apply, Run.get_apply]
    cases hscoping : (w.store.options f).scoping with
    | flat =>
      simp only [hscoping]
      exact hlast (.inl rfl) hw _
    | lexical =>
      simp only [hscoping]
      exact hlast (.inr rfl) happend _
  · rw [enterCall_of_length_ne hlength]
    exact hw

end Ends

/-- What the evaluation of expressions keeps. -/
structure Invariant where
  /-- The worlds in which the invariant holds. -/
  holds : World → Prop
  /-- The frames in which expressions are evaluated. -/
  scope : FrameId → World → Prop
  /-- The closures that values may hold. -/
  closures : Closure → Prop
  /-- What the evaluation of an expression may do to a world. -/
  grows : World → World → Prop
  grows_refl : ∀ w, grows w w
  grows_trans : ∀ {w v u}, grows w v → grows v u → grows w u
  scope_grows : ∀ {f w v}, scope f w → grows w v → scope f v
  lookup : ∀ {f x w v}, holds w → scope f w → w.store.lookup? f x = some v → v.HoldsOnly closures
  enter : ∀ {x k vs f w}, holds w → scope f w → closures k → (∀ v ∈ vs, v.HoldsOnly closures) →
    vs.length = k.parameters.length →
    Run.Ends (enterCall x k vs f w) (fun t v => holds v ∧ grows w v ∧ scope t v)
      fun v => holds v ∧ grows w v

namespace Invariant

variable (I : Invariant)

/-- A run beside itself. -/
def toSetting : Setting where
  worlds w w' := w = w' ∧ I.holds w
  grows w _ v _ := I.grows w v
  halts := Eq
  excused _ := False
  grows_refl w _ := I.grows_refl w
  grows_trans := I.grows_trans
  comparison := Halt.isComparison_eq
  Context := Unit
  closures c d := c = d ∧ I.closures c
  nodes _ := Eq
  names _ := Eq
  scope _ f f' w _ := f = f' ∧ I.scope f w

variable {I} {w : World} {f : FrameId}

/-- A call enters the closure, unless the number of arguments is wrong. -/
theorem enterCall_keeps (hw : I.holds w) (hf : I.scope f w) {x : String} {k : Closure}
    (hk : I.closures k) {vs : List Value} (hvs : ∀ v ∈ vs, v.HoldsOnly I.closures) :
    Run.Ends (enterCall x k vs f w) (fun t v => I.holds v ∧ I.grows w v ∧ I.scope t v)
      fun v => I.holds v ∧ I.grows w v := by
  by_cases hlength : vs.length = k.parameters.length
  · exact I.enter hw hf hk hvs hlength
  · rw [enterCall_of_length_ne hlength]
    exact ⟨hw, I.grows_refl w⟩

private theorem callClosure_agrees {eval eval' : Evaluator}
    (heval : I.toSetting.Evaluates eval eval') (hw : I.holds w) (hf : I.scope f w) {x : String}
    {k : Closure} (hk : I.closures k) {vs : List Value}
    (hvs : ∀ v ∈ vs, v.HoldsOnly I.closures) :
    I.toSetting.Agrees I.toSetting.values (callClosure eval x k vs f) (callClosure eval' x k vs f)
      w w := by
  have henter := enterCall_keeps hw hf (x := x) hk hvs
  unfold Coupling.Agrees
  rw [callClosure_eq_enterCall, callClosure_eq_enterCall, Run.bind_apply, Run.bind_apply]
  generalize enterCall x k vs f w = r at henter ⊢
  cases r with
  | error h v => exact .error rfl ⟨rfl, henter.1⟩ henter.2
  | ok t v =>
    obtain ⟨hv, hgrows, ht⟩ := henter
    exact (heval (c := ()) rfl ⟨rfl, ht⟩ ⟨rfl, hv⟩).trans hgrows

private theorem lookup_agrees (hw : I.holds w) (hf : I.scope f w) (x : String) :
    I.toSetting.Agrees I.toSetting.values (Run.lookup f x) (Run.lookup f x) w w := by
  unfold Coupling.Agrees
  rw [Run.lookup_apply]
  cases hx : w.store.lookup? f x with
  | none => exact .error rfl ⟨rfl, hw⟩ (I.grows_refl w)
  | some v => exact .ok (I.lookup hw hf hx).related ⟨rfl, hw⟩ (I.grows_refl w)

variable (I)

/-- The simulation of a run by itself. -/
def toSimulation : Simulation where
  toSetting := I.toSetting
  shape := by
    rintro _ n _ rfl
    exact .refl (fun _ => rfl) (fun _ => rfl) (fun _ => rfl) n
  closures_id h := congrArg Closure.id h.1
  halts_locate := by
    rintro _ n _ h _ rfl rfl
    rfl
  excused_locate _ := False.elim
  excused_overflow := False.elim
  halts_notCallable := by
    rintro _ x _ kind rfl
    rfl
  scope_grows h hgrows := ⟨h.1, I.scope_grows h.2 hgrows⟩
  lookup := by
    rintro _ x _ f _ w _ rfl ⟨rfl, hf⟩ ⟨rfl, hw⟩
    exact lookup_agrees hw hf x
  call := by
    rintro eval eval' _ x _ k _ vs vs' f _ w _ heval rfl ⟨rfl, hk⟩ hvs ⟨rfl, hf⟩ ⟨rfl, hw⟩
    obtain ⟨rfl, hholds⟩ := Value.Related.forall₂_holdsOnly hvs
    exact callClosure_agrees heval hw hf hk hholds

/-- Expressions keep an invariant, however their evaluation ends. -/
theorem eval_keeps (levels : Nat) (n : Node) (hw : I.holds w) (hf : I.scope f w) :
    Run.Ends (eval levels n f w)
      (fun a v => a.HoldsOnly I.closures ∧ I.holds v ∧ I.grows w v)
      fun v => I.holds v ∧ I.grows w v := by
  have h := I.toSimulation.eval_agrees levels (c := ()) (n := n) rfl ⟨rfl, hf⟩ ⟨rfl, hw⟩
  unfold Coupling.Agrees at h
  generalize eval levels n f w = r at h ⊢
  cases h with
  | ok hresult hworlds hgrows => exact ⟨hresult.holdsOnly, hworlds.2, hgrows⟩
  | error _ hworlds hgrows => exact ⟨hworlds.2, hgrows⟩
  | excused hexcused => exact hexcused.elim

end Invariant

/-! ### What statements keep -/

/-- What the execution of statements keeps. -/
structure ProgramInvariant extends Invariant where
  /-- The frames that statements act on. -/
  top : FrameId → Prop
  /-- The parameters and bodies of the functions that may be declared. -/
  functions : List String → Node → Prop
  /-- What the execution of a statement may do to a world. -/
  changes : World → World → Prop
  changes_refl : ∀ w, changes w w
  changes_trans : ∀ {w v u}, changes w v → changes v u → changes w u
  changes_of_grows : ∀ {w v}, grows w v → changes w v
  scope_top : ∀ {f w}, top f → holds w → scope f w
  start : ∀ {f w v}, top f → holds w →
    v = w.noted (.interpreting (w.store.options f).scoping) → holds v ∧ changes w v
  finish : ∀ {done w v}, holds w → v = w.noted (.finished done) → holds v ∧ changes w v
  declare : ∀ {f x a w v}, top f → holds w → a.HoldsOnly closures → w.store.binds f x = false →
    v = World.noted { w with store := w.store.bind f x a } (.declared x) → holds v ∧ changes w v
  declareFunction : ∀ {f x ps body k w v}, top f → holds w → functions ps body →
    w.store.binds f x = false →
    k = Closure.mk w.issued ps body (some f) →
    v = World.noted { w with issued := w.issued + 1, store := w.store.bind f x (.closure k) }
      (.declaredFunction x ps.length) → holds v ∧ changes w v
  assign : ∀ {f x i a w v}, top f → holds w → a.HoldsOnly closures →
    w.store.resolve? f x = some i → v = { w with store := w.store.update i x a } →
    holds v ∧ changes w v
  print : ∀ {f line w v}, top f → holds w →
    v = { w with printed := w.printed.push ((w.store.options f).sink, line) } →
    holds v ∧ changes w v

namespace ProgramInvariant

variable (I : ProgramInvariant)

/-- The coupling of the execution of a statement with itself. -/
def outer : Coupling :=
  I.toSetting.changing (fun w _ v _ => I.changes w v) (fun w _ => I.changes_refl w) I.changes_trans

variable {I} {w : World} {f : FrameId}

private theorem step_agrees {x : Run Unit} {v : World} (hx : x w = .ok () v)
    (hv : I.holds v ∧ I.changes w v) : I.outer.Agrees Eq x x w w := by
  unfold Coupling.Agrees
  rw [hx]
  exact .ok rfl ⟨rfl, hv.1⟩ hv.2

private theorem declare_agrees (hf : I.top f) (hw : I.holds w) {a : Value}
    (ha : a.HoldsOnly I.closures) (x : String) :
    I.outer.Agrees Eq (do Run.declare f x a; Run.note (.declared x))
      (do Run.declare f x a; Run.note (.declared x)) w w := by
  cases hbinds : w.store.binds f x with
  | true =>
    unfold Coupling.Agrees
    rw [Run.bind_apply, Run.declare_apply, hbinds]
    exact .error rfl ⟨rfl, hw⟩ (I.changes_refl w)
  | false =>
    refine step_agrees ?_ (I.declare hf hw ha hbinds rfl)
    rw [Run.bind_apply, Run.declare_apply, hbinds]
    rfl

private theorem declareFunction_agrees (hf : I.top f) (hw : I.holds w) {ps : List String}
    {body : Node} (hfunction : I.functions ps body) (x : String) :
    I.outer.Agrees Eq
      (do let _ ← Run.declareFunction f x ps body; Run.note (.declaredFunction x ps.length))
      (do let _ ← Run.declareFunction f x ps body; Run.note (.declaredFunction x ps.length))
      w w := by
  cases hbinds : w.store.binds f x with
  | true =>
    unfold Coupling.Agrees
    rw [Run.bind_apply, Run.declareFunction_apply, hbinds]
    exact .error rfl ⟨rfl, hw⟩ (I.changes_refl w)
  | false =>
    refine step_agrees ?_ (I.declareFunction hf hw hfunction hbinds rfl rfl)
    rw [Run.bind_apply, Run.declareFunction_apply, hbinds]
    rfl

private theorem assign_agrees (hf : I.top f) (hw : I.holds w) {a : Value}
    (ha : a.HoldsOnly I.closures) (x : String) :
    I.outer.Agrees Eq (Run.assign f x a) (Run.assign f x a) w w := by
  cases hresolve : w.store.resolve? f x with
  | none =>
    unfold Coupling.Agrees
    rw [Run.assign_apply, hresolve]
    exact .error rfl ⟨rfl, hw⟩ (I.changes_refl w)
  | some i =>
    refine step_agrees ?_ (I.assign hf hw ha hresolve rfl)
    rw [Run.assign_apply, hresolve]

variable (I)

/-- The simulation of a program by itself. -/
def toProgramSimulation : ProgramSimulation where
  toSimulation := I.toSimulation
  outermost := ()
  top f f' := f = f' ∧ I.top f
  statements n n' := n = n' ∧ ∀ q ∈ n.functions, I.functions q.1 q.2
  targets _ := True
  functions ps body ps' body' := ps = ps' ∧ body = body' ∧ I.functions ps body
  changes w _ v _ := I.changes w v
  changes_refl w _ := I.changes_refl w
  changes_trans := I.changes_trans
  changes_of_grows := I.changes_of_grows
  scope_top htop hworlds := ⟨htop.1, I.scope_top htop.2 hworlds.2⟩
  statement_shape := by
    rintro n _ ⟨rfl, hn⟩
    refine .refl (fun _ => rfl) (fun _ => trivial) (fun _ => rfl) (fun s hs => ⟨rfl, ?_⟩)
      fun ps body h => ⟨rfl, rfl, hn _ (Node.mem_functions_of_declaredFunction? h)⟩
    exact fun q hq => hn q (Node.functions_subset_of_mem_statementParts hs hq)
  halts_locate_statement := by
    rintro n _ h _ ⟨rfl, -⟩ rfl
    rfl
  halts_leaveProgram := by
    rintro h _ rfl
    rfl
  excused_leaveProgram := False.elim
  start := by
    rintro f _ w _ ⟨rfl, hf⟩ ⟨rfl, hw⟩
    exact step_agrees rfl (I.start hf hw rfl)
  finish := by
    rintro done w _ ⟨rfl, hw⟩
    exact step_agrees rfl (I.finish hw rfl)
  declare := by
    rintro x a a' f _ w _ ha ⟨rfl, hf⟩ ⟨rfl, hw⟩
    obtain rfl := ha.eq_of_holdsOnly
    exact declare_agrees hf hw ha.holdsOnly x
  declareFunction := by
    rintro x ps body _ _ f _ w _ ⟨rfl, rfl, hfunction⟩ ⟨rfl, hf⟩ ⟨rfl, hw⟩
    exact declareFunction_agrees hf hw hfunction x
  assign := by
    rintro x a a' f _ w _ - ha ⟨rfl, hf⟩ ⟨rfl, hw⟩
    obtain rfl := ha.eq_of_holdsOnly
    exact assign_agrees hf hw ha.holdsOnly x
  print := by
    rintro line f _ w _ ⟨rfl, hf⟩ ⟨rfl, hw⟩
    exact step_agrees rfl (I.print hf hw rfl)

private theorem ends_of_agrees {x : Run Unit} (h : I.toProgramSimulation.outer.Agrees Eq x x w w) :
    I.holds (x.after w) ∧ I.changes w (x.after w) :=
  ⟨(h.ends fun _ _ => id).1.2, h.grows fun _ _ => id⟩

/-- Statements keep an invariant of programs, however their execution ends. -/
theorem exec_keeps (passes levels : Nat) {n : Node} (hn : ∀ q ∈ n.functions, I.functions q.1 q.2)
    (hf : I.top f) (hw : I.holds w) :
    I.holds ((exec passes levels n f).after w) ∧ I.changes w ((exec passes levels n f).after w) :=
  I.ends_of_agrees (I.toProgramSimulation.exec_agrees passes levels ⟨rfl, hn⟩ ⟨rfl, hf⟩ ⟨rfl, hw⟩)

/-- Programs keep an invariant of programs, and so does what is refused as a program. -/
theorem interpretIn_keeps (passes : Nat) {program : Node}
    (hprogram : ∀ q ∈ program.functions, I.functions q.1 q.2) (hf : I.top f) (hw : I.holds w) :
    I.holds ((interpretIn passes program f).after w) ∧
      I.changes w ((interpretIn passes program f).after w) := by
  by_cases hlabel : program.label? = some StatementForm.program.label
  · have hmatch := I.toProgramSimulation.statement_shape (n := program) ⟨rfl, hprogram⟩
    exact I.ends_of_agrees (I.toProgramSimulation.interpretIn_agrees passes hmatch
      (fun _ _ => I.toProgramSimulation.halts_locate_statement (n := program) ⟨rfl, hprogram⟩)
      hlabel hlabel ⟨rfl, hf⟩ ⟨rfl, hw⟩)
  · have hrefused : interpretIn passes program f = Run.fail (.notProgram program) := by
      exact interpretIn_of_label_ne _ hlabel
    rw [hrefused]
    exact ⟨hw, I.changes_refl w⟩

end ProgramInvariant
end Bella
