import Bella.Proofs.Ground
import Bella.Proofs.Simulation.Mirror
import Bella.Proofs.Simulation.Statement
import Bella.Proofs.Tower

/-!
# The prelude is a conservative extension

The prelude lies behind the globals, at the end of every chain. A program can reach it only with a
name that neither a call nor the globals bind, and without the prelude such a name is not declared.
So as long as a program without the prelude does not fail for want of one of these names, the same
program with the prelude takes the same steps: it may declare, assign, shadow or take as parameters
whatever names it likes.

The two runs stand on different grounds, and their closures differ in the address of the globals
alone. The proof is one for both policies: under either of them a call changes no frame but the
globals, so the frames of the calls around it stay as they are.

## Main definitions

* `Bella.Closure.Counterparts`: closures that differ only in the ground they were declared on.
* `Bella.Extension`, `Bella.Extension.Stands`: a program on two grounds, and the worlds of the runs.
* `Bella.Extension.program`: the simulation of the run without the prelude by the other one.

## Main results

* `Bella.interpret_prelude_conservative`: runs that do not miss the prelude do not notice it.
-/

namespace Bella

/-! ### Closures and worlds on two grounds -/

/-- Closures of one declaration, which was made among the globals of one ground or the other. -/
structure Closure.Counterparts (γ γ' : Ground) (c c' : Closure) : Prop where
  id : c.id = c'.id
  parameters : c.parameters = c'.parameters
  body : c.body = c'.body
  frame : c.frame = some γ.globals
  frame' : c'.frame = some γ'.globals

namespace Closure.Counterparts

variable {γ γ' : Ground} {c c' : Closure} (h : c.Counterparts γ γ' c') (s : Store) (f : FrameId)
include h

theorem home_eq : c.home s f = γ.globals := by simp [home, h.frame]

theorem home_eq' : c'.home s f = γ'.globals := by simp [home, h.frame']

end Closure.Counterparts

/-- The names that the prelude binds. -/
def Prelude.names : List String := bindings.map Prod.fst

/-- A program that runs on two grounds, of which the first one has nothing behind the globals. -/
structure Extension where
  /-- The ground without the prelude. -/
  bare : Ground
  /-- The ground with the prelude. -/
  full : Ground
  /-- The options on the ground without the prelude. -/
  left : Options
  /-- The options on the ground with the prelude. -/
  right : Options
  behind_eq : bare.behind = none
  scoping_eq : left.scoping = right.scoping
  sink_eq : left.sink = right.sink

/-- An error for want of a name that the prelude binds, or a nesting that is too deep; for the name
may be missed where there are no levels left to say so. -/
inductive Halt.MissesPrelude : Halt → Prop
  | name {e : Error} {x : String} (hcause : e.cause = .notDeclared x) (hx : x ∈ Prelude.names) :
      MissesPrelude (.error e)
  | tooDeep {h : Halt} (hh : h.IsTooDeep) : MissesPrelude h

theorem Halt.MissesPrelude.locate {h : Halt} (hh : h.MissesPrelude) (p : Position) :
    (h.locate p).MissesPrelude := by
  cases hh with
  | name hcause hx => exact .name hcause hx
  | tooDeep hh => exact .tooDeep (hh.locate p)

theorem Halt.MissesPrelude.leaveProgram {h : Halt} (hh : h.MissesPrelude) :
    h.leaveProgram.MissesPrelude := by
  cases hh with
  | name hcause hx => exact .name hcause hx
  | tooDeep hh => exact .tooDeep hh.leaveProgram

/-- Every frame but the globals is kept. -/
def Ground.Keeps (γ : Ground) (w v : World) : Prop :=
  ∀ {i : FrameId} {F : Frame}, i ≠ γ.globals → w.store.get? i = some F → v.store.get? i = some F

theorem Ground.Within.keeps {γ : Ground} {o : Options} {w v : World} {f : FrameId}
    {locals : String → Option Value} (h : γ.Within o w.store f locals) (hkeeps : γ.Keeps w v) :
    γ.Within o v.store f locals := by
  cases h with
  | globals => exact .globals
  | call hget hparent hnewer hoptions =>
    exact .call (hkeeps (Nat.ne_of_gt hnewer) hget) hparent hnewer hoptions

namespace Extension

variable (E : Extension)

/-- Values that are equal up to counterparts among the closures. -/
def values : Value → Value → Prop := Value.Related (Closure.Counterparts E.bare E.full)

/-- Two worlds with the same lines and records, and with corresponding globals. -/
structure Stands (w w' : World) : Prop where
  printed : w.printed = w'.printed
  records : w.records = w'.records
  issued : w.issued = w'.issued
  holds : E.bare.Holds E.left w.store
  holds' : E.full.Holds E.right w'.store
  globals : ∀ x, Option.Rel E.values (E.bare.global? w.store x) (E.full.global? w'.store x)
  /-- Only names of the prelude are bound behind the globals. -/
  behind : ∀ x, x ∉ Prelude.names → E.full.prelude? w'.store x = none

/-- The frames of two calls that have the same local names, or the globals. -/
def Scope (f f' : FrameId) (w w' : World) : Prop :=
  ∃ locals locals', E.bare.Within E.left w.store f locals ∧
    E.full.Within E.right w'.store f' locals' ∧ ∀ x, Option.Rel E.values (locals x) (locals' x)

/-- The run without the prelude beside the other one. -/
def setting : Setting where
  worlds := E.Stands
  grows w w' v v' := E.bare.Keeps w v ∧ E.full.Keeps w' v'
  halts := Eq
  excused := Halt.MissesPrelude
  grows_refl _ _ := ⟨fun _ => id, fun _ => id⟩
  grows_trans h h' := ⟨fun hi hget => h'.1 hi (h.1 hi hget), fun hi hget => h'.2 hi (h.2 hi hget)⟩
  comparison := Halt.isComparison_eq
  Context := Unit
  closures := Closure.Counterparts E.bare E.full
  nodes _ := Eq
  names _ := Eq
  scope _ := E.Scope

/-- The first ground has no prelude. -/
theorem prelude?_bare (s : Store) (x : String) : E.bare.prelude? s x = none := by
  rw [Ground.prelude?, E.behind_eq]
  rfl

variable {E} {w w' : World} {f f' : FrameId} {x : String}

theorem Scope.globals : E.Scope E.bare.globals E.full.globals w w' :=
  ⟨_, _, .globals, .globals, fun _ => .none⟩

theorem Scope.keeps (h : E.Scope f f' w w') {v v' : World} (hkeeps : E.bare.Keeps w v)
    (hkeeps' : E.full.Keeps w' v') : E.Scope f f' v v' := by
  obtain ⟨locals, locals', hf, hf', hlocals⟩ := h
  exact ⟨locals, locals', hf.keeps hkeeps, hf'.keeps hkeeps', hlocals⟩

namespace Stands

theorem noted (h : E.Stands w w') (r : Record) : E.Stands (w.noted r) (w'.noted r) :=
  ⟨h.printed, congrArg (·.push r) h.records, h.issued, h.holds, h.holds', h.globals, h.behind⟩

/-! ### Looking up -/

/-- A name has corresponding values in both worlds or none in either, or only the prelude has it. -/
theorem lookup_cases (h : E.Stands w w') (hscope : E.Scope f f' w w') (x : String) :
    Option.Rel E.values (w.store.lookup? f x) (w'.store.lookup? f' x) ∨
      (w.store.lookup? f x = none ∧ x ∈ Prelude.names) := by
  obtain ⟨locals, locals', hf, hf', hlocals⟩ := hscope
  have hbound := Value.Related.or_rel (hlocals x) (h.globals x)
  rw [hf.lookup?_eq h.holds, hf'.lookup?_eq h.holds', E.prelude?_bare, Option.or_none,
    ← Option.or_assoc]
  generalize (locals x).or (E.bare.global? w.store x) = r,
    (locals' x).or (E.full.global? w'.store x) = r' at hbound ⊢
  cases hbound with
  | some hv => exact .inl (.some hv)
  | none =>
    by_cases hx : x ∈ Prelude.names
    · exact .inr ⟨rfl, hx⟩
    · rw [h.behind x hx]
      exact .inl .none

/-! ### Calls -/

/-- Both worlds may get a frame. -/
theorem append (h : E.Stands w w') (F F' : Frame) : E.Stands (w.append F) (w'.append F') where
  printed := h.printed
  records := h.records
  issued := h.issued
  holds := h.holds.kept (World.Extends.append w F).frames
  holds' := h.holds'.kept (World.Extends.append w' F').frames
  globals x := by
    rw [h.holds.global?_kept (World.Extends.append w F).frames,
      h.holds'.global?_kept (World.Extends.append w' F').frames]
    exact h.globals x
  behind x hx := by
    rw [h.holds'.prelude?_kept (World.Extends.append w' F').frames]
    exact h.behind x hx

/-- Frames that agree may stand in for the globals. -/
theorem replace (h : E.Stands w w') {G G' : Frame} (hparent : G.parent = E.bare.behind)
    (hoptions : G.options = some E.left) (hparent' : G'.parent = E.full.behind)
    (hoptions' : G'.options = some E.right)
    (hagrees : G.Agrees (Closure.Counterparts E.bare E.full) G') :
    E.Stands (w.replace E.bare.globals G) (w'.replace E.full.globals G') where
  printed := h.printed
  records := h.records
  issued := h.issued
  holds := h.holds.replace hparent hoptions
  holds' := h.holds'.replace hparent' hoptions'
  globals x := by
    rw [World.replace, World.replace, h.holds.global?_replace, h.holds'.global?_replace]
    exact hagrees x
  behind x hx := by
    rw [World.replace, Ground.prelude?_replace]
    exact h.behind x hx

/-! ### Declaring and assigning -/

/-- Both worlds may bind a name, with corresponding values, and count on. -/
theorem bind (h : E.Stands w w') (x : String) {v v' : Value} (hv : E.values v v') {n n' : Nat}
    (hn : n = n') :
    E.Stands { w with issued := n, store := w.store.bind E.bare.globals x v }
      { w' with issued := n', store := w'.store.bind E.full.globals x v' } where
  printed := h.printed
  records := h.records
  issued := hn
  holds := h.holds.bind x v
  holds' := h.holds'.bind x v'
  globals y := by
    rw [h.holds.global?_bind, h.holds'.global?_bind]
    split
    · exact .some hv
    · exact h.globals y
  behind y hy := by
    rw [h.holds'.prelude?_bind]
    exact h.behind y hy

/-- Both worlds may give a global name another value. -/
theorem update (h : E.Stands w w') (x : String) {v v' : Value} (hv : E.values v v') :
    E.Stands { w with store := w.store.update E.bare.globals x v }
      { w' with store := w'.store.update E.full.globals x v' } where
  printed := h.printed
  records := h.records
  issued := h.issued
  holds := h.holds.update _ x v
  holds' := h.holds'.update _ x v'
  globals y := by
    rw [Ground.global?_update_globals, Ground.global?_update_globals]
    exact Value.Related.updated_rel (h.globals y) hv
  behind y hy := by
    rw [Ground.prelude?_update_globals]
    exact h.behind y hy

theorem binds_eq (h : E.Stands w w') (x : String) :
    w.store.binds E.bare.globals x = w'.store.binds E.full.globals x := by
  rw [Store.binds_eq_isSome_own?, Store.binds_eq_isSome_own?]
  exact Value.Related.isSome_eq (h.globals x)

theorem options_eq (h : E.Stands w w') :
    w.store.options E.bare.globals = E.left ∧ w'.store.options E.full.globals = E.right :=
  ⟨Ground.Within.globals.options_eq h.holds, Ground.Within.globals.options_eq h.holds'⟩

end Stands

/-! ### What expressions do -/

theorem lookup_agrees (x : String) (hscope : E.Scope f f' w w') (h : E.Stands w w') :
    E.setting.Agrees E.setting.values (Run.lookup f x) (Run.lookup f' x) w w' := by
  have hcases := h.lookup_cases hscope x
  unfold Coupling.Agrees
  rw [Run.lookup_apply, Run.lookup_apply]
  generalize w.store.lookup? f x = r, w'.store.lookup? f' x = r' at hcases ⊢
  obtain hrel | ⟨rfl, hx⟩ := hcases
  · cases hrel with
    | some hv => exact .ok hv h (E.setting.grows_refl w w')
    | none => exact .error rfl h (E.setting.grows_refl w w')
  · exact .excused (.name rfl hx)

section Calls

variable {eval eval' : Evaluator} {k k' : Closure} {vs vs' : List Value}

private theorem grows_append (w w' : World) (F F' : Frame) :
    E.setting.grows w w' (w.append F) (w'.append F') :=
  ⟨fun _ hget => Store.get?_append_of_get? hget F, fun _ hget => Store.get?_append_of_get? hget F'⟩

private theorem grows_replace (w w' : World) (F F' : Frame) :
    E.setting.grows w w' (w.replace E.bare.globals F) (w'.replace E.full.globals F') := by
  refine ⟨fun hi hget => ?_, fun hi hget => ?_⟩
  · rw [World.replace, Store.get?_replace, if_neg hi.symm, hget]
  · rw [World.replace, Store.get?_replace, if_neg hi.symm, hget]

section Entering

variable (heval : E.setting.Evaluates eval eval') (hk : k.Counterparts E.bare E.full k')
  (hvs : List.Forall₂ E.values vs vs') (hlength : vs.length = k.parameters.length)
  (hlength' : vs'.length = k'.parameters.length) (h : E.Stands w w')
include heval hk hvs hlength hlength' h

/-- Under lexical scoping both calls append a frame, and these frames agree. -/
private theorem call_agrees_lexical (x : String)
    (hscoping : (w.store.options f).scoping = .lexical)
    (hscoping' : (w'.store.options f').scoping = .lexical) :
    E.setting.Agrees E.values (callClosure eval x k vs f) (callClosure eval' x k' vs' f') w w' := by
  let C := Frame.ofCall w.store E.bare.globals x
  let C' := Frame.ofCall w'.store E.full.globals x
  have hempty : C.Agrees (Closure.Counterparts E.bare E.full) C' := fun _ => .none
  obtain ⟨hcollision, hagrees⟩ := hempty.bindAll k.parameters hvs
  have hstands := h.append (C.bindAll (k.parameters.zip vs)).1 (C'.bindAll (k.parameters.zip vs')).1
  have hgrows := E.grows_append w w' (C.bindAll (k.parameters.zip vs)).1
    (C'.bindAll (k.parameters.zip vs')).1
  unfold Coupling.Agrees
  rw [callClosure_lexical hlength hscoping (congrArg (Frame.ofCall _ · x) (hk.home_eq _ f)),
    callClosure_lexical hlength' hscoping' (congrArg (Frame.ofCall _ · x) (hk.home_eq' _ f')),
    ← hk.parameters, ← hk.body, ← hcollision]
  cases (C.bindAll (k.parameters.zip vs)).2 with
  | some y => exact .error rfl hstands hgrows
  | none =>
    refine (heval (c := ()) rfl ?_ (hstands.noted (.called x k.parameters .lexical))).trans hgrows
    exact ⟨_, _, Ground.within_append_call h.holds x _, Ground.within_append_call h.holds' x _,
      hagrees⟩

/-- Under flat scoping both calls bind their parameters among the globals, which go on to agree. -/
private theorem call_agrees_flat (x : String) (hscoping : (w.store.options f).scoping = .flat)
    (hscoping' : (w'.store.options f').scoping = .flat) :
    E.setting.Agrees E.values (callClosure eval x k vs f) (callClosure eval' x k' vs' f') w w' := by
  obtain ⟨D, hD, hparent, hoptions⟩ := h.holds.globals
  obtain ⟨D', hD', hparent', hoptions'⟩ := h.holds'.globals
  have hglobals : D.Agrees (Closure.Counterparts E.bare E.full) D' := by
    intro y
    rw [← Store.own?_of_get? hD, ← Store.own?_of_get? hD']
    exact h.globals y
  obtain ⟨hcollision, hagrees⟩ := hglobals.bindAll k.parameters hvs
  obtain ⟨hp, -, ho⟩ := Frame.bindAll_shape D (k.parameters.zip vs)
  obtain ⟨hp', -, ho'⟩ := Frame.bindAll_shape D' (k.parameters.zip vs')
  have hstands := h.replace (hp.trans hparent) (ho.trans hoptions) (hp'.trans hparent')
    (ho'.trans hoptions') hagrees
  have hgrows := E.grows_replace w w' (D.bindAll (k.parameters.zip vs)).1
    (D'.bindAll (k.parameters.zip vs')).1
  unfold Coupling.Agrees
  rw [callClosure_flat hlength hscoping (hk.home_eq _ f) hD,
    callClosure_flat hlength' hscoping' (hk.home_eq' _ f') hD', ← hk.parameters, ← hk.body,
    ← hcollision]
  cases (D.bindAll (k.parameters.zip vs)).2 with
  | some y => exact .error rfl hstands hgrows
  | none =>
    have hnoted := hstands.noted (.called x k.parameters .flat)
    exact (heval (c := ()) rfl Scope.globals hnoted).trans hgrows

end Entering

/-- A call is refused, or collides, or enters the body, in both worlds alike. -/
theorem call_agrees (heval : E.setting.Evaluates eval eval') (x : String)
    (hk : k.Counterparts E.bare E.full k') (hvs : List.Forall₂ E.values vs vs')
    (hscope : E.Scope f f' w w') (h : E.Stands w w') :
    E.setting.Agrees E.values (callClosure eval x k vs f) (callClosure eval' x k' vs' f') w w' := by
  obtain ⟨locals, locals', hf, hf', -⟩ := hscope
  have hscoping : (w.store.options f).scoping = E.left.scoping := by rw [hf.options_eq h.holds]
  have hscoping' : (w'.store.options f').scoping = E.left.scoping := by
    rw [hf'.options_eq h.holds', E.scoping_eq]
  have hlengths : vs'.length = k'.parameters.length ↔ vs.length = k.parameters.length := by
    rw [hvs.length_eq, hk.parameters]
  by_cases hlength : vs.length = k.parameters.length
  · cases hmode : E.left.scoping with
    | lexical =>
      exact call_agrees_lexical heval hk hvs hlength (hlengths.mpr hlength) h x
        (hscoping.trans hmode) (hscoping'.trans hmode)
    | flat =>
      exact call_agrees_flat heval hk hvs hlength (hlengths.mpr hlength) h x
        (hscoping.trans hmode) (hscoping'.trans hmode)
  · rw [callClosure_of_length_ne hlength, callClosure_of_length_ne (mt hlengths.mp hlength),
      ← hk.parameters, ← hvs.length_eq]
    exact .fail rfl h

end Calls

variable (E) in
/-- The simulation of expressions without the prelude by expressions with it. -/
def expressions : Simulation where
  toSetting := E.setting
  shape := by
    rintro _ n _ rfl
    exact .refl (fun _ => rfl) (fun _ => rfl) (fun _ => rfl) n
  closures_id h := h.id
  halts_locate := by
    rintro _ n _ h _ rfl rfl
    rfl
  excused_locate p h := h.locate p
  excused_overflow _ := .tooDeep trivial
  halts_notCallable := by
    rintro _ x _ kind rfl
    rfl
  scope_grows h hgrows := h.keeps hgrows.1 hgrows.2
  lookup := by
    rintro _ x _ f f' w w' rfl hscope h
    exact lookup_agrees x hscope h
  call := by
    rintro eval eval' _ x _ k k' vs vs' f f' w w' heval rfl hk hvs hscope h
    exact call_agrees heval x hk hvs hscope h

/-! ### What statements do -/

variable (E) in
/-- The coupling of statements. -/
def coupling : Coupling :=
  E.setting.changing (fun _ _ _ _ => True) (fun _ _ => trivial) fun _ _ => trivial

theorem note_agrees (r : Record) (h : E.Stands w w') :
    E.coupling.Agrees Eq (Run.note r) (Run.note r) w w' :=
  .ok rfl (h.noted r) trivial

theorem declare_agrees (x : String) {v v' : Value} (hv : E.values v v') (h : E.Stands w w') :
    E.coupling.Agrees Eq (Run.declare E.bare.globals x v) (Run.declare E.full.globals x v')
      w w' := by
  unfold Coupling.Agrees
  rw [Run.declare_apply, Run.declare_apply, h.binds_eq x]
  split
  · exact .error rfl h trivial
  · exact .ok rfl (h.bind x hv h.issued) trivial

theorem declareFunction_agrees (x : String) (ps : List String) (body : Node) (h : E.Stands w w') :
    E.coupling.Agrees (fun _ _ => True) (Run.declareFunction E.bare.globals x ps body)
      (Run.declareFunction E.full.globals x ps body) w w' := by
  unfold Coupling.Agrees
  rw [Run.declareFunction_apply, Run.declareFunction_apply, h.binds_eq x, h.issued]
  split
  · exact .error rfl h trivial
  · refine .ok trivial (h.bind x (.closure ?_) rfl) trivial
    exact ⟨rfl, rfl, rfl, rfl, rfl⟩

/-- A name is assigned to among the globals of both worlds, or it is not declared; the prelude may
have it in the second world, but then the first run misses it. -/
theorem assign_agrees (x : String) {v v' : Value} (hv : E.values v v') (h : E.Stands w w') :
    E.coupling.Agrees Eq (Run.assign E.bare.globals x v) (Run.assign E.full.globals x v') w w' := by
  unfold Coupling.Agrees
  rw [Run.assign_apply, Run.assign_apply, h.holds.resolve?_eq, h.holds'.resolve?_eq,
    E.prelude?_bare, Value.Related.isSome_eq (h.globals x)]
  cases (E.full.global? w'.store x).isSome with
  | true => exact .ok rfl (h.update x hv) trivial
  | false =>
    by_cases hx : x ∈ Prelude.names
    · exact .excused (.name rfl hx)
    · rw [h.behind x hx]
      exact .error rfl h trivial

theorem print_agrees (line : String) (h : E.Stands w w') :
    E.coupling.Agrees Eq (do Run.print (← Run.options E.bare.globals).sink line)
      (do Run.print (← Run.options E.full.globals).sink line) w w' := by
  unfold Coupling.Agrees
  rw [Run.bind_apply, Run.bind_apply, Run.options_apply, Run.options_apply]
  simp only [Run.print_apply, h.options_eq.1, h.options_eq.2, E.sink_eq, h.printed]
  exact .ok rfl ⟨rfl, h.records, h.issued, h.holds, h.holds', h.globals, h.behind⟩ trivial

theorem start_agrees (h : E.Stands w w') :
    E.coupling.Agrees Eq (do Run.note (.interpreting (← Run.options E.bare.globals).scoping))
      (do Run.note (.interpreting (← Run.options E.full.globals).scoping)) w w' := by
  unfold Coupling.Agrees
  rw [Run.bind_apply, Run.bind_apply, Run.options_apply, Run.options_apply]
  simp only [h.options_eq.1, h.options_eq.2, E.scoping_eq]
  exact note_agrees _ h

variable (E) in
/-- The simulation of programs without the prelude by the same programs with it. -/
def program : ProgramSimulation where
  toSimulation := E.expressions
  outermost := ()
  top f f' := f = E.bare.globals ∧ f' = E.full.globals
  statements := Eq
  targets _ := True
  functions ps body ps' body' := ps = ps' ∧ body = body'
  changes _ _ _ _ := True
  changes_refl _ _ := trivial
  changes_trans _ _ := trivial
  changes_of_grows _ := trivial
  scope_top := by
    rintro f f' w w' ⟨rfl, rfl⟩ _
    exact Scope.globals
  statement_shape := by
    rintro n _ rfl
    exact .refl (fun _ => rfl) (fun _ => trivial) (fun _ => rfl) (fun _ _ => rfl)
      fun _ _ _ => ⟨rfl, rfl⟩
  halts_locate_statement := by
    rintro n _ h _ rfl rfl
    rfl
  halts_leaveProgram := by
    rintro h _ rfl
    rfl
  excused_leaveProgram h := h.leaveProgram
  start := by
    rintro f f' w w' ⟨rfl, rfl⟩ h
    exact start_agrees h
  finish h := note_agrees _ h
  declare := by
    rintro x v v' f f' w w' hv ⟨rfl, rfl⟩ h
    exact .bind (declare_agrees x hv h) fun _ _ _ _ _ hu _ => note_agrees _ hu
  declareFunction := by
    rintro x ps body _ _ f f' w w' ⟨rfl, rfl⟩ ⟨rfl, rfl⟩ h
    exact .bind (declareFunction_agrees x ps body h) fun _ _ _ _ _ hu _ => note_agrees _ hu
  assign := by
    rintro x v v' f f' w w' - hv ⟨rfl, rfl⟩ h
    exact assign_agrees x hv h
  print := by
    rintro line f f' w w' ⟨rfl, rfl⟩ h
    exact print_agrees line h

/-- Every tree runs alike in both worlds, whether it is a program or not. -/
theorem interpretIn_agrees (passes : Nat) (program : Node) (h : E.Stands w w') :
    E.coupling.Agrees Eq (interpretIn passes program E.bare.globals)
      (interpretIn passes program E.full.globals) w w' := by
  by_cases hlabel : program.label? = some StatementForm.program.label
  · exact E.program.interpretIn_agrees passes (E.program.statement_shape rfl)
      (fun _ _ => E.program.halts_locate_statement rfl) hlabel hlabel ⟨rfl, rfl⟩ h
  · have hrefused (f : FrameId) :
        interpretIn passes program f = Run.fail (.notProgram program) := by
      exact interpretIn_of_label_ne _ hlabel
    rw [hrefused, hrefused]
    exact .throw rfl h

end Extension

/-! ### Programs with and without the prelude -/

/-- A program that is given a fresh frame, without the prelude and with it. -/
def Extension.fresh (o : Options) (w : World) : Extension where
  bare := Ground.fresh { o with mathematics := false } w
  full := Ground.fresh { o with mathematics := true } w
  left := { o with mathematics := false }
  right := { o with mathematics := true }
  behind_eq := rfl
  scoping_eq := rfl
  sink_eq := rfl

private theorem stands_fresh {o : Options} {w v v' : World}
    (hv : (Extension.fresh o w).bare.IsLaid (Extension.fresh o w).left w v)
    (hv' : (Extension.fresh o w).full.IsLaid (Extension.fresh o w).right w v') :
    (Extension.fresh o w).Stands v v' where
  printed := hv.printed.trans hv'.printed.symm
  records := hv.records.trans hv'.records.symm
  issued := hv.issued.trans hv'.issued.symm
  holds := hv.holds
  holds' := hv'.holds
  globals x := by
    rw [hv.global?_eq, hv'.global?_eq]
    exact .none
  behind x hx := by
    rw [hv'.prelude?_eq]
    exact lookup_eq_none_of_not_mem hx

/-- A program that declares a function under one name of the prelude, with another one as its
parameter, and assigns to a third one. -/
def shadowingProgram : Node :=
  .program (.block
    [.function (.name "sqrt") [.name "π"] (.unary "!" (.name "π")),
      .declaration (.name "sin") (.boolean true),
      .assignment (.name "sin") (.call (.name "sqrt") [.name "sin"]),
      .print (.name "sin")])

/-- A program that takes the constant of the prelude at the bottom of a tower. -/
def deepConstant : Node :=
  .program (.block [.declaration (.name "y") ((Node.name "π").inArrays 1996)])

end Bella
