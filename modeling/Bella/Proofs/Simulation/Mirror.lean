import Bella.Proofs.Simulation.Basic

/-!
# Worlds that mirror one another

Two worlds mirror one another if they are the same but for the bodies of closures, which are related.
They have the same frames at the same addresses, and these bind the same names; so they have the same
chains, and a name resolves to the same frame in both. Whatever is done to the one can be done to the
other, and they go on to mirror one another.

## Main definitions

* `Bella.Frame.Agrees`: frames that bind the same names to related values.
* `Bella.Closure.Mirrors`, `Bella.Store.Mirrors`, `Bella.World.Mirrors`: the same but for the bodies
  of closures.
* `Bella.mirroring`: two runs in worlds that mirror one another.

## Main results

* `Bella.Frame.Agrees.bindAll`: frames that agree take in parameters alike.
* `Bella.Store.Mirrors.resolve?_eq`, `Bella.Store.Mirrors.lookup?_rel`: names have the same meaning.
* `Bella.Mirroring.callClosure_agrees`: calls of closures agree if their bodies do.
-/

namespace Bella

/-! ### Frames that agree -/

/-- Frames that bind the same names, to values that are equal up to related closures. -/
def Frame.Agrees (R : Closure → Closure → Prop) (F F' : Frame) : Prop :=
  ∀ x, Option.Rel (Value.Related R) (F.get? x) (F'.get? x)

namespace Frame.Agrees

variable {R : Closure → Closure → Prop} {F F' : Frame}

theorem binds_eq (h : F.Agrees R F') (x : String) : F.binds x = F'.binds x := by
  rw [binds_eq_isSome_get?, binds_eq_isSome_get?, Value.Related.isSome_eq (h x)]

theorem bind (h : F.Agrees R F') (x : String) {v v' : Value} (hv : v.Related R v') :
    (F.bind x v).Agrees R (F'.bind x v') := by
  intro y
  rw [get?_bind, get?_bind]
  split
  · exact .some hv
  · exact h y

theorem update (h : F.Agrees R F') (x : String) {v v' : Value} (hv : v.Related R v') :
    (F.update x v).Agrees R (F'.update x v') := by
  intro y
  rw [get?_update, get?_update]
  exact Value.Related.updated_rel (h y) hv

/-- Frames that agree take in parameters with related arguments alike: they collide with the same
one, and agree as far as they have got. -/
theorem bindAll (h : F.Agrees R F') (ps : List String) {vs vs' : List Value}
    (hvs : List.Forall₂ (Value.Related R) vs vs') :
    (F.bindAll (ps.zip vs)).2 = (F'.bindAll (ps.zip vs')).2 ∧
      (F.bindAll (ps.zip vs)).1.Agrees R (F'.bindAll (ps.zip vs')).1 := by
  induction ps generalizing F F' vs vs' with
  | nil => exact ⟨rfl, h⟩
  | cons p ps ih =>
    cases hvs with
    | nil => exact ⟨rfl, h⟩
    | cons hv hvs =>
      rw [List.zip_cons_cons, List.zip_cons_cons, bindAll_cons, bindAll_cons, h.binds_eq]
      split
      · exact ⟨rfl, h⟩
      · exact ih (h.bind p hv) hvs

end Frame.Agrees

/-! ### The same but for the bodies of closures -/

/-- Closures that are the same but for their bodies, which are related. -/
structure Closure.Mirrors (bodies : Node → Node → Prop) (c c' : Closure) : Prop where
  id : c.id = c'.id
  parameters : c.parameters = c'.parameters
  body : bodies c.body c'.body
  frame : c.frame = c'.frame

/-- Frames that are the same but for the bodies of closures. -/
structure Frame.Mirrors (bodies : Node → Node → Prop) (F F' : Frame) : Prop where
  parent : F.parent = F'.parent
  label : F.label = F'.label
  options : F.options = F'.options
  agrees : F.Agrees (Closure.Mirrors bodies) F'

/-- Stores that are the same but for the bodies of closures. -/
structure Store.Mirrors (bodies : Node → Node → Prop) (s s' : Store) : Prop where
  next : s.next = s'.next
  frames : ∀ i, Option.Rel (Frame.Mirrors bodies) (s.get? i) (s'.get? i)

/-- Worlds that are the same but for the bodies of closures. -/
structure World.Mirrors (bodies : Node → Node → Prop) (w w' : World) : Prop where
  printed : w.printed = w'.printed
  records : w.records = w'.records
  issued : w.issued = w'.issued
  store : w.store.Mirrors bodies w'.store

section Refl

variable {bodies : Node → Node → Prop} (hbodies : ∀ n, bodies n n)
include hbodies

theorem Closure.Mirrors.refl (c : Closure) : c.Mirrors bodies c := ⟨rfl, rfl, hbodies _, rfl⟩

theorem Frame.Mirrors.refl (F : Frame) : F.Mirrors bodies F where
  parent := rfl
  label := rfl
  options := rfl
  agrees x := by
    cases F.get? x with
    | none => exact .none
    | some v => exact .some (.refl (Closure.Mirrors.refl hbodies) v)

theorem World.Mirrors.refl (w : World) : w.Mirrors bodies w where
  printed := rfl
  records := rfl
  issued := rfl
  store :=
    { next := rfl
      frames := fun i => by
        cases w.store.get? i with
        | none => exact .none
        | some F => exact .some (.refl hbodies F) }

end Refl

namespace Frame.Mirrors

variable {bodies : Node → Node → Prop} {F F' : Frame} {v v' : Value}

theorem bind (h : F.Mirrors bodies F') (x : String) (hv : v.Related (Closure.Mirrors bodies) v') :
    (F.bind x v).Mirrors bodies (F'.bind x v') :=
  ⟨h.parent, h.label, h.options, h.agrees.bind x hv⟩

theorem update (h : F.Mirrors bodies F') (x : String)
    (hv : v.Related (Closure.Mirrors bodies) v') :
    (F.update x v).Mirrors bodies (F'.update x v') :=
  ⟨h.parent, h.label, h.options, h.agrees.update x hv⟩

end Frame.Mirrors

namespace Store.Mirrors

variable {bodies : Node → Node → Prop} {s s' : Store} (h : s.Mirrors bodies s')
include h

/-! ### Names and chains -/

theorem own?_rel (i : FrameId) (x : String) :
    Option.Rel (Value.Related (Closure.Mirrors bodies)) (s.own? i x) (s'.own? i x) := by
  have hget := h.frames i
  unfold own?
  generalize s.get? i = r, s'.get? i = r' at hget ⊢
  cases hget with
  | none => exact .none
  | some hF => exact hF.agrees x

theorem binds_eq (i : FrameId) (x : String) : s.binds i x = s'.binds i x := by
  rw [binds_eq_isSome_own?, binds_eq_isSome_own?, Value.Related.isSome_eq (h.own?_rel i x)]

theorem options?_eq (i : FrameId) : s.options? i = s'.options? i := by
  have hget := h.frames i
  unfold options?
  generalize s.get? i = r, s'.get? i = r' at hget ⊢
  cases hget with
  | none => rfl
  | some hF => exact hF.options

theorem options_eq (i : FrameId) : s.options i = s'.options i := by
  rw [options, options, h.options?_eq]

theorem chainUpTo_eq (fuel : Nat) (i : FrameId) : s.chainUpTo fuel i = s'.chainUpTo fuel i := by
  induction fuel generalizing i with
  | zero => rfl
  | succ fuel ih =>
    have hget := h.frames i
    rw [chainUpTo, chainUpTo]
    generalize s.get? i = r, s'.get? i = r' at hget ⊢
    cases hget with
    | none => rfl
    | some hF => simp only [hF.parent, ih]

theorem chain_eq (i : FrameId) : s.chain i = s'.chain i := h.chainUpTo_eq _ i

theorem root_eq (i : FrameId) : s.root i = s'.root i := by rw [root, root, h.chain_eq]

/-- A name resolves to the same frame. -/
theorem resolve?_eq (i : FrameId) (x : String) : s.resolve? i x = s'.resolve? i x := by
  simp only [resolve?, h.chain_eq, h.binds_eq]

/-- A name has related values. -/
theorem lookup?_rel (i : FrameId) (x : String) :
    Option.Rel (Value.Related (Closure.Mirrors bodies)) (s.lookup? i x) (s'.lookup? i x) := by
  unfold lookup?
  rw [h.resolve?_eq]
  cases s'.resolve? i x with
  | none => exact .none
  | some j => exact h.own?_rel j x

/-! ### Changes -/

theorem append {F F' : Frame} (hF : F.Mirrors bodies F') :
    (s.append F).Mirrors bodies (s'.append F') where
  next := by rw [next_append, next_append, h.next]
  frames i := by
    rw [get?_append, get?_append, h.next]
    split
    · exact .some hF
    · exact h.frames i

/-- A change to a frame of the one store may be made to the other. -/
private theorem change {t t' : Store} {i : FrameId} {g g' : Frame → Frame}
    (ht : ∀ j, t.get? j = if i = j then (s.get? j).map g else s.get? j)
    (ht' : ∀ j, t'.get? j = if i = j then (s'.get? j).map g' else s'.get? j)
    (hnext : t.next = s.next) (hnext' : t'.next = s'.next)
    (hg : ∀ {F F' : Frame}, F.Mirrors bodies F' → (g F).Mirrors bodies (g' F')) :
    t.Mirrors bodies t' where
  next := by rw [hnext, hnext', h.next]
  frames j := by
    have hget := h.frames j
    rw [ht, ht']
    generalize s.get? j = r, s'.get? j = r' at hget ⊢
    split
    · cases hget with
      | none => exact .none
      | some hF => exact .some (hg hF)
    · exact hget

theorem bind (i : FrameId) (x : String) {v v' : Value}
    (hv : v.Related (Closure.Mirrors bodies) v') :
    (s.bind i x v).Mirrors bodies (s'.bind i x v') :=
  h.change (get?_bind s i x v) (get?_bind s' i x v') (next_bind s i x v) (next_bind s' i x v')
    fun hF => hF.bind x hv

theorem update (i : FrameId) (x : String) {v v' : Value}
    (hv : v.Related (Closure.Mirrors bodies) v') :
    (s.update i x v).Mirrors bodies (s'.update i x v') :=
  h.change (get?_update s i x v) (get?_update s' i x v') (next_update s i x v)
    (next_update s' i x v') fun hF => hF.update x hv

end Store.Mirrors

/-! ### What two runs do -/

/-- Two runs in worlds that mirror one another. -/
def mirroring (bodies : Node → Node → Prop) {halts : Halt → Halt → Prop}
    (comparison : Halt.IsComparison halts) : Coupling where
  worlds := World.Mirrors bodies
  grows _ _ _ _ := True
  halts := halts
  excused _ := False
  grows_refl _ _ := trivial
  grows_trans _ _ := trivial
  comparison := comparison

namespace Mirroring

variable {bodies : Node → Node → Prop} {halts : Halt → Halt → Prop}
  {comparison : Halt.IsComparison halts}

/-- An action agrees with itself in one world. -/
theorem agrees_self (hbodies : ∀ n, bodies n n) (hhalts : ∀ k, halts k k) {α : Type} (x : Run α)
    (w : World) : (mirroring bodies comparison).Agrees Eq x x w w := by
  unfold Coupling.Agrees
  cases x w with
  | ok a v => exact .ok rfl (.refl hbodies v) trivial
  | error k v => exact .error (hhalts k) (.refl hbodies v) trivial

variable {w w' : World} (h : w.Mirrors bodies w')
include h

theorem get_agrees :
    (mirroring bodies comparison).Agrees (World.Mirrors bodies) get get w w' :=
  .ok h h trivial

theorem note_agrees (r : Record) :
    (mirroring bodies comparison).Agrees Eq (Run.note r) (Run.note r) w w' :=
  .ok rfl ⟨h.printed, congrArg (·.push r) h.records, h.issued, h.store⟩ trivial

theorem options_agrees (f : FrameId) :
    (mirroring bodies comparison).Agrees Eq (Run.options f) (Run.options f) w w' :=
  .ok (h.store.options_eq f) h trivial

theorem print_agrees (sink : Sink) (line : String) :
    (mirroring bodies comparison).Agrees Eq (Run.print sink line) (Run.print sink line) w w' :=
  .ok rfl ⟨congrArg (·.push (sink, line)) h.printed, h.records, h.issued, h.store⟩ trivial

theorem lookup_agrees (f : FrameId) (x : String) :
    (mirroring bodies comparison).Agrees (Value.Related (Closure.Mirrors bodies)) (Run.lookup f x)
      (Run.lookup f x) w w' := by
  have hrel := h.store.lookup?_rel f x
  unfold Coupling.Agrees
  rw [Run.lookup_apply, Run.lookup_apply]
  generalize w.store.lookup? f x = r, w'.store.lookup? f x = r' at hrel ⊢
  cases hrel with
  | some hv => exact .ok hv h trivial
  | none => exact .error (comparison.ordinary rfl) h trivial

theorem newFrame_agrees (parent : Option FrameId) (label : String) (o : Option Options) :
    (mirroring bodies comparison).Agrees Eq (Run.newFrame parent label o)
      (Run.newFrame parent label o) w w' := by
  have hoptions : parent.bind w.store.options? = parent.bind w'.store.options? := by
    cases parent with
    | none => rfl
    | some i => exact h.store.options?_eq i
  have hframe : Frame.Mirrors bodies
      { parent, label, options := o <|> parent.bind w.store.options?, bindings := [] }
      { parent, label, options := o <|> parent.bind w'.store.options?, bindings := [] } :=
    ⟨rfl, rfl, by rw [hoptions], fun _ => .none⟩
  unfold Coupling.Agrees
  rw [Run.newFrame_apply, Run.newFrame_apply]
  exact .ok h.store.next ⟨h.printed, h.records, h.issued, h.store.append hframe⟩ trivial

theorem declare_agrees (f : FrameId) (x : String) {v v' : Value}
    (hv : v.Related (Closure.Mirrors bodies) v') :
    (mirroring bodies comparison).Agrees Eq (Run.declare f x v) (Run.declare f x v') w w' := by
  unfold Coupling.Agrees
  rw [Run.declare_apply, Run.declare_apply, h.store.binds_eq]
  split
  · exact .error (comparison.ordinary rfl) h trivial
  · exact .ok rfl ⟨h.printed, h.records, h.issued, h.store.bind f x hv⟩ trivial

theorem declareFunction_agrees (f : FrameId) (x : String) (ps : List String) {body body' : Node}
    (hbody : bodies body body') :
    (mirroring bodies comparison).Agrees (Closure.Mirrors bodies)
      (Run.declareFunction f x ps body) (Run.declareFunction f x ps body') w w' := by
  unfold Coupling.Agrees
  rw [Run.declareFunction_apply, Run.declareFunction_apply, h.store.binds_eq]
  split
  · exact .error (comparison.ordinary rfl) h trivial
  · have hclosure : Closure.Mirrors bodies
        { id := w.issued, parameters := ps, body, frame := some f }
        { id := w'.issued, parameters := ps, body := body', frame := some f } :=
      ⟨h.issued, rfl, hbody, rfl⟩
    exact .ok hclosure ⟨h.printed, h.records, congrArg (· + 1) h.issued,
      h.store.bind f x (.closure hclosure)⟩ trivial

theorem assign_agrees (f : FrameId) (x : String) {v v' : Value}
    (hv : v.Related (Closure.Mirrors bodies) v') :
    (mirroring bodies comparison).Agrees Eq (Run.assign f x v) (Run.assign f x v') w w' := by
  unfold Coupling.Agrees
  rw [Run.assign_apply, Run.assign_apply, h.store.resolve?_eq]
  cases w'.store.resolve? f x with
  | none => exact .error (comparison.ordinary rfl) h trivial
  | some i => exact .ok rfl ⟨h.printed, h.records, h.issued, h.store.update i x hv⟩ trivial

/-! ### Calls -/

theorem declareAll_agrees (f : FrameId) (ps : List String) {vs vs' : List Value}
    (hvs : List.Forall₂ (Value.Related (Closure.Mirrors bodies)) vs vs') :
    (mirroring bodies comparison).Agrees Eq (Run.declareAll f (ps.zip vs))
      (Run.declareAll f (ps.zip vs')) w w' := by
  induction ps generalizing vs vs' w w' with
  | nil => exact .pure rfl h
  | cons p ps ih =>
    cases hvs with
    | nil => exact .pure rfl h
    | cons hv hvs => exact .bind (declare_agrees h f p hv) fun _ _ _ _ _ hworlds _ => ih hworlds hvs

variable {k k' : Closure} (hk : k.Mirrors bodies k') {vs vs' : List Value}
  (hvs : List.Forall₂ (Value.Related (Closure.Mirrors bodies)) vs vs')
include hk hvs

/-- Calls of closures get to their bodies in the same frame. -/
theorem enterCall_agrees (x : String) (f : FrameId) :
    (mirroring bodies comparison).Agrees Eq (enterCall x k vs f) (enterCall x k' vs' f) w w' := by
  unfold enterCall
  rw [← hk.parameters, hvs.length_eq]
  split
  · exact .fail rfl h
  · refine .bind (get_agrees h) fun u u' v v' hu hv _ => ?_
    have hhome : k.home u.store f = k'.home u'.store f := by
      rw [Closure.home, Closure.home, hk.frame, hu.store.root_eq]
    -- the policy decides in which frame the parameters are bound, and nothing else
    have hbinds (scoping : Scoping) (i i' : FrameId) (t t' : World) (hi : i = i')
        (ht : t.Mirrors bodies t') :
        (mirroring bodies comparison).Agrees Eq
          (do
            Run.declareAll i (k.parameters.zip vs)
            Run.note (.called x k.parameters scoping)
            return i)
          (do
            Run.declareAll i' (k.parameters.zip vs')
            Run.note (.called x k.parameters scoping)
            return i') t t' := by
      subst hi
      refine .bind (declareAll_agrees ht i k.parameters hvs) fun _ _ r r' _ hr _ => ?_
      exact .bind (note_agrees hr _) fun _ _ _ _ _ hs _ => .pure rfl hs
    rw [hhome, hu.store.options_eq]
    cases (u'.store.options f).scoping with
    | flat => exact .bind (.pure rfl hv) fun i i' t t' hi ht _ => hbinds _ i i' t t' hi ht
    | lexical =>
      refine .bind (newFrame_agrees hv _ _ none) fun i i' t t' hi ht _ => ?_
      exact hbinds _ i i' t t' hi ht

/-- Calls of closures agree if their bodies do, wherever the calls led. -/
theorem callClosure_agrees {eval eval' : Evaluator} (x : String) (f : FrameId)
    (heval : ∀ {i : FrameId} {v v' : World}, v.Mirrors bodies v' →
      (mirroring bodies comparison).Agrees (Value.Related (Closure.Mirrors bodies)) (eval k.body i)
        (eval' k'.body i) v v') :
    (mirroring bodies comparison).Agrees (Value.Related (Closure.Mirrors bodies))
      (callClosure eval x k vs f) (callClosure eval' x k' vs' f) w w' := by
  rw [callClosure_eq_enterCall, callClosure_eq_enterCall]
  refine .bind (enterCall_agrees h hk hvs x f) fun i _ v v' hi hv _ => ?_
  subst hi
  exact heval hv

end Mirroring
end Bella
