import Bella.Proofs.Purity
import Bella.Proofs.Simulation.Invariant

/-!
# The ground of a program

A program that runs in a fresh frame stands on at most two frames: the globals, and the prelude
behind them. Every other frame that the run looks at is the frame of a call, with the globals as its
parent. So a name means what it means to the call, else to the globals, else to the prelude.

## Main definitions

* `Bella.Ground`: the addresses of the globals and of the frame behind them.
* `Bella.Ground.Holds`: a store has these frames.
* `Bella.Ground.Within`: a frame is the globals, or a call on this ground with the given local
  names.
* `Bella.Ground.fresh`: the ground that a program without a frame is given.

## Main results

* `Bella.Ground.Within.lookup?_eq`: looking up a name from a call.
* `Bella.Ground.Holds.resolve?_eq`: resolving a name from the globals.
* `Bella.Ground.Holds.callClosure_apply`: calling a closure under lexical scoping.
* `Bella.Run.globalFrame_apply`, `Bella.interpret_fresh`: making the ground and running on it.
-/

namespace Bella

/-- The frames that a program stands on. -/
structure Ground where
  /-- The frame in which the program declares. -/
  globals : FrameId
  /-- The frame of the prelude, if there is one. -/
  behind : Option FrameId
  older : ∀ b, behind = some b → b < globals

namespace Ground

variable (γ : Ground)

/-- The value of a global name. -/
def global? (s : Store) (x : String) : Option Value := s.own? γ.globals x

/-- The value of a name of the prelude. -/
def prelude? (s : Store) (x : String) : Option Value := γ.behind.bind fun b => s.own? b x

/-- A store has the frames of the ground, and the globals have the options `o`. -/
structure Holds (o : Options) (s : Store) : Prop where
  globals : ∃ F, s.get? γ.globals = some F ∧ F.parent = γ.behind ∧ F.options = some o
  behind : ∀ b, γ.behind = some b → ∃ B, s.get? b = some B ∧ B.parent = none

/-- The frame is the globals themselves or that of a call, with the given local values. -/
inductive Within (o : Options) (s : Store) : FrameId → (String → Option Value) → Prop
  | globals : Within o s γ.globals fun _ => none
  | call {t : FrameId} {F : Frame} (hget : s.get? t = some F)
      (hparent : F.parent = some γ.globals) (hnewer : γ.globals < t)
      (hoptions : F.options = some o) :
      Within o s t F.get?

variable {γ} {o : Options} {s t : Store} {f : FrameId} {locals : String → Option Value}

/-! ### Looking up -/

theorem Holds.chain (h : γ.Holds o s) : s.Chain γ.globals (γ.globals :: γ.behind.toList) := by
  obtain ⟨F, hget, hparent, -⟩ := h.globals
  cases hbehind : γ.behind with
  | none => exact .last hget (hparent.trans hbehind)
  | some b =>
    obtain ⟨B, hB, hB'⟩ := h.behind b hbehind
    exact .link hget (hparent.trans hbehind) (γ.older b hbehind) (.last hB hB')

/-- From the globals, a name means what it means to them, else to the prelude. -/
theorem Holds.lookup?_eq (h : γ.Holds o s) (x : String) :
    s.lookup? γ.globals x = (γ.global? s x).or (γ.prelude? s x) := by
  rw [Store.lookup?_eq_findSome?, h.chain.chain_eq, List.findSome?_cons, global?, prelude?]
  cases s.own? γ.globals x with
  | some v => rfl
  | none =>
    cases γ.behind with
    | none => rfl
    | some b => cases hb : s.own? b x <;> simp [hb]

/-- From a call, a name means what it means to the call, else to the globals, else to the
prelude. -/
theorem Within.lookup?_eq (h : γ.Holds o s) (hf : γ.Within o s f locals) (x : String) :
    s.lookup? f x = (locals x).or ((γ.global? s x).or (γ.prelude? s x)) := by
  cases hf with
  | globals => exact h.lookup?_eq x
  | call hget hparent hnewer hoptions =>
    rw [← h.lookup?_eq, Store.lookup?_eq_findSome?, Store.lookup?_eq_findSome?, h.chain.chain_eq,
      (Store.Chain.link hget hparent hnewer h.chain).chain_eq, List.findSome?_cons,
      Store.own?_of_get? hget]
    split <;> simp_all

theorem Within.options_eq (h : γ.Holds o s) (hf : γ.Within o s f locals) : s.options f = o := by
  cases hf with
  | globals =>
    obtain ⟨F, hget, -, hoptions⟩ := h.globals
    exact Store.options_of_get? hget hoptions
  | call hget _ _ hoptions => exact Store.options_of_get? hget hoptions

/-- A name resolves to the globals, else to the prelude. -/
theorem Holds.resolve?_eq (h : γ.Holds o s) (x : String) :
    s.resolve? γ.globals x =
      if (γ.global? s x).isSome then some γ.globals
      else if (γ.prelude? s x).isSome then γ.behind else none := by
  rw [Store.resolve?_eq_find?, h.chain.chain_eq, List.find?_cons, global?, prelude?]
  cases s.own? γ.globals x with
  | some v => rfl
  | none =>
    cases γ.behind with
    | none => rfl
    | some b => cases hb : s.own? b x <;> simp [hb]

/-! ### Frames that are kept -/

section Kept

variable (hkept : ∀ {i : FrameId} {F : Frame}, s.get? i = some F → t.get? i = some F)
include hkept

theorem Holds.kept (h : γ.Holds o s) : γ.Holds o t := by
  obtain ⟨F, hget, hF⟩ := h.globals
  refine ⟨⟨F, hkept hget, hF⟩, fun b hb => ?_⟩
  obtain ⟨B, hB, hparent⟩ := h.behind b hb
  exact ⟨B, hkept hB, hparent⟩

theorem Within.kept (hf : γ.Within o s f locals) : γ.Within o t f locals := by
  cases hf with
  | globals => exact .globals
  | call hget hparent hnewer hoptions => exact .call (hkept hget) hparent hnewer hoptions

theorem Holds.global?_kept (h : γ.Holds o s) (x : String) : γ.global? t x = γ.global? s x := by
  obtain ⟨F, hget, -⟩ := h.globals
  rw [global?, global?, Store.own?_of_get? hget, Store.own?_of_get? (hkept hget)]

theorem Holds.prelude?_kept (h : γ.Holds o s) (x : String) : γ.prelude? t x = γ.prelude? s x := by
  unfold prelude?
  cases hbehind : γ.behind with
  | none => rfl
  | some b =>
    obtain ⟨B, hB, -⟩ := h.behind b hbehind
    simp only [Option.bind_some, Store.own?_of_get? hB, Store.own?_of_get? (hkept hB)]

end Kept

/-! ### Frames that are changed -/

private theorem behind_ne_globals {b : FrameId} (hb : γ.behind = some b) : γ.globals ≠ b :=
  (Nat.ne_of_lt (γ.older b hb)).symm

/-- Another frame with the same links may stand in for the globals. -/
theorem Holds.replace (h : γ.Holds o s) {G : Frame} (hparent : G.parent = γ.behind)
    (hoptions : G.options = some o) : γ.Holds o (s.replace γ.globals G) := by
  obtain ⟨F, hget, -⟩ := h.globals
  refine ⟨⟨G, by simp [Store.get?_replace, hget], hparent, hoptions⟩, fun b hb => ?_⟩
  obtain ⟨B, hB, hB'⟩ := h.behind b hb
  exact ⟨B, by simp [Store.get?_replace, behind_ne_globals hb, hB], hB'⟩

theorem Holds.global?_replace (h : γ.Holds o s) (G : Frame) (x : String) :
    γ.global? (s.replace γ.globals G) x = G.get? x := by
  obtain ⟨F, hget, -⟩ := h.globals
  simp [global?, Store.own?, Store.get?_replace, hget]

theorem prelude?_replace (s : Store) (G : Frame) (x : String) :
    γ.prelude? (s.replace γ.globals G) x = γ.prelude? s x := by
  unfold prelude?
  cases hbehind : γ.behind with
  | none => rfl
  | some b => simp [Store.own?, Store.get?_replace, behind_ne_globals hbehind]

theorem Holds.bind (h : γ.Holds o s) (x : String) (v : Value) :
    γ.Holds o (s.bind γ.globals x v) := by
  obtain ⟨F, hget, hparent, hoptions⟩ := h.globals
  rw [Store.bind_eq_replace hget]
  exact h.replace hparent hoptions

theorem Holds.global?_bind (h : γ.Holds o s) (x : String) (v : Value) (y : String) :
    γ.global? (s.bind γ.globals x v) y = if x = y then some v else γ.global? s y := by
  obtain ⟨F, hget, -⟩ := h.globals
  simp [global?, Store.own?_bind hget]

theorem Holds.prelude?_bind (h : γ.Holds o s) (x : String) (v : Value) (y : String) :
    γ.prelude? (s.bind γ.globals x v) y = γ.prelude? s y := by
  obtain ⟨F, hget, -⟩ := h.globals
  rw [Store.bind_eq_replace hget, prelude?_replace]

theorem Holds.update (h : γ.Holds o s) (i : FrameId) (x : String) (v : Value) :
    γ.Holds o (s.update i x v) := by
  obtain ⟨F, hget, hparent, hoptions⟩ := h.globals
  constructor
  · by_cases hi : i = γ.globals
    · exact ⟨F.update x v, by simp [Store.get?_update, hi, hget], hparent, hoptions⟩
    · exact ⟨F, by simp [Store.get?_update, hi, hget], hparent, hoptions⟩
  · intro b hb
    obtain ⟨B, hB, hB'⟩ := h.behind b hb
    by_cases hi : i = b
    · exact ⟨B.update x v, by simp [Store.get?_update, hi, hB], hB'⟩
    · exact ⟨B, by simp [Store.get?_update, hi, hB], hB'⟩

theorem global?_update_globals (s : Store) (x : String) (v : Value) (y : String) :
    γ.global? (s.update γ.globals x v) y =
      if x = y then (γ.global? s y).map fun _ => v else γ.global? s y := by
  simp [global?, Store.own?_update]

theorem prelude?_update_globals (s : Store) (x : String) (v : Value) (y : String) :
    γ.prelude? (s.update γ.globals x v) y = γ.prelude? s y := by
  unfold prelude?
  cases hbehind : γ.behind with
  | none => rfl
  | some b => simp [Store.own?_update, behind_ne_globals hbehind]

theorem global?_update_behind (s : Store) {b : FrameId} (hb : γ.behind = some b) (x : String)
    (v : Value) (y : String) : γ.global? (s.update b x v) y = γ.global? s y := by
  simp [global?, Store.own?_update, (behind_ne_globals hb).symm]

theorem prelude?_update_behind (s : Store) {b : FrameId} (hb : γ.behind = some b) (x : String)
    (v : Value) (y : String) :
    γ.prelude? (s.update b x v) y =
      if x = y then (γ.prelude? s y).map fun _ => v else γ.prelude? s y := by
  simp [prelude?, hb, Store.own?_update]

/-! ### Calls on the ground -/

/-- The parameters of a call in a frame of its own: a repeated one is refused, and otherwise each
has its argument. -/
private theorem bindAll_ofCall (s : Store) (home : FrameId) (name : String)
    {parameters : List String}
    {arguments : List Value} (hlength : arguments.length = parameters.length) :
    ((Frame.ofCall s home name).bindAll (parameters.zip arguments)).2 =
      firstRepeated [] parameters := by
  have hfresh (x : String) :
      (Frame.ofCall s home name).binds x = true ↔ x ∈ ([] : List String) := by
    simp [Frame.binds, Frame.ofCall]
  rw [Frame.bindAll_snd hfresh, List.map_fst_zip (Nat.le_of_eq hlength.symm)]

/-- The frame that a call appends lies on the ground, whichever of its parameters are bound. -/
theorem within_append_call {w : World} (h : γ.Holds o w.store) (name : String)
    (bs : List (String × Value)) :
    γ.Within o (w.append ((Frame.ofCall w.store γ.globals name).bindAll bs).1).store w.store.next
      ((Frame.ofCall w.store γ.globals name).bindAll bs).1.get? := by
  obtain ⟨F, hget, -, hoptions⟩ := h.globals
  obtain ⟨hp, -, ho⟩ := Frame.bindAll_shape (Frame.ofCall w.store γ.globals name) bs
  refine .call ?_ hp (Store.lt_next_of_get? hget) (ho.trans ?_)
  · simp [World.append, Store.get?_append]
  · simp [Frame.ofCall, Store.options?, hget, hoptions]

/-- A lexical call of a closure that was declared among the globals: a repeated parameter is
refused, and otherwise the body is evaluated in a new frame that holds the parameters alone. -/
theorem Holds.callClosure_apply {w : World} (h : γ.Holds o w.store)
    (hf : γ.Within o w.store f locals)
    (hscoping : o.scoping = .lexical) {c : Closure} (hc : c.frame = some γ.globals)
    {arguments : List Value} (hlength : arguments.length = c.parameters.length) (eval : Evaluator)
    (name : String) :
    ∃ v, w.Extends v ∧
      (firstRepeated [] c.parameters = none → γ.Within o v.store w.store.next
        fun x => (c.parameters.zip arguments).lookup x) ∧
      callClosure eval name c arguments f w = match firstRepeated [] c.parameters with
        | some x => .error (.error { cause := .alreadyDeclared x .variable }) v
        | none => eval c.body w.store.next v := by
  have hhome : c.home w.store f = γ.globals := by simp [Closure.home, hc]
  have hlexical : (w.store.options f).scoping = .lexical := by rw [hf.options_eq h, hscoping]
  let E := Frame.ofCall w.store γ.globals name
  have hcollision : (E.bindAll (c.parameters.zip arguments)).2 = firstRepeated [] c.parameters :=
    bindAll_ofCall _ _ _ hlength
  have hextends := World.Extends.append w (E.bindAll (c.parameters.zip arguments)).1
  have hE : Frame.ofCall w.store (c.home w.store f) name = E := by rw [hhome]
  rw [callClosure_lexical hlength hlexical hE, hcollision]
  cases hrepeated : firstRepeated [] c.parameters with
  | some x => exact ⟨_, hextends, fun h => absurd h (Option.some_ne_none x), rfl⟩
  | none =>
    refine ⟨_, hextends.trans (.noted _ _), fun _ => ?_, rfl⟩
    have hwithin := within_append_call h name (c.parameters.zip arguments)
    have hvalues : (E.bindAll (c.parameters.zip arguments)).1.get? =
        fun x => (c.parameters.zip arguments).lookup x := by
      funext x
      rw [Frame.get?_bindAll (hcollision.trans hrepeated)]
      simp [E, Frame.ofCall, Frame.get?]
    rw [hvalues] at hwithin
    exact hwithin

end Ground

/-! ### Making the ground -/

/-- The ground that a program without a frame is given. -/
def Ground.fresh (o : Options) (w : World) : Ground :=
  if o.mathematics then
    { globals := w.store.next + 1
      behind := some w.store.next
      older := by
        rintro b ⟨⟩
        exact Nat.lt_succ_self _ }
  else
    { globals := w.store.next
      behind := none
      older := by
        rintro b ⟨⟩ }

/-- What the prelude binds, if the options ask for it. -/
def Options.prelude? (o : Options) (x : String) : Option Value :=
  if o.mathematics then Prelude.bindings.lookup x else none

/-- The prelude holds no closures, so it is related to itself in every way. -/
theorem Options.prelude?_related (o : Options) (R : Closure → Closure → Prop) (x : String) :
    Option.Rel (Value.Related R) (o.prelude? x) (o.prelude? x) := by
  unfold Options.prelude?
  split
  · cases hx : Prelude.bindings.lookup x with
    | none => exact .none
    | some v =>
      obtain ⟨before, after, hbindings, -⟩ := List.lookup_eq_some_iff.mp hx
      have hmem : (x, v) ∈ Prelude.bindings := by simp [hbindings]
      simp only [Prelude.bindings, List.mem_append, List.mem_map, List.mem_singleton] at hmem
      obtain ⟨b, -, ⟨⟩⟩ | ⟨⟨⟩⟩ := hmem
      · exact .some (.builtin b)
      · exact .some (.number _)
  · exact .none

/-- The values of the prelude hold no closures. -/
theorem Options.holdsOnly_of_prelude? {o : Options} {x : String} {v : Value}
    (h : o.prelude? x = some v) (P : Closure → Prop) : v.HoldsOnly P := by
  have hrelated := o.prelude?_related (fun c d => c = d ∧ P c) x
  rw [h] at hrelated
  cases hrelated with
  | some hself => exact hself.holdsOnly

/-- The world `v` is `w` with a ground that nothing has been declared on. -/
structure Ground.IsLaid (γ : Ground) (o : Options) (w v : World) : Prop where
  printed : v.printed = w.printed
  records : v.records = w.records
  issued : v.issued = w.issued
  holds : γ.Holds o v.store
  global?_eq : ∀ x, γ.global? v.store x = none
  prelude?_eq : ∀ x, γ.prelude? v.store x = o.prelude? x

/-- The names of the prelude are different from one another. -/
theorem Prelude.firstRepeated_bindings : firstRepeated [] (bindings.map Prod.fst) = none := by
  decide

private theorem laid_without_prelude {o : Options} (ho : o.mathematics = false) (w : World) :
    (Ground.fresh o w).IsLaid o w
      (w.append { parent := none, label := "global", options := some o, bindings := [] }) where
  printed := rfl
  records := rfl
  issued := rfl
  holds := by
    simp only [Ground.fresh, ho, Bool.false_eq_true, if_false]
    constructor
    · exact ⟨_, (Store.get?_append _ _ _).trans (if_pos rfl), rfl, rfl⟩
    · rintro b ⟨⟩
  global?_eq x := by
    simp [Ground.fresh, ho, Ground.global?, Store.own?, World.append, Store.get?_append, Frame.get?]
  prelude?_eq x := by simp [Ground.fresh, ho, Ground.prelude?, Options.prelude?]

private theorem laid_with_prelude {o : Options} (ho : o.mathematics = true) (w : World) {P : Frame}
    (hparent : P.parent = none) (hget : ∀ x, P.get? x = Prelude.bindings.lookup x) :
    (Ground.fresh o w).IsLaid o w
      ((w.append P).append
        { parent := some w.store.next, label := "global", options := some o, bindings := [] }) where
  printed := rfl
  records := rfl
  issued := rfl
  holds := by
    simp only [Ground.fresh, ho, if_true]
    constructor
    · have hnext : w.store.next + 1 = (w.append P).store.next := (Store.next_append _ _).symm
      exact ⟨_, (Store.get?_append _ _ _).trans (if_pos hnext), rfl, rfl⟩
    · rintro b ⟨⟩
      exact ⟨P, by simp [World.append, Store.get?_append, Store.next_append], hparent⟩
  global?_eq x := by
    simp [Ground.fresh, ho, Ground.global?, Store.own?, World.append, Store.get?_append,
      Store.next_append, Frame.get?]
  prelude?_eq x := by
    simp [Ground.fresh, ho, Ground.prelude?, Store.own?, World.append, Store.get?_append,
      Store.next_append, Options.prelude?, hget]

/-- A program without a frame is given a fresh ground. -/
theorem Run.globalFrame_apply (o : Options) (w : World) :
    ∃ v, Run.globalFrame o w = .ok (Ground.fresh o w).globals v ∧
      (Ground.fresh o w).IsLaid o w v := by
  cases ho : o.mathematics with
  | false =>
    refine ⟨_, ?_, laid_without_prelude ho w⟩
    simp only [Run.globalFrame, Ground.fresh, ho, Bool.false_eq_true, if_false]
    rfl
  | true =>
    let E : Frame := { parent := none, label := "prelude", options := some o, bindings := [] }
    have hfresh (x : String) : E.binds x = true ↔ x ∈ ([] : List String) := by simp [E, Frame.binds]
    have hnone : (E.bindAll Prelude.bindings).2 = none :=
      (Frame.bindAll_snd hfresh _).trans Prelude.firstRepeated_bindings
    have hget : (w.append E).store.get? w.store.next = some E := by
      simp [World.append, Store.get?_append]
    have hdeclare := Run.declareAll_apply hget Prelude.bindings
    rw [hnone, World.append_replace_next] at hdeclare
    have hvalues (x : String) :
        (E.bindAll Prelude.bindings).1.get? x = Prelude.bindings.lookup x := by
      rw [Frame.get?_bindAll hnone]
      simp [E, Frame.get?]
    refine ⟨_, ?_, laid_with_prelude ho w (Frame.bindAll_shape E _).1 hvalues⟩
    have hnew : Run.newFrame none "prelude" (some o) w = .ok w.store.next (w.append E) := rfl
    have hnext : (w.append (E.bindAll Prelude.bindings).1).store.next = w.store.next + 1 :=
      Store.next_append _ _
    simp only [Run.globalFrame, Ground.fresh, ho, if_true, Run.bind_apply, hnew, hdeclare,
      Run.newFrame_apply, hnext]
    rfl

/-- A program without a frame runs on a fresh ground. -/
theorem interpret_fresh (passes : Nat) (program : Node) (options : Option Options) (w : World) :
    ∃ v, (Ground.fresh (options.getD {}) w).IsLaid (options.getD {}) w v ∧
      interpret passes program none options w =
        interpretIn passes program (Ground.fresh (options.getD {}) w).globals v := by
  obtain ⟨v, hv, hlaid⟩ := Run.globalFrame_apply (options.getD {}) w
  refine ⟨v, hlaid, ?_⟩
  simp only [interpret, prepareFrame, Run.bind_apply, hv]

end Bella
