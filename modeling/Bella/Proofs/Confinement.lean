import Bella.Proofs.FlatCalls

/-!
# The frames of calls do not escape

A closure remembers the frame in which it was declared. Functions are declared by statements, and
statements are not executed in the frames of calls, so no closure remembers the frame of a call,
however values travel: as arguments, inside arrays, as results, or by assignments to outer frames.
Nothing that an expression or a statement leaves behind refers to a frame that was made meanwhile,
under either policy of scoping.

In a run on a fresh frame this is sharper still. All functions are declared among the globals, so
every closure refers to the globals, and the frame of every call has the globals as its parent. That
holds at every moment of the run.

## Main definitions

* `Bella.Confinement`: which closures there may be, in which frames, and how these are linked.
* `Bella.Store.RefersBelow`: closures refer to frames before a given one.
* `Bella.Ground.Confines`: closures refer to the globals, and so do the frames of calls.

## Main results

* `Bella.Confinement.invariant`: a confinement is kept by every program.
* `Bella.call_frames_never_escape`: what expressions, statements and runs leave behind.
-/

namespace Bella

/-- Which closures the values in some frames may hold, and which parents these frames may have. The
frames that are made since the confinement began are among them. -/
structure Confinement where
  /-- The closures that values may hold. -/
  closures : Closure → Prop
  /-- The frames that are looked at. -/
  among : FrameId → Prop
  /-- The parents that a frame may have. -/
  links : FrameId → Option FrameId → Prop
  /-- The address of the first frame that is made since. -/
  base : FrameId
  among_of_base_le : ∀ {i}, base ≤ i → among i
  among_parent : ∀ {i p}, among i → links i (some p) → among p
  links_call : ∀ {k s f i}, closures k → base ≤ i → links i (some (Closure.home k s f))

namespace Confinement

variable (C : Confinement)

/-- The frames are linked and filled as the confinement says. -/
structure Holds (s : Store) : Prop where
  base_le : C.base ≤ s.next
  links : ∀ {i F}, C.among i → s.get? i = some F → C.links i F.parent
  values : ∀ {i F}, C.among i → s.get? i = some F → ∀ x v, F.get? x = some v →
    v.HoldsOnly C.closures

variable {C} {s : Store} {f : FrameId}

namespace Holds

theorem among_of_mem_chain (h : C.Holds s) (hf : C.among f) : ∀ i ∈ s.chain f, C.among i :=
  Store.forall_mem_chain
    (fun hi hget hparent => C.among_parent hi (hparent ▸ h.links hi hget)) hf

theorem holdsOnly_of_lookup? (h : C.Holds s) (hf : C.among f) {x : String} {v : Value}
    (hx : s.lookup? f x = some v) : v.HoldsOnly C.closures := by
  obtain ⟨i, F, hi, hget, hv⟩ := Store.exists_of_lookup? hx
  exact h.values (h.among_of_mem_chain hf i hi) hget x v hv

/-- The frame of a call is linked as the confinement says, and empty at first. -/
theorem append_call (h : C.Holds s) {k : Closure} (hk : C.closures k) (name : String) :
    C.Holds (s.append (Frame.ofCall s (k.home s f) name)) := by
  refine ⟨?_, fun {i F} hi hget => ?_, fun {i F} hi hget x v hx => ?_⟩
  · rw [Store.next_append]
    exact Nat.le_succ_of_le h.base_le
  · rw [Store.get?_append] at hget
    split at hget
    · rename_i hnew
      cases hget
      exact C.links_call hk (hnew ▸ h.base_le)
    · exact h.links hi hget
  · rw [Store.get?_append] at hget
    split at hget
    · cases hget
      cases hx
    · exact h.values hi hget x v hx

/-- One frame is changed, which keeps its parent and gets values of the right sort. -/
private theorem change (h : C.Holds s) {t : Store} {j : FrameId} {g : Frame → Frame}
    (hnext : t.next = s.next)
    (ht : ∀ i, t.get? i = if j = i then (s.get? i).map g else s.get? i)
    (hparent : ∀ F, (g F).parent = F.parent)
    (hvalues : ∀ F x v, (g F).get? x = some v → F.get? x = some v ∨ v.HoldsOnly C.closures) :
    C.Holds t := by
  refine ⟨hnext ▸ h.base_le, fun {i F} hi hget => ?_, fun {i F} hi hget x v hx => ?_⟩
  · rw [ht] at hget
    split at hget
    · obtain ⟨G, hG, rfl⟩ := Option.map_eq_some_iff.mp hget
      rw [hparent]
      exact h.links hi hG
    · exact h.links hi hget
  · rw [ht] at hget
    split at hget
    · obtain ⟨G, hG, rfl⟩ := Option.map_eq_some_iff.mp hget
      obtain hold | hnew := hvalues G x v hx
      · exact h.values hi hG x v hold
      · exact hnew
    · exact h.values hi hget x v hx

theorem bind (h : C.Holds s) (i : FrameId) (x : String) {v : Value}
    (hv : v.HoldsOnly C.closures) : C.Holds (s.bind i x v) := by
  refine h.change (s.next_bind i x v) (s.get?_bind i x v) (fun _ => rfl) fun F y u hu => ?_
  rw [Frame.get?_bind] at hu
  split at hu
  · cases hu
    exact .inr hv
  · exact .inl hu

theorem update (h : C.Holds s) (i : FrameId) (x : String) {v : Value}
    (hv : v.HoldsOnly C.closures) : C.Holds (s.update i x v) := by
  refine h.change (s.next_update i x v) (s.get?_update i x v) (fun _ => rfl) fun F y u hu => ?_
  rw [Frame.get?_update] at hu
  split at hu
  · obtain ⟨_, -, rfl⟩ := Option.map_eq_some_iff.mp hu
    exact .inr hv
  · exact .inl hu

end Holds

/-- The frame in which a closure was declared is looked at. -/
theorem among_home {k : Closure} (hk : C.closures k) (s : Store) (f : FrameId) :
    C.among (k.home s f) :=
  C.among_parent (C.among_of_base_le (Nat.le_refl _)) (C.links_call hk (Nat.le_refl _))

variable (C)

/-- What every program keeps that acts on a frame in which closures may be declared. -/
def invariant : ProgramInvariant where
  holds w := C.Holds w.store
  scope i _ := C.among i
  closures := C.closures
  grows _ _ := True
  grows_refl _ := trivial
  grows_trans _ _ := trivial
  scope_grows hscope _ := hscope
  lookup hw hi hx := hw.holdsOnly_of_lookup? hi hx
  enter := by
    rintro x k vs f w hw hf hk hvs -
    have hends := enterCall_ends (P := fun v => C.Holds v.store) (f := f) hw (hw.append_call hk x)
      (fun i _ b hb v hv _ => hv.bind i b.1 (hvs b.2 (List.of_mem_zip hb).2)) fun _ _ hv => hv
    refine hends.mono (fun {t v} h => ⟨h.1, trivial, ?_⟩) fun h => ⟨h, trivial⟩
    obtain rfl | rfl := h.2
    · exact C.among_home hk w.store f
    · exact C.among_of_base_le hw.base_le
  top f := C.among f ∧ ∀ k : Closure, k.frame = some f → C.closures k
  functions _ _ := True
  changes _ _ := True
  changes_refl _ := trivial
  changes_trans _ _ := trivial
  changes_of_grows _ := trivial
  scope_top hf _ := hf.1
  start := by
    rintro f w v - hw rfl
    exact ⟨hw, trivial⟩
  finish := by
    rintro done w v hw rfl
    exact ⟨hw, trivial⟩
  declare := by
    rintro f x a w v - hw ha - rfl
    exact ⟨hw.bind f x ha, trivial⟩
  declareFunction := by
    rintro f x ps body k w v hf hw - - rfl rfl
    refine ⟨hw.bind f x fun c hc => ?_, trivial⟩
    rw [List.mem_singleton.mp hc]
    exact hf.2 _ rfl
  assign := by
    rintro f x i a w v - hw ha - rfl
    exact ⟨hw.update i x ha, trivial⟩
  print := by
    rintro f line w v - hw rfl
    exact ⟨hw, trivial⟩

end Confinement

/-! ### Frames that were there -/

/-- The closure was declared in a frame before `base`, or knows no frame of its own. -/
def Closure.RefersBelow (base : FrameId) (c : Closure) : Prop := ∀ j, c.frame = some j → j < base

theorem Closure.RefersBelow.mono {base base' : FrameId} {c : Closure} (h : c.RefersBelow base)
    (hle : base ≤ base') : c.RefersBelow base' :=
  fun j hj => Nat.lt_of_lt_of_le (h j hj) hle

/-- The frame in which a closure was declared is there, seen from a frame that is there. -/
theorem Closure.RefersBelow.home_lt {c : Closure} {s : Store} {f : FrameId}
    (h : c.RefersBelow s.next) (hordered : s.IsOrdered) (hf : f < s.next) :
    c.home s f < s.next := by
  unfold Closure.home
  cases hframe : c.frame with
  | some j => exact h j hframe
  | none =>
    have hchain := Store.IsOrdered.chain hordered hf
    exact Nat.lt_of_le_of_lt (hchain.le_of_mem hchain.root_mem) hf

/-- The closures in all frames were declared in frames before `base`. -/
def Store.RefersBelow (base : FrameId) (s : Store) : Prop :=
  ∀ i F x v, s.get? i = some F → F.get? x = some v → v.HoldsOnly (Closure.RefersBelow base)

theorem Store.RefersBelow.mono {base base' : FrameId} {s : Store} (h : s.RefersBelow base)
    (hle : base ≤ base') : s.RefersBelow base' :=
  fun i F x v hget hx c hc => (h i F x v hget hx c hc).mono hle

/-- It is enough to look at each binding of each frame. -/
theorem Store.RefersBelow.of_frames {base : FrameId} {s : Store}
    (h : ∀ F ∈ s.frames, ∀ b ∈ F.bindings, ∀ c ∈ b.2.closures, ∀ j ∈ c.frame, j < base) :
    s.RefersBelow base := by
  intro i F x v hget hx c hc j hj
  obtain ⟨b, hb, rfl⟩ := Option.map_eq_some_iff.mp hx
  exact h F (Array.mem_of_getElem? hget) b (List.mem_of_find?_eq_some hb) c hc j hj

/-- Closures are confined to the frames before `base`, wherever they are. -/
def Confinement.below (base : FrameId) : Confinement where
  closures := Closure.RefersBelow base
  among _ := True
  links _ _ := True
  base := 0
  among_of_base_le _ := trivial
  among_parent _ _ := trivial
  links_call _ _ := trivial

theorem Confinement.below_holds_iff {base : FrameId} {s : Store} :
    (Confinement.below base).Holds s ↔ s.RefersBelow base :=
  ⟨fun h i _ x v hget hx => h.values (i := i) trivial hget x v hx,
    fun h => ⟨Nat.zero_le _, fun _ _ => trivial, fun _ hget x v hx => h _ _ x v hget hx⟩⟩

/-! ### Runs on a fresh frame -/

/-- The world that an activity ends in, however it ends. -/
def Activity.last : Activity → World
  | evaluation levels n f w => (eval levels n f).after w
  | execution passes levels n f w => (exec passes levels n f).after w

/-- Of the frames since `base`, all closures refer to the globals of the ground, and so do all but
the frames of the ground itself, which are those of calls. -/
structure Ground.Confines (γ : Ground) (base : FrameId) (s : Store) : Prop where
  closures : ∀ i F x v, base ≤ i → s.get? i = some F → F.get? x = some v →
    v.HoldsOnly fun c => c.frame = some γ.globals
  calls : ∀ i F, base ≤ i → s.get? i = some F → i ≠ γ.globals → γ.behind ≠ some i →
    F.parent = some γ.globals

/-- The parents of the frames of a run: the globals have the prelude behind them, and calls have the
globals behind them. -/
inductive Ground.Links (γ : Ground) : FrameId → Option FrameId → Prop
  | globals : Links γ γ.globals γ.behind
  | behind {b : FrameId} (hb : γ.behind = some b) : Links γ b none
  | call {i : FrameId} (hglobals : i ≠ γ.globals) (hbehind : γ.behind ≠ some i) :
      Links γ i (some γ.globals)

/-- The frames of a fresh ground are those that are made first. -/
theorem Ground.mem_fresh_iff (o : Options) (w : World) (i : FrameId) :
    i = (Ground.fresh o w).globals ∨ (Ground.fresh o w).behind = some i ↔
      w.store.next ≤ i ∧ i ≤ (Ground.fresh o w).globals := by
  have htwo (base i : Nat) : i = base + 1 ∨ base = i ↔ base ≤ i ∧ i ≤ base + 1 := by omega
  have hone (base i : Nat) : i = base ↔ base ≤ i ∧ i ≤ base := by omega
  unfold Ground.fresh
  split
  · simpa only [Option.some.injEq] using htwo w.store.next i
  · simpa only [reduceCtorEq, or_false] using hone w.store.next i

/-- After a ground is made, its globals are the newest frame. -/
theorem Run.next_of_globalFrame {o : Options} {w v : World} {f : FrameId}
    (h : Run.globalFrame o w = .ok f v) : v.store.next = f + 1 := by
  unfold Run.globalFrame at h
  split at h
  · obtain ⟨behind, u, -, h⟩ := Run.bind_eq_ok_iff.mp h
    obtain ⟨_, z, -, h⟩ := Run.bind_eq_ok_iff.mp h
    cases h
    exact Store.next_append _ _
  · cases h
    exact Store.next_append _ _

section Fresh

variable {passes : Nat} {program : Node} {o : Options} {w v : World}

/-- On a fresh ground, closures are confined to the globals. -/
def Confinement.fresh (o : Options) (w : World) : Confinement where
  closures c := c.frame = some (Ground.fresh o w).globals
  among i := w.store.next ≤ i
  links := (Ground.fresh o w).Links
  base := (Ground.fresh o w).globals + 1
  among_of_base_le hi :=
    Nat.le_trans ((Ground.mem_fresh_iff o w _).mp (.inl rfl)).1 (Nat.le_of_succ_le hi)
  among_parent := by
    intro i p _ hlink
    generalize hparent : some p = parent at hlink
    cases hlink with
    | globals => exact ((Ground.mem_fresh_iff o w p).mp (.inr hparent.symm)).1
    | behind => cases hparent
    | call =>
      cases hparent
      exact ((Ground.mem_fresh_iff o w _).mp (.inl rfl)).1
  links_call := by
    intro k s f i hk hi
    have hhome : k.home s f = (Ground.fresh o w).globals := by simp [Closure.home, hk]
    have hnewer : ¬ (i = (Ground.fresh o w).globals ∨ (Ground.fresh o w).behind = some i) := by
      intro hmem
      exact absurd ((Ground.mem_fresh_iff o w i).mp hmem).2 (Nat.not_le.mpr hi)
    rw [hhome]
    exact .call (fun h => hnewer (.inl h)) fun h => hnewer (.inr h)

/-- What is confined to a fresh ground refers to its globals. -/
theorem Confinement.Holds.confines {s : Store} (h : (Confinement.fresh o w).Holds s) :
    (Ground.fresh o w).Confines w.store.next s := by
  refine ⟨fun i F x v hi hget hx => h.values hi hget x v hx, fun i F hi hget hglobals hbehind => ?_⟩
  have hlink : (Ground.fresh o w).Links i F.parent := h.links hi hget
  generalize F.parent = parent at hlink
  cases hlink with
  | globals => exact absurd rfl hglobals
  | behind hb => exact absurd hb hbehind
  | call => rfl

/-- A fresh ground confines what there is on it, since the prelude holds no closures. -/
private theorem fresh_holds (hv : Run.globalFrame o w = .ok (Ground.fresh o w).globals v)
    (hlaid : (Ground.fresh o w).IsLaid o w v) : (Confinement.fresh o w).Holds v.store := by
  have hnext := Run.next_of_globalFrame hv
  have hground {i : FrameId} {F : Frame} (hi : w.store.next ≤ i) (hget : v.store.get? i = some F) :
      i = (Ground.fresh o w).globals ∨ (Ground.fresh o w).behind = some i := by
    refine (Ground.mem_fresh_iff o w i).mpr ⟨hi, Nat.le_of_lt_succ ?_⟩
    rw [← Nat.succ_eq_add_one] at hnext
    exact hnext ▸ Store.lt_next_of_get? hget
  refine ⟨Nat.le_of_eq hnext.symm, fun {i F} hi hget => ?_, fun {i F} hi hget x a hx => ?_⟩
  · obtain rfl | hbehind := hground hi hget
    · obtain ⟨G, hG, hparent, -⟩ := hlaid.holds.globals
      cases hG.symm.trans hget
      rw [hparent]
      exact .globals
    · obtain ⟨B, hB, hparent⟩ := hlaid.holds.behind i hbehind
      cases hB.symm.trans hget
      rw [hparent]
      exact .behind hbehind
  · obtain rfl | hbehind := hground hi hget
    · have hnone := hlaid.global?_eq x
      rw [Ground.global?, Store.own?_of_get? hget, hx] at hnone
      cases hnone
    · have hprelude := hlaid.prelude?_eq x
      rw [Ground.prelude?, hbehind, Option.bind_some, Store.own?_of_get? hget, hx] at hprelude
      exact Options.holdsOnly_of_prelude? hprelude.symm _

private theorem fresh_top : (Confinement.fresh o w).invariant.top (Ground.fresh o w).globals :=
  ⟨((Ground.mem_fresh_iff o w _).mp (.inl rfl)).1, fun _ hk => hk⟩

/-- A run on a fresh ground starts confined. -/
private theorem fresh_covers :
    (Confinement.fresh o w).invariant.Covers (.ofProgram passes program o w) := by
  obtain ⟨v, hv, hlaid⟩ := Run.globalFrame_apply o w
  have hafter : (Run.globalFrame o).after w = v := by rw [Run.after, hv]
  have hholds : (Confinement.fresh o w).Holds v.store := fresh_holds hv hlaid
  refine ⟨?_, fresh_top, fun _ _ => trivial⟩
  rw [hafter]
  exact hholds

end Fresh

/-- What an invariant covers when it starts, it covers when it ends. -/
theorem ProgramInvariant.Covers.last {I : ProgramInvariant} {a : Activity} (h : I.Covers a) :
    I.holds a.last := by
  cases a with
  | evaluation levels n f w =>
    have hends : Run.Ends (eval levels n f w) (fun _ => I.holds) I.holds :=
      (I.eval_keeps levels n h.1 h.2).mono (fun hv => hv.2.1) fun hv => hv.1
    exact hends.after
  | execution passes levels n f w => exact (I.exec_keeps passes levels h.2.2 h.2.1 h.1).1

/-! ### Expressions, statements and runs -/

/-- Expressions and statements make no closure that refers to a frame which is made meanwhile. -/
private theorem refersBelow_ends (passes levels : Nat) (n : Node) {w : World}
    (hw : w.store.RefersBelow w.store.next) {f : FrameId} (hf : f < w.store.next) :
    Run.Ends (eval levels n f w)
        (fun a v => a.HoldsOnly (Closure.RefersBelow w.store.next) ∧
          v.store.RefersBelow w.store.next)
        (fun v => v.store.RefersBelow w.store.next) ∧
      ((exec passes levels n f).after w).store.RefersBelow w.store.next := by
  let I := (Confinement.below w.store.next).invariant
  have hholds : I.holds w := Confinement.below_holds_iff.mpr hw
  have htop : I.top f := by
    refine ⟨trivial, fun k hk j hj => ?_⟩
    cases hk.symm.trans hj
    exact hf
  have hexec := I.exec_keeps passes levels (fun q (_ : q ∈ n.functions) => trivial) htop hholds
  have heval := I.eval_keeps levels n hholds (I.scope_top htop hholds)
  exact ⟨heval.mono (fun h => ⟨h.1, Confinement.below_holds_iff.mp h.2.1⟩)
    fun h => Confinement.below_holds_iff.mp h.1, Confinement.below_holds_iff.mp hexec.1⟩

/-- At the end of a run, its frames are confined. -/
private theorem confines_interpret (passes : Nat) (n : Node) (o : Options) (w : World) :
    (Ground.fresh o w).Confines w.store.next
      ((interpret passes n none (some o)).after w).store := by
  obtain ⟨v, hv, hlaid⟩ := Run.globalFrame_apply o w
  have hrun : interpret passes n none (some o) w =
      interpretIn passes n (Ground.fresh o w).globals v := by
    simp only [interpret, prepareFrame, Option.getD_some, Run.bind_apply, hv]
  have hholds : (Confinement.fresh o w).invariant.holds v := fresh_holds hv hlaid
  have hkeeps := (Confinement.fresh o w).invariant.interpretIn_keeps passes
    (fun q (_ : q ∈ n.functions) => trivial) fresh_top hholds
  rw [Run.after_congr hrun]
  exact Confinement.Holds.confines hkeeps.1

/-- **The frames of calls do not escape.** In a world where every closure refers to a frame that is
there, or to none, let any node be evaluated or executed in a frame that is there. However that ends,
the closures in its value, at any depth, and those in all frames refer to frames that were there
before, or to none. And let the node be run as a program on a fresh frame. At the end of the run, and
whenever anything inside it begins or ends, every closure in the frames of the run refers to its
globals, and every frame of a call has the globals as its parent; the closures that are called, those
in their arguments and those in the values of expressions refer to the globals, too. -/
theorem call_frames_never_escape (passes levels : Nat) (n : Node) (w : World) :
    (∀ f, w.store.RefersBelow w.store.next → f < w.store.next →
      Run.Ends (eval levels n f w)
          (fun a v => a.HoldsOnly (Closure.RefersBelow w.store.next) ∧
            v.store.RefersBelow w.store.next)
          (fun v => v.store.RefersBelow w.store.next) ∧
        ((exec passes levels n f).after w).store.RefersBelow w.store.next) ∧
      ∀ o : Options,
        (Ground.fresh o w).Confines w.store.next
            ((interpret passes n none (some o)).after w).store ∧
          ∀ depth a, (Activity.ofProgram passes n o w).Reaches depth a →
            (Ground.fresh o w).Confines w.store.next a.world.store ∧
            (Ground.fresh o w).Confines w.store.next a.last.store ∧
            (∀ x k vs v, a.Calls x k vs v → k.frame = some (Ground.fresh o w).globals ∧
              ∀ b ∈ vs, b.HoldsOnly fun c => c.frame = some (Ground.fresh o w).globals) ∧
            ∀ l m f u b v, a = .evaluation l m f u → eval l m f u = .ok b v →
              b.HoldsOnly fun c => c.frame = some (Ground.fresh o w).globals := by
  refine ⟨fun f hw hf => refersBelow_ends passes levels n hw hf,
    fun o => ⟨confines_interpret passes n o w, fun depth a hreaches => ?_⟩⟩
  let I := (Confinement.fresh o w).invariant
  have hcovers : I.Covers a := (I.covers_of_reaches fresh_covers hreaches).1
  refine ⟨Confinement.Holds.confines hcovers.holds, Confinement.Holds.confines hcovers.last,
    fun x k vs v hcalls => ?_, fun l m f u b v ha hb => ?_⟩
  · obtain ⟨hcall⟩ := hcalls
    obtain ⟨hk, hvs, -⟩ := I.call_keeps hcovers.1 hcovers.2 hcall
    exact ⟨hk, hvs⟩
  · subst ha
    exact (I.eval_ok hcovers.1 hcovers.2 hb).1

/-- A frame with a function that returns its argument and itself; in front of it stands a frame with
a closure that knows no frame. -/
def returningFrames : World where
  store.frames :=
    #[{ parent := none, label := "global", options := some {},
        bindings := [("keep", .closure
          { id := 6, parameters := ["x"], body := .array [.name "x", .name "keep"],
            frame := some 0 })] },
      { parent := some 0, label := "inner", options := none,
        bindings := [("lost", .closure
          { id := 7, parameters := [], body := .name "keep", frame := none })] }]

/-- A call that is given closures and returns them in an array. -/
def returningCall : Node := .call (.name "keep") [.call (.name "lost") []]

/-- A program that declares such a function and calls it. -/
def returningProgram : Node :=
  .program (.block
    [.function (.name "keep") [.name "x"] (.array [.name "x", .name "keep"]),
     .declaration (.name "kept") (.call (.name "keep") [.name "keep"])])

theorem returningFrames_refersBelow :
    returningFrames.store.RefersBelow returningFrames.store.next := .of_frames (by decide)

/-- The call makes two frames, and its array holds closures that refer to older ones. So does what
the program keeps, whose call has made a frame, too. -/
theorem call_frames_never_escape_of_returning :
    ((eval 100 returningCall 1).after returningFrames).store.next =
        returningFrames.store.next + 2 ∧
      (∃ a, (eval 100 returningCall 1).outcome returningFrames = .ok a ∧ a.closures ≠ [] ∧
        a.HoldsOnly (Closure.RefersBelow returningFrames.store.next)) ∧
      ((interpret 1 returningProgram none (some {})).after {}).store.next = 2 ∧
      (Ground.fresh {} {}).Confines 0
        ((interpret 1 returningProgram none (some {})).after {}).store := by
  have hcall := ((call_frames_never_escape 1 100 returningCall returningFrames).1 1
    returningFrames_refersBelow (by decide)).1
  have hrun := ((call_frames_never_escape 1 100 returningProgram {}).2 {}).1
  exact ⟨rfl, ⟨_, rfl, by decide, hcall.1⟩, rfl, hrun⟩

end Bella
