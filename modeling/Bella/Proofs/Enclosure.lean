import Bella.Proofs.Ground
import Bella.Proofs.LexicalRegion

/-!
# Regions that hold functions of one sort

A run can only call closures that it finds in the frames which it can come to. If the bodies of
these closures are all of one sort, and the program declares functions of that sort alone, then
whatever the run evaluates is of that sort, under either policy of scoping and whatever the frames
hold otherwise.

## Main definitions

* `Bella.Enclosure`: a region, and the sort of the bodies in it.
* `Bella.Enclosure.Holds`: nothing in the store leads out of the region or to another body.
* `Bella.Store.region`, `Bella.Ground.region`: the regions of a run in a given frame and of a run on
  a fresh ground.
* `Bella.Store.Stores`: the closures in the frames that a run can come to.

## Main results

* `Bella.Enclosure.invariant`: an enclosure is kept by every program.
* `Bella.Enclosure.holds_of_stores`, `Bella.Enclosure.holds_of_isLaid`: both regions are enclosures
  when a run starts.
* `Bella.Enclosure.exists_interpretIn`: every program runs in an enclosure.
-/

namespace Bella

/-- A region in which the bodies of closures are of one sort. -/
structure Enclosure extends Region where
  /-- The bodies that closures may have. -/
  bodies : Node → Prop

namespace Enclosure

variable (E : Enclosure)

/-- The body of the closure is of the right sort, and the closure was declared in the region or
knows no frame of its own. -/
def Admits (c : Closure) : Prop := E.bodies c.body ∧ E.Declares c

/-- The frames of the region lead to its frames and to closures that are admitted. -/
structure Holds (s : Store) : Prop where
  base_le : E.base ≤ s.next
  leadsTo : ∀ {i F}, E.Has i → s.get? i = some F → F.LeadsTo E.Has E.Admits

variable {E} {s : Store} {f : FrameId}

namespace Holds

theorem has_of_mem_chain (h : E.Holds s) (hf : E.Has f) : ∀ i ∈ s.chain f, E.Has i :=
  Store.forall_mem_chain (fun hi hget => (h.leadsTo hi hget).parent _) hf

theorem has_home (h : E.Holds s) (hf : E.Has f) {c : Closure} (hc : E.Admits c) :
    E.Has (c.home s f) := by
  unfold Closure.home
  cases hframe : c.frame with
  | some j => exact hc.2 j hframe
  | none =>
    obtain hroot | hmem := s.root_eq_or_mem_chain f
    · rw [Option.getD_none, hroot]
      exact hf
    · exact h.has_of_mem_chain hf _ hmem

theorem holdsOnly_of_lookup? (h : E.Holds s) (hf : E.Has f) {x : String} {v : Value}
    (hx : s.lookup? f x = some v) : v.HoldsOnly E.Admits := by
  obtain ⟨i, F, hi, hget, hv⟩ := Store.exists_of_lookup? hx
  exact (h.leadsTo (h.has_of_mem_chain hf i hi) hget).values x v hv

theorem append (h : E.Holds s) {F : Frame} (hF : F.LeadsTo E.Has E.Admits) :
    E.Holds (s.append F) := by
  refine ⟨?_, Store.forall_get?_append h.leadsTo hF⟩
  rw [Store.next_append]
  exact Nat.le_succ_of_le h.base_le

theorem bind (h : E.Holds s) (i : FrameId) (x : String) {v : Value} (hv : v.HoldsOnly E.Admits) :
    E.Holds (s.bind i x v) := by
  refine ⟨?_, Store.forall_get?_of_change h.leadsTo (s.get?_bind i x v) fun hF => hF.bind x hv⟩
  rw [Store.next_bind]
  exact h.base_le

theorem update (h : E.Holds s) (i : FrameId) (x : String) {v : Value}
    (hv : v.HoldsOnly E.Admits) : E.Holds (s.update i x v) := by
  refine ⟨?_, Store.forall_get?_of_change h.leadsTo (s.get?_update i x v) fun hF => hF.update x hv⟩
  rw [Store.next_update]
  exact h.base_le

theorem setOptions (h : E.Holds s) (i : FrameId) (o : Options) : E.Holds (s.setOptions i o) := by
  refine ⟨?_, Store.forall_get?_of_change h.leadsTo (s.get?_setOptions i o) fun hF => ?_⟩
  · rw [Store.next_setOptions]
    exact h.base_le
  · exact ⟨hF.parent, hF.values⟩

end Holds

/-! ### Calls -/

variable {w : World}

/-- A call binds its parameters in a frame of the region, whichever policy it follows. -/
private theorem enterCall_keeps (hw : E.Holds w.store) (hf : E.Has f) {x : String} {k : Closure}
    (hk : E.Admits k) {vs : List Value} (hvs : ∀ v ∈ vs, v.HoldsOnly E.Admits) :
    Run.Ends (enterCall x k vs f w) (fun t v => E.Holds v.store ∧ True ∧ E.Has t)
      fun v => E.Holds v.store ∧ True := by
  have hhome : E.Has (k.home w.store f) := hw.has_home hf hk
  have hends := enterCall_ends (P := fun v => E.Holds v.store) (f := f) hw
    (hw.append (.ofCall w.store hhome x))
    (fun i _ b hb v hv _ => hv.bind i b.1 (hvs b.2 (List.of_mem_zip hb).2)) fun _ _ hv => hv
  refine hends.mono (fun {t v} h => ⟨h.1, trivial, ?_⟩) fun h => ⟨h, trivial⟩
  obtain rfl | rfl := h.2
  · exact hhome
  · exact .inr hw.base_le

/-- What every program keeps that acts on a frame of the region. -/
def invariant (E : Enclosure) : ProgramInvariant where
  holds w := E.Holds w.store
  scope i _ := E.Has i
  closures := E.Admits
  grows _ _ := True
  grows_refl _ := trivial
  grows_trans _ _ := trivial
  scope_grows hscope _ := hscope
  lookup hw hi hx := hw.holdsOnly_of_lookup? hi hx
  enter hw hi hk hvs _ := enterCall_keeps hw hi hk hvs
  top := E.Has
  functions _ body := E.bodies body
  changes _ _ := True
  changes_refl _ := trivial
  changes_trans _ _ := trivial
  changes_of_grows _ := trivial
  scope_top hf _ := hf
  start := by
    rintro f w v - hw rfl
    exact ⟨hw, trivial⟩
  finish := by
    rintro done w v hw rfl
    exact ⟨hw, trivial⟩
  declare := by
    rintro f x a w v - hw ha - rfl
    exact ⟨hw.bind f x ha, trivial⟩
  declareFunction := by
    rintro f x ps body k w v hf hw hbody - rfl rfl
    refine ⟨hw.bind f x fun c hc => ?_, trivial⟩
    cases List.mem_singleton.mp hc
    refine ⟨hbody, fun j hj => ?_⟩
    cases hj
    exact hf
  assign := by
    rintro f x i a w v - hw ha - rfl
    exact ⟨hw.update i x ha, trivial⟩
  print := by
    rintro f line w v - hw rfl
    exact ⟨hw, trivial⟩

end Enclosure

/-! ### The enclosure of a run -/

/-- The frames that a run in the frame `f` can come to, and those that are made since. -/
def Store.region (s : Store) (f : FrameId) : Region := ⟨s.Reachable f, s.next⟩

theorem Store.region_has (s : Store) (f : FrameId) : (s.region f).Has f := .inl .refl

/-- The frames of a ground, and those that are made since. -/
def Ground.region (γ : Ground) (s : Store) : Region :=
  ⟨fun i => i = γ.globals ∨ γ.behind = some i, s.next⟩

theorem Ground.region_has (γ : Ground) (s : Store) : (γ.region s).Has γ.globals := .inl (.inl rfl)

/-- The closure is in a value that is bound in a frame which a run in the frame `f` can come to. -/
def Store.Stores (s : Store) (f : FrameId) (c : Closure) : Prop :=
  ∃ i F x v, s.Reachable f i ∧ s.get? i = some F ∧ F.get? x = some v ∧ c ∈ v.closures

/-- The frames that a run can come to are an enclosure. -/
theorem Enclosure.holds_of_stores {s : Store} {f : FrameId} {bodies : Node → Prop}
    (hbodies : ∀ c, s.Stores f c → bodies c.body) :
    Enclosure.Holds ⟨s.region f, bodies⟩ s := by
  refine ⟨Nat.le_refl _, fun {i F} hi hget => ?_⟩
  have hreach : s.Reachable f i :=
    hi.resolve_right (Nat.not_le.mpr (Store.lt_next_of_get? hget))
  refine ⟨fun p hp => .inl (hreach.parent hget hp), fun x v hx c hc => ⟨?_, fun j hj => ?_⟩⟩
  · exact hbodies c ⟨i, F, x, v, hreach, hget, hx, hc⟩
  · exact .inl (hreach.home hget hx hc hj)

/-- The frames of a fresh ground are an enclosure, whatever the sort of bodies is. -/
theorem Enclosure.holds_of_isLaid {γ : Ground} {o : Options} {w v : World} (h : γ.IsLaid o w v)
    (bodies : Node → Prop) :
    Enclosure.Holds ⟨γ.region v.store, bodies⟩ v.store := by
  refine ⟨Nat.le_refl _, fun {i F} hi hget => ?_⟩
  obtain rfl | hbehind : i = γ.globals ∨ γ.behind = some i :=
    hi.resolve_right (Nat.not_le.mpr (Store.lt_next_of_get? hget))
  · obtain ⟨G, hG, hparent, -⟩ := h.holds.globals
    cases hG.symm.trans hget
    refine ⟨fun p hp => .inl (.inr (hparent.symm.trans hp)), fun x a hx => ?_⟩
    have hnone := h.global?_eq x
    rw [Ground.global?, Store.own?_of_get? hget, hx] at hnone
    cases hnone
  · obtain ⟨B, hB, hparent⟩ := h.holds.behind i hbehind
    cases hB.symm.trans hget
    refine ⟨fun p hp => ?_, fun x a hx => ?_⟩
    · rw [hparent] at hp
      cases hp
    · have hprelude := h.prelude?_eq x
      rw [Ground.prelude?, hbehind, Option.bind_some, Store.own?_of_get? hget, hx] at hprelude
      exact Options.holdsOnly_of_prelude? hprelude.symm _

/-- A program that is given a frame runs there, once the options of the frame are set. -/
private theorem interpret_given (passes : Nat) (program : Node) (f : FrameId)
    (options : Option Options) (w : World) :
    ∃ v, (v.store = w.store ∨ ∃ o, v.store = w.store.setOptions f o) ∧
      interpret passes program (some f) options w = interpretIn passes program f v := by
  cases options with
  | none => exact ⟨w, .inl rfl, rfl⟩
  | some o => exact ⟨{ w with store := w.store.setOptions f o }, .inr ⟨o, rfl⟩, rfl⟩

/-- A program runs in an enclosure, in a given frame or in a fresh one, if the closures that are
stored where it can come to have bodies of the sort. -/
theorem Enclosure.exists_interpretIn (passes : Nat) (program : Node) (frame : Option FrameId)
    (options : Option Options) (w : World) (bodies : Node → Prop)
    (hstored : ∀ f c, frame = some f → w.store.Stores f c → bodies c.body) :
    ∃ (ρ : Region) (f : FrameId) (v : World), ρ.Has f ∧ Enclosure.Holds ⟨ρ, bodies⟩ v.store ∧
      interpret passes program frame options w = interpretIn passes program f v := by
  cases frame with
  | none =>
    obtain ⟨v, hlaid, hrun⟩ := interpret_fresh passes program options w
    exact ⟨_, _, v, Ground.region_has _ v.store, holds_of_isLaid hlaid bodies, hrun⟩
  | some f =>
    obtain ⟨v, hstore, hrun⟩ := interpret_given passes program f options w
    have hholds : Enclosure.Holds ⟨w.store.region f, bodies⟩ w.store :=
      holds_of_stores fun c hc => hstored f c rfl hc
    refine ⟨w.store.region f, f, v, w.store.region_has f, ?_, hrun⟩
    obtain hsame | ⟨o, hset⟩ := hstore
    · rw [hsame]
      exact hholds
    · rw [hset]
      exact hholds.setOptions f o

end Bella
