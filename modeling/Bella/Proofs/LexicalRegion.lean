import Bella.Proofs.Simulation.Invariant

/-!
# Lexical runs on frames with options of their own

A run sets its options on the frame that it is given and on no other frame. A call takes its policy
from the frame of the caller, and a call frame takes its options over from the frame in which the
closure was declared. So one call may leave the frame of the run, and the calls inside it then
follow another policy than the run asks for: `MixedFrames.inner_binds_in_outer` shows a lexical run
that binds a parameter in a frame which was there before.

What holds is this. The frames that a run can come to are those that can be reached from its own
frame through parents and through the frames of closures. If none of these but the frame of the run
itself asks for flat scoping, all calls of a lexical run are lexical, and the run leaves every frame
with the names that it had, but for what it declares in its own frame.

## Main definitions

* `Bella.Store.Reachable`: the frames that a run in a frame can come to.
* `Bella.Frame.LeadsTo`: the parent and the closures of a frame are among the given ones.
* `Bella.Region`: frames that are closed under parents and closures, and have no flat scoping.
* `Bella.World.NotesLexical`: a world has got names by declarations alone, and calls were lexical.

## Main results

* `Bella.Region.invariant`: a region is kept by every program.
* `Bella.interpret_lexical_in_region`: the names that a lexical run leaves behind.
-/

namespace Bella

/-- The frames that a run in the frame `f` can come to: the frame itself, the parents of such
frames, and the frames in which closures that are bound there were declared. -/
inductive Store.Reachable (s : Store) (f : FrameId) : FrameId → Prop
  | refl : Reachable s f f
  | parent {i p : FrameId} {F : Frame} (hi : Reachable s f i) (hget : s.get? i = some F)
      (hparent : F.parent = some p) : Reachable s f p
  | home {i j : FrameId} {F : Frame} {x : String} {v : Value} {c : Closure}
      (hi : Reachable s f i) (hget : s.get? i = some F) (hx : F.get? x = some v)
      (hc : c ∈ v.closures) (hframe : c.frame = some j) : Reachable s f j

/-! ### Frames that lead to others -/

/-- The parent of the frame is among the given frames, and the values in it hold only the given
closures. -/
structure Frame.LeadsTo (frames : FrameId → Prop) (closures : Closure → Prop) (F : Frame) :
    Prop where
  parent : ∀ p, F.parent = some p → frames p
  values : ∀ x v, F.get? x = some v → v.HoldsOnly closures

namespace Frame.LeadsTo

variable {frames : FrameId → Prop} {closures : Closure → Prop} {F : Frame}

theorem bind (h : F.LeadsTo frames closures) (x : String) {v : Value} (hv : v.HoldsOnly closures) :
    (F.bind x v).LeadsTo frames closures := by
  refine ⟨h.parent, fun y u hu => ?_⟩
  rw [Frame.get?_bind] at hu
  split at hu
  · cases hu
    exact hv
  · exact h.values y u hu

theorem update (h : F.LeadsTo frames closures) (x : String) {v : Value}
    (hv : v.HoldsOnly closures) : (F.update x v).LeadsTo frames closures := by
  refine ⟨h.parent, fun y u hu => ?_⟩
  rw [Frame.get?_update] at hu
  split at hu
  · obtain ⟨_, -, rfl⟩ := Option.map_eq_some_iff.mp hu
    exact hv
  · exact h.values y u hu

/-- The frame of a call leads to the frame in which the closure was declared. -/
theorem ofCall (s : Store) {home : FrameId} (hhome : frames home) (name : String) :
    (Frame.ofCall s home name).LeadsTo frames closures := by
  refine ⟨fun p hp => ?_, nofun⟩
  cases hp
  exact hhome

theorem bindAll (h : F.LeadsTo frames closures) {bs : List (String × Value)}
    (hbs : ∀ b ∈ bs, b.2.HoldsOnly closures) : (F.bindAll bs).1.LeadsTo frames closures := by
  refine ⟨fun p hp => h.parent p ((F.bindAll_shape bs).1 ▸ hp), fun x v hx => ?_⟩
  obtain hbefore | hmem := Frame.mem_of_get?_bindAll hx
  · exact h.values x v hbefore
  · exact hbs (x, v) hmem

end Frame.LeadsTo

/-! ### Regions -/

/-- Some frames that were there when a run started, and all frames that are made since. -/
structure Region where
  /-- The frames that were there. -/
  old : FrameId → Prop
  /-- The address of the first frame that is made since. -/
  base : FrameId

namespace Region

variable (ρ : Region)

/-- The frame is in the region. -/
def Has (i : FrameId) : Prop := ρ.old i ∨ ρ.base ≤ i

/-- The closure was declared in the region, or knows no frame of its own. -/
def Declares (c : Closure) : Prop := ∀ j, c.frame = some j → ρ.Has j

/-- The frame leads to no frame outside the region, and does not ask for flat scoping. -/
structure Fits (F : Frame) : Prop where
  parent : ∀ p, F.parent = some p → ρ.Has p
  values : ∀ x v, F.get? x = some v → v.HoldsOnly ρ.Declares
  scoping : ∀ o, F.options = some o → o.scoping = .lexical

/-- The store has a region that nothing leads out of, and no frame in it asks for flat scoping. -/
structure Holds (s : Store) : Prop where
  base_le : ρ.base ≤ s.next
  fits : ∀ {i F}, ρ.Has i → s.get? i = some F → ρ.Fits F

variable {ρ} {s : Store} {f : FrameId}

theorem Fits.leadsTo {F : Frame} (h : ρ.Fits F) : F.LeadsTo ρ.Has ρ.Declares :=
  ⟨h.parent, h.values⟩

theorem Fits.bind {F : Frame} (h : ρ.Fits F) (x : String) {v : Value}
    (hv : v.HoldsOnly ρ.Declares) : ρ.Fits (F.bind x v) :=
  ⟨h.parent, (h.leadsTo.bind x hv).values, h.scoping⟩

theorem Fits.update {F : Frame} (h : ρ.Fits F) (x : String) {v : Value}
    (hv : v.HoldsOnly ρ.Declares) : ρ.Fits (F.update x v) :=
  ⟨h.parent, (h.leadsTo.update x hv).values, h.scoping⟩

namespace Holds

theorem has_of_mem_chain (h : ρ.Holds s) (hf : ρ.Has f) : ∀ i ∈ s.chain f, ρ.Has i :=
  Store.forall_mem_chain (fun hi hget => (h.fits hi hget).parent _) hf

theorem has_root (h : ρ.Holds s) (hf : ρ.Has f) : ρ.Has (s.root f) := by
  obtain hroot | hmem := s.root_eq_or_mem_chain f
  · rw [hroot]
    exact hf
  · exact h.has_of_mem_chain hf _ hmem

theorem has_home (h : ρ.Holds s) (hf : ρ.Has f) {c : Closure} (hc : ρ.Declares c) :
    ρ.Has (c.home s f) := by
  unfold Closure.home
  cases hframe : c.frame with
  | none => exact h.has_root hf
  | some j => exact hc j hframe

theorem holdsOnly_of_lookup? (h : ρ.Holds s) (hf : ρ.Has f) {x : String} {v : Value}
    (hx : s.lookup? f x = some v) : v.HoldsOnly ρ.Declares := by
  obtain ⟨i, F, hi, hget, hv⟩ := Store.exists_of_lookup? hx
  exact (h.fits (h.has_of_mem_chain hf i hi) hget).values x v hv

theorem scoping_eq (h : ρ.Holds s) (hf : ρ.Has f) : (s.options f).scoping = .lexical := by
  unfold Store.options
  cases ho : s.options? f with
  | none => rfl
  | some o =>
    obtain ⟨F, hget, hoptions⟩ := Option.bind_eq_some_iff.mp ho
    exact (h.fits hf hget).scoping o hoptions

/-- A frame before the first new one is still there. -/
theorem exists_get? (h : ρ.Holds s) (hf : f < ρ.base) : ∃ F, s.get? f = some F :=
  ⟨_, Array.getElem?_eq_getElem (Nat.lt_of_lt_of_le hf h.base_le)⟩

theorem append (h : ρ.Holds s) {F : Frame} (hF : ρ.Fits F) : ρ.Holds (s.append F) := by
  refine ⟨?_, Store.forall_get?_append h.fits hF⟩
  rw [Store.next_append]
  exact Nat.le_succ_of_le h.base_le

/-- The frame of a call leads into the region if its closure and its arguments do. -/
theorem fits_call (h : ρ.Holds s) {home : FrameId} (hhome : ρ.Has home) (name : String)
    (ps : List String) {vs : List Value} (hvs : ∀ v ∈ vs, v.HoldsOnly ρ.Declares) :
    ρ.Fits ((Frame.ofCall s home name).bindAll (ps.zip vs)).1 := by
  have hleads : ((Frame.ofCall s home name).bindAll (ps.zip vs)).1.LeadsTo ρ.Has ρ.Declares :=
    (Frame.LeadsTo.ofCall s hhome name).bindAll fun b hb => hvs b.2 (List.of_mem_zip hb).2
  refine ⟨hleads.parent, hleads.values, fun o ho => ?_⟩
  rw [(Frame.bindAll_shape _ _).2.2] at ho
  obtain ⟨F, hget, ho⟩ := Option.bind_eq_some_iff.mp ho
  exact (h.fits hhome hget).scoping o ho

theorem bind (h : ρ.Holds s) (i : FrameId) (x : String) {v : Value}
    (hv : v.HoldsOnly ρ.Declares) : ρ.Holds (s.bind i x v) := by
  refine ⟨?_, Store.forall_get?_of_change h.fits (s.get?_bind i x v) fun hF => hF.bind x hv⟩
  rw [Store.next_bind]
  exact h.base_le

theorem update (h : ρ.Holds s) (i : FrameId) (x : String) {v : Value}
    (hv : v.HoldsOnly ρ.Declares) : ρ.Holds (s.update i x v) := by
  refine ⟨?_, Store.forall_get?_of_change h.fits (s.get?_update i x v) fun hF => hF.update x hv⟩
  rw [Store.next_update]
  exact h.base_le

end Holds
end Region

/-! ### What a lexical run adds -/

/-- The name that a record says was declared. -/
def Record.declaredName? : Record → Option String
  | .declared name | .declaredFunction name _ => some name
  | .interpreting _ | .called .. | .finished _ => none

/-- Going from the world `w` to `v`, all calls were lexical, and of the frames before `base` none
has got a name but `f`, which has got those that were declared. -/
def World.NotesLexical (base f : FrameId) (w v : World) : Prop :=
  ∃ noted : List Record,
    v.records.toList = w.records.toList ++ noted ∧
    (∀ name parameters scoping, .called name parameters scoping ∈ noted → scoping = .lexical) ∧
    ∀ i x, i < base → (v.store.binds i x = true ↔
      w.store.binds i x = true ∨ i = f ∧ x ∈ noted.filterMap Record.declaredName?)

namespace World.NotesLexical

variable {base f : FrameId} {w v u : World}

theorem trans (h : NotesLexical base f w v) (h' : NotesLexical base f v u) :
    NotesLexical base f w u := by
  obtain ⟨noted, hrecords, hcalls, hbinds⟩ := h
  obtain ⟨noted', hrecords', hcalls', hbinds'⟩ := h'
  refine ⟨noted ++ noted', ?_, fun name ps scoping hmem => ?_, fun i x hi => ?_⟩
  · rw [hrecords', hrecords, List.append_assoc]
  · obtain hmem | hmem := List.mem_append.mp hmem
    · exact hcalls name ps scoping hmem
    · exact hcalls' name ps scoping hmem
  · rw [hbinds' i x hi, hbinds i x hi, List.filterMap_append, List.mem_append]
    tauto

/-- Nothing is noted, and the frames keep their names. -/
theorem of_binds (hrecords : v.records = w.records)
    (hbinds : ∀ i x, i < base → v.store.binds i x = w.store.binds i x) :
    NotesLexical base f w v := by
  refine ⟨[], by simp [hrecords], nofun, fun i x hi => ?_⟩
  simp [hbinds i x hi]

theorem refl (w : World) : NotesLexical base f w w := of_binds rfl fun _ _ _ => rfl

/-- A record is noted that declares nothing. -/
theorem noted (w : World) {r : Record} (hname : r.declaredName? = none)
    (hcall : ∀ name parameters scoping, r = .called name parameters scoping → scoping = .lexical) :
    NotesLexical base f w (w.noted r) := by
  refine ⟨[r], by simp [World.noted], fun name ps scoping hmem => ?_, fun i x _ => ?_⟩
  · exact hcall name ps scoping (List.mem_singleton.mp hmem).symm
  · simp [World.noted, hname]

/-- A frame is added behind those that are looked at. -/
theorem append (w : World) (hbase : base ≤ w.store.next) (F : Frame) :
    NotesLexical base f w (w.append F) := by
  refine of_binds rfl fun i x hi => ?_
  have hne : i ≠ w.store.next := Nat.ne_of_lt (Nat.lt_of_lt_of_le hi hbase)
  simp only [Store.binds, World.append, Store.get?_append, if_neg hne]

/-- A name is bound and noted as declared. -/
theorem declare {x : String} {a : Value} {r : Record} {n : Nat}
    (hf : ∃ F, w.store.get? f = some F) (hname : r.declaredName? = some x) :
    NotesLexical base f w
      (World.noted { w with store := w.store.bind f x a, issued := n } r) := by
  obtain ⟨F, hF⟩ := hf
  refine ⟨[r], by simp [World.noted], fun name ps scoping hmem => ?_, fun i y _ => ?_⟩
  · cases List.mem_singleton.mp hmem
    cases hname
  · have hown : (w.store.bind f x a).own? i y =
        if f = i ∧ x = y then some a else w.store.own? i y := Store.own?_bind hF x a i y
    simp only [World.noted, Store.binds_eq_isSome_own?, hown, List.filterMap_cons, hname,
      List.filterMap_nil, List.mem_singleton]
    by_cases hiy : f = i ∧ x = y
    · rw [if_pos hiy]
      simp [hiy.1, hiy.2]
    · rw [if_neg hiy]
      have hother : ¬ (i = f ∧ y = x) := fun h => hiy ⟨h.1.symm, h.2.symm⟩
      simp [hother]

theorem update (i : FrameId) (x : String) (a : Value) :
    NotesLexical base f w { w with store := w.store.update i x a } := by
  refine of_binds rfl fun j y _ => ?_
  simp only [Store.binds_eq_isSome_own?, Store.own?_update]
  split
  · rw [Option.isSome_map]
  · rfl

end World.NotesLexical

/-! ### Programs keep a region -/

namespace Region

variable {ρ : Region} {w : World} {f : FrameId}

/-- A call enters the closure in a new frame. -/
private theorem enter_keeps (hw : ρ.Holds w.store) (hf : ρ.Has f) {x : String} {k : Closure}
    (hk : ρ.Declares k) {vs : List Value} (hvs : ∀ v ∈ vs, v.HoldsOnly ρ.Declares)
    (hlength : vs.length = k.parameters.length) (home : FrameId) :
    Run.Ends (enterCall x k vs f w)
      (fun t v => ρ.Holds v.store ∧ w.NotesLexical ρ.base home v ∧ ρ.Has t)
      fun v => ρ.Holds v.store ∧ w.NotesLexical ρ.base home v := by
  have happend := hw.append (hw.fits_call (hw.has_home hf hk) x k.parameters hvs)
  have hnotes := World.NotesLexical.append (f := home) w hw.base_le
    ((Frame.ofCall w.store (k.home w.store f) x).bindAll (k.parameters.zip vs)).1
  rw [enterCall_lexical hlength (hw.scoping_eq hf) rfl]
  split
  · exact ⟨happend, hnotes⟩
  · refine ⟨happend, hnotes.trans (.noted _ rfl fun _ _ _ h => ?_), .inr hw.base_le⟩
    cases h
    rfl

/-- What a program keeps that acts on the frame `f` of a region. -/
def invariant (ρ : Region) (f : FrameId) (hf : ρ.Has f) (hold : f < ρ.base) :
    ProgramInvariant where
  holds w := ρ.Holds w.store
  scope i _ := ρ.Has i
  closures := ρ.Declares
  grows w v := w.NotesLexical ρ.base f v
  grows_refl := .refl
  grows_trans := .trans
  scope_grows hscope _ := hscope
  lookup hw hi hx := hw.holdsOnly_of_lookup? hi hx
  enter hw hi hk hvs hlength := enter_keeps hw hi hk hvs hlength f
  top i := i = f
  functions _ _ := True
  changes w v := w.NotesLexical ρ.base f v
  changes_refl := .refl
  changes_trans := .trans
  changes_of_grows := id
  scope_top := by
    rintro _ w rfl -
    exact hf
  start := by
    rintro i w v - hw rfl
    exact ⟨hw, .noted w rfl nofun⟩
  finish := by
    rintro done w v hw rfl
    exact ⟨hw, .noted w rfl nofun⟩
  declare := by
    rintro _ x a w v rfl hw ha - rfl
    exact ⟨hw.bind _ x ha, .declare (hw.exists_get? hold) rfl⟩
  declareFunction := by
    rintro _ x ps body k w v rfl hw - - rfl rfl
    refine ⟨hw.bind _ x fun c hc => ?_, .declare (hw.exists_get? hold) rfl⟩
    cases List.mem_singleton.mp hc
    rintro j ⟨⟩
    exact hf
  assign := by
    rintro _ x i a w v rfl hw ha - rfl
    exact ⟨hw.update i x ha, .update i x a⟩
  print := by
    rintro i line w v - hw rfl
    exact ⟨hw, .of_binds rfl fun _ _ _ => rfl⟩

end Region

/-! ### Runs on frames that were there before -/

variable {w : World} {f : FrameId} {o : Options}

/-- The frames that can be reached from the frame of a lexical run are a region once the run has set
its options. -/
private theorem region_of_reachable (s : Store) (ho : o.scoping = .lexical)
    (hothers : ∀ i F p, s.Reachable f i → i ≠ f → s.get? i = some F → F.options = some p →
      p.scoping = .lexical) :
    Region.Holds ⟨s.Reachable f, s.next⟩ (s.setOptions f o) := by
  have hnext : (s.setOptions f o).next = s.next := Store.next_setOptions s f o
  refine ⟨Nat.le_of_eq hnext.symm, fun {i G} hi hG => ?_⟩
  have hreach : s.Reachable f i := by
    obtain hi | hnew := hi
    · exact hi
    · exact absurd (hnext ▸ Store.lt_next_of_get? hG) (Nat.not_lt.mpr hnew)
  rw [Store.get?_setOptions] at hG
  -- The frame is as it was, but for its options.
  obtain ⟨F, hF, hparent, hvalues, hoptions⟩ : ∃ F, s.get? i = some F ∧ G.parent = F.parent ∧
      (∀ x, G.get? x = F.get? x) ∧ ∀ p, G.options = some p → p.scoping = .lexical := by
    split at hG
    · obtain ⟨F, hF, rfl⟩ := Option.map_eq_some_iff.mp hG
      refine ⟨F, hF, rfl, fun _ => rfl, ?_⟩
      rintro p ⟨⟩
      exact ho
    · rename_i hne
      exact ⟨G, hG, rfl, fun _ => rfl, fun p => hothers i G p hreach (Ne.symm hne) hG⟩
  constructor
  · intro p hp
    exact .inl (hreach.parent hF (hparent ▸ hp))
  · intro x v hx c hc j hj
    exact .inl (hreach.home hF (hvalues x ▸ hx) hc hj)
  · exact hoptions

/-- **The names that a lexical run leaves behind.** A program is run with lexical options in a frame
that is there, and no other frame that can be reached from it asks for flat scoping. Then every call
of the run is lexical, and every frame that was there has the names that it had, but for the frame
of the run, which has also got the names that were declared. -/
theorem interpret_lexical_in_region (passes : Nat) (program : Node) (f : FrameId) (o : Options)
    (w : World) (ho : o.scoping = .lexical) (hf : f < w.store.next)
    (hothers : ∀ i F p, w.store.Reachable f i → i ≠ f → w.store.get? i = some F →
      F.options = some p → p.scoping = .lexical) :
    ∃ noted : List Record,
      ((interpret passes program (some f) (some o)).after w).records.toList =
        w.records.toList ++ noted ∧
      (∀ name parameters scoping, .called name parameters scoping ∈ noted → scoping = .lexical) ∧
      ∀ i x, i < w.store.next →
        (((interpret passes program (some f) (some o)).after w).store.binds i x = true ↔
          w.store.binds i x = true ∨ i = f ∧ x ∈ noted.filterMap Record.declaredName?) := by
  let u : World := { w with store := w.store.setOptions f o }
  have hregion : Region.Holds ⟨w.store.Reachable f, w.store.next⟩ u.store :=
    region_of_reachable w.store ho hothers
  let ρ : Region := ⟨w.store.Reachable f, w.store.next⟩
  have hkeeps := (ρ.invariant f (.inl Store.Reachable.refl) hf).interpretIn_keeps passes
    (fun q (_ : q ∈ program.functions) => trivial) rfl hregion
  have hset : w.NotesLexical w.store.next f u := by
    refine .of_binds rfl fun i x _ => ?_
    simp only [u, Store.binds, Store.get?_setOptions]
    split
    · cases w.store.get? i <;> rfl
    · rfl
  exact hset.trans hkeeps.2

/-! ### Two frames -/

namespace MixedFrames

/-- A frame with the given options that binds a function `g`, and a function `f` that calls it; in
front of it stands an empty frame that asks for flat scoping. -/
def world (outer : Options) : World where
  store.frames :=
    #[{ parent := none
        label := "global"
        options := some outer
        bindings :=
          [("f", .closure
            { id := 7, parameters := ["x"], body := .call (.name "g") [.name "x"],
              frame := some 0 }),
           ("g", .closure { id := 6, parameters := ["y"], body := .name "y", frame := some 0 })] },
      { parent := some 0
        label := "inner"
        options := some { scoping := .flat }
        bindings := [] }]

/-- A program that calls `f` from the frame in front. -/
def program : Node := .program (.block [.print (.call (.name "f") [.boolean true])])

/-- The program runs to its end with lexical options and has `g` bind its parameter in the frame
behind, which was there before. -/
theorem inner_binds_in_outer :
    (interpret 1 program (some 1) (some {})).outcome (world { scoping := .flat }) = .ok () ∧
      (world { scoping := .flat }).store.binds 0 "y" = false ∧
      ((interpret 1 program (some 1) (some {})).after
        (world { scoping := .flat })).store.binds 0 "y" = true ∧
      ((interpret 1 program (some 1) (some {})).after (world { scoping := .flat })).records =
        #[.interpreting .lexical, .called "f" ["x"] .lexical, .called "g" ["y"] .flat] :=
  ⟨rfl, rfl, rfl, rfl⟩

/-- If the frame behind does not ask for flat scoping, the parameter stays out of it. -/
theorem interpret_lexical_in_region_of_mixedFrames :
    (interpret 1 program (some 1) (some {})).outcome (world {}) = .ok () ∧
      ((interpret 1 program (some 1) (some {})).after (world {})).store.binds 0 "y" = false := by
  have hothers (i : FrameId) (F : Frame) (p : Options) (_ : (world {}).store.Reachable 1 i)
      (hi : i ≠ 1) (hget : (world {}).store.get? i = some F) (hp : F.options = some p) :
      p.scoping = .lexical := by
    obtain ⟨hlt, rfl⟩ := Array.getElem?_eq_some_iff.mp hget
    obtain rfl | rfl : i = 0 ∨ i = 1 := Nat.le_one_iff_eq_zero_or_eq_one.mp (Nat.le_of_lt_succ hlt)
    · cases hp
      rfl
    · exact absurd rfl hi
  obtain ⟨noted, -, -, hbinds⟩ :=
    interpret_lexical_in_region 1 program 1 {} (world {}) rfl (by decide) hothers
  refine ⟨rfl, Bool.eq_false_iff.mpr fun hy => ?_⟩
  obtain hbefore | ⟨hzero, -⟩ := (hbinds 0 "y" (by decide)).mp hy
  · cases hbefore
  · cases hzero

end MixedFrames
end Bella
