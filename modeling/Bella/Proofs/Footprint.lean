import Bella.Proofs.Purity
import Bella.Proofs.Simulation.Invariant
import Mathlib.Data.List.Basic

/-!
# The footprint of a lexical run

Under lexical scoping calls bind names in frames of their own, so what a statement does to the frames
that were there it does by itself: it declares names in the frame in which it is executed, and it
assigns to names along the chain of that frame. Frames off the chain stay as they are, even if
closures that were declared there are called. The ancestors of the frame get no names, and of their
names only those can get another value that no frame nearer to the statement binds.

A statement may be a block, a loop or a program of any length, so this is proved for one step and
kept along all steps, whether the last one succeeds or not.

## Main definitions

* `Bella.Store.Alters`: what a run may make of one frame.
* `Bella.Store.Footprint`: what a run may make of all frames that were there.

## Main results

* `Bella.Store.Footprint.bind`, `Bella.Store.Footprint.update`: the footprint of a declaration and of
  an assignment.
* `Bella.exec_footprint`: the footprint of every statement.
-/

namespace Bella

namespace Store

/-- A run in the frame `f`, whose chain is `ids`, may make the frame `G` of the frame `F` that the
store `s` has at the address `i`. -/
structure Alters (s : Store) (f : FrameId) (ids : List FrameId) (i : FrameId) (F G : Frame) :
    Prop where
  /-- The links, the label and the options stay. -/
  shape : G.parent = F.parent ∧ G.label = F.label ∧ G.options = F.options
  /-- A frame off the chain stays as it is. -/
  unchanged : i ∉ ids → G = F
  /-- No name is lost. -/
  names : ∀ x, F.binds x = true → G.binds x = true
  /-- Only the frame of the run gets names. -/
  ancestor : i ≠ f → ∀ x, G.binds x = F.binds x
  /-- A name that a nearer frame binds keeps its value. -/
  hidden : ∀ before after x, ids = before ++ i :: after → (∃ j ∈ before, s.binds j x = true) →
    G.get? x = F.get? x

/-- The frames of the store `s` that a run in the frame `f`, whose chain is `ids`, has left in the
store `t`. -/
def Footprint (f : FrameId) (ids : List FrameId) (s t : Store) : Prop :=
  ∀ i F, s.get? i = some F → ∃ G, t.get? i = some G ∧ s.Alters f ids i F G

variable {f : FrameId} {ids : List FrameId} {s t u : Store}

theorem Alters.refl (s : Store) (f : FrameId) (ids : List FrameId) (i : FrameId) (F : Frame) :
    s.Alters f ids i F F :=
  ⟨⟨rfl, rfl, rfl⟩, fun _ => rfl, fun _ hx => hx, fun _ _ => rfl, fun _ _ _ _ _ => rfl⟩

namespace Footprint

/-- Frames that are kept as they are leave no footprint. -/
theorem of_frames (h : ∀ {i F}, s.get? i = some F → t.get? i = some F) : Footprint f ids s t :=
  fun i F hF => ⟨F, h hF, .refl s f ids i F⟩

theorem binds (h : Footprint f ids s t) {i : FrameId} {x : String} (hx : s.binds i x = true) :
    t.binds i x = true := by
  cases hF : s.get? i with
  | none => simp [Store.binds, hF] at hx
  | some F =>
    obtain ⟨G, hG, halters⟩ := h _ _ hF
    have hbinds : F.binds x = true := by simpa [Store.binds, hF] using hx
    simpa [Store.binds, hG] using halters.names x hbinds

theorem trans (h : Footprint f ids s t) (h' : Footprint f ids t u) : Footprint f ids s u := by
  intro i F hF
  obtain ⟨G, hG, hfirst⟩ := h i F hF
  obtain ⟨H, hH, hsecond⟩ := h' i G hG
  obtain ⟨hparent, hlabel, hoptions⟩ := hfirst.shape
  obtain ⟨hparent', hlabel', hoptions'⟩ := hsecond.shape
  refine ⟨H, hH, ⟨hparent'.trans hparent, hlabel'.trans hlabel, hoptions'.trans hoptions⟩,
    fun hi => ?_, fun x hx => ?_, fun hi x => ?_, fun before after x hids hnearer => ?_⟩
  · rw [hsecond.unchanged hi, hfirst.unchanged hi]
  · exact hsecond.names x (hfirst.names x hx)
  · rw [hsecond.ancestor hi, hfirst.ancestor hi]
  · obtain ⟨j, hj, hx⟩ := hnearer
    rw [hsecond.hidden before after x hids ⟨j, hj, h.binds hx⟩,
      hfirst.hidden before after x hids ⟨j, hj, hx⟩]

/-- A footprint leaves the chain as it is. -/
theorem chain (h : Footprint f ids s t) (hf : s.Chain f ids) : t.Chain f ids := by
  refine hf.kept fun hF => ?_
  obtain ⟨G, hG, halters⟩ := h _ _ hF
  exact ⟨G, hG, halters.shape.1⟩

/-- If one frame is changed, the footprint is what has become of that frame. -/
theorem change {j : FrameId} {g : Frame → Frame}
    (ht : ∀ i, t.get? i = if j = i then (s.get? i).map g else s.get? i)
    (hg : ∀ F, s.get? j = some F → s.Alters f ids j F (g F)) : Footprint f ids s t := by
  intro i F hF
  by_cases hij : j = i
  · subst hij
    exact ⟨g F, by simp [ht, hF], hg F hF⟩
  · exact ⟨F, by simp [ht, hij, hF], .refl s f ids i F⟩

end Footprint

/-! ### One step -/

/-- The footprint of a declaration is in the frame of the run. -/
theorem Footprint.bind (hf : s.Chain f ids) (x : String) (a : Value) :
    Footprint f ids s (s.bind f x a) := by
  refine .change (s.get?_bind f x a) fun F hF => ⟨⟨rfl, rfl, rfl⟩, fun hi => ?_, fun y hy => ?_,
    fun hi => ?_, fun before after y hids hnearer => ?_⟩
  · obtain ⟨rest, rfl⟩ := hf.eq_cons
    exact absurd List.mem_cons_self hi
  · rw [Frame.binds_eq_isSome_get?, Frame.get?_bind]
    split
    · rfl
    · rw [← Frame.binds_eq_isSome_get?]
      exact hy
  · exact absurd rfl hi
  · obtain ⟨j, hj, -⟩ := hnearer
    subst hids
    rw [hf.before_eq_nil] at hj
    cases hj

/-- The footprint of an assignment is in the first frame on the chain that binds the name. -/
theorem Footprint.update (hf : s.Chain f ids) {x : String} {i : FrameId}
    (hx : s.resolve? f x = some i) (a : Value) : Footprint f ids s (s.update i x a) := by
  rw [Store.resolve?, hf.chain_eq] at hx
  have hnodup := hf.nodup
  have hbinds (F : Frame) (y : String) : (F.update x a).binds y = F.binds y := by
    rw [Frame.binds_eq_isSome_get?, Frame.get?_update, Frame.binds_eq_isSome_get?]
    split
    · rw [Option.isSome_map]
    · rfl
  refine .change (s.get?_update i x a) fun F hF => ⟨⟨rfl, rfl, rfl⟩, fun hi => ?_, fun y hy => ?_,
    fun _ y => hbinds F y, fun before after y hids hnearer => ?_⟩
  · exact absurd (List.mem_of_find?_eq_some hx) hi
  · rw [hbinds]
    exact hy
  · obtain ⟨j, hj, hy⟩ := hnearer
    obtain ⟨-, before', after', hids', hnone⟩ := List.find?_eq_some_iff_append.mp hx
    -- The frame stands once on the chain, so what is nearer to it is nearer in both readings.
    have hsame : before = before' := by
      subst hids
      obtain ⟨-, hmem, hdisjoint⟩ := List.nodup_append.mp hnodup
      have hbefore : i ∉ before := fun h => hdisjoint i h i List.mem_cons_self rfl
      exact ((List.append_cons_inj_of_notMem hbefore (List.nodup_cons.mp hmem).1).mp hids').1
    have hxy : x ≠ y := by
      rintro rfl
      have hfree := hnone j (hsame ▸ hj)
      rw [hy] at hfree
      cases hfree
    rw [Frame.get?_update, if_neg hxy]

end Store

/-! ### All statements -/

/-- What every statement keeps that is executed in the frame `f`, whose chain is `ids`. -/
def footprintInvariant (f : FrameId) (ids : List FrameId) : ProgramInvariant where
  holds w := w.IsLexical ∧ w.store.Chain f ids
  scope _ _ := True
  closures _ := True
  grows := World.Extends
  grows_refl := .refl
  grows_trans := .trans
  scope_grows _ _ := trivial
  lookup _ _ _ _ _ := trivial
  enter := by
    rintro x k vs g w ⟨hlexical, hchain⟩ - - - hlength
    have happend := World.Extends.append w
      ((Frame.ofCall w.store (k.home w.store g) x).bindAll (k.parameters.zip vs)).1
    have hcall := hlexical.append_call (k.home w.store g) x (k.parameters.zip vs)
    rw [enterCall_lexical hlength (hlexical.scoping_eq g) rfl]
    split
    · exact ⟨⟨hcall, happend.chain hchain⟩, happend⟩
    · exact ⟨⟨hcall.noted _, happend.chain hchain⟩, happend.trans (.noted _ _), trivial⟩
  top i := i = f
  functions _ _ := True
  changes w v := w.store.Footprint f ids v.store
  changes_refl _ := .of_frames id
  changes_trans := .trans
  changes_of_grows hgrows := .of_frames hgrows.frames
  scope_top _ _ := trivial
  start := by
    rintro g w v - hw rfl
    exact ⟨hw, .of_frames id⟩
  finish := by
    rintro done w v hw rfl
    exact ⟨hw, .of_frames id⟩
  declare := by
    rintro _ x a w v rfl ⟨hlexical, hchain⟩ - - rfl
    have hbind := Store.Footprint.bind hchain x a
    exact ⟨⟨hlexical.change (w.store.get?_bind _ x a) fun _ => rfl, hbind.chain hchain⟩, hbind⟩
  declareFunction := by
    rintro _ x ps body k w v rfl ⟨hlexical, hchain⟩ - - - rfl
    have hbind := Store.Footprint.bind hchain x (.closure k)
    exact ⟨⟨hlexical.change (w.store.get?_bind _ x _) fun _ => rfl, hbind.chain hchain⟩, hbind⟩
  assign := by
    rintro _ x i a w v rfl ⟨hlexical, hchain⟩ - hx rfl
    have hupdate := Store.Footprint.update hchain hx a
    exact ⟨⟨hlexical.change (w.store.get?_update i x a) fun _ => rfl, hupdate.chain hchain⟩,
      hupdate⟩
  print := by
    rintro g line w v - hw rfl
    exact ⟨hw, .of_frames id⟩

/-- **The footprint of a lexical run.** In a world without flat scoping, in which parents are older
than their children, let any statement be executed in a frame that is there. Whether it succeeds or
not, every frame that was there has the same parent, label and options; it is unchanged unless it is
on the chain of the frame; it binds all names that it bound, and no others unless it is the frame
itself; and a name that was bound nearer to the frame has the same value in it. -/
theorem exec_footprint (passes levels : Nat) (n : Node) (f : FrameId) (w : World)
    (hlexical : w.IsLexical) (hordered : w.store.IsOrdered) (hf : f < w.store.next) (i : FrameId)
    (F : Frame) (hF : w.store.get? i = some F) :
    ∃ G, ((exec passes levels n f).after w).store.get? i = some G ∧
      w.store.Alters f (w.store.chain f) i F G := by
  have hkeeps := (footprintInvariant f (w.store.chain f)).exec_keeps passes levels
    (fun q (_ : q ∈ n.functions) => trivial) rfl ⟨hlexical, hordered.chain hf⟩
  exact hkeeps.2 i F hF

/-- A global frame and two frames in front of it. The second one binds a function that was declared
in the first one. -/
def siblingFrames : World where
  store.frames :=
    #[{ parent := none, label := "global", options := some {},
        bindings := [("x", .boolean true)] },
      { parent := some 0, label := "left", options := none, bindings := [] },
      { parent := some 0, label := "right", options := none,
        bindings := [("g", .closure
          { id := 6, parameters := ["x"], body := .name "x", frame := some 1 })] }]

/-- A block that assigns the value of a call to a global name and then fails. -/
def assigningBlock : Node :=
  .block [.assignment (.name "x") (.call (.name "g") [.boolean false]), .print (.name "g")]

private theorem siblingFrames_get? {i : FrameId} {F : Frame}
    (h : siblingFrames.store.get? i = some F) :
    (∀ p, F.parent = some p → p < i) ∧ ∀ o, F.options = some o → o.scoping = .lexical := by
  obtain ⟨hlt, rfl⟩ := Array.getElem?_eq_some_iff.mp h
  match i, hlt with
  | 0, _ => exact ⟨nofun, fun o ho => by cases ho; rfl⟩
  | 1, _ => exact ⟨fun p hp => by cases hp; decide, nofun⟩
  | 2, _ => exact ⟨fun p hp => by cases hp; decide, nofun⟩

/-- The block has another value for the global name and leaves the frame alone in which the function
was declared. -/
theorem exec_footprint_of_siblingFrames :
    (∃ e, (exec 1 100 assigningBlock 2).outcome siblingFrames = .error (.error e)) ∧
      ((exec 1 100 assigningBlock 2).after siblingFrames).store.own? 0 "x" =
        some (.boolean false) ∧
      ((exec 1 100 assigningBlock 2).after siblingFrames).store.get? 1 =
        siblingFrames.store.get? 1 := by
  obtain ⟨G, hG, halters⟩ := exec_footprint 1 100 assigningBlock 2 siblingFrames
    (fun i F o hF ho => (siblingFrames_get? hF).2 o ho) (fun hF hp => (siblingFrames_get? hF).1 _ hp)
    (by decide) 1 _ rfl
  refine ⟨⟨_, rfl⟩, rfl, ?_⟩
  rw [hG, halters.unchanged (by decide)]
  rfl

end Bella
