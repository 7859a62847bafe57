import Bella.Proofs.Simulation.Expression
import Mathlib.Data.List.Find

/-!
# Expressions have no effect under lexical scoping

If no frame of a world asks for flat scoping, evaluating an expression prints nothing and leaves
every frame that is there as it is. Calls do bind names, but only in frames of their own, and these
take over the options of frames that were there before. So what holds of one call holds of all calls
inside it, whether the evaluation ends with a value or halts.

## Main definitions

* `Bella.World.IsLexical`: no frame asks for flat scoping.
* `Bella.World.Extends`: a world has got frames and records, and nothing else has changed.
* `Bella.purity`: the simulation of an evaluation by itself that carries both.

## Main results

* `Bella.World.IsLexical.append_call`: the frame of a call brings no flat scoping.
* `Bella.eval_keeps_frames_and_output`: expressions have no effect.
-/

namespace Bella

namespace World

/-- No frame of the world asks for flat scoping; frames may lack options. -/
def IsLexical (w : World) : Prop :=
  ∀ (i : FrameId) (F : Frame) (o : Options), w.store.get? i = some F → F.options = some o →
    o.scoping = .lexical

/-- It is enough to look at each frame. -/
theorem IsLexical.of_frames {w : World}
    (h : ∀ F ∈ w.store.frames, ∀ o ∈ F.options, o.scoping = .lexical) : w.IsLexical :=
  fun _ F o hget ho => h F (Array.mem_of_getElem? hget) o ho

/-- The world `v` has all frames of `w`, unchanged, and perhaps more frames and records; nothing has
been printed or declared. -/
structure Extends (w v : World) : Prop where
  printed : v.printed = w.printed
  issued : v.issued = w.issued
  frames : ∀ {i : FrameId} {F : Frame}, w.store.get? i = some F → v.store.get? i = some F

namespace Extends

variable {w v u : World}

theorem refl (w : World) : w.Extends w := ⟨rfl, rfl, id⟩

theorem trans (h : w.Extends v) (h' : v.Extends u) : w.Extends u :=
  ⟨h'.printed.trans h.printed, h'.issued.trans h.issued, fun hget => h'.frames (h.frames hget)⟩

theorem refl_both (w w' : World) : w.Extends w ∧ w'.Extends w' := ⟨.refl w, .refl w'⟩

theorem trans_both {w w' v v' u u' : World} (h : w.Extends v ∧ w'.Extends v')
    (h' : v.Extends u ∧ v'.Extends u') : w.Extends u ∧ w'.Extends u' :=
  ⟨h.1.trans h'.1, h.2.trans h'.2⟩

theorem append (w : World) (F : Frame) : w.Extends (w.append F) :=
  ⟨rfl, rfl, fun hget => Store.get?_append_of_get? hget F⟩

theorem noted (w : World) (r : Record) : w.Extends (w.noted r) := ⟨rfl, rfl, id⟩

/-- One frame may be changed on both sides. -/
theorem change (h : w.Extends v) {s t : Store} {f : FrameId} {g : Frame → Frame}
    (hs : ∀ i, s.get? i = if f = i then (w.store.get? i).map g else w.store.get? i)
    (ht : ∀ i, t.get? i = if f = i then (v.store.get? i).map g else v.store.get? i) :
    World.Extends { w with store := s } { v with store := t } := by
  refine ⟨h.printed, h.issued, fun {i G} hG => ?_⟩
  rw [hs] at hG
  rw [ht]
  split at hG
  · obtain ⟨F, hF, rfl⟩ := Option.map_eq_some_iff.mp hG
    rw [if_pos ‹_›, h.frames hF, Option.map_some]
  · rw [if_neg ‹_›]
    exact h.frames hG

/-! A frame that is there has the same names and options after it. -/

section Frames

variable {i : FrameId} {F : Frame}

theorem binds_eq (h : w.Extends v) (hi : w.store.get? i = some F) (x : String) :
    v.store.binds i x = w.store.binds i x := by
  simp only [Store.binds, hi, h.frames hi]

theorem options_eq (h : w.Extends v) (hi : w.store.get? i = some F) :
    v.store.options i = w.store.options i := by
  simp only [Store.options, Store.options?, hi, h.frames hi]

end Frames

theorem chain (h : w.Extends v) {f : FrameId} {ids : List FrameId} (hf : w.store.Chain f ids) :
    v.store.Chain f ids :=
  hf.kept fun hget => ⟨_, h.frames hget, rfl⟩

/-- Names resolve to the same frames after it. -/
theorem resolve?_eq (h : w.Extends v) {f : FrameId} {ids : List FrameId}
    (hf : w.store.Chain f ids) (x : String) : v.store.resolve? f x = w.store.resolve? f x := by
  unfold Store.resolve?
  rw [(h.chain hf).chain_eq, hf.chain_eq]
  refine List.find?_congr fun i hi => ?_
  obtain ⟨F, hF⟩ := hf.exists_get? hi
  exact h.binds_eq hF x

/-- Names have the same values after it. -/
theorem lookup?_eq (h : w.Extends v) {f : FrameId} {ids : List FrameId}
    (hf : w.store.Chain f ids) (x : String) : v.store.lookup? f x = w.store.lookup? f x := by
  unfold Store.lookup?
  rw [h.resolve?_eq hf]
  cases hresolve : w.store.resolve? f x with
  | none => rfl
  | some i =>
    have hi : i ∈ ids := hf.chain_eq ▸ List.mem_of_find?_eq_some hresolve
    obtain ⟨F, hF⟩ := hf.exists_get? hi
    rw [Option.bind_some, Option.bind_some, hF, h.frames hF]

theorem root_eq (h : w.Extends v) {f : FrameId} {ids : List FrameId}
    (hf : w.store.Chain f ids) : v.store.root f = w.store.root f := by
  unfold Store.root
  rw [(h.chain hf).chain_eq, hf.chain_eq]

end Extends

namespace IsLexical

variable {w : World}

theorem scoping_eq (h : w.IsLexical) (i : FrameId) : (w.store.options i).scoping = .lexical := by
  unfold Store.options Store.options?
  cases hget : w.store.get? i with
  | none => rfl
  | some F =>
    cases hoptions : F.options with
    | none => simp [hoptions]
    | some o => simpa [hoptions] using h i F o hget hoptions

theorem append (h : w.IsLexical) {F : Frame}
    (hF : ∀ o, F.options = some o → o.scoping = .lexical) : (w.append F).IsLexical := by
  intro i G o hget hoptions
  rw [World.append, Store.get?_append] at hget
  split at hget
  · cases hget
    exact hF o hoptions
  · exact h i G o hget hoptions

theorem noted (h : w.IsLexical) (r : Record) : (w.noted r).IsLexical := h

/-- A change to one frame that keeps its options brings no flat scoping. -/
theorem change (h : w.IsLexical) {v : World} {f : FrameId} {g : Frame → Frame}
    (hv : ∀ i, v.store.get? i = if f = i then (w.store.get? i).map g else w.store.get? i)
    (hg : ∀ F, (g F).options = F.options) : v.IsLexical := by
  intro i G o hget hoptions
  rw [hv] at hget
  split at hget
  · obtain ⟨F, hF, rfl⟩ := Option.map_eq_some_iff.mp hget
    exact h i F o hF ((hg F).symm.trans hoptions)
  · exact h i G o hget hoptions

/-- The frame of a call takes over the options of a frame that was there. -/
theorem append_call (h : w.IsLexical) (home : FrameId) (name : String)
    (bs : List (String × Value)) :
    (w.append ((Frame.ofCall w.store home name).bindAll bs).1).IsLexical := by
  refine h.append fun o ho => ?_
  rw [(Frame.bindAll_shape _ _).2.2] at ho
  obtain ⟨F, hget, hoptions⟩ := Option.bind_eq_some_iff.mp ho
  exact h home F o hget hoptions

end IsLexical
end World

/-- An evaluation beside itself, in a world without flat scoping. -/
def puritySetting : Setting where
  worlds w w' := w = w' ∧ w.IsLexical
  grows w _ v _ := w.Extends v
  halts := Eq
  excused _ := False
  grows_refl w _ := .refl w
  grows_trans := .trans
  comparison := Halt.isComparison_eq
  Context := Unit
  closures := Eq
  nodes _ := Eq
  names _ := Eq
  scope _ f f' _ _ := f = f'

private theorem purity_lookup {x : String} {f : FrameId} {w : World} (hw : w.IsLexical) :
    puritySetting.Agrees puritySetting.values (Run.lookup f x) (Run.lookup f x) w w := by
  unfold Coupling.Agrees
  rw [Run.lookup_apply]
  cases w.store.lookup? f x with
  | none => exact .error rfl ⟨rfl, hw⟩ (.refl w)
  | some v => exact .ok (.refl (fun _ => rfl) v) ⟨rfl, hw⟩ (.refl w)

/-- A call extends the world by one frame, which holds its parameters, before its body. -/
private theorem purity_call {eval eval' : Evaluator}
    (heval : puritySetting.Evaluates eval eval') {x : String} {k : Closure} {vs : List Value}
    {f : FrameId} {w : World} (hw : w.IsLexical) :
    puritySetting.Agrees puritySetting.values (callClosure eval x k vs f)
      (callClosure eval' x k vs f) w w := by
  by_cases hlength : vs.length = k.parameters.length
  · have hlexical := hw.append_call (k.home w.store f) x (k.parameters.zip vs)
    have hextends := World.Extends.append w
      ((Frame.ofCall w.store (k.home w.store f) x).bindAll (k.parameters.zip vs)).1
    unfold Coupling.Agrees
    rw [callClosure_lexical hlength (hw.scoping_eq f) rfl,
      callClosure_lexical hlength (hw.scoping_eq f) rfl]
    split
    · exact .error rfl ⟨rfl, hlexical⟩ hextends
    · have hnoted := hextends.trans (.noted _ (.called x k.parameters .lexical))
      exact (heval (c := ()) rfl rfl ⟨rfl, hlexical.noted _⟩).trans hnoted
  · rw [callClosure_of_length_ne hlength, callClosure_of_length_ne hlength]
    exact .fail rfl ⟨rfl, hw⟩

/-- The simulation of an evaluation by itself in a world without flat scoping. -/
def purity : Simulation where
  toSetting := puritySetting
  shape := by
    rintro c n _ rfl
    exact .refl (fun _ => rfl) (fun _ => rfl) (fun _ => rfl) n
  closures_id := congrArg Closure.id
  halts_locate := by
    rintro c n _ h _ rfl rfl
    rfl
  excused_locate _ := False.elim
  excused_overflow := False.elim
  halts_notCallable := by
    rintro c x _ kind rfl
    rfl
  scope_grows hscope _ := hscope
  lookup := by
    rintro c x _ f _ w _ rfl rfl ⟨rfl, hw⟩
    exact purity_lookup hw
  call := by
    rintro eval eval' c x _ k _ vs vs' f _ w _ heval rfl rfl hvs rfl ⟨rfl, hw⟩
    obtain rfl := Value.Related.eq_of_eq_items hvs
    exact purity_call heval hw

/-- An action that agrees with itself extends the world, however it ends, and brings no flat
scoping. -/
theorem purity_after {x : Run Value} {w : World}
    (h : puritySetting.Agrees puritySetting.values x x w w) :
    w.Extends (x.after w) ∧ (x.after w).IsLexical :=
  ⟨h.grows fun _ _ => id, (h.ends fun _ _ => id).1.2⟩

/-- Evaluation extends a world without flat scoping, however it ends, and brings no flat scoping. -/
theorem World.IsLexical.eval {w : World} (hw : w.IsLexical) (levels : Nat) (n : Node)
    (f : FrameId) :
    w.Extends ((Bella.eval levels n f).after w) ∧ ((Bella.eval levels n f).after w).IsLexical :=
  purity_after (purity.eval_agrees levels (c := ()) rfl rfl ⟨rfl, hw⟩)

/-- **Expressions have no effect under lexical scoping.** In a world in which no frame asks for flat
scoping, evaluating any node in any frame prints nothing and leaves every frame of the world with
the same bindings, parent, label and options, whether it ends with a value, with an error, with a
defect of the tree or for want of levels. -/
theorem eval_keeps_frames_and_output (levels : Nat) (n : Node) (f : FrameId) (w : World)
    (hw : w.IsLexical) :
    ((eval levels n f).after w).printed = w.printed ∧
      ∀ i F, w.store.get? i = some F → ((eval levels n f).after w).store.get? i = some F := by
  have h := (hw.eval levels n f).1
  exact ⟨h.printed, fun i F => h.frames⟩

/-- A world with one frame, which binds a function that negates its parameter. -/
def negationWorld : World where
  store.frames :=
    #[{ parent := none
        label := "global"
        options := some {}
        bindings := [("f", .closure
          { id := 6, parameters := ["x"], body := .unary "!" (.name "x"), frame := some 0 })] }]
  printed := #[(.standard, "earlier")]

theorem negationWorld_isLexical : negationWorld.IsLexical := .of_frames (by decide)

/-- A call of the function gives a value and leaves the frame and the printed line as they are. -/
theorem eval_keeps_frames_and_output_of_negation :
    negationWorld.IsLexical ∧
      (eval 100 (.call (.name "f") [.boolean true]) 0).outcome negationWorld =
        .ok (.boolean false) ∧
      ((eval 100 (.call (.name "f") [.boolean true]) 0).after negationWorld).printed =
        negationWorld.printed ∧
      ((eval 100 (.call (.name "f") [.boolean true]) 0).after negationWorld).store.get? 0 =
        negationWorld.store.get? 0 := by
  have h := eval_keeps_frames_and_output 100 (.call (.name "f") [.boolean true]) 0 negationWorld
    negationWorld_isLexical
  exact ⟨negationWorld_isLexical, rfl, h.1, h.2 0 _ rfl⟩

end Bella
