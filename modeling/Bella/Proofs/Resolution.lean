import Bella.Proofs.Linkage
import Bella.Proofs.Session
import Mathlib.Logic.Relation

/-!
# Resolution of names

Frames share their parents, so they form a forest, and a name is resolved on the way from a frame to
the root of its tree. Whatever steps a host has made, parents are older than their children. So no
frame lies behind itself, every way outward ends, and the chain on which the model finds names and
roots is the way that a loop along the parents goes.

A write is seen from many frames. An assignment shows from those which resolve the name to the frame
that is written, and a declaration from those whose way outward meets the frame of the declaration
before any other one that binds the name. From all other frames, and under all other names, nothing
changes.

## Main definitions

* `Bella.Store.Behind`, `Bella.Store.Walk`: frames behind a frame, and the way from it outward, up to
  a frame at which to stop.
* `Bella.Session.Step.Fits`, `Bella.World.IsBuilt`: worlds that are built by steps which name frames
  that are there.

## Main results

* `Bella.Store.IsOrdered.not_behind_self`, `Bella.Store.Chain.walk_iff`: parents form no cycle, and
  every walk follows the chain to one end.
* `Bella.Store.IsOrdered.lookup?_update`, `Bella.Store.IsOrdered.lookup?_bind`: where a write shows.
* `Bella.World.IsBuilt.isSound`: parents are older than their children in every world that is built.
* `Bella.frame_resolution`: resolution, assignments and declarations in such a world.
-/

namespace Bella

/-! ### The way outward -/

namespace Store

variable {s : Store} {stop : FrameId → Bool} {f g i p : FrameId} {ids : List FrameId} {x : String}

/-- The parent of a frame. -/
def parent? (s : Store) (i : FrameId) : Option FrameId := (s.get? i).bind Frame.parent

/-- The second frame lies behind the first one: it is the parent, or lies behind the parent. -/
def Behind (s : Store) : FrameId → FrameId → Prop :=
  Relation.TransGen fun i p => s.parent? i = some p

theorem parent?_of_get? {F : Frame} (hget : s.get? i = some F) : s.parent? i = F.parent := by
  rw [parent?, hget, Option.bind_some]

theorem IsOrdered.lt_of_behind (h : s.IsOrdered) (hp : s.Behind i p) : p < i := by
  have hlt {i p : FrameId} (hp : s.parent? i = some p) : p < i := by
    obtain ⟨F, hget, hparent⟩ := Option.bind_eq_some_iff.mp hp
    exact h hget hparent
  induction hp with
  | single hp => exact hlt hp
  | tail _ hp ih => exact Nat.lt_trans (hlt hp) ih

/-- Parents form no cycle. -/
theorem IsOrdered.not_behind_self (h : s.IsOrdered) (i : FrameId) : ¬ s.Behind i i :=
  fun hi => Nat.lt_irrefl i (h.lt_of_behind hi)

/-- Going from a frame outward, one parent after the other, up to the first frame at which to stop. At
a frame without parent the walk ends with nothing. -/
inductive Walk (s : Store) (stop : FrameId → Bool) : FrameId → Option FrameId → Prop
  | found {i : FrameId} (hstop : stop i = true) : Walk s stop i (some i)
  | onward {i p : FrameId} {r : Option FrameId} (hstop : stop i = false)
      (hparent : s.parent? i = some p) (hrest : Walk s stop p r) : Walk s stop i r
  | ended {i : FrameId} (hstop : stop i = false) (hparent : s.parent? i = none) : Walk s stop i none

theorem walk_of_stop (hstop : stop i = true) {r : Option FrameId} :
    s.Walk stop i r ↔ r = some i := by
  constructor
  · rintro (_ | ⟨hgo, -, -⟩ | ⟨hgo, -⟩)
    · rfl
    · cases hstop.symm.trans hgo
    · cases hstop.symm.trans hgo
  · rintro rfl
    exact .found hstop

theorem walk_of_parent (hgo : stop i = false) (hparent : s.parent? i = some p)
    {r : Option FrameId} : s.Walk stop i r ↔ s.Walk stop p r := by
  constructor
  · rintro (hstop | ⟨-, hp, hrest⟩ | ⟨-, hp⟩)
    · cases hstop.symm.trans hgo
    · cases hparent.symm.trans hp
      exact hrest
    · cases hparent.symm.trans hp
  · exact .onward hgo hparent

theorem walk_of_root (hgo : stop i = false) (hparent : s.parent? i = none) {r : Option FrameId} :
    s.Walk stop i r ↔ r = none := by
  constructor
  · rintro (hstop | ⟨-, hp, -⟩ | _)
    · cases hstop.symm.trans hgo
    · cases hparent.symm.trans hp
    · rfl
  · rintro rfl
    exact .ended hgo hparent

/-- A walk follows the chain, and it ends in one way. -/
theorem Chain.walk_iff (h : s.Chain i ids) (stop : FrameId → Bool) (r : Option FrameId) :
    s.Walk stop i r ↔ r = ids.find? stop := by
  induction h with
  | @last i F hget hparent =>
    cases hstop : stop i with
    | true => rw [walk_of_stop hstop, List.find?_cons_of_pos hstop]
    | false =>
      rw [walk_of_root hstop ((parent?_of_get? hget).trans hparent),
        List.find?_cons_of_neg (Bool.not_eq_true _ ▸ hstop), List.find?_nil]
  | @link i p F ids hget hparent _ _ ih =>
    cases hstop : stop i with
    | true => rw [walk_of_stop hstop, List.find?_cons_of_pos hstop]
    | false =>
      rw [walk_of_parent hstop ((parent?_of_get? hget).trans hparent), ih,
        List.find?_cons_of_neg (Bool.not_eq_true _ ▸ hstop)]

/-- The first frame on a chain that has no parent is the last one. -/
theorem Chain.find?_parentless (h : s.Chain i ids) :
    ids.find? (fun j => (s.parent? j).isNone) = ids.getLast? := by
  induction h with
  | last hget hparent =>
    have hlast := (parent?_of_get? hget).trans hparent
    simp [hlast]
  | link hget hparent _ hrest ih =>
    have hnext := (parent?_of_get? hget).trans hparent
    obtain ⟨rest, rfl⟩ := hrest.eq_cons
    rw [List.find?_cons_of_neg (by simp [hnext]), ih, List.getLast?_cons_cons]

/-- The walk to a frame without parent finds the root. -/
theorem Chain.walk_root_iff (h : s.Chain i ids) {r : Option FrameId} :
    s.Walk (fun j => (s.parent? j).isNone) i r ↔ r = some (s.root i) := by
  have hroot : ids.getLast? = some (s.root i) := by
    rw [root, h.chain_eq]
    obtain ⟨rest, rfl⟩ := h.eq_cons
    rw [List.getLast?_eq_some_getLast (List.cons_ne_nil i rest)]
    rfl
  rw [h.walk_iff, h.find?_parentless, hroot]

/-! ### Where a write shows -/

/-- The value of a name is the one in the frame to which it resolves. -/
theorem lookup?_eq_bind (s : Store) (g : FrameId) (x : String) :
    s.lookup? g x = (s.resolve? g x).bind (s.own? · x) := rfl

/-- A name resolves to a frame that binds it. -/
theorem binds_of_resolve? (h : s.resolve? g x = some i) : s.binds i x = true :=
  List.find?_some (p := fun j => s.binds j x) h

/-- A name has a value if and only if it resolves to a frame. -/
theorem isSome_lookup? (s : Store) (g : FrameId) (x : String) :
    (s.lookup? g x).isSome = (s.resolve? g x).isSome := by
  rw [lookup?_eq_bind]
  cases hresolve : s.resolve? g x with
  | none => rfl
  | some i =>
    rw [Option.bind_some, ← binds_eq_isSome_own?, binds_of_resolve? hresolve, Option.isSome_some]

variable {t : Store}

/-- Chains stay as they are while frames are there still and keep their parents. -/
theorem IsOrdered.chain_eq_of_kept (h : s.IsOrdered) (hg : g < s.next)
    (hkept : ∀ {j F}, s.get? j = some F → ∃ G, t.get? j = some G ∧ G.parent = F.parent) :
    t.chain g = s.chain g :=
  ((h.chain hg).kept hkept).chain_eq

theorem IsOrdered.chain_update (h : s.IsOrdered) (hg : g < s.next) (i : FrameId) (x : String)
    (v : Value) : (s.update i x v).chain g = s.chain g := by
  refine h.chain_eq_of_kept hg fun {j F} hget => ?_
  rw [get?_update, hget]
  split <;> exact ⟨_, rfl, rfl⟩

theorem IsOrdered.chain_bind (h : s.IsOrdered) (hg : g < s.next) (i : FrameId) (x : String)
    (v : Value) : (s.bind i x v).chain g = s.chain g := by
  refine h.chain_eq_of_kept hg fun {j F} hget => ?_
  rw [get?_bind, hget]
  split <;> exact ⟨_, rfl, rfl⟩

/-- An assignment leaves it open to no frame where a name resolves to. -/
theorem IsOrdered.resolve?_update (h : s.IsOrdered) (hg : g < s.next) (i : FrameId) (x : String)
    (v : Value) (y : String) : (s.update i x v).resolve? g y = s.resolve? g y := by
  have hbinds (j : FrameId) : (s.update i x v).binds j y = s.binds j y := by
    rw [binds_eq_isSome_own?, binds_eq_isSome_own?, own?_update]
    split <;> simp
  rw [resolve?, resolve?, h.chain_update hg]
  simp only [hbinds]

/-- An assignment shows under its name, from the frames which resolve it to the frame that is
written. -/
theorem IsOrdered.lookup?_update (h : s.IsOrdered) (hg : g < s.next)
    (hi : s.resolve? f x = some i) (v : Value) (y : String) :
    (s.update i x v).lookup? g y =
      if y = x ∧ s.resolve? g x = s.resolve? f x then some v else s.lookup? g y := by
  rw [lookup?_eq_bind, lookup?_eq_bind, h.resolve?_update hg, hi]
  cases hj : s.resolve? g y with
  | none =>
    have hother : ¬ (y = x ∧ s.resolve? g x = some i) := by
      rintro ⟨rfl, hsame⟩
      cases hj.symm.trans hsame
    rw [if_neg hother]
    rfl
  | some j =>
    rw [Option.bind_some, Option.bind_some, own?_update]
    by_cases hhere : i = j ∧ x = y
    · obtain ⟨rfl, rfl⟩ := hhere
      have hbinds : (s.own? i x).isSome = true :=
        s.binds_eq_isSome_own? i x ▸ binds_of_resolve? hj
      obtain ⟨u, hu⟩ := Option.isSome_iff_exists.mp hbinds
      rw [if_pos ⟨rfl, rfl⟩, if_pos ⟨rfl, hj⟩, hu, Option.map_some]
    · have hother : ¬ (y = x ∧ s.resolve? g x = some i) := by
        rintro ⟨rfl, hsame⟩
        exact hhere ⟨(Option.some.inj (hj.symm.trans hsame)).symm, rfl⟩
      rw [if_neg hhere, if_neg hother]

/-- A frame at which to stop besides makes no difference to a search that does not stop there. -/
private theorem find?_or_eq_of_ne {q : FrameId → Bool} {l : List FrameId}
    (h : l.find? (fun j => j == f || q j) ≠ some f) :
    l.find? (fun j => j == f || q j) = l.find? q := by
  induction l with
  | nil => rfl
  | cons j l ih =>
    rw [List.find?_cons] at h ⊢
    rw [List.find?_cons]
    by_cases hj : j = f
    · simp [hj] at h
    · have hbeq : (j == f) = false := beq_eq_false_iff_ne.mpr hj
      simp only [hbeq, Bool.false_or] at h ⊢
      cases hq : q j with
      | true => rfl
      | false =>
        rw [hq] at h
        exact ih h

/-- A declaration adds one frame to those that bind its name. -/
theorem binds_bind (hf : f < s.next) (x : String) (v : Value) (j : FrameId) :
    (s.bind f x v).binds j x = (j == f || s.binds j x) := by
  rw [binds_eq_isSome_own?, binds_eq_isSome_own?, own?_bind (Array.getElem?_eq_getElem hf)]
  by_cases hj : f = j
  · simp [hj]
  · have hbeq : (j == f) = false := beq_eq_false_iff_ne.mpr fun e => hj e.symm
    simp [hj, hbeq]

/-- A declaration may stop the search for its name in the frame of the declaration. -/
theorem IsOrdered.resolve?_bind (h : s.IsOrdered) (hf : f < s.next) (hg : g < s.next) (x : String)
    (v : Value) :
    (s.bind f x v).resolve? g x = (s.chain g).find? fun j => j == f || s.binds j x := by
  rw [resolve?, h.chain_bind hg]
  simp only [binds_bind hf]

/-- A declaration does not show under other names. -/
theorem IsOrdered.lookup?_bind_of_ne (h : s.IsOrdered) (hf : f < s.next) (hg : g < s.next)
    {y : String} (hy : y ≠ x) (v : Value) : (s.bind f x v).lookup? g y = s.lookup? g y := by
  have hother (j : FrameId) : ¬ (f = j ∧ x = y) := fun e => hy e.2.symm
  rw [lookup?_eq_findSome?, lookup?_eq_findSome?, h.chain_bind hg]
  simp only [own?_bind (Array.getElem?_eq_getElem hf), hother, if_false]

/-- A declaration shows under its name, from the frames whose way outward meets the frame of the
declaration before any other one that binds the name. -/
theorem IsOrdered.lookup?_bind (h : s.IsOrdered) (hf : f < s.next) (hg : g < s.next) (x : String)
    (v : Value) (y : String) [Decidable (s.Walk (fun j => j == f || s.binds j x) g (some f))] :
    (s.bind f x v).lookup? g y =
      if y = x ∧ s.Walk (fun j => j == f || s.binds j x) g (some f) then some v
      else s.lookup? g y := by
  have hwalk := (h.chain hg).walk_iff (fun j => j == f || s.binds j x) (some f)
  have hown (j : FrameId) := own?_bind (Array.getElem?_eq_getElem hf) x v j x
  by_cases hy : y = x
  · subst hy
    rw [lookup?_eq_bind, h.resolve?_bind hf hg]
    by_cases hmeets : s.Walk (fun j => j == f || s.binds j y) g (some f)
    · rw [if_pos ⟨rfl, hmeets⟩, ← hwalk.mp hmeets, Option.bind_some, hown, if_pos ⟨rfl, rfl⟩]
    · have hne : (s.chain g).find? (fun j => j == f || s.binds j y) ≠ some f :=
        fun e => hmeets (hwalk.mpr e.symm)
      rw [if_neg fun e => hmeets e.2, lookup?_eq_bind, resolve?, ← find?_or_eq_of_ne hne]
      cases hj : (s.chain g).find? fun j => j == f || s.binds j y with
      | none => rfl
      | some j =>
        have hother : ¬ (f = j ∧ y = y) := fun e => hne (e.1 ▸ hj)
        rw [Option.bind_some, Option.bind_some, hown, if_neg hother]
  · rw [if_neg fun e => hy e.1, h.lookup?_bind_of_ne hf hg hy]

end Store

/-! ### Worlds that are built -/

namespace Store

variable {s : Store}

/-- Parents are older than their children, and closures refer to frames that are there. -/
def IsSound (s : Store) : Prop := s.IsLinked s.next

theorem IsLinked.isSound {base : FrameId} (h : s.IsLinked base) : s.IsSound :=
  ⟨Nat.le_refl _, h.ordered, h.refers.mono h.base_le⟩

theorem refersBelow_iff_forall_has {base : FrameId} :
    s.RefersBelow base ↔ ∀ c, s.Has c → c.RefersBelow base :=
  ⟨fun h c ⟨i, F, x, v, hget, hx, hc⟩ => h i F x v hget hx c hc,
    fun h i F x v hget hx c hc => h c ⟨i, F, x, v, hget, hx, hc⟩⟩

namespace IsSound

theorem start : ({} : Store).IsSound :=
  ⟨Nat.le_refl _, IsOrdered.of_frames (by decide), RefersBelow.of_frames nofun⟩

/-- A new frame is empty and has a frame behind it that is there, or none. -/
theorem append (h : s.IsSound) {F : Frame} (hbindings : F.bindings = [])
    (hparent : ∀ p, F.parent = some p → p < s.next) : (s.append F).IsSound := by
  have hlinked : (s.append F).IsLinked s.next :=
    { base_le := s.next_append F ▸ Nat.le_succ s.next
      ordered := IsOrdered.append h.ordered hparent
      refers := refersBelow_iff_forall_has.mpr
        (forall_has_append (refersBelow_iff_forall_has.mp h.refers) hbindings) }
  exact hlinked.isSound

theorem setOptions (h : s.IsSound) (i : FrameId) (o : Options) : (s.setOptions i o).IsSound := by
  have hlinked : (s.setOptions i o).IsLinked s.next :=
    { base_le := (s.next_setOptions i o).ge
      ordered := IsOrdered.change h.ordered (s.get?_setOptions i o) fun _ => rfl
      refers := refersBelow_iff_forall_has.mpr
        (forall_has_setOptions (refersBelow_iff_forall_has.mp h.refers) i o) }
  exact hlinked.isSound

theorem bind (h : s.IsSound) (i : FrameId) (x : String) {v : Value}
    (hv : v.HoldsOnly (Closure.RefersBelow s.next)) : (s.bind i x v).IsSound :=
  (IsLinked.bind h i x hv).isSound

theorem update (h : s.IsSound) (i : FrameId) (x : String) {v : Value}
    (hv : v.HoldsOnly (Closure.RefersBelow s.next)) : (s.update i x v).IsSound :=
  (IsLinked.update h i x hv).isSound

end IsSound
end Store

/-- The frames that a step names. -/
def Session.Step.frames : Session.Step → List FrameId
  | newFrame parent _ _ => parent.toList
  | createClosure _ _ frame | interpret _ _ frame _ | run _ _ _ _ frame => frame.toList
  | setOptions f _ | lookup f _ | declare f _ _ | assign f _ _ | declareFunction f _ _ _
  | execute _ _ _ f | evaluate _ _ f | call _ _ _ _ f => [f]
  | globalFrame _ => []

/-- The frames that a step names are there, and so are those which the closures refer to that it
passes on. -/
structure Session.Step.Fits (s : Session.Step) (t : Store) : Prop where
  frames : ∀ f ∈ s.frames, f < t.next
  values : ∀ v ∈ s.values, v.HoldsOnly (Closure.RefersBelow t.next)

/-- The worlds that are built by steps in any order, from nothing. Steps that halt are among them. -/
inductive World.IsBuilt : World → Prop
  | start : IsBuilt {}
  | step {w : World} (hw : IsBuilt w) {s : Session.Step} (hs : s.Fits w.store) :
      IsBuilt (s.perform.after w)

section Steps

variable {w : World}

theorem newFrame_isSound (hw : w.store.IsSound) (parent : Option FrameId)
    (hparent : ∀ p, parent = some p → p < w.store.next) (label : String) (o : Option Options) :
    Run.Ends (Run.newFrame parent label o w) (fun f v => v.store.IsSound ∧ f < v.store.next)
      fun v => v.store.IsSound := by
  rw [Run.newFrame_apply]
  refine ⟨hw.append rfl hparent, ?_⟩
  exact (w.store.next_append _).symm ▸ Nat.lt_succ_self _

theorem globalFrame_isSound (hw : w.store.IsSound) (o : Options) :
    Run.Ends (Run.globalFrame o w) (fun f v => v.store.IsSound ∧ f < v.store.next)
      fun v => v.store.IsSound := by
  unfold Run.globalFrame
  split
  · refine (newFrame_isSound hw none nofun "prelude" (some o)).bind fun behind v hv => ?_
    let P (u : World) : Prop := u.store.IsSound ∧ behind < u.store.next
    have hfilled : Run.Ends (Run.declareAll behind Prelude.bindings v) (fun _ => P) P :=
      Run.declareAll_ends (fun b hb u hu _ =>
        ⟨hu.1.bind behind b.1 (Prelude.holdsOnly_of_mem_bindings hb _),
          (u.store.next_bind behind b.1 b.2).symm ▸ hu.2⟩) hv
    refine (hfilled.mono id And.left).bind fun _ u hu => ?_
    refine newFrame_isSound hu.1 (some behind) (fun p hp => ?_) "global" (some o)
    cases hp
    exact hu.2
  · exact newFrame_isSound hw none nofun "global" (some o)

theorem prepareFrame_isSound (hw : w.store.IsSound) {frame : Option FrameId}
    (hframe : ∀ f, frame = some f → f < w.store.next) (o : Option Options) :
    Run.Ends (prepareFrame frame o w) (fun f v => v.store.IsSound ∧ f < v.store.next)
      fun v => v.store.IsSound := by
  match frame, o with
  | none, o => exact globalFrame_isSound hw _
  | some f, none => exact ⟨hw, hframe f rfl⟩
  | some f, some o => exact ⟨hw.setOptions f o, (w.store.next_setOptions f o).symm ▸ hframe f rfl⟩

theorem interpret_isSound (hw : w.store.IsSound) {frame : Option FrameId}
    (hframe : ∀ f, frame = some f → f < w.store.next) (passes : Nat) (program : Node)
    (o : Option Options) : ((interpret passes program frame o).after w).store.IsSound := by
  have hprepared := prepareFrame_isSound hw hframe o
  have hends : Run.Ends (interpret passes program frame o w) (fun _ v => v.store.IsSound)
      fun v => v.store.IsSound := by
    refine hprepared.bind fun f v hv => ?_
    -- the program may refer to all frames that are there once its own one is prepared
    have hkept := (linkage v.store.next).interpretIn_keeps passes
      (fun q (_ : q ∈ program.functions) => trivial) hv.2 hv.1
    exact (Run.ends_of_after hkept.1.isSound).mono And.right id
  exact hends.after

theorem run_isSound (hw : w.store.IsSound) {frame : Option FrameId}
    (hframe : ∀ f, frame = some f → f < w.store.next) (passes : Nat) (program : Node)
    (scoping : Scoping) (mathematics : Bool) :
    ((run passes program scoping mathematics frame).after w).store.IsSound := by
  rw [after_run]
  exact interpret_isSound (w := { w with issued := w.issued + 1 }) hw hframe passes program _

theorem callValue_isSound (hw : w.store.IsSound) (levels : Nat) (x : String) {callee : Value}
    (hcallee : callee.HoldsOnly (Closure.RefersBelow w.store.next)) {vs : List Value}
    (hvs : ∀ v ∈ vs, v.HoldsOnly (Closure.RefersBelow w.store.next)) {f : FrameId}
    (hf : f < w.store.next) : ((callValue (eval levels) x callee vs f).after w).store.IsSound := by
  cases callee with
  | closure k =>
    have hentered := (linkage w.store.next).enterCall_keeps hw hf (x := x)
      (hcallee k List.mem_cons_self) hvs
    have hbody := (hentered.mono id And.left).bind fun t v hv =>
      ((linkage w.store.next).eval_keeps levels k.body hv.1 hv.2.2).mono (fun h => h.2.1) And.left
    rw [callValue, callClosure_eq_enterCall]
    exact hbody.after.isSound
  | builtin b =>
    simp only [callValue, callBuiltin]
    split
    · exact hw
    · refine Run.after_bind (P := fun v => v.store.IsSound) ?_ fun _ _ _ hv => hv
      rw [Run.after_check]
      exact hw
  | number | boolean | array | foreign => exact hw

/-- A step that fits keeps a store sound, however it ends. -/
theorem Session.Step.Fits.isSound_after {s : Session.Step} (hs : s.Fits w.store)
    (hw : w.store.IsSound) : (s.perform.after w).store.IsSound := by
  obtain ⟨hframes, hvalues⟩ := hs
  have hnamed {frame : Option FrameId} (hsub : frame.toList ⊆ s.frames) (f : FrameId)
      (hf : frame = some f) : f < w.store.next :=
    hframes f (hsub (Option.mem_toList.mpr hf))
  cases s with
  | newFrame parent label o =>
    rw [perform, Run.after_reshape]
    exact ((newFrame_isSound hw parent (hnamed (List.Subset.refl _)) label o).mono And.left id).after
  | globalFrame o =>
    rw [perform, Run.after_reshape]
    exact ((globalFrame_isSound hw o).mono And.left id).after
  | setOptions f o => exact hw.setOptions f o
  | lookup f x =>
    rw [perform, Run.after_reshape, Run.after, Run.lookup_apply]
    cases w.store.lookup? f x <;> exact hw
  | declare f x v =>
    rw [perform, Run.after_reshape, Run.after, Run.declare_apply]
    by_cases hbinds : w.store.binds f x
    · rw [if_pos hbinds]
      exact hw
    · rw [if_neg hbinds]
      exact hw.bind f x (hvalues v List.mem_cons_self)
  | assign f x v =>
    rw [perform, Run.after_reshape, Run.after, Run.assign_apply]
    cases w.store.resolve? f x with
    | none => exact hw
    | some i => exact hw.update i x (hvalues v List.mem_cons_self)
  | declareFunction f x ps body =>
    rw [perform, Run.after_reshape, Run.after, Run.declareFunction_apply]
    by_cases hbinds : w.store.binds f x
    · rw [if_pos hbinds]
      exact hw
    · rw [if_neg hbinds]
      refine hw.bind f x fun c hc j hj => ?_
      rw [List.mem_singleton.mp hc] at hj
      cases hj
      exact hframes f List.mem_cons_self
  | createClosure ps body frame => exact hw
  | interpret passes program frame o =>
    rw [perform, Run.after_reshape]
    exact interpret_isSound hw (hnamed (List.Subset.refl _)) passes program o
  | run passes program scoping mathematics frame =>
    rw [perform, Run.after_reshape]
    exact run_isSound hw (hnamed (List.Subset.refl _)) passes program scoping mathematics
  | execute passes levels n f =>
    rw [perform, Run.after_reshape]
    have hkept := (linkage w.store.next).exec_keeps passes levels
      (fun q (_ : q ∈ n.functions) => trivial) (hframes f List.mem_cons_self) hw
    exact hkept.1.isSound
  | evaluate levels n f =>
    rw [perform, Run.after_reshape]
    have hkept := (linkage w.store.next).eval_keeps levels n hw (hframes f List.mem_cons_self)
    exact (hkept.mono (fun h => h.2.1) And.left).after.isSound
  | call levels x callee vs f =>
    rw [perform, Run.after_reshape]
    obtain ⟨hcallee, hvs⟩ := List.forall_mem_cons.mp hvalues
    exact callValue_isSound hw levels x hcallee hvs (hframes f List.mem_cons_self)

end Steps

/-- In every world that is built, parents are older than their children, and closures refer to frames
that are there. -/
theorem World.IsBuilt.isSound {w : World} (hw : w.IsBuilt) : w.store.IsSound := by
  induction hw with
  | start => exact .start
  | step _ hs ih => exact hs.isSound_after ih

/-! ### Reading and writing -/

section Writes

variable {w u : World} {f g : FrameId} {x y : String} {v : Value}

theorem lookup_eq_error_of_resolve? (h : w.store.resolve? f x = none) :
    Run.lookup f x w = .error (.error { cause := .notDeclared x }) w := by
  rw [Run.lookup_apply, Store.lookup?_eq_bind, h, Option.bind_none]

theorem assign_eq_error_of_resolve? (h : w.store.resolve? f x = none) (v : Value) :
    Run.assign f x v w = .error (.error { cause := .notDeclared x }) w := by
  rw [Run.assign_apply, h]

/-- A name that can be read can be written, and no other one can. -/
theorem assign_ok_iff_lookup_ok :
    (∃ u, Run.assign f x v w = .ok () u) ↔ ∃ a, Run.lookup f x w = .ok a w := by
  cases hresolve : w.store.resolve? f x with
  | none => simp [lookup_eq_error_of_resolve? hresolve, assign_eq_error_of_resolve? hresolve]
  | some i =>
    have hsome : (w.store.lookup? f x).isSome := by
      rw [Store.isSome_lookup?, hresolve, Option.isSome_some]
    obtain ⟨a, ha⟩ := Option.isSome_iff_exists.mp hsome
    rw [Run.assign_apply, hresolve]
    exact ⟨fun _ => ⟨a, Run.lookup_eq_ok_iff.mpr ⟨ha, rfl⟩⟩, fun _ => ⟨_, rfl⟩⟩

/-- What a successful assignment leaves behind. -/
theorem exists_of_assign_eq_ok (h : Run.assign f x v w = .ok () u) :
    ∃ i, w.store.resolve? f x = some i ∧ u.store = w.store.update i x v := by
  rw [Run.assign_apply] at h
  cases hresolve : w.store.resolve? f x with
  | none =>
    rw [hresolve] at h
    cases h
  | some i =>
    rw [hresolve] at h
    cases h
    exact ⟨i, rfl, rfl⟩

/-- What a successful declaration leaves behind. -/
theorem store_of_declare_eq_ok (h : Run.declare f x v w = .ok () u) :
    u.store = w.store.bind f x v := by
  rw [Run.declare_apply] at h
  split at h
  · cases h
  · cases h
    rfl

/-- What a lookup gives depends on the value of the name alone. -/
theorem lookup_outcome_congr (h : u.store.lookup? g y = w.store.lookup? g y) :
    (Run.lookup g y).outcome u = (Run.lookup g y).outcome w := by
  rw [Run.outcome, Run.outcome, Run.lookup_apply, Run.lookup_apply, h]
  cases w.store.lookup? g y <;> rfl

end Writes

/-- **Frame resolution.** Take any world that is built by any steps. No frame lies behind itself. From
every frame the walk outward ends in one way, at the first frame that binds a name or at the root, and
these are the frames which the model finds; a name has the value that the frame has for it to which it
resolves.

A name can be assigned if and only if it can be looked up, and otherwise both say that it is unbound
and nothing changes. After an assignment that succeeds, the new value shows under its name from the
frames which resolved the name to the same frame, and after a declaration that succeeds, it shows from
the frames whose walk outward reaches the frame of the declaration before any other one that binds the
name. From all other frames and under all other names, a lookup gives what it gave before. -/
theorem frame_resolution (w : World) (hw : w.IsBuilt) :
    (∀ i, ¬ w.store.Behind i i) ∧
      (∀ g < w.store.next,
        (∀ x r, w.store.Walk (w.store.binds · x) g r ↔ r = w.store.resolve? g x) ∧
        (∀ r, w.store.Walk (fun i => (w.store.parent? i).isNone) g r ↔
          r = some (w.store.root g)) ∧
        ∀ x a, Run.lookup g x w = .ok a w ↔
          ∃ i, w.store.resolve? g x = some i ∧ w.store.own? i x = some a) ∧
      ∀ f < w.store.next, ∀ x v,
        ((∃ u, Run.assign f x v w = .ok () u) ↔ ∃ a, Run.lookup f x w = .ok a w) ∧
        ((¬ ∃ a, Run.lookup f x w = .ok a w) →
          Run.lookup f x w = .error (.error { cause := .notDeclared x }) w ∧
            Run.assign f x v w = .error (.error { cause := .notDeclared x }) w) ∧
        (∀ u, Run.assign f x v w = .ok () u → ∀ g < w.store.next, ∀ y,
          (y = x ∧ w.store.resolve? g x = w.store.resolve? f x → Run.lookup g y u = .ok v u) ∧
          (¬ (y = x ∧ w.store.resolve? g x = w.store.resolve? f x) →
            (Run.lookup g y).outcome u = (Run.lookup g y).outcome w)) ∧
        ∀ u, Run.declare f x v w = .ok () u → ∀ g < w.store.next, ∀ y,
          (y = x ∧ w.store.Walk (fun i => i == f || w.store.binds i x) g (some f) →
            Run.lookup g y u = .ok v u) ∧
          (¬ (y = x ∧ w.store.Walk (fun i => i == f || w.store.binds i x) g (some f)) →
            (Run.lookup g y).outcome u = (Run.lookup g y).outcome w) := by
  classical
  have hordered : w.store.IsOrdered := hw.isSound.ordered
  refine ⟨hordered.not_behind_self, fun g hg => ⟨fun x r => ?_, fun r => ?_, fun x a => ?_⟩,
    fun f hf x v => ⟨assign_ok_iff_lookup_ok, fun hnone => ?_, fun u hu g hg y => ?_,
      fun u hu g hg y => ?_⟩⟩
  · exact (hordered.chain hg).walk_iff _ r
  · exact (hordered.chain hg).walk_root_iff
  · rw [Run.lookup_eq_ok_iff, Store.lookup?_eq_bind, Option.bind_eq_some_iff]
    exact and_iff_left rfl
  · have hresolve : w.store.resolve? f x = none := by
      by_contra hsome
      obtain ⟨i, hi⟩ := Option.ne_none_iff_exists'.mp hsome
      rw [← assign_ok_iff_lookup_ok (v := v), Run.assign_apply, hi] at hnone
      exact hnone ⟨_, rfl⟩
    exact ⟨lookup_eq_error_of_resolve? hresolve, assign_eq_error_of_resolve? hresolve v⟩
  · obtain ⟨i, hi, hstore⟩ := exists_of_assign_eq_ok hu
    have hlookup : u.store.lookup? g y = _ := hstore ▸ hordered.lookup?_update hg hi v y
    refine ⟨fun hshows => ?_, fun hhidden => ?_⟩
    · rw [if_pos hshows] at hlookup
      exact Run.lookup_eq_ok_iff.mpr ⟨hlookup, rfl⟩
    · rw [if_neg hhidden] at hlookup
      exact lookup_outcome_congr hlookup
  · have hlookup : u.store.lookup? g y = _ :=
      store_of_declare_eq_ok hu ▸ hordered.lookup?_bind hf hg x v y
    refine ⟨fun hshows => ?_, fun hhidden => ?_⟩
    · rw [if_pos hshows] at hlookup
      exact Run.lookup_eq_ok_iff.mpr ⟨hlookup, rfl⟩
    · rw [if_neg hhidden] at hlookup
      exact lookup_outcome_congr hlookup

/-- The declaration of a function and a call of it, which binds its parameter under flat scoping. -/
def bindingProgram : Node :=
  .program (.block
    [.function (.name "f") [.name "y"] (.name "y"),
      .declaration (.name "z") (.call (.name "f") [.boolean true])])

/-- Three frames, one in front of the other, under flat scoping. The outermost and the innermost one
bind the same name, and a program has run in the one between. -/
def shadowingFrames : World :=
  [.globalFrame { scoping := .flat }, .declare 0 "x" (.boolean true),
    .newFrame (some 0) "middle" none, .newFrame (some 1) "inner" none,
    .declare 2 "x" (.boolean false),
    .interpret 1 bindingProgram (some 1) none].foldl
      (fun w (s : Session.Step) => s.perform.after w) {}

theorem shadowingFrames_isBuilt : shadowingFrames.IsBuilt := by
  have hplain (b : Bool) (P : Closure → Prop) : ∀ v ∈ [Value.boolean b], v.HoldsOnly P :=
    List.forall_mem_singleton.mpr (List.forall_mem_nil _)
  have hglobal := World.IsBuilt.start.step (s := .globalFrame { scoping := .flat }) ⟨nofun, nofun⟩
  have houter := hglobal.step (s := .declare 0 "x" (.boolean true)) ⟨by decide, hplain true _⟩
  have hmiddle := houter.step (s := .newFrame (some 0) "middle" none) ⟨by decide, nofun⟩
  have hinner := hmiddle.step (s := .newFrame (some 1) "inner" none) ⟨by decide, nofun⟩
  have hshadow := hinner.step (s := .declare 2 "x" (.boolean false)) ⟨by decide, hplain false _⟩
  exact hshadow.step (s := .interpret 1 bindingProgram (some 1) none) ⟨by decide, nofun⟩

/-- An assignment from the middle frame shows in the outermost one, and not in the innermost one. A
declaration in the middle frame shows there, and not in the outermost one. -/
theorem frame_resolution_of_shadowingFrames :
    shadowingFrames.IsBuilt ∧
      shadowingFrames.store.lookup? 2 "y" = some (.boolean true) ∧
      (∃ u, Run.assign 1 "x" (.array []) shadowingFrames = .ok () u ∧
        Run.lookup 0 "x" u = .ok (.array []) u ∧
        (Run.lookup 2 "x").outcome u = .ok (.boolean false)) ∧
      ∃ u, Run.declare 1 "x" (.array []) shadowingFrames = .ok () u ∧
        Run.lookup 1 "x" u = .ok (.array []) u ∧
        (Run.lookup 0 "x").outcome u = .ok (.boolean true) := by
  obtain ⟨-, -, hwrites⟩ := frame_resolution shadowingFrames shadowingFrames_isBuilt
  obtain ⟨-, -, hassign, hdeclare⟩ := hwrites 1 (by decide) "x" (.array [])
  refine ⟨shadowingFrames_isBuilt, rfl, ⟨_, rfl, ?_, ?_⟩, _, rfl, ?_, ?_⟩
  · exact (hassign _ rfl 0 (by decide) "x").1 ⟨rfl, rfl⟩
  · exact (hassign _ rfl 2 (by decide) "x").2 (by decide)
  · exact (hdeclare _ rfl 1 (by decide) "x").1 ⟨rfl, .found rfl⟩
  · refine (hdeclare _ rfl 0 (by decide) "x").2 fun hshows => ?_
    -- the outermost frame binds the name itself, so the walk stops there
    have hstops := (Store.walk_of_stop rfl).mp hshows.2
    cases hstops

end Bella
