import Bella.Proofs.Footprint
import Bella.Proofs.Reordering

/-!
# Frames stay linked

A frame is made after its parent, and a closure remembers a frame that is there. So chains of frames
end, and a call finds the frame in which its closure was declared. Every expression and every
statement keeps that, under either policy of scoping and however it ends: under flat scoping a call
fills a frame that is there, and under lexical scoping it makes one behind which such a frame lies.

In a closed world no frame asks for flat scoping, besides. A closed world stays closed.

## Main definitions

* `Bella.Store.IsLinked`: parents are older than their children, and closures refer to frames that are
  there.
* `Bella.linkage`: the invariant of programs that says so.

## Main results

* `Bella.Store.IsLinked.append_call`, `Bella.enterCall_isLinked`: entering a closure.
* `Bella.World.IsClosed.eval_ok`, `Bella.World.IsClosed.exec_ok`: a closed world stays closed.
-/

namespace Bella

namespace Store

variable {s t : Store}

/-- One frame is changed and keeps its parent. -/
theorem IsOrdered.change (h : s.IsOrdered) {j : FrameId} {g : Frame → Frame}
    (ht : ∀ i, t.get? i = if j = i then (s.get? i).map g else s.get? i)
    (hparent : ∀ F, (g F).parent = F.parent) : t.IsOrdered := by
  intro i G p hget hp
  rw [ht] at hget
  split at hget
  · obtain ⟨F, hF, rfl⟩ := Option.map_eq_some_iff.mp hget
    rw [hparent] at hp
    exact h hF hp
  · exact h hget hp

/-- A new frame may have any frame behind it that is there. -/
theorem IsOrdered.append (h : s.IsOrdered) {F : Frame}
    (hparent : ∀ p, F.parent = some p → p < s.next) : (s.append F).IsOrdered := by
  intro i G p hget hp
  rw [get?_append] at hget
  split at hget
  · rename_i hnew
    cases hget
    exact hnew ▸ hparent p hp
  · exact h hget hp

/-- Parents are older than their children, and the closures in all frames were declared in frames
before `base`, all of which are there, or know no frame. -/
structure IsLinked (base : FrameId) (s : Store) : Prop where
  base_le : base ≤ s.next
  ordered : s.IsOrdered
  refers : s.RefersBelow base

namespace IsLinked

variable {base : FrameId} {f : FrameId} {k : Closure}

/-- The frame in which a closure was declared is there, seen from a frame that is there. -/
theorem home_lt (h : s.IsLinked base) (hf : f < s.next) (hk : k.RefersBelow base) :
    k.home s f < s.next :=
  (hk.mono h.base_le).home_lt h.ordered hf

theorem holdsOnly_of_lookup? (h : s.IsLinked base) {x : String} {v : Value}
    (hx : s.lookup? f x = some v) : v.HoldsOnly (Closure.RefersBelow base) := by
  obtain ⟨i, F, -, hget, hv⟩ := exists_of_lookup? hx
  exact h.refers i F x v hget hv

theorem bind (h : s.IsLinked base) (i : FrameId) (x : String) {v : Value}
    (hv : v.HoldsOnly (Closure.RefersBelow base)) : (s.bind i x v).IsLinked base where
  base_le := s.next_bind i x v ▸ h.base_le
  ordered := IsOrdered.change h.ordered (s.get?_bind i x v) fun _ => rfl
  refers := Confinement.below_holds_iff.mp ((Confinement.below_holds_iff.mpr h.refers).bind i x hv)

theorem update (h : s.IsLinked base) (i : FrameId) (x : String) {v : Value}
    (hv : v.HoldsOnly (Closure.RefersBelow base)) : (s.update i x v).IsLinked base where
  base_le := s.next_update i x v ▸ h.base_le
  ordered := IsOrdered.change h.ordered (s.get?_update i x v) fun _ => rfl
  refers :=
    Confinement.below_holds_iff.mp ((Confinement.below_holds_iff.mpr h.refers).update i x hv)

/-- The frame of a call stands in front of a frame that is there. -/
theorem append_call (h : s.IsLinked base) (hf : f < s.next) (hk : k.RefersBelow base)
    (name : String) : (s.append (Frame.ofCall s (k.home s f) name)).IsLinked base where
  base_le := Nat.le_trans h.base_le (s.next_append _ ▸ Nat.le_succ s.next)
  ordered := by
    refine IsOrdered.append h.ordered fun p hp => ?_
    cases hp
    exact h.home_lt hf hk
  refers := Confinement.below_holds_iff.mp
    ((Confinement.below_holds_iff.mpr h.refers).append_call (f := f) hk name)

end IsLinked
end Store

section Calls

variable {base : FrameId} {x : String} {k : Closure} {vs : List Value} {f : FrameId} {w : World}

/-- The body of a closure is evaluated in a frame that is there. -/
theorem lt_next_of_enterCall (hhome : k.home w.store f < w.store.next) {t : FrameId} {v : World}
    (hentered : enterCall x k vs f w = .ok t v) : t < v.store.next := by
  by_cases hlength : vs.length = k.parameters.length
  · cases hscoping : (w.store.options f).scoping with
    | flat =>
      have hD : w.store.get? (k.home w.store f) = some w.store.frames[k.home w.store f] :=
        Array.getElem?_eq_getElem hhome
      rw [enterCall_flat hlength hscoping rfl hD] at hentered
      split at hentered
      · cases hentered
      · cases hentered
        simpa [World.noted, World.replace, Store.replace, Store.next] using hhome
    | lexical =>
      rw [enterCall_lexical hlength hscoping rfl] at hentered
      split at hentered
      · cases hentered
      · cases hentered
        exact (w.store.next_append _).symm ▸ Nat.lt_succ_self _
  · rw [enterCall_of_length_ne hlength] at hentered
    cases hentered

/-- Entering a closure keeps the links, however it ends. -/
theorem enterCall_isLinked (hw : w.store.IsLinked base) (hf : f < w.store.next)
    (hk : k.RefersBelow base) (hvs : ∀ v ∈ vs, v.HoldsOnly (Closure.RefersBelow base)) :
    Run.Ends (enterCall x k vs f w)
      (fun t v => v.store.IsLinked base ∧ w.store.next ≤ v.store.next ∧ t < v.store.next)
      fun v => v.store.IsLinked base ∧ w.store.next ≤ v.store.next := by
  have hends : Run.Ends (enterCall x k vs f w) _
      (fun v => v.store.IsLinked base ∧ w.store.next ≤ v.store.next) :=
    enterCall_ends ⟨hw, Nat.le_refl _⟩
      ⟨hw.append_call hf hk x, w.store.next_append _ ▸ Nat.le_succ _⟩
      (fun i _ b hb v hv _ => ⟨hv.1.bind i b.1 (hvs b.2 (List.of_mem_zip hb).2),
        (v.store.next_bind i b.1 b.2).symm ▸ hv.2⟩) fun _ _ hv => hv
  cases hentered : enterCall x k vs f w with
  | error h v =>
    rw [hentered] at hends
    exact hends
  | ok t v =>
    rw [hentered] at hends
    exact ⟨hends.1.1, hends.1.2, lt_next_of_enterCall (hw.home_lt hf hk) hentered⟩

end Calls

/-- The links that every program keeps which acts on a frame before `base`. -/
def linkage (base : FrameId) : ProgramInvariant where
  holds w := w.store.IsLinked base
  scope f w := f < w.store.next
  closures := Closure.RefersBelow base
  grows w v := w.store.next ≤ v.store.next
  grows_refl _ := Nat.le_refl _
  grows_trans := Nat.le_trans
  scope_grows := Nat.lt_of_lt_of_le
  lookup hw _ hx := hw.holdsOnly_of_lookup? hx
  enter := by
    rintro x k vs f w hw hf hk hvs -
    exact enterCall_isLinked hw hf hk hvs
  top f := f < base
  functions _ _ := True
  changes w v := w.store.next ≤ v.store.next
  changes_refl _ := Nat.le_refl _
  changes_trans := Nat.le_trans
  changes_of_grows h := h
  scope_top hf hw := Nat.lt_of_lt_of_le hf hw.base_le
  start := by
    rintro f w v - hw rfl
    exact ⟨hw, Nat.le_refl _⟩
  finish := by
    rintro done w v hw rfl
    exact ⟨hw, Nat.le_refl _⟩
  declare := by
    rintro f x a w v - hw ha - rfl
    exact ⟨hw.bind f x ha, (w.store.next_bind f x a).ge⟩
  declareFunction := by
    rintro f x ps body k w v hf hw - - rfl rfl
    refine ⟨hw.bind f x fun c hc => ?_, (w.store.next_bind f x _).ge⟩
    rw [List.mem_singleton.mp hc]
    rintro j ⟨⟩
    exact hf
  assign := by
    rintro f x i a w v - hw ha - rfl
    exact ⟨hw.update i x ha, (w.store.next_update i x a).ge⟩
  print := by
    rintro f line w v - hw rfl
    exact ⟨hw, Nat.le_refl _⟩

/-! ### Closed worlds -/

namespace World.IsClosed

variable {w v : World} {f : FrameId} {n : Node} {levels : Nat}

theorem isLinked (h : w.IsClosed) : w.store.IsLinked w.store.next :=
  ⟨Nat.le_refl _, h.ordered, h.refers⟩

/-- An expression leaves a closed world behind. -/
theorem eval_ok (h : w.IsClosed) (hf : f < w.store.next) {a : Value}
    (heval : eval levels n f w = .ok a v) : v.IsClosed ∧ w.store.next ≤ v.store.next := by
  have hlexical := (h.lexical.eval levels n f).2
  rw [Run.after, heval] at hlexical
  obtain ⟨-, hlinked, hle⟩ := (linkage w.store.next).eval_ok h.isLinked hf heval
  exact ⟨⟨hlexical, hlinked.ordered, hlinked.refers.mono hle⟩, hle⟩

/-- A statement leaves a closed world behind. -/
theorem exec_ok (h : w.IsClosed) (hf : f < w.store.next) {passes : Nat}
    (hexec : exec passes levels n f w = .ok () v) :
    v.IsClosed ∧ w.store.next ≤ v.store.next := by
  obtain ⟨⟨hlexical, -⟩, -⟩ := (footprintInvariant f (w.store.chain f)).exec_ok
    ⟨h.lexical, h.chain hf⟩ rfl (fun q (_ : q ∈ n.functions) => trivial) hexec
  obtain ⟨hlinked, hle⟩ := (linkage w.store.next).exec_ok h.isLinked hf
    (fun q (_ : q ∈ n.functions) => trivial) hexec
  exact ⟨⟨hlexical, hlinked.ordered, hlinked.refers.mono hle⟩, hle⟩

end World.IsClosed
end Bella
