import Bella.Proofs.Confinement
import Mathlib.Data.List.OfFn

/-!
# The order of evaluation does not show under lexical scoping

Under lexical scoping an expression leaves frames of calls behind and nothing else. Expressions that
are evaluated later find these frames in the store, but no name and no closure leads to them, so they
cannot tell whether the earlier ones were evaluated. An expression therefore has the same value, or
halts in the same way, whether it is evaluated at once or after others.

This is a statement about two runs that stand in different worlds. What they have in common is an
older world, which both extend: a name is looked up in the frame of a call, which is the same on both
sides but for its address, and then in frames of the older world.

The elements of an array have fewer levels than the array, and fewer than they would have alone.
Unless levels run out, that makes no difference either. So the elements of an array can be evaluated
in any order, or each one by itself.

## Main definitions

* `Bella.World.IsClosed`: no frame asks for flat scoping, and frames and closures refer to frames
  that are there.
* `Bella.World.SameScope`: frames of two worlds in which names have the same meaning.
* `Bella.replay`: the simulation of two evaluations in worlds that extend the same world.

## Main results

* `Bella.World.IsClosed.outcome_eq`: an expression ends alike in a world and in what extends it.
* `Bella.World.IsClosed.outcome_eq_or_overflow`: more levels do not change how it ends.
* `Bella.outcome_array_of_alone`: an array has the values that its elements have alone.
* `Bella.eval_array_permuted`: the elements of an array can be evaluated in any order.
-/

namespace Bella

namespace World

/-- No frame of the world asks for flat scoping, parents are older than their children, and closures
refer to frames that are there. -/
structure IsClosed (w : World) : Prop where
  lexical : w.IsLexical
  ordered : w.store.IsOrdered
  refers : w.store.RefersBelow w.store.next

theorem IsClosed.chain {w : World} (h : w.IsClosed) {f : FrameId} (hf : f < w.store.next) :
    w.store.Chain f (w.store.chain f) := by
  have hordered : w.store.IsOrdered := h.ordered
  exact hordered.chain hf

/-- The frames `f` and `f'` of the worlds `w` and `w'`, which extend `w₀`, are the same frame of
`w₀`, or frames of calls with the same bindings in front of the same frame of `w₀`. -/
inductive SameScope (w₀ w w' : World) : FrameId → FrameId → Prop
  | old {f : FrameId} (hf : f < w₀.store.next) : SameScope w₀ w w' f f
  | call {f f' p : FrameId} {F : Frame} (hget : w.store.get? f = some F)
      (hget' : w'.store.get? f' = some F) (hparent : F.parent = some p) (hp : p < w₀.store.next)
      (holder : p < f) (holder' : p < f')
      (hvalues : ∀ x v, F.get? x = some v →
        v.HoldsOnly (Closure.RefersBelow w₀.store.next)) :
      SameScope w₀ w w' f f'

namespace SameScope

variable {w₀ w w' v v' : World} {f f' : FrameId}

theorem kept (h : SameScope w₀ w w' f f') (hv : w.Extends v) (hv' : w'.Extends v') :
    SameScope w₀ v v' f f' := by
  cases h with
  | old hf => exact .old hf
  | call hget hget' hparent hp holder holder' hvalues =>
    exact .call (hv.frames hget) (hv'.frames hget') hparent hp holder holder' hvalues

variable (hclosed : w₀.IsClosed) (hw : w₀.Extends w) (hw' : w₀.Extends w')
include hclosed hw hw'

/-- Names have the same meaning on both sides. -/
theorem lookup?_eq (h : SameScope w₀ w w' f f') (x : String) :
    w.store.lookup? f x = w'.store.lookup? f' x := by
  cases h with
  | old hf =>
    have hchain := hclosed.chain hf
    rw [hw.lookup?_eq hchain, hw'.lookup?_eq hchain]
  | call hget hget' hparent hp holder holder' =>
    have hchain := hclosed.chain hp
    rw [Store.Chain.lookup?_eq hget hparent holder (hw.chain hchain),
      Store.Chain.lookup?_eq hget' hparent holder' (hw'.chain hchain), hw.lookup?_eq hchain,
      hw'.lookup?_eq hchain]

omit hw' in
/-- Values refer to the older world. -/
theorem holdsOnly_of_lookup? (h : SameScope w₀ w w' f f') {x : String} {a : Value}
    (hx : w.store.lookup? f x = some a) : a.HoldsOnly (Closure.RefersBelow w₀.store.next) := by
  have hold {g : FrameId} (ha : w₀.store.lookup? g x = some a) :
      a.HoldsOnly (Closure.RefersBelow w₀.store.next) := by
    obtain ⟨i, F, -, hget, hF⟩ := Store.exists_of_lookup? ha
    exact hclosed.refers i F x a hget hF
  cases h with
  | old hf =>
    rw [hw.lookup?_eq (hclosed.chain hf)] at hx
    exact hold hx
  | call hget _ hparent hp holder _ hvalues =>
    have hchain := hclosed.chain hp
    rw [Store.Chain.lookup?_eq hget hparent holder (hw.chain hchain), hw.lookup?_eq hchain] at hx
    obtain hlocal | ⟨-, houter⟩ := Option.or_eq_some_iff.mp hx
    · exact hvalues x a hlocal
    · exact hold houter

/-- The outermost frame is the same on both sides, and is one of the older world. -/
theorem root_eq (h : SameScope w₀ w w' f f') :
    w.store.root f = w'.store.root f' ∧ w.store.root f < w₀.store.next := by
  have hold {g : FrameId} (hg : g < w₀.store.next) :
      w.store.root g = w'.store.root g ∧ w.store.root g < w₀.store.next := by
    have hchain := hclosed.chain hg
    rw [hw.root_eq hchain, hw'.root_eq hchain]
    exact ⟨rfl, Nat.lt_of_le_of_lt (hchain.le_of_mem hchain.root_mem) hg⟩
  cases h with
  | old hf => exact hold hf
  | call hget hget' hparent hp holder holder' =>
    have hchain := hclosed.chain hp
    rw [Store.Chain.root_eq hget hparent holder (hw.chain hchain),
      Store.Chain.root_eq hget' hparent holder' (hw'.chain hchain)]
    exact hold hp

/-- A closure was declared in the same frame, seen from either side, which is one of the older
world. -/
theorem home_eq (h : SameScope w₀ w w' f f') {k : Closure}
    (hk : k.RefersBelow w₀.store.next) :
    k.home w.store f = k.home w'.store f' ∧ k.home w.store f < w₀.store.next := by
  unfold Closure.home
  cases hframe : k.frame with
  | none => exact h.root_eq hclosed hw hw'
  | some j => exact ⟨rfl, hk j hframe⟩

end SameScope
end World

/-! ### Two evaluations side by side -/

/-- Two evaluations in worlds that extend `w₀`. If `spare` holds, the first one is excused if it runs
out of levels. -/
def replaySetting (w₀ : World) (spare : Prop) : Setting where
  worlds w w' := (w₀.Extends w ∧ w.IsLexical) ∧ w₀.Extends w' ∧ w'.IsLexical
  grows w w' v v' := w.Extends v ∧ w'.Extends v'
  halts := Eq
  excused h := spare ∧ h = .overflow
  grows_refl := World.Extends.refl_both
  grows_trans := @World.Extends.trans_both
  comparison := Halt.isComparison_eq
  Context := Unit
  closures k k' := k = k' ∧ k.RefersBelow w₀.store.next
  nodes _ := Eq
  names _ := Eq
  scope _ f f' w w' := w₀.SameScope w w' f f'

section Replay

variable {w₀ w w' : World} {spare : Prop} {f f' : FrameId}

private theorem replay_lookup (hclosed : w₀.IsClosed) (hf : w₀.SameScope w w' f f')
    (hworlds : (replaySetting w₀ spare).worlds w w') (x : String) :
    (replaySetting w₀ spare).Agrees (replaySetting w₀ spare).values (Run.lookup f x)
      (Run.lookup f' x) w w' := by
  unfold Coupling.Agrees
  rw [Run.lookup_apply, Run.lookup_apply, ← hf.lookup?_eq hclosed hworlds.1.1 hworlds.2.1]
  cases hx : w.store.lookup? f x with
  | none => exact .error rfl hworlds ⟨.refl w, .refl w'⟩
  | some a =>
    have ha := hf.holdsOnly_of_lookup? hclosed hworlds.1.1 hx
    exact .ok ha.related hworlds ⟨.refl w, .refl w'⟩

/-- The frame of a call of the closure, before its parameters are bound, is the same on both
sides. -/
private theorem ofCall_eq (hw : w₀.Extends w) {home : FrameId} (hhome : home < w₀.store.next)
    (name : String) : Frame.ofCall w.store home name = Frame.ofCall w₀.store home name := by
  have hget : w₀.store.get? home = some (w₀.store.frames[home]) := Array.getElem?_eq_getElem hhome
  simp only [Frame.ofCall, Store.options?, hget, hw.frames hget]

/-- The frames of two calls of one closure with the same arguments look alike. -/
private theorem sameScope_of_call (hw : w₀.Extends w) (hw' : w₀.Extends w') {home : FrameId}
    (hhome : home < w₀.store.next) (name : String) (ps : List String) {vs : List Value}
    (hvs : ∀ v ∈ vs, v.HoldsOnly (Closure.RefersBelow w₀.store.next)) {F : Frame}
    (hF : F = ((Frame.ofCall w₀.store home name).bindAll (ps.zip vs)).1) {r r' : Record} :
    w₀.SameScope ((w.append F).noted r) ((w'.append F).noted r') w.store.next w'.store.next := by
  have hget : w₀.store.get? home = some (w₀.store.frames[home]) := Array.getElem?_eq_getElem hhome
  have hparent : F.parent = some home := by
    rw [hF]
    exact (Frame.bindAll_shape _ _).1
  refine .call ((Store.get?_append _ _ _).trans (if_pos rfl))
    ((Store.get?_append _ _ _).trans (if_pos rfl)) hparent hhome
    (Store.lt_next_of_get? (hw.frames hget)) (Store.lt_next_of_get? (hw'.frames hget))
    fun x v hx => ?_
  rw [hF] at hx
  obtain hbefore | hmem := Frame.mem_of_get?_bindAll hx
  · cases hbefore
  · exact hvs v (List.of_mem_zip hmem).2

private theorem replay_call (hclosed : w₀.IsClosed) {eval eval' : Evaluator}
    (heval : (replaySetting w₀ spare).Evaluates eval eval') {x : String} {k : Closure}
    (hk : k.RefersBelow w₀.store.next) {vs : List Value}
    (hvs : ∀ v ∈ vs, v.HoldsOnly (Closure.RefersBelow w₀.store.next))
    (hf : w₀.SameScope w w' f f') (hworlds : (replaySetting w₀ spare).worlds w w') :
    (replaySetting w₀ spare).Agrees (replaySetting w₀ spare).values (callClosure eval x k vs f)
      (callClosure eval' x k vs f') w w' := by
  obtain ⟨⟨hw, hlexical⟩, hw', hlexical'⟩ := id hworlds
  by_cases hlength : vs.length = k.parameters.length
  · obtain ⟨hhome, hlt⟩ := hf.home_eq hclosed hw hw' hk
    let E := Frame.ofCall w₀.store (k.home w.store f) x
    have hE : Frame.ofCall w.store (k.home w.store f) x = E := ofCall_eq hw hlt x
    have hE' : Frame.ofCall w'.store (k.home w'.store f') x = E := by
      rw [← hhome]
      exact ofCall_eq hw' hlt x
    let F := (E.bindAll (k.parameters.zip vs)).1
    have hF : (w.append F).IsLexical := by
      have hcall := hlexical.append_call (k.home w.store f) x (k.parameters.zip vs)
      rw [hE] at hcall
      exact hcall
    have hF' : (w'.append F).IsLexical := by
      have hcall := hlexical'.append_call (k.home w'.store f') x (k.parameters.zip vs)
      rw [hE'] at hcall
      exact hcall
    have hgrows := World.Extends.append w F
    have hgrows' := World.Extends.append w' F
    unfold Coupling.Agrees
    rw [callClosure_lexical hlength (hlexical.scoping_eq f) hE,
      callClosure_lexical hlength (hlexical'.scoping_eq f') hE']
    cases (E.bindAll (k.parameters.zip vs)).2 with
    | some y => exact .error rfl ⟨⟨hw.trans hgrows, hF⟩, hw'.trans hgrows', hF'⟩ ⟨hgrows, hgrows'⟩
    | none =>
      have hnoted := hgrows.trans (.noted _ (.called x k.parameters .lexical))
      have hnoted' := hgrows'.trans (.noted _ (.called x k.parameters .lexical))
      have hbody : w₀.SameScope ((w.append F).noted (.called x k.parameters .lexical))
          ((w'.append F).noted (.called x k.parameters .lexical)) w.store.next w'.store.next :=
        sameScope_of_call hw hw' hlt x k.parameters hvs rfl
      exact (heval (c := ()) rfl hbody ⟨⟨hw.trans hnoted, hF.noted _⟩, hw'.trans hnoted',
        hF'.noted _⟩).trans ⟨hnoted, hnoted'⟩
  · rw [callClosure_of_length_ne hlength, callClosure_of_length_ne hlength]
    exact .fail rfl hworlds

/-- The simulation of two evaluations in worlds that extend the same world. -/
def replay (hclosed : w₀.IsClosed) (spare : Prop) : Simulation where
  toSetting := replaySetting w₀ spare
  shape := by
    rintro _ n _ rfl
    exact .refl (fun _ => rfl) (fun _ => rfl) (fun _ => rfl) n
  closures_id h := congrArg Closure.id h.1
  halts_locate := by
    rintro _ n _ h _ rfl rfl
    rfl
  excused_overflow h := ⟨h.1, rfl⟩
  excused_locate := by
    rintro _ p ⟨hspare, rfl⟩
    exact ⟨hspare, rfl⟩
  halts_notCallable := by
    rintro _ x _ kind rfl
    rfl
  scope_grows h hgrows := h.kept hgrows.1 hgrows.2
  lookup := by
    rintro _ x _ f f' w w' rfl hf hworlds
    exact replay_lookup hclosed hf hworlds x
  call := by
    rintro eval eval' _ x _ k _ vs vs' f f' w w' heval rfl ⟨rfl, hk⟩ hvs hf hworlds
    obtain ⟨rfl, hholds⟩ := Value.Related.forall₂_holdsOnly hvs
    exact replay_call hclosed heval hk hholds hf hworlds

end Replay

namespace World.IsClosed

variable {w v : World} {f : FrameId}

private theorem replay_agrees (hclosed : w.IsClosed) (spare : Prop) (hf : f < w.store.next)
    (hv : w.Extends v) (hlexical : v.IsLexical) {levels levels' : Nat}
    (hlevels : levels = levels' ∨ spare ∧ levels ≤ levels') (n : Node) :
    (replaySetting w spare).Agrees (replaySetting w spare).values (eval levels n f)
      (eval levels' n f) v w :=
  (replay hclosed spare).eval_agrees_of_suffices
    (hlevels.imp_right fun h => ⟨⟨h.1, rfl⟩, h.2⟩) (c := ()) rfl (.old hf)
    ⟨⟨hv, hlexical⟩, .refl w, hclosed.lexical⟩

/-- An expression ends alike in a world and in what extends it. -/
theorem outcome_eq (hclosed : w.IsClosed) (hf : f < w.store.next) (hv : w.Extends v)
    (hlexical : v.IsLexical) (levels : Nat) (n : Node) :
    (eval levels n f).outcome v = (eval levels n f).outcome w := by
  have hagrees := hclosed.replay_agrees False hf hv hlexical (.inl (Eq.refl levels)) n
  obtain ⟨a, b, ha, hb, hab⟩ | ⟨k, k', hk, hk', hkk'⟩ := (hagrees.ends fun _ _ h => h.1).2
  · rw [ha, hb, Value.Related.eq_of_holdsOnly hab]
  · rw [hk, hk', show k = k' from hkk']

/-- Unless levels run out, more of them do not change how an expression ends, there or in what
extends the world. -/
theorem outcome_eq_or_overflow (hclosed : w.IsClosed) (hf : f < w.store.next) {levels levels' : Nat}
    (hle : levels ≤ levels') (n : Node) :
    (eval levels n f).outcome w = .error .overflow ∨
      (eval levels n f).outcome w = (eval levels' n f).outcome w := by
  by_cases hoverflow : (eval levels n f).outcome w = .error .overflow
  · exact .inl hoverflow
  · have hagrees := hclosed.replay_agrees True hf (.refl w) hclosed.lexical
      (.inr ⟨trivial, hle⟩) n
    have hexcused (k : Halt) (hk : (eval levels n f).outcome w = .error k) :
        ¬ (replaySetting w True).excused k := fun h => hoverflow (h.2 ▸ hk)
    obtain ⟨a, b, ha, hb, hab⟩ | ⟨k, k', hk, hk', hkk'⟩ := (hagrees.ends hexcused).2
    · rw [ha, hb, Value.Related.eq_of_holdsOnly hab]
      exact .inr rfl
    · rw [hk, hk', show k = k' from hkk']
      exact .inr rfl

end World.IsClosed

/-! ### Arrays -/

section Arrays

variable {w v u : World} {f : FrameId} {levels : Nat} {es : List Node} {vs : List Value}

/-- The array of the values of its elements, or what the first element halts with. -/
private theorem outcome_array (levels : Nat) (es : List Node) (m : Mark) (f : FrameId) (w : World) :
    (eval (levels + 6) (.tree ExpressionForm.array.label es m) f).outcome w =
      match evalAll (eval (levels + 1)) f es w with
      | .ok vs _ => .ok (.array vs)
      | .error h _ => .error (h.locate (Node.tree ExpressionForm.array.label es m).position) := by
  rw [eval_form]
  simp only [evalForm, evalArray, Run.outcome, Run.within_apply, Run.bind_apply, Parts.below]
  cases evalAll (eval (levels + 1)) f es w <;> rfl

private theorem extends_of_ok (hv : w.Extends v) (hlexical : v.IsLexical) {e : Node} {a : Value}
    (he : eval levels e f v = .ok a u) : w.Extends u ∧ u.IsLexical := by
  have hafter := hlexical.eval levels e f
  rw [Run.after, he] at hafter
  exact ⟨hv.trans hafter.1, hafter.2⟩

variable (hclosed : w.IsClosed) (hf : f < w.store.next)
include hclosed hf

/-- If all elements have values in turn, each one has the same value alone. -/
private theorem alone_of_evalAll (hv : w.Extends v) (hlexical : v.IsLexical)
    (h : evalAll (eval levels) f es v = .ok vs u) :
    List.Forall₂ (fun e a => (eval levels e f).outcome w = .ok a) es vs := by
  induction es generalizing v vs with
  | nil =>
    cases h
    exact .nil
  | cons e es ih =>
    obtain ⟨a, z, ha, hrest⟩ := Run.bind_eq_ok_iff.mp h
    obtain ⟨as, _, has, hpure⟩ := Run.bind_eq_ok_iff.mp hrest
    cases hpure
    obtain ⟨hz, hlexical'⟩ := extends_of_ok hv hlexical ha
    refine .cons ?_ (ih hz hlexical' has)
    rw [← hclosed.outcome_eq hf hv hlexical, Run.outcome, ha]

/-- If each element alone has a value, or if some may run out of levels and do, then all elements have
these values in turn, or one of them runs out of levels. -/
private theorem evalAll_of_alone {spare : Prop} (hv : w.Extends v) (hlexical : v.IsLexical)
    (h : List.Forall₂ (fun e a => spare ∧ (eval levels e f).outcome w = .error .overflow ∨
      (eval levels e f).outcome w = .ok a) es vs) :
    (∃ u, evalAll (eval levels) f es v = .ok vs u) ∨
      spare ∧ ∃ u, evalAll (eval levels) f es v = .error .overflow u := by
  induction h generalizing v with
  | nil => exact .inl ⟨v, rfl⟩
  | @cons e a es as he _ ih =>
    rw [← hclosed.outcome_eq hf hv hlexical] at he
    cases heval : eval levels e f v with
    | error k z =>
      rw [Run.outcome, heval] at he
      obtain ⟨hspare, hk⟩ | hk := he
      · cases hk
        exact .inr ⟨hspare, z, Run.bind_eq_of_error heval⟩
      · cases hk
    | ok b z =>
      rw [Run.outcome, heval] at he
      obtain ⟨-, hb⟩ | hb := he
      · cases hb
      · cases hb
        obtain ⟨hz, hlexical'⟩ := extends_of_ok hv hlexical heval
        rw [evalAll, Run.bind_eq_of_ok heval]
        obtain ⟨u, hu⟩ | ⟨hspare, u, hu⟩ := ih hz hlexical'
        · exact .inl ⟨u, Run.bind_eq_of_ok hu⟩
        · exact .inr ⟨hspare, u, Run.bind_eq_of_error hu⟩

/-- Given levels enough, an array has the values that its elements have alone. -/
theorem outcome_array_of_alone {more : Nat} (hlevels : levels + 6 ≤ more) (m : Mark)
    (h : List.Forall₂ (fun e a => (eval levels e f).outcome w = .ok a) es vs) :
    (eval more (.tree ExpressionForm.array.label es m) f).outcome w = .ok (.array vs) := by
  obtain ⟨left, rfl⟩ := Nat.exists_eq_add_of_le' (Nat.le_of_add_left_le hlevels)
  have halone : List.Forall₂ (fun e a => False ∧ (eval (left + 1) e f).outcome w = .error .overflow ∨
      (eval (left + 1) e f).outcome w = .ok a) es vs := by
    refine h.imp fun e a ha => .inr ?_
    obtain hoverflow | hsame := hclosed.outcome_eq_or_overflow hf
      (show levels ≤ left + 1 by omega) e
    · rw [ha] at hoverflow
      cases hoverflow
    · rw [← hsame, ha]
  obtain ⟨u, hu⟩ | ⟨hnever, -⟩ := evalAll_of_alone hclosed hf (.refl w) hclosed.lexical halone
  · rw [outcome_array, hu]
  · exact hnever.elim

/-- Unless levels run out, an array has a value if and only if its elements have values alone. -/
theorem outcome_array_eq_ok_iff {m : Mark}
    (hlevels : (eval levels (.tree ExpressionForm.array.label es m) f).outcome w ≠
      .error .overflow) :
    (eval levels (.tree ExpressionForm.array.label es m) f).outcome w = .ok (.array vs) ↔
      List.Forall₂ (fun e a => (eval levels e f).outcome w = .ok a) es vs := by
  obtain hfew | hmany := Nat.lt_or_ge levels 6
  · rw [Simulation.eval_eq_overflow hfew] at hlevels
    exact absurd rfl hlevels
  obtain ⟨left, rfl⟩ := Nat.exists_eq_add_of_le' hmany
  -- An element has five levels less than it has alone.
  have hmore (e : Node) := hclosed.outcome_eq_or_overflow hf
    (show left + 1 ≤ left + 6 by omega) e
  rw [outcome_array] at hlevels ⊢
  constructor
  · intro h
    cases hall : evalAll (eval (left + 1)) f es w with
    | error k u =>
      rw [hall] at h
      cases h
    | ok us u =>
      rw [hall] at h
      cases h
      refine (alone_of_evalAll hclosed hf (.refl w) hclosed.lexical hall).imp fun e a ha => ?_
      obtain hoverflow | hsame := hmore e
      · rw [hoverflow] at ha
        cases ha
      · rw [← hsame, ha]
  · intro h
    have halone : List.Forall₂ (fun e a => True ∧ (eval (left + 1) e f).outcome w =
        .error .overflow ∨ (eval (left + 1) e f).outcome w = .ok a) es vs :=
      h.imp fun e a ha => (hmore e).imp (⟨trivial, ·⟩) fun hsame => hsame.trans ha
    obtain ⟨u, hu⟩ | ⟨-, u, hu⟩ := evalAll_of_alone hclosed hf (.refl w) hclosed.lexical halone
    · rw [hu]
    · rw [hu] at hlevels
      exact absurd rfl hlevels

end Arrays

/-! ### Any order -/

/-- Families are related one by one if they are so as lists. -/
theorem forall₂_ofFn_iff {α β : Type} {R : α → β → Prop} {k : Nat} {a : Fin k → α}
    {b : Fin k → β} : List.Forall₂ R (List.ofFn a) (List.ofFn b) ↔ ∀ i, R (a i) (b i) := by
  induction k with
  | zero => simp
  | succ k ih => rw [List.ofFn_succ, List.ofFn_succ, List.forall₂_cons, ih, Fin.forall_fin_succ]

/-- The world after some expressions, each with levels and a frame of its own. -/
def World.afterAll (w : World) (others : List (Nat × Node × FrameId)) : World :=
  others.foldl (fun v e => (eval e.1 e.2.1 e.2.2).after v) w

/-- Expressions extend a world without flat scoping, however many there are. -/
theorem World.IsLexical.afterAll {w : World} (hw : w.IsLexical)
    (others : List (Nat × Node × FrameId)) :
    w.Extends (w.afterAll others) ∧ (w.afterAll others).IsLexical := by
  induction others generalizing w with
  | nil => exact ⟨.refl w, hw⟩
  | cons e others ih =>
    obtain ⟨hextends, hlexical⟩ := hw.eval e.1 e.2.1 e.2.2
    obtain ⟨hrest, hrest'⟩ := ih hlexical
    exact ⟨hextends.trans hrest, hrest'⟩

/-- **The order of evaluation does not show under lexical scoping.** Take a world in which no frame
asks for flat scoping, parents are older than their children and closures refer to frames that are
there, and a frame of it. Of an array and the array of the same elements in another order, let neither
run out of levels. Then the first one has an array of certain values if and only if the second one has
the array of the same values in that order, and if and only if each element has its value when it is
evaluated alone. And after any expressions, in any frames and with any numbers of levels, every
expression has the same value or halts in the same way as before. -/
theorem eval_array_permuted (levels : Nat) (f : FrameId) (w : World) (hlexical : w.IsLexical)
    (hordered : w.store.IsOrdered) (hrefers : w.store.RefersBelow w.store.next)
    (hf : f < w.store.next) :
    (∀ (k : Nat) (es : Fin k → Node) (vs : Fin k → Value) (σ : Equiv.Perm (Fin k)) (m m' : Mark),
      (eval levels (.tree ExpressionForm.array.label (List.ofFn es) m) f).outcome w ≠
        .error .overflow →
      (eval levels (.tree ExpressionForm.array.label (List.ofFn (es ∘ σ)) m') f).outcome w ≠
        .error .overflow →
      ((eval levels (.tree ExpressionForm.array.label (List.ofFn es) m) f).outcome w =
          .ok (.array (List.ofFn vs)) ↔
        (eval levels (.tree ExpressionForm.array.label (List.ofFn (es ∘ σ)) m') f).outcome w =
          .ok (.array (List.ofFn (vs ∘ σ)))) ∧
      ((eval levels (.tree ExpressionForm.array.label (List.ofFn es) m) f).outcome w =
          .ok (.array (List.ofFn vs)) ↔
        ∀ i, (eval levels (es i) f).outcome w = .ok (vs i))) ∧
      ∀ (others : List (Nat × Node × FrameId)) (e : Node),
        (eval levels e f).outcome (w.afterAll others) = (eval levels e f).outcome w := by
  have hclosed : w.IsClosed := ⟨hlexical, hordered, hrefers⟩
  refine ⟨fun k es vs σ m m' hes hes' => ?_, fun others e => ?_⟩
  · rw [outcome_array_eq_ok_iff hclosed hf hes, outcome_array_eq_ok_iff hclosed hf hes',
      forall₂_ofFn_iff, forall₂_ofFn_iff]
    refine ⟨⟨fun h i => h (σ i), fun h i => ?_⟩, Iff.rfl⟩
    simpa using h (σ.symm i)
  · obtain ⟨hextends, hlexical'⟩ := hlexical.afterAll others
    exact hclosed.outcome_eq hf hextends hlexical' levels e

/-- Three elements of an array, two of which are calls that give closures. -/
def threeElements : Fin 3 → Node
  | 0 => returningCall
  | 1 => .name "keep"
  | 2 => .call (.name "lost") []

/-- The values of these elements, given the closure that `keep` is. -/
def threeValues (keep : Closure) : Fin 3 → Value
  | 0 => .array [.closure keep, .closure keep]
  | 1 | 2 => .closure keep

theorem returningFrames_isClosed : returningFrames.IsClosed where
  lexical := .of_frames (by decide)
  ordered := Store.IsOrdered.of_frames (by decide)
  refers := returningFrames_refersBelow

/-- The three elements have their values in the reverse order, too, and alone. And a call has the
same value after other calls as before. -/
theorem eval_array_permuted_of_returning :
    ∃ keep : Closure,
      (eval 100 (.array (List.ofFn threeElements)) 1).outcome returningFrames =
          .ok (.array (List.ofFn (threeValues keep))) ∧
        (eval 100 (.array (List.ofFn (threeElements ∘ Equiv.swap 0 2))) 1).outcome
            returningFrames = .ok (.array (List.ofFn (threeValues keep ∘ Equiv.swap 0 2))) ∧
        (∀ i, (eval 100 (threeElements i) 1).outcome returningFrames = .ok (threeValues keep i)) ∧
        (eval 100 returningCall 1).outcome
            (returningFrames.afterAll [(100, returningCall, 1), (50, threeElements 2, 0)]) =
          .ok (threeValues keep 0) := by
  obtain ⟨hlexical, hordered, hrefers⟩ := returningFrames_isClosed
  obtain ⟨hpermuted, hafter⟩ :=
    eval_array_permuted 100 1 returningFrames hlexical hordered hrefers (by decide)
  let keep : Closure :=
    { id := 6, parameters := ["x"], body := .array [.name "x", .name "keep"], frame := some 0 }
  have harray : (eval 100 (.array (List.ofFn threeElements)) 1).outcome returningFrames =
      .ok (.array (List.ofFn (threeValues keep))) := rfl
  have hreverse : (eval 100 (.array (List.ofFn (threeElements ∘ Equiv.swap 0 2))) 1).outcome
      returningFrames ≠ .error .overflow := nofun
  obtain ⟨hiff, halone⟩ := hpermuted 3 threeElements (threeValues keep) (Equiv.swap 0 2) _ _
    nofun hreverse
  exact ⟨keep, harray, hiff.mp harray, halone.mp harray, (hafter _ _).trans rfl⟩

end Bella
