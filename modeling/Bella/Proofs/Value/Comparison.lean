import Bella.Proofs.Number.Bits
import Bella.Proofs.Settling

/-!
# Equality of values is a partial equivalence

Equal values are of one kind. Numbers are equal by value, so the two zeros are equal and `nan`
equals nothing; booleans are equal if they are the same, arrays if they are equally long and equal
place by place, and functions if they have one identity. Plain values of the host equal nothing.

This relation is symmetric and transitive, and a value equals itself unless `nan` or a plain value
of the host lies in it. The operators `==` and `!=` ask for operands of one kind, and then they give
opposite answers; elements of different kinds only make arrays unequal.

## Main definitions

* `Bella.Value.Occurs`: a value lies in another at some depth.
* `Bella.Value.Equal`: values that are equal.
* `Bella.Node.IsEquality`: a node that compares two operands.

## Main results

* `Bella.Value.equals_iff`: what comparing values finds out.
* `Bella.Value.Equal.symm`, `Bella.Value.Equal.trans`, `Bella.Value.equal_self_iff`: a partial
  equivalence and its domain.
* `Bella.eval_equality`: what an equality makes of its operands.
* `Bella.equality_partial_equivalence`: all of it, for any values.
-/

namespace Bella

namespace Value

/-! ### Values inside values -/

/-- Induction on the arrays that lie inside one another. -/
@[elab_as_elim]
theorem inductionOn {motive : Value → Prop} (number : ∀ x, motive (.number x))
    (boolean : ∀ b, motive (.boolean b))
    (array : ∀ items, (∀ v ∈ items, motive v) → motive (.array items))
    (closure : ∀ c, motive (.closure c)) (builtin : ∀ b, motive (.builtin b))
    (foreign : ∀ p, motive (.foreign p)) (v : Value) : motive v := by
  cases v with
  | number x => exact number x
  | boolean b => exact boolean b
  | array items =>
    exact array items fun v _ => inductionOn number boolean array closure builtin foreign v
  | closure c => exact closure c
  | builtin b => exact builtin b
  | foreign p => exact foreign p
termination_by sizeOf v

/-- The value `u` is the other one, or it lies in it at some depth. -/
inductive Occurs (u : Value) : Value → Prop
  | self : Occurs u u
  | item {v : Value} {items : List Value} (hv : v ∈ items) (h : Occurs u v) :
      Occurs u (.array items)

/-- What occurs in an array and is none itself occurs in an element. -/
theorem occurs_array_iff {u : Value} {items : List Value} (hu : u.kind ≠ .array) :
    u.Occurs (.array items) ↔ ∃ v ∈ items, u.Occurs v := by
  constructor
  · intro h
    cases h with
    | self => exact absurd rfl hu
    | item hv h => exact ⟨_, hv, h⟩
  · rintro ⟨v, hv, h⟩
    exact .item hv h

/-! ### Equal values -/

/-- Values that are equal. -/
inductive Equal : Value → Value → Prop
  | number {x y : Float} (h : (x == y) = true) : Equal (.number x) (.number y)
  | boolean (b : Bool) : Equal (.boolean b) (.boolean b)
  | array {vs ws : List Value} (h : List.Forall₂ Equal vs ws) : Equal (.array vs) (.array ws)
  | closure {c d : Closure} (h : c.id = d.id) : Equal (.closure c) (.closure d)
  | builtin {b c : Builtin} (h : b.id = c.id) : Equal (.builtin b) (.builtin c)

theorem Equal.kind_eq {v w : Value} (h : Equal v w) : v.kind = w.kind := by
  cases h <;> rfl

mutual

/-- Comparing finds out whether two values are equal. -/
theorem equals_iff {v w : Value} : equals v w = true ↔ Equal v w := by
  match v with
  | .number x =>
    cases w with
    | number y => exact ⟨.number, fun | .number h => h⟩
    | boolean | array | closure | builtin | foreign => exact ⟨nofun, nofun⟩
  | .boolean b =>
    cases w with
    | boolean c =>
      rw [equals, beq_iff_eq]
      exact ⟨fun h => h ▸ .boolean b, fun | .boolean _ => rfl⟩
    | number | array | closure | builtin | foreign => exact ⟨nofun, nofun⟩
  | .array vs =>
    cases w with
    | array ws =>
      rw [equals, equalItems_iff]
      exact ⟨.array, fun | .array h => h⟩
    | number | boolean | closure | builtin | foreign => exact ⟨nofun, nofun⟩
  | .closure c =>
    cases w with
    | closure d =>
      rw [equals, beq_iff_eq]
      exact ⟨.closure, fun | .closure h => h⟩
    | number | boolean | array | builtin | foreign => exact ⟨nofun, nofun⟩
  | .builtin b =>
    cases w with
    | builtin c =>
      rw [equals, beq_iff_eq]
      exact ⟨.builtin, fun | .builtin h => h⟩
    | number | boolean | array | closure | foreign => exact ⟨nofun, nofun⟩
  | .foreign _ => exact ⟨nofun, nofun⟩

/-- The kinds of elements need no check of their own, since equal elements are of one kind. -/
theorem equalItems_iff {vs ws : List Value} :
    equalItems vs ws = true ↔ List.Forall₂ Equal vs ws := by
  match vs, ws with
  | [], [] => exact ⟨fun _ => .nil, fun _ => rfl⟩
  | [], _ :: _ | _ :: _, [] => exact ⟨nofun, nofun⟩
  | v :: vs, w :: ws =>
    rw [equalItems, Bool.and_eq_true, Bool.and_eq_true, equals_iff, equalItems_iff,
      List.forall₂_cons, sameKind, beq_iff_eq, and_iff_right_of_imp Equal.kind_eq]

end

mutual

theorem Equal.symm {v w : Value} : Equal v w → Equal w v
  | .number h => .number (PartialEquivBEq.symm h)
  | .boolean b => .boolean b
  | .array h => .array (Equal.symm_items h)
  | .closure h => .closure h.symm
  | .builtin h => .builtin h.symm

theorem Equal.symm_items {vs ws : List Value} : List.Forall₂ Equal vs ws → List.Forall₂ Equal ws vs
  | .nil => .nil
  | .cons h hs => .cons h.symm (Equal.symm_items hs)

end

mutual

theorem Equal.trans {u v w : Value} : Equal u v → Equal v w → Equal u w
  | .number h, .number h' => .number (PartialEquivBEq.trans h h')
  | .boolean b, .boolean _ => .boolean b
  | .array h, .array h' => .array (Equal.trans_items h h')
  | .closure h, .closure h' => .closure (h.trans h')
  | .builtin h, .builtin h' => .builtin (h.trans h')

theorem Equal.trans_items {us vs ws : List Value} :
    List.Forall₂ Equal us vs → List.Forall₂ Equal vs ws → List.Forall₂ Equal us ws
  | .nil, .nil => .nil
  | .cons h hs, .cons h' hs' => .cons (h.trans h') (Equal.trans_items hs hs')

end

/-- A value equals itself unless a part of it does not. -/
theorem equal_self_iff {v : Value} :
    Equal v v ↔
      (∀ x, (Value.number x).Occurs v → x.isNaN = false) ∧ ∀ p, ¬ (Value.foreign p).Occurs v := by
  induction v using inductionOn with
  | number x =>
    refine ⟨fun | .number h => ⟨fun y hy => ?_, nofun⟩, fun h => ?_⟩
    · cases hy
      simpa using h
    · exact .number (by simpa using h.1 x .self)
  | boolean b => exact ⟨fun _ => ⟨nofun, nofun⟩, fun _ => .boolean b⟩
  | array items ih =>
    have hitems : Equal (.array items) (.array items) ↔ ∀ v ∈ items, Equal v v := by
      rw [← List.forall₂_same]
      exact ⟨fun | .array h => h, .array⟩
    rw [hitems]
    constructor
    · intro h
      refine ⟨fun x hx => ?_, fun p hp => ?_⟩
      · obtain ⟨v, hv, hx⟩ := (occurs_array_iff (u := .number x) nofun).mp hx
        exact ((ih v hv).mp (h v hv)).1 x hx
      · obtain ⟨v, hv, hp⟩ := (occurs_array_iff (u := .foreign p) nofun).mp hp
        exact ((ih v hv).mp (h v hv)).2 p hp
    · rintro ⟨hnumbers, hforeign⟩ v hv
      exact (ih v hv).mpr
        ⟨fun x hx => hnumbers x (.item hv hx), fun p hp => hforeign p (.item hv hp)⟩
  | closure c => exact ⟨fun _ => ⟨nofun, nofun⟩, fun _ => .closure rfl⟩
  | builtin b => exact ⟨fun _ => ⟨nofun, nofun⟩, fun _ => .builtin rfl⟩
  | foreign p => exact ⟨nofun, fun h => absurd .self (h.2 p)⟩

/-- Arrays are equal if they are equally long, with elements of one kind that are equal in each
place. -/
theorem equals_array_iff {vs ws : List Value} :
    equals (.array vs) (.array ws) = true ↔
      vs.length = ws.length ∧ ∀ i (hv : i < vs.length) (hw : i < ws.length),
        vs[i].kind = ws[i].kind ∧ equals vs[i] ws[i] = true := by
  rw [equals, equalItems_iff, List.forall₂_iff_get]
  refine and_congr_right fun _ => forall_congr' fun i => forall_congr' fun hv =>
    forall_congr' fun hw => ?_
  rw [equals_iff, and_iff_right_of_imp Equal.kind_eq]
  rfl

end Value

/-! ### The operators -/

/-- The node compares two operands by an equality. -/
def Node.IsEquality (n : Node) (o : EqualityOp) (l r : Node) : Prop :=
  ∃ op m, op.symbolText = o.symbol ∧ n = .tree ExpressionForm.binary.label [l, op, r] m

section Operands

variable {o : EqualityOp} {l r n : Node} {levels : Nat} {f : FrameId} {w₀ w₁ w₂ : World}
  {v w : Value}

/-- What an equality makes of its operands, once these have values. -/
theorem eval_equality (hn : n.IsEquality o l r) (hl : eval (levels + 2) l f w₀ = .ok v w₁)
    (hr : eval (levels + 2) r f w₁ = .ok w w₂) :
    eval (levels + 6) n f w₀ =
      Run.within n (Run.checkWithin (o.compareWithin (arraysWithin (levels + 2)) v w)) w₂ := by
  obtain ⟨op, m, hop, rfl⟩ := hn
  have hsymbol : BinaryOp.ofSymbol? op.symbolText = some (.equality o) := by
    rw [hop]
    exact BinaryOp.ofSymbol?_symbol (.equality o)
  have hnode : evalNode (Parts.below levels) (.tree ExpressionForm.binary.label [l, op, r] m) f w₀ =
      Run.checkWithin (o.compareWithin (arraysWithin (levels + 2)) v w) w₂ := by
    simp only [evalNode, ExpressionForm.ofLabel?_label, evalForm, evalBinary, hsymbol]
    exact (Run.bind_eq_of_ok hl).trans (Run.bind_eq_of_ok hr)
  rw [eval_eq_within, Run.within_apply, hnode, Run.within_apply]

/-- Operands of different kinds are refused. -/
theorem eval_equality_of_ne (hn : n.IsEquality o l r) (hl : eval (levels + 2) l f w₀ = .ok v w₁)
    (hr : eval (levels + 2) r f w₁ = .ok w w₂) (hkind : v.kind ≠ w.kind) :
    ∃ e, eval (levels + 6) n f w₀ = .error (.error e) w₂ ∧ e.kind = .typeMismatch := by
  have hdiffer : o.compareWithin (arraysWithin (levels + 2)) v w =
      some (.error (.notComparable o v.kind w.kind)) := by
    simp only [EqualityOp.compareWithin, Value.sameKind, beq_iff_eq, hkind, if_false]
  rw [eval_equality hn hl hr, hdiffer]
  exact ⟨_, rfl, rfl⟩

/-- Operands of one kind are compared, unless that takes more levels than there are. -/
theorem eval_equality_of_eq (hn : n.IsEquality o l r) (hl : eval (levels + 2) l f w₀ = .ok v w₁)
    (hr : eval (levels + 2) r f w₁ = .ok w w₂) (hkind : v.kind = w.kind) :
    eval (levels + 6) n f w₀ =
      match v.equalsWithin (arraysWithin (levels + 2)) w with
      | some b => .ok (.boolean (o.apply b)) w₂
      | none => .error .overflow w₂ := by
  have hsame : o.compareWithin (arraysWithin (levels + 2)) v w =
      (v.equalsWithin (arraysWithin (levels + 2)) w).map fun b => .ok (.boolean (o.apply b)) := by
    simp only [EqualityOp.compareWithin, Value.sameKind, beq_iff_eq, hkind, if_true]
  rw [eval_equality hn hl hr, hsame]
  cases v.equalsWithin (arraysWithin (levels + 2)) w <;> rfl

end Operands

/-- **Equality of values is a partial equivalence.** It is symmetric and transitive, and a value
equals itself if and only if neither `nan` nor a plain value of the host occurs in it. Arrays are
equal if and only if they are equally long with equal elements of one kind in each place. On
operands that have values, `==` and `!=` both fail if the operands are of different kinds; otherwise
they give opposite answers, unless both find too few levels for the arrays that lie inside one
another. -/
theorem equality_partial_equivalence (u v w : Value) :
    u.equals v = v.equals u ∧
      (u.equals v = true → v.equals w = true → u.equals w = true) ∧
      (v.equals v = true ↔
        (∀ x, (Value.number x).Occurs v → x.isNaN = false) ∧
          ∀ p, ¬ (Value.foreign p).Occurs v) ∧
      (∀ vs ws : List Value, (Value.array vs).equals (.array ws) = true ↔
        vs.length = ws.length ∧ ∀ i (hv : i < vs.length) (hw : i < ws.length),
          vs[i].kind = ws[i].kind ∧ vs[i].equals ws[i] = true) ∧
      ∃ enough, ∀ levels f l r w₀ w₁ w₂ n n',
        eval (levels + 2) l f w₀ = .ok v w₁ → eval (levels + 2) r f w₁ = .ok w w₂ →
        n.IsEquality .eq l r → n'.IsEquality .ne l r →
          (v.kind ≠ w.kind ∧
            (∃ e, eval (levels + 6) n f w₀ = .error (.error e) w₂ ∧ e.kind = .typeMismatch) ∧
            ∃ e, eval (levels + 6) n' f w₀ = .error (.error e) w₂ ∧ e.kind = .typeMismatch) ∨
          (v.kind = w.kind ∧
            eval (levels + 6) n f w₀ = .ok (.boolean (v.equals w)) w₂ ∧
            eval (levels + 6) n' f w₀ = .ok (.boolean (!v.equals w)) w₂) ∨
          (v.kind = w.kind ∧ levels < enough ∧
            eval (levels + 6) n f w₀ = .error .overflow w₂ ∧
            eval (levels + 6) n' f w₀ = .error .overflow w₂) := by
  refine ⟨?_, ?_, Value.equals_iff.trans Value.equal_self_iff, fun vs ws => Value.equals_array_iff,
    ?_⟩
  · rw [Bool.eq_iff_iff, Value.equals_iff, Value.equals_iff]
    exact ⟨Value.Equal.symm, Value.Equal.symm⟩
  · intro huv hvw
    exact Value.equals_iff.mpr ((Value.equals_iff.mp huv).trans (Value.equals_iff.mp hvw))
  · obtain ⟨enough, hcompared⟩ := v.exists_equalsWithin w
    refine ⟨levelsPerArray * enough, fun levels f l r w₀ w₁ w₂ n n' hl hr hn hn' => ?_⟩
    by_cases hkind : v.kind = w.kind
    · have heq := eval_equality_of_eq hn hl hr hkind
      have hne := eval_equality_of_eq hn' hl hr hkind
      cases hb : v.equalsWithin (arraysWithin (levels + 2)) w with
      | some b =>
        rw [hb] at heq hne
        rw [Value.equals_of_equalsWithin hb]
        exact .inr (.inl ⟨hkind, heq, hne⟩)
      | none =>
        rw [hb] at heq hne
        refine .inr (.inr ⟨hkind, ?_, heq, hne⟩)
        by_contra hlevels
        have henough : enough ≤ arraysWithin (levels + 2) := by
          unfold arraysWithin levelsPerArray at *
          omega
        cases hb.symm.trans (hcompared _ henough)
    · exact .inl ⟨hkind, eval_equality_of_ne hn hl hr hkind, eval_equality_of_ne hn' hl hr hkind⟩

end Bella
