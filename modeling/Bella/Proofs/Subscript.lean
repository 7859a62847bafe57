import Bella.Proofs.Number.Magnitude
import Bella.Proofs.Reordering

/-!
# Subscripts

A subscript is an exact integer or it is refused. The target is evaluated, then the index, and then
they are checked: the target has to be an array, the index a number, the number an integer, and the
integer a place of the array. Nothing is rounded and nothing is counted from the end, so a negative
integer is out of range like one that is too large, and minus zero is the first place.

Under lexical scoping the elements of an array have the values that they have alone. So a subscripted
array of expressions has the value of one of them.

## Main definitions

* `Bella.Value.AtIndex`: an array under an integer.
* `Bella.Value.Picks`: what a value under a subscript gives.

## Main results

* `Bella.Check.element_picks`: the checks of a subscript.
* `Bella.eval_subscript_of_ok`: a subscript whose operands have values.
* `Bella.subscript_exact`: all of it, for the evaluation of a subscript.
-/

namespace Bella

/-! ### Checks -/

/-- The target is the array of the items, and the subscript denotes the integer `k`. -/
def Value.AtIndex (items : List Value) (k : Int) (target subscript : Value) : Prop :=
  target = .array items ∧ ∃ x, subscript = .number x ∧ Number.toRat? x = some (k : ℚ)

/-- What a value under a subscript gives: the element in a place of an array, or an integer that is no
place of it, or else a complaint about the values. -/
inductive Value.Picks (target subscript : Value) : Except Cause Value → Prop
  | place {items : List Value} {k : Nat} {c : Value} (hat : AtIndex items k target subscript)
      (hc : items[k]? = some c) : Picks target subscript (.ok c)
  | outside {items : List Value} {k : Int} (hat : AtIndex items k target subscript)
      (hk : k < 0 ∨ items.length ≤ k) :
      Picks target subscript (.error (.outOfRange k items.length))
  | refused {cause : Cause} (hnone : ∀ items k, ¬ AtIndex items k target subscript)
      (hkind : cause.kind = .typeMismatch) : Picks target subscript (.error cause)

namespace Check

variable {target subscript v : Value}

theorem index_number (x : Float) :
    index (.number x) = (Number.toInt? x).elim (.error (.notIntegral x)) .ok := by
  simp only [index, number]
  cases Number.toInt? x <;> rfl

theorem index_eq_ok_iff {k : Int} :
    index v = .ok k ↔ ∃ x, v = .number x ∧ Number.toRat? x = some (k : ℚ) := by
  cases v with
  | number x =>
    simp only [index_number, ← Number.toInt?_eq_some_iff, Value.number.injEq, exists_eq_left']
    cases Number.toInt? x <;> simp
  | boolean _ | closure _ | builtin _ | array _ | foreign _ => simp [index, number]

/-- An index is refused for what it is. -/
theorem kind_of_index {c : Cause} (h : index v = .error c) : c.kind = .typeMismatch := by
  cases v with
  | number x =>
    rw [index_number] at h
    cases hx : Number.toInt? x with
    | none =>
      rw [hx] at h
      cases h
      rfl
    | some k =>
      rw [hx] at h
      cases h
  | boolean _ | closure _ | builtin _ | array _ | foreign _ =>
    cases h
    rfl

private theorem array_picks (items : List Value) (subscript : Value) :
    (Value.array items).Picks subscript (element (.array items) subscript) := by
  rw [element]
  cases hindex : index subscript with
  | error c =>
    refine .refused ?_ (kind_of_index hindex)
    rintro _ k ⟨-, hk⟩
    rw [index_eq_ok_iff.mpr hk] at hindex
    cases hindex
  | ok k =>
    have hat : Value.AtIndex items k (.array items) subscript :=
      ⟨rfl, index_eq_ok_iff.mp hindex⟩
    by_cases hneg : k < 0
    · simp only [hneg, if_true]
      exact .outside hat (.inl hneg)
    · obtain ⟨n, rfl⟩ := Int.eq_ofNat_of_zero_le (not_lt.mp hneg)
      simp only [hneg, if_false]
      split
      · rename_i c hc
        exact .place hat hc
      · rename_i hnone
        exact .outside hat (.inr (by exact_mod_cast List.getElem?_eq_none_iff.mp hnone))

/-- The checks of a subscript pick what the values say. -/
theorem element_picks (target subscript : Value) :
    target.Picks subscript (element target subscript) := by
  cases target with
  | array items => exact array_picks items subscript
  | number _ | boolean _ | closure _ | builtin _ | foreign _ =>
    refine .refused ?_ rfl
    rintro items k ⟨⟨⟩, -⟩

end Check

section Picks

variable {target subscript : Value} {r r' : Except Cause Value} {items items' : List Value}
  {k k' : Int}

/-- The array and the integer are known by the values. -/
theorem Value.AtIndex.unique (h : AtIndex items k target subscript)
    (h' : AtIndex items' k' target subscript) : items = items' ∧ k = k' := by
  obtain ⟨rfl, x, rfl, hx⟩ := h
  obtain ⟨htarget, y, hy, hx'⟩ := h'
  cases htarget
  cases hy
  rw [hx] at hx'
  exact ⟨rfl, by exact_mod_cast Option.some.inj hx'⟩

/-- An element is picked from a place of an array. -/
theorem Value.Picks.ok_iff (h : target.Picks subscript r) {c : Value} :
    r = .ok c ↔
      ∃ items, ∃ k : Nat, AtIndex items k target subscript ∧ items[k]? = some c := by
  constructor
  · rintro rfl
    cases h with
    | place hat hc => exact ⟨_, _, hat, hc⟩
  · rintro ⟨items, k, hat, hc⟩
    cases h with
    | place hat' hc' =>
      obtain ⟨rfl, hk⟩ := hat.unique hat'
      obtain rfl : k = _ := by exact_mod_cast hk
      rw [hc] at hc'
      rw [Option.some.inj hc']
    | outside hat' hk =>
      obtain ⟨rfl, rfl⟩ := hat.unique hat'
      have hlt := (List.getElem?_eq_some_iff.mp hc).1
      omega
    | refused hnone _ => exact absurd hat (hnone items k)

/-- An integer is out of range if it is no place of an array. -/
theorem Value.Picks.outOfRange_iff (h : target.Picks subscript r) {length : Nat} :
    r = .error (.outOfRange k length) ↔
      ∃ items, AtIndex items k target subscript ∧ items.length = length ∧
        (k < 0 ∨ length ≤ k) := by
  constructor
  · rintro rfl
    cases h with
    | outside hat hk => exact ⟨_, hat, rfl, hk⟩
    | refused _ hkind => cases hkind
  · rintro ⟨items, hat, rfl, hk⟩
    cases h with
    | place hat' hc =>
      obtain ⟨rfl, rfl⟩ := hat.unique hat'
      have hlt := (List.getElem?_eq_some_iff.mp hc).1
      omega
    | outside hat' _ =>
      obtain ⟨rfl, rfl⟩ := hat.unique hat'
      rfl
    | refused hnone _ => exact absurd hat (hnone items k)

/-- All other values are of the wrong sort. -/
theorem Value.Picks.refused_iff (h : target.Picks subscript r) :
    (∃ cause, r = .error cause ∧ cause.kind = .typeMismatch) ↔
      ∀ items k, ¬ AtIndex items k target subscript := by
  constructor
  · rintro ⟨cause, rfl, hkind⟩
    cases h with
    | outside _ _ => cases hkind
    | refused hnone _ => exact hnone
  · intro hnone
    cases h with
    | place hat _ => exact absurd hat (hnone _ _)
    | outside hat _ => exact absurd hat (hnone _ _)
    | refused _ hkind => exact ⟨_, rfl, hkind⟩

end Picks

/-! ### Evaluation -/

section Evaluation

variable {levels : Nat} {t i : Node} {m : Mark} {f : FrameId} {w v u : World} {a b : Value} {h : Halt}

private theorem eval_subscript (levels : Nat) (t i : Node) (m : Mark) (f : FrameId) :
    eval (levels + 6) (.tree ExpressionForm.subscript.label [t, i] m) f =
      Run.within (.tree ExpressionForm.subscript.label [t, i] m)
        (evalSubscript (eval (levels + 2)) f [t, i]) :=
  eval_form levels .subscript [t, i] m f

/-- The target is evaluated first. -/
theorem eval_subscript_of_target (ht : eval (levels + 2) t f w = .error h v) :
    eval (levels + 6) (.tree ExpressionForm.subscript.label [t, i] m) f w =
      .error (h.locate (Node.tree ExpressionForm.subscript.label [t, i] m).position) v := by
  rw [eval_subscript]
  exact Run.within_eq_error_iff.mpr ⟨h, Run.bind_eq_of_error ht, rfl⟩

/-- The index is evaluated when the target has a value. -/
theorem eval_subscript_of_index (ht : eval (levels + 2) t f w = .ok a v)
    (hi : eval (levels + 2) i f v = .error h u) :
    eval (levels + 6) (.tree ExpressionForm.subscript.label [t, i] m) f w =
      .error (h.locate (Node.tree ExpressionForm.subscript.label [t, i] m).position) u := by
  rw [eval_subscript]
  refine Run.within_eq_error_iff.mpr ⟨h, ?_, rfl⟩
  exact (Run.bind_eq_of_ok ht).trans (Run.bind_eq_of_error hi)

/-- When both have values these are checked, and nothing else happens. -/
theorem eval_subscript_of_ok (ht : eval (levels + 2) t f w = .ok a v)
    (hi : eval (levels + 2) i f v = .ok b u) :
    eval (levels + 6) (.tree ExpressionForm.subscript.label [t, i] m) f w =
      match Check.element a b with
      | .ok c => .ok c u
      | .error c => .error ((Halt.error { cause := c }).locate
          (Node.tree ExpressionForm.subscript.label [t, i] m).position) u := by
  have hrun : evalSubscript (eval (levels + 2)) f [t, i] w = Run.check (Check.element a b) u :=
    (Run.bind_eq_of_ok ht).trans (Run.bind_eq_of_ok hi)
  rw [eval_subscript, Run.within_apply, hrun]
  cases Check.element a b <;> rfl

/-- A numeral has the value that its text spells. -/
theorem eval_numeral {text : String} {x : Float} (hread : Numeral.read? text = some x)
    (p : Position) :
    eval (levels + 6) (.token TokenForm.numeral.type text p) f w = .ok (.number x) w := by
  rw [eval_eq_within]
  refine Run.within_eq_ok_iff.mpr ?_
  simp only [evalNode, evalToken, TokenForm.ofType?_type, Check.numeral, hread]
  rfl

end Evaluation

/-- An element of an array of expressions has the value that the expression has alone. -/
private theorem outcome_subscript_array {w : World} {f : FrameId} (hclosed : w.IsClosed)
    (hf : f < w.store.next) {levels more length : Nat} (hmore : levels + 10 ≤ more)
    {es : Fin length → Node} {vs : Fin length → Value}
    (halone : ∀ j, (eval levels (es j) f).outcome w = .ok (vs j)) {k : Fin length} {text : String}
    {x : Float} (hread : Numeral.read? text = some x) (hx : Number.toRat? x = some (k : ℚ))
    (p : Position) (m m' : Mark) :
    (eval more (.tree ExpressionForm.subscript.label
      [.tree ExpressionForm.array.label (List.ofFn es) m',
        .token TokenForm.numeral.type text p] m) f).outcome w = .ok (vs k) := by
  obtain ⟨left, rfl⟩ := Nat.exists_eq_add_of_le' (Nat.le_of_add_left_le hmore)
  obtain ⟨v, harray⟩ := Run.outcome_eq_ok_iff.mp (outcome_array_of_alone hclosed hf
    (show levels + 6 ≤ left + 6 by omega) m' (forall₂_ofFn_iff.mpr halone))
  have hat : Value.AtIndex (List.ofFn vs) (k : Nat) (.array (List.ofFn vs)) (.number x) :=
    ⟨rfl, x, rfl, by exact_mod_cast hx⟩
  have helement : Check.element (.array (List.ofFn vs)) (.number x) = .ok (vs k) :=
    (Check.element_picks _ _).ok_iff.mpr ⟨_, k, hat, by simp⟩
  have hrun := eval_subscript_of_ok (m := m) harray (eval_numeral hread p)
  rw [helement] at hrun
  exact Run.outcome_eq_ok_iff.mpr ⟨v, hrun⟩

/-- **Subscripting is exact and never wraps.** Take any target and index, in any frame and world. If
the target halts then so does the subscript, and if the target has a value and then the index halts
then so does the subscript. If both have values the subscript ends in the world that the index leaves
behind. It has a value if and only if the target is an array and the index a number that denotes a
place of it, and then it has the element in that place. It is out of range, with that integer and that
length, if and only if the target is an array of that length and the index a number that denotes that
integer, which is no place of the array. In all other cases the values are of the wrong sort.

And let no frame of the world ask for flat scoping, and let frames and closures refer to frames that
are there. If expressions have values then, given levels enough, the array of these expressions under
a numeral that spells a place has the value of the expression in that place. -/
theorem subscript_exact (levels : Nat) (t i : Node) (m : Mark) (f : FrameId) (w : World) :
    let n : Node := .tree ExpressionForm.subscript.label [t, i] m
    (∀ h v, eval (levels + 2) t f w = .error h v →
      eval (levels + 6) n f w = .error (h.locate n.position) v) ∧
    (∀ a v h u, eval (levels + 2) t f w = .ok a v → eval (levels + 2) i f v = .error h u →
      eval (levels + 6) n f w = .error (h.locate n.position) u) ∧
    (∀ a v b u, eval (levels + 2) t f w = .ok a v → eval (levels + 2) i f v = .ok b u →
      (eval (levels + 6) n f).after w = u ∧
      (∀ c, (eval (levels + 6) n f).outcome w = .ok c ↔
        ∃ items, ∃ k : Nat, Value.AtIndex items k a b ∧ items[k]? = some c) ∧
      (∀ k length,
        (∃ e, (eval (levels + 6) n f).outcome w = .error (.error e) ∧
          e.cause = .outOfRange k length) ↔
        ∃ items, Value.AtIndex items k a b ∧ items.length = length ∧ (k < 0 ∨ length ≤ k)) ∧
      ((∃ e, (eval (levels + 6) n f).outcome w = .error (.error e) ∧ e.kind = .typeMismatch) ↔
        ∀ items k, ¬ Value.AtIndex items k a b)) ∧
    (w.IsClosed → f < w.store.next →
      ∀ (length : Nat) (es : Fin length → Node) (vs : Fin length → Value),
        (∀ j, (eval levels (es j) f).outcome w = .ok (vs j)) →
        ∀ (k : Fin length) (text : String) (x : Float) (p : Position) (m' : Mark),
          Numeral.read? text = some x → Number.toRat? x = some (k : ℚ) →
          ∀ more, levels + 10 ≤ more →
            (eval more (.tree ExpressionForm.subscript.label
              [.tree ExpressionForm.array.label (List.ofFn es) m',
                .token TokenForm.numeral.type text p] m) f).outcome w = .ok (vs k)) := by
  intro n
  refine ⟨fun h v => eval_subscript_of_target, fun a v h u => eval_subscript_of_index,
    fun a v b u ht hi => ?_,
    fun hclosed hf length es vs halone k text x p m' hread hx more hmore =>
      outcome_subscript_array hclosed hf hmore halone hread hx p m m'⟩
  have hrun : eval (levels + 6) n f w = match Check.element a b with
      | .ok c => .ok c u
      | .error c => .error ((Halt.error { cause := c }).locate n.position) u :=
    eval_subscript_of_ok ht hi
  have hpicks := Check.element_picks a b
  refine ⟨?_, fun c => ?_, fun k length => ?_, ?_⟩
  · rw [Run.after, hrun]
    cases Check.element a b <;> rfl
  · rw [← hpicks.ok_iff, Run.outcome, hrun]
    cases Check.element a b <;> simp
  · rw [← hpicks.outOfRange_iff, Run.outcome, hrun]
    cases Check.element a b <;> simp [Halt.locate, Error.locate]
  · rw [← hpicks.refused_iff, Run.outcome, hrun]
    cases Check.element a b <;> simp [Halt.locate, Error.locate, Error.kind]

/-- The array of the three elements, under an index. -/
def underIndex (index : Node) : Node := .subscript (.array (List.ofFn threeElements)) index

/-- A numeral with the given text. -/
def Node.numeral (text : String) : Node := .ofType TokenForm.numeral.type text

/-- Minus zero gives the first element, and the numeral two the last one. Two to the power of
seventy is out of range as it is. -/
theorem subscript_exact_of_threeElements :
    ∃ keep : Closure,
      (eval 200 (underIndex (.unary "-" (.numeral "0"))) 1).outcome returningFrames =
          .ok (threeValues keep 0) ∧
        (∃ e, (eval 200 (underIndex (.numeral "1180591620717411303424")) 1).outcome
            returningFrames = .error (.error e) ∧
          e.cause = .outOfRange (2 ^ 70) 3) ∧
        (eval 200 (underIndex (.numeral "2")) 1).outcome returningFrames =
          .ok (threeValues keep 2) := by
  let keep : Closure :=
    { id := 6, parameters := ["x"], body := .array [.name "x", .name "keep"], frame := some 0 }
  have hzero : Number.toRat? (-0) = some ((0 : Int) : ℚ) :=
    Number.toInt?_eq_some_iff.mp (by decide +kernel)
  have hlarge : Number.toRat? 1180591620717411303424 = some ((2 ^ 70 : Int) : ℚ) :=
    Number.toInt?_eq_some_iff.mp (by decide +kernel)
  have htwo : Number.toRat? 2 = some ((2 : Int) : ℚ) :=
    Number.toInt?_eq_some_iff.mp (by decide +kernel)
  obtain ⟨v, harray⟩ : ∃ v, eval 196 (.array (List.ofFn threeElements)) 1 returningFrames =
      .ok (.array (List.ofFn (threeValues keep))) v := ⟨_, rfl⟩
  refine ⟨keep, ?_, ?_, ?_⟩
  · obtain ⟨-, -, hends, -⟩ := subscript_exact 194 (.array (List.ofFn threeElements))
      (.unary "-" (.numeral "0")) {} 1 returningFrames
    obtain ⟨-, hpick, -⟩ := hends _ v (.number (-0)) v harray rfl
    exact (hpick _).mpr ⟨_, 0, ⟨rfl, _, rfl, hzero⟩, rfl⟩
  · obtain ⟨-, -, hends, -⟩ := subscript_exact 194 (.array (List.ofFn threeElements))
      (.numeral "1180591620717411303424") {} 1 returningFrames
    obtain ⟨-, -, houtside, -⟩ := hends _ v (.number 1180591620717411303424) v harray
      (eval_numeral (by decide +kernel) {})
    exact (houtside (2 ^ 70) 3).mpr ⟨_, ⟨rfl, _, rfl, hlarge⟩, rfl, .inr (by decide)⟩
  · obtain ⟨-, -, -, helement⟩ := subscript_exact 100 (.array (List.ofFn threeElements))
      (.numeral "2") {} 1 returningFrames
    have halone (j : Fin 3) : (eval 100 (threeElements j) 1).outcome returningFrames =
        .ok (threeValues keep j) := by
      match j with
      | 0 | 1 | 2 => rfl
    exact helement returningFrames_isClosed (by decide) 3 threeElements (threeValues keep) halone 2
      "2" 2 {} _ (by decide +kernel) htwo 200 (by decide)

end Bella
