import Bella.Value.Basic

/-!
# Equality of values

Numbers and booleans are compared by value, arrays element by element, and functions by identity. An
array equals another only if elements in the same place are of one kind. Plain values of the host
equal nothing, not even themselves, and neither does the number that is not a number.

Comparing goes from left to right and stops at the first difference, so it does not always reach the
innermost arrays. Where arrays may be too deep to be gone through, `equalsWithin` bounds how many of
them lie inside one another on the way; within the bound it agrees with `equals`.

## Main definitions

* `Bella.Value.equals`: whether two values are equal.
* `Bella.Value.equalsWithin`: the same within a bound on the depth.

## Main statements

* `Bella.Value.equals_of_equalsWithin`: an answer within a bound is the answer.
* `Bella.Value.equalsWithin_of_le`: and it is the answer within a larger bound.
-/

namespace Bella.Value

mutual

/-- Whether two values are equal. -/
def equals : Value → Value → Bool
  | .number a, .number b => a == b
  | .boolean a, .boolean b => a == b
  | .array vs, .array ws => equalItems vs ws
  | .closure c, .closure d => c.id == d.id
  | .builtin b, .builtin c => b.id == c.id
  | _, _ => false

/-- Whether two lists of values are equally long and equal place by place. -/
def equalItems : List Value → List Value → Bool
  | [], [] => true
  | v :: vs, w :: ws => sameKind v w && equals v w && equalItems vs ws
  | _, _ => false

end

mutual

/-- Whether two values are equal, if that shows without going through more than `depth` arrays inside
one another. The elements of arrays of different lengths are not looked at. -/
def equalsWithin : (depth : Nat) → Value → Value → Option Bool
  | depth, .array vs, .array ws =>
    if vs.length = ws.length then
      match depth with
      | 0 => none
      | depth + 1 => equalItemsWithin depth vs ws
    else some false
  | _, v, w => some (equals v w)

/-- Whether two equally long lists of values are equal place by place, within a bound. -/
def equalItemsWithin (depth : Nat) : List Value → List Value → Option Bool
  | v :: vs, w :: ws =>
    if sameKind v w then
      match equalsWithin depth v w with
      | some true => equalItemsWithin depth vs ws
      | other => other
    else some false
  | _, _ => some true

end

/-- Lists of different lengths are not equal. -/
theorem equalItems_of_length_ne {vs ws : List Value} (h : vs.length ≠ ws.length) :
    equalItems vs ws = false := by
  induction vs generalizing ws with
  | nil =>
    cases ws with
    | nil => exact absurd rfl h
    | cons w ws => rfl
  | cons v vs ih =>
    cases ws with
    | nil => rfl
    | cons w ws =>
      have h' : vs.length ≠ ws.length := fun e => h (congrArg Nat.succ e)
      rw [equalItems, ih h', Bool.and_false]

mutual

/-- An answer within a bound is the answer. -/
theorem equals_of_equalsWithin {depth : Nat} {v w : Value} {b : Bool}
    (h : equalsWithin depth v w = some b) : equals v w = b := by
  match v, w with
  | .array vs, .array ws =>
    simp only [equalsWithin] at h
    rw [equals]
    split at h
    · rename_i hlen
      cases depth with
      | zero => contradiction
      | succ depth => exact equalItems_of_equalItemsWithin hlen h
    · rename_i hlen
      rw [equalItems_of_length_ne hlen]
      exact Option.some.inj h
  | .number _, _ | .boolean _, _ | .closure _, _ | .builtin _, _ | .foreign _, _
  | .array _, .number _ | .array _, .boolean _ | .array _, .closure _ | .array _, .builtin _
  | .array _, .foreign _ => exact Option.some.inj h

/-- An answer within a bound for equally long lists is the answer. -/
theorem equalItems_of_equalItemsWithin {depth : Nat} {vs ws : List Value} {b : Bool}
    (hlen : vs.length = ws.length) (h : equalItemsWithin depth vs ws = some b) :
    equalItems vs ws = b := by
  match vs, ws with
  | [], [] => exact Option.some.inj h
  | v :: vs, w :: ws =>
    rw [equalItemsWithin] at h
    rw [equalItems]
    split at h
    · rename_i hkind
      split at h
      · rename_i hv
        rw [hkind, equals_of_equalsWithin hv, Bool.and_self, Bool.true_and]
        exact equalItems_of_equalItemsWithin (Nat.succ.inj hlen) h
      · rename_i hv
        cases b with
        | true => exact absurd h hv
        | false => rw [equals_of_equalsWithin h, Bool.and_false, Bool.false_and]
    · rename_i hkind
      rw [Bool.eq_false_iff.mpr hkind, Bool.false_and, Bool.false_and]
      exact Option.some.inj h

end

mutual

/-- An answer within a bound is the answer within a larger one. -/
theorem equalsWithin_of_le {depth depth' : Nat} (hle : depth ≤ depth') {v w : Value} {b : Bool}
    (h : equalsWithin depth v w = some b) : equalsWithin depth' v w = some b := by
  match v, w with
  | .array vs, .array ws =>
    simp only [equalsWithin] at h ⊢
    split at h
    · rename_i hlen
      rw [if_pos hlen]
      match depth, depth' with
      | 0, _ => contradiction
      | depth + 1, 0 => exact absurd hle (Nat.not_succ_le_zero depth)
      | depth + 1, depth' + 1 => exact equalItemsWithin_of_le (Nat.le_of_succ_le_succ hle) h
    · rename_i hlen
      rw [if_neg hlen]
      exact h
  | .number _, _ | .boolean _, _ | .closure _, _ | .builtin _, _ | .foreign _, _
  | .array _, .number _ | .array _, .boolean _ | .array _, .closure _ | .array _, .builtin _
  | .array _, .foreign _ => exact h

/-- An answer within a bound for lists is the answer within a larger one. -/
theorem equalItemsWithin_of_le {depth depth' : Nat} (hle : depth ≤ depth') {vs ws : List Value}
    {b : Bool} (h : equalItemsWithin depth vs ws = some b) :
    equalItemsWithin depth' vs ws = some b := by
  match vs, ws with
  | v :: vs, w :: ws =>
    rw [equalItemsWithin] at h ⊢
    split at h
    · rename_i hkind
      rw [if_pos hkind]
      cases hv : equalsWithin depth v w with
      | none =>
        rw [hv] at h
        contradiction
      | some c =>
        rw [hv] at h
        rw [equalsWithin_of_le hle hv]
        cases c with
        | true => exact equalItemsWithin_of_le hle h
        | false => exact h
    · rename_i hkind
      rw [if_neg hkind]
      exact h
  | [], _ | _ :: _, [] => exact h

end

end Bella.Value
