import Bella.Operator
import Bella.Proofs.Number.Rounding

/-!
# The remainder

The remainder of two numbers is what is left of the first one after the second one has been taken
away from it a whole number of times, as often as it goes into it. In a common unit both are integers,
and so is the remainder; the unit is that of one of the two, whose significand the remainder does not
exceed. So the remainder needs no more digits than a number has, and nothing is rounded, however far
apart the two numbers are.

The quotient is cut toward zero, so the remainder has the sign of the first number, and a remainder
that is zero has its sign, too.

## Main definitions

* `Bella.Number.truncate`: the integer part of a rational.

## Main results

* `Bella.Number.abs_sub_mul_truncate_lt`, `Bella.Number.mul_sub_mul_truncate_nonneg`: the size and the
  sign of a remainder.
* `Bella.Number.remainder_of_finite`: the remainder of finite numbers in a common unit.
* `Bella.Number.remainder_exact`: what the remainder of any two numbers is.
-/

namespace Bella.Number

/-! ### Truncated division of rationals -/

/-- The integer part of a rational, which does not exceed it in size. -/
def truncate (q : ℚ) : ℤ := if 0 ≤ q then ⌊q⌋ else ⌈q⌉

theorem truncate_neg (q : ℚ) : truncate (-q) = -truncate q := by
  unfold truncate
  obtain hneg | rfl | hpos := lt_trichotomy q 0
  · rw [if_pos (neg_nonneg.mpr hneg.le), if_neg hneg.not_ge, Int.floor_neg]
  · simp
  · rw [if_neg (by simpa using hpos), if_pos hpos.le, Int.ceil_neg]

theorem truncate_natCast_div (m n : Nat) : truncate ((m : ℚ) / n) = (m / n : Nat) := by
  have hnonneg : (0 : ℚ) ≤ m / n := by positivity
  rw [truncate, if_pos hnonneg, Rat.floor_natCast_div_natCast]
  rfl

/-- What the integer part leaves is less than one in size, and has the sign of the rational. -/
theorem sub_truncate_bounds (q : ℚ) : |q - truncate q| < 1 ∧ 0 ≤ q * (q - truncate q) := by
  unfold truncate
  split
  · rename_i hq
    have hle := Int.floor_le q
    have hlt := Int.lt_floor_add_one q
    exact ⟨abs_lt.mpr ⟨by linarith, by linarith⟩, mul_nonneg hq (by linarith)⟩
  · rename_i hq
    have hle := Int.le_ceil q
    have hlt := Int.ceil_lt_add_one q
    exact ⟨abs_lt.mpr ⟨by linarith, by linarith⟩,
      mul_nonneg_of_nonpos_of_nonpos (not_le.mp hq).le (by linarith)⟩

section Rationals

variable {x y : ℚ}

private theorem sub_mul_truncate_eq (hy : y ≠ 0) :
    x - y * truncate (x / y) = y * (x / y - truncate (x / y)) := by
  rw [mul_sub, mul_div_cancel₀ x hy]

/-- The remainder is smaller than the divisor. -/
theorem abs_sub_mul_truncate_lt (hy : y ≠ 0) : |x - y * truncate (x / y)| < |y| := by
  rw [sub_mul_truncate_eq hy, abs_mul]
  exact mul_lt_of_lt_one_right (abs_pos.mpr hy) (sub_truncate_bounds _).1

/-- The remainder has the sign of the dividend. -/
theorem mul_sub_mul_truncate_nonneg (hy : y ≠ 0) : 0 ≤ x * (x - y * truncate (x / y)) := by
  have hproduct : x * (x - y * truncate (x / y)) =
      y ^ 2 * (x / y * (x / y - truncate (x / y))) := by
    rw [sub_mul_truncate_eq hy]
    field_simp
  rw [hproduct]
  exact mul_nonneg (sq_nonneg y) (sub_truncate_bounds _).2

/-- A remainder that is not zero is negative or positive with the dividend. -/
theorem sign_sub_mul_truncate (hy : y ≠ 0) (hr : x - y * truncate (x / y) ≠ 0) :
    SignType.sign (x - y * truncate (x / y)) = SignType.sign x := by
  have hx : x ≠ 0 := by
    rintro rfl
    exact hr (by simp [truncate])
  have hpos := lt_of_le_of_ne (mul_sub_mul_truncate_nonneg hy) (mul_ne_zero hx hr).symm
  obtain ⟨hxpos, hrpos⟩ | ⟨hxneg, hrneg⟩ := pos_and_pos_or_neg_and_neg_of_mul_pos hpos
  · rw [sign_pos hxpos, sign_pos hrpos]
  · rw [sign_neg hxneg, sign_neg hrneg]

/-- The sign of the divisor does not matter to the remainder, and that of the dividend is its own. -/
theorem signed_sub_mul_truncate (negative negative' : Bool) (x y : ℚ) :
    (if negative then -x else x) - (if negative' then -y else y) *
        truncate ((if negative then -x else x) / if negative' then -y else y) =
      if negative then -(x - y * truncate (x / y)) else x - y * truncate (x / y) := by
  cases negative <;> cases negative' <;> simp [neg_div, div_neg, truncate_neg] <;> ring

end Rationals

/-- In a common unit the remainder is that of natural numbers. -/
theorem sub_mul_truncate_natCast (m n : Nat) {unit : ℚ} (hunit : 0 < unit) :
    m * unit - n * unit * truncate (m * unit / (n * unit)) = (m % n : Nat) * unit := by
  have hsum : (n : ℚ) * (m / n : Nat) + (m % n : Nat) = m := by exact_mod_cast Nat.div_add_mod m n
  rw [mul_div_mul_right _ _ hunit.ne', truncate_natCast_div]
  linear_combination -unit * hsum

/-! ### The remainder of finite numbers -/

/-- A significand in a finer unit. -/
private theorem cast_alignTo_mul_spacing (m k n : Nat) :
    (alignTo (k + minExponent) m ((k + n : Nat) + minExponent) : ℚ) * spacing k =
      m * spacing (k + n) := by
  have hexponent : (((k + n : Nat) : Int) + minExponent - (k + minExponent)).toNat = n := by
    omega
  rw [alignTo, hexponent, spacing_add]
  push_cast [Nat.pow_eq]
  ring

/-- In its own unit a significand stays as it is. -/
private theorem alignTo_self (unit : Int) (m : Nat) : alignTo unit m unit = m := by
  simp [alignTo]

section Finite

variable {a b : Float}

/-- In a common unit two finite numbers are integers, and so is their remainder, which is a value. -/
theorem remainder_of_finite (ha : rank a < infinityRank) (hb : rank b < infinityRank)
    (hzero : rankValue (rank b) ≠ 0) :
    ∃ m n k r : Nat, rankValue (rank a) = m * spacing k ∧ rankValue (rank b) = n * spacing k ∧
      rankValue r = (m % n : Nat) * spacing k ∧ remainder a b = ofRank (isNegative a) r := by
  -- The unit is that of the number whose spacing has doubled less often.
  obtain ⟨k, i, j, hi, hj, hunit⟩ : ∃ k i j, doublings (rank a) = k + i ∧
      doublings (rank b) = k + j ∧ (i = 0 ∨ j = 0) := by
    refine ⟨min (doublings (rank a)) (doublings (rank b)), doublings (rank a) - doublings (rank b),
      doublings (rank b) - doublings (rank a), ?_⟩
    omega
  have hmin : min (((k + i : Nat) : Int) + minExponent) ((k + j : Nat) + minExponent) =
      k + minExponent := by omega
  let m := alignTo (k + minExponent) (significandOf (rank a)) ((k + i : Nat) + minExponent)
  let n := alignTo (k + minExponent) (significandOf (rank b)) ((k + j : Nat) + minExponent)
  have hm : rankValue (rank a) = m * spacing k := by
    rw [cast_alignTo_mul_spacing, ← hi, rankValue]
  have hn : rankValue (rank b) = n * spacing k := by
    rw [cast_alignTo_mul_spacing, ← hj, rankValue]
  have hsignificand : significandOf (rank b) ≠ 0 := by
    intro h
    exact hzero (by rw [rankValue, h, Nat.cast_zero, zero_mul])
  have hnpos : 0 < n := by
    refine Nat.pos_of_ne_zero fun h => hzero ?_
    rw [hn, h, Nat.cast_zero, zero_mul]
  have hdigits : m % n ≤ 2 * binade := by
    obtain rfl | rfl := hunit
    · have hself : m = significandOf (rank a) := alignTo_self _ _
      exact (Nat.mod_le m n).trans (hself ▸ (significandOf_lt _).le)
    · have hself : n = significandOf (rank b) := alignTo_self _ _
      exact (Nat.mod_lt m hnpos).le.trans (hself ▸ (significandOf_lt _).le)
  obtain ⟨r, hr⟩ := exists_rankValue_eq hdigits k
  refine ⟨m, n, k, r, hm, hn, hr, ?_⟩
  have hmagnitude : |magnitude (m % n) (k + minExponent)| = rankValue r := by
    rw [hr, magnitude_eq]
    exact abs_of_nonneg (mul_nonneg (Nat.cast_nonneg _) (spacing_pos k).le)
  rw [← roundedRank_of_abs_eq hmagnitude, ← nearest_eq]
  simp only [remainder, exact_of_lt ha, exact_of_lt hb, if_neg hsignificand, hi, hj, hmin, m, n]

variable {x y : ℚ}

/-- The remainder of finite numbers is that of the rationals which they denote, with the sign of the
dividend. -/
theorem toRat?_remainder (ha : toRat? a = some x) (hb : toRat? b = some y) (hy : y ≠ 0) :
    toRat? (remainder a b) = some (x - y * truncate (x / y)) ∧
      isNegative (remainder a b) = isNegative a := by
  obtain ⟨hfinite, rfl⟩ := toRat?_eq_some_iff.mp ha
  obtain ⟨hfinite', rfl⟩ := toRat?_eq_some_iff.mp hb
  have hzero : rankValue (rank b) ≠ 0 := by
    intro h
    exact hy (by simp [h])
  obtain ⟨m, n, k, r, hm, hn, hr, hremainder⟩ := remainder_of_finite hfinite hfinite' hzero
  have hle : r ≤ rank a := by
    rw [← strictMono_rankValue.le_iff_le, hr, hm]
    refine mul_le_mul_of_nonneg_right ?_ (spacing_pos k).le
    exact_mod_cast Nat.mod_le m n
  have hrank : rank (remainder a b) = r := by
    rw [hremainder, rank_ofRank, Nat.min_eq_left (hle.trans hfinite.le)]
  have hsign : isNegative (remainder a b) = isNegative a := by
    rw [hremainder, isNegative_ofRank]
  refine ⟨toRat?_eq_some_iff.mpr ⟨hrank ▸ hle.trans_lt hfinite, ?_⟩, hsign⟩
  rw [signed_sub_mul_truncate, hrank, hsign, hr, hm, hn,
    sub_mul_truncate_natCast m n (spacing_pos k)]

-- The remainder has the sign of the dividend and is exact at any distance.
example : remainder (-7) 2 = -1 ∧ remainder 7 (-2) = 1 ∧ remainder 1e308 3 = 2 := by decide +kernel

end Finite

/-! ### All numbers -/

theorem exact_nan : exact nan = .nan := exact_of_gt (by decide +kernel)

/-- A number is infinite or `nan` if it denotes no rational. -/
theorem toRat?_eq_none_iff {x : Float} :
    toRat? x = none ↔ (∃ negative, exact x = .infinite negative) ∨ exact x = .nan := by
  unfold toRat?
  cases exact x <;> simp

/-- A number that denotes a rational is finite. -/
theorem exact_of_toRat? {x : Float} {r : ℚ} (h : toRat? x = some r) :
    ∃ negative m q, exact x = .finite negative m q ∧ (r = 0 ↔ m = 0) := by
  unfold toRat? at h
  cases hx : exact x with
  | nan => simp [hx] at h
  | infinite negative => simp [hx] at h
  | finite negative m q =>
    simp only [hx, Option.some.injEq] at h
    refine ⟨negative, m, q, rfl, ?_⟩
    subst h
    have hpow : (2 : ℚ) ^ q ≠ 0 := zpow_ne_zero q two_ne_zero
    cases negative <;> simp [magnitude_eq, hpow]

section All

variable {a b : Float} {x : ℚ}

/-- An infinite divisor leaves all of a finite dividend. -/
theorem remainder_of_infinite (ha : toRat? a = some x) {negative : Bool}
    (hb : exact b = .infinite negative) : remainder a b = a := by
  obtain ⟨_, _, _, ha, -⟩ := exact_of_toRat? ha
  simp only [remainder, ha, hb]

theorem remainder_of_nan (hb : exact b = .nan) : remainder a b = nan := by
  unfold remainder
  cases exact a <;> simp only [hb]

theorem remainder_of_zero (ha : toRat? a = some x) (hb : toRat? b = some 0) :
    remainder a b = nan := by
  obtain ⟨_, _, _, ha, -⟩ := exact_of_toRat? ha
  obtain ⟨_, _, _, hb, hzero⟩ := exact_of_toRat? hb
  simp only [remainder, ha, hb, if_pos (hzero.mp rfl)]

/-- The remainder is `nan` if and only if the dividend is infinite or `nan`, or the divisor is zero
or `nan`. -/
theorem exact_remainder_eq_nan_iff :
    exact (remainder a b) = .nan ↔ toRat? a = none ∨ toRat? b = some 0 ∨ exact b = .nan := by
  have hsome {z : Float} {r : ℚ} (hz : toRat? z = some r) : exact z ≠ .nan := by
    obtain ⟨_, _, _, hz, -⟩ := exact_of_toRat? hz
    rw [hz]
    nofun
  cases ha : toRat? a with
  | none =>
    have hnan : remainder a b = nan := by
      obtain ⟨negative, h⟩ | h := toRat?_eq_none_iff.mp ha <;> simp only [remainder, h]
    simp [hnan, exact_nan]
  | some x =>
    cases hb : toRat? b with
    | none =>
      obtain ⟨negative, h⟩ | h := toRat?_eq_none_iff.mp hb
      · simp [remainder_of_infinite ha h, hsome ha, h]
      · simp [remainder_of_nan h, exact_nan, h]
    | some y =>
      by_cases hy : y = 0
      · subst hy
        simp [remainder_of_zero ha hb, exact_nan]
      · simp [hsome (toRat?_remainder ha hb hy).1, hy, hsome hb]

end All

/-- **The remainder is exact.** Take any two numbers. If both are finite and the second one is not
zero, then the operator `%` gives a finite number, and the rational that it denotes is what is left
of the first one when the second one is taken away as often as their quotient, cut toward zero, says.
So it is smaller in size than the second one, and it has the sign of the first one; if it is zero, its
sign is that of the first one, too. If the first one is finite and the second one infinite, the
operator gives the first one. And it gives `nan` if and only if the first one is infinite or `nan`, or
the second one is zero or `nan`. -/
theorem remainder_exact (a b : Float) :
    (∀ x y, toRat? a = some x → toRat? b = some y → y ≠ 0 →
      ∃ r, toRat? (ArithmeticOp.rem.apply a b) = some r ∧ r = x - y * truncate (x / y) ∧
        |r| < |y| ∧ (r ≠ 0 → SignType.sign r = SignType.sign x) ∧
        isNegative (ArithmeticOp.rem.apply a b) = isNegative a) ∧
      (∀ x negative, toRat? a = some x → exact b = .infinite negative →
        ArithmeticOp.rem.apply a b = a) ∧
      (exact (ArithmeticOp.rem.apply a b) = .nan ↔
        toRat? a = none ∨ toRat? b = some 0 ∨ exact b = .nan) := by
  refine ⟨fun x y ha hb hy => ?_, fun x negative ha hb => remainder_of_infinite ha hb,
    exact_remainder_eq_nan_iff⟩
  obtain ⟨hvalue, hsign⟩ := toRat?_remainder ha hb hy
  exact ⟨_, hvalue, rfl, abs_sub_mul_truncate_lt hy, sign_sub_mul_truncate hy, hsign⟩

private theorem exists_toRat? {x : Float} {negative : Bool} {m : Nat} {q : ℤ}
    (h : exact x = .finite negative m q) : ∃ r, toRat? x = some r ∧ |r| = (m : ℚ) * 2 ^ q := by
  have hnonneg : 0 ≤ (m : ℚ) * 2 ^ q := mul_nonneg m.cast_nonneg (zpow_pos two_pos q).le
  refine ⟨if negative then -((m : ℚ) * 2 ^ q) else (m : ℚ) * 2 ^ q, ?_, ?_⟩
  · simp only [toRat?, h, magnitude_eq]
  · cases negative <;> simp [abs_of_nonneg hnonneg]

/-- The largest number and three times the smallest one are two thousand powers of two apart and leave
a remainder that is smaller still. Minus six leaves minus zero after it is divided by three. -/
theorem remainder_exact_of_extremes :
    (∃ r, toRat? (ArithmeticOp.rem.apply 1.7976931348623157e308 1.5e-323) = some r ∧
      |r| < (3 : Nat) * 2 ^ (-1074 : ℤ)) ∧
      isNegative (ArithmeticOp.rem.apply (-6) 3) = true ∧
      ArithmeticOp.rem.apply (-6) (infinity false) = -6 ∧
      exact (ArithmeticOp.rem.apply (-6) 0) = .nan := by
  have hlarge : exact 1.7976931348623157e308 = .finite false (2 ^ 53 - 1) 971 := by decide +kernel
  have hsmall : exact 1.5e-323 = .finite false 3 (-1074) := by decide +kernel
  have hsix : exact (-6) = .finite true (3 * 2 ^ 51) (-50) := by decide +kernel
  have hthree : exact 3 = .finite false (3 * 2 ^ 51) (-51) := by decide +kernel
  have hzero : exact 0 = .finite false 0 (-1074) := by decide +kernel
  have hne {y : ℚ} {m : Nat} {q : ℤ} (hm : m ≠ 0) (hy : |y| = (m : ℚ) * 2 ^ q) : y ≠ 0 := by
    rw [← abs_ne_zero, hy]
    exact mul_ne_zero (Nat.cast_ne_zero.mpr hm) (zpow_ne_zero q two_ne_zero)
  obtain ⟨six, ha, -⟩ := exists_toRat? hsix
  refine ⟨?_, ?_, ?_, ?_⟩
  · obtain ⟨x, hx, -⟩ := exists_toRat? hlarge
    obtain ⟨y, hy, habs⟩ := exists_toRat? hsmall
    obtain ⟨r, hr, -, hlt, -⟩ := (remainder_exact _ _).1 x y hx hy (hne (by decide) habs)
    exact ⟨r, hr, habs ▸ hlt⟩
  · obtain ⟨y, hy, habs⟩ := exists_toRat? hthree
    obtain ⟨r, -, -, -, -, hsign⟩ := (remainder_exact _ _).1 six y ha hy (hne (by decide) habs)
    exact hsign.trans (by decide +kernel)
  · exact (remainder_exact _ _).2.1 six false ha (exact_of_eq rfl)
  · obtain ⟨y, hy, habs⟩ := exists_toRat? hzero
    rw [Nat.cast_zero, zero_mul, abs_eq_zero] at habs
    exact (remainder_exact _ _).2.2.mpr (.inr (.inl (habs ▸ hy)))

end Bella.Number
