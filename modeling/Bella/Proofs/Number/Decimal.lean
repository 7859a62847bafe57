import Bella.Number.Decimal
import Bella.Proofs.Number.Rounding

/-!
# Decimals and numbers

Reading a decimal rounds its exact value: the bounds beyond which no large power is computed only
cut off what is infinite or zero anyway. So decimals of the same value read as the same number. The
shortest decimal of a magnitude is found by reading candidates back, and if none of them is found
then the exact expansion is taken, which has the value of the magnitude itself; either way it reads
back.

## Main results

* `Bella.Decimal.toNumber_eq_nearest`: a decimal reads as the number nearest to its value.
* `Bella.Decimal.roundedRank_shortest`: the shortest decimal of a magnitude reads back.
-/

namespace Bella.Decimal

open Number

/-- A power of ten with a natural exponent, in the form that computations use. -/
private theorem cast_pow_ten (n : Nat) : ((Nat.pow 10 n : Nat) : ℚ) = 10 ^ n := Nat.cast_pow 10 n

theorem toRat_eq (d : Decimal) : d.toRat = d.units * 10 ^ d.exponent := by
  unfold toRat
  split
  · rename_i h
    obtain ⟨n, hn⟩ := Int.eq_ofNat_of_zero_le h
    rw [hn, Int.toNat_natCast, zpow_natCast, Nat.cast_mul, cast_pow_ten]
  · rename_i h
    obtain ⟨n, hn⟩ := Int.eq_ofNat_of_zero_le (show 0 ≤ -d.exponent by omega)
    obtain hexponent : d.exponent = -n := by omega
    rw [hexponent, neg_neg, Int.toNat_natCast, Rat.mkRat_eq_div, zpow_neg, zpow_natCast,
      cast_pow_ten, Int.cast_natCast, div_eq_mul_inv]

theorem toRat_nonneg (d : Decimal) : 0 ≤ d.toRat := by
  rw [toRat_eq]
  positivity

/-- A natural number lies between the powers of ten that its digits count. -/
theorem toDigits_bounds {n : Nat} (h : 0 < n) :
    10 ^ ((Nat.toDigits 10 n).length - 1) ≤ n ∧ n < 10 ^ (Nat.toDigits 10 n).length := by
  have hpos : 0 < (Nat.toDigits 10 n).length := Nat.length_toDigits_pos
  refine ⟨?_, (Nat.length_toDigits_le_iff (by decide) hpos).mp le_rfl⟩
  by_contra hlt
  obtain hzero | hpred := Nat.eq_zero_or_pos ((Nat.toDigits 10 n).length - 1)
  · rw [hzero] at hlt
    omega
  · have hle := (Nat.length_toDigits_le_iff (by decide) hpred).mpr (Nat.lt_of_not_le hlt)
    omega

/-- The powers of ten around a decimal that is not zero. -/
theorem ceilingExponent_bounds {d : Decimal} (h : 0 < d.units) :
    (10 : ℚ) ^ (d.ceilingExponent - 1) ≤ d.toRat ∧ d.toRat < 10 ^ d.ceilingExponent := by
  obtain ⟨hlow, hhigh⟩ := toDigits_bounds h
  have hlow' : (10 : ℚ) ^ ((Nat.toDigits 10 d.units).length - 1) ≤ d.units := by exact_mod_cast hlow
  have hhigh' : (d.units : ℚ) < 10 ^ (Nat.toDigits 10 d.units).length := by exact_mod_cast hhigh
  have hpos : 0 < (Nat.toDigits 10 d.units).length := Nat.length_toDigits_pos
  have hceiling : d.ceilingExponent = (Nat.toDigits 10 d.units).length + d.exponent := rfl
  have hpow : (0 : ℚ) < 10 ^ d.exponent := by positivity
  rw [toRat_eq, hceiling]
  constructor
  · have hexponent : ((Nat.toDigits 10 d.units).length : Int) + d.exponent - 1 =
        ((Nat.toDigits 10 d.units).length - 1 : Nat) + d.exponent := by omega
    rw [hexponent, zpow_add₀ (by norm_num), zpow_natCast]
    exact mul_le_mul_of_nonneg_right hlow' hpow.le
  · rw [zpow_add₀ (by norm_num), zpow_natCast]
    exact mul_lt_mul_of_pos_right hhigh' hpow

/-- Powers of ten exceed those of eight. -/
private theorem two_pow_le_ten_pow (n : Nat) : (2 : ℚ) ^ (3 * n) ≤ 10 ^ n := by
  rw [pow_mul]
  exact pow_le_pow_left₀ (by norm_num) (by norm_num) n

/-- What is large in tens is infinite. -/
private theorem infinityRank_le_of_pow_le {x : ℚ} (h : (10 : ℚ) ^ 400 ≤ x) :
    infinityRank ≤ roundedRank x := by
  have hbound : overflowBound ≤ 10 ^ 400 :=
    calc overflowBound ≤ 2 ^ 1024 := sub_le_self _ (pow_nonneg zero_le_two 970)
      _ ≤ 2 ^ (3 * 400) := pow_le_pow_right₀ one_le_two (by decide)
      _ ≤ 10 ^ 400 := two_pow_le_ten_pow 400
  by_contra hlt
  have habs := roundedRank_lt_iff.mp (Nat.lt_of_not_le hlt)
  exact absurd (le_abs_self x) (not_le.mpr (habs.trans_le (hbound.trans h)))

/-- What is small in tens is zero. -/
private theorem roundedRank_of_lt_pow {x : ℚ} (hx : 0 ≤ x) (h : x < 10 ^ (-400 : Int)) :
    roundedRank x = 0 := by
  refine roundedRank_eq_zero ?_
  rw [abs_of_nonneg hx]
  have hpow : (10 : ℚ) ^ (-400 : Int) ≤ (2 ^ (3 * 400))⁻¹ := by
    rw [zpow_neg, zpow_ofNat]
    exact inv_anti₀ (pow_pos two_pos _) (two_pow_le_ten_pow 400)
  calc 2 * x < 2 * (2 ^ (3 * 400))⁻¹ := mul_lt_mul_of_pos_left (h.trans_le hpow) two_pos
    _ = 2 ^ (-1199 : Int) := by
      rw [← zpow_natCast, ← zpow_neg, ← zpow_one_add₀ two_ne_zero]
      rfl
    _ ≤ spacing 0 := zpow_le_zpow_right₀ one_le_two (by decide)

/-- A decimal reads as the number nearest to its value, whatever its size. -/
theorem toNumber_eq_nearest (negative : Bool) (d : Decimal) :
    d.toNumber negative = nearest negative d.toRat := by
  unfold toNumber
  split
  · rename_i hzero
    have hvalue : d.toRat = 0 := by rw [toRat_eq, hzero, Nat.cast_zero, zero_mul]
    rw [hvalue, nearest_eq, roundedRank_of_abs_eq (r := 0) (by simp)]
  rename_i hunits
  obtain ⟨hlow, hhigh⟩ := ceilingExponent_bounds (Nat.pos_of_ne_zero hunits)
  split
  · rename_i hlarge
    have hpow : (10 : ℚ) ^ 400 ≤ 10 ^ (d.ceilingExponent - 1) := by
      rw [← zpow_natCast]
      exact zpow_le_zpow_right₀ (by norm_num) (by omega)
    rw [nearest_eq, ofRank_of_le (infinityRank_le_of_pow_le (hpow.trans hlow))]
  split
  · rename_i hsmall
    have hpow : (10 : ℚ) ^ d.ceilingExponent ≤ 10 ^ (-400 : Int) :=
      zpow_le_zpow_right₀ (by norm_num) (by omega)
    rw [nearest_eq, roundedRank_of_lt_pow d.toRat_nonneg (hhigh.trans_le hpow)]
  · rfl

/-- A decimal of a magnitude reads as the number with that magnitude. -/
theorem toNumber_of_roundedRank {d : Decimal} {r : Nat} (h : roundedRank d.toRat = r)
    (negative : Bool) : d.toNumber negative = ofRank negative r := by
  rw [toNumber_eq_nearest, nearest_eq, h]

/-! ### The shortest decimal -/

/-- The expansion has the value of the magnitude. -/
theorem toRat_expansion (m : Nat) (q : Int) : (expansion m q).toRat = magnitude m q := by
  rw [toRat_eq, magnitude_eq]
  unfold expansion
  split
  · rename_i h
    obtain ⟨n, rfl⟩ := Int.eq_ofNat_of_zero_le h
    rw [zpow_zero, mul_one, Int.toNat_natCast, Nat.cast_mul, zpow_natCast]
    exact congrArg _ (Nat.cast_pow 2 n)
  · rename_i h
    obtain ⟨n, hn⟩ := Int.eq_ofNat_of_zero_le (show 0 ≤ -q by omega)
    obtain rfl : q = -n := by omega
    have hfive : ((Nat.pow 5 n : Nat) : ℚ) = 5 ^ n := Nat.cast_pow 5 n
    have hten : (10 : ℚ) ^ n = 5 ^ n * 2 ^ n := by rw [← mul_pow]; norm_num
    rw [neg_neg, Int.toNat_natCast, Nat.cast_mul, hfive, zpow_neg, zpow_neg, zpow_natCast,
      zpow_natCast, hten]
    field_simp

/-- The shortest decimal of a finite magnitude reads back. -/
theorem roundedRank_shortest {r : Nat} (h : r < infinityRank) :
    roundedRank (shortest (significandOf r) (doublings r + minExponent)).toRat = r := by
  have hvalue := magnitude_rank r
  have habs : |magnitude (significandOf r) (doublings r + minExponent)| = rankValue r := by
    rw [hvalue, abs_of_nonneg (rankValue_nonneg r)]
  have htarget := roundedRank_of_abs_eq habs
  have hexpansion :
      roundedRank (expansion (significandOf r) (doublings r + minExponent)).toRat = r := by
    rw [toRat_expansion, htarget]
  unfold shortest
  split
  · rename_i hzero
    rw [hzero, magnitude_eq, Nat.cast_zero, zero_mul] at htarget
    have hnil : toRat ⟨0, 0⟩ = 0 := by rw [toRat_eq, Nat.cast_zero, zero_mul]
    rw [hnil, htarget]
  · dsimp only
    generalize hfound : List.findSome? _ _ = found
    cases found with
    | none => exact hexpansion
    | some d =>
      -- What the search gives was read back and had the rank that was looked for.
      obtain ⟨n, -, hn⟩ := List.exists_of_findSome?_eq_some hfound
      have hread := List.find?_some hn
      rw [beq_iff_eq] at hread
      change rank (d.toNumber false) = roundedRank _ at hread
      rw [htarget, toNumber_eq_nearest, nearest_eq, rank_ofRank] at hread
      rw [Option.getD_some]
      omega

end Bella.Decimal
