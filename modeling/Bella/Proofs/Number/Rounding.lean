import Bella.Proofs.Number.Magnitude

/-!
# Rounding to the nearest number

Rounding finds the magnitude whose value is nearest to a positive rational, and of two that are
equally near the one with the even significand. The rational is measured in the spacing of its own
binade. The magnitudes that are not multiples of this spacing lie below the binade, so rounding to
the nearest multiple is enough, and a significand that overflows is the first one of the next
binade.

The value of a magnitude is nearest to itself, so it rounds to itself. From the point half way
between the last finite magnitude and the next power of two on, rationals round to infinity.

## Main definitions

* `Bella.Number.roundedRank`: the rank of the magnitude nearest to that of a rational.
* `Bella.Number.IsNearest`: the number nearest to a rational, with ties to the even significand.

## Main results

* `Bella.Number.abs_sub_roundedRank_le`, `Bella.Number.roundedRank_even`: the nearest magnitude.
* `Bella.Number.roundedRank_of_abs_eq`: a magnitude is nearest to its value.
* `Bella.Number.roundedRank_lt_iff`: which rationals are not too large.
* `Bella.Number.isNearest_nearest`: rounding gives the nearest number.
-/

namespace Bella.Number

/-! ### Integers near a ratio -/

/-- The nearest integer to a ratio is at most half a unit away from it, and even if it is just that
far. -/
theorem divNearestEven_near (a : Nat) {b : Nat} (hb : 0 < b) :
    2 * |(a : ℚ) / b - divNearestEven a b| ≤ 1 ∧
      (2 * |(a : ℚ) / b - divNearestEven a b| = 1 → divNearestEven a b % 2 = 0) := by
  have hb' : (0 : ℚ) < b := by exact_mod_cast hb
  have hsum : (a / b : Nat) * (b : ℚ) + (a % b : Nat) = a := by exact_mod_cast Nat.div_add_mod' a b
  have hratio : (a : ℚ) / b = (a / b : Nat) + ((a % b : Nat) : ℚ) / b := by
    rw [← hsum]
    field_simp
  unfold divNearestEven
  dsimp only
  rw [hratio]
  split
  · rename_i hlt
    have hfraction : ((a % b : Nat) : ℚ) / b < 1 / 2 := by
      rw [div_lt_div_iff₀ hb' two_pos]
      exact_mod_cast (by omega : a % b * 2 < 1 * b)
    have hnonneg : (0 : ℚ) ≤ ((a % b : Nat) : ℚ) / b := by positivity
    rw [add_sub_cancel_left, abs_of_nonneg hnonneg]
    exact ⟨by linarith, fun h => absurd h (by linarith)⟩
  · split
    · rename_i hgt
      have hfraction : 1 / 2 < ((a % b : Nat) : ℚ) / b := by
        rw [div_lt_div_iff₀ two_pos hb']
        exact_mod_cast (by omega : 1 * b < a % b * 2)
      have hlt : ((a % b : Nat) : ℚ) / b < 1 :=
        (div_lt_one hb').mpr (by exact_mod_cast Nat.mod_lt a hb)
      rw [Nat.cast_succ, add_sub_add_left_eq_sub, abs_of_neg (by linarith)]
      exact ⟨by linarith, fun h => absurd h (by linarith)⟩
    · -- The ratio lies half way, and the even one of its neighbours is taken.
      rename_i hnotlt hnotgt
      have hhalf : ((a % b : Nat) : ℚ) / b = 1 / 2 := by
        rw [div_eq_div_iff hb'.ne' two_ne_zero]
        exact_mod_cast (by omega : a % b * 2 = 1 * b)
      refine ⟨?_, fun _ => by omega⟩
      rw [Nat.cast_add, add_sub_add_left_eq_sub, hhalf]
      obtain hzero | hone := Nat.mod_two_eq_zero_or_one (a / b)
      · rw [hzero]
        norm_num
      · rw [hone]
        norm_num

/-- The nearest integer lies between the integers around the ratio. -/
private theorem divNearestEven_bounds (a b : Nat) :
    a / b ≤ divNearestEven a b ∧ divNearestEven a b ≤ a / b + 1 := by
  unfold divNearestEven
  dsimp only
  split
  · omega
  · split <;> omega

theorem divNearestEven_le {a b n : Nat} (hb : 0 < b) (h : (a : ℚ) / b < n) :
    divNearestEven a b ≤ n := by
  rw [div_lt_iff₀ (by exact_mod_cast hb)] at h
  have hdiv : a / b < n := (Nat.div_lt_iff_lt_mul hb).mpr (by exact_mod_cast h)
  exact (divNearestEven_bounds a b).2.trans hdiv

theorem le_divNearestEven {a b n : Nat} (hb : 0 < b) (h : (n : ℚ) ≤ a / b) :
    n ≤ divNearestEven a b := by
  rw [le_div_iff₀ (by exact_mod_cast hb)] at h
  have hdiv : n ≤ a / b := (Nat.le_div_iff_mul_le hb).mpr (by exact_mod_cast h)
  exact hdiv.trans (divNearestEven_bounds a b).1

/-! ### The binade of a ratio -/

/-- Powers of two around a positive ratio. -/
theorem log2Ratio_bounds {num den : Nat} (hnum : 0 < num) (hden : 0 < den) :
    (2 : ℚ) ^ log2Ratio num den ≤ num / den ∧ (num : ℚ) / den < 2 ^ (log2Ratio num den + 1) := by
  have hden' : (0 : ℚ) < den := by exact_mod_cast hden
  have hnumLow : (2 : ℚ) ^ num.log2 ≤ num := by exact_mod_cast Nat.log2_self_le hnum.ne'
  have hnumHigh : (num : ℚ) < 2 ^ (num.log2 + 1) := by exact_mod_cast Nat.lt_log2_self
  have hdenLow : (2 : ℚ) ^ den.log2 ≤ den := by exact_mod_cast Nat.log2_self_le hden.ne'
  have hdenHigh : (den : ℚ) < 2 ^ (den.log2 + 1) := by exact_mod_cast Nat.lt_log2_self
  have hpow (i j : Nat) : (2 : ℚ) ^ i / 2 ^ j = 2 ^ ((i : Int) - j) := by
    rw [zpow_sub₀ two_ne_zero, zpow_natCast, zpow_natCast]
  generalize he : (num.log2 : Int) - den.log2 = e
  have hlow : (2 : ℚ) ^ (e - 1) < num / den := by
    have h := div_lt_div₀' hnumLow hdenHigh (by positivity) (by positivity)
    have hexponent : (num.log2 : Int) - (den.log2 + 1 : Nat) = e - 1 := by omega
    rw [hpow, hexponent] at h
    exact h
  have hhigh : (num : ℚ) / den < 2 ^ (e + 1) := by
    have h := div_lt_div₀ hnumHigh hdenLow (by positivity) (by positivity)
    have hexponent : ((num.log2 + 1 : Nat) : Int) - den.log2 = e + 1 := by omega
    rw [hpow, hexponent] at h
    exact h
  have hunits := inUnits_div num den e
  have hpos : (0 : ℚ) < (inUnits num den e).2 := by exact_mod_cast inUnits_snd_pos hden e
  have hratio : (num : ℚ) / den = (inUnits num den e).1 / (inUnits num den e).2 * 2 ^ e := by
    rw [hunits, div_mul_cancel₀]
    positivity
  unfold log2Ratio
  dsimp only
  rw [he]
  split
  · rename_i hle
    refine ⟨?_, hhigh⟩
    have hone : (1 : ℚ) ≤ (inUnits num den e).1 / (inUnits num den e).2 :=
      (one_le_div hpos).mpr (by exact_mod_cast hle)
    rw [hratio]
    exact le_mul_of_one_le_left (by positivity) hone
  · rename_i hnot
    refine ⟨hlow.le, ?_⟩
    have hone : ((inUnits num den e).1 : ℚ) / (inUnits num den e).2 < 1 :=
      (div_lt_one hpos).mpr (by exact_mod_cast Nat.lt_of_not_le hnot)
    rw [sub_add_cancel, hratio]
    exact mul_lt_of_lt_one_left (by positivity) hone

/-! ### The nearest magnitude -/

/-- The unit in which a ratio is measured is the spacing of its binade, or the least one. -/
private theorem exists_spacing {num den : Nat} (hnum : 0 < num) (hden : 0 < den) :
    ∃ k : Nat, max (log2Ratio num den - 52) minExponent = k + minExponent ∧
      (num : ℚ) / den < (2 * binade : Nat) * spacing k ∧
      (k = 0 ∨ binade * spacing k ≤ (num : ℚ) / den) := by
  obtain ⟨hlow, hhigh⟩ := log2Ratio_bounds hnum hden
  have hmin : minExponent ≤ max (log2Ratio num den - 52) minExponent := le_max_right _ _
  obtain ⟨k, hk⟩ := Int.eq_ofNat_of_zero_le (sub_nonneg.mpr hmin)
  have hbinade : (binade : ℚ) = 2 ^ (52 : Int) := by
    rw [show (52 : Int) = (52 : Nat) from rfl, zpow_natCast]
    exact Nat.cast_pow 2 52
  refine ⟨k, by omega, ?_, or_iff_not_imp_left.mpr fun hne => ?_⟩
  · refine hhigh.trans_le ?_
    rw [Nat.cast_mul, hbinade, Nat.cast_ofNat, spacing, ← zpow_one_add₀ two_ne_zero,
      ← zpow_add₀ two_ne_zero]
    exact zpow_le_zpow_right₀ one_le_two (by omega)
  · rw [spacing, hbinade, ← zpow_add₀ two_ne_zero]
    exact (zpow_le_zpow_right₀ one_le_two (by omega)).trans hlow

/-- Rounding measures a ratio in the spacing of its binade and takes the nearest multiple. -/
theorem nearestRank_eq {num den : Nat} (hnum : 0 < num) (hden : 0 < den) :
    ∃ k n : Nat, nearestRank num den = k * binade + n ∧ n ≤ 2 * binade ∧
      (k = 0 ∨ binade ≤ n ∧ binade * spacing k ≤ (num : ℚ) / den) ∧
      2 * |(num : ℚ) / den - n * spacing k| ≤ spacing k ∧
      (2 * |(num : ℚ) / den - n * spacing k| = spacing k → n % 2 = 0) := by
  obtain ⟨k, hk, hhigh, hlow⟩ := exists_spacing hnum hden
  have hpos := spacing_pos k
  have hrank : nearestRank num den = k * binade +
      divNearestEven (inUnits num den (k + minExponent)).1
        (inUnits num den (k + minExponent)).2 := by
    unfold nearestRank
    rw [if_neg hnum.ne']
    dsimp only
    rw [hk, Int.add_sub_cancel, Int.toNat_natCast]
  have hunits : ((inUnits num den (k + minExponent)).1 : ℚ) /
      (inUnits num den (k + minExponent)).2 = num / den / spacing k := inUnits_div num den _
  have hsnd : 0 < (inUnits num den (k + minExponent)).2 := inUnits_snd_pos hden _
  generalize (inUnits num den (k + minExponent)).1 = a,
    (inUnits num den (k + minExponent)).2 = b at hrank hunits hsnd
  obtain ⟨hnear, heven⟩ := divNearestEven_near a hsnd
  have hscale : |(num : ℚ) / den - divNearestEven a b * spacing k| =
      |(a : ℚ) / b - divNearestEven a b| * spacing k := by
    rw [hunits, ← abs_of_pos hpos, ← abs_mul, sub_mul, abs_of_pos hpos,
      div_mul_cancel₀ _ hpos.ne']
  refine ⟨k, divNearestEven a b, hrank, ?_, hlow.imp_right fun hle => ⟨?_, hle⟩, ?_, ?_⟩
  · exact divNearestEven_le hsnd (hunits ▸ (div_lt_iff₀ hpos).mpr hhigh)
  · exact le_divNearestEven hsnd (hunits ▸ (le_div_iff₀ hpos).mpr hle)
  · rw [hscale, ← mul_assoc]
    exact mul_le_of_le_one_left hpos.le hnear
  · rw [hscale, ← mul_assoc, mul_eq_right₀ hpos.ne']
    exact heven

/-- A point of a grid that is half a unit away, or nearer, has no nearer one beside it. -/
private theorem grid_near {x s : ℚ} {n j : Nat} (hs : 0 < s) (hn : 2 * |x - n * s| ≤ s)
    (hj : j ≠ n) : s ≤ 2 * |x - j * s| := by
  have hone : (1 : ℚ) ≤ |(j : ℚ) - n| := by
    have hne : (j : Int) - n ≠ 0 := by omega
    have habs : (1 : Int) ≤ |(j : Int) - n| := Int.one_le_abs hne
    exact_mod_cast habs
  have hdist : s ≤ |x - n * s| + |x - j * s| :=
    calc s ≤ |(j : ℚ) - n| * s := le_mul_of_one_le_left hs.le hone
      _ = |(x - n * s) - (x - j * s)| := by
        rw [← abs_of_pos hs, ← abs_mul, abs_of_pos hs]
        congr 1
        ring
      _ ≤ |x - n * s| + |x - j * s| := abs_sub _ _
  linarith

/-- No magnitude is nearer to a ratio than the nearest one, and if another one is as near then the
nearest one is even. -/
private theorem nearestRank_near {num den : Nat} (hden : 0 < den) (r : Nat) :
    |(num : ℚ) / den - rankValue (nearestRank num den)| ≤ |(num : ℚ) / den - rankValue r| ∧
      (|(num : ℚ) / den - rankValue (nearestRank num den)| = |(num : ℚ) / den - rankValue r| →
        r ≠ nearestRank num den → nearestRank num den % 2 = 0) := by
  obtain rfl | hnum := Nat.eq_zero_or_pos num
  · have hzero : nearestRank 0 den = 0 := rfl
    rw [hzero, rankValue_zero, Nat.cast_zero, zero_div, sub_zero, abs_zero]
    exact ⟨abs_nonneg _, fun _ _ => rfl⟩
  obtain ⟨k, n, hrank, hn, hk, hnear, heven⟩ := nearestRank_eq hnum hden
  have hvalue : rankValue (nearestRank num den) = n * spacing k := by
    rw [hrank]
    exact rankValue_mul_add hn (hk.imp_right And.left)
  have hparity : nearestRank num den % 2 = n % 2 := by rw [hrank, rank_even_iff]
  have hpos := spacing_pos k
  rw [hvalue, hparity]
  obtain ⟨j, hj⟩ | ⟨hne, hlt⟩ := rankValue_multiple_or_lt r k
  · obtain rfl | hjn := eq_or_ne j n
    · refine ⟨by rw [hj], fun _ hr => absurd ?_ hr⟩
      exact strictMono_rankValue.injective (hj.trans hvalue.symm)
    · have hgrid := grid_near hpos hnear hjn
      rw [hj]
      exact ⟨by linarith, fun htie _ => heven (by linarith)⟩
  · -- Below its binade the ratio is nearer to the first magnitude of the binade.
    obtain hzero | ⟨-, hle⟩ := hk
    · exact absurd hzero hne
    have hfirst : |(num : ℚ) / den - n * spacing k| ≤ (num : ℚ) / den - binade * spacing k := by
      rw [← abs_of_nonneg (sub_nonneg.mpr hle)]
      obtain rfl | hbn := eq_or_ne binade n
      · exact le_rfl
      · linarith [grid_near hpos hnear hbn]
    rw [abs_of_pos (by linarith : 0 < (num : ℚ) / den - rankValue r)]
    exact ⟨by linarith, fun htie _ => absurd htie (by linarith)⟩

/-! ### Rationals -/

/-- The rank of the magnitude nearest to that of a rational. -/
def roundedRank (x : ℚ) : Nat := nearestRank x.num.natAbs x.den

theorem nearest_eq (negative : Bool) (x : ℚ) :
    nearest negative x = ofRank negative (roundedRank x) := rfl

private theorem natAbs_div_den (x : ℚ) : (x.num.natAbs : ℚ) / x.den = |x| := by
  rw [Nat.cast_natAbs, Int.cast_abs, ← Nat.abs_cast x.den, ← abs_div, Rat.num_div_den]

variable {x : ℚ}

/-- No magnitude is nearer than the nearest one. -/
theorem abs_sub_roundedRank_le (x : ℚ) (r : Nat) :
    |(|x| - rankValue (roundedRank x))| ≤ |(|x| - rankValue r)| := by
  rw [← natAbs_div_den x]
  exact (nearestRank_near x.den_pos r).1

/-- If another magnitude is as near then the nearest one is even. -/
theorem roundedRank_even {r : Nat}
    (htie : |(|x| - rankValue (roundedRank x))| = |(|x| - rankValue r)|)
    (hr : r ≠ roundedRank x) : roundedRank x % 2 = 0 := by
  rw [← natAbs_div_den x] at htie
  exact (nearestRank_near x.den_pos r).2 htie hr

/-- The nearest magnitude to the value of a rank is that of the rank. -/
theorem roundedRank_of_abs_eq {r : Nat} (h : |x| = rankValue r) : roundedRank x = r := by
  have hle := abs_sub_roundedRank_le x r
  rw [h, sub_self, abs_zero, abs_nonpos_iff, sub_eq_zero] at hle
  exact (strictMono_rankValue.injective hle).symm

/-- The least magnitude that is too large: half way from the last finite one to the next power of
two. -/
def overflowBound : ℚ := 2 ^ 1024 - 2 ^ 970

/-- The spacing of the last binade. -/
private theorem spacing_last : spacing 2045 = 2 ^ 971 := by
  rw [spacing, ← zpow_natCast]
  rfl

private theorem overflowBound_eq : overflowBound = (2 * binade - 1 / 2) * spacing 2045 := by
  have hlast : (2 : ℚ) ^ 971 = 2 * 2 ^ 970 := pow_succ' 2 970
  have hfirst : (2 : ℚ) ^ 1024 = 2 * 2 ^ 52 * 2 ^ 971 := by rw [← pow_succ', ← pow_add]
  have hbinade : (binade : ℚ) = 2 ^ 52 := Nat.cast_pow 2 52
  rw [overflowBound, spacing_last, hbinade, hfirst, hlast]
  generalize (2 : ℚ) ^ 970 = half
  ring

private theorem rankValue_infinityRank : rankValue infinityRank = 2 * binade * spacing 2045 := by
  have hrank : infinityRank = 2045 * binade + 2 * binade := rfl
  rw [hrank, rankValue_mul_add le_rfl (.inr (by omega))]
  push_cast
  rfl

private theorem rankValue_last :
    rankValue (infinityRank - 1) = (2 * binade - 1) * spacing 2045 := by
  have hrank : infinityRank - 1 = 2045 * binade + (2 * binade - 1) := rfl
  have hpos := binade_pos
  rw [hrank, rankValue_mul_add (Nat.sub_le _ _) (.inr (by omega)),
    Nat.cast_sub (by omega : 1 ≤ 2 * binade)]
  push_cast
  rfl

/-- The rationals that are near a finite number are those below the bound. -/
theorem roundedRank_lt_iff : roundedRank x < infinityRank ↔ |x| < overflowBound := by
  have hpos := spacing_pos 2045
  have hinfinity := rankValue_infinityRank
  have hlast := rankValue_last
  rw [overflowBound_eq]
  generalize spacing 2045 = s at *
  constructor
  · intro hlt
    by_contra hnot
    have hvalue : rankValue (roundedRank x) ≤ rankValue (infinityRank - 1) :=
      strictMono_rankValue.monotone (Nat.le_sub_one_of_lt hlt)
    have hnear := abs_sub_roundedRank_le x infinityRank
    have hbelow : |(|x| - rankValue (roundedRank x))| = |x| - rankValue (roundedRank x) :=
      abs_of_nonneg (by linarith)
    obtain hle | hgt := le_or_gt (rankValue infinityRank) |x|
    · rw [hbelow, abs_of_nonneg (sub_nonneg.mpr hle)] at hnear
      linarith
    · -- The rational lies half way, and the last rank is odd.
      have habove : |(|x| - rankValue infinityRank)| = rankValue infinityRank - |x| := by
        rw [abs_of_neg (sub_neg.mpr hgt), neg_sub]
      rw [hbelow, habove] at hnear
      have heq : roundedRank x = infinityRank - 1 :=
        strictMono_rankValue.injective (le_antisymm hvalue (by linarith))
      have heven := roundedRank_even (r := infinityRank) (x := x)
        (by rw [hbelow, habove]; linarith) hlt.ne'
      rw [heq] at heven
      exact absurd heven (by decide)
  · intro hlt
    by_contra hnot
    have hvalue : rankValue infinityRank ≤ rankValue (roundedRank x) :=
      strictMono_rankValue.monotone (Nat.le_of_not_lt hnot)
    have hnear := abs_sub_roundedRank_le x (infinityRank - 1)
    rw [abs_sub_comm, abs_of_nonneg (by linarith)] at hnear
    obtain hle | hgt := le_or_gt (rankValue (infinityRank - 1)) |x|
    · rw [abs_of_nonneg (sub_nonneg.mpr hle)] at hnear
      linarith
    · rw [abs_of_neg (sub_neg.mpr hgt)] at hnear
      linarith

/-- Rationals that are nearer to zero than to the least magnitude round to zero. -/
theorem roundedRank_eq_zero (h : 2 * |x| < spacing 0) : roundedRank x = 0 := by
  have hone : rankValue 1 = spacing 0 := by
    have hvalue := rankValue_mul_add (k := 0) (m := 1) (by decide) (.inl rfl)
    rwa [Nat.zero_mul, Nat.zero_add, Nat.cast_one, one_mul] at hvalue
  have hnear := abs_sub_roundedRank_le x 0
  rw [rankValue_zero, sub_zero, abs_abs] at hnear
  have hlt : rankValue (roundedRank x) < rankValue 1 := by
    have := neg_le_of_abs_le hnear
    linarith
  exact Nat.lt_one_iff.mp (strictMono_rankValue.lt_iff_lt.mp hlt)

/-! ### Numbers -/

/-- The finite number `y` is the one nearest to the rational `x`. -/
structure IsNearest (x : ℚ) (y : Float) : Prop where
  /-- No finite number is nearer. -/
  near : ∃ v, toRat? y = some v ∧ ∀ z u, toRat? z = some u → |x - v| ≤ |x - u|
  /-- If another value is equally near, then the significand of the number is even. -/
  even : ∀ v z u, toRat? y = some v → toRat? z = some u → u ≠ v → |x - u| = |x - v| →
    ∀ negative m q, exact y = .finite negative m q → m % 2 = 0
  /-- It has the sign of the rational, also if it is a zero. -/
  sign : isNegative y = decide (x < 0)

/-- The distance to a value of the same sign is that of the magnitudes. -/
private theorem abs_sub_signed (x v : ℚ) : |x - if x < 0 then -v else v| = |(|x| - v)| := by
  split
  · rename_i hx
    rw [abs_of_neg hx, ← abs_neg, neg_sub, neg_sub_left, neg_sub_left, add_comm]
  · rename_i hx
    rw [abs_of_nonneg (not_lt.mp hx)]

/-- The magnitude of the value of a number is that of its rank. -/
private theorem abs_of_toRat? {y : Float} {u : ℚ} (h : toRat? y = some u) :
    |u| = rankValue (rank y) := by
  obtain ⟨-, rfl⟩ := toRat?_eq_some_iff.mp h
  split
  · rw [abs_neg, abs_of_nonneg (rankValue_nonneg _)]
  · rw [abs_of_nonneg (rankValue_nonneg _)]

/-- A value that is as far away as its magnitude is from that of the rational has the sign of the
rational. -/
private theorem eq_signed {u v : ℚ} (hu : |u| = v) (hzero : |(|x| - v)| ≤ |x|)
    (htie : |x - u| = |(|x| - v)|) : u = if x < 0 then -v else v := by
  have hproduct : x * u = |x| * v := by
    have hsquare : (x - u) ^ 2 = (|x| - v) ^ 2 := by rw [← sq_abs, htie, sq_abs]
    have huv : u ^ 2 = v ^ 2 := by rw [← hu, sq_abs]
    linarith [sq_abs x]
  obtain hneg | rfl | hpos := lt_trichotomy x 0
  · rw [if_pos hneg]
    rw [abs_of_neg hneg, neg_mul, ← mul_neg] at hproduct
    exact mul_left_cancel₀ hneg.ne hproduct
  · rw [abs_zero, zero_sub, abs_neg, abs_nonpos_iff] at hzero
    rw [if_neg (lt_irrefl 0), hzero, ← abs_eq_zero, hu, hzero]
  · rw [if_neg hpos.not_gt]
    rw [abs_of_pos hpos] at hproduct
    exact mul_left_cancel₀ hpos.ne' hproduct

/-- Rounding gives the nearest number, unless the rational is too large. -/
theorem isNearest_nearest (h : |x| < overflowBound) : IsNearest x (nearest (decide (x < 0)) x) := by
  have hlt := roundedRank_lt_iff.mpr h
  have hrank : rank (nearest (decide (x < 0)) x) = roundedRank x := by
    rw [nearest_eq, rank_ofRank, Nat.min_eq_left hlt.le]
  have hsign : isNegative (nearest (decide (x < 0)) x) = decide (x < 0) := by
    rw [nearest_eq, isNegative_ofRank]
  generalize nearest (decide (x < 0)) x = y at *
  have hvalue : toRat? y =
      some (if x < 0 then -rankValue (roundedRank x) else rankValue (roundedRank x)) := by
    rw [toRat?_eq_some_iff, hrank, hsign]
    exact ⟨hlt, by simp only [decide_eq_true_eq]⟩
  -- A value of the other sign is no nearer than its magnitude is to that of the rational.
  have hfar {z : Float} {u : ℚ} (hz : toRat? z = some u) :
      |(|x| - rankValue (rank z))| ≤ |x - u| := by
    rw [← abs_of_toRat? hz]
    exact abs_abs_sub_abs_le x u
  refine ⟨⟨_, hvalue, fun z u hz => ?_⟩, fun v z u hv hz hne htie negative m q hexact => ?_, hsign⟩
  · rw [abs_sub_signed]
    exact (abs_sub_roundedRank_le x (rank z)).trans (hfar hz)
  · obtain rfl := Option.some.inj (hv.symm.trans hvalue)
    rw [exact_of_lt (hrank ▸ hlt)] at hexact
    cases hexact
    have hparity := rank_even_iff (doublings (rank y)) (significandOf (rank y))
    rw [doublings_mul_add, hrank] at hparity
    rw [hrank, ← hparity]
    rw [abs_sub_signed] at htie
    have hnear := abs_sub_roundedRank_le x (rank z)
    refine roundedRank_even (le_antisymm hnear (htie ▸ hfar hz)) fun hsame => hne ?_
    refine eq_signed (hsame ▸ abs_of_toRat? hz) ?_ htie
    have hzero := abs_sub_roundedRank_le x 0
    rwa [rankValue_zero, sub_zero, abs_abs] at hzero

end Bella.Number
