import Bella.Proofs.Number.Bits

/-!
# The values of magnitudes

Every rank has a value. Within one binade the values are equally spaced, and the spacing doubles
from one binade to the next, so the values increase with the ranks and each rank is known by its
value. The rank of the infinities has the value that the next number would have if exponents had no
bound.

## Main definitions

* `Bella.Number.rankValue`: the value of a rank.
* `Bella.Number.toRat?`: the rational that a number denotes, if it denotes one.

## Main results

* `Bella.Number.rankValue_mul_add`: the value of a rank by its significand.
* `Bella.Number.strictMono_rankValue`: values increase with the ranks.
* `Bella.Number.exact_of_lt`, `Bella.Number.magnitude_rank`: what finite numbers denote.
* `Bella.Number.toInt?_eq_some_iff`: which numbers denote integers.
-/

namespace Bella.Number

/-! ### Ratios in other units -/

/-- A power of two with a natural exponent, in the form that computations use. -/
private theorem cast_pow_two (n : Nat) : ((Nat.pow 2 n : Nat) : ℚ) = 2 ^ n := Nat.cast_pow 2 n

theorem inUnits_snd_pos {num den : Nat} (hden : 0 < den) (q : Int) : 0 < (inUnits num den q).2 := by
  unfold inUnits
  split
  · exact Nat.mul_pos hden (Nat.two_pow_pos _)
  · exact hden

/-- A ratio keeps its value when it is measured in other units. -/
theorem inUnits_div (num den : Nat) (q : Int) :
    ((inUnits num den q).1 : ℚ) / (inUnits num den q).2 = num / den / 2 ^ q := by
  unfold inUnits
  split
  · rename_i hq
    obtain ⟨n, rfl⟩ := Int.eq_ofNat_of_zero_le hq
    rw [Nat.cast_mul, cast_pow_two, Int.toNat_natCast, zpow_natCast, div_div]
  · rename_i hq
    obtain ⟨n, hn⟩ := Int.eq_ofNat_of_zero_le (show 0 ≤ -q by omega)
    obtain rfl : q = -n := by omega
    rw [Nat.cast_mul, cast_pow_two, neg_neg, Int.toNat_natCast, zpow_neg, zpow_natCast,
      div_inv_eq_mul]
    ring

theorem magnitude_eq (m : Nat) (q : Int) : magnitude m q = m * 2 ^ q := by
  have hdiv := inUnits_div m 1 (-q)
  change mkRat (inUnits m 1 (-q)).1 (inUnits m 1 (-q)).2 = _
  rw [Rat.mkRat_eq_div, Int.cast_natCast, hdiv, Nat.cast_one, div_one, zpow_neg, div_inv_eq_mul]

/-! ### Ranks -/

/-- The number of times that the spacing has doubled up to a rank. -/
def doublings (r : Nat) : Nat := r / binade - 1

/-- The distance between the values of one binade, after the spacing has doubled `k` times. -/
def spacing (k : Nat) : ℚ := 2 ^ ((k : Int) + minExponent)

/-- The significand of the magnitude of a rank. -/
def significandOf (r : Nat) : Nat := r - doublings r * binade

/-- The value of a rank. -/
def rankValue (r : Nat) : ℚ := significandOf r * spacing (doublings r)

theorem binade_pos : 0 < binade := by decide

theorem spacing_pos (k : Nat) : 0 < spacing k := by
  exact zpow_pos two_pos _

/-- The spacing grows by a power of two. -/
theorem spacing_add (k n : Nat) : spacing (k + n) = 2 ^ n * spacing k := by
  unfold spacing
  rw [← zpow_natCast, ← zpow_add₀ two_ne_zero]
  congr 1
  push_cast
  ring

/-- A rank lies in the first binade, or `doublings` counts the binades before its own. -/
private theorem doublings_cases (r : Nat) :
    (doublings r = 0 ∧ r < 2 * binade) ∨
      (doublings r * binade + binade ≤ r ∧ r < doublings r * binade + 2 * binade) := by
  have hmod : r % binade < binade := Nat.mod_lt r binade_pos
  have hdiv : r / binade * binade + r % binade = r := Nat.div_add_mod' r binade
  unfold doublings
  cases hk : r / binade with
  | zero =>
    rw [hk] at hdiv
    exact .inl ⟨rfl, by omega⟩
  | succ k =>
    rw [hk, Nat.succ_mul] at hdiv
    rw [Nat.add_sub_cancel]
    exact .inr (by omega)

theorem doublings_mul_add (r : Nat) : doublings r * binade + significandOf r = r := by
  unfold significandOf
  obtain ⟨hzero, -⟩ | ⟨hle, -⟩ := doublings_cases r
  · rw [hzero]
    omega
  · omega

/-- Significands have at most one bit more than a binade has magnitudes. -/
theorem significandOf_lt (r : Nat) : significandOf r < 2 * binade := by
  unfold significandOf
  obtain ⟨hzero, hlt⟩ | ⟨hle, hlt⟩ := doublings_cases r
  · rw [hzero]
    omega
  · omega

/-- After the spacing has doubled, significands have a leading bit. -/
theorem le_significandOf {r : Nat} (h : doublings r ≠ 0) : binade ≤ significandOf r := by
  unfold significandOf
  obtain ⟨hzero, -⟩ | ⟨hle, -⟩ := doublings_cases r
  · exact absurd hzero h
  · omega

/-- The value of a rank by its significand, which may be the first one of the next binade. -/
theorem rankValue_mul_add {k m : Nat} (hm : m ≤ 2 * binade) (hk : k = 0 ∨ binade ≤ m) :
    rankValue (k * binade + m) = m * spacing k := by
  have hpos := binade_pos
  obtain rfl | hlt := Nat.eq_or_lt_of_le hm
  · -- The significand has overflowed, and the rank is the first of the next binade.
    have hdoublings : doublings (k * binade + 2 * binade) = k + 1 := by
      rw [← Nat.add_mul, doublings, Nat.mul_div_cancel _ hpos]
      rfl
    have hsignificand : significandOf (k * binade + 2 * binade) = binade := by
      rw [significandOf, hdoublings, Nat.add_mul]
      omega
    rw [rankValue, hdoublings, hsignificand, spacing_add]
    push_cast
    ring
  · have hdoublings : doublings (k * binade + m) = k := by
      unfold doublings
      obtain hle | hle := Nat.lt_or_ge m binade
      · obtain rfl : k = 0 := by omega
        rw [Nat.zero_mul, Nat.zero_add, Nat.div_eq_of_lt hle]
      · obtain ⟨j, rfl⟩ := Nat.exists_eq_add_of_le' hle
        have hj : j < binade := by omega
        have hsum : k * binade + (j + binade) = j + binade * (k + 1) := by ring
        rw [hsum, Nat.add_mul_div_left _ _ hpos, Nat.div_eq_of_lt hj]
        omega
    have hsignificand : significandOf (k * binade + m) = m := by
      rw [significandOf, hdoublings, Nat.add_sub_cancel_left]
    rw [rankValue, hdoublings, hsignificand]

/-- Values increase with the ranks. -/
theorem strictMono_rankValue : StrictMono rankValue := by
  refine strictMono_nat_of_lt_succ fun r => ?_
  have hlt := significandOf_lt r
  have hnext : rankValue (r + 1) = ((significandOf r + 1 : Nat) : ℚ) * spacing (doublings r) := by
    have hsum : r + 1 = doublings r * binade + (significandOf r + 1) := by
      rw [← Nat.add_assoc, doublings_mul_add]
    rw [hsum]
    refine rankValue_mul_add hlt (or_iff_not_imp_left.mpr fun h => ?_)
    exact Nat.le_succ_of_le (le_significandOf h)
  rw [hnext, rankValue]
  refine mul_lt_mul_of_pos_right ?_ (spacing_pos _)
  exact_mod_cast Nat.lt_succ_self _

@[simp] theorem rankValue_zero : rankValue 0 = 0 := by simp [rankValue, significandOf]

theorem rankValue_nonneg (r : Nat) : 0 ≤ rankValue r :=
  mul_nonneg (Nat.cast_nonneg _) (spacing_pos _).le

/-- Binades are made of even numbers of magnitudes, so ranks are even with their significands. -/
theorem rank_even_iff (k m : Nat) : (k * binade + m) % 2 = m % 2 := by
  have hbinade : binade = 2 * 2 ^ 51 := by decide
  rw [hbinade]
  omega

/-- The value of a rank is a multiple of a spacing, or lies below all magnitudes that have it. -/
theorem rankValue_multiple_or_lt (r k : Nat) :
    (∃ j : Nat, rankValue r = j * spacing k) ∨ (k ≠ 0 ∧ rankValue r < binade * spacing k) := by
  obtain hle | hlt := Nat.lt_or_ge (doublings r) k
  · obtain ⟨n, rfl⟩ := Nat.exists_eq_add_of_lt hle
    refine .inr ⟨Nat.succ_ne_zero _, ?_⟩
    have hsignificand : (significandOf r : ℚ) < 2 * binade := by exact_mod_cast significandOf_lt r
    have hpow : (1 : ℚ) ≤ 2 ^ n := one_le_pow₀ one_le_two
    have hspacing : spacing (doublings r + n + 1) = 2 * (2 ^ n * spacing (doublings r)) := by
      rw [spacing_add, spacing_add]
      ring
    have hpos := spacing_pos (doublings r)
    have hbinade : (0 : ℚ) < binade := by exact_mod_cast binade_pos
    calc rankValue r < 2 * binade * spacing (doublings r) :=
          mul_lt_mul_of_pos_right hsignificand hpos
      _ ≤ 2 * binade * (2 ^ n * spacing (doublings r)) := by
        gcongr
        exact le_mul_of_one_le_left hpos.le hpow
      _ = binade * spacing (doublings r + n + 1) := by
        rw [hspacing]
        ring
  · obtain ⟨n, hn⟩ := Nat.exists_eq_add_of_le hlt
    refine .inl ⟨significandOf r * 2 ^ n, ?_⟩
    rw [rankValue, hn, spacing_add]
    push_cast
    ring

/-- A multiple of a spacing is a value if it needs no more digits than significands have. -/
theorem exists_rankValue_eq {m : Nat} (hm : m ≤ 2 * binade) (k : Nat) :
    ∃ r, rankValue r = m * spacing k := by
  induction k generalizing m with
  | zero => exact ⟨0 * binade + m, rankValue_mul_add hm (.inl rfl)⟩
  | succ k ih =>
    obtain hlt | hle := Nat.lt_or_ge m binade
    · -- The spacing before this one is half of it.
      obtain ⟨r, hr⟩ := ih (m := 2 * m) (by omega)
      refine ⟨r, ?_⟩
      rw [hr, spacing_add]
      push_cast
      ring
    · exact ⟨(k + 1) * binade + m, rankValue_mul_add hm (.inr hle)⟩

/-! ### What numbers denote -/

/-- A finite number denotes a signed product of its significand and a power of two. -/
theorem exact_of_lt {x : Float} (h : rank x < infinityRank) :
    exact x = .finite (isNegative x) (significandOf (rank x))
      (doublings (rank x) + minExponent) := by
  have hinfinite : ¬ infinityRank < rank x := Nat.not_lt.mpr h.le
  unfold exact
  dsimp only
  rw [if_neg hinfinite, if_neg h.ne]
  split
  · rename_i hlt
    have hdoublings : doublings (rank x) = 0 := by rw [doublings, Nat.div_eq_of_lt hlt]
    rw [significandOf, hdoublings, Nat.zero_mul, Nat.sub_zero, Nat.cast_zero, Int.zero_add]
  · rename_i hle
    have hpos : 0 < rank x / binade := Nat.div_pos (Nat.le_of_not_lt hle) binade_pos
    have hdiv : rank x / binade * binade + rank x % binade = rank x := Nat.div_add_mod' _ _
    have hsignificand : rank x % binade + binade = significandOf (rank x) := by
      rw [significandOf, doublings, Nat.sub_mul, Nat.one_mul]
      have hle' : binade ≤ rank x / binade * binade := Nat.le_mul_of_pos_left _ hpos
      omega
    have hexponent : ((rank x / binade : Nat) : Int) - 1 = doublings (rank x) := by
      rw [doublings]
      omega
    rw [hsignificand, hexponent]

/-- A number with the rank of the infinities is infinite. -/
theorem exact_of_eq {x : Float} (h : rank x = infinityRank) :
    exact x = .infinite (isNegative x) := by
  unfold exact
  dsimp only
  rw [if_neg h.not_gt, if_pos h]

theorem exact_of_gt {x : Float} (h : infinityRank < rank x) : exact x = .nan := by
  unfold exact
  exact if_pos h

/-- The magnitude of a finite number is the value of its rank. -/
theorem magnitude_rank (r : Nat) :
    magnitude (significandOf r) (doublings r + minExponent) = rankValue r :=
  magnitude_eq _ _

/-- The rational that a number denotes, if it denotes one; both zeros denote zero. -/
def toRat? (x : Float) : Option ℚ :=
  match exact x with
  | .finite negative m q => some (if negative then -magnitude m q else magnitude m q)
  | _ => none

/-- A number denotes a rational if it is finite, which is the value of its rank with its sign. -/
theorem toRat?_eq_some_iff {x : Float} {r : ℚ} :
    toRat? x = some r ↔ rank x < infinityRank ∧
      r = if isNegative x then -rankValue (rank x) else rankValue (rank x) := by
  unfold toRat?
  obtain hlt | heq | hgt := Nat.lt_trichotomy (rank x) infinityRank
  · simp only [exact_of_lt hlt, magnitude_rank, Option.some.injEq, hlt, true_and, eq_comm]
  · simp [exact_of_eq heq, heq]
  · simp [exact_of_gt hgt, hgt.not_gt]

/-! ### Integers -/

/-- A magnitude is a natural number if it has its value. -/
theorem whole?_eq_some_iff {m n : Nat} {q : Int} :
    whole? m q = some n ↔ magnitude m q = n := by
  have hpos : ((inUnits m 1 (-q)).2 : ℚ) ≠ 0 := by
    exact_mod_cast (inUnits_snd_pos Nat.one_pos (-q)).ne'
  have hmagnitude : magnitude m q = (inUnits m 1 (-q)).1 / (inUnits m 1 (-q)).2 := by
    rw [inUnits_div, magnitude_eq, Nat.cast_one, div_one, zpow_neg, div_inv_eq_mul]
  rw [hmagnitude, div_eq_iff hpos]
  change (if (inUnits m 1 (-q)).1 % (inUnits m 1 (-q)).2 = 0 then
    some ((inUnits m 1 (-q)).1 / (inUnits m 1 (-q)).2) else none) = some n ↔ _
  generalize inUnits m 1 (-q) = ratio at hpos
  constructor
  · intro h
    split at h
    · rename_i hmod
      obtain rfl := Option.some.inj h
      exact_mod_cast (Nat.div_mul_cancel (Nat.dvd_of_mod_eq_zero hmod)).symm
    · cases h
  · intro h
    have hproduct : ratio.1 = n * ratio.2 := by exact_mod_cast h
    have hsnd : 0 < ratio.2 := Nat.pos_of_ne_zero (by exact_mod_cast hpos)
    rw [hproduct, Nat.mul_mod_left, if_pos rfl, Nat.mul_div_cancel n hsnd]

/-- A number denotes an integer if the rational that it denotes is one. -/
theorem toInt?_eq_some_iff {x : Float} {k : Int} : toInt? x = some k ↔ toRat? x = some (k : ℚ) := by
  unfold toInt? toRat?
  cases exact x with
  | nan => simp
  | infinite negative => simp
  | finite negative m q =>
    simp only [Option.map_eq_some_iff, Option.bind_eq_bind, Option.bind_eq_some_iff,
      Option.pure_def, Option.some.injEq, whole?_eq_some_iff]
    constructor
    · rintro ⟨_, ⟨n, hn, rfl⟩, rfl⟩
      cases negative <;> simp [hn]
    · intro h
      have hnonneg : 0 ≤ magnitude m q := by
        rw [magnitude_eq]
        positivity
      cases negative with
      | false =>
        rw [if_neg Bool.false_ne_true] at h
        obtain ⟨n, rfl⟩ := Int.eq_ofNat_of_zero_le (a := k) (by exact_mod_cast h ▸ hnonneg)
        exact ⟨n, ⟨n, h, rfl⟩, rfl⟩
      | true =>
        rw [if_pos rfl, neg_eq_iff_eq_neg] at h
        obtain ⟨n, hn⟩ := Int.eq_ofNat_of_zero_le (a := -k) (by exact_mod_cast h ▸ hnonneg)
        refine ⟨n, ⟨n, ?_, rfl⟩, ?_⟩
        · rw [h]
          exact_mod_cast hn
        · rw [if_pos rfl, ← hn, neg_neg]

end Bella.Number
