import Bella.Number.Exact
import Mathlib

/-!
# Numbers and their bits

A number is known by its bits, and its bits are those of a sign and a rank. Only one pattern is not
a number, so a number whose rank lies above that of the infinities is `nan`. All other patterns are
numbers, with any sign and any rank up to that of the infinities.

That packing undoes unpacking is a lemma of the library which no single file of it brings along, so
all of it is imported.

## Main results

* `Bella.Number.rank_ofRank`, `Bella.Number.isNegative_ofRank`, `Bella.Number.ofRank_rank`: numbers
  other than `nan` are pairs of a sign and a rank.
* `Bella.Number.eq_nan_of_lt`: there is one `nan`.
-/

namespace Bella.Number

open Float.Model Float.Model.UnpackedFloat

/-! ### Fields of a word -/

private theorem toNat_unpackMantissa (b : BitVec 64) :
    (@unpackMantissa .binary64 b).toNat = b.toNat % 2 ^ 52 := by
  simp [unpackMantissa, BitVec.extractLsb_toNat]

private theorem toNat_unpackExponent (b : BitVec 64) :
    (@unpackExponent .binary64 b).toNat = b.toNat / 2 ^ 52 % 2 ^ 11 := by
  simp [unpackExponent, BitVec.extractLsb_toNat, Nat.shiftRight_eq_div_pow]

/-- The words that are not numbers are those whose rank lies above that of the infinities. -/
private theorem unpack_notANumber_iff {b : UInt64} :
    @unpackExponent .binary64 b.toBitVec = -1#11 ∧ @unpackMantissa .binary64 b.toBitVec ≠ 0#52 ↔
      infinityRank < b.toNat % 2 ^ 63 := by
  have hlt : b.toNat < 2 ^ 64 := b.toNat_lt
  have hi : infinityRank = 2047 * 2 ^ 52 := rfl
  rw [Ne, ← BitVec.toNat_inj, ← BitVec.toNat_inj, toNat_unpackExponent, toNat_unpackMantissa]
  change b.toNat / 2 ^ 52 % 2 ^ 11 = 2047 ∧ ¬ b.toNat % 2 ^ 52 = 0 ↔ _
  omega

/-! ### Bits of a number -/

theorem toBits_ofBits {b : UInt64} (h : b.toNat % 2 ^ 63 ≤ infinityRank) :
    (Float.ofBits b).toBits = b := by
  refine UInt64.eq_of_toBitVec_eq (pack_unpack_of_valid ⟨fun hE hM => ?_⟩)
  exact absurd (unpack_notANumber_iff.mp ⟨hE, hM⟩) h.not_gt

theorem eq_nan_of_lt {x : Float} (h : infinityRank < rank x) : x = nan := by
  obtain ⟨hE, hM⟩ := unpack_notANumber_iff.mpr h
  exact Float.toBits_inj.mp (UInt64.eq_of_toBitVec_eq (x.toModel.valid.eq_packedNaN hE hM))

/-! ### Ranks and signs -/

theorem infinityRank_lt : infinityRank < 2 ^ 63 := by decide

/-- The bits of a number are those of its sign and its rank. -/
theorem toNat_toBits_ofRank (negative : Bool) (r : Nat) :
    (ofRank negative r).toBits.toNat =
      (if negative then 2 ^ 63 else 0) + min r infinityRank := by
  have hlt := infinityRank_lt
  have hnat : (UInt64.ofNat ((if negative then Nat.pow 2 63 else 0) + min r infinityRank)).toNat =
      (if negative then 2 ^ 63 else 0) + min r infinityRank := by
    refine UInt64.toNat_ofNat_of_lt' (?_ : _ < 2 ^ 64)
    change (if negative then 2 ^ 63 else 0) + min r infinityRank < 2 ^ 64
    split <;> omega
  rw [ofRank, toBits_ofBits, hnat]
  rw [hnat]
  split <;> omega

@[simp] theorem rank_ofRank (negative : Bool) (r : Nat) :
    rank (ofRank negative r) = min r infinityRank := by
  have hlt := infinityRank_lt
  change (ofRank negative r).toBits.toNat % 2 ^ 63 = _
  rw [toNat_toBits_ofRank]
  split <;> omega

@[simp] theorem isNegative_ofRank (negative : Bool) (r : Nat) :
    isNegative (ofRank negative r) = negative := by
  have hlt := infinityRank_lt
  change decide (2 ^ 63 ≤ (ofRank negative r).toBits.toNat) = negative
  rw [toNat_toBits_ofRank]
  cases negative with
  | false => simp; omega
  | true => simp

/-- A rank that is too large is that of an infinity. -/
theorem ofRank_of_le {negative : Bool} {r : Nat} (h : infinityRank ≤ r) :
    ofRank negative r = infinity negative := by
  rw [infinity, ofRank, ofRank, Nat.min_eq_right h, Nat.min_self]

/-- A number other than `nan` is known by its sign and its rank. -/
theorem ofRank_rank {x : Float} (h : rank x ≤ infinityRank) :
    ofRank (isNegative x) (rank x) = x := by
  apply Float.toBits_inj.mp
  apply UInt64.toNat_inj.mp
  have hlt : x.toBits.toNat < 2 ^ 64 := x.toBits.toNat_lt
  have hrank : rank x = x.toBits.toNat % 2 ^ 63 := rfl
  have hsign : isNegative x = decide (2 ^ 63 ≤ x.toBits.toNat) := rfl
  rw [toNat_toBits_ofRank, hsign, Nat.min_eq_left h]
  by_cases hle : 2 ^ 63 ≤ x.toBits.toNat
  · rw [decide_eq_true hle, if_pos rfl]
    omega
  · rw [decide_eq_false hle, if_neg Bool.false_ne_true]
    omega

end Bella.Number
