import Bella.Eval.Check
import Bella.Node.Build
import Bella.Proofs.Number.Numeral

/-!
# Numbers read back

The text of a number reads back as the number, in every layout whose words for the special numbers
do. What a layout decides is where the point stands, whether there is an exponent, and how many
zeros fill up the digits: none of this changes the value of the decimal that the text spells, and a
decimal is read by its value. So the literal of a number in a program tree, and the text that a
print statement writes for it, are read as that number. The literal of an integer is that of the
nearest number, and an integer that is too large for that is refused.

## Main definitions

* `Bella.Number.Layout.IsReadable`: the words of a layout for the special numbers read back.

## Main results

* `Bella.Number.Layout.decimal?_decimalText`: the text of a decimal spells its value.
* `Bella.Number.Layout.read?_write`: the text of a number reads as the number.
* `Bella.number_text_round_trips`: literals and printed numbers.
-/

namespace Bella

/-! ### Digits of decimals -/

theorem Decimal.isDigits (d : Decimal) : IsDigits d.digits := .toDigits d.units

theorem Decimal.ofDigits_digits (d : Decimal) : Numeral.ofDigits d.digits = d.units :=
  Numeral.ofDigits_toDigits d.units

theorem Decimal.ceilingExponent_eq (d : Decimal) :
    d.ceilingExponent = d.digits.length + d.exponent := rfl

/-- Zeros behind the digits do not change the value if the exponent makes up for them. -/
theorem Decimal.toRat_shift (units n : Nat) (e : Int) :
    toRat ⟨units * 10 ^ n, e - n⟩ = toRat ⟨units, e⟩ := by
  rw [toRat_eq, toRat_eq, zpow_sub₀ (by norm_num), zpow_natCast]
  push_cast
  field_simp

/-! ### Written decimals -/

namespace Number.Layout

open Numeral

variable (l : Layout)

/-- The text of an exponent spells it. -/
theorem exponent?_exponentText (e : Int) : exponent? ('e' :: l.exponentText e) = some e := by
  generalize hzeros :
    List.replicate (l.exponentDigits - (Nat.toDigits 10 e.natAbs).length) '0' = zeros
  have htext : l.exponentText e =
      (if e < 0 then '-' else '+') :: (zeros ++ Nat.toDigits 10 e.natAbs) := by
    rw [exponentText, hzeros]
    rfl
  have hdigits : (zeros ++ Nat.toDigits 10 e.natAbs).all Char.isDigit = true :=
    List.all_eq_true.mpr (hzeros ▸ (IsDigits.zeros _).append (.toDigits _))
  have hne : (zeros ++ Nat.toDigits 10 e.natAbs).isEmpty = false := by
    have hpos : 0 < (Nat.toDigits 10 e.natAbs).length := Nat.length_toDigits_pos
    rw [List.isEmpty_eq_false_iff, ← List.length_pos_iff, List.length_append]
    omega
  have hvalue : ofDigits (zeros ++ Nat.toDigits 10 e.natAbs) = e.natAbs := by
    rw [ofDigits_append, ← hzeros, ofDigits_replicate, Nat.zero_mul, Nat.zero_add,
      ofDigits_toDigits]
  rw [htext]
  by_cases hneg : e < 0
  · rw [if_pos hneg]
    simp only [exponent?, splitSign, beq_self_eq_true, Bool.true_or, if_true, hne, hdigits,
      Bool.not_true, Bool.or_self, Bool.false_eq_true, if_false, hvalue, Option.some.injEq]
    omega
  · rw [if_neg hneg]
    simp only [exponent?, splitSign, beq_self_eq_true, Bool.true_or, if_true, hne, hdigits,
      Bool.not_true, Bool.or_self, Bool.false_eq_true, if_false, hvalue, Option.some.injEq]
    omega

/-- Below one, the positional text has zeros between the point and the digits. -/
private theorem decimal?_positional_of_le {d : Decimal} (h : d.ceilingExponent ≤ 0) :
    decimal? (positional d.digits d.ceilingExponent) = some d := by
  have hceiling := d.ceilingExponent_eq
  generalize hzeros : List.replicate (-d.ceilingExponent).toNat '0' = zeros
  have hfraction : IsDigits (zeros ++ d.digits) := hzeros ▸ (IsDigits.zeros _).append d.isDigits
  have hpoint := decimal?_point (.zeros 1) (List.cons_ne_nil _ _) hfraction .nil
  have hvalue : ofDigits (List.replicate 1 '0' ++ (zeros ++ d.digits)) = d.units := by
    rw [ofDigits_append, ← hzeros, ofDigits_append, ofDigits_replicate, ofDigits_replicate,
      d.ofDigits_digits]
    omega
  have hexponent : (0 : Int) - (zeros ++ d.digits).length = d.exponent := by
    rw [List.length_append, ← hzeros, List.length_replicate]
    omega
  rw [List.append_nil, hvalue, hexponent] at hpoint
  rw [positional, if_pos h, hzeros]
  exact hpoint

/-- From one on, the positional text has zeros behind the digits up to the point and past it. -/
private theorem decimal?_positional_of_pos {d : Decimal} (h : 0 < d.ceilingExponent) :
    ∃ z : Nat, decimal? (positional d.digits d.ceilingExponent) =
      some ⟨d.units * 10 ^ z, d.exponent - z⟩ := by
  have hceiling := d.ceilingExponent_eq
  obtain ⟨n, hn⟩ := Int.eq_ofNat_of_zero_le h.le
  generalize hz : n + 1 - d.digits.length = z
  have hfilled : IsDigits (d.digits ++ List.replicate z '0') := d.isDigits.append (.zeros z)
  have hlength : (d.digits ++ List.replicate z '0').length = d.digits.length + z := by
    rw [List.length_append, List.length_replicate]
  have hvalue : ofDigits (d.digits ++ List.replicate z '0') = d.units * 10 ^ z := by
    rw [ofDigits_append, d.ofDigits_digits, ofDigits_replicate, List.length_replicate, Nat.add_zero]
  rw [positional, if_neg (Int.not_le.mpr h), hn, Int.toNat_natCast]
  dsimp only
  rw [hz]
  generalize d.digits ++ List.replicate z '0' = filled at *
  have hne : filled.take n ≠ [] := by
    rw [← List.length_pos_iff, List.length_take]
    omega
  have hpoint := decimal?_point (hfilled.take n) hne (hfilled.drop n) .nil
  have hexponent : (0 : Int) - (d.digits.length + z - n : Nat) = d.exponent - z := by omega
  rw [List.append_nil, List.take_append_drop, hvalue, List.length_drop, hlength, hexponent]
    at hpoint
  exact ⟨z, hpoint⟩

/-- The positional text of digits spells them with the point at its place. -/
theorem decimal?_positional (d : Decimal) :
    ∃ d', decimal? (positional d.digits d.ceilingExponent) = some d' ∧ d'.toRat = d.toRat := by
  obtain hle | hpos := le_or_gt d.ceilingExponent 0
  · exact ⟨d, decimal?_positional_of_le hle, rfl⟩
  · obtain ⟨z, hspelled⟩ := decimal?_positional_of_pos hpos
    exact ⟨_, hspelled, Decimal.toRat_shift d.units z d.exponent⟩

/-- The text of digits with an exponent spells them with the point behind the first. -/
theorem decimal?_scientific (d : Decimal) :
    decimal? (l.scientific d.digits (d.ceilingExponent - 1)) = some d := by
  have hpos : 0 < d.digits.length := Nat.length_toDigits_pos
  have hceiling := d.ceilingExponent_eq
  have htail := IsTail.exponent (l.exponent?_exponentText (d.ceilingExponent - 1))
  have hne : d.digits.take 1 ≠ [] := by
    rw [← List.length_pos_iff, List.length_take]
    omega
  have hlength := List.length_drop (i := 1) (l := d.digits)
  unfold scientific
  dsimp only
  split
  · rename_i hempty
    have hnil : d.digits.drop 1 = [] := List.isEmpty_iff.mp hempty
    have htake : d.digits.take 1 = d.digits := by
      rw [← List.append_nil (d.digits.take 1), ← hnil, List.take_append_drop]
    have hexponent : d.ceilingExponent - 1 = d.exponent := by
      rw [hnil, List.length_nil] at hlength
      omega
    rw [List.append_nil, decimal?_whole (d.isDigits.take 1) hne htail, htake, d.ofDigits_digits,
      hexponent]
  · have hpoint := decimal?_point (d.isDigits.take 1) hne (d.isDigits.drop 1) htail
    have hexponent : d.ceilingExponent - 1 - (d.digits.length - 1 : Nat) = d.exponent := by omega
    rw [List.append_assoc, List.cons_append, hpoint, List.take_append_drop, d.ofDigits_digits,
      hlength, hexponent]

/-- The text of a decimal spells a decimal of its value. -/
theorem decimal?_decimalText (d : Decimal) :
    ∃ d', decimal? (l.decimalText d) = some d' ∧ d'.toRat = d.toRat := by
  unfold decimalText
  dsimp only
  split
  · rw [Int.sub_add_cancel]
    exact decimal?_positional d
  · exact ⟨d, l.decimal?_scientific d, rfl⟩

/-- The text of a finite magnitude spells a decimal that reads back. -/
theorem decimal?_magnitudeText {r : Nat} (h : r < infinityRank) :
    ∃ d, decimal? (l.magnitudeText (significandOf r) (doublings r + minExponent)) = some d ∧
      roundedRank d.toRat = r := by
  have hshortest : ∃ d, decimal? (l.decimalText (Decimal.shortest (significandOf r)
      (doublings r + minExponent))) = some d ∧ roundedRank d.toRat = r := by
    obtain ⟨d, hd, hvalue⟩ := l.decimal?_decimalText
      (Decimal.shortest (significandOf r) (doublings r + minExponent))
    exact ⟨d, hd, hvalue ▸ Decimal.roundedRank_shortest h⟩
  unfold magnitudeText
  split
  · rename_i n hwhole
    split
    · have hne : Nat.toDigits 10 n ≠ [] := List.length_pos_iff.mp Nat.length_toDigits_pos
      have hread := decimal?_whole (.toDigits n) hne .nil
      rw [List.append_nil, ofDigits_toDigits] at hread
      refine ⟨_, hread, roundedRank_of_abs_eq ?_⟩
      rw [Decimal.toRat_eq, zpow_zero, mul_one, ← whole?_eq_some_iff.mp hwhole, magnitude_rank,
        abs_of_nonneg (rankValue_nonneg r)]
    · exact hshortest
  · exact hshortest

/-- The words of a layout for the special numbers read as these numbers. -/
structure IsReadable : Prop where
  nan : Numeral.read? l.nan = some Number.nan
  infinity : ∀ negative, Numeral.read? (String.ofList (signed negative l.infinity.toList)) =
    some (Number.infinity negative)

variable {l}

/-- The text of a number reads as the number. -/
theorem read?_write (hl : l.IsReadable) (x : Float) : Numeral.read? (l.write x) = some x := by
  unfold write chars
  obtain hlt | heq | hgt := Nat.lt_trichotomy (rank x) infinityRank
  · obtain ⟨d, hd, hrank⟩ := l.decimal?_magnitudeText hlt
    rw [exact_of_lt hlt]
    dsimp only
    have hplain := isDecimalChar_of_mem_signed (isDecimalChar_of_decimal? hd) (isNegative x)
    rw [Numeral.read?, String.toList_ofList, parse?_of_plain fun c hc =>
      plain_of_isDecimalChar (hplain c hc), parsePlain?_signed hd, Option.map_some, toNumber,
      Decimal.toNumber_of_roundedRank hrank, ofRank_rank hlt.le]
  · rw [exact_of_eq heq]
    dsimp only
    rw [hl.infinity, Number.infinity, ← heq, ofRank_rank heq.le]
  · rw [exact_of_gt hgt, eq_nan_of_lt hgt]
    dsimp only
    rw [String.ofList_toList, hl.nan]

-- Positional notation ends below `10 ^ (-4)`, and a zero has its sign written.
example : [1e-4, 1e-5, -0].map literal.write = ["0.0001", "1e-05", "-0.0"] ∧
    ["0.0001", "1e-05", "-0.0"].map Numeral.read? = [some 1e-4, some 1e-5, some (-0)] := by
  decide +kernel

/-- Numbers with one text are the same. -/
theorem write_injective (hl : l.IsReadable) : Function.Injective l.write := by
  intro x y h
  have hread := read?_write hl x
  rw [h, read?_write hl y] at hread
  exact (Option.some.inj hread).symm

theorem isReadable_literal : literal.IsReadable where
  nan := by decide +kernel
  infinity := by decide +kernel

theorem isReadable_printed : printed.IsReadable where
  nan := by decide +kernel
  infinity := by decide +kernel

end Number.Layout

open Number

/-- The nearest number to an integer, if it is not too large. -/
theorem Number.ofInt?_eq (k : Int) :
    ofInt? k =
      if |(k : ℚ)| < overflowBound then some (nearest (decide ((k : ℚ) < 0)) k) else none := by
  have hfinite : rank (nearest (decide (k < 0)) (k : ℚ)) < infinityRank ↔
      |(k : ℚ)| < overflowBound := by
    rw [nearest_eq, rank_ofRank, min_lt_iff, or_iff_left (Nat.lt_irrefl _), roundedRank_lt_iff]
  simp only [ofInt?, hfinite, Int.cast_lt_zero]

/-- **Numbers read back from their texts.** The literal of any number, be it subnormal, a zero of
either sign, infinite or not a number, is read as that number, and so is its printed text. The
literal of an integer is read as the number nearest to it, with ties to the even significand, if its
magnitude lies below the point half way between the largest number and the next power of two; and an
integer from there on has no literal. -/
theorem number_text_round_trips (x : Float) (k : Int) :
    (∃ text, Build.number (.plain (.real x)) = .ok (.ofType TokenForm.numeral.type text) ∧
        Check.numeral text = .ok x) ∧
      Check.numeral (Layout.printed.write x) = .ok x ∧
      ((|(k : ℚ)| < overflowBound ∧
          ∃ text y, Build.number (.plain (.whole k)) = .ok (.ofType TokenForm.numeral.type text) ∧
            Check.numeral text = .ok y ∧ IsNearest k y) ∨
        (overflowBound ≤ |(k : ℚ)| ∧ Build.number (.plain (.whole k)) = .error .tooLarge)) := by
  have hliteral (y : Float) : Check.numeral (Layout.literal.write y) = .ok y := by
    rw [Check.numeral, Layout.read?_write Layout.isReadable_literal]
  refine ⟨⟨_, rfl, hliteral x⟩, ?_, ?_⟩
  · rw [Check.numeral, Layout.read?_write Layout.isReadable_printed]
  · by_cases hk : |(k : ℚ)| < overflowBound
    · refine .inl ⟨hk, _, _, ?_, hliteral _, isNearest_nearest hk⟩
      rw [Build.number, ofInt?_eq, if_pos hk]
      rfl
    · refine .inr ⟨not_lt.mp hk, ?_⟩
      rw [Build.number, ofInt?_eq, if_neg hk]

end Bella
