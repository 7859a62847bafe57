import Bella.Number.Numeral
import Bella.Number.Layout
import Bella.Proofs.Number.Decimal

/-!
# What numerals spell

A text of ASCII characters without blanks and underscores is read as it stands. If it spells a
decimal then it consists of digits, perhaps with a point among them, and perhaps an exponent; so it
is made of few characters and starts with none that a sign or a word starts with. The other way
round, digits with a point and an exponent spell the decimal that one expects.

## Main definitions

* `Bella.IsDigits`, `Bella.IsDecimalChar`: texts of digits, and the characters of decimals.
* `Bella.Numeral.IsTail`: what may follow the digits of a decimal.

## Main results

* `Bella.Numeral.parse?_of_plain`: a text of plain characters is read as it stands.
* `Bella.Numeral.eq_of_decimal?`: what the texts that spell decimals consist of.
* `Bella.Numeral.parsePlain?_signed`: a text that spells a decimal can have a sign in front.
* `Bella.Numeral.decimal?_point`, `Bella.Numeral.decimal?_whole`: what digits spell, with and
  without a point.
-/

namespace Bella

/-! ### Digits -/

/-- All characters are digits. -/
def IsDigits (cs : List Char) : Prop := ∀ c ∈ cs, c.isDigit = true

namespace IsDigits

variable {xs ys : List Char}

theorem append (hxs : IsDigits xs) (hys : IsDigits ys) : IsDigits (xs ++ ys) :=
  List.forall_mem_append.mpr ⟨hxs, hys⟩

theorem take (h : IsDigits xs) (n : Nat) : IsDigits (xs.take n) := fun c hc =>
  h c (List.mem_of_mem_take hc)

theorem drop (h : IsDigits xs) (n : Nat) : IsDigits (xs.drop n) := fun c hc =>
  h c (List.mem_of_mem_drop hc)

theorem zeros (n : Nat) : IsDigits (List.replicate n '0') := by
  intro c hc
  rw [(List.mem_replicate.mp hc).2]
  rfl

theorem toDigits (n : Nat) : IsDigits (Nat.toDigits 10 n) := fun _ hc =>
  Nat.isDigit_of_mem_toDigits (by decide) (by decide) hc

theorem takeWhile (cs : List Char) : IsDigits (cs.takeWhile Char.isDigit) := fun c hc =>
  List.all_eq_true.mp List.all_takeWhile c hc

end IsDigits

namespace Numeral

theorem ofDigits_append (xs ys : List Char) :
    ofDigits (xs ++ ys) = ofDigits xs * 10 ^ ys.length + ofDigits ys := by
  change Nat.ofDigitChars 10 (xs ++ ys) 0 = Nat.ofDigitChars 10 xs 0 * _ + Nat.ofDigitChars 10 ys 0
  rw [Nat.ofDigitChars_append, Nat.ofDigitChars_eq_ofDigitChars_zero, Nat.mul_comm]

@[simp] theorem ofDigits_replicate (n : Nat) : ofDigits (List.replicate n '0') = 0 := by
  induction n with
  | zero => rfl
  | succ n ih => rw [List.replicate_succ', ofDigits_append, ih]; rfl

@[simp] theorem ofDigits_toDigits (n : Nat) : ofDigits (Nat.toDigits 10 n) = n :=
  Nat.ofDigitChars_toDigits (by decide) (by decide)

end Numeral

/-! ### Plain texts -/

/-- The characters of decimals, apart from the digits. -/
def decimalMarks : List Char := ['.', 'e', 'E', '+', '-']

/-- Characters that the text of a decimal is made of. -/
def IsDecimalChar (c : Char) : Prop := c.isDigit = true ∨ c ∈ decimalMarks

namespace Numeral

theorem ungroup_of_not_mem {cs : List Char} (h : '_' ∉ cs) (afterDigit : Bool) :
    ungroup afterDigit cs = some cs := by
  induction cs generalizing afterDigit with
  | nil => rfl
  | cons c cs ih =>
    have hc : c ≠ '_' := fun hc => h (hc ▸ List.mem_cons_self)
    have hcs := ih (fun hmem => h (List.mem_cons_of_mem c hmem)) c.isDigit
    rw [ungroup, hcs]
    · rfl
    · exact fun hc' _ => hc hc'
    · exact fun _ _ hc' _ => hc hc'

/-- A text of ASCII characters without blanks and underscores is read as it stands. -/
theorem parse?_of_plain {cs : List Char}
    (h : ∀ c ∈ cs, c.toNat < 127 ∧ Text.isBlank c = false ∧ c ≠ '_') :
    parse? cs = parsePlain? cs := by
  have hplain : cs.map plainChar = cs :=
    (List.map_congr_left fun c hc => if_pos (h c hc).1).trans (List.map_id cs)
  have hdrop {ds : List Char} (hds : ∀ c ∈ ds, c ∈ cs) : ds.dropWhile Text.isBlank = ds := by
    cases ds with
    | nil => rfl
    | cons c ds =>
      have hc := (h c (hds c List.mem_cons_self)).2.1
      exact List.dropWhile_cons_of_neg (Bool.eq_false_iff.mp hc)
  have htrim : Text.trim cs = cs := by
    rw [Text.trim, hdrop fun _ hc => hc, hdrop fun _ hc => List.mem_reverse.mp hc,
      List.reverse_reverse]
  rw [parse?, hplain, htrim, ungroup_of_not_mem fun hmem => (h '_' hmem).2.2 rfl, Option.bind_some]

/-- The characters of decimals are plain. -/
theorem plain_of_isDecimalChar {c : Char} (h : IsDecimalChar c) :
    c.toNat < 127 ∧ Text.isBlank c = false ∧ c ≠ '_' := by
  obtain hdigit | hmark := h
  · simp only [Char.isDigit, Bool.and_eq_true, decide_eq_true_eq, UInt32.le_iff_toNat_le] at hdigit
    change 48 ≤ c.toNat ∧ c.toNat ≤ 57 at hdigit
    refine ⟨by omega, ?_, ?_⟩
    · simp [Text.isBlank, Text.wideBlanks]
      omega
    · rintro rfl
      exact absurd hdigit (by decide)
  · simp only [decimalMarks, List.mem_cons, List.not_mem_nil, or_false] at hmark
    obtain rfl | rfl | rfl | rfl | rfl := hmark <;> decide

/-- An exponent is made of characters of decimals. -/
private theorem isDecimalChar_of_exponent? {cs : List Char} {e : Int} (h : exponent? cs = some e) :
    ∀ c ∈ cs, IsDecimalChar c := by
  cases cs with
  | nil => nofun
  | cons c cs =>
    have hsplit : ∀ c ∈ cs, c ∈ (splitSign cs).2 ∨ c ∈ decimalMarks := by
      unfold splitSign
      split
      · exact List.forall_mem_cons.mpr ⟨.inr (by decide), fun c hc => .inl hc⟩
      · exact List.forall_mem_cons.mpr ⟨.inr (by decide), fun c hc => .inl hc⟩
      · exact fun c hc => .inl hc
    rw [exponent?] at h
    split at h
    · rename_i hc
      dsimp only at h
      split at h
      · cases h
      · rename_i hdigits
        simp only [Bool.or_eq_true, Bool.not_eq_true', not_or, Bool.not_eq_false, List.all_eq_true]
          at hdigits
        refine List.forall_mem_cons.mpr ⟨.inr ?_, fun c hc => ?_⟩
        · simp only [Bool.or_eq_true, beq_iff_eq] at hc
          obtain rfl | rfl := hc <;> decide
        · exact (hsplit c hc).imp_left (hdigits.2 c)
    · cases h

/-- What spells a decimal consists of digits, perhaps with a point and more digits, and an
exponent. -/
theorem eq_of_decimal? {cs : List Char} {d : Decimal} (h : decimal? cs = some d) :
    ∃ whole fraction tail e, IsDigits whole ∧ IsDigits fraction ∧ exponent? tail = some e ∧
      (cs = whole ++ '.' :: (fraction ++ tail) ∨ cs = whole ++ tail ∧ whole ≠ []) := by
  have hcs := (List.takeWhile_append_dropWhile (p := Char.isDigit) (l := cs)).symm
  unfold decimal? at h
  dsimp only at h
  split at h
  · rename_i r hrest
    split at h
    · cases h
    obtain ⟨e, he, -⟩ := Option.map_eq_some_iff.mp h
    refine ⟨_, r.takeWhile Char.isDigit, r.dropWhile Char.isDigit, e, .takeWhile cs, .takeWhile r,
      he, .inl ?_⟩
    rwa [List.takeWhile_append_dropWhile, ← hrest]
  · split at h
    · cases h
    rename_i hne
    obtain ⟨e, he, -⟩ := Option.map_eq_some_iff.mp h
    refine ⟨cs.takeWhile Char.isDigit, [], _, e, .takeWhile cs, nofun, he, .inr ⟨hcs, ?_⟩⟩
    rintro hnil
    rw [hnil] at hne
    exact hne rfl

/-- What spells a decimal is made of characters of decimals. -/
theorem isDecimalChar_of_decimal? {cs : List Char} {d : Decimal} (h : decimal? cs = some d) :
    ∀ c ∈ cs, IsDecimalChar c := by
  obtain ⟨whole, fraction, tail, e, hwhole, hfraction, he, hcs⟩ := eq_of_decimal? h
  have htail := isDecimalChar_of_exponent? he
  obtain rfl | ⟨rfl, -⟩ := hcs
  · refine List.forall_mem_append.mpr ⟨fun c hc => .inl (hwhole c hc), ?_⟩
    refine List.forall_mem_cons.mpr ⟨.inr (by decide), ?_⟩
    exact List.forall_mem_append.mpr ⟨fun c hc => .inl (hfraction c hc), htail⟩
  · exact List.forall_mem_append.mpr ⟨fun c hc => .inl (hwhole c hc), htail⟩

/-- What spells a decimal starts with a digit or a point. -/
theorem head_of_decimal? {c : Char} {cs : List Char} {d : Decimal}
    (h : decimal? (c :: cs) = some d) : c.isDigit = true ∨ c = '.' := by
  obtain ⟨whole, fraction, tail, e, hwhole, -, -, hcs⟩ := eq_of_decimal? h
  cases whole with
  | nil =>
    obtain hcs | ⟨-, hne⟩ := hcs
    · exact .inr (List.cons.inj hcs).1
    · exact absurd rfl hne
  | cons x xs =>
    have hx : x.isDigit = true := hwhole x List.mem_cons_self
    obtain hcs | ⟨hcs, -⟩ := hcs
    · exact .inl ((List.cons.inj hcs).1 ▸ hx)
    · exact .inl ((List.cons.inj hcs).1 ▸ hx)

/-- Digits and points are the same in lower case. -/
private theorem toLower_of_digit_or_point {c : Char} (h : c.isDigit = true ∨ c = '.') :
    c.toLower = c := by
  obtain hdigit | rfl := h
  · simp only [Char.isDigit, Bool.and_eq_true, decide_eq_true_eq, UInt32.le_iff_toNat_le] at hdigit
    refine dif_neg fun hupper => ?_
    have hle := UInt32.le_iff_toNat_le.mp hupper.1
    exact absurd (Nat.le_trans hle hdigit.2) (by decide)
  · rfl

/-- A text that spells a decimal can have a sign in front. -/
theorem parsePlain?_signed {cs : List Char} {d : Decimal} (h : decimal? cs = some d)
    (negative : Bool) :
    parsePlain? (Number.Layout.signed negative cs) = some (.decimal negative d) := by
  cases cs with
  | nil => cases h
  | cons c cs =>
    have hhead := head_of_decimal? h
    have hother (x : Char) (hx : ¬ (x.isDigit = true ∨ x = '.')) : c ≠ x := fun hc =>
      hx (hc ▸ hhead)
    have hsplit : splitSign (Number.Layout.signed negative (c :: cs)) = (negative, c :: cs) := by
      cases negative with
      | true => rfl
      | false =>
        change splitSign (c :: cs) = (false, c :: cs)
        rw [splitSign]
        · exact fun _ hc => hother '-' (by decide) (List.cons.inj hc).1
        · exact fun _ hc => hother '+' (by decide) (List.cons.inj hc).1
    have hword (x : Char) (xs : List Char) (hx : ¬ (x.isDigit = true ∨ x = '.')) :
        ¬ (c :: cs).map Char.toLower = x :: xs := by
      rw [List.map_cons, toLower_of_digit_or_point hhead]
      exact fun hc => hother x hx (List.cons.inj hc).1
    unfold parsePlain?
    rw [hsplit]
    dsimp only
    rw [if_neg (hword 'n' _ (by decide)), if_neg, h, Option.map_some]
    exact not_or.mpr ⟨hword 'i' _ (by decide), hword 'i' _ (by decide)⟩

/-- The characters of a text that spells a decimal, with a sign in front. -/
theorem isDecimalChar_of_mem_signed {cs : List Char} (h : ∀ c ∈ cs, IsDecimalChar c)
    (negative : Bool) : ∀ c ∈ Number.Layout.signed negative cs, IsDecimalChar c := by
  cases negative with
  | false => exact h
  | true => exact List.forall_mem_cons.mpr ⟨.inr (by decide), h⟩

/-! ### Decimals in pieces -/

/-- What may follow the digits of a decimal: nothing, or an exponent. -/
inductive IsTail : List Char → Int → Prop
  | nil : IsTail [] 0
  | exponent {cs : List Char} {e : Int} (h : exponent? ('e' :: cs) = some e) : IsTail ('e' :: cs) e

theorem IsTail.exponent?_eq {tail : List Char} {e : Int} (h : IsTail tail e) :
    exponent? tail = some e := by
  cases h with
  | nil => rfl
  | exponent h => exact h

/-- Digits end where a tail begins. -/
private theorem IsTail.takeWhile_eq {tail : List Char} {e : Int} (h : IsTail tail e) :
    tail.takeWhile Char.isDigit = [] ∧ tail.dropWhile Char.isDigit = tail := by
  cases h <;> exact ⟨rfl, rfl⟩

variable {whole fraction tail : List Char} {e : Int}

/-- A text with a point spells the digits on both sides of it. -/
theorem decimal?_point (hwhole : IsDigits whole) (hne : whole ≠ []) (hfraction : IsDigits fraction)
    (htail : IsTail tail e) :
    decimal? (whole ++ '.' :: (fraction ++ tail)) =
      some ⟨ofDigits (whole ++ fraction), e - fraction.length⟩ := by
  have hpoint : ('.' :: (fraction ++ tail)).takeWhile Char.isDigit = [] := rfl
  have hpoint' :
      ('.' :: (fraction ++ tail)).dropWhile Char.isDigit = '.' :: (fraction ++ tail) := rfl
  have hempty : whole.isEmpty = false := List.isEmpty_eq_false_iff.mpr hne
  unfold decimal?
  simp only [List.takeWhile_append_of_pos hwhole, List.dropWhile_append_of_pos hwhole, hpoint,
    hpoint', List.takeWhile_append_of_pos hfraction, List.dropWhile_append_of_pos hfraction,
    htail.takeWhile_eq, List.append_nil, hempty, Bool.false_and, Bool.false_eq_true, if_false,
    htail.exponent?_eq, Option.map_some]

/-- A text without point spells its digits. -/
theorem decimal?_whole (hwhole : IsDigits whole) (hne : whole ≠ []) (htail : IsTail tail e) :
    decimal? (whole ++ tail) = some ⟨ofDigits whole, e⟩ := by
  have hempty : whole.isEmpty = false := List.isEmpty_eq_false_iff.mpr hne
  unfold decimal?
  simp only [List.takeWhile_append_of_pos hwhole, List.dropWhile_append_of_pos hwhole,
    htail.takeWhile_eq, List.append_nil]
  cases htail with
  | nil => simp [hempty, exponent?]
  | exponent h => simp [hempty, h]

end Numeral

end Bella
