import Bella.Number.Decimal

/-!
# Numbers as text

Two texts of a number are in use. A literal is what a numeral in a program tree holds, and messages
show it too; a printed number is what a print statement writes. Both spell the shortest decimal that
reads back, positionally where the leading digit counts `10 ^ (-4)` to `10 ^ 15` and with an exponent
elsewhere. Their differences are the fields of a `Layout`.

## Main definitions

* `Bella.Number.Layout`: what distinguishes one text of numbers from another.
* `Bella.Number.Layout.literal`, `Bella.Number.Layout.printed`: the two texts in use.
* `Bella.Number.Layout.write`: the text of a number.
-/

namespace Bella.Number

/-- What distinguishes one text of numbers from another. -/
structure Layout where
  /-- The text of the number that is not a number. -/
  nan : String
  /-- The text of the positive infinity. -/
  infinity : String
  /-- Integral magnitudes below this bound are written with all their digits and nothing else. -/
  wholeBelow : Nat
  /-- The least number of digits of a written exponent. -/
  exponentDigits : Nat

namespace Layout

/-- Literals always show a point or an exponent, and their exponents have two digits or more. -/
def literal : Layout where
  nan := "nan"
  infinity := "inf"
  wholeBelow := 0
  exponentDigits := 2

/-- Printed integers show no point below `10 ^ 21`, and exponents are not padded. -/
def printed : Layout where
  nan := "NaN"
  infinity := "Infinity"
  wholeBelow := Nat.pow 10 21
  exponentDigits := 1

/-- The digits with the point after the first `point` of them, filled up with zeros on either side so
that a digit stands on both sides of the point. -/
def positional (digits : List Char) (point : Int) : List Char :=
  if point ≤ 0 then '0' :: '.' :: List.replicate (-point).toNat '0' ++ digits
  else
    let n := point.toNat
    let filled := digits ++ List.replicate (n + 1 - digits.length) '0'
    filled.take n ++ '.' :: filled.drop n

/-- The digits of an exponent with its sign, padded with zeros. -/
def exponentText (l : Layout) (e : Int) : List Char :=
  let ds := Nat.toDigits 10 e.natAbs
  (if e < 0 then '-' else '+') :: List.replicate (l.exponentDigits - ds.length) '0' ++ ds

/-- The digits with the point after the first of them, if there are others, and the exponent `e`. -/
def scientific (l : Layout) (digits : List Char) (e : Int) : List Char :=
  let fraction := digits.drop 1
  digits.take 1 ++ (if fraction.isEmpty then [] else '.' :: fraction) ++ 'e' :: l.exponentText e

/-- The text of a decimal, positional where the leading digit counts `10 ^ (-4)` to `10 ^ 15`. -/
def decimalText (l : Layout) (d : Decimal) : List Char :=
  let leading := d.ceilingExponent - 1
  if -4 ≤ leading ∧ leading < 16 then positional d.digits (leading + 1)
  else l.scientific d.digits leading

/-- The text of the magnitude `significand * 2 ^ exponent`. -/
def magnitudeText (l : Layout) (significand : Nat) (exponent : Int) : List Char :=
  match whole? significand exponent with
  | some n =>
    if n < l.wholeBelow then Nat.toDigits 10 n
    else l.decimalText (Decimal.shortest significand exponent)
  | none => l.decimalText (Decimal.shortest significand exponent)

/-- A text with a minus sign in front if `negative`. -/
def signed (negative : Bool) (cs : List Char) : List Char :=
  if negative then '-' :: cs else cs

/-- The characters of the text of a number. -/
def chars (l : Layout) (x : Float) : List Char :=
  match exact x with
  | .nan => l.nan.toList
  | .infinite negative => signed negative l.infinity.toList
  | .finite negative m q => signed negative (l.magnitudeText m q)

/-- The text of a number. -/
def write (l : Layout) (x : Float) : String := String.ofList (l.chars x)

end Layout
end Bella.Number
