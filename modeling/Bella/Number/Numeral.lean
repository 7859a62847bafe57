import Bella.Number.Decimal
import Bella.Text.Blank
import Bella.Text.Digit

/-!
# Numerals

A numeral is the text of a number in a program tree. Blanks may surround it, digits of all scripts
count as digits, and single underscores may group the digits. What remains is an optional sign
followed by `inf`, `infinity` or `nan` in any case, or by a decimal with an optional point and an
optional exponent, which has a digit before the exponent. It reads as the nearest number.

## Main definitions

* `Bella.Numeral`: what a numeral spells.
* `Bella.Numeral.parse?`: the numeral that a text spells, if it spells one.
* `Bella.Numeral.read?`: the number that a text spells, if it spells one.
-/

namespace Bella

open Text

/-- What a numeral spells. -/
inductive Numeral where
  /-- Not a number. -/
  | nan
  /-- An infinity. -/
  | infinite (negative : Bool)
  /-- A decimal with a sign. -/
  | decimal (negative : Bool) (magnitude : Decimal)
deriving DecidableEq, Inhabited

namespace Numeral

/-- The nearest number. -/
def toNumber : Numeral → Float
  | .nan => Number.nan
  | .infinite negative => Number.infinity negative
  | .decimal negative d => d.toNumber negative

/-- The ASCII character that stands for a character in a numeral: blanks and digits outside ASCII
become a space and an ASCII digit, and other characters outside ASCII become a question mark, which
no numeral holds. -/
def plainChar (c : Char) : Char :=
  if c.toNat < 127 then c
  else if isBlank c then ' '
  else match digitValue? c with
    | some d => Char.ofNat (d + 48)
    | none => '?'

/-- The text without its underscores, if each stands between two digits; `afterDigit` tells whether
the text follows a digit. -/
def ungroup (afterDigit : Bool) : List Char → Option (List Char)
  | [] => some []
  | ['_'] => none
  | '_' :: d :: cs =>
    if afterDigit && d.isDigit then (ungroup true cs).map (d :: ·) else none
  | c :: cs => (ungroup c.isDigit cs).map (c :: ·)

/-- Splits an optional sign off a text; the flag is true for a minus sign. -/
def splitSign : List Char → Bool × List Char
  | '-' :: cs => (true, cs)
  | '+' :: cs => (false, cs)
  | cs => (false, cs)

/-- The natural number that ASCII digits spell. -/
def ofDigits (ds : List Char) : Nat := ds.foldl (fun n c => 10 * n + (c.toNat - 48)) 0

/-- The exponent after the digits: nothing, or `e` with an optional sign and at least one digit. -/
def exponent? : List Char → Option Int
  | [] => some 0
  | c :: cs =>
    if c == 'e' || c == 'E' then
      let (negative, ds) := splitSign cs
      if ds.isEmpty || !ds.all Char.isDigit then none
      else some (if negative then -(ofDigits ds : Int) else ofDigits ds)
    else none

/-- The decimal that an unsigned text spells. -/
def decimal? (cs : List Char) : Option Decimal :=
  let whole := cs.takeWhile Char.isDigit
  let rest := cs.dropWhile Char.isDigit
  let (fraction, tail) := match rest with
    | '.' :: r => (r.takeWhile Char.isDigit, r.dropWhile Char.isDigit)
    | r => ([], r)
  if whole.isEmpty && fraction.isEmpty then none
  else (exponent? tail).map fun e => ⟨ofDigits (whole ++ fraction), e - fraction.length⟩

/-- The numeral that a text of plain characters without blanks and underscores spells. -/
def parsePlain? (cs : List Char) : Option Numeral :=
  let (negative, body) := splitSign cs
  let word := body.map Char.toLower
  if word = ['n', 'a', 'n'] then some .nan
  else if word = ['i', 'n', 'f'] ∨ word = ['i', 'n', 'f', 'i', 'n', 'i', 't', 'y'] then
    some (.infinite negative)
  else (decimal? body).map (.decimal negative)

/-- The numeral that a text spells, if it spells one. -/
def parse? (cs : List Char) : Option Numeral :=
  (ungroup false (trim (cs.map plainChar))).bind parsePlain?

/-- The number that a text spells, if it spells one. -/
def read? (s : String) : Option Float := (parse? s.toList).map toNumber

end Numeral
end Bella
