import Bella.Number.Exact

/-!
# Decimals

A decimal is a natural number of units of a power of ten. This file reads decimals as numbers and
finds the shortest decimal that reads back as a given magnitude: on the grids of one, two, up to
seventeen digits the two neighbours of the magnitude are tried, the nearer one first, and the first
that reads back is taken. The exact decimal expansion, which always reads back, stands behind the
search.

## Main definitions

* `Bella.Decimal.toRat`, `Bella.Decimal.toNumber`: the value of a decimal, exact and rounded.
* `Bella.Decimal.shortest`: the shortest decimal that reads back as a magnitude.
-/

namespace Bella

open Number

/-- The decimal `units * 10 ^ exponent`. -/
structure Decimal where
  /-- The natural number that the digits spell. -/
  units : Nat
  /-- The power of ten that the last digit counts. -/
  exponent : Int
deriving DecidableEq, Inhabited

namespace Decimal

/-- The digits of the units, without leading zeros; zero has one digit. -/
def digits (d : Decimal) : List Char := Nat.toDigits 10 d.units

/-- The exact value. -/
def toRat (d : Decimal) : Rat :=
  if 0 ≤ d.exponent then (d.units * Nat.pow 10 d.exponent.toNat : Nat)
  else mkRat d.units (Nat.pow 10 (-d.exponent).toNat)

/-- The power of ten just above the decimal, if it is not zero. -/
def ceilingExponent (d : Decimal) : Int := d.digits.length + d.exponent

/-- The number of the given sign nearest to a decimal. A decimal from `10 ^ 400` up is infinite and
one below `10 ^ (-400)` is zero, whatever its digits, so no large power is computed for it. -/
def toNumber (negative : Bool) (d : Decimal) : Float :=
  if d.units = 0 then ofRank negative 0
  else if 400 < d.ceilingExponent then infinity negative
  else if d.ceilingExponent < -400 then ofRank negative 0
  else nearest negative d.toRat

/-! ### The shortest decimal -/

/-- The decimal without trailing zeros, of the same value. -/
def stripZeros (units : Nat) (exponent : Int) : Decimal :=
  if _h : 0 < units ∧ units % 10 = 0 then stripZeros (units / 10) (exponent + 1)
  else ⟨units, exponent⟩
termination_by units

/-- The ratio `num / den` measured in units of `10 ^ k`, as numerator and denominator. -/
def inTens (num den : Nat) (k : Int) : Nat × Nat :=
  if 0 ≤ k then (num, den * Nat.pow 10 k.toNat) else (num * Nat.pow 10 (-k).toNat, den)

/-- The two decimals with last digit at `10 ^ k` around `num / den`, the nearer one first; a tie is
led by the even one. -/
def neighbours (num den : Nat) (k : Int) : List Decimal :=
  let (a, b) := inTens num den k
  let d := a / b
  let r := a % b
  let below := stripZeros d k
  let above := stripZeros (d + 1) k
  if 2 * r < b ∨ (2 * r = b ∧ d % 2 = 0) then [below, above] else [above, below]

/-- The power of ten just above the positive ratio `num / den`. -/
def ceilingOfRatio (num den : Nat) : Int :=
  if den ≤ num then (Nat.toDigits 10 (num / den)).length
  else 1 - (Nat.toDigits 10 (den / num)).length

/-- The decimal expansion of `significand * 2 ^ exponent`, which is finite. -/
def expansion (significand : Nat) (exponent : Int) : Decimal :=
  if 0 ≤ exponent then ⟨significand * Nat.pow 2 exponent.toNat, 0⟩
  else ⟨significand * Nat.pow 5 (-exponent).toNat, exponent⟩

/-- The shortest decimal that reads back as `significand * 2 ^ exponent`, and of those of one length
the nearest. -/
def shortest (significand : Nat) (exponent : Int) : Decimal :=
  if significand = 0 then ⟨0, 0⟩
  else
    let r := magnitude significand exponent
    let num := r.num.natAbs
    let target := nearestRank num r.den
    let top := ceilingOfRatio num r.den
    let found := (List.range 17).findSome? fun (n : Nat) =>
      (neighbours num r.den (top - (n + 1))).find? fun d => rank (d.toNumber false) == target
    found.getD (expansion significand exponent)

end Decimal
end Bella
