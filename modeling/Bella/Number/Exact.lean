/-!
# The exact meaning of a number

Numbers of the language are 64-bit binary floating-point numbers. This file relates them to exact
arithmetic. A number is not a number, an infinity, or a signed product `significand * 2 ^ exponent`
of integers (`Exact`), and every rational has a nearest number (`nearest`).

Rounding is stated through ranks: the magnitudes, zero included and infinity last, are numbered
consecutively from zero in increasing order. A rounded significand that overflows into the next binade
then lands on the right magnitude by itself, and a magnitude beyond the largest is the infinite one.

## Main definitions

* `Bella.Number.Exact`, `Bella.Number.exact`: what a number denotes.
* `Bella.Number.rank`, `Bella.Number.ofRank`: the numbering of the magnitudes.
* `Bella.Number.nearest`: the number nearest to a rational, ties to the even significand.
* `Bella.Number.toInt?`: the integer that a number denotes, if it denotes one.
-/

namespace Bella.Number

/-- What a number denotes. -/
inductive Exact where
  /-- Not a number. -/
  | nan
  /-- An infinity. -/
  | infinite (negative : Bool)
  /-- The rational `significand * 2 ^ exponent`, negated if `negative`; zero keeps its sign. -/
  | finite (negative : Bool) (significand : Nat) (exponent : Int)
deriving DecidableEq, Inhabited

/-! ### Ranks of magnitudes -/

/-- The number of magnitudes in one binade. -/
def binade : Nat := Nat.pow 2 52

/-- The exponent of the smallest magnitudes. -/
def minExponent : Int := -1074

/-- The rank of the infinite magnitude. -/
def infinityRank : Nat := 2047 * binade

/-- The number that is not a number. -/
def nan : Float := Float.ofBits 0x7ff8000000000000

/-- The rank of the magnitude of a number; that of `nan` lies above `infinityRank`. -/
def rank (x : Float) : Nat := x.toBits.toNat % Nat.pow 2 63

/-- Whether the sign of a number is negative, which tells the two zeros apart. -/
def isNegative (x : Float) : Bool := Nat.pow 2 63 ≤ x.toBits.toNat

/-- The number with the given sign and magnitude; a rank too large gives an infinity. -/
def ofRank (negative : Bool) (rank : Nat) : Float :=
  Float.ofBits (UInt64.ofNat ((if negative then Nat.pow 2 63 else 0) + min rank infinityRank))

/-- An infinity of the given sign. -/
def infinity (negative : Bool) : Float := ofRank negative infinityRank

/-- What a number denotes. -/
def exact (x : Float) : Exact :=
  let r := rank x
  if infinityRank < r then .nan
  else if r = infinityRank then .infinite (isNegative x)
  else if r < binade then .finite (isNegative x) r minExponent
  else .finite (isNegative x) (r % binade + binade) ((r / binade : Nat) - 1 + minExponent)

/-! ### Rounding a rational -/

/-- The ratio `num / den` measured in units of `2 ^ q`, as numerator and denominator. -/
def inUnits (num den : Nat) (q : Int) : Nat × Nat :=
  if 0 ≤ q then (num, den * Nat.pow 2 q.toNat) else (num * Nat.pow 2 (-q).toNat, den)

/-- The exponent of the largest power of two at most `num / den`, for positive `num` and `den`. -/
def log2Ratio (num den : Nat) : Int :=
  let e : Int := (num.log2 : Int) - den.log2
  let (a, b) := inUnits num den e
  if b ≤ a then e else e - 1

/-- The integer nearest to `a / b`, a half going to the even neighbour. -/
def divNearestEven (a b : Nat) : Nat :=
  let d := a / b
  let r := a % b
  if 2 * r < b then d else if b < 2 * r then d + 1 else d + d % 2

/-- The rank of the magnitude nearest to `num / den`, ties to the even significand. -/
def nearestRank (num den : Nat) : Nat :=
  if num = 0 then 0
  else
    let q := max (log2Ratio num den - 52) minExponent
    let (a, b) := inUnits num den q
    (q - minExponent).toNat * binade + divNearestEven a b

/-- The number of the given sign nearest to the magnitude of a rational. -/
def nearest (negative : Bool) (r : Rat) : Float :=
  ofRank negative (nearestRank r.num.natAbs r.den)

/-- The number nearest to an integer, or `none` if that is an infinity. -/
def ofInt? (k : Int) : Option Float :=
  let x := nearest (k < 0) k
  if rank x < infinityRank then some x else none

/-! ### Rationals and integers denoted by numbers -/

/-- The magnitude `significand * 2 ^ exponent`. -/
def magnitude (significand : Nat) (exponent : Int) : Rat :=
  let (a, b) := inUnits significand 1 (-exponent)
  mkRat a b

/-- The natural number `significand * 2 ^ exponent`, if it is one. -/
def whole? (significand : Nat) (exponent : Int) : Option Nat :=
  let (a, b) := inUnits significand 1 (-exponent)
  if a % b = 0 then some (a / b) else none

/-- The integer that a number denotes, if it denotes one; both zeros denote zero. -/
def toInt? (x : Float) : Option Int :=
  match exact x with
  | .finite negative m q => (whole? m q).map fun n => if negative then -n else n
  | _ => none

end Bella.Number
