import Bella.Number.Exact

/-!
# Operations on numbers

Sums, products, quotients and square roots are the rounded operations of binary floating point, which
divide by zero to an infinity or to `nan`. The remainder is exact: it is computed on the integer
significands over a common exponent, so the operands may differ by any number of binary orders. The
length of a vector is computed from the exact sum of two squares and rounded once.

## Main definitions

* `Bella.Number.remainder`: the remainder of truncated division, with the sign of the dividend.
* `Bella.Number.power`: powers.
* `Bella.Number.hypotenuse`: the length of the vector with two given coordinates.
-/

namespace Bella.Number

/-- The significand in units of `2 ^ unit`, for a `unit` at most `exponent`. -/
def alignTo (unit : Int) (significand : Nat) (exponent : Int) : Nat :=
  significand * Nat.pow 2 (exponent - unit).toNat

/-- The remainder of truncated division, with the sign of the dividend. It is exact, and it is `nan`
for an infinite dividend and for a zero divisor. -/
def remainder (a b : Float) : Float :=
  match exact a, exact b with
  | .finite _ _ _, .infinite _ => a
  | .finite negative m p, .finite _ n q =>
    if n = 0 then nan
    else
      let unit := min p q
      nearest negative (magnitude (alignTo unit m p % alignTo unit n q) unit)
  | _, _ => nan

/-- The power of a number, with the limits that binary floating point gives to zero bases, infinities
and negative bases; an overflow is infinite and a negative base with a fractional exponent gives
`nan`. -/
def power (a b : Float) : Float := Float.pow a b

/-- The square root of `n * 4 ^ unit` to at least sixty-four binary digits, with one more digit that
tells whether the root goes on, so rounding it gives the number nearest to the root. -/
def squareRoot (n : Nat) (unit : Int) : Float :=
  let guard : Nat := 66
  let scaled := n * Nat.pow 4 guard
  let root := Nat.sqrt scaled
  let goesOn := if root * root = scaled then 0 else 1
  nearest false (magnitude (2 * root + goesOn) (unit - guard - 1))

/-- The length of the vector with coordinates `a` and `b`, rounded once. An infinite coordinate makes
it infinite whatever the other is. -/
def hypotenuse (a b : Float) : Float :=
  match exact a, exact b with
  | .infinite _, _ => infinity false
  | _, .infinite _ => infinity false
  | .finite _ m p, .finite _ n q =>
    let unit := min p q
    squareRoot (Nat.pow (alignTo unit m p) 2 + Nat.pow (alignTo unit n q) 2) unit
  | _, _ => nan

end Bella.Number
