/-!
# Blank characters

The characters that may surround a numeral: the plain space, the five ASCII layout controls from tab
to carriage return, and the white space of the character database outside ASCII. The four separator
controls just below the plain space are not blank.

## Main definitions

* `Bella.Text.isBlank`: whether a character may surround a numeral.
* `Bella.Text.trim`: a text without the blanks at either end.
-/

namespace Bella.Text

/-- The white space of the character database outside ASCII, as inclusive ranges of code points. -/
def wideBlanks : List (Nat × Nat) :=
  [(0x85, 0x85), (0xa0, 0xa0), (0x1680, 0x1680), (0x2000, 0x200a), (0x2028, 0x2029),
    (0x202f, 0x202f), (0x205f, 0x205f), (0x3000, 0x3000)]

/-- Whether the character may surround a numeral. -/
def isBlank (c : Char) : Bool :=
  let n := c.toNat
  n == 32 || (9 ≤ n && n ≤ 13) || wideBlanks.any fun (lo, hi) => lo ≤ n && n ≤ hi

/-- The text without the blanks at either end. -/
def trim (cs : List Char) : List Char :=
  ((cs.dropWhile isBlank).reverse.dropWhile isBlank).reverse

end Bella.Text
