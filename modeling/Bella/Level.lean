/-!
# Levels of nesting

The host counts levels: whatever is done inside something else lies at least one level below it, and
the number of levels is bounded. A program has nearly ten thousand, so many that an ordinary program
never meets the bound; a single step outside a program has a thousand. Every construct of the language
takes a few levels, and so does every array that is printed or compared.

What is counted are the levels between a construct and its parts, and those that a leaf takes. Three
more things are counted, since they lie further down than what they stand beside, so that the bound
may be met by them alone: making the error for an expression that is a name and not declared, making
a position for an expression that has none and is refused for its label, and writing a record out
for a handler. No levels are counted for other errors and for the places that these take on their
way, nor for records that no handler writes.

## Main definitions

* `Bella.hostLimit`, `Bella.programLevels`, `Bella.outsideLimit`: the levels that there are.
* `Bella.lookupLevels`, `Bella.markLevels`, `Bella.recordLevels`: the levels of what lies below a
  construct and is none of its parts.
* `Bella.arraysWithin`: how deep an array can lie that is still reached.
-/

namespace Bella

/-- The levels that the host is set to while a program runs. A host that allows more than these
before the program starts keeps its own limit; here it never does. -/
def hostLimit : Nat := 10000

/-- The levels that lie below a program, those of whatever starts it. -/
def startLevels : Nat := 6

/-- The levels that a program has. -/
def programLevels : Nat := hostLimit - startLevels

/-- The levels that the host allows outside a program. -/
def outsideLimit : Nat := 1000

/-- The levels that looking a name up takes below an expression if the name is not declared, so that
an error has to be made. -/
def lookupLevels : Nat := 5

/-- The levels that an expression which is refused for its label takes if it has no position, so
that one has to be made. -/
def markLevels : Nat := 3

/-- The levels that a handler takes to write a record out. -/
def recordLevels : Nat := 11

/-- The levels that each array takes while its elements are gone through. -/
def levelsPerArray : Nat := 3

/-- The number of arrays inside one another that can be gone through in so many levels. -/
def arraysWithin (levels : Nat) : Nat := levels / levelsPerArray

end Bella
