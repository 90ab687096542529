/-!
# Sets of code points

A set of code points is kept as the ascending sequence of the points at which
membership changes, starting outside the set. A point belongs to the set exactly
when an odd number of changes lie at or below it; `contains` finds that number
by bisection.
-/

namespace Concordance.Text

/-- A set of code points, as the ascending points where membership changes. -/
structure CodeSet where
  changes : Array Nat

namespace CodeSet

/-- The least index from `lo` to `hi` whose change lies above the point, found by
halving the range. -/
def bisect (changes : Array Nat) (point lo hi : Nat) : Nat :=
  if lo < hi then
    let mid := (lo + hi) / 2
    if changes.getD mid 0 ≤ point then bisect changes point (mid + 1) hi
    else bisect changes point lo mid
  else lo
termination_by hi - lo

/-- The number of changes at or below a point. -/
def changesBelow (set : CodeSet) (point : Nat) : Nat :=
  bisect set.changes point 0 set.changes.size

def contains (set : CodeSet) (char : Char) : Bool :=
  set.changesBelow char.toNat % 2 == 1

end CodeSet

end Concordance.Text
