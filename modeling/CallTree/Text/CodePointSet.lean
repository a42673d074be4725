/-!
# Sets of code points

A set is stored by the ascending code points at which membership changes: the
first boundary enters the set, the second leaves it, and so on.  A code point
belongs when an odd number of boundaries lie at or below it.
-/

namespace CallTree
namespace Text

/-- A set of code points, given by the points where membership changes. -/
structure CodePointSet where
  boundaries : Array Nat

namespace CodePointSet

/-- The number of boundaries at or below `code`, searched for between `low` and
`high` by halving. -/
def countAtMost (set : CodePointSet) (code low high : Nat) : Nat :=
  if low < high then
    let middle := low + (high - low) / 2
    match set.boundaries[middle]? with
    | none => low
    | some boundary =>
        if boundary ≤ code then set.countAtMost code (middle + 1) high
        else set.countAtMost code low middle
  else low
termination_by high - low

def contains (set : CodePointSet) (code : Nat) : Bool :=
  set.countAtMost code 0 set.boundaries.size % 2 == 1

end CodePointSet
end Text
end CallTree
