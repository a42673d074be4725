import CallTree.Text.Blank
import CallTree.Text.LowerCase

/-!
# Directions

A call tree leads up to the callers of its root or down to its callees.
-/

namespace CallTree

inductive Direction where
  | up
  | down
  deriving DecidableEq, Repr, Inhabited

namespace Direction

def name : Direction → String
  | up => "up"
  | down => "down"

/-- What the method at a node's child is to the method at the node. -/
def relation : Direction → String
  | up => "callers"
  | down => "callees"

def title : Direction → String
  | up => "callers (upward)"
  | down => "callees (downward)"

/-- Read a direction by one of its names, in any case and with blanks around
it. -/
def ofString? (text : String) : Option Direction :=
  let word := Text.lower (Text.trimString text)
  if ["up", "upward", "callers"].contains word then some up
  else if ["down", "downward", "callees"].contains word then some down
  else none

end Direction
end CallTree
