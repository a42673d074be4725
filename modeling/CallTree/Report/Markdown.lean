import CallTree.Path
import CallTree.Tree

/-!
# Markdown reports

A report names the root method and the measures of its chain, and lists the
tree with one bullet for each node, indented by level.
-/

namespace CallTree
namespace Report

/-- A moment in local time. -/
structure Moment where
  year : Nat
  month : Nat
  day : Nat
  hour : Nat
  minute : Nat
  second : Nat
  deriving DecidableEq, Repr

/-- A number with at least two digits. -/
def twoDigits (value : Nat) : String :=
  if value < 10 then "0" ++ toString value else toString value

def Moment.text (moment : Moment) : String :=
  toString moment.year ++ "-" ++ twoDigits moment.month ++ "-" ++ twoDigits moment.day ++ " " ++
    twoDigits moment.hour ++ ":" ++ twoDigits moment.minute ++ ":" ++ twoDigits moment.second

/-- Where a method stands: the address of its absolute path with its line, or the
path and the line when there is no address. -/
def location (links : Path.Links) (directory : Path) (occurrence : Occurrence) :
    Except Fault String :=
  if occurrence.file == "" then .ok Occurrence.nowhere
  else if occurrence.file == Occurrence.nowhere then .ok occurrence.file
  else
    match Path.address links directory
        (directory.absolute (Path.ofString occurrence.file)).toString with
    | .ok address => .ok (address ++ "#" ++ toString occurrence.line)
    | .error fault =>
        if fault.hidesAddress then .ok (occurrence.file ++ ":" ++ toString occurrence.line)
        else .error fault

/-- The bullet of a node at the given level, where the method's location is given. -/
def bullet (level : Nat) (occurrence : Occurrence) (place : String) : String :=
  String.ofList (List.replicate (2 * level) ' ') ++ "- **" ++ occurrence.method ++ "** (" ++
    place ++ ")" ++ (if occurrence.isOutside then " (external)" else "") ++ "\n"

mutual

/-- The bullets of a tree, a node before its children. -/
def bullets (links : Path.Links) (directory : Path) (level : Nat) : Tree → Except Fault String
  | .node occurrence children => do
      let place ← location links directory occurrence
      let below ← bulletsBelow links directory (level + 1) children
      pure (bullet level occurrence place ++ below)

def bulletsBelow (links : Path.Links) (directory : Path) (level : Nat) :
    List Tree → Except Fault String
  | [] => pure ""
  | tree :: trees => do
      let first ← bullets links directory level tree
      let others ← bulletsBelow links directory level trees
      pure (first ++ others)

end

/-- What stands in front of the bullets. -/
def header (chain : Chain) (moment : String) : String :=
  let root := chain.root.occurrence
  "# Java Method Call Chain Report\n\n" ++
    "**Generated:** " ++ moment ++ "\n" ++
    "**Root method:** " ++ root.className ++ "." ++ root.method ++ "\n" ++
    "**Direction:** " ++ chain.direction.title ++ "\n" ++
    "**Call chain depth:** " ++ toString chain.depth ++ "\n" ++
    "**Total methods:** " ++ toString chain.total ++ "\n\n" ++
    "## Call chain\n\n"

/-- The report of a chain, with the line that tells when it was made.  It is seen
from a directory of a disk with the given links. -/
def markdownWith (links : Path.Links) (directory : Path) (chain : Chain) (moment : String) :
    Except Fault String := do
  let list ← bullets links directory 0 chain.root
  pure (header chain moment ++ list)

def markdown (links : Path.Links) (directory : Path) (chain : Chain) (moment : Moment) :
    Except Fault String :=
  markdownWith links directory chain moment.text

end Report
end CallTree
