import CallTree.Configuration
import CallTree.Walk.Callees
import CallTree.Walk.Callers

/-!
# Analyses

An analysis finds the method at a cursor and builds the tree of its callers or
its callees.
-/

namespace CallTree

/-- A line of a file, counted from zero.  The text of the file is given, or else
read from the project. -/
structure Cursor where
  file : String
  line : Int
  text : Option String := none
  deriving DecidableEq, Repr

/-- What an analysis ends with: a chain, nothing, or a fault; the metrics; and
the listing of the project, if it was asked for. -/
structure Analysis where
  result : Except Fault (Option Chain)
  metrics : Metrics
  listed : Option (List String) := none

namespace Analysis

/-- The operation that analyses are timed as. -/
def operation : String := "analyze_call_chain"

/-- The rules by which a configuration has sources scanned. -/
def rules (configuration : Configuration) : Scan.Rules :=
  { detectPatterns := configuration.detectPatterns }

/-- The levels below the root that may be expanded, the root's own included. -/
def levels (configuration : Configuration) : Nat :=
  (configuration.maxDepth - 1).toNat

/-- Run a walk from its start, where one file has been read already. -/
def ofWalk {α : Type} (direction : Direction) (metrics : Metrics) (file : String) (kept : α)
    (walk : WalkM α Tree) : Analysis :=
  let (result, ended) :=
    (walk.run.run { loaded := [(file, some kept)], metrics } : Except Fault Tree × Walk α)
  { result := result.map fun tree => some (.ofTree direction tree)
    metrics := ended.metrics
    listed := ended.files }

/-- The tree of the method at a line of a text. -/
def ofText (project : Project) (configuration : Configuration) (metrics : Metrics)
    (direction : Direction) (file : String) (line : Int) (text : List Char) : Analysis :=
  let rules := rules configuration
  match (Source.ofText rules text).methodAt line file with
  | none => { result := .ok none, metrics }
  | some method =>
      if method.className.isNone then { result := .ok none, metrics }
      else
        match direction with
        | .up =>
            ofWalk direction metrics file (Candidate.ofText rules file text)
              (Walk.callers project rules (levels configuration) method)
        | .down =>
            let reading := Reading.ofText rules file text
            ofWalk direction metrics file reading
              (Walk.callees project rules (levels configuration) reading method)

/-- Count an analysis as a success or a failure. -/
def timed (analysis : Analysis) : Analysis :=
  { analysis with
    metrics := analysis.metrics.recordTiming operation 0
      (match analysis.result with
        | .ok _ => true
        | .error _ => false) }

/-- Analyse in a direction. -/
def toward (project : Project) (configuration : Configuration) (metrics : Metrics)
    (cursor : Cursor) (direction : Direction) : Analysis :=
  match project.normalize cursor.file with
  | .error fault => { result := .error fault, metrics }
  | .ok file =>
      let text : Except Fault String :=
        match cursor.text with
        | some text => .ok text
        | none => project.read file
      match text with
      | .error fault => timed { result := .error fault, metrics }
      | .ok text =>
          timed (ofText project configuration metrics direction file cursor.line text.toList)

/-- The directions in the order of a message. -/
def directionNames : List String :=
  ["up", "down"]

/-- Analyse in the named direction, or in the configured one. -/
def run (project : Project) (configuration : Configuration) (metrics : Metrics)
    (cursor : Cursor) (direction : Option String) : Analysis :=
  let name := direction.getD configuration.defaultDirection
  match Direction.ofString? name with
  | none => { result := .error (.unknownDirection name directionNames), metrics }
  | some direction => toward project configuration metrics cursor direction

end Analysis
end CallTree
