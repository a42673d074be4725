import CallTree.Analysis
import Mathlib.Data.List.Basic

/-!
# Line ends

An analysis sees the texts of a project through their lines only.  A carriage
return before a line feed belongs to the line end, so that it makes no
difference in which of the files, and in a text given with the cursor, the line
feeds have one.
-/

namespace CallTree

namespace Text

/-- The text with a carriage return put before each line feed. -/
def withReturns : List Char → List Char
  | [] => []
  | c :: rest => if c == '\n' then '\r' :: '\n' :: withReturns rest else c :: withReturns rest

/-- The text, with carriage returns if it is chosen to have them. -/
def returnsIf (chosen : Bool) (text : String) : String :=
  if chosen then String.ofList (withReturns text.toList) else text

example : returnsIf true "a\n\r\nb" = "a\r\n\r\r\nb" := by decide

/-- What is left in front of a dropped end is decided from the end on. -/
theorem dropEndWhile_cons_congr {p : Char → Bool} {text other : List Char}
    (same : dropEndWhile p text = dropEndWhile p other) (c : Char) :
    dropEndWhile p (c :: text) = dropEndWhile p (c :: other) := by
  have dropped : text.reverse.dropWhile p = other.reverse.dropWhile p :=
    List.reverse_injective same
  simp only [dropEndWhile, List.reverse_cons, List.dropWhile_append, dropped]

end Text

namespace Line

theorem ofText_lineFeed (text : List Char) : ofText ('\n' :: text) = [] :: ofText text := by
  simp [ofText, Text.splitAt, Text.dropEndWhile]

/-- A return in front of a line feed belongs to the line end. -/
theorem ofText_return_lineFeed (text : List Char) :
    ofText ('\r' :: '\n' :: text) = [] :: ofText text := by
  simp [ofText, Text.splitAt, Text.dropEndWhile]

/-- A character in front of a line end goes to the first of the lines. -/
theorem ofText_cons_congr {c : Char} (inside : c ≠ '\n') {text other : List Char}
    (same : ofText text = ofText other) : ofText (c :: text) = ofText (c :: other) := by
  simp only [ofText] at same ⊢
  rw [Text.splitAt, Text.splitAt, if_neg (by simpa using inside), if_neg (by simpa using inside)]
  cases pieces : Text.splitAt '\n' text with
  | nil => exact absurd pieces (Text.splitAt_ne_nil '\n' text)
  | cons first others =>
      cases otherPieces : Text.splitAt '\n' other with
      | nil => exact absurd otherPieces (Text.splitAt_ne_nil '\n' other)
      | cons otherFirst otherOthers =>
          rw [pieces, otherPieces, List.map_cons, List.map_cons, List.cons.injEq] at same
          rw [List.map_cons, List.map_cons, Text.dropEndWhile_cons_congr same.1 c, same.2]

theorem ofText_withReturns (text : List Char) : ofText (Text.withReturns text) = ofText text := by
  induction text with
  | nil => rfl
  | cons c rest ih =>
      rw [Text.withReturns]
      split
      · rename_i isLineFeed
        rw [beq_iff_eq.mp isLineFeed, ofText_return_lineFeed, ofText_lineFeed, ih]
      · rename_i inside
        exact ofText_cons_congr (by simpa using inside) ih

theorem ofText_returnsIf (chosen : Bool) (text : String) :
    ofText (Text.returnsIf chosen text).toList = ofText text.toList := by
  cases chosen with
  | false => rfl
  | true =>
      rw [Text.returnsIf, if_pos rfl, String.toList_ofList]
      exact ofText_withReturns text.toList

end Line

/-- Two readings of a file give texts with the same lines, or fail in the same
way. -/
inductive SameReading : Except Fault String → Except Fault String → Prop where
  | failed (fault : Fault) : SameReading (.error fault) (.error fault)
  | read {text other : String} : Line.ofText other.toList = Line.ofText text.toList →
      SameReading (.ok text) (.ok other)

/-- The other project has the same files, with the same lines. -/
structure Project.SameLines (project other : Project) : Prop where
  listing : other.listing = project.listing
  read : ∀ path, SameReading (project.read path) (other.read path)
  normalize : other.normalize = project.normalize

/-- What is kept of a file depends on its lines only. -/
def KeepsLines {α : Type} (keep : String → List Char → α) : Prop :=
  ∀ file text other, Line.ofText text = Line.ofText other → keep file text = keep file other

section Texts

variable {rules : Scan.Rules} {text other : List Char}

theorem Source.ofText_congr (same : Line.ofText text = Line.ofText other) :
    Source.ofText rules text = Source.ofText rules other := by
  simp only [Source.ofText, CodeLine.ofText, same]

theorem keepsLines_candidate (rules : Scan.Rules) : KeepsLines (Candidate.ofText rules) := by
  intro file text other same
  simp only [Candidate.ofText, Source.ofText_congr same]

theorem keepsLines_reading (rules : Scan.Rules) : KeepsLines (Reading.ofText rules) := by
  intro file text other same
  simp only [Reading.ofText, Source.ofText_congr same]

end Texts

namespace Walk

variable {α : Type} {project other : Project} {keep : String → List Char → α}

theorem list_congr (same : project.SameLines other) :
    (list other : WalkM α (List String)) = list project := by
  simp only [list, same.listing]

theorem load_congr (same : project.SameLines other) (keeps : KeepsLines keep) :
    load other keep = load project keep := by
  funext file
  have reads := same.read file
  simp only [load]
  generalize project.read file = reading at reads
  generalize other.read file = otherReading at reads
  cases reads with
  | failed fault => rfl
  | read lines => simp only [keeps file _ _ lines]

theorem callers_congr (same : project.SameLines other) (rules : Scan.Rules) (levels : Nat) :
    callers other rules levels = callers project rules levels := by
  induction levels with
  | zero => rfl
  | succ levels ih =>
      funext method
      simp only [callers, list_congr same, load_congr same (keepsLines_candidate rules), ih]

theorem resolveElsewhere_congr (same : project.SameLines other) (rules : Scan.Rules)
    (site : CallSite) (file : String) (standby : Option Method) (files : List String) :
    resolveElsewhere other rules site file standby files =
      resolveElsewhere project rules site file standby files := by
  induction files generalizing standby with
  | nil => rfl
  | cons next files ih =>
      simp only [resolveElsewhere, namedIn, load_congr same (keepsLines_reading rules), ih]

theorem callees_congr (same : project.SameLines other) (rules : Scan.Rules) (levels : Nat) :
    callees other rules levels = callees project rules levels := by
  induction levels with
  | zero => rfl
  | succ levels ih =>
      funext reading method
      simp only [callees, resolve, namedIn, resolveElsewhere_congr same, list_congr same,
        load_congr same (keepsLines_reading rules), ih]

end Walk

namespace Analysis

variable {project other : Project} {configuration : Configuration} {metrics : Metrics}

/-- The analysis of a text depends on its lines and on those of the project. -/
theorem ofText_eq_of_sameLines (same : project.SameLines other) {text otherText : List Char}
    (lines : Line.ofText otherText = Line.ofText text) (way : Direction) (file : String)
    (line : Int) :
    ofText other configuration metrics way file line otherText =
      ofText project configuration metrics way file line text := by
  simp only [ofText, Source.ofText_congr lines, keepsLines_candidate _ file _ _ lines,
    keepsLines_reading _ file _ _ lines, Walk.callers_congr same, Walk.callees_congr same]

theorem toward_eq_of_sameLines (same : project.SameLines other) (file : String) (line : Int)
    {text otherText : Option String}
    (lines : otherText.map (Line.ofText ·.toList) = text.map (Line.ofText ·.toList))
    (way : Direction) :
    toward other configuration metrics { file, line, text := otherText } way =
      toward project configuration metrics { file, line, text } way := by
  simp only [toward, same.normalize]
  cases project.normalize file with
  | error fault => rfl
  | ok path =>
      cases text with
      | some text =>
          obtain ⟨otherText, rfl, linesEq⟩ := Option.map_eq_some_iff.mp lines
          exact congrArg timed (ofText_eq_of_sameLines same linesEq way path line)
      | none =>
          obtain rfl : otherText = none := Option.map_eq_none_iff.mp lines
          have reads := same.read path
          dsimp only
          generalize project.read path = reading at reads
          generalize other.read path = otherReading at reads
          cases reads with
          | failed fault => rfl
          | read linesEq => exact congrArg timed (ofText_eq_of_sameLines same linesEq way path line)

/-- An analysis depends on the lines of the files, and of the text that is given
with the cursor. -/
theorem run_eq_of_sameLines (same : project.SameLines other) (file : String) (line : Int)
    {text otherText : Option String}
    (lines : otherText.map (Line.ofText ·.toList) = text.map (Line.ofText ·.toList))
    (direction : Option String) :
    run other configuration metrics { file, line, text := otherText } direction =
      run project configuration metrics { file, line, text } direction := by
  rw [run, run]
  cases Direction.ofString? (direction.getD configuration.defaultDirection) with
  | none => rfl
  | some way => exact toward_eq_of_sameLines same file line lines way

end Analysis

namespace MemoryProject

/-- The project with carriage returns in the chosen files. -/
def returnsIf (project : MemoryProject) (chosen : String → Bool) : MemoryProject :=
  { project with
    files := project.files.map fun (path, text) => (path, Text.returnsIf (chosen path) text) }

theorem lookup_returnsIf (project : MemoryProject) (chosen : String → Bool) (path : String) :
    (project.returnsIf chosen).files.lookup path =
      (project.files.lookup path).map (Text.returnsIf (chosen path)) := by
  simp only [returnsIf]
  induction project.files with
  | nil => rfl
  | cons entry entries ih =>
      rw [List.map_cons, List.lookup_cons, List.lookup_cons]
      by_cases here : path = entry.1
      · simp [here]
      · rw [beq_eq_false_iff_ne.mpr here]
        exact ih

theorem sameLines_returnsIf (project : MemoryProject) (chosen : String → Bool) :
    project.toProject.SameLines (project.returnsIf chosen).toProject where
  listing := by
    simp only [toProject, paths, returnsIf, List.map_map]
    rfl
  read path := by
    simp only [toProject, read, lookup_returnsIf]
    rw [show (project.returnsIf chosen).unreadable = project.unreadable from rfl]
    cases project.unreadable.lookup path with
    | some fault => exact .failed fault
    | none =>
        cases project.files.lookup path with
        | none => exact .failed _
        | some text => exact .read (Line.ofText_returnsIf (chosen path) text)
  normalize := rfl

end MemoryProject

namespace Analysis

/-- Line ends make no difference: with carriage returns put before the line feeds
of any of the files, and of a text given with the cursor or not, an analysis is
the same, its metrics included. -/
theorem run_returnsIf (project : MemoryProject) (chosen : String → Bool) (given : Bool)
    (configuration : Configuration) (metrics : Metrics) (cursor : Cursor)
    (direction : Option String) :
    run (project.returnsIf chosen).toProject configuration metrics
        { cursor with text := cursor.text.map (Text.returnsIf given) } direction =
      run project.toProject configuration metrics cursor direction := by
  apply run_eq_of_sameLines (project.sameLines_returnsIf chosen)
  rw [Option.map_map]
  exact congrArg (cursor.text.map ·) (funext fun text => Line.ofText_returnsIf given text)

end Analysis
end CallTree
