import CallTree.Text.Quoted

/-!
# Faults

What can go wrong outside the analysis itself: reading the files of a project,
checking what was asked for, and the configuration.  The library has faults of
its own, with a kind and a message; the others come from the system.
-/

namespace CallTree

/-- A refusal by the operating system. -/
inductive SystemFault where
  | refused
  | missing
  | isDirectory
  | notDirectory
  deriving DecidableEq, Repr

inductive Fault where
  /-- A fault without a kind of its own. -/
  | general (message : String)
  /-- A fault of reading a project. -/
  | source (message : String)
  /-- A file that could not be read. -/
  | unreadable (file : String) (reason : String)
  /-- A file that is not part of the project. -/
  | notFound (file : String) (root : String)
  /-- A value that was refused. -/
  | invalid (field : String) (message : String)
  /-- A direction that is none of the valid ones. -/
  | unknownDirection (direction : String) (valid : List String)
  /-- A configuration that cannot be used. -/
  | misconfigured (problems : List String)
  | system (fault : SystemFault)
  /-- Bytes that are no text. -/
  | undecodable
  /-- An encoding that is not known. -/
  | unknownEncoding
  /-- A path with a null character. -/
  | nullCharacter
  /-- Links that lead in a circle. -/
  | linkCircle
  /-- Console markup whose tags do not match. -/
  | unbalancedMarkup
  deriving DecidableEq, Repr

namespace Fault

/-- The name of the kind of a fault.  Faults of this library are counted and
reported under it. -/
def kind : Fault → String
  | general _ => "CallChainError"
  | source _ => "SourceError"
  | unreadable _ _ => "SourceReadError"
  | notFound _ _ => "SourceNotFoundError"
  | invalid _ _ => "ValidationError"
  | unknownDirection _ _ => "InvalidDirectionError"
  | misconfigured _ => "ConfigurationError"
  | system _ => "system"
  | undecodable | unknownEncoding => "encoding"
  | nullCharacter | linkCircle => "path"
  | unbalancedMarkup => "markup"

/-- A fault of this library. -/
def isOwn : Fault → Bool
  | general _ | source _ | unreadable _ _ | notFound _ _ | invalid _ _ | unknownDirection _ _
  | misconfigured _ => true
  | _ => false

/-- A fault for which a file is left out of an analysis. -/
def skipsFile : Fault → Bool
  | system _ | undecodable => true
  | fault => fault.isOwn

/-- A fault for which a path is shown in place of its address. -/
def hidesAddress : Fault → Bool
  | system _ | undecodable | nullCharacter => true
  | _ => false

/-- The kinds of a fault of this library, from its own to the most general. -/
def kinds : Fault → List String
  | general _ => ["CallChainError"]
  | source _ => ["SourceError", "CallChainError"]
  | unreadable _ _ => ["SourceReadError", "SourceError", "CallChainError"]
  | notFound _ _ => ["SourceNotFoundError", "SourceError", "CallChainError"]
  | invalid _ _ => ["ValidationError", "CallChainError"]
  | unknownDirection _ _ => ["InvalidDirectionError", "ValidationError", "CallChainError"]
  | misconfigured _ => ["ConfigurationError", "CallChainError"]
  | fault => [fault.kind]

/-- The directions of a message, in order. -/
def sortedDirections (valid : List String) : List String :=
  valid.mergeSort fun first second => decide (first ≤ second)

/-- What is said about an unknown direction. -/
def directionMessage (direction : String) (valid : List String) : String :=
  "Unknown direction '" ++ direction ++ "'. Valid: " ++ Text.quotedList valid

/-- The message of a fault. -/
def message : Fault → String
  | general message => message
  | source message => message
  | unreadable file reason => "Failed to read '" ++ file ++ "': " ++ reason
  | notFound file root =>
      "File '" ++ file ++ "' not found" ++
        (if root == "" then "" else " in project '" ++ root ++ "'")
  | invalid field message => "Validation error for '" ++ field ++ "': " ++ message
  | unknownDirection direction valid =>
      "Validation error for 'direction': " ++ directionMessage direction (sortedDirections valid)
  | misconfigured problems => "Invalid configuration: " ++ "; ".intercalate problems
  | system .refused => "refused"
  | system .missing => "no such file or directory"
  | system .isDirectory => "is a directory"
  | system .notDirectory => "is not a directory"
  | undecodable => "bytes that are no text"
  | unknownEncoding => "unknown encoding"
  | nullCharacter => "null character in a path"
  | linkCircle => "links in a circle"
  | unbalancedMarkup => "closing tag that closes nothing"

/-- A value among the details of a fault. -/
inductive Detail where
  | text (value : String)
  | texts (values : List String)
  deriving DecidableEq, Repr

/-- The details of a fault by name. -/
def details : Fault → List (String × Detail)
  | unreadable file reason => [("file_path", .text file), ("reason", .text reason)]
  | notFound file root => [("file_path", .text file), ("project_root", .text root)]
  | invalid field message => [("field", .text field), ("message", .text message)]
  | unknownDirection direction valid => [
      ("field", .text "direction"),
      ("message", .text (directionMessage direction (sortedDirections valid))),
      ("direction", .text direction),
      ("valid_directions", .texts (sortedDirections valid))]
  | misconfigured problems => [("problems", .texts problems)]
  | _ => []

end Fault

/-- What came to a result went through its first step. -/
theorem exists_of_bind_eq_ok {α β : Type} {first : Except Fault α} {next : α → Except Fault β}
    {result : β} (made : first >>= next = .ok result) :
    ∃ value, first = .ok value ∧ next value = .ok result := by
  cases first with
  | error fault => cases made
  | ok value => exact ⟨value, rfl, made⟩

end CallTree
