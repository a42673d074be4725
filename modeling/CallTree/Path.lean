import CallTree.Fault
import CallTree.Text.Split

/-!
# File paths

A path is a list of parts after no, one or two leading slashes.  Reading a path
drops empty parts and single dots; double dots stay until a path is normalized.
Two leading slashes are a root of their own, three or more are one.  Normalizing
only looks at the parts; resolving a path also follows the links of a disk.
-/

namespace CallTree

/-- A path: its leading slashes and its parts. -/
structure Path where
  slashes : Nat := 0
  parts : List String := []
  deriving DecidableEq, Repr, Inhabited

namespace Path

/-- The number of leading slashes that a path keeps. -/
def leadingSlashes : List Char → Nat
  | '/' :: '/' :: '/' :: _ => 1
  | '/' :: '/' :: _ => 2
  | '/' :: _ => 1
  | _ => 0

def ofString (text : String) : Path where
  slashes := leadingSlashes text.toList
  parts := ((Text.splitAt '/' text.toList).map String.ofList).filter
    fun part => part != "" && part != "."

/-- A path as text, where the empty relative path is a single dot. -/
def toString (path : Path) : String :=
  if path.slashes == 0 && path.parts.isEmpty then "."
  else String.ofList (List.replicate path.slashes '/') ++ "/".intercalate path.parts

def isAbsolute (path : Path) : Bool :=
  path.slashes != 0

/-- The last part, or an empty name for a root or the empty path. -/
def name (path : Path) : String :=
  path.parts.getLast?.getD ""

def parent (path : Path) : Path :=
  { path with parts := path.parts.dropLast }

/-- The path seen from a directory: an absolute path stands for itself. -/
def under (directory path : Path) : Path :=
  if path.isAbsolute then path
  else { directory with parts := directory.parts ++ path.parts }

/-- The text of a name from its last dot on, unless that dot starts or ends the
name. -/
def suffixOf (name : String) : String :=
  let characters := name.toList
  let extension := (characters.reverse.takeWhile (· != '.')).reverse
  let stem := characters.take (characters.length - extension.length - 1)
  if characters.contains '.' && !stem.isEmpty && !extension.isEmpty then
    String.ofList ('.' :: extension)
  else ""

/-- Remove double dots together with the parts they leave.  `kept` holds the
parts so far in reverse; at a root there is nothing to leave. -/
def foldParts (atRoot : Bool) (kept : List String) : List String → List String
  | [] => kept.reverse
  | part :: rest =>
      if part != ".." then foldParts atRoot (part :: kept) rest
      else
        match kept with
        | [] => if atRoot then foldParts atRoot [] rest else foldParts atRoot [".."] rest
        | last :: before =>
            if last == ".." then foldParts atRoot (part :: kept) rest
            else foldParts atRoot before rest

def normalize (path : Path) : Path :=
  { path with parts := foldParts path.isAbsolute [] path.parts }

/-- The normalized path from the root, for a path seen from `directory`. -/
def absolute (directory path : Path) : Path :=
  (directory.under path).normalize

/-- Something that stands between two slashes of a path and is kept when the path is
read. -/
def IsPart (part : String) : Prop :=
  part ≠ "" ∧ part ≠ "." ∧ '/' ∉ part.toList

theorem mem_foldParts {atRoot : Bool} {kept parts : List String} {part : String}
    (member : part ∈ foldParts atRoot kept parts) : part ∈ kept ∨ part ∈ parts := by
  fun_induction foldParts atRoot kept parts <;> grind

/-- The links of a disk: the place that the parts of a path lead to from the root,
unless they cannot be followed. -/
structure Links where
  follow : List String → Except Fault (List String)
  /-- A place is made of parts, too. -/
  isPart : ∀ {parts place : List String}, (∀ part ∈ parts, IsPart part) →
    follow parts = .ok place → ∀ part ∈ place, IsPart part

/-- Without links, a path leads to what is left of it when double dots cancel. -/
def Links.none : Links where
  follow parts := .ok (foldParts true [] parts)
  isPart := by
    rintro parts _ given ⟨⟩ part member
    exact given part ((mem_foldParts member).resolve_left List.not_mem_nil)

/-- The path from a single root that names the same file, with every link followed. -/
def resolve (links : Links) (directory path : Path) : Except Fault Path := do
  let parts ← links.follow (directory.under path).parts
  pure { slashes := 1, parts }

theorem resolve_none (directory path : Path) :
    directory.resolve .none path =
      .ok { slashes := 1, parts := foldParts true [] (directory.under path).parts } :=
  rfl

/-- Drop the parts that two lists start with in common. -/
def dropCommon : List String → List String → List String × List String
  | a :: as, b :: bs => if a == b then dropCommon as bs else (a :: as, b :: bs)
  | as, bs => (as, bs)

/-- The way from one list of parts to another. -/
def relativeParts (origin target : List String) : List String :=
  let (up, down) := dropCommon origin target
  up.map (fun _ => "..") ++ down

/-- The way to `path` from `origin`, both seen from `directory`. -/
def relativeTo (directory origin path : Path) : Path where
  parts := relativeParts (directory.absolute origin).parts (directory.absolute path).parts

/-- The parts of `path` below `root`, when it starts with the parts of `root`. -/
def below? (root path : Path) : Option (List String) :=
  if root.slashes == path.slashes && root.parts.isPrefixOf path.parts then
    some (path.parts.drop root.parts.length)
  else none

/-- A path as shown to a reader: relative to the project's root when it lies
inside, unchanged otherwise.  An empty root leaves every path unchanged. -/
def display (directory : Path) (root path : String) : String :=
  if root.isEmpty || !(ofString path).isAbsolute then path
  else
    let shown := (directory.relativeTo (ofString root) (ofString path)).toString
    if "..".toList.isPrefixOf shown.toList then path else shown

/-- No file has a name with a null character. -/
def hasNull (path : String) : Bool :=
  path.toList.contains (Char.ofNat 0)

/-- The address of the file at a path. -/
def address (links : Links) (directory : Path) (path : String) : Except Fault String :=
  if hasNull path then .error .nullCharacter
  else do
    let resolved ← directory.resolve links (ofString path)
    pure ("file://" ++ resolved.toString)

end Path
end CallTree
