import CallTree.Configuration
import CallTree.Disk
import CallTree.Glob
import CallTree.Project.Basic
import CallTree.Text.Encoding

/-!
# Projects on a disk

The files of a directory project are those below its root with one of its
extensions, outside excluded directories and not matched by an excluded glob.
They are listed directory by directory: the files of a directory by name, then
its subdirectories by name.
-/

namespace CallTree

structure DirectoryProject where
  root : Path
  /-- Extensions in lower case, each with its dot. -/
  extensions : List String
  excludedDirectories : List String
  /-- Globs in lower case. -/
  excludedGlobs : List String
  encoding : String
  maxFiles : Int
  deriving Repr

namespace DirectoryProject

/-- Directories that never hold sources of interest. -/
def alwaysExcluded : List String := [
  ".git", ".svn", ".hg", ".idea", ".vscode", ".gradle", ".mvn", "build", "target", "out", "bin",
  "node_modules", "__pycache__"]

/-- An extension in lower case with its dot. -/
def extension (text : String) : String :=
  match text.toList with
  | '.' :: _ => Text.lower text
  | _ => "." ++ Text.lower text

/-- What a directory project is made from. -/
structure Settings where
  extensions : List String := [".java"]
  excludedDirectories : List String := []
  excludedGlobs : List String := []
  encoding : String := "utf-8"
  maxFiles : Int := 20000

def Settings.ofConfiguration (configuration : Configuration) : Settings where
  extensions := configuration.extensions
  excludedDirectories := configuration.excludedDirectories
  excludedGlobs := configuration.excludedGlobs
  encoding := configuration.encoding
  maxFiles := configuration.maxFiles

/-- The project at a path.  No extensions at all stand for the usual one. -/
def create (disk : Disk) (root : String) (settings : Settings) :
    Except Fault DirectoryProject :=
  if Path.hasNull root then .error .nullCharacter
  else do
    let root ← disk.directory.resolve .none (Path.ofString root)
    pure {
      root
      extensions :=
        (if settings.extensions.isEmpty then [".java"] else settings.extensions).map extension
      excludedDirectories := alwaysExcluded ++ settings.excludedDirectories
      excludedGlobs := settings.excludedGlobs.map Text.lower
      encoding := settings.encoding
      maxFiles := settings.maxFiles }

/-- A path below the root is left out when it lies in an excluded directory or
matches a glob. -/
def excludesParts (project : DirectoryProject) (parts : List String) : Bool :=
  parts.dropLast.any project.excludedDirectories.contains ||
    let shown := Text.lower ({ parts } : Path).toString
    project.excludedGlobs.any fun glob => Glob.globMatches glob shown

/-- A path is left out.  All paths outside the root are. -/
def excludes (project : DirectoryProject) (path : Path) : Bool :=
  match project.root.below? path with
  | none => true
  | some parts => project.excludesParts parts

/-- The file with the given parts below the root belongs to the project. -/
def accepts (project : DirectoryProject) (parts : List String) : Bool :=
  project.extensions.contains (Text.lower (Path.suffixOf (parts.getLast?.getD ""))) &&
    !project.excludesParts parts

/-- Order by name. -/
def sortByName {α : Type} (items : List (String × α)) : List (String × α) :=
  items.mergeSort fun first second => decide (first.1 ≤ second.1)

/-- Add a file to those found, unless there are enough of them. -/
def consider (project : DirectoryProject) (found : List (List String)) (parts : List String) :
    List (List String) :=
  if project.maxFiles ≤ found.length then found
  else if project.accepts parts then found ++ [parts]
  else found

/-- Add to the files found. -/
abbrev Search := List (List String) → List (List String)

mutual

/-- Search a folder, whose parts below the root are given: its files, then its
folders. -/
def searchEntry (project : DirectoryProject) (here : List String) : Entry → Search
  | .file _, found => found
  | .folder items, found =>
      let files := sortByName (items.filter (·.2.isFile))
      let folders := sortByName (searchItems project here items)
      folders.foldl (fun found folder => folder.2 found)
        (files.foldl (fun found file => project.consider found (here ++ [file.1])) found)

/-- The searches of the folders among the items, excluded ones left out. -/
def searchItems (project : DirectoryProject) (here : List String) :
    List (String × Entry) → List (String × Search)
  | [] => []
  | (name, entry) :: items =>
      if entry.isFolder && !project.excludedDirectories.contains name then
        (name, searchEntry project (here ++ [name]) entry) :: searchItems project here items
      else searchItems project here items

end

/-- The path of the file with the given parts below the root. -/
def pathBelow (project : DirectoryProject) (parts : List String) : String :=
  { project.root with parts := project.root.parts ++ parts : Path }.toString

/-- The files of the project. -/
def listing (project : DirectoryProject) (disk : Disk) : Except Fault (List String) :=
  match disk.find? project.root.toString with
  | some (.folder items) =>
      .ok ((searchEntry project [] (.folder items) []).map project.pathBelow)
  | _ => .error (.notFound project.root.toString "")

/-- The path that the listing gives to a file: its directory is resolved and its
name is kept. -/
def normalize (project : DirectoryProject) (file : String) : Except Fault String :=
  let path := project.root.under (Path.ofString file)
  if Path.hasNull path.parent.toString then .error .nullCharacter
  else do
    let parent ← project.root.resolve .none path.parent
    pure (parent.under { parts := if path.name == "" then [] else [path.name] }).toString

/-- The text of a file. -/
def read (project : DirectoryProject) (disk : Disk) (file : String) : Except Fault String :=
  match disk.content? (project.root.under (Path.ofString file)).toString with
  | none => .error (.notFound file project.root.toString)
  | some content =>
      match Text.Encoding.ofName? project.encoding with
      | none => .error .unknownEncoding
      | some encoding =>
          .ok (String.ofList (Text.uniformLineEnds (encoding.decode content)))

/-- The project on a disk, where an earlier listing may be remembered. -/
def toProject (project : DirectoryProject) (disk : Disk) (remembered : Option (List String)) :
    Project where
  listing :=
    match remembered with
    | some files => .ok files
    | none => project.listing disk
  read := project.read disk
  normalize := project.normalize

end DirectoryProject
end CallTree
