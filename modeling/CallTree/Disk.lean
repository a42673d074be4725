import CallTree.Fault
import CallTree.Path

/-!
# Disks

A disk is a tree of folders and files without links.  Paths are looked up part
by part: a part leads from a folder to an entry of it, and two dots lead back.
-/

namespace CallTree

inductive Entry where
  | file (content : List UInt8)
  | folder (items : List (String × Entry))
  deriving Inhabited

namespace Entry

def emptyFolder : Entry := folder []

def isFile : Entry → Bool
  | file _ => true
  | folder _ => false

def isFolder : Entry → Bool
  | file _ => false
  | folder _ => true

def items : Entry → List (String × Entry)
  | file _ => []
  | folder items => items

/-- The entry that the parts of a path lead to, where `above` are the folders
around the current one.  Empty parts and single dots stay at a folder. -/
def find? (above : List Entry) (current : Entry) : List String → Option Entry
  | [] => some current
  | part :: parts =>
      if !current.isFolder then none
      else if part == "" || part == "." then find? above current parts
      else if part == ".." then
        match above with
        | [] => find? [] current parts
        | outer :: others => find? others outer parts
      else
        match current.items.lookup part with
        | none => none
        | some inner => find? (current :: above) inner parts

/-- Replace an item of a folder, or add it at the end. -/
def replaceItem (name : String) (entry : Entry) :
    List (String × Entry) → List (String × Entry)
  | [] => [(name, entry)]
  | (other, old) :: rest =>
      if other == name then (other, entry) :: rest
      else (other, old) :: replaceItem name entry rest

/-- Put an entry at a place, with folders made on the way where there are
none. -/
def insert : Entry → List String → Entry → Entry
  | _, [], entry => entry
  | current, part :: parts, entry =>
      let inner := (current.items.lookup part).getD emptyFolder
      folder (replaceItem part (insert inner parts entry) current.items)

/-- Remove the entry at a place. -/
def erase : Entry → List String → Entry
  | current, [] => current
  | current, [part] => folder (current.items.filter (·.1 != part))
  | current, part :: parts =>
      match current.items.lookup part with
      | none => current
      | some inner => folder (replaceItem part (erase inner parts) current.items)

end Entry

/-- A disk, with the directory that relative paths are taken from. -/
structure Disk where
  top : Entry := .emptyFolder
  directory : Path := { slashes := 1 }

namespace Disk

/-- The raw parts of a path from the top of the disk. -/
def rawParts (disk : Disk) (path : String) : List String :=
  let parts := (Text.splitAt '/' path.toList).map String.ofList
  if (Path.ofString path).isAbsolute then parts else disk.directory.parts ++ parts

/-- The entry that a path leads to.  The empty path leads nowhere, and neither
does one with a null character. -/
def find? (disk : Disk) (path : String) : Option Entry :=
  if path == "" || Path.hasNull path then none
  else disk.top.find? [] (disk.rawParts path)

def hasEntry (disk : Disk) (path : String) : Bool :=
  (disk.find? path).isSome

def hasFile (disk : Disk) (path : String) : Bool :=
  (disk.find? path).any Entry.isFile

def hasFolder (disk : Disk) (path : String) : Bool :=
  (disk.find? path).any Entry.isFolder

/-- The content of the file at a path. -/
def content? (disk : Disk) (path : String) : Option (List UInt8) :=
  match disk.find? path with
  | some (.file content) => some content
  | _ => none

/-- The place of a path on the disk. -/
def place (disk : Disk) (path : String) : List String :=
  (disk.directory.absolute (Path.ofString path)).parts

/-- Put an entry at a path, with folders made on the way. -/
def insert (disk : Disk) (path : String) (entry : Entry) : Disk :=
  { disk with top := disk.top.insert (disk.place path) entry }

/-- Remove the entry at a path. -/
def erase (disk : Disk) (path : String) : Disk :=
  { disk with top := disk.top.erase (disk.place path) }

/-- The absolute path of a file that may be given relative to a root.  A path
that exists is preferred: as given if it is absolute, then below the root, then
below the working directory. -/
def resolveFile (disk : Disk) (path root : String) : String :=
  let parsed := Path.ofString path
  let here := (disk.directory.absolute parsed).toString
  let cleaned := if "./".toList.isPrefixOf path.toList then
    String.ofList (path.toList.drop 2) else path
  let below := (disk.directory.absolute ((Path.ofString root).under (Path.ofString cleaned))).toString
  if path == "" then ""
  else if parsed.isAbsolute && disk.hasEntry path then here
  else if disk.hasEntry below then below
  else if disk.hasEntry here then here
  else below

/-- Why no file can be made in the folder at a path. -/
def folderFault? (disk : Disk) (path : String) : Option SystemFault :=
  match disk.find? path with
  | some (.folder _) => none
  | some (.file _) => some .notDirectory
  | none => some .missing

/-- Write a file, for which its folder has to be there. -/
def write (disk : Disk) (path : String) (content : List UInt8) : Except Fault Disk :=
  if Path.hasNull path then .error .nullCharacter
  else
    let parsed := Path.ofString path
    match disk.folderFault? parsed.parent.toString with
    | some fault => .error (.system fault)
    | none =>
        if path.toList.getLast? == some '/' || disk.hasFolder path then
          .error (.system .isDirectory)
        else .ok (disk.insert path (.file content))

end Disk
end CallTree
