import CallTree.Fault

/-!
# Projects

A project lists its files and reads their texts.  A file is known by the path
that the listing gives it.
-/

namespace CallTree

/-- What an analysis needs of a project. -/
structure Project where
  /-- The files of the project, in order. -/
  listing : Except Fault (List String)
  /-- The text of a file. -/
  read : String → Except Fault String
  /-- The path that the listing gives to a file. -/
  normalize : String → Except Fault String

/-- A project held in memory.  Files keep the place where they were first added.
Some files may be unreadable, and the listing may fail as a whole. -/
structure MemoryProject where
  files : List (String × String) := []
  unreadable : List (String × Fault) := []
  listingFault : Option Fault := none

namespace MemoryProject

/-- Replace what stands at a path, or add it at the end. -/
def insert {α : Type} (path : String) (value : α) : List (String × α) → List (String × α)
  | [] => [(path, value)]
  | (other, old) :: rest =>
      if other == path then (other, value) :: rest else (other, old) :: insert path value rest

/-- Add a file, or replace the text of one. -/
def add (project : MemoryProject) (path text : String) : MemoryProject :=
  { project with files := insert path text project.files }

/-- Make a path unreadable. -/
def spoil (project : MemoryProject) (path : String) (fault : Fault) : MemoryProject :=
  { project with unreadable := insert path fault project.unreadable }

/-- The files of the project and then its unreadable files. -/
def paths (project : MemoryProject) : List String :=
  let files := project.files.map Prod.fst
  files ++ (project.unreadable.map Prod.fst).filter fun path => !files.contains path

def read (project : MemoryProject) (path : String) : Except Fault String :=
  match project.unreadable.lookup path with
  | some fault => .error fault
  | none =>
      match project.files.lookup path with
      | some text => .ok text
      | none => .error (.notFound path "")

def toProject (project : MemoryProject) : Project where
  listing :=
    match project.listingFault with
    | some fault => .error fault
    | none => .ok project.paths
  read := project.read
  normalize := .ok

end MemoryProject
end CallTree
