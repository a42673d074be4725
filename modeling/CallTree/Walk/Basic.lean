import CallTree.Metrics
import CallTree.Method
import CallTree.Project.Basic
import CallTree.Tree

/-!
# Walks

A walk expands the methods of a project one after another.  It expands a method
once, lists the project once, and reads a file once.  What it keeps of a file is
up to the kind of walk.  Faults that only concern one file leave that file out;
all others end the walk.
-/

namespace CallTree

/-- What a walk has done so far, where `α` is what it keeps of a file. -/
structure Walk (α : Type) where
  /-- The methods that have been expanded. -/
  visited : List MethodKey := []
  /-- The files that have been read, with nothing for those left out. -/
  loaded : List (String × Option α) := []
  /-- The files that the project has been asked for, the last one first. -/
  reads : List String := []
  /-- The listing, once it has been asked for. -/
  files : Option (List String) := none
  metrics : Metrics

/-- An action of a walk.  What was done before a fault stays done. -/
abbrev WalkM (α : Type) := ExceptT Fault (StateM (Walk α))

namespace Walk

variable {α β γ : Type}

/-- Ask the project for a file. -/
def ask (walk : Walk α) (file : String) : Walk α :=
  { walk with reads := file :: walk.reads }

/-- Change the metrics. -/
def record (change : Metrics → Metrics) : WalkM α Unit :=
  modify fun walk => { walk with metrics := change walk.metrics }

/-- Run an action on every element and join the results. -/
def collect (action : β → WalkM α (List γ)) : List β → WalkM α (List γ)
  | [] => pure []
  | value :: values => do
      let first ← action value
      let others ← collect action values
      pure (first ++ others)

/-- The files of the project, asked for once.  A project that cannot be listed
has no files. -/
def list (project : Project) : WalkM α (List String) := do
  match (← get).files with
  | some files => pure files
  | none =>
      let files ←
        match project.listing with
        | .ok files => pure files
        | .error fault =>
            if fault.isOwn then do
              record (·.recordError fault.kind)
              pure []
            else throw fault
      modify fun walk => { walk with files := some files }
      pure files

/-- What is kept of a file, read once.  Nothing is kept of a file that cannot be
read. -/
def load (project : Project) (keep : String → List Char → α) (file : String) :
    WalkM α (Option α) := do
  match (← get).loaded.lookup file with
  | some known => pure known
  | none =>
      modify (·.ask file)
      let kept ←
        match project.read file with
        | .ok text => do
            record Metrics.recordRead
            pure (some (keep file text.toList))
        | .error fault =>
            if fault.skipsFile then do
              record Metrics.recordReadFailure
              pure none
            else throw fault
      modify fun walk => { walk with loaded := (file, kept) :: walk.loaded }
      pure kept

/-- A leaf for a method that is not expanded. -/
def stop (method : Method) : WalkM α Tree := do
  record (·.recordNode true)
  pure (.leaf (.ofMethod method true))

/-- Expand a method, unless it has been expanded before. -/
def expand (method : Method) (children : WalkM α (List Tree)) : WalkM α Tree := do
  if (← get).visited.contains method.key then stop method
  else
    modify fun walk => { walk with visited := method.key :: walk.visited }
    record (·.recordNode false)
    let below ← children
    pure (.node (.ofMethod method false) below)

end Walk
end CallTree
