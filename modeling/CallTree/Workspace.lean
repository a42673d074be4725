import CallTree.Project.Directory
import CallTree.Service

/-!
# Workspaces

A directory project in use: the disk it lies on, the listing it remembers, and
the metrics of its analyses.
-/

namespace CallTree

structure Workspace where
  disk : Disk
  project : DirectoryProject
  configuration : Configuration := {}
  /-- The listing, kept until it is refreshed. -/
  remembered : Option (List String) := none
  metrics : Metrics := {}

namespace Workspace

/-- The files of the project.  A listing is remembered. -/
def list (workspace : Workspace) : Except Fault (List String) × Workspace :=
  let listing := (workspace.project.toProject workspace.disk workspace.remembered).listing
  match listing with
  | .ok files => (listing, { workspace with remembered := some files })
  | .error _ => (listing, workspace)

/-- Forget the listing. -/
def refresh (workspace : Workspace) : Workspace :=
  { workspace with remembered := none }

/-- Run an analysis.  A listing that it asked for is remembered. -/
def analyze (workspace : Workspace) (cursor : Cursor) (direction : Option String) :
    Except Fault (Option Chain) × Workspace :=
  let project := workspace.project.toProject workspace.disk workspace.remembered
  let analysis :=
    Analysis.run project workspace.configuration workspace.metrics cursor direction
  let listed :=
    match analysis.listed with
    | some _ => workspace.list.2
    | none => workspace
  (analysis.result, { listed with metrics := analysis.metrics })

end Workspace

/-- A service over a directory, which has to be there. -/
def Service.ofDirectory (disk : Disk) (root : String) (configuration : Configuration) :
    Except Fault Service := do
  if root == "" || !disk.hasFolder root then
    throw (.invalid "project_root" ("not a directory: " ++ root))
  let project ← DirectoryProject.create disk root (.ofConfiguration configuration)
  Service.create (project.toProject disk none) configuration

end CallTree
