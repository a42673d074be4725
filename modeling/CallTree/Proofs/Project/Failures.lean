import CallTree.Project.Basic

/-!
# Failures of a project

The ways in which reading a file may fail, the project that is left without some
of its files, and what a walk makes of a project that fails: the files it takes
the project to list, and the texts it obtains.
-/

namespace CallTree
namespace Fault

/-- Reading a file may end so: the file is there but cannot be read, it is not
part of the project, the system refuses it, or its bytes are no text. -/
inductive OfReading : Fault → Prop where
  | unreadable (file reason : String) : OfReading (.unreadable file reason)
  | notFound (file root : String) : OfReading (.notFound file root)
  | system (fault : SystemFault) : OfReading (.system fault)
  | undecodable : OfReading .undecodable

theorem OfReading.skipsFile {fault : Fault} (ofReading : fault.OfReading) :
    fault.skipsFile = true := by
  cases ofReading <;> rfl

/-- The faults of this library are the ones that are of its most general kind. -/
theorem isOwn_iff {fault : Fault} : fault.isOwn = true ↔ "CallChainError" ∈ fault.kinds := by
  cases fault <;> simp [isOwn, kinds, kind]

end Fault

namespace Project

/-- Reading the file fails. -/
def FailsToRead (project : Project) (file : String) : Prop :=
  ∃ fault, project.read file = .error fault ∧ fault.OfReading

/-- The project with some files taken out of its listing. -/
def without (project : Project) (files : List String) : Project :=
  { project with listing := project.listing.map (·.filter (· ∉ files)) }

/-- The files that a walk takes the project to have: none, if the listing fails
with a fault of this library. -/
def listed (project : Project) : Except Fault (List String) :=
  match project.listing with
  | .ok files => .ok files
  | .error fault => if fault.isOwn then .ok [] else .error fault

/-- What a walk obtains of a file: its text, or nothing if the file is left
out. -/
def obtained (project : Project) (file : String) : Except Fault (Option String) :=
  match project.read file with
  | .ok text => .ok (some text)
  | .error fault => if fault.skipsFile then .ok none else .error fault

theorem listed_without (project : Project) (files : List String) :
    (project.without files).listed = project.listed.map (·.filter (· ∉ files)) := by
  cases listing : project.listing with
  | ok all => simp [listed, without, listing, Except.map]
  | error fault => cases own : fault.isOwn <;> simp [listed, without, listing, Except.map, own]

theorem listed_eq_nil {project : Project} {fault : Fault}
    (failed : project.listing = .error fault) (own : fault.isOwn = true) :
    project.listed = .ok [] := by
  simp [listed, failed, own]

theorem FailsToRead.obtained_eq {project : Project} {file : String}
    (fails : project.FailsToRead file) : project.obtained file = .ok none := by
  obtain ⟨fault, failed, ofReading⟩ := fails
  simp [obtained, failed, ofReading.skipsFile]

end Project
end CallTree
