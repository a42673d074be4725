import CallTree.Call.Form
import CallTree.Source
import CallTree.Walk.Basic

/-!
# Callers

The callers of a method are the definitions of all files, in order, whose bodies
call it.
-/

namespace CallTree

/-- A definition with the lines of its body. -/
structure Candidate where
  method : Method
  body : List Line
  deriving DecidableEq, Repr

namespace Candidate

/-- The extent used for a definition: that of the first definition with its
key. -/
def sharedExtent (source : Source) (definitions : List Method) (method : Method) : Extent :=
  source.extentOf ((definitions.find? fun other => other.key == method.key).getD method)

/-- The definitions of a file. -/
def ofText (rules : Scan.Rules) (file : String) (text : List Char) : List Candidate :=
  let source := Source.ofText rules text
  let definitions := source.definitions file
  definitions.map fun method =>
    { method, body := (sharedExtent source definitions method).bodyLines source.rawLines }

/-- The candidate is another method and calls the given one. -/
def calls (candidate : Candidate) (method : Method) : Bool :=
  candidate.method.key != method.key &&
    CallForm.bodyCalls candidate.body method.name method.className

end Candidate

namespace Walk

/-- The tree of callers of a method, with at most the given number of levels
expanded. -/
def callers (project : Project) (rules : Scan.Rules) :
    Nat → Method → WalkM (List Candidate) Tree
  | 0, method => stop method
  | levels + 1, method => expand method do
      let files ← list project
      collect (fun file => do
        match ← load project (Candidate.ofText rules) file with
        | none => pure []
        | some candidates =>
            collect (fun candidate =>
              if candidate.calls method then do
                let tree ← callers project rules levels candidate.method
                pure [tree]
              else pure []) candidates) files

end Walk
end CallTree
