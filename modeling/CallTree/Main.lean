import CallTree.CommandLine.Run
import Std.Time.Format

/-!
# The program

Reads the directories that a run is about, runs it, and carries out what it
prints and writes.
-/

namespace CallTree
namespace CommandLine

def usage : String :=
  "usage: call-chain [-h] [--project-root PROJECT_ROOT] [--direction UP|DOWN] " ++
    "[--max-depth MAX_DEPTH] [--format tree|markdown|json|graphml] [-o OUTPUT] [--no-regex] " ++
    "[--exclude-dirs [EXCLUDE_DIRS ...]] [--exclude-globs [EXCLUDE_GLOBS ...]] [-v] [--quiet] " ++
    "file line"

/-- Read a file, or a folder without the directories that no project reads. -/
partial def readEntry (place : String) : IO (Option Entry) := do
  let path := (← IO.currentDir) / place
  if ← path.isDir then
    let mut items := []
    for item in ← path.readDir do
      if !DirectoryProject.alwaysExcluded.contains item.fileName then
        if let some entry ← readEntry item.path.toString then
          items := (item.fileName, entry) :: items
    return some (.folder items)
  else if ← path.pathExists then
    return some (.file (← IO.FS.readBinFile path).toList)
  else return none

/-- Add what stands at a place to a disk. -/
def addPlace (disk : Disk) (place : String) : IO Disk := do
  match ← readEntry place with
  | some entry => return disk.insert place entry
  | none => return disk

/-- The file that a run may write. -/
def target (options : Options) : Option String :=
  match options.output.filter (· != "") with
  | some path => some path
  | none => if options.format == .graphml then some "call_chain.graphml" else none

/-- The part of the disk that a run with the given options is about. -/
def readDisk (options : Options) : IO Disk := do
  let directory := Path.ofString (← IO.currentDir).toString
  let start : Disk := { directory }
  let root := (projectRoot start options).toOption.getD "."
  let file := (directory.absolute ((Path.ofString root).under (Path.ofString options.file))).toString
  let disk ← addPlace start (directory.absolute (Path.ofString root)).toString
  let disk ← if disk.hasFile options.file then pure disk else addPlace disk options.file
  let disk ← if disk.hasFile file then pure disk else addPlace disk file
  match target options with
  | none => return disk
  | some path =>
      let folder := (directory.absolute (Path.ofString path).parent).toString
      if disk.hasFolder folder || !(← ((← IO.currentDir) / folder).isDir) then return disk
      else return disk.insert folder .emptyFolder

/-- The variables of the environment that a configuration reads. -/
def readVariables : IO (List (String × String)) := do
  let names := ["MAX_DEPTH", "DIRECTION", "DETECT_REGEX", "EXTENSIONS", "EXCLUDE_DIRS", "MAX_FILES",
    "ENCODING", "LOG_LEVEL"]
  let values ← names.mapM fun name => do
    let key := "CALLCHAIN_" ++ name
    return (← IO.getEnv key).map (key, ·)
  return values.filterMap id

def readMoment : IO Report.Moment := do
  let now ← Std.Time.DateTime.now
  return {
    year := now.year.toInt.toNat, month := now.month.val.toNat, day := now.day.val.toNat
    hour := now.hour.val.toNat, minute := now.minute.val.toNat, second := now.second.val.toNat }

/-- Run with options and carry the run out. -/
def perform (options : Options) : IO UInt32 := do
  let disk ← readDisk options
  let surroundings : Surroundings :=
    { disk, environment := ← readVariables, moment := (← readMoment).text }
  match runOptions surroundings options with
  | .error fault =>
      IO.eprintln (fault.kind ++ ": " ++ fault.message)
      return 1
  | .ok ending =>
      if let some path := target options then
        if let some content := ending.disk.content? path then
          if disk.content? path != some content then
            IO.FS.writeBinFile path ⟨content.toArray⟩
      IO.print ending.printed
      return ending.status.toUInt32

end CommandLine
end CallTree

/-- The call chain of the method at a line of a file. -/
def main (arguments : List String) : IO UInt32 := do
  match CallTree.CommandLine.readOptions arguments with
  | .options options => CallTree.CommandLine.perform options
  | .help => do
      IO.println CallTree.CommandLine.usage
      return 0
  | .refused => do
      IO.eprintln CallTree.CommandLine.usage
      return 2
