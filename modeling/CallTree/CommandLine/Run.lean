import CallTree.CommandLine.Options
import CallTree.Report.GraphML
import CallTree.Report.Markdown
import CallTree.Report.Outline
import CallTree.Workspace

/-!
# Running the command line

A run reads its options, analyses the method at the given line and writes the
chain to the console or to a file.  It ends with status 0, with 1 when there is
no method at the line, and with 2 when the input is no good.
-/

namespace CallTree
namespace CommandLine

/-- Where a run takes place. -/
structure Surroundings where
  disk : Disk
  environment : List (String × String) := []
  /-- The time that reports name. -/
  moment : String

/-- How a run ends: its status, what it printed, and the disk. -/
structure Ending where
  status : Nat
  printed : String
  disk : Disk

/-- The configuration for a run: the environment's, changed by the options. -/
def configuration (environment : List (String × String)) (options : Options) : Configuration :=
  let base := Configuration.ofEnvironment environment
  { base with
    maxDepth := options.maxDepth.getD base.maxDepth
    defaultDirection := options.direction.getD base.defaultDirection
    detectPatterns := base.detectPatterns && !options.noPatterns
    excludedDirectories := base.excludedDirectories ++ options.excludedDirectories
    excludedGlobs := base.excludedGlobs ++ options.excludedGlobs }

/-- One line of console markup, printed. -/
def printLine (markup : String) : Except Fault String :=
  match Markup.print? markup with
  | some printed => .ok (printed ++ "\n")
  | none => .error .unbalancedMarkup

/-- End with a message in a colour. -/
def endWith (disk : Disk) (status : Nat) (colour message : String) : Except Fault Ending := do
  let printed ← printLine ("[" ++ colour ++ "]" ++ message ++ "[/" ++ colour ++ "]")
  pure { status, printed, disk }

/-- The outline of a chain as it is printed. -/
def printedTree (disk : Disk) (root : String) (chain : Chain) : Except Fault String :=
  match (Outline.ofChain disk.directory root chain).print? with
  | some printed => .ok printed
  | none => .error .unbalancedMarkup

/-- Text as a console prints it, with a line end of its own. -/
def printPlain (text : String) : String :=
  String.ofList (text.toList.filter (!Markup.isControl ·)) ++ "\n"

/-- Write a chain in the format asked for.  Gives what is printed and the
disk. -/
def writeChain (surroundings : Surroundings) (options : Options) (root : String)
    (chain : Chain) : Except Fault (String × Disk) := do
  let disk := surroundings.disk
  let target := options.output.filter (· != "")
  let save := fun (place title path text : String) => do
    let written ← disk.write place text.toUTF8.toList
    let printed ← printLine ("[green]✅ " ++ title ++ " written: " ++ path ++ "[/green]")
    pure (printed, written)
  let saveReport := fun (path text : String) =>
    save (Path.ofString path).toString "Report" path text
  match options.format, target with
  | .graphml, _ =>
      let path := target.getD "call_chain.graphml"
      save path "Call graph" path (GraphML.ofChain chain)
  | .tree, none => pure (← printedTree disk root chain, disk)
  | .tree, some path => saveReport path (← printedTree disk root chain)
  | .json, none => pure (printPlain (Report.json {} chain), disk)
  | .json, some path => saveReport path (Report.json {} chain)
  | .markdown, none =>
      let report ← Report.markdownWith .none disk.directory chain surroundings.moment
      pure (printPlain report, disk)
  | .markdown, some path =>
      saveReport path (← Report.markdownWith .none disk.directory chain surroundings.moment)

/-- The last line of a run: the measures of the chain. -/
def measures (options : Options) (chain : Chain) : Except Fault String :=
  if options.quiet then pure ""
  else
    printLine ("[blue]📊 depth " ++ toString chain.depth ++ ", " ++ toString chain.total ++
      " methods (" ++ chain.direction.title ++ ")[/blue]")

/-- The directory of the project: the one asked for, or that of the file. -/
def projectRoot (disk : Disk) (options : Options) : Except Fault String :=
  match options.projectRoot.filter (· != "") with
  | some root => .ok root
  | none =>
      if Path.hasNull options.file then .error .nullCharacter
      else do
        let file ← disk.directory.resolve .none (Path.ofString options.file)
        pure file.parent.toString

/-- Run with the given options. -/
def runOptions (surroundings : Surroundings) (options : Options) : Except Fault Ending := do
  let disk := surroundings.disk
  let configuration := configuration surroundings.environment options
  if options.line < 1 then
    endWith disk 2 "red" ("Error: line must be >= 1, got " ++ toString options.line)
  else
    let root ← projectRoot disk options
    let file := disk.resolveFile options.file root
    if !disk.hasFile file then
      endWith disk 2 "red" ("Error: File does not exist: " ++ options.file)
    else
      match Service.ofDirectory disk root configuration with
      | .error fault =>
          if fault.isOwn then endWith disk 2 "red" ("Error: " ++ fault.message) else throw fault
      | .ok service =>
          let response ← (service.analyze {} {
            file
            line := options.line - 1
            direction := some configuration.defaultDirection }).1
          match response.result with
          | none =>
              if response.errorKind == some "not_found" then
                endWith disk 1 "yellow" response.message
              else endWith disk 2 "red" ("Error: " ++ response.message)
          | some chain =>
              let (report, written) ← writeChain surroundings options root chain
              let last ← measures options chain
              pure { status := 0, printed := report ++ last, disk := written }

/-- Run with the words of a command line.  Options that cannot be read end the
run without a word on the console. -/
def run (surroundings : Surroundings) (arguments : List String) : Except Fault Ending :=
  match readOptions arguments with
  | .options options => runOptions surroundings options
  | .help => .ok { status := 0, printed := "", disk := surroundings.disk }
  | .refused => .ok { status := 2, printed := "", disk := surroundings.disk }

end CommandLine
end CallTree
