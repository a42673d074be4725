import CallTree.Call.Site
import CallTree.Source
import CallTree.Walk.Basic

/-!
# Callees

The callees of a method are the methods that the calls in its body lead to.  A
call leads to a definition of its name in the same file, or else in another
file; a definition in the class of the receiver is preferred.
-/

namespace CallTree

/-- A source with its definitions. -/
structure Reading where
  source : Source
  definitions : List Method

namespace Reading

def ofText (rules : Scan.Rules) (file : String) (text : List Char) : Reading :=
  let source := Source.ofText rules text
  { source, definitions := source.definitions file }

/-- The definitions that a call may lead to by its name. -/
def named (reading : Reading) (site : CallSite) : List Method :=
  reading.definitions.filter (·.name == site.callee)

/-- The calls in the body of a method. -/
def sites (reading : Reading) (method : Method) : List CallSite :=
  let extent := reading.source.extentOf method
  let lines := reading.source.rawLines
  match extent.body with
  | none => CallSite.between lines extent.start (some extent.last) 0
  | some body => CallSite.between lines body.line (some extent.last) body.column

end Reading

/-- A call that leads nowhere in the project. -/
def Occurrence.unresolved (site : CallSite) : Occurrence where
  method := site.callee
  className :=
    match site.receiver with
    | some receiver => if receiver == "" then unknownClass else receiver
    | none => unknownClass
  file := nowhere
  line := site.line
  external := true

namespace Walk

/-- The first definition in the class of the receiver, if the call has one. -/
def inReceiver? (site : CallSite) (methods : List Method) : Option Method :=
  match site.receiver with
  | none => none
  | some receiver =>
      if receiver == "" then none
      else methods.find? (·.className == some receiver)

/-- The definitions of a file that a call may lead to. -/
def namedIn (project : Project) (rules : Scan.Rules) (site : CallSite) (file : String) :
    WalkM Reading (List Method) := do
  match ← load project (Reading.ofText rules) file with
  | none => pure []
  | some reading => pure (reading.named site)

/-- Look for a call's definition in the files other than `file`.  The first
definition of the name stands by for one in the receiver's class. -/
def resolveElsewhere (project : Project) (rules : Scan.Rules) (site : CallSite) (file : String)
    (standby : Option Method) : List String → WalkM Reading (Option Method)
  | [] => pure standby
  | other :: others => do
      if other == file then resolveElsewhere project rules site file standby others
      else
        let methods ← namedIn project rules site other
        match inReceiver? site methods with
        | some method => pure (some method)
        | none => resolveElsewhere project rules site file (standby <|> methods.head?) others

/-- The definition that a call in the given file leads to. -/
def resolve (project : Project) (rules : Scan.Rules) (site : CallSite) (file : String) :
    WalkM Reading (Option Method) := do
  match ← namedIn project rules site file with
  | first :: others =>
      let methods := first :: others
      pure (inReceiver? site methods <|> some first)
  | [] => do
      let files ← list project
      resolveElsewhere project rules site file none files

/-- A leaf for a call that leads nowhere. -/
def miss (site : CallSite) : WalkM Reading Tree := do
  record (·.recordNode true)
  pure (.leaf (.unresolved site))

/-- The tree of callees of a method, with at most the given number of levels
expanded. -/
def callees (project : Project) (rules : Scan.Rules) :
    Nat → Reading → Method → WalkM Reading Tree
  | 0, _, method => stop method
  | levels + 1, reading, method => expand method do
      collect (fun site => do
        match ← resolve project rules site method.file with
        | none => do
            record Metrics.recordUnresolved
            let tree ← miss site
            pure [tree]
        | some callee =>
            match ← load project (Reading.ofText rules) callee.file with
            | none => do
                let tree ← miss site
                pure [tree]
            | some reading => do
                let tree ← callees project rules levels reading callee
                pure [tree]) (reading.sites method)

end Walk
end CallTree
