import CallTree.Analysis
import CallTree.Report.Document
import CallTree.Text.Decimal

/-!
# Service

A service answers requests over a project.  Every outcome of an analysis, the
faults of this library included, becomes a response.
-/

namespace CallTree

/-- A line number as a request may give it. -/
inductive LineNumber where
  | integer (value : Int)
  | decimal (value : Float)
  | boolean (value : Bool)
  | text (value : String)
  | other

/-- The whole number a line number stands for, or minus one for none.  Decimals
lose the part behind the point. -/
def LineNumber.toInt : LineNumber → Int
  | integer value => value
  | decimal value => ((Text.Binary.ofFloat? value).map Text.Binary.truncated).getD (-1)
  | boolean value => if value then 1 else 0
  | text value => (Text.readInteger? value.toList).getD (-1)
  | other => -1

/-- A request for the chain of the method at a line, counted from zero. -/
structure Request where
  file : String
  line : Int
  direction : Option String := some "up"
  text : Option String := none
  deriving DecidableEq, Repr

namespace Request

def resolvedDirection (request : Request) : Option Direction :=
  Direction.ofString? (request.direction.getD "")

/-- What is wrong with a request. -/
def errors (request : Request) : List String :=
  (if request.file == "" then ["file_path is required"] else []) ++
  (if request.line < 0 then
    ["line must be a non-negative integer, got " ++ toString request.line]
   else []) ++
  (if request.resolvedDirection.isNone then
    [Fault.directionMessage (request.direction.getD "None") Analysis.directionNames]
   else [])

end Request

structure Response where
  message : String
  result : Option Chain := none
  error : Bool := false
  errorKind : Option String := none
  deriving Repr

namespace Response

def success (chain : Chain) (message : String) : Response :=
  { message, result := some chain }

def failure (message errorKind : String) : Response :=
  { message, error := true, errorKind := some errorKind }

def toJson (response : Response) : JsonValue :=
  .object ([
    ("message", .string response.message),
    ("data", (response.result.map Chain.toJson).getD (.object []))] ++
    (if response.error then
      [("error", .boolean true)] ++
        (match response.errorKind with
          | some kind => if kind == "" then [] else [("error_type", .string kind)]
          | none => [])
     else []))

end Response

/-- A project with a configuration that analyses can run with. -/
structure Service where
  project : Project
  configuration : Configuration

namespace Service

/-- A service over a project, unless the configuration is unusable. -/
def create (project : Project) (configuration : Configuration) : Except Fault Service :=
  let problems := configuration.warnings.filter Configuration.Warning.isFatal
  if problems.isEmpty then .ok { project, configuration }
  else .error (.misconfigured (problems.map Configuration.Warning.message))

/-- The response to an analysis.  Faults of this library are counted and
answered; others are passed on. -/
def respond (request : Request) (analysis : Analysis) : Except Fault Response × Metrics :=
  match analysis.result with
  | .error fault =>
      if fault.isOwn then
        (.ok (.failure fault.message fault.kind), analysis.metrics.recordError fault.kind)
      else (.error fault, analysis.metrics)
  | .ok none =>
      (.ok (.failure
        ("No method found at " ++ request.file ++ ":" ++ toString (request.line + 1))
        "not_found"), analysis.metrics)
  | .ok (some chain) => (.ok (.success chain "success"), analysis.metrics)

/-- Answer a request. -/
def analyze (service : Service) (metrics : Metrics) (request : Request) :
    Except Fault Response × Metrics :=
  match request.errors, request.resolvedDirection with
  | [], some direction =>
      respond request (Analysis.toward service.project service.configuration metrics
        { file := request.file, line := request.line, text := request.text } direction)
  | errors, _ => (.ok (.failure ("Error: " ++ "; ".intercalate errors) "validation"), metrics)

end Service
end CallTree
