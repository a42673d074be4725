import CallTree.Text.Blank
import CallTree.Text.LowerCase
import CallTree.Text.Numeral
import CallTree.Text.Split

/-!
# Configuration

The settings of an analysis, their values from the environment, and what is
wrong with them.
-/

namespace CallTree

structure Configuration where
  maxDepth : Int := 10
  defaultDirection : String := "up"
  detectPatterns : Bool := true
  extensions : List String := [".java"]
  excludedDirectories : List String := []
  excludedGlobs : List String := []
  encoding : String := "utf-8"
  maxFiles : Int := 20000
  logLevel : String := "INFO"
  deriving DecidableEq, Repr, Inhabited

namespace Configuration

/-- Read a truth value by one of its usual words. -/
def readFlag? (text : String) : Option Bool :=
  let word := Text.lower (Text.trimString text)
  if ["1", "true", "yes", "on"].contains word then some true
  else if ["0", "false", "no", "off"].contains word then some false
  else none

/-- The items between commas, trimmed and without the empty ones. -/
def readItems (text : String) : List String :=
  ((Text.splitAt ',' text.toList).map fun item => String.ofList (Text.trim item)).filter (· != "")

/-- The configuration that environment variables ask for.  A value that cannot
be read leaves its setting at the default. -/
def ofEnvironment (environment : List (String × String)) : Configuration :=
  let value := fun name => environment.lookup ("CALLCHAIN_" ++ name)
  let number := fun name => value name >>= fun text => Text.readInteger? text.toList
  let default : Configuration := {}
  { maxDepth := (number "MAX_DEPTH").getD default.maxDepth
    defaultDirection := (value "DIRECTION").getD default.defaultDirection
    detectPatterns := (value "DETECT_REGEX" >>= readFlag?).getD default.detectPatterns
    extensions := ((value "EXTENSIONS").map readItems).getD default.extensions
    excludedDirectories :=
      ((value "EXCLUDE_DIRS").map readItems).getD default.excludedDirectories
    excludedGlobs := default.excludedGlobs
    encoding := (value "ENCODING").getD default.encoding
    maxFiles := (number "MAX_FILES").getD default.maxFiles
    logLevel := (value "LOG_LEVEL").getD default.logLevel }

/-- Something to be said about a configuration. -/
inductive Warning where
  | depthTooSmall (depth : Int)
  | depthVeryHigh (depth : Int)
  | unknownDirection (direction : String)
  | noExtensions
  | tooFewFiles (count : Int)
  deriving DecidableEq, Repr

namespace Warning

def message : Warning → String
  | depthTooSmall depth => "max_depth must be >= 1, got " ++ toString depth
  | depthVeryHigh depth =>
      "max_depth=" ++ toString depth ++ " is very high, traversal may be slow"
  | unknownDirection direction =>
      "default_direction must be 'up' or 'down', got '" ++ direction ++ "'"
  | noExtensions => "extensions is empty, no project files will be scanned"
  | tooFewFiles count => "max_files must be >= 1, got " ++ toString count

/-- An analysis cannot run with such a configuration. -/
def isFatal : Warning → Bool
  | depthTooSmall _ | unknownDirection _ | tooFewFiles _ => true
  | depthVeryHigh _ | noExtensions => false

end Warning

/-- All that is to be said about a configuration. -/
def warnings (configuration : Configuration) : List Warning :=
  (if configuration.maxDepth < 1 then [.depthTooSmall configuration.maxDepth] else []) ++
  (if 50 < configuration.maxDepth then [.depthVeryHigh configuration.maxDepth] else []) ++
  (if ["up", "down"].contains (Text.lower (Text.trimString configuration.defaultDirection)) then
    []
   else [.unknownDirection configuration.defaultDirection]) ++
  (if configuration.extensions.isEmpty then [.noExtensions] else []) ++
  (if configuration.maxFiles < 1 then [.tooFewFiles configuration.maxFiles] else [])

end Configuration
end CallTree
