import CallTree.Text.Numeral

/-!
# Options of the command line

The command line has two arguments, a file and a line, and options around them.
A long option may be shortened as long as it is clear which one is meant, and
its value may follow an equals sign.  Short options may be joined.  Behind two
dashes everything is an argument.
-/

namespace CallTree
namespace CommandLine

/-- How a chain is written. -/
inductive Format where
  | tree
  | markdown
  | json
  | graphml
  deriving DecidableEq, Repr

def Format.ofName? : String → Option Format
  | "tree" => some .tree
  | "markdown" => some .markdown
  | "json" => some .json
  | "graphml" => some .graphml
  | _ => none

/-- What the command line asks for. -/
structure Options where
  file : String
  line : Int
  projectRoot : Option String := none
  direction : Option String := none
  maxDepth : Option Int := none
  format : Format := .tree
  output : Option String := none
  noPatterns : Bool := false
  excludedDirectories : List String := []
  excludedGlobs : List String := []
  verbose : Bool := false
  quiet : Bool := false
  deriving DecidableEq, Repr

inductive OptionName where
  | help
  | projectRoot
  | direction
  | maxDepth
  | format
  | output
  | noPatterns
  | excludedDirectories
  | excludedGlobs
  | verbose
  | quiet
  deriving DecidableEq, Repr

/-- How many values an option takes. -/
inductive Arity where
  | none
  | one
  | many
  deriving DecidableEq, Repr

def OptionName.arity : OptionName → Arity
  | .help | .noPatterns | .verbose | .quiet => .none
  | .projectRoot | .direction | .maxDepth | .format | .output => .one
  | .excludedDirectories | .excludedGlobs => .many

/-- The spellings of the options. -/
def spellings : List (String × OptionName) := [
  ("-h", .help), ("--help", .help), ("--project-root", .projectRoot),
  ("--direction", .direction), ("--max-depth", .maxDepth), ("--format", .format),
  ("-o", .output), ("--output", .output), ("--no-regex", .noPatterns),
  ("--exclude-dirs", .excludedDirectories), ("--exclude-globs", .excludedGlobs),
  ("-v", .verbose), ("--verbose", .verbose), ("--quiet", .quiet)]

/-- A word of the command line. -/
inductive Word where
  | argument (text : String)
  /-- The two dashes behind which all words are arguments. -/
  | dashes
  /-- An option, with the value that was joined to it. -/
  | option (name : OptionName) (joined : Option String)
  /-- A word that looks like an option and is none. -/
  | unknown
  /-- An option joined to something that it does not take. -/
  | malformed
  deriving DecidableEq, Repr

/-- Split at the first equals sign. -/
def splitEquals (text : List Char) : List Char × Option (List Char) :=
  match text.dropWhile (· != '=') with
  | [] => (text, none)
  | _ :: value => (text.takeWhile (· != '='), some value)

/-- A negative number, which is an argument and no option. -/
def isNegativeNumber : List Char → Bool
  | '-' :: rest =>
      let isDigit := fun c => (Text.digitValue? c).isSome
      let whole := rest.takeWhile isDigit
      match rest.drop whole.length with
      | [] => !whole.isEmpty
      | '.' :: places => !places.isEmpty && places.all isDigit
      | _ => false
  | _ => false

/-- The options joined behind one dash, of which the first is given with what
is joined to it.  Only the last may take a value. -/
def joinedOptions (name : OptionName) : List Char → List Word
  | [] => [.option name none]
  | c :: rest =>
      if name.arity == .none then
        match spellings.lookup (String.ofList ['-', c]) with
        | some next =>
            let others := joinedOptions next rest
            if others.contains .malformed then [.malformed] else .option name none :: others
        | none => [.malformed]
      else [.option name (some (String.ofList (c :: rest)))]

/-- An option with a value behind an equals sign. -/
def equalsOption (name : OptionName) (value : List Char) : List Word :=
  if name.arity == .none then [.malformed] else [.option name (some (String.ofList value))]

/-- An option that is spelled out in full, or one dash and its letter, with an
equals sign and a value. -/
def spelledOption? (text : List Char) : Option (List Word) :=
  match spellings.lookup (String.ofList text) with
  | some name => some [.option name none]
  | none =>
      match splitEquals text with
      | (_, none) => none
      | (spelling, some value) =>
          (spellings.lookup (String.ofList spelling)).map fun name =>
            match spelling, value with
            | ['-', _], _ :: _ =>
                if name.arity == .none then joinedOptions name value
                else equalsOption name value
            | _, _ => equalsOption name value

/-- The options that a shortened or joined spelling can mean. -/
def candidates (text : List Char) : List (List Word) :=
  match text with
  | '-' :: '-' :: _ =>
      let (start, value) := splitEquals text
      (spellings.filter fun (spelling, _) => start.isPrefixOf spelling.toList).map
        fun (_, name) =>
          match value with
          | none => [.option name none]
          | some value => equalsOption name value
  | '-' :: c :: rest =>
      match spellings.lookup (String.ofList ['-', c]) with
      | some name => [joinedOptions name rest]
      | none => []
  | _ => []

/-- Read one word.  A word that can mean several options is refused. -/
def readWord (text : String) : Option (List Word) :=
  match text.toList with
  | [] => some [.argument text]
  | ['-'] => some [.argument text]
  | '-' :: rest =>
      let characters := '-' :: rest
      match spelledOption? characters with
      | some words => some words
      | none =>
          match candidates characters with
          | [words] => some words
          | _ :: _ :: _ => none
          | [] =>
              if isNegativeNumber characters || characters.contains ' ' then
                some [.argument text]
              else some [.unknown]
  | _ => some [.argument text]

/-- Read all words. -/
def readWords : List String → Option (List Word)
  | [] => some []
  | text :: texts =>
      if text == "--" then some (.dashes :: texts.map .argument)
      else do
        let first ← readWord text
        let others ← readWords texts
        pure (first ++ others)

/-- What has been read of the words so far. -/
structure Progress where
  file : Option String := none
  line : Option Int := none
  options : Options := { file := "", line := 0 }
  /-- The option that takes the arguments that follow. -/
  collecting : Option OptionName := none
  /-- The word before was the file or the line. -/
  placed : Bool := false
  /-- Two dashes wait for the argument behind them. -/
  dashed : Bool := false
  /-- There is a word that is not asked for. -/
  surplus : Bool := false

/-- How reading the options ends. -/
inductive Reading where
  | options (options : Options)
  | help
  | refused
  deriving DecidableEq, Repr

namespace Progress

/-- Set an option without a value. -/
def setFlag (progress : Progress) (name : OptionName) : Progress :=
  let options :=
    match name with
    | .noPatterns => { progress.options with noPatterns := true }
    | .verbose => { progress.options with verbose := true }
    | .quiet => { progress.options with quiet := true }
    | _ => progress.options
  { progress with options, collecting := none, placed := false }

/-- Set an option with one value, unless the value is none that it takes. -/
def setValue? (progress : Progress) (name : OptionName) (value : String) : Option Progress :=
  let finish := fun options => some { progress with options, collecting := none, placed := false }
  match name with
  | .projectRoot => finish { progress.options with projectRoot := some value }
  | .direction =>
      if ["up", "down"].contains value then
        finish { progress.options with direction := some value }
      else none
  | .maxDepth =>
      (Text.readInteger? value.toList).bind fun depth =>
        finish { progress.options with maxDepth := some depth }
  | .format =>
      (Format.ofName? value).bind fun format => finish { progress.options with format }
  | .output => finish { progress.options with output := some value }
  | _ => none

/-- Set an option with many values. -/
def setValues (progress : Progress) (name : OptionName) (values : List String) : Progress :=
  let options :=
    match name with
    | .excludedDirectories => { progress.options with excludedDirectories := values }
    | .excludedGlobs => { progress.options with excludedGlobs := values }
    | _ => progress.options
  { progress with options, placed := false }

/-- The values of an option so far. -/
def values (progress : Progress) : OptionName → List String
  | .excludedDirectories => progress.options.excludedDirectories
  | .excludedGlobs => progress.options.excludedGlobs
  | _ => []

/-- Place an argument: with the option that collects them, as the file, or as
the line, which has to be a number. -/
def place? (progress : Progress) (text : String) : Option Progress :=
  match progress.collecting with
  | some name => some (progress.setValues name (progress.values name ++ [text]))
  | none =>
      let placed := { progress with placed := true, dashed := false }
      match progress.file, progress.line with
      | none, _ => some { placed with file := some text }
      | some _, none =>
          (Text.readInteger? text.toList).map fun line => { placed with line := some line }
      | some _, some _ => some { progress with surplus := true, placed := false }

/-- Two dashes belong to the file or the line next to them. -/
def passDashes (progress : Progress) : Progress :=
  { progress with collecting := none, placed := false, dashed := !progress.placed }

/-- All words have been read. -/
def finish (progress : Progress) : Reading :=
  match progress.file, progress.line with
  | some file, some line =>
      if progress.surplus || progress.dashed then .refused
      else .options { progress.options with file, line }
  | _, _ => .refused

end Progress

/-- Read the words in order. -/
def interpret (progress : Progress) : List Word → Reading
  | [] => progress.finish
  | .argument text :: words =>
      match progress.place? text with
      | some progress => interpret progress words
      | none => .refused
  | .dashes :: words => interpret progress.passDashes words
  | .unknown :: words =>
      interpret { progress with surplus := true, collecting := none, placed := false } words
  | .malformed :: _ => .refused
  | .option name joined :: words =>
      if name == .help then .help
      else
        match name.arity, joined with
        | .none, _ => interpret (progress.setFlag name) words
        | .one, some value =>
            match progress.setValue? name value with
            | some progress => interpret progress words
            | none => .refused
        | .one, none =>
            match words with
            | .argument value :: words =>
                match progress.setValue? name value with
                | some progress => interpret progress words
                | none => .refused
            | _ => .refused
        | .many, some value =>
            interpret { progress.setValues name [value] with collecting := none } words
        | .many, none =>
            interpret { progress.setValues name [] with collecting := some name } words

/-- Read the words of a command line. -/
def readOptions (arguments : List String) : Reading :=
  match readWords arguments with
  | some words => interpret {} words
  | none => .refused

end CommandLine
end CallTree
