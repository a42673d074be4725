import CallTree.Line
import CallTree.Scan.Context
import CallTree.Scan.Heuristic

/-!
# Scanning a line

A scan walks over a line and tells code from everything else.  Each step
consumes one or more characters, shows or blanks them, and updates the context.
The braces of code are counted on the way.  The mask of a line has its length
and holds the shown characters in their places, with spaces between them.
-/

namespace CallTree
namespace Scan

/-- How a scan decides about `<` and `/`. -/
structure Rules where
  detectPatterns : Bool := true
  opensGeneric : Judgement := Scan.opensGeneric
  opensPattern : Judgement := Scan.opensPattern
  closesPattern : Judgement := Scan.closesPattern

/-- What a scan does at one position: it consumes the character there and
`further` ones, all of them shown or all of them blanked. -/
structure Step where
  further : Nat := 0
  shown : Bool := false
  opens : Nat := 0
  closes : Nat := 0
  context : Context

/-- The characters of an annotation after its `@`: spaces, then its name. -/
def annotationName (rest : List Char) : List Char :=
  rest.takeWhile (· == ' ') ++
    (rest.dropWhile (· == ' ')).takeWhile fun c => Text.isWord c || c == '.' || c == '$'

/-- An annotation with arguments is blanked up to its parenthesis, where the
argument context starts.  Any other annotation is shown. -/
def annotationStep (rest : List Char) (context : Context) : Step :=
  let name := annotationName rest
  let afterName := rest.drop name.length
  let gap := afterName.takeWhile fun c => c == ' ' || c == '\t'
  if (afterName.drop gap.length).head? == some '(' then
    { further := name.length + gap.length
      context := { context with inArguments := true, argumentLevel := 0 } }
  else { further := name.length, shown := true, context }

/-- One step where no context but code is open. -/
def codeStep (rules : Rules) (before : List Char) (c : Char) (rest : List Char)
    (context : Context) : Step :=
  if c == '/' then
    if rest.head? == some '/' then
      { further := rest.length, context := { context with inLineComment := true } }
    else if rest.head? == some '*' then
      { further := 1, context := { context with inBlockComment := true } }
    else if rules.detectPatterns && rules.opensPattern before (c :: rest) then
      { context := { context with inPattern := true } }
    else { shown := true, context }
  else if c == '"' then
    if ['"', '"'].isPrefixOf rest then
      { further := 2
        context :=
          if Text.isBlankText before || Text.isBlankText (rest.drop 2) then
            { context with inTextBlock := true }
          else context }
    else { context := { context with inString := true } }
  else if c == '\x27' then { context := { context with inCharacter := true } }
  else if c == '@' then annotationStep rest context
  else if c == '<' && rules.opensGeneric before (c :: rest) then
    { shown := true, context := { context with inGeneric := true, genericLevel := 1 } }
  else
    { shown := true
      opens := if c == '{' then 1 else 0
      closes := if c == '}' then 1 else 0
      context }

/-- One step inside annotation arguments, which end at the bracket that closes
their first one. -/
def annotationArgumentStep (c : Char) (context : Context) : Step :=
  if c == '(' || c == '{' then
    { context := { context with argumentLevel := context.argumentLevel + 1 } }
  else if c == ')' || c == '}' then
    if context.argumentLevel - 1 ≤ 0 then
      { context := { context with inArguments := false, argumentLevel := 0 } }
    else { context := { context with argumentLevel := context.argumentLevel - 1 } }
  else { context }

/-- One step inside a type argument list, which stays visible. -/
def genericStep (c : Char) (context : Context) : Step :=
  if c == '<' then
    { shown := true, context := { context with genericLevel := context.genericLevel + 1 } }
  else if c == '>' then
    if context.genericLevel - 1 ≤ 0 then
      { shown := true, context := { context with inGeneric := false, genericLevel := 0 } }
    else
      { shown := true, context := { context with genericLevel := context.genericLevel - 1 } }
  else { shown := true, context }

/-- One step of a scan: a backslash hides the character after it in every
context; otherwise the open context decides. -/
def step (rules : Rules) (before : List Char) (c : Char) (rest : List Char)
    (context : Context) : Step :=
  if context.escaped then { context := { context with escaped := false } }
  else if c == '\\' then { context := { context with escaped := true } }
  else if context.inBlockComment then
    if c == '*' && rest.head? == some '/' then
      { further := 1, context := { context with inBlockComment := false } }
    else { context }
  else if context.inTextBlock then
    if c == '"' && ['"', '"'].isPrefixOf rest then
      { further := 2, context := { context with inTextBlock := false } }
    else { context }
  else if context.inString then
    { context := if c == '"' then { context with inString := false } else context }
  else if context.inCharacter then
    { context := if c == '\x27' then { context with inCharacter := false } else context }
  else if context.inPattern then
    { context :=
        if c == '/' && rules.closesPattern before (c :: rest) then
          { context with inPattern := false }
        else context }
  else if context.inArguments then annotationArgumentStep c context
  else if context.inGeneric then genericStep c context
  else codeStep rules before c rest context

/-- The outcome of scanning a line: its mask, its code braces, and the context
after it. -/
structure Outcome where
  mask : List Char
  opens : Nat
  closes : Nat
  context : Context
  deriving DecidableEq, Repr

/-- Put a step's characters and braces in front of what follows it. -/
def Outcome.prepend (taken : List Char) (s : Step) (outcome : Outcome) : Outcome where
  mask := (if s.shown then taken else List.replicate taken.length ' ') ++ outcome.mask
  opens := s.opens + outcome.opens
  closes := s.closes + outcome.closes
  context := outcome.context

/-- Scan what is left of a line after the characters `before`, held nearest
first. -/
def scanFrom (rules : Rules) (before rest : List Char) (context : Context) : Outcome :=
  match rest with
  | [] => { mask := [], opens := 0, closes := 0, context := context.carry }
  | c :: rest =>
      let s := step rules before c rest context
      let taken := c :: rest.take s.further
      (scanFrom rules (taken.reverse ++ before) (rest.drop s.further) s.context).prepend taken s
termination_by rest.length
decreasing_by
  simp only [List.length_drop, List.length_cons]
  omega

/-- Scan one line. -/
def scanLine (rules : Rules) (line : Line) (context : Context) : Outcome :=
  scanFrom rules [] line context

/-- The code braces of a line, and the context after it. -/
structure BraceCount where
  opens : Nat
  closes : Nat
  context : Context
  deriving DecidableEq, Repr

/-- Scan one line for its braces. -/
def countBraces (rules : Rules) (line : Line) (context : Context) : BraceCount :=
  let outcome := scanLine rules line context
  { opens := outcome.opens, closes := outcome.closes, context := outcome.context }

/-- Scan one line for its mask.  The context after the line comes with it. -/
def codeText (rules : Rules) (line : Line) (context : Context) : List Char × Context :=
  let outcome := scanLine rules line context
  (outcome.mask, outcome.context)

/-- Both views of a line leave one context, and together they are the outcome of its
scan. -/
theorem scanLine_eq_views (rules : Rules) (line : Line) (context : Context) :
    (codeText rules line context).2 = (countBraces rules line context).context ∧
      scanLine rules line context =
        { mask := (codeText rules line context).1
          opens := (countBraces rules line context).opens
          closes := (countBraces rules line context).closes
          context := (countBraces rules line context).context } :=
  ⟨rfl, rfl⟩

/-- The code braces opened on a line less those closed on it. -/
def Outcome.delta (outcome : Outcome) : Int :=
  (outcome.opens : Int) - outcome.closes

/-- Scan the lines one after another, each in the context that the line before
it leaves. -/
def scanLines (rules : Rules) (context : Context) : List Line → List Outcome
  | [] => []
  | line :: lines =>
      let outcome := scanLine rules line context
      outcome :: scanLines rules outcome.context lines

/-- The net brace counts of the lines of a source. -/
def deltas (rules : Rules) (lines : List Line) : List Int :=
  (scanLines rules .fresh lines).map Outcome.delta

end Scan
end CallTree
