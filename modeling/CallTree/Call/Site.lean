import CallTree.Line
import CallTree.Text.Alphanumeric

/-!
# Call sites

Calls are found in the text of a body by their form: a word before a
parenthesis, with or without a receiver, and a class behind `new`.  Every form
is looked for on its own, so one call may be reported more than once.
-/

namespace CallTree

/-- A call found in a body.  Lines count from one. -/
structure CallSite where
  callee : String
  receiver : Option String := none
  line : Int := 0
  deriving DecidableEq, Repr

namespace CallSite

/-- Words that stand before a dot or a parenthesis without being a receiver. -/
def controlWords : List String := [
  "if", "for", "while", "switch", "catch", "try", "return", "new", "super", "this", "null"]

/-- Words that stand before a parenthesis without being called. -/
def uncalledWords : List String :=
  controlWords ++ ["true", "false"]

/-- The positions of a line: the characters before each, nearest first, and the
characters from it on. -/
def positions (before : List Char) : List Char → List (List Char × List Char)
  | [] => [(before, [])]
  | c :: rest => (before, c :: rest) :: positions (c :: before) rest

/-- The position lies inside or behind a word. -/
def followsWord (before : List Char) : Bool :=
  before.head?.any Text.isWord

/-- The text is an opening parenthesis behind any number of blanks. -/
def opensArguments (text : List Char) : Bool :=
  (Text.dropBlanks text).head? == some '('

/-- The word at the start of a text that is called there. -/
def calledWord? (text : List Char) : Option (List Char) :=
  let word := text.takeWhile Text.isWord
  if !word.isEmpty && opensArguments (text.drop word.length) then some word else none

/-- The receiver and the callee of a text that starts with both, joined by a
dot. -/
def qualifiedCall? (text : List Char) : Option (List Char × List Char) :=
  let receiver := text.takeWhile Text.isWord
  match text.drop receiver.length with
  | '.' :: rest =>
      if receiver.isEmpty then none else (calledWord? rest).map (receiver, ·)
  | _ => none

/-- Calls with a receiver. -/
def qualifiedCalls (text : Line) : List (List Char × List Char) :=
  ((positions [] text).filterMap fun (before, rest) =>
    if followsWord before then none else qualifiedCall? rest).filter
    fun (receiver, _) => !controlWords.contains (String.ofList receiver)

/-- Calls whose receiver, from its first capital on, looks like a class. -/
def classCalls (text : Line) : List (List Char × List Char) :=
  (positions [] text).filterMap fun (before, rest) =>
    if rest.head?.any Char.isUpper && !(before.takeWhile Text.isWord).any Char.isUpper then
      qualifiedCall? rest
    else none

/-- Words before a parenthesis. -/
def bareCalls (text : Line) : List (List Char) :=
  ((positions [] text).filterMap fun (before, rest) =>
    if followsWord before then none else calledWord? rest).filter
    fun word => !uncalledWords.contains (String.ofList word)

/-- The class that a text constructs when it starts with `new`. -/
def construction? : List Char → Option (List Char)
  | 'n' :: 'e' :: 'w' :: blank :: rest =>
      let className := Text.dropBlanks rest
      if Text.isBlank blank && className.head?.any Char.isUpper then calledWord? className
      else none
  | _ => none

/-- Classes constructed with `new`. -/
def constructions (text : Line) : List (List Char) :=
  (positions [] text).filterMap fun (before, rest) =>
    if followsWord before then none else construction? rest

/-- The calls of one line, form by form. -/
def onLine (text : Line) (number : Int) : List CallSite :=
  let qualified := fun ((receiver, callee) : List Char × List Char) =>
    { callee := String.ofList callee, receiver := some (String.ofList receiver), line := number }
  let bare := fun (callee : List Char) => { callee := String.ofList callee, line := number }
  (qualifiedCalls text).map qualified ++ (classCalls text).map qualified ++
    (bareCalls text).map bare ++ (constructions text).map bare

/-- The calls on the given lines, of which the first has the number `index`
counted from zero.  Comment lines have none. -/
def onLines (index : Nat) : List Line → List CallSite
  | [] => []
  | text :: rest =>
      (if Line.isComment text then [] else onLine text ((index : Int) + 1)) ++
        onLines (index + 1) rest

/-- The calls on the lines `start` to `last`, where the text before
`firstColumn` on line `start` does not count.  Without `last` all lines from
`start` on are read. -/
def between (lines : List Line) (start : Int) (last : Option Int) (firstColumn : Int) :
    List CallSite :=
  let stop := (min (last.getD ((lines.length : Int) - 1)) ((lines.length : Int) - 1) + 1).toNat
  let first := start.toNat
  match (lines.take stop).drop first with
  | [] => []
  | text :: rest =>
      let text := if start == first && firstColumn != 0 then Text.sliceFrom text firstColumn else text
      onLines first (text :: rest)

end CallSite
end CallTree
