import CallTree.Declaration.Word
import CallTree.Text.Alphanumeric
import CallTree.Text.Blank

/-!
# Open classes

The classes around a line are found by reading a source from its start.  A
class is pushed when its header is met and popped once its body has been
entered and the code is back at the depth of the header.
-/

namespace CallTree

/-- A class whose header has been met. -/
structure OpenClass where
  name : String
  /-- The brace depth of the header. -/
  depth : Int
  /-- The body has been entered. -/
  entered : Bool
  /-- The header stands on the line being read. -/
  fresh : Bool
  deriving DecidableEq, Repr

/-- The classes around a position, the innermost first, and the brace depth. -/
structure ClassStack where
  depth : Int := 0
  classes : List OpenClass := []
  deriving DecidableEq, Repr

namespace ClassStack

/-- The text behind a blank and the blanks that follow it. -/
def afterBlanks? : List Char → Option (List Char)
  | [] => none
  | c :: rest => if Text.isBlank c then some (Text.dropBlanks rest) else none

theorem length_afterBlanks? {text rest : List Char} (found : afterBlanks? text = some rest) :
    rest.length < text.length := by
  cases text with
  | nil => cases found
  | cons c behind =>
      have dropped := (List.dropWhile_sublist (l := behind) Text.isBlank).length_le
      rw [afterBlanks?] at found
      split at found
      · cases found
        simp only [Text.dropBlanks, List.length_cons]
        omega
      · cases found

/-- The text behind the modifier that it starts with and the blanks that follow. -/
def afterModifier? (text : List Char) : Option (List Char) :=
  if Declaration.isModifier (text.takeWhile (!Text.isBlank ·)) then
    afterBlanks? (text.dropWhile (!Text.isBlank ·))
  else none

theorem length_afterModifier? {text rest : List Char} (found : afterModifier? text = some rest) :
    rest.length < text.length := by
  have dropped := (List.dropWhile_sublist (l := text) (!Text.isBlank ·)).length_le
  rw [afterModifier?] at found
  split at found
  · have := length_afterBlanks? found
    omega
  · cases found

/-- The text behind the modifiers at its front. -/
def skipModifiers (text : List Char) : List Char :=
  match found : afterModifier? text with
  | none => text
  | some rest =>
      have := length_afterModifier? found
      skipModifiers rest
termination_by text.length

/-- The text from the name on, when a class header starts here: modifiers, one
of the words that introduce a class, and a name. -/
def headerName? (text : List Char) : Option (List Char) := do
  let behind ← Declaration.classWords.findSome? fun word =>
    Declaration.afterWord? word (skipModifiers text) >>= afterBlanks?
  if behind.head?.any Text.isIdentifierStart then some behind else none

/-- The characters after which a header may start, besides blanks. -/
def isHeaderBoundary (c : Char) : Bool :=
  Text.isBlank c || c == ';' || c == '{' || c == '}' || c == '@'

/-- The text from the name of the first class header behind a boundary on. -/
def laterHeaderName? : List Char → Option (List Char)
  | [] => none
  | c :: rest =>
      if isHeaderBoundary c then headerName? rest <|> laterHeaderName? rest
      else laterHeaderName? rest

/-- The first class header of a line: the code before its name, the name, and
the code behind it. -/
def findHeader? (code : List Char) : Option (List Char × List Char × List Char) :=
  (headerName? code <|> laterHeaderName? code).map fun named =>
    (code.take (code.length - named.length), named.takeWhile Text.isIdentifierPart,
      named.dropWhile Text.isIdentifierPart)

/-- The braces opened in a stretch of code less those closed in it. -/
def netBraces (code : List Char) : Int :=
  (code.count '{' : Int) - code.count '}'

/-- Start reading a line: a class header on it pushes its class. -/
def beginLine (stack : ClassStack) (code : List Char) : ClassStack :=
  let settled := stack.classes.map fun entry => { entry with fresh := false }
  match findHeader? code with
  | none => { stack with classes := settled }
  | some (before, name, behind) =>
      let entry := {
        name := String.ofList name
        depth := stack.depth + netBraces before
        entered := behind.contains '{'
        fresh := true }
      { stack with classes := entry :: settled }

/-- The innermost class is entered by the braces of its line. -/
def enter (opens : Nat) : List OpenClass → List OpenClass
  | [] => []
  | top :: rest => { top with entered := top.entered || opens != 0 } :: rest

/-- Finish a line with its braces: classes whose bodies have ended are popped. -/
def endLine (stack : ClassStack) (opens closes : Nat) : ClassStack :=
  let depth := stack.depth + (opens : Int) - closes
  { depth
    classes := (enter opens stack.classes).dropWhile fun entry =>
      entry.entered && decide (depth ≤ entry.depth) }

/-- The innermost class. -/
def current (stack : ClassStack) : Option String :=
  stack.classes.head?.map OpenClass.name

/-- The depth lies directly inside the innermost class, or at the header of one
whose body has not been entered on the header's line. -/
def isMemberDepth (stack : ClassStack) (depth : Int) : Bool :=
  match stack.classes with
  | [] => false
  | top :: _ =>
      depth == top.depth + 1 || (top.fresh && !top.entered && depth == top.depth)

end ClassStack
end CallTree
