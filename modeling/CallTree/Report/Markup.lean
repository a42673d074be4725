import CallTree.Text.Blank
import CallTree.Text.LowerCase

/-!
# Console markup

Styled text has tags in square brackets.  A backslash takes a tag literally.
Text from elsewhere is escaped before it is put between tags; printing without
styles removes the tags.
-/

namespace CallTree
namespace Markup

/-- A character that may start a tag. -/
def startsTag (c : Char) : Bool :=
  c.isLower || c == '#' || c == '/' || c == '@'

/-- The inside of the tag that a text starts with, and the text behind it. -/
def tag? : List Char → Option (List Char × List Char)
  | '[' :: c :: rest =>
      if startsTag c then
        let inside := rest.takeWhile fun c => c != ']' && c != '['
        match rest.drop inside.length with
        | ']' :: after => some (c :: inside, after)
        | _ => none
      else none
  | _ => none

theorem length_tag? {text inside after : List Char} (found : tag? text = some (inside, after)) :
    after.length < text.length := by
  unfold tag? at found
  split at found
  · rename_i c rest
    split at found
    · simp only at found
      split at found
      · rename_i behind
        have bound := congrArg List.length behind
        simp only [List.length_drop, List.length_cons] at bound
        cases found
        simp only [List.length_cons]
        omega
      · cases found
    · cases found
  · cases found

/-- A stretch of marked-up text: backslashes before a tag, the tag, or one plain
character. -/
inductive Piece where
  | tag (backslashes : Nat) (inside : List Char)
  | plain (c : Char)
  deriving DecidableEq, Repr

/-- The pieces of a text, where `backslashes` have been met just before it. -/
def piecesFrom (backslashes : Nat) (text : List Char) : List Piece :=
  match found : tag? text with
  | some (inside, after) =>
      have := length_tag? found
      .tag backslashes inside :: piecesFrom 0 after
  | none =>
      match text with
      | [] => List.replicate backslashes (.plain '\\')
      | c :: rest =>
          if c == '\\' then piecesFrom (backslashes + 1) rest
          else List.replicate backslashes (.plain '\\') ++ .plain c :: piecesFrom 0 rest
termination_by text.length

def pieces (text : List Char) : List Piece :=
  piecesFrom 0 text

/-- A piece with its tag taken literally. -/
def Piece.escaped : Piece → List Char
  | .tag backslashes inside =>
      List.replicate (2 * backslashes + 1) '\\' ++ '[' :: inside ++ [']']
  | .plain c => [c]

/-- A text that prints as itself between tags. -/
def escape (text : String) : String :=
  let escaped := (pieces text.toList).flatMap Piece.escaped
  match escaped.reverse with
  | '\\' :: '\\' :: _ => String.ofList escaped
  | '\\' :: _ => String.ofList (escaped ++ ['\\'])
  | _ => String.ofList escaped

/-- A character that a console does not print: the bell, the backspace, and
those that move up, down or back. -/
def isControl (c : Char) : Bool :=
  c.toNat == 0x07 || c.toNat == 0x08 || (0x0b ≤ c.toNat && c.toNat ≤ 0x0d)

/-- Take the backslash away from every bracket outside tags. -/
def unescapeBrackets : List Char → List Char
  | [] => []
  | '\\' :: '[' :: rest => '[' :: unescapeBrackets rest
  | c :: rest => c :: unescapeBrackets rest

/-- The name of a tag, without what follows an equals sign. -/
def tagName (inside : List Char) : List Char :=
  inside.takeWhile (· != '=')

/-- The names of tags are compared in lower case. -/
def normalName (name : List Char) : String :=
  Text.lower (String.ofList (Text.trim name))

/-- Close the innermost open tag of a name, or the innermost one of all. -/
def closeTag? (name : List Char) (opened : List String) : Option (List String) :=
  if (Text.trim name).isEmpty then
    match opened with
    | [] => none
    | _ :: others => some others
  else if opened.contains (normalName name) then some (opened.erase (normalName name))
  else none

/-- Print pieces without styles.  `waiting` are plain characters not yet printed,
the last one first, and `opened` are the names of the open tags, the innermost
first.  A closing tag that closes nothing makes the text unprintable. -/
def printPieces? (opened : List String) (waiting : List Char) :
    List Piece → Option (List Char)
  | [] => some (unescapeBrackets waiting.reverse)
  | .plain c :: rest => printPieces? opened (c :: waiting) rest
  | .tag backslashes inside :: rest => do
      let kept := List.replicate (backslashes / 2) '\\'
      let before := unescapeBrackets waiting.reverse ++ kept
      if backslashes % 2 == 1 then
        let after ← printPieces? opened [] rest
        pure (before ++ '[' :: inside ++ ']' :: after)
      else
        let next ←
          match tagName inside with
          | '/' :: name => closeTag? name opened
          | name => some (normalName name :: opened)
        let after ← printPieces? next [] rest
        pure (before ++ after)

/-- The printed form of a marked-up text. -/
def print? (text : String) : Option String :=
  (printPieces? [] [] (pieces text.toList)).map fun printed =>
    String.ofList (printed.filter (!isControl ·))

end Markup
end CallTree
