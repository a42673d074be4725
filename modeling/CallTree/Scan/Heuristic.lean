import CallTree.Text.Alphanumeric
import CallTree.Text.Blank

/-!
# Telling brackets and slashes apart

Whether `<` opens a type argument list, and whether `/` starts or ends a
pattern literal, is decided from the text around it.  A position in a line is
given by the characters before it, nearest first, and the characters from it
on.
-/

namespace CallTree
namespace Scan

/-- A judgement about a position: the characters before it, nearest first, and
the characters from it on. -/
abbrev Judgement := List Char → List Char → Bool

/-- A judgement at column `index` of a line.  Past the end, the line is all that
stands before the position. -/
def Judgement.at (judgement : Judgement) (line : List Char) (index : Nat) : Bool :=
  judgement (line.take index).reverse (line.drop index)

/-- The characters of a type argument list besides letters, numbers and angle
brackets. -/
def typeArgumentMarks : List Char :=
  ['_', '$', '.', ',', '?', '[', ']', '&', ' ', '\t', '@']

/-- The angle bracket at nesting `depth` is closed, with only the characters of
a type argument list in between. -/
def closesAsTypeArguments (depth : Int) : List Char → Bool
  | [] => false
  | c :: rest =>
      if c == '<' then closesAsTypeArguments (depth + 1) rest
      else if c == '>' then depth - 1 == 0 || closesAsTypeArguments (depth - 1) rest
      else if c == '&' && rest.head? == some '&' then false
      else if Text.isAlphanumeric c || typeArgumentMarks.contains c then
        closesAsTypeArguments depth rest
      else false

/-- The characters before `<` allow a type argument list: a word or `>` right
before it, or one space after a word, after one of `=,[(`, or at the start of
the line. -/
def typeArgumentsMayFollow : List Char → Bool
  | ' ' :: before =>
      match before with
      | [] => true
      | c :: _ => Text.isWord c || ['=', ',', '[', '('].contains c
  | c :: _ => Text.isWord c || c == '>'
  | [] => false

/-- The `<` at this position opens a type argument list. -/
def opensGeneric : Judgement := fun before rest =>
  typeArgumentsMayFollow before && closesAsTypeArguments 0 rest

/-- Judge column `index` of a line, which must not lie past the line's end. -/
def opensGenericAt? (line : List Char) (index : Nat) : Option Bool :=
  if index ≤ line.length then some (Judgement.at opensGeneric line index) else none

/-- The number of `quote` characters without a backslash before them, in a text
held in reverse. -/
def countUnescaped (quote : Char) : List Char → Nat
  | [] => 0
  | c :: rest =>
      (if c == quote && rest.head? != some '\\' then 1 else 0) + countUnescaped quote rest

/-- The characters after which a slash starts a pattern. -/
def patternOperators : List Char :=
  ['=', '+', '-', '*', '!', '&', '|', '?', ':', '(', ',']

/-- Methods whose argument is a pattern. -/
def patternMethods : List String :=
  ["matches", "replaceAll", "replaceFirst", "split"]

/-- A pattern may follow this word. -/
def introducesPattern (word : List Char) : Bool :=
  patternMethods.any (fun name => word == name.toList) ||
    word == "return".toList || word == "throw".toList ||
    "Pattern.compile".toList.isSuffixOf word ||
    patternMethods.any (fun name => ('.' :: name.toList).isSuffixOf word)

/-- The `/` at this position starts a pattern literal and is no division. -/
def opensPattern : Judgement := fun before _ =>
  let before := Text.dropBlanks before
  match before with
  | [] => false
  | previous :: _ =>
      if countUnescaped '"' before % 2 == 1 then false
      else if countUnescaped '\x27' before % 2 == 1 then false
      else if previous == '/' then false
      else if patternOperators.contains previous then true
      else introducesPattern (before.takeWhile (!Text.isBlank ·)).reverse

def opensPatternAt (line : List Char) (index : Nat) : Bool :=
  Judgement.at opensPattern line index

/-- The flags that may follow a pattern. -/
def patternFlags : List Char :=
  ['g', 'i', 'm', 's', 'u', 'x']

/-- The characters that may follow a pattern and its flags, besides blanks. -/
def patternTerminators : List Char :=
  [';', ',', ')', ']', '}', '+', '-', '*', '/', '=', '<', '>', '!', '&', '|']

/-- The `/` at this position ends a pattern literal. -/
def closesPattern : Judgement := fun _ rest =>
  match (rest.drop 1).dropWhile patternFlags.contains with
  | [] => true
  | c :: _ => Text.isBlank c || patternTerminators.contains c

def closesPatternAt (line : List Char) (index : Nat) : Bool :=
  Judgement.at closesPattern line index

end Scan
end CallTree
