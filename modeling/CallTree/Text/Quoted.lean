import CallTree.Text.Printable

/-!
# Quoted texts

A text is quoted with apostrophes, or with quotation marks when it holds an
apostrophe and no quotation mark.  Backslashes and the quote in use are
escaped, and a character without a printed form is written by its number.
-/

namespace CallTree
namespace Text

/-- The last `width` hexadecimal digits of `value`, in lower case. -/
def hexDigits (width value : Nat) : List Char :=
  match width with
  | 0 => []
  | width + 1 => hexDigits width (value / 16) ++ [Nat.digitChar (value % 16)]

def quotedCharacter (quote c : Char) : List Char :=
  if c == quote || c == '\\' then ['\\', c]
  else if c == '\t' then ['\\', 't']
  else if c == '\n' then ['\\', 'n']
  else if c == '\r' then ['\\', 'r']
  else if isPrintable c then [c]
  else if c.toNat < 0x100 then ['\\', 'x'] ++ hexDigits 2 c.toNat
  else if c.toNat < 0x10000 then ['\\', 'u'] ++ hexDigits 4 c.toNat
  else ['\\', 'U'] ++ hexDigits 8 c.toNat

def quoted (text : String) : String :=
  let characters := text.toList
  let quote := if characters.contains '\x27' && !characters.contains '"' then '"' else '\x27'
  String.ofList ([quote] ++ characters.flatMap (quotedCharacter quote) ++ [quote])

/-- A list of quoted texts in brackets. -/
def quotedList (texts : List String) : String :=
  "[" ++ ", ".intercalate (texts.map quoted) ++ "]"

end Text
end CallTree
