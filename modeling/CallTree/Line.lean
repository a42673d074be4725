import CallTree.Text.Blank
import CallTree.Text.Split

/-!
# Lines of a source

A source is cut at its line feeds; carriage returns at the end of a line belong
to the line end.  Every other character, form feeds and Unicode line
separators included, stays inside its line.
-/

namespace CallTree

/-- One line of a source, without its line end. -/
abbrev Line := List Char

namespace Line

/-- The lines of a source text. -/
def ofText (text : List Char) : List Line :=
  (Text.splitAt '\n' text).map (Text.dropEndWhile (· == '\r'))

/-- A line that starts a comment or continues a block comment in the customary
layout. -/
def isComment (line : Line) : Bool :=
  match Text.trim line with
  | '/' :: '/' :: _ => true
  | '/' :: '*' :: _ => true
  | '*' :: _ => true
  | _ => false

end Line
end CallTree
