import CallTree.Line
import CallTree.Scan.Line

/-!
# Extents of methods

The lines a method covers, from its declaration to the brace that closes its
body.  Lines and columns count from zero and both ends belong to the extent.
-/

namespace CallTree

/-- The place just behind the brace that opens a body. -/
structure BodyStart where
  line : Int
  column : Int
  deriving DecidableEq, Repr

structure Extent where
  start : Int
  last : Int
  /-- Where the body starts, if its brace was found. -/
  body : Option BodyStart := none
  deriving DecidableEq, Repr

namespace Extent

def contains (extent : Extent) (line : Int) : Bool :=
  extent.start ≤ line && line ≤ extent.last

def lineCount (extent : Extent) : Int :=
  extent.last - extent.start + 1

/-- The lines of the body, where the code before the body on its first line is
replaced by spaces.  Without a body these are all lines of the extent. -/
def bodyLines (extent : Extent) (lines : List Line) : List Line :=
  match extent.body with
  | none => Text.slice lines extent.start (extent.last + 1)
  | some body =>
      match Text.slice lines body.line (extent.last + 1) with
      | [] => []
      | first :: rest =>
          (List.replicate body.column.toNat ' ' ++ Text.sliceFrom first body.column) :: rest

/-- The text is the name followed by an opening parenthesis, with blanks allowed
between them.  Gives the text behind the parenthesis. -/
def afterNamed? (name text : List Char) : Option (List Char) :=
  if name.isPrefixOf text then
    match Text.dropBlanks (text.drop name.length) with
    | '(' :: inside => some inside
    | _ => none
  else none

/-- The text behind the first place where the name stands before a parenthesis
and does not continue an identifier. -/
def findNamed? (name : List Char) (previous : Option Char) (text : List Char) :
    Option (List Char) :=
  let here := if previous.any Text.isIdentifierPart then none else afterNamed? name text
  match text with
  | [] => here
  | c :: rest => here <|> findNamed? name (some c) rest

/-- What is looked for when the lines of a method are read. -/
inductive Search where
  /-- The method's name before a parenthesis. -/
  | call (name : List Char)
  /-- The brace that opens the body. -/
  | brace
  deriving DecidableEq, Repr

/-- Look for the brace of the body in the mask of a line.  Gives the column of
the brace, or what is still to be found. -/
def Search.advance (mask : List Char) : Search → Search ⊕ Nat
  | .call name =>
      match findNamed? name none mask with
      | none => .inl (.call name)
      | some behind =>
          match behind.dropWhile (· != '{') with
          | [] => .inl .brace
          | found => .inr (mask.length - found.length)
  | .brace =>
      match mask.dropWhile (· != '{') with
      | [] => .inl .brace
      | found => .inr (mask.length - found.length)

/-- The braces opened less those closed, from a column on. -/
def netFrom (mask : List Char) (column : Nat) : Int :=
  ((mask.drop column).count '{' : Int) - (mask.drop column).count '}'

/-- The line, from `index` on, where the depth is back at zero. -/
def closingLine? (depth : Int) (index : Nat) : List Line → Option Nat
  | [] => none
  | mask :: masks =>
      let depth := depth + netFrom mask 0
      if depth ≤ 0 then some index else closingLine? depth (index + 1) masks

/-- The extent in the masks of the lines from `start` on, of which those before
`index` have been read. -/
def ofMasks (start : Nat) (search : Search) (index : Nat) : List Line → Extent
  | [] => { start, last := max (start : Int) ((index : Int) - 1) }
  | mask :: masks =>
      match search.advance mask with
      | .inl search => ofMasks start search (index + 1) masks
      | .inr column =>
          let body : BodyStart := { line := index, column := (column : Int) + 1 }
          let depth := netFrom mask column
          if depth ≤ 0 then { start, last := index, body := some body }
          else
            { start
              last := ((closingLine? depth (index + 1) masks).getD (index + masks.length) : Nat)
              body := some body }

/-- The extent of the method declared on line `start`.  With a name, the body is
looked for behind that name; an empty name is no name. -/
def ofLines (rules : Scan.Rules) (lines : List Line) (start : Nat) (name : Option String) :
    Extent :=
  let masks := (Scan.scanLines rules .fresh (lines.drop start)).map Scan.Outcome.mask
  let search :=
    match name with
    | some name => if name == "" then Search.brace else .call name.toList
    | none => .brace
  ofMasks start search start masks

end Extent
end CallTree
