import CallTree.ClassStack
import CallTree.Declaration.Basic
import CallTree.Declaration.Signature
import CallTree.Extent
import CallTree.Method
import CallTree.Scan.Line

/-!
# Sources

A source is a text cut into lines, each with its mask.  This module finds the
classes and the methods of a source: the class around a line, the method at a
line, all methods declared in class bodies, and the extent of a named method.
-/

namespace CallTree

/-- A line with its mask and the braces of the mask. -/
structure CodeLine where
  raw : Line
  code : Line
  deriving DecidableEq, Repr

namespace CodeLine

def opens (line : CodeLine) : Nat :=
  line.code.count '{'

def closes (line : CodeLine) : Nat :=
  line.code.count '}'

/-- The code lines of a text. -/
def ofText (rules : Scan.Rules) (text : List Char) : List CodeLine :=
  let lines := Line.ofText text
  List.zipWith (fun raw outcome => { raw, code := outcome.mask }) lines
    (Scan.scanLines rules .fresh lines)

end CodeLine

/-- The segments behind each brace and semicolon of a stretch of code, with the
net braces before each. -/
def laterSegments (net : Int) : List Char → List (Int × List Char)
  | [] => []
  | c :: rest =>
      if c == '{' then (net + 1, rest) :: laterSegments (net + 1) rest
      else if c == '}' then (net - 1, rest) :: laterSegments (net - 1) rest
      else if c == ';' then (net, rest) :: laterSegments net rest
      else laterSegments net rest

/-- The places in a line where a declaration may start: the start of the line,
and behind each brace and semicolon. -/
def segments (code : List Char) : List (Int × List Char) :=
  (0, code) :: laterSegments 0 code

/-- A text with the rules to scan it and its code lines. -/
structure Source where
  rules : Scan.Rules
  lines : List CodeLine

namespace Source

def ofText (rules : Scan.Rules) (text : List Char) : Source where
  rules
  lines := CodeLine.ofText rules text

def rawLines (source : Source) : List Line :=
  source.lines.map CodeLine.raw

/-- The innermost class on each of the lines. -/
def classesFrom (stack : ClassStack) : List CodeLine → List (Option String)
  | [] => []
  | line :: lines =>
      let begun := stack.beginLine line.code
      begun.current :: classesFrom (begun.endLine line.opens line.closes) lines

/-- The innermost class on each line. -/
def classes (source : Source) : List (Option String) :=
  classesFrom {} source.lines

/-- The innermost class on a line, if the source has that line and it lies in a
class. -/
def classAt (source : Source) (line : Int) : Option String :=
  if line < 0 then none else (source.classes[line.toNat]?).join

/-- The method declared by a declaration on the line `index`. -/
def method (file : String) (className : Option String) (index : Nat)
    (declaration : Declaration) : Method where
  name := declaration.name
  className
  file
  line := (index : Int) + 1
  parameters := declaration.parameters
  returnType := declaration.returnType

/-- The first declaration on the first of the lines, whose class is given. -/
def declarationOn? (className : Option String) : List CodeLine → Option Declaration
  | [] => none
  | line :: below =>
      if Text.isBlankText line.code then none
      else
        (segments line.code).findSome? fun (_, segment) => do
          let (code, _) ← Declaration.signature? segment (below.map CodeLine.code)
          Declaration.parse? code className

/-- The last line, of the first `count`, with a declaration on it. -/
def methodBefore? (source : Source) (classes : List (Option String)) (file : String) :
    Nat → Option Method
  | 0 => none
  | index + 1 =>
      let className := (classes[index]?).join
      match declarationOn? className (source.lines.drop index) with
      | some declaration => some (method file className index declaration)
      | none => methodBefore? source classes file index

/-- The method whose declaration is the nearest at or before a line.  A line
behind the end stands for the last one. -/
def methodAt (source : Source) (line : Int) (file : String) : Option Method :=
  source.methodBefore? source.classes file
    (min (line + 1) source.lines.length).toNat

/-- The methods declared on a line by its segments, of which `below` are the
lines behind.  A signature that goes on to other lines ends the search; the
number of those lines is given. -/
def methodsOn (stack : ClassStack) (file : String) (index : Nat) (below : List Line) :
    List (Int × List Char) → List Method × Nat
  | [] => ([], 0)
  | (net, segment) :: rest =>
      if stack.isMemberDepth (stack.depth + net) then
        match Declaration.signature? segment below with
        | none => methodsOn stack file index below rest
        | some (code, joined) =>
            match Declaration.parse? code stack.current with
            | none => methodsOn stack file index below rest
            | some declaration =>
                let found := method file stack.current index declaration
                if joined == 0 then
                  let (others, skipped) := methodsOn stack file index below rest
                  (found :: others, skipped)
                else ([found], joined)
      else methodsOn stack file index below rest

/-- The methods declared in class bodies from line `index` on.  The next `skip`
lines belong to a signature that was read already. -/
def definitionsFrom (stack : ClassStack) (file : String) (index skip : Nat) :
    List CodeLine → List Method
  | [] => []
  | line :: below =>
      let begun := stack.beginLine line.code
      let ended := begun.endLine line.opens line.closes
      if skip == 0 && begun.current.isSome then
        let (found, joined) :=
          methodsOn begun file index (below.map CodeLine.code) (segments line.code)
        found ++ definitionsFrom ended file (index + 1) joined below
      else definitionsFrom ended file (index + 1) (skip - 1) below

/-- All methods and constructors declared in class bodies, in order. -/
def definitions (source : Source) (file : String) : List Method :=
  definitionsFrom {} file 0 0 source.lines

/-- The extent of the method with the given name declared on line `start`. -/
def extentFrom (source : Source) (start : Nat) (name : Option String) : Extent :=
  Extent.ofLines source.rules source.rawLines start name

/-- The extent of a method declared in this source. -/
def extentOf (source : Source) (method : Method) : Extent :=
  source.extentFrom (method.line - 1).toNat (some method.name)

/-- The extent of the first definition with the given name, and with the given
class where one is given. -/
def extentNamed? (source : Source) (name : String) (className : Option String) :
    Option Extent :=
  (source.definitions "").find? (fun found =>
    found.name == name && (className.isNone || found.className == className)) |>.map
    source.extentOf

end Source
end CallTree
