/-!
# Blank characters

Blanks separate words.  A text is trimmed at both ends, collapsed so that every
run of blanks becomes one space, or split into its words.
-/

namespace CallTree
namespace Text

/-- Spaces, tabs, line ends and the separators of Unicode. -/
def isBlank (c : Char) : Bool :=
  let code := c.toNat
  (0x09 ≤ code && code ≤ 0x0d) || (0x1c ≤ code && code ≤ 0x20) ||
    code == 0x85 || code == 0xa0 || code == 0x1680 ||
    (0x2000 ≤ code && code ≤ 0x200a) || code == 0x2028 || code == 0x2029 ||
    code == 0x202f || code == 0x205f || code == 0x3000

def dropBlanks (text : List Char) : List Char :=
  text.dropWhile isBlank

/-- Remove the elements at the end that satisfy `p`. -/
def dropEndWhile (p : Char → Bool) (text : List Char) : List Char :=
  (text.reverse.dropWhile p).reverse

def trim (text : List Char) : List Char :=
  dropEndWhile isBlank (dropBlanks text)

/-- Replace each run of blanks by one space.  `inRun` tells that the run going
on has its space already. -/
def squeezeFrom (inRun : Bool) : List Char → List Char
  | [] => []
  | c :: rest =>
      if isBlank c then
        if inRun then squeezeFrom true rest else ' ' :: squeezeFrom true rest
      else c :: squeezeFrom false rest

/-- One space for every run of blanks, and none at the ends. -/
def collapse (text : List Char) : List Char :=
  trim (squeezeFrom false text)

/-- The text is empty or holds only blanks. -/
def isBlankText (text : List Char) : Bool :=
  text.all isBlank

/-- A text trimmed at both ends. -/
def trimString (text : String) : String :=
  String.ofList (trim text.toList)

end Text
end CallTree
