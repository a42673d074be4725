/-!
# Reserved words

The words that decide what a stretch of code can be.
-/

namespace CallTree
namespace Declaration

/-- The modifiers of classes, methods and constructors. -/
def modifiers : List String := [
  "public", "protected", "private", "static", "final", "abstract", "synchronized",
  "native", "strictfp", "default", "transient", "volatile", "sealed", "non-sealed"]

/-- The words that start a statement or belong to an expression. -/
def statementWords : List String := [
  "return", "new", "throw", "else", "case", "if", "for", "while", "do", "switch", "try",
  "catch", "finally", "synchronized", "assert", "yield", "break", "continue", "import",
  "package", "class", "interface", "enum", "record", "extends", "implements", "throws",
  "instanceof", "this", "super", "null", "true", "false"]

/-- The words that are neither a return type nor a method's name. -/
def isReserved (word : List Char) : Bool :=
  (statementWords ++ modifiers).any fun reserved => reserved.toList == word

def isModifier (word : List Char) : Bool :=
  modifiers.any fun modifier => modifier.toList == word

/-- The words that introduce a class. -/
def classWords : List String :=
  ["class", "interface", "enum", "record"]

/-- The text after a word that it starts with. -/
def afterWord? (word : String) (text : List Char) : Option (List Char) :=
  if word.toList.isPrefixOf text then some (text.drop word.toList.length) else none

theorem length_afterWord? {word : String} {text rest : List Char}
    (found : afterWord? word text = some rest) : rest.length ≤ text.length := by
  simp only [afterWord?] at found
  split at found
  · cases found
    simp
  · cases found

end Declaration
end CallTree
