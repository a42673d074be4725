import CallTree.Declaration.Head
import CallTree.Declaration.Parameters

/-!
# Declarations

A method declaration has a return type; a constructor is named as its class.
-/

namespace CallTree

/-- A method or constructor as its signature declares it. -/
structure Declaration where
  name : String
  returnType : Option String
  parameters : List String
  deriving DecidableEq, Repr

namespace Declaration

/-- The method head that the collapsed text starts with, unless a reserved word
stands for its type or its name. -/
def methodHead? (text : List Char) : Option Head :=
  match (methodHeads text).head? with
  | some head =>
      if head.returnType.any isReserved || isReserved head.name then none else some head
  | none => none

/-- The constructor head of the given class that the collapsed text starts
with. -/
def constructorHead? (text : List Char) (className : Option String) : Option Head :=
  match (constructorHeads text).head?, className with
  | some head, some className =>
      if className != "" && String.ofList head.name == className then some head else none
  | _, _ => none

/-- Read a declaration from code, where a constructor has to be named as the
class around it. -/
def parse? (code : List Char) (className : Option String) : Option Declaration :=
  let text := Text.collapse code
  match methodHead? text <|> constructorHead? text className with
  | none => none
  | some head =>
      (splitAtClosing 1 head.inside).map fun (inside, _) => {
        name := String.ofList head.name
        returnType := head.returnType.map String.ofList
        parameters := (splitParameters inside).map String.ofList }

end Declaration
end CallTree
