/-!
# Methods

A method or constructor found in a source.
-/

namespace CallTree

/-- A method with the place of its declaration.  Lines count from one; a
constructor has no return type. -/
structure Method where
  name : String
  className : Option String := none
  file : String := ""
  line : Int := 0
  parameters : List String := []
  returnType : Option String := none
  deriving DecidableEq, Repr, Inhabited

/-- What identifies a method within a walk: file, class and name.  Overloads in
one class share their key. -/
structure MethodKey where
  file : String
  className : String
  name : String
  deriving DecidableEq, Repr, Inhabited

namespace Method

def key (method : Method) : MethodKey where
  file := method.file
  className := method.className.getD ""
  name := method.name

def isConstructor (method : Method) : Bool :=
  method.returnType.isNone && some method.name == method.className

/-- The name behind the name of its class. -/
def qualifiedName (method : Method) : String :=
  match method.className with
  | some className => if className == "" then method.name else className ++ "." ++ method.name
  | none => method.name

/-- The method as it would be declared. -/
def signature (method : Method) : String :=
  let type :=
    match method.returnType with
    | some type => if type == "" then "" else type ++ " "
    | none => ""
  type ++ method.name ++ "(" ++ ", ".intercalate method.parameters ++ ")"

end Method
end CallTree
