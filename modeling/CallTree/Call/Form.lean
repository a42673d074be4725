import CallTree.Call.Site

/-!
# Calls of a given method

Whether a body calls a given method is decided by the forms a call of it can
take: with any receiver, with its class, bare, on `this` or `super`, chained,
and, for constructors, behind `new`.
-/

namespace CallTree
namespace CallForm

/-- The rests of a text without its first blanks, from none of them to all. -/
def skipBlanks : List Char → List (List Char)
  | [] => [[]]
  | c :: rest =>
      if Text.isBlank c then (c :: rest) :: skipBlanks rest else [c :: rest]

/-- The text starts with the name, called there. -/
def isCallOf (name text : List Char) : Bool :=
  name.isPrefixOf text && CallSite.opensArguments (text.drop name.length)

/-- The text starts with a dot, followed by the name, called there. -/
def isDottedCallOf (name : List Char) : List Char → Bool
  | '.' :: rest => (skipBlanks rest).any (isCallOf name)
  | _ => false

/-- The text starts with the word, and a dotted call of the name follows. -/
def isCallOn (receiver name text : List Char) : Bool :=
  receiver.isPrefixOf text &&
    (skipBlanks (text.drop receiver.length)).any (isDottedCallOf name)

/-- A word starts or ends at a position. -/
def atWordBoundary (before rest : List Char) : Bool :=
  CallSite.followsWord before != rest.head?.any Text.isWord

/-- A call with any receiver. -/
def received (name before rest : List Char) : Bool :=
  CallSite.followsWord before && (skipBlanks rest).any (isDottedCallOf name)

/-- A call with a given word as its receiver. -/
def receivedBy (receiver name before rest : List Char) : Bool :=
  atWordBoundary before rest && isCallOn receiver name rest

/-- A call where no identifier goes on to the name. -/
def bare (name before rest : List Char) : Bool :=
  !before.head?.any Text.isIdentifierPart && isCallOf name rest

/-- A call behind a dot. -/
def chained (name _before rest : List Char) : Bool :=
  isDottedCallOf name rest

/-- An argument list, with type arguments allowed before it. -/
def opensConstruction (text : List Char) : Bool :=
  match Text.dropBlanks text with
  | '(' :: _ => true
  | '<' :: inside =>
      match inside.dropWhile (· != '>') with
      | [] => false
      | _ :: rest => CallSite.opensArguments rest
  | _ => false

/-- The class behind `new`. -/
def constructed (className before : List Char) : List Char → Bool
  | 'n' :: 'e' :: 'w' :: blank :: rest =>
      !CallSite.followsWord before && Text.isBlank blank &&
        (skipBlanks rest).any fun text =>
          className.isPrefixOf text && opensConstruction (text.drop className.length)
  | _ => false

/-- The forms of a call of `name`, a method of the given class. -/
def formsOf (name : List Char) (className : Option (List Char)) :
    List (List Char → List Char → Bool) :=
  let onClass :=
    match className with
    | some className => if className.isEmpty then [] else [receivedBy className name]
    | none => []
  let construction :=
    if !name.isEmpty && className == some name then [constructed name] else []
  [received name] ++ onClass ++
    [bare name, receivedBy "this".toList name, receivedBy "super".toList name, chained name] ++
    construction

/-- The line has a call in one of the forms. -/
def lineCalls (forms : List (List Char → List Char → Bool)) (line : Line) : Bool :=
  forms.any fun form => (CallSite.positions [] line).any fun (before, rest) => form before rest

/-- Some line of a body, comment lines apart, calls the method. -/
def bodyCalls (body : List Line) (name : String) (className : Option String) : Bool :=
  let forms := formsOf name.toList (className.map String.toList)
  body.any fun line => !Line.isComment line && lineCalls forms line

end CallForm
end CallTree
