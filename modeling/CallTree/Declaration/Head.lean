import CallTree.Declaration.Word
import CallTree.Text.Alphanumeric
import CallTree.Text.Blank

/-!
# Heads of declarations

The head of a method is its annotations and modifiers, its type parameters, its
return type and its name, up to the parenthesis that opens its parameters.  The
head of a constructor has no return type.  Heads are read from collapsed text,
where the only blank is a single space between words.

A text can be read in more than one way.  Every reader gives the rests it can
leave, best first: as many modifiers as possible, the shortest type parameter
list, the longest type argument list.  The first way that fits as a whole
counts.
-/

namespace CallTree
namespace Declaration

/-- The characters of a type's name or an annotation's name. -/
def isTypeNamePart (c : Char) : Bool :=
  Text.isWord c || c == '.' || c == '$'

/-- A text without the space it may start with. -/
def skipSpace : List Char → List Char
  | ' ' :: rest => rest
  | rest => rest

theorem length_skipSpace (text : List Char) : (skipSpace text).length ≤ text.length := by
  unfold skipSpace
  split <;> simp

/-- The text after the space it has to start with. -/
def afterSpace? : List Char → Option (List Char)
  | ' ' :: rest => some rest
  | _ => none

theorem length_afterSpace? {text rest : List Char} (found : afterSpace? text = some rest) :
    rest.length < text.length := by
  unfold afterSpace? at found
  split at found
  · cases found
    simp
  · cases found

/-- The text after an argument list, which ends at its first closing
parenthesis. -/
def afterArguments (text : List Char) : List (List Char) :=
  match skipSpace text with
  | '(' :: inside =>
      match inside.dropWhile (· != ')') with
      | [] => []
      | _ :: rest => [rest]
  | _ => []

theorem length_afterArguments {text rest : List Char} (member : rest ∈ afterArguments text) :
    rest.length ≤ text.length := by
  have spaced := length_skipSpace text
  unfold afterArguments at member
  split at member
  · rename_i inside opened
    rw [opened, List.length_cons] at spaced
    have dropped := (List.dropWhile_sublist (l := inside) (· != ')')).length_le
    split at member
    · simp at member
    · rename_i closed
      rw [closed, List.length_cons] at dropped
      simp only [List.mem_singleton] at member
      subst member
      omega
  · simp at member

/-- The text after an annotation, with its arguments or without them. -/
def annotationRests : List Char → List (List Char)
  | '@' :: text =>
      let name := text.takeWhile isTypeNamePart
      if name.isEmpty then []
      else afterArguments (text.drop name.length) ++ [text.drop name.length]
  | _ => []

/-- The text after an annotation or a modifier and the space behind it. -/
def afterItem (text : List Char) : List (List Char) :=
  (annotationRests text ++ modifiers.filterMap (afterWord? · text)).filterMap afterSpace?

theorem length_annotationRests {text rest : List Char} (member : rest ∈ annotationRests text) :
    rest.length ≤ text.length := by
  unfold annotationRests at member
  split at member
  · rename_i named
    simp only at member
    split at member
    · simp at member
    · rcases List.mem_append.1 member with taken | plain
      · have shorter := length_afterArguments taken
        simp only [List.length_drop] at shorter
        simp only [List.length_cons]
        omega
      · simp only [List.mem_singleton] at plain
        subst plain
        simp only [List.length_drop, List.length_cons]
        omega
  · simp at member

theorem length_afterItem {text rest : List Char} (member : rest ∈ afterItem text) :
    rest.length < text.length := by
  obtain ⟨middle, reached, spaced⟩ := List.mem_filterMap.1 member
  have last := length_afterSpace? spaced
  rcases List.mem_append.1 reached with annotated | modified
  · have := length_annotationRests annotated
    omega
  · obtain ⟨word, -, found⟩ := List.mem_filterMap.1 modified
    have := length_afterWord? found
    omega

/-- The texts after annotations and modifiers, as many as possible first. -/
def afterItems (text : List Char) : List (List Char) :=
  (afterItem text).attach.flatMap (fun ⟨rest, _⟩ => afterItems rest) ++ [text]
termination_by text.length
decreasing_by
  rename_i member
  exact length_afterItem member

/-- The ways to end a bracketed list: every `>` before the next parenthesis, the
nearest first.  Gives the list with its `>` and the text behind it. -/
def closings : List Char → List (List Char × List Char)
  | [] => []
  | c :: rest =>
      if c == '(' || c == ')' then []
      else
        let further := (closings rest).map fun (inside, after) => (c :: inside, after)
        if c == '>' then ([c], rest) :: further else further

/-- The texts after a type parameter list, or after none. -/
def afterTypeParameters : List Char → List (List Char)
  | '<' :: inside =>
      (closings inside).map (fun (_, after) => skipSpace after) ++ ['<' :: inside]
  | text => [text]

/-- Split off the pairs of square brackets at the front. -/
def arrayMarks : List Char → List Char × List Char
  | ' ' :: '[' :: ' ' :: ']' :: rest =>
      let (marks, after) := arrayMarks rest
      (' ' :: '[' :: ' ' :: ']' :: marks, after)
  | ' ' :: '[' :: ']' :: rest =>
      let (marks, after) := arrayMarks rest
      (' ' :: '[' :: ']' :: marks, after)
  | '[' :: ' ' :: ']' :: rest =>
      let (marks, after) := arrayMarks rest
      ('[' :: ' ' :: ']' :: marks, after)
  | '[' :: ']' :: rest =>
      let (marks, after) := arrayMarks rest
      ('[' :: ']' :: marks, after)
  | rest => ([], rest)

/-- The ways to read a type: a name, type arguments, and array marks.  Gives the
type and the text behind it, the longest type arguments first. -/
def types (text : List Char) : List (List Char × List Char) :=
  let name := text.takeWhile isTypeNamePart
  if name.isEmpty then []
  else
    let after := text.drop name.length
    let opened := skipSpace after
    let gap := after.take (after.length - opened.length)
    let parameterized :=
      match opened with
      | '<' :: inside =>
          (closings inside).reverse.map fun (content, rest) =>
            (name ++ gap ++ '<' :: content, rest)
      | _ => []
    (parameterized ++ [(name, after)]).map fun (type, rest) =>
      let (marks, behind) := arrayMarks rest
      (type ++ marks, behind)

/-- The identifier that starts with a character satisfying `starts` and is
followed by an opening parenthesis.  Gives it with the text behind the
parenthesis. -/
def calledName? (starts : Char → Bool) : List Char → Option (List Char × List Char)
  | [] => none
  | c :: rest =>
      if starts c then
        let name := c :: rest.takeWhile Text.isIdentifierPart
        match skipSpace (rest.dropWhile Text.isIdentifierPart) with
        | '(' :: inside => some (name, inside)
        | _ => none
      else none

/-- The head of a method or constructor. -/
structure Head where
  returnType : Option (List Char)
  name : List Char
  /-- The text behind the parenthesis that opens the parameters. -/
  inside : List Char
  deriving DecidableEq, Repr

/-- The texts where the head proper may start. -/
def headStarts (text : List Char) : List (List Char) :=
  (afterItems text).flatMap afterTypeParameters

/-- The ways to read the head of a method, the best first. -/
def methodHeads (text : List Char) : List Head :=
  (headStarts text).flatMap fun start =>
    (types start).filterMap fun (type, after) => do
      let rest ← afterSpace? after
      let (name, inside) ← calledName? Text.isIdentifierStart rest
      pure { returnType := some type, name, inside }

/-- A character that may start a constructor's name. -/
def isConstructorStart (c : Char) : Bool :=
  c.isUpper || c == '_' || c == '$'

/-- The ways to read the head of a constructor, the best first. -/
def constructorHeads (text : List Char) : List Head :=
  (headStarts text).filterMap fun start => do
    let (name, inside) ← calledName? isConstructorStart start
    pure { returnType := none, name, inside }

/-- The text is a type, with annotations and modifiers before it: the head of a
method whose name follows on another line. -/
def isTypeAlone (text : List Char) : Bool :=
  (headStarts text).any fun start => (types start).any fun (_, rest) => (skipSpace rest).isEmpty

/-- A stretch of code looks like the start of a declaration. -/
def looksLikeHead (segment : List Char) : Bool :=
  let text := Text.collapse segment
  if text.isEmpty then false
  else
    let first := text.takeWhile fun c => c != ' ' && c != '('
    if isReserved first && !isModifier first then false
    else !(methodHeads text).isEmpty || !(constructorHeads text).isEmpty || isTypeAlone text

end Declaration
end CallTree
