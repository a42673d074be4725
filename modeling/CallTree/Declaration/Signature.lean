import CallTree.Declaration.Head
import CallTree.Declaration.Parameters

/-!
# Signatures

A signature is the code of a declaration up to the brace that opens its body.
It may span several lines, which are joined until the brace is seen.
-/

namespace CallTree
namespace Declaration

/-- What can be said of the start of a signature. -/
inductive Progress where
  /-- The brace of the body has been reached. -/
  | complete
  /-- Something that no signature with a body has comes before any brace. -/
  | refused
  /-- More code is needed. -/
  | pending
  deriving DecidableEq, Repr

/-- The first brace, semicolon or equals sign behind the parameters decides. -/
def Progress.afterParameters : List Char → Progress
  | [] => .pending
  | c :: rest =>
      if c == '{' then .complete
      else if c == ';' || c == '=' then .refused
      else Progress.afterParameters rest

/-- The characters that do not stand before a parameter list. -/
def interruptsSignature (c : Char) : Bool :=
  c == '{' || c == '}' || c == ';' || c == '='

/-- The progress behind an opening parenthesis.  The parenthesis may belong to
an annotation, so another list may follow before the body: then the text behind
the next opening parenthesis is given. -/
def Progress.closeList (text : List Char) : Progress ⊕ List Char :=
  match splitAtClosing 1 text with
  | none => .inl .pending
  | some (_, rest) =>
      match rest.dropWhile (· != '(') with
      | [] => .inl (Progress.afterParameters rest)
      | _ :: inside =>
          let between := rest.takeWhile (· != '(')
          if between.any fun c => c == '{' || c == ';' then .inl (Progress.afterParameters rest)
          else if between.any interruptsSignature then .inl .refused
          else .inr inside

theorem Progress.length_closeList {text inside : List Char}
    (found : Progress.closeList text = .inr inside) : inside.length < text.length := by
  rw [Progress.closeList] at found
  split at found
  · cases found
  · rename_i rest closing
    have shorter := length_splitAtClosing closing
    have dropped := (List.dropWhile_sublist (l := rest) (· != '(')).length_le
    split at found
    · cases found
    · rename_i following
      rw [following, List.length_cons] at dropped
      simp only at found
      split at found
      · cases found
      · split at found
        · cases found
        · cases found
          omega

/-- The progress behind an opening parenthesis, list after list. -/
def Progress.inParentheses (text : List Char) : Progress :=
  match found : Progress.closeList text with
  | .inl progress => progress
  | .inr inside =>
      have := Progress.length_closeList found
      Progress.inParentheses inside
termination_by text.length

/-- How far the signature at the start of the code has come. -/
def progress (code : List Char) : Progress :=
  if (code.takeWhile (· != '(')).any interruptsSignature then .refused
  else
    match code.dropWhile (· != '(') with
    | [] => .pending
    | _ :: inside => Progress.inParentheses inside

/-- Remove the annotations at the front, without their arguments, and the blanks
behind each. -/
def dropAnnotations (text : List Char) : List Char :=
  match text with
  | '@' :: rest =>
      if (rest.takeWhile isTypeNamePart).isEmpty then '@' :: rest
      else dropAnnotations (Text.dropBlanks (rest.dropWhile isTypeNamePart))
  | text => text
termination_by text.length
decreasing_by
  have named := (List.dropWhile_sublist (l := rest) isTypeNamePart).length_le
  have blanks :=
    (List.dropWhile_sublist (l := rest.dropWhile isTypeNamePart) Text.isBlank).length_le
  simp only [Text.dropBlanks, List.length_cons]
  omega

/-- The most lines that one signature may span. -/
def lineLimit : Nat := 32

/-- Join lines to the code of a signature until its body starts.  Gives the code
and the number of lines joined. -/
def joinLines (code : List Char) (joined : Nat) : List (List Char) → Option (List Char × Nat)
  | [] =>
      match progress code with
      | .complete => some (code, joined)
      | _ => none
  | line :: lines =>
      match progress code with
      | .complete => some (code, joined)
      | .refused => none
      | .pending => joinLines (code ++ ' ' :: line) (joined + 1) lines

/-- The signature that starts with a segment of a line, followed by the lines
below it.  Gives its code and the number of further lines it takes. -/
def signature? (segment : List Char) (below : List (List Char)) :
    Option (List Char × Nat) :=
  let start := dropAnnotations (Text.trim segment)
  if start.isEmpty || !looksLikeHead start then none
  else joinLines start 0 (below.take (lineLimit - 1))

end Declaration
end CallTree
