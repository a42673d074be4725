import CallTree.Proofs.Scan.Steps

/-!
# Looking around in a line

A step of code may look at the characters before it and behind it.  None of
these looks goes past the delimiter of a literal or a comment, so it sees the
same in two texts that are the same up to a delimiter.
-/

namespace CallTree
namespace Scan

open Mode

theorem drop_length_takeWhile (p : Char → Bool) (text : List Char) :
    text.drop (text.takeWhile p).length = text.dropWhile p := by
  calc text.drop (text.takeWhile p).length
      = (text.takeWhile p ++ text.dropWhile p).drop (text.takeWhile p).length := by
        rw [List.takeWhile_append_dropWhile]
    _ = text.dropWhile p := List.drop_left

theorem drop_annotationName (rest : List Char) :
    rest.drop (annotationName rest).length =
      (rest.dropWhile (· == ' ')).dropWhile fun c => Text.isWord c || c == '.' || c == '$' := by
  rw [annotationName, List.length_append, ← List.drop_drop, drop_length_takeWhile,
    drop_length_takeWhile]

/-- The texts are the same up to their ends, or up to a delimiter. -/
inductive Shared : List Char → List Char → Prop where
  | nil : Shared [] []
  | delimiter {d : Char} (far otherFar : List Char) : d ∈ delimiters →
      Shared (d :: far) (d :: otherFar)
  | cons (c : Char) {text other : List Char} : Shared text other → Shared (c :: text) (c :: other)

namespace Shared

variable {text other : List Char}

theorem append (near : List Char) (shared : Shared text other) :
    Shared (near ++ text) (near ++ other) := by
  induction near with
  | nil => exact shared
  | cons c near ih => exact .cons c ih

theorem head?_eq (shared : Shared text other) : other.head? = text.head? := by
  cases shared <;> rfl

theorem takeWhile_eq {p : Char → Bool} (stops : ∀ d ∈ delimiters, p d = false)
    (shared : Shared text other) : other.takeWhile p = text.takeWhile p := by
  induction shared with
  | nil => rfl
  | delimiter far otherFar isDelimiter => simp [stops _ isDelimiter]
  | cons c _ ih => rw [List.takeWhile_cons, List.takeWhile_cons, ih]

theorem dropWhile {p : Char → Bool} (stops : ∀ d ∈ delimiters, p d = false)
    (shared : Shared text other) : Shared (text.dropWhile p) (other.dropWhile p) := by
  induction shared with
  | nil => exact .nil
  | delimiter far otherFar isDelimiter =>
      rw [List.dropWhile_cons_of_neg (by simp [stops _ isDelimiter]),
        List.dropWhile_cons_of_neg (by simp [stops _ isDelimiter])]
      exact .delimiter far otherFar isDelimiter
  | cons c shared ih =>
      rw [List.dropWhile_cons, List.dropWhile_cons]
      split
      · exact ih
      · exact .cons c shared

theorem isBlankText_eq (shared : Shared text other) :
    Text.isBlankText other = Text.isBlankText text := by
  induction shared with
  | nil => rfl
  | delimiter far otherFar isDelimiter =>
      have visible : ∀ d ∈ delimiters, Text.isBlank d = false :=
        forall_delimiters (by decide) (by decide) (by decide)
      simp [Text.isBlankText, visible _ isDelimiter]
  | cons c _ ih => simpa [Text.isBlankText] using congrArg (Text.isBlank c && ·) ih

/-- A type argument list holds no delimiter. -/
theorem closesAsTypeArguments_eq (shared : Shared text other) (depth : Int) :
    closesAsTypeArguments depth other = closesAsTypeArguments depth text := by
  induction shared generalizing depth with
  | nil => rfl
  | delimiter far otherFar isDelimiter =>
      have stops : ∀ d ∈ delimiters, d ≠ '<' ∧ d ≠ '>' ∧ d ≠ '&' ∧
          (Text.isAlphanumeric d || typeArgumentMarks.contains d) = false :=
        forall_delimiters (by decide) (by decide) (by decide)
      obtain ⟨notOpen, notClose, notAnd, noPart⟩ := stops _ isDelimiter
      rw [closesAsTypeArguments, closesAsTypeArguments]
      simp only [beq_eq_false_iff_ne.mpr notOpen, beq_eq_false_iff_ne.mpr notClose,
        beq_eq_false_iff_ne.mpr notAnd, noPart, Bool.false_and, Bool.false_eq_true, if_false]
  | cons c shared ih =>
      rw [closesAsTypeArguments, closesAsTypeArguments, shared.head?_eq]
      simp only [ih]

/-- The two characters that are looked back at lie before a delimiter, or are
followed by one. -/
theorem typeArgumentsMayFollow_eq (shared : Shared text other) :
    typeArgumentsMayFollow other = typeArgumentsMayFollow text := by
  have noSpace : ∀ d ∈ delimiters, d ≠ ' ' :=
    forall_delimiters (by decide) (by decide) (by decide)
  cases shared with
  | nil => rfl
  | delimiter far otherFar isDelimiter =>
      simp [typeArgumentsMayFollow, noSpace _ isDelimiter]
  | cons c shared =>
      by_cases isSpace : c = ' '
      · subst isSpace
        cases shared with
        | nil => rfl
        | delimiter far otherFar isDelimiter => rfl
        | cons _ _ => rfl
      · simp [typeArgumentsMayFollow]

/-- The name of an annotation, and the gap behind it, hold no delimiter. -/
theorem annotationStep_eq (shared : Shared text other) (context : Context) :
    annotationStep other context = annotationStep text context := by
  have spaces : ∀ d ∈ delimiters, (d == ' ') = false :=
    forall_delimiters (by decide) (by decide) (by decide)
  have parts : ∀ d ∈ delimiters, (Text.isWord d || d == '.' || d == '$') = false :=
    forall_delimiters (by decide) (by decide) (by decide)
  have gaps : ∀ d ∈ delimiters, (d == ' ' || d == '\t') = false :=
    forall_delimiters (by decide) (by decide) (by decide)
  have nameEq : annotationName other = annotationName text := by
    rw [annotationName, annotationName, shared.takeWhile_eq spaces,
      (shared.dropWhile spaces).takeWhile_eq parts]
  have behind := (shared.dropWhile spaces).dropWhile parts
  simp only [annotationStep, drop_annotationName, drop_length_takeWhile]
  rw [nameEq, behind.takeWhile_eq gaps, (behind.dropWhile gaps).head?_eq]

end Shared

section Step

variable {rules : Rules} {before otherBefore : List Char} {c : Char} {rest other : List Char}

/-- What a step of code depends on, besides its character. -/
theorem codeStep_congr (context : Context) (plain : rules.detectPatterns = false)
    (lengthEq : other.length = rest.length)
    (slash : c = '/' → other.head? = rest.head?)
    (quotes : c = '"' → ['"', '"'].isPrefixOf other = ['"', '"'].isPrefixOf rest)
    (blank : c = '"' → ['"', '"'].isPrefixOf rest = true →
      (Text.isBlankText otherBefore || Text.isBlankText (other.drop 2)) =
        (Text.isBlankText before || Text.isBlankText (rest.drop 2)))
    (name : c = '@' → annotationStep other context = annotationStep rest context)
    (angle : c = '<' →
      rules.opensGeneric otherBefore (c :: other) = rules.opensGeneric before (c :: rest)) :
    codeStep rules otherBefore c other context = codeStep rules before c rest context := by
  by_cases isDelimiter : c ∈ delimiters
  · obtain rfl | rfl | rfl := mem_delimiters_iff.mp isDelimiter
    · rw [codeStep_quote, codeStep_quote, quotes rfl]
      split
      · rename_i block
        rw [blank rfl block]
      · rfl
    · rfl
    · rw [codeStep_slash plain, codeStep_slash plain, slash rfl, lengthEq]
  · rw [codeStep_of_not_mem_delimiters isDelimiter, codeStep_of_not_mem_delimiters isDelimiter]
    by_cases isAt : c = '@'
    · rw [if_pos (beq_iff_eq.mpr isAt), if_pos (beq_iff_eq.mpr isAt), name isAt]
    · by_cases isAngle : c = '<'
      · simp only [beq_eq_false_iff_ne.mpr isAt, angle isAngle, Bool.false_eq_true, if_false]
      · simp only [beq_eq_false_iff_ne.mpr isAt, beq_eq_false_iff_ne.mpr isAngle,
          Bool.false_and, Bool.false_eq_true, if_false]

/-- The look ahead and the look back of a step that stays outside end at a
delimiter. -/
theorem codeStep_eq_of_stays {far : List Char} (plain : rules.detectPatterns = false)
    (standard : rules.opensGeneric = Scan.opensGeneric)
    (sharedBefore : Shared before otherBefore)
    (stays : (codeStep rules before c rest (code.context false)).context.closing? = none)
    (shared : Shared (rest.drop (codeStep rules before c rest (code.context false)).further) far)
    (lengthEq : far.length =
      (rest.drop (codeStep rules before c rest (code.context false)).further).length) :
    codeStep rules otherBefore c
        (rest.take (codeStep rules before c rest (code.context false)).further ++ far)
        (code.context false) =
      codeStep rules before c rest (code.context false) := by
  have sharedRest := shared.append
    (rest.take (codeStep rules before c rest (code.context false)).further)
  rw [List.take_append_drop] at sharedRest
  have blockQuotes (isQuote : c = '"') : ∃ behind, rest = '"' :: '"' :: behind ∧
      (codeStep rules before c rest (code.context false)).further = 2 := by
    subst isQuote
    rw [codeStep_quote] at stays ⊢
    split at stays
    · rename_i quotes
      obtain ⟨behind, rfl⟩ := List.isPrefixOf_iff_prefix.mp quotes
      exact ⟨behind, rfl, rfl⟩
    · cases stays
  apply codeStep_congr (code.context false) plain
  · rw [List.length_append, lengthEq, ← List.length_append, List.take_append_drop]
  · exact fun _ => sharedRest.head?_eq
  · intro isQuote
    obtain ⟨behind, rfl, furtherEq⟩ := blockQuotes isQuote
    rw [furtherEq]
    rfl
  · intro isQuote _
    obtain ⟨behind, rfl, furtherEq⟩ := blockQuotes isQuote
    rw [furtherEq] at shared ⊢
    rw [sharedBefore.isBlankText_eq]
    exact congrArg _ shared.isBlankText_eq
  · exact fun _ => sharedRest.annotationStep_eq _
  · intro _
    rw [standard, opensGeneric, opensGeneric, sharedBefore.typeArgumentsMayFollow_eq,
      (Shared.cons c sharedRest).closesAsTypeArguments_eq]

end Step

end Scan
end CallTree
