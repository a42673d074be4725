import CallTree.Proofs.Declaration.Heads
import CallTree.Proofs.Scan.Lookaround

/-!
# Types in front of a name

A type is a name, which type arguments and array marks may follow.  The readers
find it by trying every way to end the arguments, but in front of a called name
there is only one: the name holds no angle bracket and is followed by a
parenthesis, where the search ends.  So a type that was read once is read again
in front of any other called name.
-/

namespace CallTree
namespace Declaration

open CallSite (IsGap)

/-- Pairs of square brackets, with at most a space before and inside each. -/
inductive IsMarks : List Char → Prop where
  | nil : IsMarks []
  | cons {outer inner marks : List Char} : (outer = [] ∨ outer = [' ']) →
      (inner = [] ∨ inner = [' ']) → IsMarks marks →
      IsMarks (outer ++ '[' :: (inner ++ ']' :: marks))

/-- Type arguments, with at most a space before them. -/
structure IsArguments (arguments gap inside : List Char) : Prop where
  eq : arguments = gap ++ '<' :: (inside ++ ['>'])
  gap : gap = [] ∨ gap = [' ']
  inside : '(' ∉ inside ∧ ')' ∉ inside

/-- A type with the parts that it consists of. -/
structure IsType (type name arguments marks : List Char) : Prop where
  eq : type = name ++ (arguments ++ marks)
  nonempty : name ≠ []
  parts : ∀ c ∈ name, isTypeNamePart c = true
  arguments : arguments = [] ∨ ∃ gap inside, IsArguments arguments gap inside
  marks : IsMarks marks

section Marks

variable {marks after : List Char}

theorem isMarks_arrayMarks (text : List Char) : IsMarks (arrayMarks text).1 := by
  fun_induction arrayMarks text with
  | case1 rest marks after found ih =>
      rw [found] at ih
      exact IsMarks.cons (.inr rfl) (.inr rfl) ih
  | case2 rest marks after found ih =>
      rw [found] at ih
      exact IsMarks.cons (.inr rfl) (.inl rfl) ih
  | case3 rest marks after found ih =>
      rw [found] at ih
      exact IsMarks.cons (.inl rfl) (.inr rfl) ih
  | case4 rest marks after found ih =>
      rw [found] at ih
      exact IsMarks.cons (.inl rfl) (.inl rfl) ih
  | case5 rest => exact .nil

theorem IsMarks.arrayMarks_append (isMarks : IsMarks marks)
    (stops : arrayMarks after = ([], after)) : arrayMarks (marks ++ after) = (marks, after) := by
  induction isMarks with
  | nil => exact stops
  | cons outerCases innerCases _ ih =>
      rcases outerCases with rfl | rfl <;> rcases innerCases with rfl | rfl <;>
        simp [arrayMarks, ih]

theorem IsMarks.not_mem (isMarks : IsMarks marks) {c : Char}
    (other : c ≠ ' ' ∧ c ≠ '[' ∧ c ≠ ']') : c ∉ marks := by
  induction isMarks with
  | nil => simp
  | cons outerCases innerCases _ ih =>
      rcases outerCases with rfl | rfl <;> rcases innerCases with rfl | rfl <;>
        simp [ih, other]

/-- What follows a type's name, when no arguments do. -/
theorem IsMarks.head?_skipSpace (isMarks : IsMarks marks) (nonempty : marks ≠ []) :
    (skipSpace (marks ++ after)).head? = some '[' := by
  cases isMarks with
  | nil => exact absurd rfl nonempty
  | cons outerCases innerCases _ =>
      rcases outerCases with rfl | rfl <;> rfl

end Marks

section Closings

variable {text content after : List Char}

theorem not_mem_of_mem_closings (member : (content, after) ∈ closings text) :
    '(' ∉ content ∧ ')' ∉ content := by
  induction text generalizing content with
  | nil => cases member
  | cons c text ih =>
      rw [closings] at member
      split at member
      · cases member
      · rename_i noParenthesis
        have plain : '(' ≠ c ∧ ')' ≠ c := by
          simp only [Bool.or_eq_true, beq_iff_eq, not_or] at noParenthesis
          exact ⟨Ne.symm noParenthesis.1, Ne.symm noParenthesis.2⟩
        have further (later : (content, after) ∈
            (closings text).map fun closing => (c :: closing.1, closing.2)) :
            '(' ∉ content ∧ ')' ∉ content := by
          obtain ⟨⟨nearer, _⟩, nearerMem, same⟩ := List.mem_map.mp later
          cases same
          simp [ih nearerMem, plain]
        dsimp only at member
        split at member
        · rcases List.mem_cons.mp member with here | later
          · cases here
            simp [plain]
          · exact further later
        · exact further member

theorem mem_closings {inside : List Char} (plain : '(' ∉ inside ∧ ')' ∉ inside)
    (after : List Char) : (inside ++ ['>'], after) ∈ closings (inside ++ '>' :: after) := by
  induction inside with
  | nil => simp [closings]
  | cons c inside ih =>
      simp only [List.mem_cons, not_or] at plain
      have noParenthesis : ¬ (c == '(' || c == ')') = true := by
        simp [Ne.symm plain.1.1, Ne.symm plain.2.1]
      have further : (c :: inside ++ ['>'], after) ∈ (closings (inside ++ '>' :: after)).map
          fun closing => (c :: closing.1, closing.2) :=
        List.mem_map.mpr ⟨_, ih ⟨plain.1.2, plain.2.2⟩, rfl⟩
      rw [List.cons_append, closings, if_neg noParenthesis]
      dsimp only
      split
      · exact List.mem_cons_of_mem _ further
      · exact further

theorem closings_eq_nil (plain : '>' ∉ text) (inside : List Char) :
    closings (text ++ '(' :: inside) = [] := by
  induction text with
  | nil => rfl
  | cons c text ih =>
      rw [List.mem_cons, not_or] at plain
      rw [List.cons_append, closings]
      split
      · rfl
      · rw [ih plain.2]
        simp [Ne.symm plain.1]

/-- The last way to end a list is at its last bracket. -/
theorem getLast?_closings {inside : List Char} (plain : '(' ∉ inside ∧ ')' ∉ inside)
    (nothing : closings after = []) :
    (closings (inside ++ '>' :: after)).getLast? = some (inside ++ ['>'], after) := by
  induction inside with
  | nil => simp [closings, nothing]
  | cons c inside ih =>
      simp only [List.mem_cons, not_or] at plain
      have later := ih ⟨plain.1.2, plain.2.2⟩
      have noParenthesis : ¬ (c == '(' || c == ')') = true := by
        simp [Ne.symm plain.1.1, Ne.symm plain.2.1]
      rw [List.cons_append, closings, if_neg noParenthesis]
      dsimp only
      split <;> simp [List.getLast?_cons, List.getLast?_map, later]

end Closings

section Types

variable {type name arguments marks text after : List Char}

theorem takeWhile_isTypeNamePart (parts : ∀ c ∈ name, isTypeNamePart c = true)
    (stops : ∀ c, after.head? = some c → isTypeNamePart c = false) :
    (name ++ after).takeWhile isTypeNamePart = name := by
  rw [List.takeWhile_append_of_pos parts]
  cases after with
  | nil => simp
  | cons c after => simp [stops c rfl]

theorem exists_gap_eq (text : List Char) :
    text = text.take (text.length - (skipSpace text).length) ++ skipSpace text ∧
      (text.take (text.length - (skipSpace text).length) = [] ∨
        text.take (text.length - (skipSpace text).length) = [' ']) := by
  unfold skipSpace
  split <;> simp

theorem exists_isType_of_mem_types (member : (type, after) ∈ types text) :
    text = type ++ after ∧ ∃ name arguments marks, IsType type name arguments marks := by
  rw [types] at member
  dsimp only at member
  split at member
  · cases member
  · rename_i named
    have parts : ∀ c ∈ text.takeWhile isTypeNamePart, isTypeNamePart c = true :=
      fun c inName => List.mem_takeWhile_imp inName
    have nonempty : text.takeWhile isTypeNamePart ≠ [] := by
      simpa [List.isEmpty_iff] using named
    have whole := List.takeWhile_append_dropWhile (p := isTypeNamePart) (l := text)
    rw [Scan.drop_length_takeWhile] at member
    obtain ⟨⟨shorter, rest⟩, reached, same⟩ := List.mem_map.mp member
    have isMarks := isMarks_arrayMarks rest
    have marksEq := arrayMarks_append rest
    obtain ⟨rfl, rfl⟩ := Prod.mk.inj same
    rcases List.mem_append.mp reached with parameterized | plain
    · obtain ⟨gapEq, gapCases⟩ := exists_gap_eq (text.dropWhile isTypeNamePart)
      generalize (text.dropWhile isTypeNamePart).take _ = gap at *
      split at parameterized
      · rename_i inside opened
        obtain ⟨⟨content, behind⟩, closing, pairEq⟩ := List.mem_map.mp parameterized
        have closes := List.mem_reverse.mp closing
        obtain ⟨inner, rfl, rfl⟩ := eq_of_mem_closings closes
        have noParentheses := not_mem_of_mem_closings closes
        obtain ⟨rfl, rfl⟩ := Prod.mk.inj pairEq
        dsimp only at marksEq isMarks ⊢
        simp only [List.mem_append, not_or] at noParentheses
        have isArguments : IsArguments (gap ++ '<' :: (inner ++ ['>'])) gap inner :=
          ⟨rfl, gapCases, noParentheses.1.1, noParentheses.2.1⟩
        refine ⟨?_, text.takeWhile isTypeNamePart, _, _,
          ⟨?_, nonempty, parts, .inr ⟨gap, inner, isArguments⟩, isMarks⟩⟩
        · rw [List.append_assoc, marksEq]
          nth_rewrite 1 [← whole, gapEq, opened]
          simp
        · simp
      · cases parameterized
    · obtain ⟨rfl, rfl⟩ := Prod.mk.inj (List.mem_singleton.mp plain)
      refine ⟨?_, _, [], _, ⟨rfl, nonempty, parts, .inl rfl, isMarks⟩⟩
      rw [List.append_assoc, marksEq, whole]

theorem IsType.exists_first (isType : IsType type name arguments marks) :
    ∃ first later, type = first :: later ∧ isTypeNamePart first = true := by
  obtain ⟨first, later, rfl⟩ := List.exists_cons_of_ne_nil isType.nonempty
  exact ⟨first, _, isType.eq, isType.parts first List.mem_cons_self⟩

theorem IsType.head?_tail (isType : IsType type name arguments marks) {c : Char}
    (head : (arguments ++ marks).head? = some c) : c = ' ' ∨ c = '<' ∨ c = '[' := by
  rcases isType.arguments with rfl | ⟨gap, inside, isArguments⟩
  · cases isType.marks with
    | nil => cases head
    | cons outerCases innerCases _ =>
        rcases outerCases with rfl | rfl <;> cases head <;> simp
  · rw [isArguments.eq] at head
    rcases isArguments.gap with rfl | rfl <;> cases head <;> simp

theorem isTypeNamePart_eq_false {c : Char} (tail : c = ' ' ∨ c = '<' ∨ c = '[') :
    isTypeNamePart c = false := by
  rcases tail with rfl | rfl | rfl <;> decide

theorem IsType.takeWhile_eq (isType : IsType type name arguments marks) (behind : List Char) :
    (type ++ ' ' :: behind).takeWhile isTypeNamePart = name := by
  rw [isType.eq, List.append_assoc]
  refine takeWhile_isTypeNamePart isType.parts fun c head => isTypeNamePart_eq_false ?_
  rw [List.head?_append] at head
  cases tail : (arguments ++ marks).head? with
  | none =>
      rw [tail] at head
      cases head
      exact .inl rfl
  | some d =>
      rw [tail] at head
      cases head
      exact isType.head?_tail tail

theorem IsName.ne {word : List Char} (isName : IsName word) {c : Char}
    (apart : Text.isIdentifierPart c = false) : c ∉ word := by
  intro member
  rw [isName.parts c member] at apart
  cases apart

/-- Where nothing behind a type can continue it, the type is what is read
first. -/
theorem IsType.head?_types_append (isType : IsType type name arguments marks)
    (stops : arrayMarks (' ' :: after) = ([], ' ' :: after))
    (unopened : ∀ behind, after ≠ '<' :: behind)
    (unclosed : closings (marks ++ ' ' :: after) = []) :
    (types (type ++ ' ' :: after)).head? = some (type, ' ' :: after) := by
  have marksEq := isType.marks.arrayMarks_append stops
  have nameEq := isType.takeWhile_eq after
  have dropEq : (type ++ ' ' :: after).drop name.length = arguments ++ (marks ++ ' ' :: after) := by
    rw [isType.eq, List.append_assoc, List.drop_left, List.append_assoc]
  have named : name.isEmpty = false := by simpa [List.isEmpty_iff] using isType.nonempty
  rw [types]
  simp only [nameEq, dropEq, named, Bool.false_eq_true, if_false]
  rcases isType.arguments with rfl | ⟨gap, content, isArguments⟩
  · -- Without arguments, a mark or the text behind the type follows the name.
    have plain : ∀ behind, skipSpace (marks ++ ' ' :: after) ≠ '<' :: behind := by
      intro behind opened
      by_cases unmarked : marks = []
      · subst unmarked
        exact unopened behind opened
      · have head : (skipSpace (marks ++ ' ' :: after)).head? = some '[' :=
          isType.marks.head?_skipSpace unmarked
        rw [opened] at head
        cases head
    rw [List.nil_append]
    split
    · rename_i behind opened
      exact absurd opened (plain behind)
    · simp [marksEq, isType.eq]
  · have last := getLast?_closings isArguments.inside unclosed
    have opened : skipSpace (arguments ++ (marks ++ ' ' :: after)) =
        '<' :: (content ++ '>' :: (marks ++ ' ' :: after)) := by
      rw [isArguments.eq]
      rcases isArguments.gap with rfl | rfl <;> simp [skipSpace]
    have gapEq : (arguments ++ (marks ++ ' ' :: after)).take
        ((arguments ++ (marks ++ ' ' :: after)).length -
          ('<' :: (content ++ '>' :: (marks ++ ' ' :: after))).length) = gap := by
      rw [isArguments.eq]
      rcases isArguments.gap with rfl | rfl <;> simp
    rw [opened, gapEq]
    simp [last, marksEq, isType.eq, isArguments.eq]

/-- In front of a called name, the type is what is read first. -/
theorem IsType.head?_types (isType : IsType type name arguments marks) {word : List Char}
    (isName : IsName word) (inside : List Char) :
    (types (type ++ ' ' :: (word ++ '(' :: inside))).head? =
      some (type, ' ' :: (word ++ '(' :: inside)) := by
  obtain ⟨first, later, rfl⟩ := List.exists_cons_of_ne_nil isName.nonempty
  have other {c : Char} (apart : Text.isIdentifierPart c = false) : first ≠ c := by
    rintro rfl
    exact isName.ne apart List.mem_cons_self
  refine isType.head?_types_append ?_ ?_ ?_
  · have noMark : first ≠ '[' := other (by decide)
    rw [List.cons_append, arrayMarks] <;> simp [noMark]
  · rintro behind opened
    exact other (by decide) (List.cons.inj opened).1
  · have plain : '>' ∉ marks ++ ' ' :: (first :: later) := by
      have inMarks := isType.marks.not_mem (c := '>') (by decide)
      have inName := isName.ne (c := '>') (by decide)
      simp only [List.mem_append, List.mem_cons, not_or] at inName ⊢
      exact ⟨inMarks, by decide, inName⟩
    have nothing := closings_eq_nil plain inside
    rwa [List.append_assoc, List.cons_append] at nothing

end Types

end Declaration
end CallTree
