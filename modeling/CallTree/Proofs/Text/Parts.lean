import CallTree.Proofs.Text.Spacing

/-!
# Texts parted by blanks

The parts of a text on the two sides of a blank are collapsed apart, so that it
does not matter which blanks stand between them, nor how many.  What follows a
text behind a blank changes neither its first word nor how it is trimmed at its
start.
-/

namespace CallTree
namespace Text

open CallSite (IsGap)

/-- What a collapsed text goes on with behind a blank. -/
def behindBlank : List Char → List Char
  | [] => []
  | text => ' ' :: text

/-- Two collapsed texts with a space between them, where both have something. -/
def joinSpaced : List Char → List Char → List Char
  | [], back => back
  | front, back => front ++ behindBlank back

/-- The collapsed form of what follows a visible character. -/
def collapseOn (text : List Char) : List Char :=
  dropEndWhile isBlank (squeezeFrom false text)

section Parts

variable {c : Char}

theorem dropEndWhile_visible_cons (visible : isBlank c = false) (text : List Char) :
    dropEndWhile isBlank (c :: text) = c :: dropEndWhile isBlank text := by
  rw [dropEndWhile, List.reverse_cons, List.dropWhile_append]
  split
  · rename_i blank
    rw [List.dropWhile_cons_of_neg (by simp [visible]), dropEndWhile, List.isEmpty_iff.mp blank]
    rfl
  · rw [List.reverse_append, dropEndWhile]
    rfl

theorem dropEndWhile_space_cons (text : List Char) :
    dropEndWhile isBlank (' ' :: text) = behindBlank (dropEndWhile isBlank text) := by
  rw [dropEndWhile, List.reverse_cons, List.dropWhile_append]
  split
  · rename_i blank
    rw [List.dropWhile_cons_of_pos (by decide), dropEndWhile, List.isEmpty_iff.mp blank]
    rfl
  · rename_i shown
    rw [List.reverse_append, ← dropEndWhile]
    cases rest : dropEndWhile isBlank text with
    | nil =>
        rw [dropEndWhile, List.reverse_eq_nil_iff] at rest
        simp [rest] at shown
    | cons d rest => rfl

theorem collapse_eq_dropEndWhile (text : List Char) :
    collapse text = dropEndWhile isBlank (squeezeFrom true text) := by
  rw [collapse, trim]
  congr 1
  cases text with
  | nil => rfl
  | cons c text =>
      rw [squeezeFrom, squeezeFrom]
      split
      · rw [if_neg Bool.false_ne_true, if_pos rfl, dropBlanks,
          List.dropWhile_cons_of_pos (by decide)]
        have starts := (singleSpaced_squeezeFrom true text).2 rfl
        cases rest : squeezeFrom true text with
        | nil => rfl
        | cons d rest =>
            rw [rest] at starts
            exact List.dropWhile_cons_of_neg (by simp [starts d rfl])
      · rename_i visible
        exact List.dropWhile_cons_of_neg visible

theorem collapse_blank_cons (blank : isBlank c = true) (text : List Char) :
    collapse (c :: text) = collapse text := by
  rw [collapse_eq_dropEndWhile, squeezeFrom, if_pos blank, if_pos rfl, collapse_eq_dropEndWhile]

theorem collapse_visible_cons (visible : isBlank c = false) (text : List Char) :
    collapse (c :: text) = c :: collapseOn text := by
  rw [collapse_eq_dropEndWhile, squeezeFrom, if_neg (by simp [visible]),
    dropEndWhile_visible_cons visible, collapseOn]

theorem collapseOn_blank_cons (blank : isBlank c = true) (text : List Char) :
    collapseOn (c :: text) = behindBlank (collapse text) := by
  rw [collapseOn, squeezeFrom, if_pos blank, if_neg Bool.false_ne_true, dropEndWhile_space_cons,
    collapse_eq_dropEndWhile]

theorem collapseOn_visible_cons (visible : isBlank c = false) (text : List Char) :
    collapseOn (c :: text) = c :: collapseOn text := by
  rw [collapseOn, squeezeFrom, if_neg (by simp [visible]), dropEndWhile_visible_cons visible,
    collapseOn]

theorem behindBlank_joinSpaced (front back : List Char) :
    behindBlank (joinSpaced front back) = behindBlank front ++ behindBlank back := by
  cases front with
  | nil => rfl
  | cons c front => rfl

theorem joinSpaced_nil (front : List Char) : joinSpaced front [] = front := by
  cases front with
  | nil => rfl
  | cons c front => exact List.append_nil _

theorem collapse_append_blank_and_collapseOn (blank : isBlank c = true) (front back : List Char) :
    collapse (front ++ c :: back) = joinSpaced (collapse front) (collapse back) ∧
      collapseOn (front ++ c :: back) = collapseOn front ++ behindBlank (collapse back) := by
  induction front with
  | nil => exact ⟨collapse_blank_cons blank back, collapseOn_blank_cons blank back⟩
  | cons d front ih =>
      obtain ⟨apart, behind⟩ := ih
      rw [List.cons_append]
      cases first : isBlank d with
      | true =>
          rw [collapse_blank_cons first, collapse_blank_cons first, collapseOn_blank_cons first,
            collapseOn_blank_cons first, apart, behindBlank_joinSpaced]
          exact ⟨rfl, rfl⟩
      | false =>
          rw [collapse_visible_cons first, collapse_visible_cons first,
            collapseOn_visible_cons first, collapseOn_visible_cons first, behind]
          exact ⟨rfl, rfl⟩

/-- The parts of a text on the two sides of a blank are collapsed apart. -/
theorem collapse_append_blank (blank : isBlank c = true) (front back : List Char) :
    collapse (front ++ c :: back) = joinSpaced (collapse front) (collapse back) :=
  (collapse_append_blank_and_collapseOn blank front back).1

theorem collapse_append_gap {text gap : List Char} (blank : IsGap gap) :
    collapse (text ++ gap) = collapse text := by
  induction gap generalizing text with
  | nil => rw [List.append_nil]
  | cons c gap ih =>
      obtain ⟨first, later⟩ := List.forall_mem_cons.mp blank
      have nothing : collapse ([] ++ gap) = [] := ih later
      rw [collapse_append_blank first, ← List.nil_append gap, nothing, joinSpaced_nil]

theorem collapse_append_dropEndWhile (front text : List Char) :
    collapse (front ++ dropEndWhile isBlank text) = collapse (front ++ text) := by
  obtain ⟨cut, cutBlank, whole⟩ := exists_dropEndWhile_append isBlank text
  nth_rewrite 2 [whole]
  rw [← List.append_assoc, collapse_append_gap cutBlank]

end Parts

/-- A text is empty or starts with a blank. -/
def StartsBlank (text : List Char) : Prop :=
  ∀ c, text.head? = some c → isBlank c = true

section StartsBlank

variable {front gap behind : List Char}

theorem StartsBlank.gap_append (blank : StartsBlank behind) (gapBlank : IsGap gap) :
    StartsBlank (gap ++ behind) := by
  cases gap with
  | nil => exact blank
  | cons c gap =>
      intro d first
      cases first
      exact gapBlank c List.mem_cons_self

theorem StartsBlank.dropEndWhile (blank : StartsBlank behind) :
    StartsBlank (dropEndWhile isBlank behind) := by
  obtain ⟨cut, _, whole⟩ := exists_dropEndWhile_append isBlank behind
  intro c first
  apply blank c
  rw [whole, List.head?_append, first, Option.some_or]

/-- Where there is a blank, more of them make no difference. -/
theorem StartsBlank.collapse_append (blank : StartsBlank behind) (gapBlank : IsGap gap)
    (front : List Char) : collapse (front ++ (gap ++ behind)) = collapse (front ++ behind) := by
  rw [← List.append_assoc]
  cases behind with
  | nil => rw [List.append_nil, List.append_nil, collapse_append_gap gapBlank]
  | cons c behind =>
      rw [collapse_append_blank (blank c rfl), collapse_append_blank (blank c rfl),
        collapse_append_gap gapBlank]

theorem StartsBlank.exists_collapse_append (blank : StartsBlank behind)
    (shown : collapse front ≠ []) :
    ∃ more, collapse (front ++ behind) = collapse front ++ behindBlank more := by
  cases behind with
  | nil => exact ⟨[], by rw [behindBlank, List.append_nil, List.append_nil]⟩
  | cons c behind =>
      obtain ⟨d, later, frontEq⟩ := List.exists_cons_of_ne_nil shown
      refine ⟨collapse behind, ?_⟩
      rw [collapse_append_blank (blank c rfl), frontEq, joinSpaced]
      nofun

theorem takeWhile_append_behindBlank {p : Char → Bool} (space : p ' ' = false)
    (front back : List Char) :
    (front ++ behindBlank back).takeWhile p = front.takeWhile p := by
  cases back with
  | nil => rw [behindBlank, List.append_nil]
  | cons c back =>
      induction front with
      | nil => simp [behindBlank, space]
      | cons d front ih => cases inside : p d <;> simp [inside, ih]

theorem dropWhile_append_of_ne_nil {p : Char → Bool} (shown : front.dropWhile p ≠ [])
    (behind : List Char) : (front ++ behind).dropWhile p = front.dropWhile p ++ behind := by
  rw [List.dropWhile_append, if_neg]
  simpa using shown

theorem EndsVisible.dropEndWhile_append (ends : EndsVisible front) (shown : front ≠ [])
    (back : List Char) :
    dropEndWhile isBlank (front ++ back) = front ++ dropEndWhile isBlank back := by
  rw [dropEndWhile, List.reverse_append, List.dropWhile_append]
  split
  · rename_i blank
    have last := List.getLast?_eq_some_getLast shown
    rw [← dropEndWhile, dropEndWhile_eq_self last (ends _ last), dropEndWhile,
      List.isEmpty_iff.mp blank, List.reverse_nil, List.append_nil]
  · rw [List.reverse_append, List.reverse_reverse, dropEndWhile]

/-- A text that shows something is trimmed at its start, and what follows it at
the end. -/
theorem exists_trim_append_eq (shown : trim front ≠ []) (behind : List Char) :
    ∃ gap, IsGap gap ∧
      trim (front ++ behind) = trim front ++ dropEndWhile isBlank (gap ++ behind) := by
  obtain ⟨gap, blank, trimmed⟩ := exists_dropEndWhile_append isBlank (dropBlanks front)
  have started : front.dropWhile isBlank ≠ [] := by
    intro nothing
    rw [trim, dropBlanks, nothing] at shown
    exact shown rfl
  have ends : EndsVisible (trim front) := endsVisible_dropEndWhile _
  refine ⟨gap, blank, ?_⟩
  rw [trim, dropBlanks, dropWhile_append_of_ne_nil started, ← dropBlanks, trimmed,
    List.append_assoc, ← trim, ends.dropEndWhile_append shown]

end StartsBlank

end Text
end CallTree
