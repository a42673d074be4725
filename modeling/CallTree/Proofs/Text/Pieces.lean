import CallTree.Text.Split

/-!
# Pieces of a text

A text is cut into the pieces between its separators.  A piece in front of a
separator is cut off as it is, and no piece has a separator in it.
-/

namespace CallTree
namespace Text

variable {separator : Char}

theorem splitAt_eq_splitOn (separator : Char) (text : List Char) :
    splitAt separator text = text.splitOn separator := by
  induction text with
  | nil => rw [splitAt, List.splitOn_nil]
  | cons c text ih =>
      obtain ⟨first, others, cut⟩ := List.exists_cons_of_ne_nil (splitAt_ne_nil separator text)
      rw [splitAt, List.splitOn_cons_eq_if_modifyHead, ← ih, cut, List.modifyHead_cons]

/-- A separator parts the pieces before it from those behind it. -/
theorem splitAt_append_cons (text rest : List Char) :
    splitAt separator (text ++ separator :: rest) =
      splitAt separator text ++ splitAt separator rest := by
  rw [splitAt_eq_splitOn, splitAt_eq_splitOn, splitAt_eq_splitOn, List.splitOn_append_cons_self]

/-- The piece in front of a separator is cut off. -/
theorem splitAt_append {piece : List Char} (plain : separator ∉ piece) (rest : List Char) :
    splitAt separator (piece ++ separator :: rest) = piece :: splitAt separator rest := by
  rw [splitAt_eq_splitOn, splitAt_eq_splitOn, List.splitOn_append_cons_self_of_not_mem plain]

section SplitOnP

variable {separates : Char → Bool}

theorem splitOnP_plain_append {front : List Char} (plain : ∀ c ∈ front, separates c = false)
    (text : List Char) :
    ∃ first others, text.splitOnP separates = first :: others ∧
      (front ++ text).splitOnP separates = (front ++ first) :: others := by
  obtain ⟨first, others, cut⟩ := List.exists_cons_of_ne_nil (List.splitOnP_ne_nil separates text)
  refine ⟨first, others, cut, ?_⟩
  induction front with
  | nil => exact cut
  | cons c front ih =>
      obtain ⟨here, later⟩ := List.forall_mem_cons.mp plain
      rw [List.cons_append, List.splitOnP_cons_eq_if_modifyHead, here, ih later]
      rfl

theorem splitOnP_append_plain {back : List Char} (plain : ∀ c ∈ back, separates c = false)
    (text : List Char) :
    ∃ others last, text.splitOnP separates = others ++ [last] ∧
      (text ++ back).splitOnP separates = others ++ [last ++ back] := by
  induction text with
  | nil => exact ⟨[], [], List.splitOnP_nil, List.splitOnP_eq_singleton plain⟩
  | cons c text ih =>
      obtain ⟨others, last, cut, cutAll⟩ := ih
      rw [List.cons_append, List.splitOnP_cons_eq_if_modifyHead,
        List.splitOnP_cons_eq_if_modifyHead, cut, cutAll]
      split
      · exact ⟨[] :: others, last, rfl, rfl⟩
      · cases others with
        | nil => exact ⟨[], c :: last, rfl, rfl⟩
        | cons piece others => exact ⟨(c :: piece) :: others, last, rfl, rfl⟩

/-- The first piece starts the text, and the others are found in it. -/
theorem infix_of_splitOnP_eq_cons {text first : List Char} {others : List (List Char)}
    (cut : text.splitOnP separates = first :: others) :
    first <+: text ∧ ∀ piece ∈ others, piece <:+: text := by
  induction text generalizing first others with
  | nil =>
      rw [List.splitOnP_nil] at cut
      cases cut
      simp
  | cons c text ih =>
      obtain ⟨next, later, cutText⟩ :=
        List.exists_cons_of_ne_nil (List.splitOnP_ne_nil separates text)
      obtain ⟨starts, found⟩ := ih cutText
      have grow {piece : List Char} (inside : piece <:+: text) : piece <:+: c :: text :=
        inside.trans (List.suffix_cons c text).isInfix
      rw [List.splitOnP_cons_eq_if_modifyHead, cutText] at cut
      split at cut
      · cases cut
        exact ⟨List.nil_prefix, List.forall_mem_cons.mpr
          ⟨grow starts.isInfix, fun piece member => grow (found piece member)⟩⟩
      · cases cut
        exact ⟨List.cons_prefix_cons.mpr ⟨rfl, starts⟩,
          fun piece member => grow (found piece member)⟩

theorem infix_of_mem_splitOnP {text piece : List Char}
    (member : piece ∈ text.splitOnP separates) : piece <:+: text := by
  obtain ⟨first, others, cut⟩ := List.exists_cons_of_ne_nil (List.splitOnP_ne_nil separates text)
  obtain ⟨starts, found⟩ := infix_of_splitOnP_eq_cons cut
  rw [cut] at member
  rcases List.mem_cons.mp member with rfl | later
  · exact starts.isInfix
  · exact found piece later

end SplitOnP

/-- A text up to its first separator and the text behind it are determined by the
whole. -/
theorem append_cons_inj {first second rest rest' : List Char} (plain : separator ∉ first)
    (plain' : separator ∉ second)
    (same : first ++ separator :: rest = second ++ separator :: rest') :
    first = second ∧ rest = rest' := by
  have pieces := congrArg (splitAt separator) same
  rw [splitAt_append plain, splitAt_append plain', List.cons.injEq] at pieces
  obtain ⟨rfl, -⟩ := pieces
  exact ⟨rfl, List.tail_eq_of_cons_eq (List.append_cancel_left same)⟩

/-- A text behind its last separator and the text in front of it are determined by
the whole. -/
theorem append_cons_inj_last {first second rest rest' : List Char} (plain : separator ∉ rest)
    (plain' : separator ∉ rest')
    (same : first ++ separator :: rest = second ++ separator :: rest') :
    first = second ∧ rest = rest' := by
  have reversed : rest.reverse ++ separator :: first.reverse =
      rest'.reverse ++ separator :: second.reverse := by
    simpa using congrArg List.reverse same
  have behind := append_cons_inj (by simpa using plain) (by simpa using plain') reversed
  exact ⟨List.reverse_inj.mp behind.2, List.reverse_inj.mp behind.1⟩

/-- The pieces in front of their separators are cut off one after another. -/
theorem splitAt_flatMap_append {pieces : List (List Char)}
    (plain : ∀ piece ∈ pieces, separator ∉ piece) (rest : List Char) :
    splitAt separator (pieces.flatMap (· ++ [separator]) ++ rest) =
      pieces ++ splitAt separator rest := by
  induction pieces with
  | nil => rfl
  | cons piece pieces ih =>
      obtain ⟨here, later⟩ := List.forall_mem_cons.mp plain
      rw [List.flatMap_cons, List.append_assoc, List.append_assoc, List.singleton_append,
        splitAt_append here, ih later, List.cons_append]

theorem not_mem_of_mem_splitAt {text piece : List Char}
    (member : piece ∈ splitAt separator text) : separator ∉ piece := by
  induction text generalizing piece with
  | nil => simp_all [splitAt]
  | cons c text ih =>
      rw [splitAt] at member
      split at member
      · rcases List.mem_cons.mp member with rfl | later
        · exact List.not_mem_nil
        · exact ih later
      · rename_i apart
        cases pieces : splitAt separator text with
        | nil => exact absurd pieces (splitAt_ne_nil separator text)
        | cons first others =>
            rw [pieces] at member ih
            rcases List.mem_cons.mp member with rfl | later
            · simp only [List.mem_cons, not_or]
              exact ⟨fun same => apart (beq_iff_eq.mpr same.symm), ih List.mem_cons_self⟩
            · exact ih (List.mem_cons_of_mem first later)

theorem infix_of_mem_splitAt {text piece : List Char}
    (member : piece ∈ splitAt separator text) : piece <:+: text := by
  rw [splitAt_eq_splitOn] at member
  exact infix_of_mem_splitOnP member

theorem mem_intercalate {pieces : List (List Char)} {c : Char}
    (member : c ∈ [separator].intercalate pieces) :
    c = separator ∨ ∃ piece ∈ pieces, c ∈ piece := by
  induction pieces with
  | nil => simp at member
  | cons piece pieces ih =>
      cases pieces with
      | nil => exact .inr ⟨piece, List.mem_cons_self, by simpa using member⟩
      | cons next pieces =>
          simp only [List.intercalate_cons_cons, List.mem_append, List.mem_singleton] at member
          rcases member with (here | same) | later
          · exact .inr ⟨piece, List.mem_cons_self, here⟩
          · exact .inl same
          · exact (ih later).imp_right fun ⟨other, otherMem, inside⟩ =>
              ⟨other, List.mem_cons_of_mem piece otherMem, inside⟩

theorem intercalate_append (front : List (List Char)) {back : List (List Char)}
    (nonempty : back ≠ []) :
    [separator].intercalate (front ++ back) =
      front.flatMap (· ++ [separator]) ++ [separator].intercalate back := by
  induction front with
  | nil => rfl
  | cons piece front ih =>
      obtain ⟨next, rest, cut⟩ : ∃ next rest, front ++ back = next :: rest :=
        List.exists_cons_of_ne_nil (by simp [nonempty])
      rw [List.cons_append, cut, List.intercalate_cons_cons, ← cut, ih, List.flatMap_cons,
        List.append_assoc (piece ++ [separator])]

/-- Joined pieces are cut apart again. -/
theorem splitAt_intercalate {pieces : List (List Char)} (nonempty : pieces ≠ [])
    (plain : ∀ piece ∈ pieces, separator ∉ piece) :
    splitAt separator ([separator].intercalate pieces) = pieces := by
  rw [splitAt_eq_splitOn, List.splitOn_intercalate separator plain nonempty]

/-- The pieces of a text, joined again. -/
theorem intercalate_splitAt (text : List Char) :
    [separator].intercalate (splitAt separator text) = text := by
  rw [splitAt_eq_splitOn, List.intercalate_splitOn]

end Text
end CallTree
