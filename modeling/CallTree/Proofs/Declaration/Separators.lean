import CallTree.Proofs.Declaration.Parameters

/-!
# Separators of a parameter list

A comma separates two parameters when the brackets in front of it leave the
nesting at zero or below.  The parameters of a text are its stretches between
these commas, so that nothing but separators and blanks is left out.  Joining
the parameters puts back as many separators as are needed, and splitting the
joined list gives the same parameters, whether the brackets are balanced or not.
-/

namespace CallTree
namespace Declaration

open Text (visible collapse)

/-- The characters of a text, each with the nesting in front of it, where `depth`
is the nesting in front of the text. -/
def nested (depth : Int) : List Char → List (Int × Char)
  | [] => []
  | c :: text => (depth, c) :: nested (depth + shift c) text

/-- A comma outside brackets. -/
def isSeparator (place : Int × Char) : Bool :=
  place.2 == ',' && decide (place.1 ≤ 0)

/-- The text without its separators. -/
def unseparated (text : List Char) : List Char :=
  ((nested 0 text).filter fun place => !isSeparator place).map Prod.snd

/-- The stretches of the text between its separators. -/
def stretches (text : List Char) : List (List Char) :=
  ((nested 0 text).splitOnP isSeparator).map (List.map Prod.snd)

section Stretches

variable {depth : Int} {c : Char}

theorem isSeparator_iff : isSeparator (depth, c) = true ↔ c = ',' ∧ depth ≤ 0 := by
  simp [isSeparator]

/-- A text is cut at its separators and nowhere else. -/
theorem cutAtCommas_eq_splitOnP (depth : Int) (text : List Char) :
    cutAtCommas depth text =
      ((nested depth text).splitOnP isSeparator).map (List.map Prod.snd) := by
  induction text generalizing depth with
  | nil => rfl
  | cons c text ih =>
      rw [nested, List.splitOnP_cons_eq_if_modifyHead]
      split
      · rename_i separates
        obtain ⟨rfl, outside⟩ := isSeparator_iff.mp separates
        have unshifted : depth + shift ',' = depth := Int.add_zero depth
        rw [cutAtCommas_comma outside, unshifted, List.map_cons, ← ih]
        rfl
      · rename_i continues
        have uncut : c = ',' → 0 < depth := by
          intro comma
          by_contra outside
          exact continues (isSeparator_iff.mpr ⟨comma, by omega⟩)
        obtain ⟨first, later, deeper, here⟩ := exists_cutAtCommas_cons uncut text
        rw [here]
        rw [ih] at deeper
        cases pieces : (nested (depth + shift c) text).splitOnP isSeparator with
        | nil => exact absurd pieces (List.splitOnP_ne_nil _ _)
        | cons piece pieces =>
            rw [pieces, List.map_cons] at deeper
            obtain ⟨rfl, rfl⟩ := List.cons.inj deeper
            rfl

theorem splitParameters_eq_stretches (text : List Char) :
    splitParameters text =
      ((stretches text).map collapse).filter fun parameter => !parameter.isEmpty := by
  rw [splitParameters, cutAtCommas_eq_splitOnP, stretches]

theorem flatten_splitOnP {α : Type} (p : α → Bool) (list : List α) :
    (list.splitOnP p).flatten = list.filter fun value => !p value := by
  induction list with
  | nil => rfl
  | cons value list ih =>
      rw [List.splitOnP_cons_eq_if_modifyHead]
      split
      · rename_i cut
        rw [List.flatten_cons, List.nil_append, ih, List.filter_cons_of_neg (by simp [cut])]
      · rename_i uncut
        rw [List.filter_cons_of_pos (by simp [uncut]), ← ih]
        cases pieces : list.splitOnP p with
        | nil => exact absurd pieces (List.splitOnP_ne_nil _ _)
        | cons piece pieces => rfl

theorem flatten_stretches (text : List Char) : (stretches text).flatten = unseparated text := by
  rw [stretches, ← List.map_flatten, flatten_splitOnP, unseparated]

theorem visible_flatten_map_collapse (pieces : List (List Char)) :
    visible (pieces.map collapse).flatten = visible pieces.flatten := by
  induction pieces with
  | nil => rfl
  | cons piece pieces ih =>
      rw [List.map_cons, List.flatten_cons, List.flatten_cons, Text.visible_append,
        Text.visible_append, Text.visible_collapse, ih]

/-- Of a parameter list only the separators and blanks are left out. -/
theorem visible_flatten_splitParameters (text : List Char) :
    visible (splitParameters text).flatten = visible (unseparated text) := by
  rw [splitParameters_eq_stretches, List.flatten_filter_not_isEmpty,
    visible_flatten_map_collapse, flatten_stretches]

end Stretches

/-- The parameters of a text stay as they are when they are joined and split again,
and together they show what the text shows without its separators.  They are cut
where a separator stands: each one is a stretch between separators that shows
something, collapsed. -/
theorem splitParameters_stable_and_lossless (text : List Char) :
    splitParameters (joinParameters (splitParameters text)) = splitParameters text ∧
      visible (splitParameters text).flatten = visible (unseparated text) ∧
      splitParameters text =
        ((stretches text).map collapse).filter fun parameter => !parameter.isEmpty :=
  ⟨splitParameters_joinParameters text, visible_flatten_splitParameters text,
    splitParameters_eq_stretches text⟩

/-- A bracket that is closed once too often leaves the next one at zero. -/
example : splitParameters "a> b, List<K, V > c,, (d".toList =
    ["a> b".toList, "List<K".toList, "V > c".toList, "(d".toList] := by
  decide

end Declaration
end CallTree
