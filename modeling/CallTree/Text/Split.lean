/-!
# Cutting texts and lists

A text is cut at every occurrence of a separator.  A slice takes the part of a
list between two bounds, where a negative bound counts from the end and a bound
outside the list stands for its nearer end.
-/

namespace CallTree
namespace Text

/-- Cut at every separator.  There is always at least one piece. -/
def splitAt (separator : Char) : List Char → List (List Char)
  | [] => [[]]
  | c :: rest =>
      if c == separator then [] :: splitAt separator rest
      else
        match splitAt separator rest with
        | [] => [[c]]
        | first :: others => (c :: first) :: others

theorem splitAt_ne_nil (separator : Char) (text : List Char) :
    splitAt separator text ≠ [] := by
  cases text with
  | nil => simp [splitAt]
  | cons c rest =>
      rw [splitAt]
      split
      · simp
      · split <;> simp

/-- The place in a list of the given length that a bound stands for. -/
def sliceBound (length : Nat) (bound : Int) : Nat :=
  if bound < 0 then (bound + length).toNat else min bound.toNat length

/-- The elements from the place `first` up to, but without, the place `stop`. -/
def slice {α : Type} (values : List α) (first stop : Int) : List α :=
  (values.take (sliceBound values.length stop)).drop (sliceBound values.length first)

/-- The elements from the place `first` on. -/
def sliceFrom {α : Type} (values : List α) (first : Int) : List α :=
  values.drop (sliceBound values.length first)

@[simp]
theorem sliceFrom_natCast {α : Type} (values : List α) (first : Nat) :
    sliceFrom values first = values.drop first := by
  simp only [sliceFrom, sliceBound]
  rw [if_neg (by omega), Int.toNat_natCast]
  rcases Nat.le_total first values.length with within | beyond
  · rw [Nat.min_eq_left within]
  · rw [Nat.min_eq_right beyond, List.drop_length, List.drop_eq_nil_of_le beyond]

@[simp]
theorem slice_natCast {α : Type} (values : List α) (first stop : Nat) :
    slice values first stop = (values.take stop).drop first := by
  simp only [slice, sliceBound]
  rw [if_neg (by omega), if_neg (by omega), Int.toNat_natCast, Int.toNat_natCast,
    ← List.take_eq_take_min]
  rcases Nat.le_total first values.length with within | beyond
  · rw [Nat.min_eq_left within]
  · have taken := List.length_take_le' stop values
    rw [Nat.min_eq_right beyond, List.drop_eq_nil_of_le taken,
      List.drop_eq_nil_of_le (Nat.le_trans taken beyond)]

end Text
end CallTree
