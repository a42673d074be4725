import CallTree.Declaration.Parameters
import CallTree.Proofs.Text.Spacing
import Mathlib.Algebra.Ring.Int.Defs

/-!
# Parameter lists joined again

A parameter list is cut at its commas outside brackets.  Joining the parameters
puts a comma back at each of these places, and since the nesting is counted
through the whole list, the commas between the parameters are again the ones
outside brackets: no other comma becomes one, even where the brackets of the
list are unbalanced.  The parentheses of the list stay as they are, so that the
joined list ends where the first one did.
-/

namespace CallTree
namespace Declaration

open Text (visible collapse)

/-- What a character adds to the nesting. -/
def shift (c : Char) : Int :=
  if c == '<' || c == '(' then 1
  else if c == '>' || c == ')' then -1
  else 0

/-- What a text adds to the nesting. -/
def nesting (text : List Char) : Int :=
  (text.map shift).sum

/-- From the nesting `depth` on, the text is not cut. -/
def Whole (depth : Int) : List Char → Prop
  | [] => True
  | c :: rest => (c = ',' → 0 < depth) ∧ Whole (depth + shift c) rest

/-- From the nesting `depth` on, each piece is whole, and outside brackets
another may follow it. -/
def Pieces (depth : Int) : List (List Char) → Prop
  | [] => True
  | piece :: later =>
      Whole depth piece ∧ (later ≠ [] → depth + nesting piece ≤ 0) ∧
        Pieces (depth + nesting piece) later

section Nesting

variable {c : Char} {text : List Char} {depth : Int}

@[simp]
theorem nesting_nil : nesting [] = 0 :=
  rfl

@[simp]
theorem nesting_cons (c : Char) (text : List Char) :
    nesting (c :: text) = shift c + nesting text := by
  simp [nesting]

theorem ne_of_isBlank {d : Char} (blank : Text.isBlank c = true) (shown : Text.isBlank d = false) :
    c ≠ d := by
  rintro rfl
  rw [shown] at blank
  cases blank

theorem shift_of_isBlank (blank : Text.isBlank c = true) : shift c = 0 := by
  have other {d : Char} (shown : Text.isBlank d = false) : c ≠ d := ne_of_isBlank blank shown
  have angle : c ≠ '<' ∧ c ≠ '>' := ⟨other (by decide), other (by decide)⟩
  have round : c ≠ '(' ∧ c ≠ ')' := ⟨other (by decide), other (by decide)⟩
  simp [shift, angle, round]

/-- Blanks do not take part in the nesting. -/
theorem nesting_visible (text : List Char) : nesting (visible text) = nesting text := by
  induction text with
  | nil => rfl
  | cons c text ih =>
      rw [Text.visible_cons]
      split
      · rename_i blank
        rw [ih, nesting_cons, shift_of_isBlank blank]
        omega
      · rw [nesting_cons, nesting_cons, ih]

theorem whole_visible_iff (depth : Int) (text : List Char) :
    Whole depth (visible text) ↔ Whole depth text := by
  induction text generalizing depth with
  | nil => exact Iff.rfl
  | cons c text ih =>
      rw [Text.visible_cons]
      split
      · rename_i blank
        have noComma : c ≠ ',' := ne_of_isBlank blank (by decide)
        rw [ih, Whole, shift_of_isBlank blank, Int.add_zero]
        simp [noComma]
      · rw [Whole, Whole, ih]

end Nesting

section Pieces

variable {depth : Int} {pieces others : List (List Char)}

/-- Pieces may be spaced in another way. -/
theorem Pieces.of_visible_eq (same : others.map visible = pieces.map visible)
    (cut : Pieces depth pieces) : Pieces depth others := by
  induction pieces generalizing others depth with
  | nil =>
      obtain rfl := List.map_eq_nil_iff.mp same
      trivial
  | cons piece pieces ih =>
      obtain ⟨other, later, rfl, otherEq, laterEq⟩ := List.map_eq_cons_iff.mp same
      obtain ⟨whole, outside, further⟩ := cut
      have nestingEq : nesting other = nesting piece := by
        rw [← nesting_visible other, otherEq, nesting_visible]
      refine ⟨?_, ?_, ?_⟩
      · rwa [← whole_visible_iff, otherEq, whole_visible_iff]
      · intro nonempty
        rw [nestingEq]
        apply outside
        rintro rfl
        exact nonempty (List.map_eq_nil_iff.mp laterEq)
      · rw [nestingEq]
        exact ih laterEq further

theorem Pieces.filter_nonempty (cut : Pieces depth pieces) :
    Pieces depth (pieces.filter fun piece => !piece.isEmpty) := by
  induction pieces generalizing depth with
  | nil => trivial
  | cons piece pieces ih =>
      obtain ⟨whole, outside, further⟩ := cut
      cases piece with
      | nil =>
          rw [nesting_nil, Int.add_zero] at further
          exact ih further
      | cons c piece =>
          refine ⟨whole, fun nonempty => outside ?_, ih further⟩
          rintro rfl
          exact nonempty rfl

theorem cutAtCommas_ne_nil (depth : Int) (text : List Char) : cutAtCommas depth text ≠ [] := by
  cases text with
  | nil => exact List.cons_ne_nil _ _
  | cons c text =>
      rw [cutAtCommas]
      split
      · exact List.cons_ne_nil _ _
      · dsimp only
        split <;> exact List.cons_ne_nil _ _

/-- A character at which the text is not cut starts the first piece. -/
theorem exists_cutAtCommas_cons {c : Char} (uncut : c = ',' → 0 < depth) (text : List Char) :
    ∃ first later, cutAtCommas (depth + shift c) text = first :: later ∧
      cutAtCommas depth (c :: text) = (c :: first) :: later := by
  obtain ⟨first, later, cut⟩ := List.exists_cons_of_ne_nil
    (cutAtCommas_ne_nil (depth + shift c) text)
  refine ⟨first, later, cut, ?_⟩
  have depthEq : (if c == '<' || c == '(' then depth + 1
      else if c == '>' || c == ')' then depth - 1 else depth) = depth + shift c := by
    unfold shift
    split
    · rfl
    · split <;> omega
  have uncutHere : ¬ (c == ',' && decide (depth ≤ 0)) = true := by
    simp only [Bool.and_eq_true, beq_iff_eq, decide_eq_true_eq]
    rintro ⟨comma, outside⟩
    have inside := uncut comma
    omega
  rw [cutAtCommas, if_neg uncutHere]
  simp only [depthEq, cut]

theorem cutAtCommas_comma (outside : depth ≤ 0) (text : List Char) :
    cutAtCommas depth (',' :: text) = [] :: cutAtCommas depth text := by
  rw [cutAtCommas, if_pos (by simpa using outside)]

/-- The pieces of a text, which give it back when joined. -/
theorem pieces_cutAtCommas (depth : Int) (text : List Char) :
    Pieces depth (cutAtCommas depth text) ∧
      [','].intercalate (cutAtCommas depth text) = text := by
  induction text generalizing depth with
  | nil => exact ⟨⟨trivial, fun nonempty => absurd rfl nonempty, trivial⟩, rfl⟩
  | cons c text ih =>
      by_cases cutHere : c = ',' ∧ depth ≤ 0
      · obtain ⟨rfl, outside⟩ := cutHere
        obtain ⟨cut, joined⟩ := ih depth
        rw [cutAtCommas_comma outside]
        refine ⟨⟨trivial, fun _ => ?_, ?_⟩, ?_⟩
        · rw [nesting_nil]
          omega
        · rwa [nesting_nil, Int.add_zero]
        · rw [List.intercalate_cons_of_ne_nil (cutAtCommas_ne_nil depth text), joined]
          rfl
      · have uncut : c = ',' → 0 < depth := fun comma => by
          by_contra outside
          exact cutHere ⟨comma, by omega⟩
        obtain ⟨first, later, deeper, here⟩ := exists_cutAtCommas_cons uncut text
        obtain ⟨⟨whole, outside, further⟩, joined⟩ := deeper ▸ ih (depth + shift c)
        rw [here]
        refine ⟨⟨⟨uncut, whole⟩, fun nonempty => ?_, ?_⟩, ?_⟩
        · have before := outside nonempty
          rw [nesting_cons]
          omega
        · rwa [nesting_cons, ← Int.add_assoc]
        · rw [List.intercalate_cons_cons_left, joined]

theorem cutAtCommas_append {piece : List Char} (whole : Whole depth piece)
    (outside : depth + nesting piece ≤ 0) (text : List Char) :
    cutAtCommas depth (piece ++ ',' :: text) =
      piece :: cutAtCommas (depth + nesting piece) text := by
  induction piece generalizing depth with
  | nil =>
      rw [nesting_nil, Int.add_zero] at *
      exact cutAtCommas_comma outside text
  | cons c piece ih =>
      obtain ⟨uncut, further⟩ := whole
      rw [nesting_cons, ← Int.add_assoc] at *
      obtain ⟨first, later, deeper, here⟩ := exists_cutAtCommas_cons uncut (piece ++ ',' :: text)
      rw [ih further outside] at deeper
      obtain ⟨rfl, rfl⟩ := List.cons.inj deeper
      exact here

theorem cutAtCommas_of_whole {piece : List Char} (whole : Whole depth piece) :
    cutAtCommas depth piece = [piece] := by
  induction piece generalizing depth with
  | nil => rfl
  | cons c piece ih =>
      obtain ⟨uncut, further⟩ := whole
      obtain ⟨first, later, deeper, here⟩ := exists_cutAtCommas_cons uncut piece
      rw [ih further] at deeper
      obtain ⟨rfl, rfl⟩ := List.cons.inj deeper
      exact here

/-- Joined pieces are cut where they were joined. -/
theorem Pieces.cutAtCommas_intercalate (cut : Pieces depth pieces) (nonempty : pieces ≠ []) :
    cutAtCommas depth ([','].intercalate pieces) = pieces := by
  induction pieces generalizing depth with
  | nil => exact absurd rfl nonempty
  | cons piece pieces ih =>
      obtain ⟨whole, outside, further⟩ := cut
      cases pieces with
      | nil =>
          rw [List.intercalate_singleton]
          exact cutAtCommas_of_whole whole
      | cons next later =>
          have follows := List.cons_ne_nil next later
          rw [List.intercalate_cons_of_ne_nil follows, List.append_assoc, List.singleton_append,
            cutAtCommas_append whole (outside follows), ih further follows]

end Pieces

/-- Parameters in one list. -/
def joinParameters (parameters : List (List Char)) : List Char :=
  [',', ' '].intercalate parameters

/-- The pieces that joined parameters are cut into. -/
def spacedPieces : List (List Char) → List (List Char)
  | [] => []
  | first :: later => first :: later.map (' ' :: ·)

section Join

variable {parameters : List (List Char)} {parameter : List Char}

theorem joinParameters_eq (parameters : List (List Char)) :
    joinParameters parameters = [','].intercalate (spacedPieces parameters) := by
  unfold joinParameters
  induction parameters with
  | nil => rfl
  | cons first parameters ih =>
      cases parameters with
      | nil => rfl
      | cons next later =>
          have spacedNext : spacedPieces (first :: next :: later) =
              first :: (' ' :: next) :: later.map (' ' :: ·) := rfl
          rw [List.intercalate_cons_cons, ih, spacedNext, List.intercalate_cons_cons,
            List.intercalate_cons_cons_left]
          simp [spacedPieces]

theorem visible_spacedPieces (parameters : List (List Char)) :
    (spacedPieces parameters).map visible = parameters.map visible := by
  have unspaced (text : List Char) : visible (' ' :: text) = visible text := by
    rw [Text.visible_cons, if_pos (by decide)]
  cases parameters with
  | nil => rfl
  | cons first later => simp [spacedPieces, Function.comp_def, unspaced]

theorem collapsed_of_mem_splitParameters {text : List Char}
    (member : parameter ∈ splitParameters text) :
    Text.Collapsed parameter ∧ parameter ≠ [] := by
  obtain ⟨collapsed, nonempty⟩ := List.mem_filter.mp member
  obtain ⟨piece, _, rfl⟩ := List.mem_map.mp collapsed
  exact ⟨Text.collapsed_collapse piece, by simpa [List.isEmpty_iff] using nonempty⟩

theorem pieces_splitParameters (text : List Char) : Pieces 0 (splitParameters text) := by
  have cut := (pieces_cutAtCommas 0 text).1
  have same : ((cutAtCommas 0 text).map collapse).map visible =
      (cutAtCommas 0 text).map visible := by
    simp [Function.comp_def, Text.visible_collapse]
  exact (cut.of_visible_eq same).filter_nonempty

/-- Parameters that are joined are the parameters of the joined list. -/
theorem splitParameters_joinParameters (text : List Char) :
    splitParameters (joinParameters (splitParameters text)) = splitParameters text := by
  have cut := pieces_splitParameters text
  have each (parameter : List Char) (member : parameter ∈ splitParameters text) :=
    collapsed_of_mem_splitParameters member
  generalize splitParameters text = parameters at cut each
  cases parameters with
  | nil => rfl
  | cons first later =>
      have again := (cut.of_visible_eq (visible_spacedPieces _)).cutAtCommas_intercalate
        (List.cons_ne_nil _ _)
      have collapsed : (spacedPieces (first :: later)).map collapse = first :: later := by
        obtain ⟨⟨firstCollapsed, _⟩, laterEach⟩ := List.forall_mem_cons.mp each
        have unspaced : (later.map (' ' :: ·)).map collapse = later := by
          rw [List.map_map]
          conv_rhs => rw [← List.map_id later]
          exact List.map_congr_left fun parameter member =>
            (laterEach parameter member).1.collapse_space_cons
        rw [spacedPieces, List.map_cons, firstCollapsed.collapse_eq, unspaced]
      rw [joinParameters_eq, splitParameters, again, collapsed, List.filter_eq_self]
      intro parameter member
      simpa [List.isEmpty_iff] using (each parameter member).2

end Join

/-- Behind `depth` open parentheses, the text opens and closes others but leaves
one open up to its end. -/
def Enclosed (depth : Nat) : List Char → Prop
  | [] => depth = 1
  | c :: rest =>
      if c == ')' then 2 ≤ depth ∧ Enclosed (depth - 1) rest
      else if c == '(' then Enclosed (depth + 1) rest
      else Enclosed depth rest

def parentheses (text : List Char) : List Char :=
  text.filter fun c => c == '(' || c == ')'

section Parentheses

variable {depth : Nat} {text inside after : List Char}

/-- A list that is closed was enclosed by the parenthesis. -/
theorem enclosed_of_splitAtClosing (positive : 1 ≤ depth)
    (found : splitAtClosing depth text = some (inside, after)) : Enclosed depth inside := by
  induction text generalizing depth inside with
  | nil => cases found
  | cons c text ih =>
      rw [splitAtClosing] at found
      split at found
      · rename_i closes
        split at found
        · cases found
          exact Nat.le_antisymm ‹_› positive
        · obtain ⟨⟨further, _⟩, deeper, same⟩ := Option.map_eq_some_iff.mp found
          cases same
          rw [Enclosed, if_pos closes]
          exact ⟨by omega, ih (by omega) deeper⟩
      · rename_i notClosing
        obtain ⟨⟨further, _⟩, deeper, same⟩ := Option.map_eq_some_iff.mp found
        cases same
        rw [Enclosed, if_neg notClosing]
        split
        · rename_i opens
          rw [if_pos opens] at deeper
          exact ih (by omega) deeper
        · rename_i plain
          rw [if_neg plain] at deeper
          exact ih positive deeper

theorem Enclosed.splitAtClosing_append (enclosed : Enclosed depth inside) (after : List Char) :
    splitAtClosing depth (inside ++ ')' :: after) = some (inside, after) := by
  induction inside generalizing depth with
  | nil =>
      obtain rfl : depth = 1 := enclosed
      rfl
  | cons c inside ih =>
      rw [Enclosed] at enclosed
      rw [List.cons_append, splitAtClosing]
      split at enclosed
      · rename_i closes
        have nested : ¬ depth ≤ 1 := by omega
        rw [if_pos closes, if_neg nested, ih enclosed.2]
        rfl
      · rename_i notClosing
        rw [if_neg notClosing]
        dsimp only
        split at enclosed
        · rename_i opens
          rw [if_pos opens, ih enclosed]
          rfl
        · rename_i plain
          rw [if_neg plain, ih enclosed]
          rfl

theorem enclosed_parentheses_iff (depth : Nat) (text : List Char) :
    Enclosed depth (parentheses text) ↔ Enclosed depth text := by
  induction text generalizing depth with
  | nil => exact Iff.rfl
  | cons c text ih =>
      unfold parentheses at ih ⊢
      by_cases closes : c = ')'
      · simp [Enclosed, closes, ih]
      · by_cases opens : c = '('
        · simp [Enclosed, opens, ih]
        · simp [Enclosed, closes, opens, ih]

theorem parentheses_append (front back : List Char) :
    parentheses (front ++ back) = parentheses front ++ parentheses back :=
  List.filter_append front back

theorem parentheses_visible (text : List Char) :
    parentheses (visible text) = parentheses text := by
  rw [parentheses, visible, List.filter_filter]
  refine List.filter_congr fun c _ => ?_
  cases blank : Text.isBlank c with
  | false => simp
  | true =>
      have opens : c ≠ '(' := ne_of_isBlank blank (by decide)
      have closes : c ≠ ')' := ne_of_isBlank blank (by decide)
      simp [opens, closes]

theorem parentheses_collapse (text : List Char) :
    parentheses (collapse text) = parentheses text := by
  rw [← parentheses_visible, Text.visible_collapse, parentheses_visible]

theorem parentheses_intercalate {separator : List Char} (plain : parentheses separator = [])
    (texts : List (List Char)) :
    parentheses (separator.intercalate texts) = texts.flatMap parentheses := by
  induction texts with
  | nil => rfl
  | cons first texts ih =>
      cases texts with
      | nil => simp
      | cons next later =>
          rw [List.intercalate_cons_cons, parentheses_append, parentheses_append, plain, ih,
            List.append_nil]
          rfl

theorem flatMap_parentheses_filter (texts : List (List Char)) :
    (texts.filter fun text => !text.isEmpty).flatMap parentheses = texts.flatMap parentheses := by
  induction texts with
  | nil => rfl
  | cons first texts ih =>
      cases first with
      | nil => exact ih
      | cons c first => simp [ih]

/-- The parentheses of a list are those of its parameters. -/
theorem parentheses_joinParameters (text : List Char) :
    parentheses (joinParameters (splitParameters text)) = parentheses text := by
  have collapsed : ((cutAtCommas 0 text).map collapse).flatMap parentheses =
      (cutAtCommas 0 text).flatMap parentheses := by
    simp [List.flatMap_map, parentheses_collapse]
  calc parentheses (joinParameters (splitParameters text))
      = (splitParameters text).flatMap parentheses := parentheses_intercalate rfl _
    _ = (cutAtCommas 0 text).flatMap parentheses := by
        rw [splitParameters, flatMap_parentheses_filter, collapsed]
    _ = parentheses ([','].intercalate (cutAtCommas 0 text)) :=
        (parentheses_intercalate rfl _).symm
    _ = parentheses text := by rw [(pieces_cutAtCommas 0 text).2]

/-- A list that is closed is closed in the same place when joined again. -/
theorem splitAtClosing_joinParameters (closed : splitAtClosing 1 text = some (inside, after)) :
    splitAtClosing 1 (joinParameters (splitParameters inside) ++ [')']) =
      some (joinParameters (splitParameters inside), []) := by
  have enclosed := enclosed_of_splitAtClosing (Nat.le_refl 1) closed
  rw [← enclosed_parentheses_iff, ← parentheses_joinParameters, enclosed_parentheses_iff]
    at enclosed
  exact enclosed.splitAtClosing_append []

end Parentheses

end Declaration
end CallTree
