import CallTree.Proofs.Extent.Search

/-!
# Extents and matching braces

The last line of an extent is found by counting whole lines, while braces match
character by character.  Both counts start at the brace of the body.  The depth
changes by one at a time, so up to the matching brace every line ends inside the
body, and the extent reaches the line of that brace.  It ends there unless the
same line opens as many braces again.
-/

namespace CallTree
namespace Extent

/-- The braces opened in a text less those closed in it. -/
def net (text : List Char) : Int :=
  (text.count '{' : Int) - text.count '}'

theorem netFrom_eq (mask : Line) (column : Nat) : netFrom mask column = net (mask.drop column) :=
  rfl

@[simp]
theorem net_nil : net [] = 0 :=
  rfl

theorem net_append (front text : List Char) : net (front ++ text) = net front + net text := by
  simp only [net, List.count_append]
  omega

theorem net_brace_cons (text : List Char) : net ('{' :: text) = 1 + net text := by
  rw [← List.singleton_append, net_append]
  rfl

theorem net_singleton_ge (c : Char) : -1 ≤ net [c] := by
  have closed : [c].count '}' ≤ 1 := List.count_le_length
  simp only [net]
  omega

theorem eq_close_of_net_neg {c : Char} (negative : net [c] < 0) : c = '}' := by
  by_contra other
  have closed : [c].count '}' = 0 := List.count_eq_zero.mpr (by simpa using Ne.symm other)
  simp only [net] at negative
  omega

/-- The depth behind the first `count` characters of a line. -/
def depthAt (lines : List Line) (line count : Nat) : Int :=
  net ((lines.take line).flatten ++ (lines.getD line []).take count)

/-- The depth at the end of a line. -/
def depthBehind (lines : List Line) (line : Nat) : Int :=
  net (lines.take (line + 1)).flatten

section Depth

variable (first : Line) (later : List Line) (line count : Nat)

theorem depthAt_zero : depthAt (first :: later) 0 count = net (first.take count) :=
  rfl

theorem depthAt_succ :
    depthAt (first :: later) (line + 1) count = net first + depthAt later line count := by
  simp [depthAt, net_append]

theorem depthAt_succ_zero (lines : List Line) :
    depthAt lines (line + 1) 0 = depthBehind lines line := by
  simp [depthAt, depthBehind]

theorem depthBehind_cons :
    depthBehind (first :: later) line = net first + net (later.take line).flatten := by
  simp [depthBehind, net_append]

end Depth

theorem net_take_succ {text : List Char} {count : Nat} (inside : count < text.length) :
    net (text.take (count + 1)) = net (text.take count) + net [text[count]] := by
  rw [List.take_succ_eq_append_getElem inside, net_append]

theorem depthAt_step {lines : List Line} {line count : Nat}
    (inside : count < (lines.getD line []).length) :
    depthAt lines line (count + 1) =
      depthAt lines line count + net [(lines.getD line [])[count]] := by
  simp only [depthAt, net_append, net_take_succ inside]
  omega

/-- The depth stays positive for as long as it does not reach zero. -/
theorem net_take_pos {text : List Char} {depth : Int} {count : Nat} (positive : 1 ≤ depth)
    (unclosed : ∀ i < count, i < text.length → depth + net (text.take (i + 1)) ≠ 0) :
    1 ≤ depth + net (text.take count) := by
  induction count with
  | zero => simpa using positive
  | succ count ih =>
      have before := ih fun i bound => unclosed i (by omega)
      by_cases inside : count < text.length
      · have nonzero := unclosed count (by omega) inside
        have step := net_singleton_ge text[count]
        rw [net_take_succ inside] at nonzero ⊢
        omega
      · have whole : text.take (count + 1) = text.take count := by
          rw [List.take_of_length_le (by omega), List.take_of_length_le (by omega)]
        rw [whole]
        exact before

theorem net_pos {text : List Char} {depth : Int} (positive : 1 ≤ depth)
    (unclosed : ∀ i < text.length, depth + net (text.take (i + 1)) ≠ 0) :
    1 ≤ depth + net text := by
  have whole : 1 ≤ depth + net (text.take text.length) :=
    net_take_pos positive fun i bound _ => unclosed i bound
  rwa [List.take_length] at whole

theorem depthAt_pos {lines : List Line} {depth : Int} {line count : Nat} (positive : 1 ≤ depth)
    (unclosed : ∀ i j, j < (lines.getD i []).length → i < line ∨ i = line ∧ j < count →
      depth + depthAt lines i (j + 1) ≠ 0) :
    1 ≤ depth + depthAt lines line count := by
  induction lines generalizing depth line with
  | nil => simpa [depthAt] using positive
  | cons first later ih =>
      cases line with
      | zero =>
          refine net_take_pos positive fun j bound inside => ?_
          exact unclosed 0 j inside (.inr ⟨rfl, bound⟩)
      | succ line =>
          have behindFirst : 1 ≤ depth + net first :=
            net_pos positive fun j inside => unclosed 0 j inside (.inl (by omega))
          have behindLine : 1 ≤ depth + net first + depthAt later line count := by
            refine ih behindFirst fun i j inside before => ?_
            have nonzero := unclosed (i + 1) j inside (by omega)
            rw [depthAt_succ] at nonzero
            omega
          rw [depthAt_succ]
          omega

/-- No brace matches the one that the lines start with. -/
def Unmatched (lines : List Line) : Prop :=
  ∀ i j, j < (lines.getD i []).length → depthAt lines i (j + 1) ≠ 0

/-- The depth is back at zero behind this character, and nowhere before. -/
structure IsMatching (lines : List Line) (line column : Nat) : Prop where
  inside : column < (lines.getD line []).length
  closed : depthAt lines line (column + 1) = 0
  first : ∀ i j, j < (lines.getD i []).length → i < line ∨ i = line ∧ j < column →
    depthAt lines i (j + 1) ≠ 0

section Brace

variable {text : List Char} {later : List Line} {line column : Nat}

/-- Behind the opening brace, the depth is positive up to the first zero. -/
theorem depthAt_pos_of_brace (behind : 0 < line ∨ 0 < column)
    (unclosed : ∀ i j, j < ((('{' :: text) :: later).getD i []).length →
      i < line ∨ i = line ∧ j < column → depthAt (('{' :: text) :: later) i (j + 1) ≠ 0) :
    1 ≤ depthAt (('{' :: text) :: later) line column := by
  -- One brace is open behind the first character, from where the count goes on.
  have onFirst (count : Nat) (before : 0 < line ∨ count < column) :
      1 ≤ 1 + net (text.take count) := by
    refine net_take_pos (Int.le_refl 1) fun j bound inside => ?_
    have nonzero := unclosed 0 (j + 1) (Nat.succ_lt_succ inside) (by omega)
    rwa [depthAt_zero, List.take_succ_cons, net_brace_cons] at nonzero
  cases line with
  | zero =>
      obtain ⟨count, rfl⟩ : ∃ count, column = count + 1 := ⟨column - 1, by omega⟩
      rw [depthAt_zero, List.take_succ_cons, net_brace_cons]
      exact onFirst count (by omega)
  | succ line =>
      have firstLine : 1 ≤ net ('{' :: text) := by
        have whole := onFirst text.length (by omega)
        rwa [List.take_length, ← net_brace_cons] at whole
      rw [depthAt_succ]
      refine depthAt_pos firstLine fun i j inside before => ?_
      have nonzero := unclosed (i + 1) j inside (by omega)
      rwa [depthAt_succ] at nonzero

theorem Unmatched.depthBehind_pos (unmatched : Unmatched (('{' :: text) :: later)) (line : Nat) :
    1 ≤ depthBehind (('{' :: text) :: later) line := by
  rw [← depthAt_succ_zero]
  exact depthAt_pos_of_brace (.inl (by omega)) fun i j inside _ => unmatched i j inside

theorem IsMatching.depthBehind_pos (matching : IsMatching (('{' :: text) :: later) line column)
    {earlier : Nat} (before : earlier < line) :
    1 ≤ depthBehind (('{' :: text) :: later) earlier := by
  rw [← depthAt_succ_zero]
  exact depthAt_pos_of_brace (.inl (by omega)) fun i j inside _ =>
    matching.first i j inside (by omega)

theorem IsMatching.line_lt {lines : List Line} (matching : IsMatching lines line column) :
    line < lines.length := by
  by_contra beyond
  have inside := matching.inside
  rw [List.getD_eq_getElem?_getD, List.getElem?_eq_none (by omega)] at inside
  cases inside

/-- The matching brace closes. -/
theorem IsMatching.getElem?_eq (matching : IsMatching (('{' :: text) :: later) line column) :
    ((('{' :: text) :: later).getD line [])[column]? = some '}' := by
  have behind : 0 < line ∨ 0 < column := by
    by_contra atStart
    obtain ⟨rfl, rfl⟩ : line = 0 ∧ column = 0 := by omega
    have closed := matching.closed
    rw [depthAt_zero, List.take_succ_cons, net_brace_cons] at closed
    simp at closed
  have positive := depthAt_pos_of_brace behind matching.first
  have closed := matching.closed
  rw [depthAt_step matching.inside] at closed
  rw [List.getElem?_eq_getElem matching.inside]
  exact congrArg some (eq_close_of_net_neg (by omega))

end Brace

/-- The line is the first one that ends outside the body, or the last of all. -/
structure EndsOn (lines : List Line) (last : Nat) : Prop where
  inside : last < lines.length
  unclosed : ∀ i < last, 1 ≤ depthBehind lines i
  closed : depthBehind lines last ≤ 0 ∨ last + 1 = lines.length

theorem exists_closingLine {depth : Int} (positive : 1 ≤ depth) (index : Nat)
    (masks : List Line) :
    ∃ span ≤ masks.length,
      (closingLine? depth (index + 1) masks).getD (index + masks.length) = index + span ∧
      (∀ i < span, 1 ≤ depth + net (masks.take i).flatten) ∧
      (depth + net (masks.take span).flatten ≤ 0 ∨ span = masks.length) := by
  induction masks generalizing depth index with
  | nil => exact ⟨0, Nat.le_refl 0, rfl, nofun, .inr rfl⟩
  | cons mask masks ih =>
      rw [closingLine?, netFrom_eq, List.drop_zero]
      split
      · rename_i closed
        refine ⟨1, by simp, rfl, ?_, .inl (by simpa using closed)⟩
        intro i bound
        obtain rfl : i = 0 := by omega
        simpa using positive
      · rename_i inside
        have deeper : 1 ≤ depth + net mask := by omega
        obtain ⟨span, bound, value, unclosed, closed⟩ := ih deeper (index + 1)
        refine ⟨span + 1, Nat.succ_le_succ bound, ?_, ?_, ?_⟩
        · have total : index + (mask :: masks).length = index + 1 + masks.length := by
            rw [List.length_cons]
            omega
          rw [total, value]
          omega
        · intro i before
          cases i with
          | zero => simpa using positive
          | succ i =>
              have further := unclosed i (by omega)
              rw [List.take_succ_cons, List.flatten_cons, net_append]
              omega
        · rw [List.take_succ_cons, List.flatten_cons, net_append, List.length_cons]
          omega

@[simp]
theorem start_ofMasks (start index : Nat) (search : Search) (masks : List Line) :
    (ofMasks start search index masks).start = start := by
  induction masks generalizing search index with
  | nil => rfl
  | cons mask masks ih =>
      rw [ofMasks]
      cases search.advance mask with
      | inl next => exact ih (index + 1) next
      | inr column =>
          dsimp only
          split <;> rfl

/-- A body that is found starts with a brace, and the extent ends where counting
from that brace ends. -/
theorem endsOn_of_ofMasks {start index : Nat} {search : Search} {masks : List Line}
    {body : BodyStart} (found : (ofMasks start search index masks).body = some body) :
    ∃ (skipped column span : Nat) (mask : Line) (later : List Line),
      body = ⟨(index + skipped : Nat), (column : Int) + 1⟩ ∧
      masks.drop skipped = mask :: later ∧ mask[column]? = some '{' ∧
      (ofMasks start search index masks).last = (index + skipped + span : Nat) ∧
      EndsOn (mask.drop column :: later) span := by
  induction masks generalizing search index with
  | nil => cases found
  | cons mask masks ih =>
      rw [ofMasks] at found ⊢
      cases advanced : search.advance mask with
      | inl next =>
          simp only [advanced] at found ⊢
          obtain ⟨skipped, column, span, holder, later, bodyEq, dropped, brace, lastEq, ends⟩ :=
            ih found
          refine ⟨skipped + 1, column, span, holder, later, ?_, dropped, brace, ?_, ends⟩
          · rw [bodyEq, Nat.add_right_comm, Nat.add_assoc]
          · rw [lastEq]
            congr 1
            omega
      | inr column =>
          simp only [advanced] at found ⊢
          have brace := getElem?_of_advance advanced
          split at found
          · rename_i closed
            cases found
            rw [if_pos closed]
            refine ⟨0, column, 0, mask, masks, rfl, rfl, brace, rfl, ?_⟩
            refine ⟨by simp, fun i before => absurd before (Nat.not_lt_zero i), .inl ?_⟩
            rw [depthBehind_cons]
            simpa [netFrom_eq] using closed
          · rename_i inside
            cases found
            rw [if_neg inside]
            rw [netFrom_eq] at inside
            have stillOpen : 1 ≤ net (mask.drop column) := by omega
            obtain ⟨span, bound, value, unclosed, closed⟩ :=
              exists_closingLine stillOpen index masks
            refine ⟨0, column, span, mask, masks, rfl, rfl, brace, ?_, ?_⟩
            · rw [netFrom_eq, value]
              rfl
            · refine ⟨by rw [List.length_cons]; omega, ?_, ?_⟩
              · intro i before
                rw [depthBehind_cons]
                exact unclosed i before
              · rw [depthBehind_cons, List.length_cons]
                omega

section EndsOn

variable {text : List Char} {later : List Line} {last line column : Nat}

theorem EndsOn.of_unmatched (ends : EndsOn (('{' :: text) :: later) last)
    (unmatched : Unmatched (('{' :: text) :: later)) : last + 1 = later.length + 1 := by
  have inside := unmatched.depthBehind_pos last
  exact ends.closed.resolve_left (by omega)

theorem EndsOn.le_of_matching (ends : EndsOn (('{' :: text) :: later) last)
    (matching : IsMatching (('{' :: text) :: later) line column) : line ≤ last := by
  by_contra before
  have inside : 1 ≤ depthBehind (('{' :: text) :: later) last :=
    matching.depthBehind_pos (by omega)
  have bound := matching.line_lt
  have atEnd := ends.closed.resolve_left (by omega)
  omega

theorem EndsOn.eq_iff (ends : EndsOn (('{' :: text) :: later) last)
    (matching : IsMatching (('{' :: text) :: later) line column) :
    last = line ↔ depthBehind (('{' :: text) :: later) line ≤ 0 ∨ line = later.length := by
  have reached := ends.le_of_matching matching
  constructor
  · rintro rfl
    have closed := ends.closed
    rw [List.length_cons] at closed
    omega
  · rintro (closed | atEnd)
    · by_contra other
      have inside := ends.unclosed line (by omega)
      omega
    · have bound := ends.inside
      rw [List.length_cons] at bound
      omega

end EndsOn

theorem length_scanLines (rules : Scan.Rules) (context : Scan.Context) (lines : List Line) :
    (Scan.scanLines rules context lines).length = lines.length := by
  induction lines generalizing context with
  | nil => rfl
  | cons line lines ih => simp [Scan.scanLines, ih]

/-- Where a body is found, it starts behind a brace of the masks, and the extent
fits the braces from that one on.  An unmatched brace takes the extent to the
last line.  A matched one takes it at least to the line of its match; all lines
before the last end inside the body, and the last one does not unless no line
follows.  So the extent ends with the matching brace exactly when that line ends
outside the body or is the last of all. -/
theorem ofLines_matches_braces (rules : Scan.Rules) (lines : List Line) (start : Nat)
    (name : Option String) (within : start < lines.length) {body : BodyStart}
    (found : (ofLines rules lines start name).body = some body) :
    ∃ (b column last : Nat) (mask : Line) (later text : List Line),
      body = ⟨b, (column : Int) + 1⟩ ∧
      ((Scan.scanLines rules .fresh (lines.drop start)).map Scan.Outcome.mask).drop (b - start) =
        mask :: later ∧
      mask[column]? = some '{' ∧
      (ofLines rules lines start name).start = start ∧
      (ofLines rules lines start name).last = last ∧
      start ≤ b ∧ b ≤ last ∧ last ≤ lines.length - 1 ∧
      text = mask.drop column :: later ∧
      (Unmatched text → last = lines.length - 1) ∧
      ∀ offset place, IsMatching text offset place →
        (text.getD offset [])[place]? = some '}' ∧
        b + offset ≤ last ∧
        (∀ i, b ≤ i → i < last → 1 ≤ depthBehind text (i - b)) ∧
        (depthBehind text (last - b) ≤ 0 ∨ last = lines.length - 1) ∧
        (last = b + offset ↔ depthBehind text offset ≤ 0 ∨ b + offset = lines.length - 1) := by
  simp only [ofLines] at found ⊢
  obtain ⟨skipped, column, span, mask, later, bodyEq, dropped, brace, lastEq, ends⟩ :=
    endsOn_of_ofMasks found
  have total : lines.length = start + skipped + (later.length + 1) := by
    have lengths := congrArg List.length dropped
    rw [List.length_drop, List.length_map, length_scanLines, List.length_drop,
      List.length_cons] at lengths
    omega
  obtain ⟨text, textEq⟩ : ∃ text, mask.drop column = '{' :: text := by
    obtain ⟨inside, isBrace⟩ := List.getElem?_eq_some_iff.mp brace
    exact ⟨mask.drop (column + 1), by rw [List.drop_eq_getElem_cons inside, isBrace]⟩
  have bound := ends.inside
  rw [textEq] at ends
  rw [List.length_cons] at bound
  refine ⟨start + skipped, column, start + skipped + span, mask, later, ('{' :: text) :: later,
    bodyEq, ?_, brace, start_ofMasks _ _ _ _, lastEq, by omega, by omega, by omega, ?_, ?_, ?_⟩
  · rwa [Nat.add_sub_cancel_left]
  · rw [textEq]
  · intro unmatched
    have atEnd := ends.of_unmatched unmatched
    omega
  · intro offset place matching
    have reached := ends.le_of_matching matching
    have same := ends.eq_iff matching
    have closed := ends.closed
    rw [List.length_cons] at closed
    refine ⟨matching.getElem?_eq, by omega, ?_, ?_, ?_⟩
    · intro i behind before
      exact ends.unclosed (i - (start + skipped)) (by omega)
    · rw [Nat.add_sub_cancel_left]
      omega
    · rw [Nat.add_left_cancel_iff, same]
      omega

/-- A line that closes the body and opens it again, and one that closes more
than is open. -/
def reopenedLines : List Line :=
  ["void f() \x7b".toList, "\x7d else \x7b".toList, "\x7d \x7d g \x7b".toList, "h".toList]

/-- The brace of the second line matches, but that line ends inside the body. -/
theorem reopenedLines_match_braces :
    (ofLines {} reopenedLines 0 none).body = some ⟨0, 10⟩ ∧
      IsMatching ("\x7b".toList :: reopenedLines.tail) 1 0 ∧
      (ofLines {} reopenedLines 0 none).last = 2 ∧
      1 ≤ depthBehind ("\x7b".toList :: reopenedLines.tail) 1 ∧
      depthBehind ("\x7b".toList :: reopenedLines.tail) 2 ≤ 0 := by
  have found : (ofLines {} reopenedLines 0 none).body = some ⟨0, 10⟩ := by
    decide +kernel
  have matching : IsMatching ("\x7b".toList :: reopenedLines.tail) 1 0 := by
    refine ⟨by decide, by decide, ?_⟩
    intro i j inside before
    obtain rfl : i = 0 := by omega
    obtain rfl : j = 0 := Nat.lt_one_iff.mp inside
    decide
  have lastIs : (ofLines {} reopenedLines 0 none).last = 2 := by
    decide +kernel
  obtain ⟨b, column, last, mask, later, text, bodyEq, masks, _, _, lastEq, _, _, _, textEq, _,
    fits⟩ := ofLines_matches_braces {} reopenedLines 0 none (by decide) found
  have lineEq := congrArg BodyStart.line bodyEq
  have columnEq := congrArg BodyStart.column bodyEq
  dsimp only at lineEq columnEq
  obtain ⟨rfl, rfl, rfl⟩ : b = 0 ∧ column = 9 ∧ last = 2 := by omega
  have masksIs : ((Scan.scanLines {} .fresh (reopenedLines.drop 0)).map Scan.Outcome.mask).drop
      (0 - 0) = reopenedLines := by
    decide +kernel
  obtain ⟨rfl, rfl⟩ := List.cons.inj (masks.symm.trans masksIs)
  obtain rfl : text = "\x7b".toList :: reopenedLines.tail := textEq
  obtain ⟨_, _, inside, closed, _⟩ := fits 1 0 matching
  exact ⟨found, matching, lastIs, inside 1 (by decide) (by decide),
    closed.resolve_right (by decide)⟩

end Extent
end CallTree
