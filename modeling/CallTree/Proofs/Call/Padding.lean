import CallTree.Proofs.Call.Detection
import CallTree.Proofs.Call.Masked

/-!
# Cut and padded bodies

The first line of a body may start with the end of a signature.  When calls are
listed this part is cut off; when a call is looked for it is replaced by spaces.
Blanks in front of a line belong to no call and to no word of one, and do not
decide whether the line is a comment.  So both ways read the same calls.
-/

namespace CallTree

theorem Line.isComment_blank_cons {c : Char} (blank : Text.isBlank c = true) (line : Line) :
    isComment (c :: line) = isComment line := by
  rw [isComment, isComment, Text.trim, Text.trim, Text.dropBlanks, Text.dropBlanks,
    List.dropWhile_cons_of_pos blank]

namespace CallSite

/-- What is found at the places of a line depends on the text before the line only
as far as a search looks at it. -/
theorem filterMap_positions_congr {α : Type} {search : List Char × List Char → Option α}
    {before other : List Char}
    (same : ∀ taken rest, search (taken ++ before, rest) = search (taken ++ other, rest))
    (line : Line) :
    (positions before line).filterMap search = (positions other line).filterMap search := by
  induction line generalizing before other with
  | nil =>
      have here : search (before, []) = search (other, []) := same [] []
      rw [positions, positions, List.filterMap_cons, List.filterMap_cons, here]
  | cons c line ih =>
      have here : search (before, c :: line) = search (other, c :: line) := same [] (c :: line)
      have later := @ih (c :: before) (c :: other) fun taken rest => by
        simpa using same (taken ++ [c]) rest
      rw [positions, positions, List.filterMap_cons, List.filterMap_cons, here, later]

/-- A search that finds nothing at a character and does not look behind it finds the
same with that character in front of the line. -/
theorem filterMap_positions_cons {α : Type} {search : List Char × List Char → Option α}
    {c : Char} (nothing : ∀ line, search ([], c :: line) = none)
    (apart : ∀ taken rest, search (taken ++ [c], rest) = search (taken, rest)) (line : Line) :
    (positions [] (c :: line)).filterMap search = (positions [] line).filterMap search := by
  rw [positions, List.filterMap_cons_none (nothing line)]
  exact filterMap_positions_congr (fun taken rest => by rw [apart, List.append_nil]) line

section Blank

variable {c : Char} (blank : Text.isBlank c = true)

include blank

theorem takeWhile_isWord_append_blank (taken : List Char) :
    (taken ++ [c]).takeWhile Text.isWord = taken.takeWhile Text.isWord := by
  have other := Text.isWord_eq_false_of_isBlank blank
  induction taken with
  | nil => simp [other]
  | cons d taken ih => rw [List.cons_append, List.takeWhile_cons, List.takeWhile_cons, ih]

theorem followsWord_append_blank (taken : List Char) :
    followsWord (taken ++ [c]) = followsWord taken := by
  have other := Text.isWord_eq_false_of_isBlank blank
  cases taken with
  | nil => simp [followsWord, other]
  | cons d taken => rfl

theorem calledWord?_blank_cons (line : Line) : calledWord? (c :: line) = none := by
  have other := Text.isWord_eq_false_of_isBlank blank
  simp [calledWord?, other]

theorem qualifiedCall?_blank_cons (line : Line) : qualifiedCall? (c :: line) = none := by
  have other := Text.isWord_eq_false_of_isBlank blank
  simp only [qualifiedCall?, List.takeWhile_cons, other]
  split <;> simp

theorem construction?_blank_cons (line : Line) : construction? (c :: line) = none := by
  rw [construction?]
  intro d rest same
  rw [(List.cons.inj same).1] at blank
  exact absurd blank (by decide)

theorem onLine_blank_cons (line : Line) (number : Int) :
    onLine (c :: line) number = onLine line number := by
  have qualified : qualifiedCalls (c :: line) = qualifiedCalls line := by
    rw [qualifiedCalls, qualifiedCalls, filterMap_positions_cons]
    · intro line
      simp only [qualifiedCall?_blank_cons blank, ite_self]
    · intro taken rest
      simp only [followsWord_append_blank blank]
  have classes : classCalls (c :: line) = classCalls line := by
    rw [classCalls, classCalls, filterMap_positions_cons]
    · intro line
      simp only [qualifiedCall?_blank_cons blank, ite_self]
    · intro taken rest
      simp only [takeWhile_isWord_append_blank blank]
  have bare : bareCalls (c :: line) = bareCalls line := by
    rw [bareCalls, bareCalls, filterMap_positions_cons]
    · intro line
      simp only [calledWord?_blank_cons blank, ite_self]
    · intro taken rest
      simp only [followsWord_append_blank blank]
  have constructed : constructions (c :: line) = constructions line := by
    rw [constructions, constructions, filterMap_positions_cons]
    · intro line
      simp only [construction?_blank_cons blank, ite_self]
    · intro taken rest
      simp only [followsWord_append_blank blank]
  rw [onLine, onLine, qualified, classes, bare, constructed]

end Blank

/-- Spaces in front of a line make no difference. -/
theorem onLine_padded (count : Nat) (line : Line) :
    Line.isComment (List.replicate count ' ' ++ line) = Line.isComment line ∧
      ∀ number, onLine (List.replicate count ' ' ++ line) number = onLine line number := by
  have space : Text.isBlank ' ' = true := by decide
  induction count with
  | zero => exact ⟨rfl, fun _ => rfl⟩
  | succ count ih =>
      rw [List.replicate_succ, List.cons_append]
      refine ⟨(Line.isComment_blank_cons space _).trans ih.1, fun number => ?_⟩
      rw [onLine_blank_cons space, ih.2]

/-- The call, that many lines further down. -/
def lower (count : Int) (site : CallSite) : CallSite :=
  { site with line := site.line + count }

theorem onLine_lower (line : Line) (number count : Int) :
    onLine line (number + count) = (onLine line number).map (lower count) := by
  simp only [onLine, List.map_append, List.map_map]
  rfl

theorem onLines_lower (index count : Nat) (lines : List Line) :
    onLines (index + count) lines = (onLines index lines).map (lower count) := by
  induction lines generalizing index with
  | nil => rfl
  | cons line lines ih =>
      have number : ((index + count : Nat) : Int) + 1 = ((index : Int) + 1) + count := by omega
      rw [onLines, onLines, List.map_append, number, onLine_lower, Nat.add_right_comm, ih]
      split <;> rfl

end CallSite

namespace Extent

open CallSite

/-- The calls listed for a body, whose first line is cut, are the calls on the
lines of the body, whose first line is padded: in the same order, and lowered to
the line of the file where the body starts.  No line that is cut and padded has
other calls than the cut line, and none becomes a comment or stops being one. -/
theorem between_eq_between_bodyLines (rules : Scan.Rules) (lines : List Line) (start : Nat)
    (name : Option String) {extent : Extent} {body : BodyStart}
    (resolved : ofLines rules lines start name = extent) (found : extent.body = some body) :
    between lines body.line (some extent.last) body.column =
      (between (extent.bodyLines lines) 0 none 0).map (CallSite.lower body.line) ∧
    ∀ line : Line,
      let cut := Text.sliceFrom line body.column
      let padded := List.replicate body.column.toNat ' ' ++ cut
      Line.isComment padded = Line.isComment cut ∧
        ∀ number, onLine padded number = onLine cut number := by
  refine ⟨?_, fun line => onLine_padded _ _⟩
  subst resolved
  obtain ⟨line, column, last, rfl, lastEq⟩ := exists_nat_of_ofMasks found
  have stretch : Text.slice lines line ((last : Int) + 1) = (lines.take (last + 1)).drop line :=
    Text.slice_natCast lines line (last + 1)
  have lastLine : (ofLines rules lines start name).last = last := lastEq
  rw [lastLine, between_natCast, CallForm.between_all, bodyLines, found]
  dsimp only
  rw [lastLine, stretch]
  cases (lines.take (last + 1)).drop line with
  | nil => rfl
  | cons first rest =>
      dsimp only
      rw [Text.sliceFrom_natCast, Int.toNat_natCast, ← onLines_lower, Nat.zero_add, onLines,
        onLines]
      obtain ⟨sameComment, sameCalls⟩ := onLine_padded (column + 1) (first.drop (column + 1))
      rw [sameComment, sameCalls]

/-- A method whose first call stands on the line of its signature. -/
def trailingLines : List Line :=
  ["class A \x7b".toList, " void f(int x) \x7b g(x);".toList, "  // h(x);".toList,
    "  new Box(x).k(); \x7d".toList]

def trailingExtent : Extent where
  start := 1
  last := 3
  body := some { line := 1, column := 16 }

theorem trailingLines_calls :
    ofLines {} trailingLines 1 (some "f") = trailingExtent ∧
    between trailingLines 1 (some 3) 16 =
      (between (trailingExtent.bodyLines trailingLines) 0 none 0).map (CallSite.lower 1) := by
  have resolved : ofLines {} trailingLines 1 (some "f") = trailingExtent := by decide +kernel
  exact ⟨resolved, (between_eq_between_bodyLines {} trailingLines 1 (some "f") resolved rfl).1⟩

end Extent
end CallTree
