import CallTree.Proofs.Scan.Modes
import CallTree.Source
import Mathlib.Data.List.Forall2
import Mathlib.Data.List.TakeWhile

/-!
# Masks and brace counts

One scan gives two views of a line, and one context behind it: the views are the
line's mask, and the numbers of code braces on it.  Both describe the same
braces, because nothing that is shown without being counted holds a brace: the
names of annotations do not, and a type argument list is only opened where the
text ahead closes it on the same line, with no brace in between.
-/

namespace CallTree
namespace Scan

open Mode

/-- Each character of the mask is that of the line, or a space. -/
def Masks (line mask : List Char) : Prop :=
  List.Forall₂ (fun c shown => shown = c ∨ shown = ' ') line mask

theorem masks_self (line : List Char) : Masks line line :=
  List.forall₂_same.mpr fun _ _ => .inl rfl

theorem masks_blank (line : List Char) : Masks line (List.replicate line.length ' ') := by
  induction line with
  | nil => exact .nil
  | cons c line ih => exact .cons (.inr rfl) ih

theorem Masks.getElem?_eq {raw mask : List Char} (masks : Masks raw mask) {column : Nat}
    {c : Char} (visible : c ≠ ' ') (shown : mask[column]? = some c) : raw[column]? = some c := by
  induction masks generalizing column with
  | nil => cases shown
  | cons here _ ih =>
      cases column with
      | zero =>
          rcases here with rfl | rfl
          · exact shown
          · cases shown
            exact absurd rfl visible
      | succ column => exact ih shown

theorem masks_scanFrom (rules : Rules) (before rest : List Char) (context : Context) :
    Masks rest (scanFrom rules before rest context).mask := by
  fun_induction scanFrom rules before rest context with
  | case1 => exact .nil
  | case2 before context c rest =>
      rename_i s taken ih
      have whole : c :: rest = taken ++ rest.drop s.further := by
        simp [taken]
      rw [whole]
      refine List.rel_append ?_ ih
      split
      · exact masks_self taken
      · exact masks_blank taken

/-- The characters of an annotation's name stand at the front of the text. -/
theorem take_annotationName (rest : List Char) :
    rest.take (annotationName rest).length = annotationName rest := by
  obtain ⟨behind, same⟩ := List.takeWhile_prefix (l := rest.dropWhile (· == ' '))
    fun c => Text.isWord c || c == '.' || c == '$'
  have whole : annotationName rest ++ behind = rest := by
    rw [annotationName, List.append_assoc, same, List.takeWhile_append_dropWhile]
  exact (List.prefix_iff_eq_take.mp ⟨behind, whole⟩).symm

theorem brace_not_mem_annotationName (rest : List Char) :
    '{' ∉ annotationName rest ∧ '}' ∉ annotationName rest := by
  constructor <;>
  · intro member
    rcases List.mem_append.mp member with space | part
    · exact absurd (List.mem_takeWhile_imp space) (by decide)
    · exact absurd (List.mem_takeWhile_imp part) (by decide)

/-- A type argument list that is open will be closed by the rest of the line. -/
def Mode.Closes (mode : Mode) (escaped : Bool) (rest : List Char) : Prop :=
  match mode with
  | generic inner => escaped = false ∧ closesAsTypeArguments (inner + 1) rest = true
  | _ => True

theorem ne_of_isTypeArgumentPart {c : Char}
    (part : (Text.isAlphanumeric c || typeArgumentMarks.contains c) = true) :
    c ≠ '\\' ∧ c ≠ '{' ∧ c ≠ '}' := by
  refine ⟨?_, ?_, ?_⟩ <;>
  · rintro rfl
    exact absurd part (by decide)

/-- The look ahead and the scan count angle brackets alike, and the look ahead
allows neither a backslash nor a brace. -/
theorem closes_behindTypeArgument {inner : Nat} {c : Char} {rest : List Char}
    (closes : closesAsTypeArguments (inner + 1) (c :: rest) = true) :
    (c ≠ '\\' ∧ c ≠ '{' ∧ c ≠ '}') ∧ (behindTypeArgument c inner).Closes false rest := by
  rw [closesAsTypeArguments] at closes
  by_cases opensList : c = '<'
  · subst opensList
    exact ⟨by decide, rfl, closes⟩
  · rw [if_neg (by simpa using opensList)] at closes
    by_cases closesList : c = '>'
    · subst closesList
      refine ⟨by decide, ?_⟩
      cases inner with
      | zero => trivial
      | succ inner =>
          have deeper : ¬ ((inner : Int) + 1 = 0) := by omega
          simpa [behindTypeArgument, Mode.Closes, deeper] using closes
    · rw [if_neg (by simpa using closesList)] at closes
      split at closes
      · cases closes
      · split at closes
        · rename_i part
          refine ⟨ne_of_isTypeArgumentPart part, ?_⟩
          rw [show behindTypeArgument c inner = generic inner by
            simp [behindTypeArgument, opensList, closesList]]
          exact ⟨rfl, closes⟩
        · cases closes

section Step

variable {rules : Rules} {before : List Char} {c : Char} {rest : List Char}
variable {mode next : Mode} {escaped after : Bool} {s : Step}

theorem Moves.closes (standard : rules.opensGeneric = Scan.opensGeneric)
    (moves : Moves rules before c rest mode escaped s next after)
    (closes : mode.Closes escaped (c :: rest)) : next.Closes after (rest.drop s.further) := by
  cases moves with
  | unescape =>
      cases mode with
      | generic inner => cases closes.1
      | _ => trivial
  | escape =>
      rename_i isBackslash
      cases mode with
      | generic inner => exact absurd isBackslash (closes_behindTypeArgument closes.2).1.1
      | _ => trivial
  | hide _ _ _ _ notGeneric =>
      cases next with
      | generic inner => cases notGeneric
      | _ => trivial
  | typeArgument inner => exact (closes_behindTypeArgument closes.2).2
  -- The look ahead that opens a list has read on to the bracket that closes it.
  | openGeneric isAngle judged =>
      subst isAngle
      rw [standard] at judged
      exact ⟨rfl, (Bool.and_eq_true_iff.mp judged).2⟩
  | marker => trivial
  | plain => trivial

/-- A step counts the braces that it shows. -/
theorem Moves.count_eq (moves : Moves rules before c rest mode escaped s next after)
    (closes : mode.Closes escaped (c :: rest)) :
    s.opens = (if s.shown then (c :: rest.take s.further).count '{' else 0) ∧
      s.closes = (if s.shown then (c :: rest.take s.further).count '}' else 0) := by
  cases moves with
  | unescape => exact ⟨rfl, rfl⟩
  | escape => exact ⟨rfl, rfl⟩
  | hide => exact ⟨rfl, rfl⟩
  | typeArgument inner =>
      obtain ⟨⟨_, notOpen, notClose⟩, _⟩ := closes_behindTypeArgument closes.2
      simp [notOpen, notClose]
  | openGeneric isAngle => simp [isAngle]
  | marker isAt =>
      obtain ⟨noOpen, noClose⟩ := brace_not_mem_annotationName rest
      subst isAt
      simp [take_annotationName, List.count_eq_zero.mpr noOpen, List.count_eq_zero.mpr noClose]
  | plain => simp [List.count_singleton]

/-- A mask and the counts beside it describe the same braces of a line, and no
type argument list is left open. -/
structure Agrees (line : Line) (outcome : Outcome) : Prop where
  masks : Masks line outcome.mask
  opens : outcome.mask.count '{' = outcome.opens
  closes : outcome.mask.count '}' = outcome.closes
  inGeneric : outcome.context.inGeneric = false
  genericLevel : outcome.context.genericLevel = 0

theorem Agrees.prepend {taken : List Char} {outcome : Outcome}
    (agrees : Agrees rest outcome)
    (opens : s.opens = if s.shown then taken.count '{' else 0)
    (closes : s.closes = if s.shown then taken.count '}' else 0) :
    Agrees (taken ++ rest) (outcome.prepend taken s) where
  masks := by
    refine List.rel_append ?_ agrees.masks
    split
    · exact masks_self taken
    · exact masks_blank taken
  opens := by
    rw [Outcome.prepend, List.count_append, agrees.opens, opens]
    split <;> simp [List.count_replicate]
  closes := by
    rw [Outcome.prepend, List.count_append, agrees.closes, closes]
    split <;> simp [List.count_replicate]
  inGeneric := agrees.inGeneric
  genericLevel := agrees.genericLevel

theorem agrees_carry (closes : mode.Closes escaped []) :
    Agrees [] { mask := [], opens := 0, closes := 0, context := (mode.context escaped).carry } := by
  cases mode with
  -- An open type argument list would still have to be closed.
  | generic inner => cases closes.2
  | _ => exact ⟨.nil, rfl, rfl, rfl, rfl⟩

theorem agrees_scanFrom (standard : rules.opensGeneric = Scan.opensGeneric)
    (before : List Char) (fits : mode.Fits escaped rest) (closes : mode.Closes escaped rest) :
    Agrees rest (scanFrom rules before rest (mode.context escaped)) := by
  generalize same : mode.context escaped = context
  fun_induction scanFrom rules before rest context generalizing mode escaped with
  | case1 before context =>
      rw [← same]
      exact agrees_carry closes
  | case2 before context c rest =>
      rename_i s taken ih
      subst same
      obtain ⟨next, after, moves⟩ := step_moves rules before fits
      obtain ⟨opensEq, closesEq⟩ := moves.count_eq closes
      have agrees := ih (moves.fits fits) (moves.closes standard closes) moves.context_eq.symm
      have whole : c :: rest = taken ++ rest.drop s.further := by
        simp [taken]
      rw [whole]
      exact agrees.prepend opensEq closesEq

end Step

theorem agrees_scanLine {rules : Rules} (standard : rules.opensGeneric = Scan.opensGeneric)
    (line : Line) {context : Context} (carried : Carried context)
    (closed : context.inGeneric = false) : Agrees line (scanLine rules line context) := by
  obtain ⟨mode, spans, rfl⟩ := carried
  apply agrees_scanFrom standard [] (spans.fits false line)
  cases mode with
  | generic inner => cases closed
  | _ => trivial

theorem forall₂_agrees {rules : Rules} (standard : rules.opensGeneric = Scan.opensGeneric)
    {context : Context} (carried : Carried context) (closed : context.inGeneric = false)
    (lines : List Line) : List.Forall₂ Agrees lines (scanLines rules context lines) := by
  induction lines generalizing context with
  | nil => exact .nil
  | cons line lines ih =>
      have agrees := agrees_scanLine standard line carried closed
      exact .cons agrees (ih (carried_scanLine rules line carried) agrees.inGeneric)

/-- The braces that the code lines of a text show are those that a scan of its
lines counts. -/
theorem counts_codeLines {rules : Rules} (standard : rules.opensGeneric = Scan.opensGeneric)
    (text : List Char) :
    (CodeLine.ofText rules text).map (fun line => (line.opens, line.closes)) =
      (scanLines rules .fresh (Line.ofText text)).map
        fun outcome => (outcome.opens, outcome.closes) := by
  have agree := forall₂_agrees standard carried_fresh rfl (Line.ofText text)
  rw [CodeLine.ofText]
  generalize scanLines rules .fresh (Line.ofText text) = outcomes at agree
  generalize Line.ofText text = lines at agree
  induction agree with
  | nil => rfl
  | cons agrees _ ih =>
      rw [List.zipWith_cons_cons, List.map_cons, List.map_cons, ih, CodeLine.opens,
        CodeLine.closes, agrees.opens, agrees.closes]

/-- With the standard judgement of angle brackets, the two views of every line
agree, whatever slashes are taken for: the mask keeps the line's length and its
characters in their places, shows exactly the braces that are counted, and no
type argument list is carried to the next line.  So the code lines of a text
and the net brace counts of its lines have the same braces.  A count and a mask that
start in one context leave one context. -/
theorem scan_views_agree {rules : Rules} (standard : rules.opensGeneric = Scan.opensGeneric) :
    (∀ lines, List.Forall₂ Agrees lines (scanLines rules .fresh lines)) ∧
    (∀ text,
      (CodeLine.ofText rules text).map (fun line => (line.opens, line.closes)) =
        (scanLines rules .fresh (Line.ofText text)).map
          (fun outcome => (outcome.opens, outcome.closes)) ∧
      deltas rules (Line.ofText text) =
        (CodeLine.ofText rules text).map fun line => (line.opens : Int) - line.closes) ∧
    ∀ line context,
      (codeText rules line context).2 = (countBraces rules line context).context ∧
      scanLine rules line context =
        { mask := (codeText rules line context).1
          opens := (countBraces rules line context).opens
          closes := (countBraces rules line context).closes
          context := (countBraces rules line context).context } := by
  refine ⟨forall₂_agrees standard carried_fresh rfl, fun text => ?_, scanLine_eq_views rules⟩
  have counts := counts_codeLines standard text
  have differences := congrArg
    (List.map fun pair : Nat × Nat => (pair.1 : Int) - pair.2) counts.symm
  rw [List.map_map, List.map_map] at differences
  exact ⟨counts, differences⟩

/-- A method with type arguments, an annotation, and braces that are no code. -/
def hiddenBracesText : List Char :=
  "@Test Map<K, List<V>> m(\x7b) \x7b // \x7b\nput(\"\x7d\", '\x7b'); /* \x7d */\n\x7d \x7d".toList

theorem hiddenBraces_views_agree :
    deltas { detectPatterns := false } (Line.ofText hiddenBracesText) = [2, 0, -2] ∧
    (CodeLine.ofText { detectPatterns := false } hiddenBracesText).map
        (fun line => (line.opens : Int) - line.closes) = [2, 0, -2] := by
  have counted : deltas { detectPatterns := false } (Line.ofText hiddenBracesText) =
      [2, 0, -2] := by
    decide +kernel
  exact ⟨counted, ((scan_views_agree rfl).2.1 hiddenBracesText).2.symm.trans counted⟩

end Scan
end CallTree
