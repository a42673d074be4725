import CallTree.Proofs.Declaration.RoundTrip
import CallTree.Proofs.Declaration.Signatures
import CallTree.Proofs.Text.Parts
import CallTree.Source

/-!
# The layout of signatures

A signature may be spread over lines.  Its first line is trimmed and looked at on
its own, and the lines below are added until the body starts.  When all its lines
are merged to one, with single spaces, the same declaration is read from it: what
is read depends on the collapsed code, and how far a signature has come depends
on its visible characters.
-/

namespace CallTree
namespace Declaration

open Text (visible collapse StartsBlank)

section Progress

theorem Progress.afterParameters_visible (text : List Char) :
    Progress.afterParameters (visible text) = Progress.afterParameters text := by
  induction text with
  | nil => rfl
  | cons c text ih =>
      rw [Text.visible_cons]
      split
      · rename_i blank
        have brace : c ≠ '{' := ne_of_isBlank blank (by decide)
        have ends : c ≠ ';' ∧ c ≠ '=' :=
          ⟨ne_of_isBlank blank (by decide), ne_of_isBlank blank (by decide)⟩
        rw [ih, Progress.afterParameters]
        simp [brace, ends]
      · rw [Progress.afterParameters, Progress.afterParameters, ih]

theorem splitAtClosing_visible (depth : Nat) (text : List Char) :
    splitAtClosing depth (visible text) =
      (splitAtClosing depth text).map (Prod.map visible visible) := by
  induction text generalizing depth with
  | nil => rfl
  | cons c text ih =>
      rw [Text.visible_cons, splitAtClosing]
      split
      · rename_i blank
        have opens : c ≠ '(' := ne_of_isBlank blank (by decide)
        have closes : c ≠ ')' := ne_of_isBlank blank (by decide)
        rw [ih, if_neg (by simpa using closes)]
        simp only [beq_iff_eq, opens, if_false]
        cases splitAtClosing depth text with
        | none => rfl
        | some parts => simp [Text.visible_cons, blank, Prod.map]
      · rename_i shown
        rw [splitAtClosing]
        split
        · split
          · rfl
          · rw [ih]
            cases splitAtClosing (depth - 1) text with
            | none => rfl
            | some parts => simp [Text.visible_cons, shown]
        · dsimp only
          rw [ih]
          cases splitAtClosing (if (c == '(') = true then depth + 1 else depth) text with
          | none => rfl
          | some parts => simp [Text.visible_cons, shown]

theorem hidden_or_ne_parenthesis :
    (fun c => !(!Text.isBlank c) || c != '(') = (· != '(') := by
  funext c
  cases blank : Text.isBlank c with
  | false => simp
  | true =>
      have other : c ≠ '(' := ne_of_isBlank blank (by decide)
      simp [other]

theorem takeWhile_visible (text : List Char) :
    (visible text).takeWhile (· != '(') = visible (text.takeWhile (· != '(')) := by
  rw [visible, List.takeWhile_filter, hidden_or_ne_parenthesis, visible]

/-- The visible characters have the next parenthesis where the text has it. -/
theorem dropWhile_visible_cases (text : List Char) :
    (text.dropWhile (· != '(') = [] ∧ (visible text).dropWhile (· != '(') = []) ∨
      ∃ inside, text.dropWhile (· != '(') = '(' :: inside ∧
        (visible text).dropWhile (· != '(') = '(' :: visible inside := by
  have shown : (visible text).dropWhile (· != '(') = visible (text.dropWhile (· != '(')) := by
    rw [visible, List.dropWhile_filter, hidden_or_ne_parenthesis, visible]
  have opens := List.head?_dropWhile_not (· != '(') text
  rw [shown]
  cases following : text.dropWhile (· != '(') with
  | nil => exact .inl ⟨rfl, rfl⟩
  | cons c inside =>
      rw [following] at opens
      obtain rfl : c = '(' := by simpa using opens
      exact .inr ⟨inside, rfl, rfl⟩

theorem any_visible {p : Char → Bool} (shown : ∀ c, p c = true → Text.isBlank c = false)
    (text : List Char) : (visible text).any p = text.any p := by
  rw [visible, List.any_filter]
  congr 1
  funext c
  cases holds : p c with
  | false => simp
  | true => simp [shown c holds]

theorem isBlank_eq_false_of_interruptsSignature (c : Char)
    (interrupts : interruptsSignature c = true) : Text.isBlank c = false := by
  simp only [interruptsSignature, Bool.or_eq_true, beq_iff_eq] at interrupts
  rcases interrupts with ((rfl | rfl) | rfl) | rfl <;> decide

theorem Progress.closeList_visible (text : List Char) :
    Progress.closeList (visible text) = (Progress.closeList text).map id visible := by
  rw [Progress.closeList, Progress.closeList, splitAtClosing_visible]
  cases splitAtClosing 1 text with
  | none => rfl
  | some parts =>
      obtain ⟨inside, rest⟩ := parts
      have ends : ∀ c, (c == '{' || c == ';') = true → Text.isBlank c = false := by
        intro c marked
        simp only [Bool.or_eq_true, beq_iff_eq] at marked
        rcases marked with rfl | rfl <;> decide
      simp only [Option.map_some, Prod.map_apply, takeWhile_visible, any_visible ends,
        any_visible isBlank_eq_false_of_interruptsSignature, Progress.afterParameters_visible]
      rcases dropWhile_visible_cases rest with ⟨missing, hidden⟩ | ⟨next, opened, shown⟩
      · rw [missing, hidden]
        rfl
      · rw [opened, shown]
        dsimp only
        split
        · rfl
        · split
          · rfl
          · rfl

theorem Progress.inParentheses_of_inl {text : List Char} {progress : Progress}
    (found : Progress.closeList text = .inl progress) :
    Progress.inParentheses text = progress := by
  rw [Progress.inParentheses]
  split
  · rename_i other same
    rw [found] at same
    exact (Sum.inl.inj same).symm
  · rename_i further
    rw [found] at further
    cases further

theorem Progress.inParentheses_of_inr {text inside : List Char}
    (found : Progress.closeList text = .inr inside) :
    Progress.inParentheses text = Progress.inParentheses inside := by
  rw [Progress.inParentheses]
  split
  · rename_i ended
    rw [found] at ended
    cases ended
  · rename_i other same
    rw [found] at same
    rw [Sum.inr.inj same]

theorem Progress.inParentheses_visible (text : List Char) :
    Progress.inParentheses (visible text) = Progress.inParentheses text := by
  fun_induction Progress.inParentheses text with
  | case1 text progress found =>
      apply Progress.inParentheses_of_inl
      rw [Progress.closeList_visible, found]
      rfl
  | case2 text inside found _ ih =>
      rw [← ih]
      apply Progress.inParentheses_of_inr
      rw [Progress.closeList_visible, found]
      rfl

/-- Blanks make no difference to the progress of a signature. -/
theorem progress_visible (code : List Char) : progress (visible code) = progress code := by
  rw [progress, progress, takeWhile_visible,
    any_visible isBlank_eq_false_of_interruptsSignature]
  rcases dropWhile_visible_cases code with ⟨missing, hidden⟩ | ⟨inside, opened, shown⟩
  · rw [missing, hidden]
  · rw [opened, shown]
    dsimp only
    rw [Progress.inParentheses_visible]

theorem progress_congr {code other : List Char} (same : collapse code = collapse other) :
    progress code = progress other := by
  rw [← progress_visible code, ← Text.visible_collapse, same, Text.visible_collapse,
    progress_visible]

end Progress

section Start

variable {text segment start behind : List Char}

theorem isTypeNamePart_eq_false_of_isBlank {c : Char} (blank : Text.isBlank c = true) :
    isTypeNamePart c = false := by
  by_contra part
  rw [isBlank_eq_false_of_isTypeNamePart (Bool.not_eq_false _ ▸ part)] at blank
  cases blank

theorem isEmpty_takeWhile (p : Char → Bool) (text : List Char) :
    (text.takeWhile p).isEmpty = !text.head?.any p := by
  cases text with
  | nil => rfl
  | cons c text => cases inside : p c <;> simp [inside]

theorem dropAnnotations_nil : dropAnnotations [] = [] := by
  rw [dropAnnotations]
  intro rest starts
  cases starts

/-- Where something stands behind the annotations, nothing that follows a blank is
taken for one of them. -/
theorem dropAnnotations_append (shown : dropAnnotations text ≠ []) (blank : StartsBlank behind) :
    dropAnnotations (text ++ behind) = dropAnnotations text ++ behind := by
  fun_induction dropAnnotations text with
  | case1 rest unnamed =>
      rw [List.cons_append, dropAnnotations, if_pos]
      rw [isEmpty_takeWhile, Bool.not_eq_true'] at unnamed ⊢
      cases rest with
      | cons c rest => exact unnamed
      | nil =>
          cases behind with
          | nil => rfl
          | cons c behind => exact isTypeNamePart_eq_false_of_isBlank (blank c rfl)
  | case2 rest named ih =>
      have afterBlanks : Text.dropBlanks (rest.dropWhile isTypeNamePart) ≠ [] := by
        intro nothing
        rw [nothing] at shown
        exact shown dropAnnotations_nil
      have afterName : rest.dropWhile isTypeNamePart ≠ [] := by
        intro nothing
        rw [nothing] at afterBlanks
        exact afterBlanks rfl
      rw [List.cons_append, dropAnnotations, if_neg, Text.dropWhile_append_of_ne_nil afterName,
        Text.dropBlanks, Text.dropWhile_append_of_ne_nil afterBlanks]
      · exact ih shown
      · rw [isEmpty_takeWhile, Bool.not_eq_true, Bool.not_eq_false'] at named ⊢
        cases rest with
        | nil => cases named
        | cons c rest => exact named
  | case3 text other =>
      cases text with
      | nil => exact absurd rfl shown
      | cons c text =>
          rw [List.cons_append, dropAnnotations]
          intro rest starts
          cases starts
          exact other text rfl

theorem startsBlank_below (below : List Line) : StartsBlank (below.flatMap (' ' :: ·)) := by
  cases below with
  | nil => nofun
  | cons line below =>
      intro c first
      cases first
      decide

/-- Merging lines to the line of a segment leaves the start of its declaration as
it is, and puts behind it what collapses to the code of the signature. -/
theorem exists_dropAnnotations_joinedCode (shown : dropAnnotations (Text.trim segment) ≠ [])
    (below : List Line) :
    ∃ kept, StartsBlank kept ∧
      dropAnnotations (Text.trim (joinedCode segment below)) =
        dropAnnotations (Text.trim segment) ++ kept ∧
      collapse (dropAnnotations (Text.trim segment) ++ kept) =
        collapse (joinedCode (dropAnnotations (Text.trim segment)) below) := by
  have trimmed : Text.trim segment ≠ [] := by
    intro nothing
    rw [nothing] at shown
    exact shown dropAnnotations_nil
  have blank := startsBlank_below below
  obtain ⟨gap, gapBlank, joined⟩ := Text.exists_trim_append_eq trimmed (below.flatMap (' ' :: ·))
  have keptBlank := (blank.gap_append gapBlank).dropEndWhile
  refine ⟨_, keptBlank, ?_, ?_⟩
  · rw [joinedCode, joined, dropAnnotations_append shown keptBlank]
  · rw [Text.collapse_append_dropEndWhile, blank.collapse_append gapBlank, joinedCode]

theorem heads_ne_nil_of_parse? {code : List Char} {className : Option String}
    {declaration : Declaration} (parsed : parse? code className = some declaration) :
    methodHeads (collapse code) ≠ [] ∨ constructorHeads (collapse code) ≠ [] := by
  obtain ⟨head, _, _, found, _⟩ := parse?_eq_some_iff.mp parsed
  rw [Option.orElse_eq_orElse, Option.orElse_eq_or, Option.or_eq_some_iff] at found
  rcases found with method | ⟨_, constructor⟩
  · exact .inl (List.ne_nil_of_mem (mem_methodHeads_of_methodHead? method))
  · exact .inr (List.ne_nil_of_mem (mem_constructorHeads_of_constructorHead? constructor))

/-- A declaration whose first line looks like the head of one does so as a whole:
its first word is the same, and it has a head since it can be read. -/
theorem looksLikeHead_append {className : Option String} {declaration : Declaration}
    (looks : looksLikeHead start = true) (blank : StartsBlank behind)
    (parsed : parse? (start ++ behind) className = some declaration) :
    looksLikeHead (start ++ behind) = true := by
  have heads := heads_ne_nil_of_parse? parsed
  rw [looksLikeHead] at looks ⊢
  dsimp only at looks ⊢
  split at looks
  · cases looks
  · rename_i nonempty
    split at looks
    · cases looks
    · rename_i free
      have shown : collapse start ≠ [] := by simpa using nonempty
      obtain ⟨more, wholeEq⟩ := blank.exists_collapse_append shown
      rw [wholeEq] at heads ⊢
      rw [Text.takeWhile_append_behindBlank (by decide), if_neg (by simp [shown]), if_neg free]
      simp only [Bool.or_eq_true, Bool.not_eq_true', List.isEmpty_eq_false_iff]
      exact .inl heads

end Start

section Merged

variable {segment code : List Char} {below : List Line} {joined : Nat}

theorem looksLikeHead_of_signature? (found : signature? segment below = some (code, joined)) :
    dropAnnotations (Text.trim segment) ≠ [] ∧
      looksLikeHead (dropAnnotations (Text.trim segment)) = true := by
  rw [signature?] at found
  split at found
  · cases found
  · rename_i accepted
    simpa using accepted

theorem joinLines_of_complete (complete : progress code = .complete) (joined : Nat)
    (lines : List Line) : joinLines code joined lines = some (code, joined) := by
  cases lines <;> rw [joinLines, complete]

theorem exists_signature?_joinedCode {className : Option String} {declaration : Declaration}
    (found : signature? segment below = some (code, joined))
    (parsed : parse? code className = some declaration) (others : List Line) :
    ∃ merged, signature? (joinedCode segment (below.take joined)) others = some (merged, 0) ∧
      parse? merged className = some declaration := by
  obtain ⟨shown, looks⟩ := looksLikeHead_of_signature? found
  obtain ⟨rfl, complete⟩ := signature?_eq_some found
  obtain ⟨kept, blank, startEq, same⟩ :=
    exists_dropAnnotations_joinedCode shown (below.take joined)
  have readAlike : parse? (dropAnnotations (Text.trim segment) ++ kept) className =
      some declaration := by
    rw [← parsed, parse?, parse?, same]
  refine ⟨_, ?_, readAlike⟩
  rw [signature?, startEq, looksLikeHead_append looks blank readAlike, if_neg (by simp [shown])]
  apply joinLines_of_complete
  rw [progress_congr same, complete]

/-- A signature starts within its line. -/
theorem le_length_of_signature? {line : Line} {column : Nat}
    (found : signature? (line.drop column) below = some (code, joined)) :
    column ≤ line.length := by
  by_contra beyond
  obtain ⟨shown, _⟩ := looksLikeHead_of_signature? found
  rw [List.drop_eq_nil_of_le (by omega)] at shown
  exact shown dropAnnotations_nil

end Merged

end Declaration

namespace CodeLine

/-- One line for several, with a space between each two of them. -/
def merge (lines : List CodeLine) : CodeLine where
  raw := [' '].intercalate (lines.map CodeLine.raw)
  code := [' '].intercalate (lines.map CodeLine.code)

theorem code_merge (line : CodeLine) (below : List CodeLine) :
    (merge (line :: below)).code =
      Declaration.joinedCode line.code (below.map CodeLine.code) := by
  induction below generalizing line with
  | nil => simp [merge, Declaration.joinedCode]
  | cons next below ih =>
      calc (merge (line :: next :: below)).code
          = line.code ++ ' ' :: (merge (next :: below)).code := by
            simp [merge, List.intercalate_cons_cons]
        _ = Declaration.joinedCode line.code ((next :: below).map CodeLine.code) := by
            rw [ih, List.map_cons, Declaration.joinedCode_cons]

end CodeLine

namespace Source

/-- The signature that starts in a column of a line: its code and its last line. -/
def signatureAt? (lines : List CodeLine) (index column : Nat) : Option (List Char × Nat) :=
  match lines.drop index with
  | [] => none
  | line :: below =>
      (Declaration.signature? (line.code.drop column) (below.map CodeLine.code)).map
        fun (code, joined) => (code, index + joined)

/-- The lines with those from `first` to `last` merged to one. -/
def mergeLines (lines : List CodeLine) (first last : Nat) : List CodeLine :=
  lines.take first ++
    CodeLine.merge ((lines.drop first).take (last + 1 - first)) :: lines.drop (last + 1)

section Merge

variable {lines below : List CodeLine} {line : CodeLine} {index column last : Nat}

theorem signatureAt?_of_drop (dropped : lines.drop index = line :: below) (column : Nat) :
    signatureAt? lines index column =
      (Declaration.signature? (line.code.drop column) (below.map CodeLine.code)).map
        fun (code, joined) => (code, index + joined) := by
  rw [signatureAt?, dropped]

theorem drop_mergeLines (dropped : lines.drop index = line :: below) (joined : Nat) :
    (mergeLines lines index (index + joined)).drop index =
      CodeLine.merge (line :: below.take joined) :: lines.drop (index + joined + 1) := by
  have before : (lines.take index).length = index := by
    have lengths := congrArg List.length dropped
    rw [List.length_drop, List.length_cons] at lengths
    rw [List.length_take]
    omega
  have count : index + joined + 1 - index = joined + 1 := by omega
  rw [mergeLines, List.drop_left' before, dropped, count, List.take_succ_cons]

/-- A signature that reads as a declaration reads as the same one when its lines
are merged, and then it is complete on the line where it starts. -/
theorem signatureAt?_mergeLines {code : List Char} {className : Option String}
    {declaration : Declaration}
    (found : signatureAt? lines index column = some (code, last))
    (parsed : Declaration.parse? code className = some declaration) :
    ∃ merged, signatureAt? (mergeLines lines index last) index column = some (merged, index) ∧
      Declaration.parse? merged className = some declaration := by
  cases dropped : lines.drop index with
  | nil => simp [signatureAt?, dropped] at found
  | cons line below =>
      rw [signatureAt?_of_drop dropped] at found
      obtain ⟨⟨_, joined⟩, signed, same⟩ := Option.map_eq_some_iff.mp found
      cases same
      obtain ⟨merged, signedOnce, readAlike⟩ := Declaration.exists_signature?_joinedCode signed
        parsed ((lines.drop (index + joined + 1)).map CodeLine.code)
      have segmentEq : (CodeLine.merge (line :: below.take joined)).code.drop column =
          Declaration.joinedCode (line.code.drop column)
            ((below.map CodeLine.code).take joined) := by
        rw [CodeLine.code_merge, Declaration.joinedCode,
          List.drop_append_of_le_length (Declaration.le_length_of_signature? signed),
          List.map_take, Declaration.joinedCode]
      refine ⟨merged, ?_, readAlike⟩
      rw [signatureAt?_of_drop (drop_mergeLines dropped joined), segmentEq, signedOnce]
      rfl

end Merge

/-- A method whose type, name and parameters stand on lines of their own. -/
def spreadLines : List CodeLine :=
  ["class A \x7b", " @Override public Map<String, Integer> ",
    "  computeCounts(List<String> items,", "\tboolean strict)  \x7b \x7d", "\x7d"].map
    fun line => { raw := line.toList, code := line.toList }

/-- The method that the lines declare. -/
def spreadDeclaration : Declaration where
  name := "computeCounts"
  returnType := some "Map<String, Integer>"
  parameters := ["List<String> items", "boolean strict"]

theorem spreadLines_mergeLines :
    (∃ code, signatureAt? spreadLines 1 0 = some (code, 3) ∧
      Declaration.parse? code (some "A") = some spreadDeclaration) ∧
    ∃ merged, signatureAt? (mergeLines spreadLines 1 3) 1 0 = some (merged, 1) ∧
      Declaration.parse? merged (some "A") = some spreadDeclaration := by
  have found : signatureAt? spreadLines 1 0 = some (("public Map<String, Integer>" ++
      "   computeCounts(List<String> items," ++ " \tboolean strict)  \x7b \x7d").toList, 3) := by
    decide +kernel
  have parsed : Declaration.parse? ("public Map<String, Integer>" ++
      "   computeCounts(List<String> items," ++ " \tboolean strict)  \x7b \x7d").toList (some "A") =
        some spreadDeclaration := by
    decide +kernel
  exact ⟨⟨_, found, parsed⟩, signatureAt?_mergeLines found parsed⟩

end Source
end CallTree
