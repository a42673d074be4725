import CallTree.Proofs.Declaration.Layout

/-!
# Verdicts on signatures

The code of a signature is complete or refused as soon as a prefix of it is: more
code does not change a verdict.  Each list of parentheses that is passed over
leaves less code, and what is read of a list or between two lists is not touched
by code that comes behind.  So the lines of a declaration may be joined one by
one, and the first verdict is the verdict on all of them.
-/

namespace CallTree
namespace Declaration

open Text (visible)

section Behind

variable {text inside rest : List Char}

theorem Progress.afterParameters_append (decided : Progress.afterParameters text ≠ .pending)
    (more : List Char) :
    Progress.afterParameters (text ++ more) = Progress.afterParameters text := by
  induction text with
  | nil => exact absurd rfl decided
  | cons c text ih =>
      rw [Progress.afterParameters] at decided
      rw [List.cons_append, Progress.afterParameters, Progress.afterParameters]
      split
      · rfl
      · rename_i noBrace
        rw [if_neg noBrace] at decided
        split
        · rfl
        · rename_i noEnd
          rw [if_neg noEnd] at decided
          exact ih decided

/-- Only a semicolon or an equals sign refuses what stands behind a list. -/
theorem mem_of_afterParameters_refused (refused : Progress.afterParameters text = .refused) :
    ';' ∈ text ∨ '=' ∈ text := by
  induction text with
  | nil => cases refused
  | cons c text ih =>
      rw [Progress.afterParameters] at refused
      split at refused
      · cases refused
      · split at refused
        · rename_i ends
          simp only [Bool.or_eq_true, beq_iff_eq] at ends
          rcases ends with rfl | rfl
          · exact .inl List.mem_cons_self
          · exact .inr List.mem_cons_self
        · exact (ih refused).imp (List.mem_cons_of_mem c) (List.mem_cons_of_mem c)

/-- A verdict without brace and semicolon is a refusal, and its equals sign would
also refuse another list behind it. -/
theorem Progress.afterParameters_eq_refused (decided : Progress.afterParameters text ≠ .pending)
    (unmarked : text.any (fun c => c == '{' || c == ';') = false) :
    Progress.afterParameters text = .refused ∧ text.any interruptsSignature = true := by
  have absent : '{' ∉ text ∧ ';' ∉ text := by
    simp only [List.any_eq_false, Bool.or_eq_true, beq_iff_eq, not_or] at unmarked
    exact ⟨fun member => (unmarked _ member).1 rfl, fun member => (unmarked _ member).2 rfl⟩
  cases verdict : Progress.afterParameters text with
  | complete => exact absurd (brace_mem_of_afterParameters verdict) absent.1
  | pending => exact absurd verdict decided
  | refused =>
      have equals := (mem_of_afterParameters_refused verdict).resolve_left absent.2
      exact ⟨rfl, List.any_eq_true.mpr ⟨'=', equals, rfl⟩⟩

theorem splitAtClosing_append {depth : Nat}
    (found : splitAtClosing depth text = some (inside, rest)) (more : List Char) :
    splitAtClosing depth (text ++ more) = some (inside, rest ++ more) := by
  induction text generalizing depth inside with
  | nil => cases found
  | cons c text ih =>
      rw [splitAtClosing] at found
      rw [List.cons_append, splitAtClosing]
      split at found
      · rename_i closes
        rw [if_pos closes]
        split at found
        · rename_i outermost
          cases found
          rw [if_pos outermost]
        · rename_i nested
          obtain ⟨⟨_, _⟩, here, same⟩ := Option.map_eq_some_iff.mp found
          cases same
          rw [if_neg nested, ih here]
          rfl
      · rename_i notClosing
        obtain ⟨⟨_, _⟩, here, same⟩ := Option.map_eq_some_iff.mp found
        cases same
        rw [if_neg notClosing]
        dsimp only
        rw [ih here]
        rfl

/-- The next list starts behind the one that was closed. -/
theorem exists_skipped_of_closeList (further : Progress.closeList text = .inr inside) :
    ∃ skipped, text = skipped ++ '(' :: inside := by
  rw [Progress.closeList] at further
  split at further
  · cases further
  · rename_i rest closing
    obtain ⟨list, rfl⟩ := suffix_of_splitAtClosing closing
    have opens := List.head?_dropWhile_not (· != '(') rest
    split at further
    · cases further
    · rename_i c behind following
      dsimp only at further
      split at further
      · cases further
      · split at further
        · cases further
        · cases further
          rw [following] at opens
          obtain rfl : c = '(' := by simpa using opens
          have cut := List.takeWhile_append_dropWhile (p := (· != '(')) (l := rest)
          rw [following] at cut
          exact ⟨list ++ rest.takeWhile (· != '('), by rw [List.append_assoc, cut]⟩

theorem forall_ne_parenthesis (absent : '(' ∉ text) : ∀ c ∈ text, (c != '(') = true := by
  intro c member
  have other : c ≠ '(' := fun same => absent (same ▸ member)
  simpa using other

/-- A text cut at its first parenthesis. -/
theorem cut_parenthesis (first : '(' ∉ text) (inside : List Char) :
    (text ++ '(' :: inside).takeWhile (· != '(') = text ∧
      (text ++ '(' :: inside).dropWhile (· != '(') = '(' :: inside := by
  have plain := forall_ne_parenthesis first
  rw [List.takeWhile_append_of_pos plain, List.dropWhile_append_of_pos plain]
  simp

theorem Progress.closeList_of_not_mem {list : List Char}
    (closing : splitAtClosing 1 text = some (list, rest)) (last : '(' ∉ rest) :
    Progress.closeList text = .inl (Progress.afterParameters rest) := by
  have nothing : rest.dropWhile (· != '(') = [] :=
    List.dropWhile_eq_nil_iff.mpr (forall_ne_parenthesis last)
  simp only [Progress.closeList, closing, nothing]

theorem Progress.closeList_of_parenthesis {list between : List Char}
    (closing : splitAtClosing 1 text = some (list, between ++ '(' :: inside))
    (first : '(' ∉ between) :
    Progress.closeList text =
      if between.any (fun c => c == '{' || c == ';') then
        .inl (Progress.afterParameters (between ++ '(' :: inside))
      else if between.any interruptsSignature then .inl .refused
      else .inr inside := by
  obtain ⟨before, behind⟩ := cut_parenthesis first inside
  simp only [Progress.closeList, closing, behind, before]

/-- A round that reached a verdict or another list does so again when more code
comes behind. -/
theorem Progress.closeList_append (decided : Progress.closeList text ≠ .inl .pending)
    (more : List Char) :
    Progress.closeList (text ++ more) = (Progress.closeList text).map id (· ++ more) := by
  cases closing : splitAtClosing 1 text with
  | none => exact absurd (by rw [Progress.closeList, closing]) decided
  | some parts =>
      obtain ⟨list, rest⟩ := parts
      have closed := splitAtClosing_append closing more
      by_cases opens : '(' ∈ rest
      · obtain ⟨between, inside, rfl, first⟩ := List.eq_append_cons_of_mem opens
        rw [List.append_assoc, List.cons_append] at closed
        rw [Progress.closeList_of_parenthesis closing first] at decided ⊢
        rw [Progress.closeList_of_parenthesis closed first]
        split
        · rename_i marked
          rw [if_pos marked] at decided
          have verdict := Progress.afterParameters_append (fun same => decided (by rw [same])) more
          rw [List.append_assoc, List.cons_append] at verdict
          rw [verdict]
          rfl
        · split <;> rfl
      · rw [Progress.closeList_of_not_mem closing opens] at decided ⊢
        have reached : Progress.afterParameters rest ≠ .pending :=
          fun same => decided (by rw [same])
        have verdict := Progress.afterParameters_append reached more
        by_cases later : '(' ∈ more
        · obtain ⟨between, inside, rfl, first⟩ := List.eq_append_cons_of_mem later
          rw [← List.append_assoc rest] at closed verdict
          rw [Progress.closeList_of_parenthesis closed (by simp [opens, first])]
          split
          · rw [verdict]
            rfl
          · -- Without brace and semicolon it was an equals sign that decided.
            rename_i unmarked
            rw [List.any_append, Bool.or_eq_true, not_or, Bool.not_eq_true] at unmarked
            obtain ⟨refused, interrupted⟩ :=
              Progress.afterParameters_eq_refused reached unmarked.1
            rw [List.any_append, interrupted, Bool.true_or, if_pos rfl, refused]
            rfl
        · rw [Progress.closeList_of_not_mem closed (by simp [opens, later]), verdict]
          rfl

end Behind

theorem Progress.inParentheses_append {text : List Char}
    (decided : Progress.inParentheses text ≠ .pending) (more : List Char) :
    Progress.inParentheses (text ++ more) = Progress.inParentheses text := by
  fun_induction Progress.inParentheses text with
  | case1 text verdict found =>
      apply Progress.inParentheses_of_inl
      have reached : Progress.closeList text ≠ .inl .pending :=
        fun same => decided (Sum.inl.inj (found.symm.trans same))
      rw [Progress.closeList_append reached, found]
      rfl
  | case2 text inside found _ ih =>
      rw [← ih decided]
      apply Progress.inParentheses_of_inr
      rw [Progress.closeList_append (by simp [found]), found]
      rfl

theorem progress_of_parenthesis {head : List Char} (first : '(' ∉ head) (inside : List Char) :
    progress (head ++ '(' :: inside) =
      if head.any interruptsSignature then .refused else Progress.inParentheses inside := by
  obtain ⟨before, behind⟩ := cut_parenthesis first inside
  simp only [progress, behind, before]

theorem progress_of_interrupted {head : List Char} (plain : '(' ∉ head)
    (interrupted : head.any interruptsSignature = true) (more : List Char) :
    progress (head ++ more) = .refused := by
  rw [progress, List.takeWhile_append_of_pos (forall_ne_parenthesis plain), List.any_append,
    interrupted, Bool.true_or, if_pos rfl]

/-- Once there is a verdict, more code does not change it. -/
theorem progress_append {code : List Char} (decided : progress code ≠ .pending)
    (more : List Char) : progress (code ++ more) = progress code := by
  by_cases opens : '(' ∈ code
  · obtain ⟨head, inside, rfl, first⟩ := List.eq_append_cons_of_mem opens
    rw [progress_of_parenthesis first] at decided ⊢
    rw [List.append_assoc, List.cons_append, progress_of_parenthesis first]
    split
    · rfl
    · rename_i plain
      rw [if_neg plain] at decided
      exact Progress.inParentheses_append decided more
  · have interrupted : code.any interruptsSignature = true := by
      by_contra plain
      refine decided ?_
      have nothing := List.dropWhile_eq_nil_iff.mpr (forall_ne_parenthesis opens)
      rw [progress, List.takeWhile_eq_self_iff.mpr (forall_ne_parenthesis opens), if_neg plain,
        nothing]
    have refused := progress_of_interrupted opens interrupted []
    rw [List.append_nil] at refused
    rw [refused, progress_of_interrupted opens interrupted more]

section Joining

variable {start : List Char} {below : List Line}

/-- Further lines stand behind the code that was joined. -/
theorem joinedCode_take_append (start : List Char) (below : List Line) (count : Nat) :
    joinedCode start below =
      joinedCode start (below.take count) ++ (below.drop count).flatMap (' ' :: ·) := by
  rw [joinedCode, joinedCode, List.append_assoc, ← List.flatMap_append, List.take_append_drop]

/-- Lines can be joined to a signature exactly when all of them together are one. -/
theorem isSome_joinLines_iff (joined : Nat) :
    (joinLines start joined below).isSome ↔ progress (joinedCode start below) = .complete := by
  induction below generalizing start joined with
  | nil =>
      rw [joinLines, joinedCode, List.flatMap_nil, List.append_nil]
      cases progress start <;> simp
  | cons line below ih =>
      have first (decided : progress start ≠ .pending) :
          progress (joinedCode start (line :: below)) = progress start :=
        progress_append decided _
      rw [joinLines]
      cases verdict : progress start with
      | complete => simp [first, verdict]
      | refused => simp [first, verdict]
      | pending =>
          dsimp only
          rw [ih, joinedCode_cons, joinedCode, joinedCode, List.append_assoc, List.cons_append]

theorem visible_joinedCode (start : List Char) (below : List Line) :
    visible (joinedCode start below) = visible start ++ visible below.flatten := by
  have space : Text.isBlank ' ' = true := by decide
  rw [joinedCode, Text.visible_append]
  congr 1
  induction below with
  | nil => rfl
  | cons line below ih =>
      rw [List.flatMap_cons, List.flatten_cons, List.cons_append, Text.visible_cons, if_pos space,
        Text.visible_append, Text.visible_append, ih]

/-- A verdict on the lines that may be joined is the verdict on all lines below,
in whatever way these are cut. -/
theorem progress_joinedCode_of_cut {others : List Line} {limit : Nat}
    (decided : progress (joinedCode start (below.take limit)) ≠ .pending)
    (sameCode : visible below.flatten = visible others.flatten) :
    progress (joinedCode start others) = progress (joinedCode start (below.take limit)) := by
  have sameVerdict : progress (joinedCode start others) = progress (joinedCode start below) := by
    rw [← progress_visible (joinedCode start others), visible_joinedCode, ← sameCode,
      ← visible_joinedCode, progress_visible]
  rw [sameVerdict, joinedCode_take_append start below limit]
  exact progress_append decided _

end Joining

/-- How the start of a signature is judged.  Each list of parentheses that is
passed over is followed by a later one.  Code that is complete or refused stays so
whatever comes behind it.  So where the lines that may be joined give a verdict, it
is the verdict on all lines below, in whatever way these are cut. -/
theorem progress_stays_decided :
    (∀ text inside, Progress.closeList text = .inr inside →
      ∃ skipped, text = skipped ++ '(' :: inside) ∧
    (∀ code more, progress code = .complete → progress (code ++ more) = .complete) ∧
    (∀ code more, progress code = .refused → progress (code ++ more) = .refused) ∧
    ∀ (segment : List Char) (below others : List Line),
      let start := dropAnnotations (Text.trim segment)
      looksLikeHead start = true →
      progress (joinedCode start (below.take (lineLimit - 1))) ≠ .pending →
      visible below.flatten = visible others.flatten →
      progress (joinedCode start others) =
        if (signature? segment below).isSome then .complete else .refused := by
  refine ⟨fun _ _ => exists_skipped_of_closeList, ?_, ?_, ?_⟩
  · intro code more complete
    rw [progress_append (by simp [complete]), complete]
  · intro code more refused
    rw [progress_append (by simp [refused]), refused]
  · intro segment below others start looks decided sameCode
    have shown : start.isEmpty = false := by
      cases blank : start with
      | nil => rw [blank] at looks; cases looks
      | cons c rest => rfl
    have found : (signature? segment below).isSome ↔
        progress (joinedCode start (below.take (lineLimit - 1))) = .complete := by
      rw [signature?, if_neg (by simp [start, shown, looks])]
      exact isSome_joinLines_iff 0
    rw [progress_joinedCode_of_cut decided sameCode]
    split
    · rename_i complete
      exact found.mp complete
    · rename_i incomplete
      cases verdict : progress (joinedCode start (below.take (lineLimit - 1))) with
      | complete => exact absurd (found.mpr verdict) incomplete
      | refused => rfl
      | pending => exact absurd verdict decided

/-- The start of a method with an annotation, whose arguments are the first list
in parentheses. -/
def annotatedStart : List Char := "public @Named(\"x\") void f(int x".toList

def annotatedBelow : List Line := [", int y)".toList, "throws E".toList, "\x7b g(); \x7d".toList]

/-- The lines are complete with the brace on the third, and so they are when they
are cut elsewhere. -/
theorem annotatedStart_stays_complete :
    looksLikeHead (dropAnnotations (Text.trim annotatedStart)) = true ∧
    (signature? annotatedStart annotatedBelow).isSome = true ∧
    progress (joinedCode annotatedStart [", int y) throws".toList, "E\x7b g(); \x7d".toList]) =
      .complete := by
  have found : (signature? annotatedStart annotatedBelow).isSome = true := by decide +kernel
  have looks : looksLikeHead (dropAnnotations (Text.trim annotatedStart)) = true := by
    decide +kernel
  have verdict := progress_stays_decided.2.2.2 annotatedStart annotatedBelow
    [", int y) throws".toList, "E\x7b g(); \x7d".toList] looks (by decide +kernel)
    (by decide +kernel)
  have start : dropAnnotations (Text.trim annotatedStart) = annotatedStart := by decide +kernel
  rw [if_pos found, start] at verdict
  exact ⟨looks, found, verdict⟩

end Declaration
end CallTree
