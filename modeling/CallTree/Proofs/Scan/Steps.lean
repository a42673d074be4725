import CallTree.Proofs.Scan.Modes
import Mathlib.Tactic.ByContra

/-!
# Literals and comments in the steps of a scan

A step is either inside a literal or a block comment, or outside of them.
Inside, only the first character of the closing delimiter and the backslash
matter.  Outside, only one of three characters opens something, and only a step
of code looks at the text around it.
-/

namespace CallTree
namespace Scan

open Mode

/-- The first character of the delimiter that ends the literal or the block
comment which is open. -/
def Context.closing? (context : Context) : Option Char :=
  if context.inBlockComment then some '*'
  else if context.inTextBlock then some '"'
  else if context.inString then some '"'
  else if context.inCharacter then some '\x27'
  else none

/-- The character neither ends what is open, nor escapes the one behind it. -/
def Quiet (closing c : Char) : Prop :=
  c ≠ '\\' ∧ c ≠ closing

/-- Each literal and each comment starts with one of these. -/
def delimiters : List Char :=
  ['"', '\x27', '/']

theorem closing?_context (mode : Mode) (escaped : Bool) :
    (mode.context escaped).closing? = (mode.context false).closing? := by
  cases mode <;> rfl

/-- Neither a literal nor a comment is open. -/
structure Context.Outside (context : Context) : Prop where
  closing : context.closing? = none
  inLineComment : context.inLineComment = false
  inPattern : context.inPattern = false

theorem behindTypeArgument_cases (c : Char) (inner : Nat) :
    behindTypeArgument c inner = code ∨
      ∃ deeper, behindTypeArgument c inner = generic deeper := by
  unfold behindTypeArgument
  split
  · exact .inr ⟨inner + 1, rfl⟩
  · split
    · cases inner with
      | zero => exact .inl rfl
      | succ inner => exact .inr ⟨inner, rfl⟩
    · exact .inr ⟨inner, rfl⟩

theorem outside_behindArgument (c : Char) (inner : Nat) :
    ((behindArgument c inner).context false).Outside := by
  rcases behindArgument_cases c inner with ends | ⟨deeper, stays⟩
  · rw [ends]
    exact ⟨rfl, rfl, rfl⟩
  · rw [stays]
    exact ⟨rfl, rfl, rfl⟩

theorem outside_behindTypeArgument (c : Char) (inner : Nat) :
    ((behindTypeArgument c inner).context false).Outside := by
  rcases behindTypeArgument_cases c inner with ends | ⟨deeper, stays⟩
  · rw [ends]
    exact ⟨rfl, rfl, rfl⟩
  · rw [stays]
    exact ⟨rfl, rfl, rfl⟩

section Step

variable {rules : Rules} {before : List Char} {c : Char} {rest : List Char}
variable {mode : Mode} {escaped : Bool}

theorem mem_delimiters_iff : c ∈ delimiters ↔ c = '"' ∨ c = '\x27' ∨ c = '/' := by
  simp [delimiters]

theorem forall_delimiters {p : Char → Prop} (quote : p '"') (tick : p '\x27') (slash : p '/') :
    ∀ d ∈ delimiters, p d := by
  intro d isDelimiter
  obtain rfl | rfl | rfl := mem_delimiters_iff.mp isDelimiter
  · exact quote
  · exact tick
  · exact slash

theorem codeStep_quote (rules : Rules) (before rest : List Char) (context : Context) :
    codeStep rules before '"' rest context =
      if ['"', '"'].isPrefixOf rest then
        { further := 2
          context :=
            if Text.isBlankText before || Text.isBlankText (rest.drop 2) then
              { context with inTextBlock := true }
            else context }
      else { context := { context with inString := true } } :=
  rfl

theorem codeStep_slash (plain : rules.detectPatterns = false) (before rest : List Char)
    (context : Context) :
    codeStep rules before '/' rest context =
      if rest.head? == some '/' then
        { further := rest.length, context := { context with inLineComment := true } }
      else if rest.head? == some '*' then
        { further := 1, context := { context with inBlockComment := true } }
      else { shown := true, context } := by
  simp [codeStep, plain]

theorem codeStep_of_not_mem_delimiters (noDelimiter : c ∉ delimiters) (rules : Rules)
    (before rest : List Char) (context : Context) :
    codeStep rules before c rest context =
      if c == '@' then annotationStep rest context
      else if c == '<' && rules.opensGeneric before (c :: rest) then
        { shown := true, context := { context with inGeneric := true, genericLevel := 1 } }
      else
        { shown := true
          opens := if c == '{' then 1 else 0
          closes := if c == '}' then 1 else 0
          context } := by
  simp only [delimiters, List.mem_cons, List.not_mem_nil, or_false, not_or] at noDelimiter
  rw [codeStep, if_neg (by simpa using noDelimiter.2.2), if_neg (by simpa using noDelimiter.1),
    if_neg (by simpa using noDelimiter.2.1)]

/-- Only a delimiter opens a literal or a comment. -/
theorem outside_codeStep (noDelimiter : c ∉ delimiters) (rules : Rules)
    (before rest : List Char) :
    (codeStep rules before c rest (code.context false)).context.Outside := by
  rw [codeStep_of_not_mem_delimiters noDelimiter]
  split
  · rw [annotationStep]
    split <;> exact ⟨rfl, rfl, rfl⟩
  · split <;> exact ⟨rfl, rfl, rfl⟩

theorem inPattern_codeStep (plain : rules.detectPatterns = false) (before rest : List Char)
    (c : Char) :
    (codeStep rules before c rest (code.context false)).context.inPattern = false := by
  by_cases isDelimiter : c ∈ delimiters
  · obtain rfl | rfl | rfl := mem_delimiters_iff.mp isDelimiter
    · rw [codeStep_quote]
      split
      · dsimp only
        split <;> rfl
      · rfl
    · rfl
    · rw [codeStep_slash plain]
      split
      · rfl
      · split <;> rfl
  · exact (outside_codeStep isDelimiter rules before rest).inPattern

theorem step_escaped (rules : Rules) (before : List Char) (c : Char) (rest : List Char)
    (mode : Mode) :
    step rules before c rest (mode.context true) = { context := mode.context false } := by
  rw [step, context_escaped, if_pos rfl, setEscaped_context]

theorem step_backslash (rules : Rules) (before rest : List Char) (mode : Mode) :
    step rules before '\\' rest (mode.context false) = { context := mode.context true } := by
  rw [step, context_escaped, if_neg Bool.false_ne_true, if_pos (beq_self_eq_true _),
    setEscaped_context]

theorem step_plain (unescaped : c ≠ '\\') (rules : Rules) (before rest : List Char)
    (mode : Mode) :
    step rules before c rest (mode.context false) =
      match mode with
      | code | lineComment => codeStep rules before c rest (mode.context false)
      | string => { context := (if c = '"' then code else string).context false }
      | character => { context := (if c = '\x27' then code else character).context false }
      | textBlock =>
          if c == '"' && ['"', '"'].isPrefixOf rest then
            { further := 2, context := code.context false }
          else { context := textBlock.context false }
      | blockComment =>
          if c == '*' && rest.head? == some '/' then
            { further := 1, context := code.context false }
          else { context := blockComment.context false }
      | pattern =>
          { context := (if c == '/' && rules.closesPattern before (c :: rest) then code
              else pattern).context false }
      | beforeArguments => annotationArgumentStep c (beforeArguments.context false)
      | arguments inner => { context := (behindArgument c inner).context false }
      | generic inner =>
          { shown := true, context := (behindTypeArgument c inner).context false } := by
  rw [step, context_escaped, if_neg Bool.false_ne_true, if_neg (by simpa using unescaped)]
  cases mode with
  | arguments inner => exact annotationArgumentStep_eq c inner
  | generic inner => exact genericStep_eq c inner
  | string => by_cases ends : c = '"' <;> simp [ends, Mode.context]
  | character => by_cases ends : c = '\x27' <;> simp [ends, Mode.context]
  | pattern =>
      cases c == '/' && rules.closesPattern before (c :: rest) <;> rfl
  | _ => rfl

/-- Only a step of code looks around itself, or opens something. -/
theorem step_elsewhere (rules : Rules) (fits : mode.Fits escaped (c :: rest))
    (notPattern : mode ≠ .pattern) (outside : (mode.context escaped).closing? = none) :
    (mode = code ∧ escaped = false ∧ c ≠ '\\') ∨
      ∃ s, (∀ before rest, step rules before c rest (mode.context escaped) = s) ∧
        s.context.Outside := by
  have stays (after : Bool) : (mode.context after).Outside := by
    rw [closing?_context] at outside
    cases mode with
    | lineComment => cases fits
    | pattern => exact absurd rfl notPattern
    | _ => exact ⟨outside, rfl, rfl⟩
  cases escaped with
  | true => exact .inr ⟨_, fun before rest => step_escaped rules before c rest mode, stays false⟩
  | false =>
      by_cases isBackslash : c = '\\'
      · subst isBackslash
        exact .inr ⟨_, fun before rest => step_backslash rules before rest mode, stays true⟩
      · have stepEq := fun before rest => step_plain isBackslash rules before rest mode
        cases mode with
        | code => exact .inl ⟨rfl, rfl, isBackslash⟩
        | pattern => exact absurd rfl notPattern
        | lineComment => cases fits
        | beforeArguments =>
            obtain rfl : c = '(' := by simpa using fits.2
            exact .inr ⟨_, stepEq, rfl, rfl, rfl⟩
        | arguments inner => exact .inr ⟨_, stepEq, outside_behindArgument c inner⟩
        | generic inner => exact .inr ⟨_, stepEq, outside_behindTypeArgument c inner⟩
        | string | character | textBlock | blockComment => cases outside

theorem outside_step (noDelimiter : c ∉ delimiters) (rules : Rules) (before : List Char)
    (fits : mode.Fits escaped (c :: rest)) (notPattern : mode ≠ .pattern)
    (outside : (mode.context escaped).closing? = none) :
    (step rules before c rest (mode.context escaped)).context.Outside := by
  rcases step_elsewhere rules fits notPattern outside with
    ⟨rfl, rfl, unescaped⟩ | ⟨s, stepEq, stays⟩
  · rw [step_plain unescaped]
    exact outside_codeStep noDelimiter rules before rest
  · rw [stepEq]
    exact stays

theorem inPattern_step (plain : rules.detectPatterns = false) (before : List Char)
    (fits : mode.Fits escaped (c :: rest)) (notPattern : mode ≠ .pattern) :
    (step rules before c rest (mode.context escaped)).context.inPattern = false := by
  have stays (after : Bool) : (mode.context after).inPattern = false := by
    cases mode with
    | pattern => exact absurd rfl notPattern
    | _ => rfl
  cases outside : (mode.context escaped).closing? with
  | none =>
      rcases step_elsewhere rules fits notPattern outside with
        ⟨rfl, rfl, unescaped⟩ | ⟨s, stepEq, stays⟩
      · rw [step_plain unescaped]
        exact inPattern_codeStep plain before rest c
      · rw [stepEq]
        exact stays.inPattern
  | some closing =>
      cases escaped with
      | true =>
          rw [step_escaped]
          exact stays false
      | false =>
          by_cases isBackslash : c = '\\'
          · subst isBackslash
            rw [step_backslash]
            exact stays true
          · rw [step_plain isBackslash]
            cases mode with
            | string | character | textBlock | blockComment =>
                dsimp only
                split <;> rfl
            | _ => cases outside

/-- A scan that takes no slash for a pattern never meets one. -/
theorem exists_next (plain : rules.detectPatterns = false) (before : List Char)
    (fits : mode.Fits escaped (c :: rest)) (notPattern : mode ≠ .pattern) :
    ∃ next after, (step rules before c rest (mode.context escaped)).context =
        Mode.context next after ∧
      next.Fits after (rest.drop (step rules before c rest (mode.context escaped)).further) ∧
      next ≠ .pattern := by
  obtain ⟨next, after, moves⟩ := step_moves rules before fits
  refine ⟨next, after, moves.context_eq, moves.fits fits, ?_⟩
  rintro rfl
  have noPattern := inPattern_step plain before fits notPattern
  rw [moves.context_eq] at noPattern
  cases noPattern

theorem step_content {closing : Char} (inside : (mode.context false).closing? = some closing)
    (quiet : Quiet closing c) (before rest : List Char) :
    step rules before c rest (mode.context false) = { context := mode.context false } := by
  rw [step_plain quiet.1]
  have other := quiet.2
  cases mode with
  | string =>
      cases inside
      simp [other]
  | character =>
      cases inside
      simp [other]
  | textBlock =>
      cases inside
      simp [other]
  | blockComment =>
      cases inside
      simp [other]
  | _ => cases inside

/-- A step that leaves a literal or a comment takes the whole delimiter, and
depends on nothing else. -/
theorem step_closing (inside : (mode.context false).closing?.isSome = true)
    (ends : (step rules before c rest (mode.context false)).context.closing? = none) :
    (step rules before c rest (mode.context false)).context = code.context false ∧
      (∃ near d, d ∈ delimiters ∧ c :: rest.take
        (step rules before c rest (mode.context false)).further = near ++ [d]) ∧
      ∀ otherBefore far, step rules otherBefore c
        (rest.take (step rules before c rest (mode.context false)).further ++ far)
          (mode.context false) = step rules before c rest (mode.context false) := by
  have unescaped : c ≠ '\\' := by
    rintro rfl
    rw [step_backslash, closing?_context] at ends
    simp [ends] at inside
  simp only [step_plain unescaped] at ends ⊢
  cases mode with
  | string =>
      by_cases isQuote : c = '"'
      · subst isQuote
        exact ⟨rfl, ⟨[], '"', by decide, rfl⟩, fun _ _ => rfl⟩
      · simp [isQuote, Context.closing?, Mode.context] at ends
  | character =>
      by_cases isQuote : c = '\x27'
      · subst isQuote
        exact ⟨rfl, ⟨[], '\x27', by decide, rfl⟩, fun _ _ => rfl⟩
      · simp [isQuote, Context.closing?, Mode.context] at ends
  | textBlock =>
      cases closes : c == '"' && ['"', '"'].isPrefixOf rest with
      | false => simp [closes, Context.closing?, Mode.context] at ends
      | true =>
          obtain ⟨isQuote, quotes⟩ := Bool.and_eq_true_iff.mp closes
          obtain rfl : c = '"' := beq_iff_eq.mp isQuote
          obtain ⟨behind, rfl⟩ := List.isPrefixOf_iff_prefix.mp quotes
          exact ⟨rfl, ⟨['"', '"'], '"', by decide, rfl⟩, fun _ _ => rfl⟩
  | blockComment =>
      cases closes : c == '*' && rest.head? == some '/' with
      | false => simp [closes, Context.closing?, Mode.context] at ends
      | true =>
          obtain ⟨isStar, slash⟩ := Bool.and_eq_true_iff.mp closes
          obtain rfl : c = '*' := beq_iff_eq.mp isStar
          obtain ⟨behind, rfl⟩ := List.head?_eq_some_iff.mp (beq_iff_eq.mp slash)
          exact ⟨rfl, ⟨['*'], '/', by decide, rfl⟩, fun _ _ => rfl⟩
  | _ => cases inside

/-- What a step of code opens, and where it does so. -/
inductive Opens (before : List Char) : Char → List Char → Step → Prop where
  | textBlock (behind : List Char) :
      (Text.isBlankText before || Text.isBlankText behind) = true →
      Opens before '"' ('"' :: '"' :: behind)
        { further := 2, context := textBlock.context false }
  | string (rest : List Char) : ['"', '"'].isPrefixOf rest = false →
      Opens before '"' rest { context := string.context false }
  | character (rest : List Char) :
      Opens before '\x27' rest { context := character.context false }
  | blockComment (behind : List Char) :
      Opens before '/' ('*' :: behind) { further := 1, context := blockComment.context false }

theorem Opens.codeStep_eq {s : Step} (opens : Opens before c rest s) (rules : Rules) :
    codeStep rules before c rest (code.context false) = s := by
  cases opens with
  | textBlock behind blank =>
      rw [codeStep_quote]
      simp [blank, Mode.context]
  | string _ single =>
      rw [codeStep_quote, single]
      rfl
  | character => rfl
  | blockComment behind => rfl

theorem codeStep_opens (plain : rules.detectPatterns = false)
    (opens : (codeStep rules before c rest (code.context false)).context.closing?.isSome = true) :
    Opens before c rest (codeStep rules before c rest (code.context false)) := by
  have isDelimiter : c ∈ delimiters := by
    by_contra noDelimiter
    rw [(outside_codeStep noDelimiter rules before rest).closing] at opens
    cases opens
  obtain rfl | rfl | rfl := mem_delimiters_iff.mp isDelimiter
  · rw [codeStep_quote] at opens ⊢
    split at opens
    · rename_i quotes
      obtain ⟨behind, rfl⟩ := List.isPrefixOf_iff_prefix.mp quotes
      cases blank : Text.isBlankText before || Text.isBlankText behind with
      | true => simpa [blank, Mode.context] using Opens.textBlock behind blank
      | false => simp [blank, Context.closing?, Mode.context] at opens
    · rename_i single
      rw [if_neg single]
      exact .string rest (Bool.eq_false_iff.mpr single)
  · exact .character rest
  · rw [codeStep_slash plain] at opens ⊢
    split at opens
    · cases opens
    · rename_i noComment
      rw [if_neg noComment]
      split at opens
      · rename_i star
        obtain ⟨behind, rfl⟩ := List.head?_eq_some_iff.mp (beq_iff_eq.mp star)
        exact .blockComment behind
      · cases opens

theorem codeStep_comments (plain : rules.detectPatterns = false)
    (comments : (codeStep rules before c rest (code.context false)).context.inLineComment = true) :
    ∃ behind, c = '/' ∧ rest = '/' :: behind := by
  have isDelimiter : c ∈ delimiters := by
    by_contra noDelimiter
    rw [(outside_codeStep noDelimiter rules before rest).inLineComment] at comments
    cases comments
  obtain rfl | rfl | rfl := mem_delimiters_iff.mp isDelimiter
  · rw [codeStep_quote] at comments
    split at comments
    · dsimp only at comments
      split at comments <;> cases comments
    · cases comments
  · cases comments
  · rw [codeStep_slash plain] at comments
    split at comments
    · rename_i slash
      obtain ⟨behind, rfl⟩ := List.head?_eq_some_iff.mp (beq_iff_eq.mp slash)
      exact ⟨behind, rfl, rfl⟩
    · split at comments <;> cases comments

end Step

end Scan
end CallTree
