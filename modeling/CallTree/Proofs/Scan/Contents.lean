import CallTree.Proofs.Scan.Lookaround
import Mathlib.Data.List.Forall2

/-!
# Contents of literals and comments

What stands inside a literal or a comment is passed over until its end comes.
So it may be exchanged for anything that neither ends it nor escapes what
follows, and the scan of the line stays the same.  The look aheads of a scan do
not see it either, because each of them stops at the delimiter in front of it.

There is one exception.  A text block opens behind code only when nothing but
blanks follow its delimiter, so these blanks may only be exchanged for blanks.
-/

namespace CallTree
namespace Scan

open Mode

/-- What a scan takes a character of a line for. -/
inductive Role where
  /-- Code, or a part of a delimiter. -/
  | read
  /-- A character inside a literal or a block comment. -/
  | content (closing : Char)
  /-- A character behind the slashes of a line comment. -/
  | remark
  /-- A character of a text block whose delimiter has something before it, and
  only blanks behind it. -/
  | padding
  deriving DecidableEq, Repr

/-- The roles of the characters that are left of a line, each with its
character. -/
def placesFrom (rules : Rules) (before rest : List Char) (context : Context) :
    List (Role × Char) :=
  match rest with
  | [] => []
  | c :: rest =>
      let s := step rules before c rest context
      let taken := c :: rest.take s.further
      let behind := rest.drop s.further
      let later := placesFrom rules (taken.reverse ++ before) behind s.context
      match context.closing?, s.context.closing? with
      | some closing, some _ => taken.map (.content closing, ·) ++ later
      | none, some _ =>
          taken.map (.read, ·) ++
            if s.context.inTextBlock && !Text.isBlankText before then behind.map (.padding, ·)
            else later
      | _, none =>
          if s.context.inLineComment then
            ((c :: rest).take 2).map (.read, ·) ++ ((c :: rest).drop 2).map (.remark, ·)
          else taken.map (.read, ·) ++ later
termination_by rest.length
decreasing_by
  simp only [List.length_drop, List.length_cons]
  omega

/-- The characters of a line with their roles. -/
def places (rules : Rules) (line : Line) (context : Context) : List (Role × Char) :=
  placesFrom rules [] line context

/-- What may stand in another line in place of a character. -/
def Role.Hides : Role → Char → Char → Prop
  | read, c, other => other = c
  | content closing, c, other => Quiet closing c ∧ Quiet closing other
  | remark, _, _ => True
  | padding, c, other => Quiet '"' c ∧ Quiet '"' other

instance (role : Role) (c other : Char) : Decidable (role.Hides c other) :=
  match role with
  | .read => inferInstanceAs (Decidable (other = c))
  | .content closing =>
      inferInstanceAs (Decidable ((c ≠ '\\' ∧ c ≠ closing) ∧ other ≠ '\\' ∧ other ≠ closing))
  | .remark => isTrue trivial
  | .padding =>
      inferInstanceAs (Decidable ((c ≠ '\\' ∧ c ≠ '"') ∧ other ≠ '\\' ∧ other ≠ '"'))

/-- What may stand in place of a character, if blanks behind a text block's
delimiter stay blanks. -/
def Role.Admits (role : Role) (c other : Char) : Prop :=
  role.Hides c other ∧ (role = .padding → Text.isBlank other = true)

instance (role : Role) (c other : Char) : Decidable (role.Admits c other) :=
  inferInstanceAs (Decidable (_ ∧ _))

/-- The other text may stand in place of the characters. -/
def Replaces (places : List (Role × Char)) (other : List Char) : Prop :=
  List.Forall₂ (fun place char => place.1.Admits place.2 char) places other

instance (places : List (Role × Char)) (other : List Char) : Decidable (Replaces places other) :=
  inferInstanceAs (Decidable (List.Forall₂ _ _ _))

theorem Replaces.of_read {taken : List Char} {later : List (Role × Char)} {other : List Char}
    (replaces : Replaces (taken.map (.read, ·) ++ later) other) :
    ∃ behind, other = taken ++ behind ∧ Replaces later behind := by
  induction taken generalizing other with
  | nil => exact ⟨other, rfl, replaces⟩
  | cons c taken ih =>
      cases replaces with
      | cons admits rest =>
          obtain ⟨behind, rfl, replacesLater⟩ := ih rest
          exact ⟨behind, congrArg (· :: taken ++ behind) admits.1, replacesLater⟩

section Step

variable {rules : Rules} {before otherBefore : List Char} {c : Char} {rest other : List Char}
variable {mode : Mode} {escaped : Bool}

/-- Outside literals and comments, a text that may stand in place of the rest of
a line is the same up to the next delimiter. -/
theorem shared_of_replaces (plain : rules.detectPatterns = false)
    (fits : mode.Fits escaped rest) (notPattern : mode ≠ .pattern)
    (outside : (mode.context escaped).closing? = none)
    (replaces : Replaces (placesFrom rules before rest (mode.context escaped)) other) :
    Shared rest other := by
  generalize same : mode.context escaped = context at replaces outside
  fun_induction placesFrom rules before rest context generalizing mode escaped other with
  | case1 =>
      cases replaces
      exact .nil
  | case2 =>
      rename_i inside _
      cases inside.symm.trans outside
  | case3 before context c rest =>
      rename_i opens _ _
      subst same
      have isDelimiter : c ∈ delimiters := by
        by_contra noDelimiter
        have stays := outside_step noDelimiter rules before fits notPattern outside
        cases opens.symm.trans stays.closing
      obtain ⟨far, rfl, _⟩ := replaces.of_read
      exact .delimiter _ _ isDelimiter
  | case4 before context c rest =>
      rename_i comments _
      subst same
      have isDelimiter : c ∈ delimiters := by
        by_contra noDelimiter
        have stays := outside_step noDelimiter rules before fits notPattern outside
        cases comments.symm.trans stays.inLineComment
      obtain ⟨far, rfl, _⟩ := replaces.of_read
      exact .delimiter _ _ isDelimiter
  | case5 before context c rest =>
      rename_i s taken behind later stays _ ih
      subst same
      obtain ⟨next, after, contextEq, nextFits, nextNotPattern⟩ :=
        exists_next plain before fits notPattern
      obtain ⟨far, rfl, replacesLater⟩ := replaces.of_read
      have shared := ih nextFits nextNotPattern contextEq.symm replacesLater stays
      have whole : c :: rest = taken ++ behind := by simp [taken, behind]
      rw [whole]
      exact shared.append taken

/-- Both lines make the step `s`, and what follows is replaced as before. -/
structure StepAgrees (rules : Rules) (before otherBefore : List Char) (c d : Char)
    (rest other : List Char) (context : Context) (s : Step) : Prop where
  step_eq : step rules otherBefore d other context = s
  length_eq : other.length = rest.length
  shown : s.shown = true → d :: other.take s.further = c :: rest.take s.further
  replaces : Replaces (placesFrom rules ((c :: rest.take s.further).reverse ++ before)
    (rest.drop s.further) s.context) (other.drop s.further)
  shared : s.context.closing? = none → s.context.inLineComment = false →
    Shared ((c :: rest.take s.further).reverse ++ before)
      ((d :: other.take s.further).reverse ++ otherBefore)
  settled : s.context.closing?.isSome = true → s.context.escaped = false

theorem map_snd_map_role (role : Role) (text : List Char) :
    (text.map (role, ·)).map Prod.snd = text := by
  simp [Function.comp_def]

/-- Every character of the line has a role. -/
theorem map_snd_placesFrom (rules : Rules) (before rest : List Char) (context : Context) :
    (placesFrom rules before rest context).map Prod.snd = rest := by
  fun_induction placesFrom rules before rest context with
  | case1 => rfl
  | case2 before context c rest =>
      rename_i s taken behind later _ _ _ _ ih
      have laterEq : later.map Prod.snd = behind := ih
      rw [List.map_append, map_snd_map_role, laterEq]
      simp [taken, behind]
  | case3 before context c rest =>
      rename_i s taken behind later _ _ _ ih
      have laterEq : later.map Prod.snd = behind := ih
      rw [List.map_append, map_snd_map_role]
      split
      · rw [map_snd_map_role]
        simp [taken, behind]
      · rw [laterEq]
        simp [taken, behind]
  | case4 before context c rest =>
      rw [List.map_append, map_snd_map_role, map_snd_map_role, List.take_append_drop]
  | case5 before context c rest =>
      rename_i s taken behind later _ _ ih
      have laterEq : later.map Prod.snd = behind := ih
      rw [List.map_append, map_snd_map_role, laterEq]
      simp [taken, behind]

theorem Replaces.length_eq {context : Context}
    (replaces : Replaces (placesFrom rules before rest context) other) :
    other.length = rest.length := by
  have places := congrArg List.length (map_snd_placesFrom rules before rest context)
  rw [List.length_map, List.Forall₂.length_eq replaces] at places
  exact places

theorem take_append_of_length_eq {far : List Char} {count : Nat}
    (lengthEq : far.length = (rest.drop count).length) :
    (rest.take count ++ far).take count = rest.take count ∧
      (rest.take count ++ far).drop count = far := by
  rcases Nat.le_total count rest.length with inside | beyond
  · have taken : (rest.take count).length = count := List.length_take_of_le inside
    exact ⟨List.take_left' taken, List.drop_left' taken⟩
  · rw [List.drop_eq_nil_of_le beyond, List.length_nil, List.length_eq_zero_iff] at lengthEq
    subst lengthEq
    have short : (rest.take count).length ≤ count := List.length_take_le count rest
    rw [List.append_nil]
    exact ⟨List.take_of_length_le short, List.drop_eq_nil_of_le short⟩

/-- The step is read in the same way on both lines. -/
theorem StepAgrees.of_read {context : Context} {s : Step} {far : List Char}
    (stepEq : step rules otherBefore c (rest.take s.further ++ far) context = s)
    (replaces : Replaces (placesFrom rules ((c :: rest.take s.further).reverse ++ before)
      (rest.drop s.further) s.context) far)
    (shared : s.context.closing? = none → s.context.inLineComment = false →
      Shared ((c :: rest.take s.further).reverse ++ before)
        ((c :: rest.take s.further).reverse ++ otherBefore))
    (settled : s.context.closing?.isSome = true → s.context.escaped = false) :
    StepAgrees rules before otherBefore c c rest (rest.take s.further ++ far) context s := by
  obtain ⟨takeEq, dropEq⟩ := take_append_of_length_eq replaces.length_eq
  refine ⟨stepEq, ?_, ?_, ?_, ?_, settled⟩
  · rw [List.length_append, replaces.length_eq, ← List.length_append, List.take_append_drop]
  · intro _
    rw [takeEq]
  · rw [dropEq]
    exact replaces
  · rw [takeEq]
    exact shared

theorem stepAgrees_of_inside {closing : Char}
    (inside : (mode.context false).closing? = some closing) (otherBefore : List Char)
    (replaces : Replaces (placesFrom rules before (c :: rest) (mode.context false)) other) :
    ∃ d otherRest, other = d :: otherRest ∧
      StepAgrees rules before otherBefore c d rest otherRest (mode.context false)
        (step rules before c rest (mode.context false)) := by
  rw [placesFrom] at replaces
  simp only [inside] at replaces
  cases ends : (step rules before c rest (mode.context false)).context.closing? with
  | some next =>
      rw [ends] at replaces
      cases replaces with
      | cons admits later =>
          rename_i d otherRest
          obtain ⟨quiet, otherQuiet⟩ := admits.1
          have stepEq : step rules before c rest (mode.context false) =
              { context := mode.context false } :=
            step_content inside quiet before rest
          rw [stepEq] at later ends ⊢
          have replacesLater : Replaces (placesFrom rules ([c].reverse ++ before) rest
              (mode.context false)) otherRest := later
          refine ⟨d, otherRest, rfl, step_content inside otherQuiet _ _,
            replacesLater.length_eq, ?_, replacesLater, ?_, ?_⟩
          · intro shown
            cases shown
          · intro outside
            cases inside.symm.trans outside
          · intro _
            exact context_escaped mode false
  | none =>
      obtain ⟨contextEq, ⟨near, d, isDelimiter, takenEq⟩, sameStep⟩ :=
        step_closing (by rw [inside]; rfl) ends
      rw [ends, contextEq] at replaces
      obtain ⟨far, rfl, later⟩ := replaces.of_read
      refine ⟨c, _, rfl, .of_read (sameStep otherBefore far) (contextEq ▸ later) ?_ ?_⟩
      · intro _ _
        rw [takenEq, List.reverse_append]
        exact .delimiter _ _ isDelimiter
      · intro opened
        rw [ends] at opened
        cases opened

theorem Replaces.isBlankText_padding {text far : List Char}
    (replaces : Replaces (text.map (.padding, ·)) far) : Text.isBlankText far = true := by
  induction text generalizing far with
  | nil =>
      cases replaces
      rfl
  | cons c text ih =>
      cases replaces with
      | cons admits later =>
          have blank := ih later
          rw [Text.isBlankText] at blank ⊢
          rw [List.all_cons, admits.2 rfl, blank]
          rfl

theorem Replaces.of_padding {text far : List Char} (rules : Rules) (before : List Char)
    (replaces : Replaces (text.map (.padding, ·)) far) :
    Replaces (placesFrom rules before text (textBlock.context false)) far := by
  induction text generalizing before far with
  | nil =>
      rw [placesFrom]
      exact replaces
  | cons c text ih =>
      cases replaces with
      | cons admits later =>
          have inside : (textBlock.context false).closing? = some '"' := rfl
          rw [placesFrom]
          simp only [step_content inside admits.1.1, inside]
          exact .cons ⟨admits.1, nofun⟩ (ih ([c].reverse ++ before) later)

theorem isPrefixOf_quotes_cons (text : List Char) :
    ['"', '"'].isPrefixOf ('"' :: text) = (text.head? == some '"') := by
  cases text with
  | nil => rfl
  | cons c text => simp [List.isPrefixOf, eq_comm]

theorem isPrefixOf_quotes_of_ne (unquoted : c ≠ '"') (text : List Char) :
    ['"', '"'].isPrefixOf (c :: text) = false := by
  simp [List.isPrefixOf, unquoted.symm]

/-- Where a string is no text block, what stands in place of its characters does
not make it one. -/
theorem Replaces.not_quotes {far : List Char} (plain : rules.detectPatterns = false)
    (single : ['"', '"'].isPrefixOf rest = false)
    (replaces : Replaces (placesFrom rules before rest (string.context false)) far) :
    ['"', '"'].isPrefixOf far = false := by
  cases rest with
  | nil =>
      rw [placesFrom] at replaces
      cases replaces
      rfl
  | cons c rest =>
      by_cases isQuote : c = '"'
      · subst isQuote
        have stepEq : step rules before '"' rest (string.context false) =
            { context := code.context false } :=
          step_plain (by decide) rules before rest string
        rw [placesFrom, stepEq] at replaces
        have read : Replaces (['"'].map (.read, ·) ++
            placesFrom rules (['"'].reverse ++ before) rest (code.context false)) far := replaces
        obtain ⟨behind, rfl, later⟩ := read.of_read
        have codeFits : code.Fits false rest := trivial
        have shared := shared_of_replaces plain codeFits nofun rfl later
        rw [isPrefixOf_quotes_cons] at single
        rw [List.singleton_append, isPrefixOf_quotes_cons, shared.head?_eq]
        exact single
      · have stays : (step rules before c rest (string.context false)).context.closing? =
            some '"' := by
          by_cases isBackslash : c = '\\'
          · subst isBackslash
            rw [step_backslash]
            rfl
          · rw [step_plain isBackslash]
            simp [isQuote, Mode.context, Context.closing?]
        rw [placesFrom] at replaces
        simp only [stays, show (string.context false).closing? = some '"' from rfl] at replaces
        cases replaces with
        | cons admits _ => exact isPrefixOf_quotes_of_ne admits.1.2.2 _

/-- Both lines open the same thing. -/
theorem Opens.stepAgrees {s : Step} (opens : Opens before c rest s)
    (plain : rules.detectPatterns = false) (sharedBefore : Shared before otherBefore)
    (replaces : Replaces ((c :: rest.take s.further).map (.read, ·) ++
      if s.context.inTextBlock && !Text.isBlankText before then
        (rest.drop s.further).map (.padding, ·)
      else placesFrom rules ((c :: rest.take s.further).reverse ++ before)
        (rest.drop s.further) s.context) other) :
    ∃ otherRest, other = c :: otherRest ∧
      StepAgrees rules before otherBefore c c rest otherRest (code.context false) s := by
  obtain ⟨far, rfl, later⟩ := replaces.of_read
  have isOpen : s.context.closing?.isSome = true ∧ s.context.escaped = false := by
    cases opens <;> exact ⟨rfl, rfl⟩
  have notBackslash : c ≠ '\\' := by
    cases opens <;> decide
  have both : Opens otherBefore c (rest.take s.further ++ far) s ∧
      Replaces (placesFrom rules ((c :: rest.take s.further).reverse ++ before)
        (rest.drop s.further) s.context) far := by
    cases opens with
    | textBlock behind blank =>
        cases blankBefore : Text.isBlankText before with
        | true =>
            refine ⟨.textBlock far ?_, by simpa [blankBefore] using later⟩
            rw [sharedBefore.isBlankText_eq, blankBefore, Bool.true_or]
        | false =>
            have padded : Replaces (behind.map (.padding, ·)) far := by
              simpa [blankBefore, Mode.context] using later
            refine ⟨.textBlock far ?_, padded.of_padding rules _⟩
            rw [padded.isBlankText_padding, Bool.or_true]
    | string _ single => exact ⟨.string far (Replaces.not_quotes plain single later), later⟩
    | character => exact ⟨.character far, later⟩
    | blockComment behind => exact ⟨.blockComment far, later⟩
  refine ⟨_, rfl, .of_read ?_ both.2 ?_ fun _ => isOpen.2⟩
  · rw [step_plain notBackslash]
    exact both.1.codeStep_eq rules
  · intro closed
    rw [closed] at isOpen
    cases isOpen.1

/-- A line comment hides the rest of both lines. -/
theorem stepAgrees_of_comments (before otherBefore behind : List Char)
    (replaces : Replaces (['/', '/'].map (.read, ·) ++ behind.map (.remark, ·)) other) :
    ∃ otherRest, other = '/' :: otherRest ∧
      StepAgrees rules before otherBefore '/' '/' ('/' :: behind) otherRest (code.context false)
        (codeStep rules before '/' ('/' :: behind) (code.context false)) := by
  obtain ⟨far, rfl, remarks⟩ := replaces.of_read
  have lengthEq : ('/' :: far).length = ('/' :: behind).length := by
    simpa using (List.Forall₂.length_eq remarks).symm
  have stepEq : codeStep rules before '/' ('/' :: behind) (code.context false) =
      { further := ('/' :: behind).length, context := lineComment.context false } :=
    rfl
  rw [stepEq]
  refine ⟨'/' :: far, rfl, ?_, lengthEq, nofun, ?_, nofun, nofun⟩
  · rw [step_plain (by decide), ← lengthEq]
    rfl
  · rw [List.drop_length, ← lengthEq, List.drop_length, placesFrom]
    exact .nil

theorem stepAgrees_of_outside (plain : rules.detectPatterns = false)
    (standard : rules.opensGeneric = Scan.opensGeneric)
    (fits : mode.Fits escaped (c :: rest)) (notPattern : mode ≠ .pattern)
    (outside : (mode.context escaped).closing? = none)
    (sharedBefore : Shared before otherBefore)
    (replaces : Replaces (placesFrom rules before (c :: rest) (mode.context escaped)) other) :
    ∃ otherRest, other = c :: otherRest ∧
      StepAgrees rules before otherBefore c c rest otherRest (mode.context escaped)
        (step rules before c rest (mode.context escaped)) := by
  rw [placesFrom] at replaces
  simp only [outside] at replaces
  rcases step_elsewhere rules fits notPattern outside with
    ⟨rfl, rfl, unescaped⟩ | ⟨s, stepEq, stays⟩
  · have stepEq : ∀ before rest, step rules before c rest (code.context false) =
        codeStep rules before c rest (code.context false) :=
      fun before rest => step_plain unescaped rules before rest code
    rw [stepEq] at replaces ⊢
    cases ends : (codeStep rules before c rest (code.context false)).context.closing? with
    | some closing =>
        rw [ends] at replaces
        exact (codeStep_opens plain (by rw [ends]; rfl)).stepAgrees plain sharedBefore replaces
    | none =>
        rw [ends] at replaces
        cases comments :
            (codeStep rules before c rest (code.context false)).context.inLineComment with
        | true =>
            obtain ⟨behind, rfl, rfl⟩ := codeStep_comments plain comments
            exact stepAgrees_of_comments before otherBefore behind replaces
        | false =>
            simp only [comments, Bool.false_eq_true, if_false] at replaces
            obtain ⟨far, rfl, later⟩ := replaces.of_read
            obtain ⟨next, after, contextEq, nextFits, nextNotPattern⟩ :=
              exists_next plain before fits notPattern
            rw [stepEq] at contextEq nextFits
            have shared : Shared
                (rest.drop (codeStep rules before c rest (code.context false)).further) far := by
              rw [contextEq] at later ends
              exact shared_of_replaces plain nextFits nextNotPattern ends later
            refine ⟨_, rfl, .of_read ?_ later (fun _ _ => sharedBefore.append _) ?_⟩
            · rw [stepEq]
              exact codeStep_eq_of_stays plain standard sharedBefore ends shared later.length_eq
            · intro opened
              rw [ends] at opened
              cases opened
  · rw [stepEq] at replaces ⊢
    simp only [stays.closing, stays.inLineComment, Bool.false_eq_true, if_false] at replaces
    obtain ⟨far, rfl, later⟩ := replaces.of_read
    refine ⟨_, rfl, .of_read (stepEq _ _) later (fun _ _ => sharedBefore.append _) ?_⟩
    intro opened
    rw [stays.closing] at opened
    cases opened

theorem Outcome.prepend_eq {taken otherTaken : List Char} {s : Step} (outcome : Outcome)
    (lengthEq : otherTaken.length = taken.length) (shown : s.shown = true → otherTaken = taken) :
    outcome.prepend otherTaken s = outcome.prepend taken s := by
  cases isShown : s.shown with
  | true => rw [shown isShown]
  | false => simp [prepend, isShown, lengthEq]

theorem scanFrom_eq_of_replaces (plain : rules.detectPatterns = false)
    (standard : rules.opensGeneric = Scan.opensGeneric)
    (fits : mode.Fits escaped rest) (notPattern : mode ≠ .pattern)
    (settled : (mode.context escaped).closing?.isSome = true → escaped = false)
    (sharedBefore : (mode.context escaped).closing? = none →
      (mode.context escaped).inLineComment = false → Shared before otherBefore)
    (replaces : Replaces (placesFrom rules before rest (mode.context escaped)) other) :
    scanFrom rules otherBefore other (mode.context escaped) =
      scanFrom rules before rest (mode.context escaped) := by
  -- Inside a literal nothing looks back, so the texts before need not agree
  -- there; outside they agree back to the last delimiter.
  generalize same : mode.context escaped = context at *
  fun_induction scanFrom rules before rest context
    generalizing mode escaped other otherBefore with
  | case1 before context =>
      rw [placesFrom] at replaces
      cases replaces
      rw [scanFrom]
  | case2 before context c rest =>
      rename_i s taken ih
      subst same
      obtain ⟨d, otherRest, rfl, agrees⟩ : ∃ d otherRest, other = d :: otherRest ∧
          StepAgrees rules before otherBefore c d rest otherRest (mode.context escaped) s := by
        cases inside : (mode.context escaped).closing? with
        | some closing =>
            obtain rfl : escaped = false := settled (by rw [inside]; rfl)
            exact stepAgrees_of_inside inside otherBefore replaces
        | none =>
            have noComment : (mode.context escaped).inLineComment = false := by
              cases mode with
              | lineComment => cases fits
              | _ => rfl
            exact ⟨c, stepAgrees_of_outside plain standard fits notPattern inside
              (sharedBefore inside noComment) replaces⟩
      obtain ⟨next, after, contextEq, nextFits, nextNotPattern⟩ :=
        exists_next plain before fits notPattern
      have nextSettled (opened : s.context.closing?.isSome = true) : after = false := by
        rw [← context_escaped next after, ← contextEq]
        exact agrees.settled opened
      have tailEq := ih nextFits nextNotPattern contextEq.symm nextSettled agrees.shared
        agrees.replaces
      rw [scanFrom]
      simp only [agrees.step_eq]
      rw [tailEq]
      refine Outcome.prepend_eq _ ?_ agrees.shown
      simp [taken, agrees.length_eq]

end Step

/-- A line whose literals and comments hold other characters, none of which ends
or escapes anything, is scanned like the line itself: with the same mask, the
same braces and the same context behind it. -/
theorem scanLine_eq_of_replaces {rules : Rules} (plain : rules.detectPatterns = false)
    (standard : rules.opensGeneric = Scan.opensGeneric) (earlier : List Line)
    {line other : Line}
    (replaces : Replaces (places rules line (contextAfter rules earlier)) other) :
    scanLine rules other (contextAfter rules earlier) =
      scanLine rules line (contextAfter rules earlier) := by
  obtain ⟨mode, spans, contextEq⟩ := carried_contextAfter rules earlier
  rw [contextEq] at replaces ⊢
  refine scanFrom_eq_of_replaces plain standard (spans.fits false line) ?_ (fun _ => rfl)
    (fun _ _ => .nil) replaces
  rintro rfl
  exact spans

/-- A line that starts inside a comment, with literals and a comment behind it. -/
def guardedLine : Line :=
  "now */ @A(\"b\") List<T> m = f(\"<T>\", '\x7b'); // all \x7d".toList

/-- The same code with braces and brackets in other places. -/
def otherGuardedLine : Line :=
  "\x7d@( */ @A(\"b\") List<T> m = f(\"\x7b\x7b\x7b\", '>'); // \"/*\x7b\x7b".toList

theorem guardedLines_scan_alike :
    guardedLine ≠ otherGuardedLine ∧
      scanLine { detectPatterns := false } otherGuardedLine
          (contextAfter { detectPatterns := false } ["/* as of".toList]) =
        scanLine { detectPatterns := false } guardedLine
          (contextAfter { detectPatterns := false } ["/* as of".toList]) :=
  ⟨by decide, scanLine_eq_of_replaces rfl rfl ["/* as of".toList] (by decide +kernel)⟩

/-- A text block behind code reads the rest of its line before it opens, so a
visible character in place of a blank keeps it closed. -/
theorem text_block_reads_ahead :
    ¬ ∀ (rules : Rules) (earlier : List Line) (line other : Line),
      rules.detectPatterns = false → rules.opensGeneric = Scan.opensGeneric →
      List.Forall₂ (fun place char => place.1.Hides place.2 char)
        (places rules line (contextAfter rules earlier)) other →
      scanLine rules other (contextAfter rules earlier) =
        scanLine rules line (contextAfter rules earlier) := by
  intro same
  have alike := same { detectPatterns := false } [] "x = \"\"\" ".toList
    "x = \"\"\"\x7b".toList rfl rfl (by decide +kernel)
  have differ : scanLine { detectPatterns := false } "x = \"\"\"\x7b".toList .fresh ≠
      scanLine { detectPatterns := false } "x = \"\"\" ".toList .fresh := by
    decide +kernel
  exact differ alike

end Scan
end CallTree
