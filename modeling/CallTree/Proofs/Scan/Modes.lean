import CallTree.Scan.Line

/-!
# Modes of a scan

The flags and levels of a scan context are independent fields, but a scan that
starts with nothing open never opens two things at once.  Here a scan is
described by the one mode that it is in.  A step takes a mode to a mode, so
every context that a scan carries out of a line has at most one thing open,
and levels that fit it.
-/

namespace CallTree
namespace Scan

/-- What is open at a position of a line, of which at most one thing can be. -/
inductive Mode where
  | code
  | string
  | character
  | textBlock
  | blockComment
  | lineComment
  | pattern
  /-- The name of an annotation has been read, and its parenthesis is next. -/
  | beforeArguments
  /-- Annotation arguments, with `inner` brackets open inside the first. -/
  | arguments (inner : Nat)
  /-- A type argument list, with `inner` lists open inside the first. -/
  | generic (inner : Nat)
  deriving DecidableEq, Repr

namespace Mode

/-- The context of a scan in this mode. -/
def context (mode : Mode) (escaped : Bool) : Context :=
  match mode with
  | code => { escaped }
  | string => { inString := true, escaped }
  | character => { inCharacter := true, escaped }
  | textBlock => { inTextBlock := true, escaped }
  | blockComment => { inBlockComment := true, escaped }
  | lineComment => { inLineComment := true, escaped }
  | pattern => { inPattern := true, escaped }
  | beforeArguments => { inArguments := true, escaped }
  | arguments inner => { inArguments := true, argumentLevel := inner + 1, escaped }
  | generic inner => { inGeneric := true, genericLevel := inner + 1, escaped }

/-- The mode can be met before the rest of a line.  Only an opening parenthesis
follows the name of an annotation with arguments, and nothing is left to read
behind the slashes of a line comment. -/
def Fits (mode : Mode) (escaped : Bool) (rest : List Char) : Prop :=
  match mode with
  | beforeArguments => escaped = false ∧ rest.head? = some '('
  | lineComment => rest = []
  | _ => True

/-- The mode goes on behind the end of a line. -/
def Spans : Mode → Prop
  | code | textBlock | blockComment | arguments _ | generic _ => True
  | string | character | lineComment | pattern | beforeArguments => False

theorem Spans.fits {mode : Mode} (spans : mode.Spans) (escaped : Bool) (rest : List Char) :
    mode.Fits escaped rest := by
  cases mode <;> trivial

@[simp]
theorem context_escaped (mode : Mode) (escaped : Bool) :
    (mode.context escaped).escaped = escaped := by
  cases mode <;> rfl

@[simp]
theorem setEscaped_context (mode : Mode) (escaped after : Bool) :
    { mode.context escaped with escaped := after } = mode.context after := by
  cases mode <;> rfl

def carry : Mode → Mode
  | string | character | lineComment | pattern => code
  | mode => mode

theorem carry_context (mode : Mode) (escaped : Bool) :
    (mode.context escaped).carry = mode.carry.context false := by
  cases mode <;> rfl

theorem carry_spans {mode : Mode} {escaped : Bool} (fits : mode.Fits escaped []) :
    mode.carry.Spans := by
  cases mode with
  | beforeArguments => cases fits.2
  | _ => trivial

/-- What a type argument list becomes behind one of its characters. -/
def behindTypeArgument (c : Char) (inner : Nat) : Mode :=
  if c = '<' then generic (inner + 1)
  else if c = '>' then
    match inner with
    | 0 => code
    | inner + 1 => generic inner
  else generic inner

/-- What annotation arguments become behind one of their characters. -/
def behindArgument (c : Char) (inner : Nat) : Mode :=
  if c = '(' ∨ c = '{' then arguments (inner + 1)
  else if c = ')' ∨ c = '}' then
    match inner with
    | 0 => code
    | inner + 1 => arguments inner
  else arguments inner

theorem behindTypeArgument_fits (c : Char) (inner : Nat) (escaped : Bool) (rest : List Char) :
    (behindTypeArgument c inner).Fits escaped rest := by
  unfold behindTypeArgument
  split
  · trivial
  · split
    · cases inner <;> trivial
    · trivial

def isGeneric : Mode → Bool
  | generic _ => true
  | _ => false

theorem behindArgument_cases (c : Char) (inner : Nat) :
    behindArgument c inner = code ∨ ∃ deeper, behindArgument c inner = arguments deeper := by
  unfold behindArgument
  split
  · exact .inr ⟨inner + 1, rfl⟩
  · split
    · cases inner with
      | zero => exact .inl rfl
      | succ inner => exact .inr ⟨inner, rfl⟩
    · exact .inr ⟨inner, rfl⟩

end Mode

open Mode

/-- What a step can do at the character `c` of a line, from one mode to
another. -/
inductive Moves (rules : Rules) (before : List Char) (c : Char) (rest : List Char) :
    Mode → Bool → Step → Mode → Bool → Prop where
  /-- The character behind a backslash is hidden. -/
  | unescape (mode : Mode) :
      Moves rules before c rest mode true { context := mode.context false } mode false
  | escape (mode : Mode) : c = '\\' →
      Moves rules before c rest mode false { context := mode.context true } mode true
  /-- Characters that are no code are hidden, with the delimiters around them. -/
  | hide (mode next : Mode) (further : Nat) :
      mode.isGeneric = false → next.isGeneric = false → next.Fits false (rest.drop further) →
      Moves rules before c rest mode false { further, context := next.context false } next false
  /-- A type argument list is shown, and no brace is counted in it. -/
  | typeArgument (inner : Nat) :
      Moves rules before c rest (generic inner) false
        { shown := true, context := (behindTypeArgument c inner).context false }
        (behindTypeArgument c inner) false
  | openGeneric : c = '<' → rules.opensGeneric before (c :: rest) = true →
      Moves rules before c rest code false
        { shown := true, context := (generic 0).context false } (generic 0) false
  /-- The name of an annotation without arguments is shown. -/
  | marker : c = '@' →
      Moves rules before c rest code false
        { further := (annotationName rest).length, shown := true, context := code.context false }
        code false
  | plain :
      Moves rules before c rest code false
        { shown := true
          opens := if c == '{' then 1 else 0
          closes := if c == '}' then 1 else 0
          context := code.context false }
        code false

section Step

variable {rules : Rules} {before : List Char} {c : Char} {rest : List Char}
variable {mode next : Mode} {escaped after : Bool} {s : Step}

theorem Moves.context_eq (moves : Moves rules before c rest mode escaped s next after) :
    s.context = next.context after := by
  cases moves <;> rfl

/-- A move ends where its mode can be met.  An escape neither follows the name of
an annotation nor the slashes of a line comment. -/
theorem Moves.fits (moves : Moves rules before c rest mode escaped s next after)
    (fits : mode.Fits escaped (c :: rest)) : next.Fits after (rest.drop s.further) := by
  cases moves with
  | unescape =>
      cases mode with
      | beforeArguments => cases fits.1
      | lineComment => cases fits
      | _ => trivial
  | escape =>
      rename_i isBackslash
      cases mode with
      | beforeArguments => simp [isBackslash, Fits] at fits
      | lineComment => cases fits
      | _ => trivial
  | hide _ _ _ _ _ nextFits => exact nextFits
  | typeArgument inner => exact behindTypeArgument_fits c inner _ _
  | openGeneric => trivial
  | marker => trivial
  | plain => trivial

theorem genericStep_eq (c : Char) (inner : Nat) :
    genericStep c ((generic inner).context false) =
      { shown := true, context := (behindTypeArgument c inner).context false } := by
  by_cases opens : c = '<'
  · simp [genericStep, behindTypeArgument, opens, Mode.context]
  · by_cases closes : c = '>'
    · cases inner with
      | zero => simp [genericStep, behindTypeArgument, closes, Mode.context]
      | succ inner =>
          have deeper : ¬ ((inner : Int) + 1 ≤ 0) := by omega
          simp [genericStep, behindTypeArgument, closes, Mode.context, deeper]
    · simp [genericStep, behindTypeArgument, opens, closes, Mode.context]

theorem annotationArgumentStep_eq (c : Char) (inner : Nat) :
    annotationArgumentStep c ((arguments inner).context false) =
      { context := (behindArgument c inner).context false } := by
  by_cases opens : c = '(' ∨ c = '{'
  · simp [annotationArgumentStep, behindArgument, opens, Mode.context]
  · by_cases closes : c = ')' ∨ c = '}'
    · cases inner with
      | zero => simp [annotationArgumentStep, behindArgument, opens, closes, Mode.context]
      | succ inner =>
          have deeper : ¬ ((inner : Int) + 1 ≤ 0) := by omega
          simp [annotationArgumentStep, behindArgument, opens, closes, Mode.context, deeper]
    · simp [annotationArgumentStep, behindArgument, opens, closes, Mode.context]

theorem annotationStep_moves (isAt : c = '@') :
    ∃ next, Moves rules before c rest code false
      (annotationStep rest (code.context false)) next false := by
  rw [annotationStep]
  split
  · rename_i called
    refine ⟨beforeArguments, .hide code beforeArguments _ rfl rfl ⟨rfl, ?_⟩⟩
    rw [← List.drop_drop]
    exact beq_iff_eq.mp called
  · exact ⟨code, .marker isAt⟩

theorem codeStep_moves :
    ∃ next, Moves rules before c rest code false
      (codeStep rules before c rest (code.context false)) next false := by
  rw [codeStep]
  split
  · split
    · exact ⟨lineComment, .hide code lineComment _ rfl rfl List.drop_length⟩
    · split
      · exact ⟨blockComment, .hide code blockComment _ rfl rfl trivial⟩
      · split
        · exact ⟨pattern, .hide code pattern _ rfl rfl trivial⟩
        · rename_i slash _ _ _
          obtain rfl : c = '/' := beq_iff_eq.mp slash
          exact ⟨code, .plain⟩
  · split
    · split
      · split
        · exact ⟨textBlock, .hide code textBlock _ rfl rfl trivial⟩
        · exact ⟨code, .hide code code _ rfl rfl trivial⟩
      · exact ⟨string, .hide code string _ rfl rfl trivial⟩
    · split
      · exact ⟨character, .hide code character _ rfl rfl trivial⟩
      · split
        · rename_i isAt
          exact annotationStep_moves (beq_iff_eq.mp isAt)
        · split
          · rename_i opens
            obtain ⟨isAngle, judged⟩ := Bool.and_eq_true_iff.mp opens
            exact ⟨generic 0, .openGeneric (beq_iff_eq.mp isAngle) judged⟩
          · exact ⟨code, .plain⟩

/-- Inside a literal or a comment, everything is hidden up to its end. -/
theorem literal_moves (mode : Mode) (further : Nat) (ends : Bool)
    (notGeneric : mode.isGeneric = false) (fits : mode.Fits false rest) :
    ∃ next after, Moves rules before c rest mode false
      (if ends then { further, context := code.context false }
        else { context := mode.context false }) next after := by
  cases ends with
  | true => exact ⟨code, false, .hide mode code further notGeneric rfl trivial⟩
  | false => exact ⟨mode, false, .hide mode mode 0 notGeneric notGeneric fits⟩

theorem quoted_moves (mode : Mode) (ends : Bool) (notGeneric : mode.isGeneric = false)
    (fits : mode.Fits false rest) :
    ∃ next after, Moves rules before c rest mode false
      { context := if ends then code.context false else mode.context false } next after := by
  cases ends with
  | true => exact literal_moves mode 0 true notGeneric fits
  | false => exact literal_moves mode 0 false notGeneric fits

theorem step_moves (rules : Rules) (before : List Char) (fits : mode.Fits escaped (c :: rest)) :
    ∃ next after, Moves rules before c rest mode escaped
      (step rules before c rest (mode.context escaped)) next after := by
  cases escaped with
  | true =>
      refine ⟨mode, false, ?_⟩
      rw [step, context_escaped, if_pos rfl, setEscaped_context]
      exact .unescape mode
  | false =>
      by_cases isBackslash : c = '\\'
      · refine ⟨mode, true, ?_⟩
        rw [step, context_escaped, if_neg Bool.false_ne_true, if_pos (beq_iff_eq.mpr isBackslash),
          setEscaped_context]
        exact .escape mode isBackslash
      · rw [step, context_escaped, if_neg Bool.false_ne_true,
          if_neg (by simpa using isBackslash)]
        -- One flag is on, so the chain of conditions comes down to its own.
        cases mode with
        | code => exact codeStep_moves.imp fun _ moves => ⟨false, moves⟩
        | lineComment => cases fits
        | beforeArguments =>
            obtain rfl : c = '(' := by simpa using fits.2
            exact ⟨arguments 0, false, .hide beforeArguments (arguments 0) 0 rfl rfl trivial⟩
        | arguments inner =>
            have eq := annotationArgumentStep_eq c inner
            rcases behindArgument_cases c inner with ends | ⟨deeper, stays⟩
            · rw [ends] at eq
              exact ⟨code, false, eq.symm ▸ .hide (arguments inner) code 0 rfl rfl trivial⟩
            · rw [stays] at eq
              exact ⟨arguments deeper, false,
                eq.symm ▸ .hide (arguments inner) (arguments deeper) 0 rfl rfl trivial⟩
        | generic inner =>
            refine ⟨behindTypeArgument c inner, false, ?_⟩
            exact (genericStep_eq c inner).symm ▸ .typeArgument inner
        | blockComment => exact literal_moves blockComment 1 _ rfl trivial
        | textBlock => exact literal_moves textBlock 2 _ rfl trivial
        | string => exact quoted_moves string _ rfl trivial
        | character => exact quoted_moves character _ rfl trivial
        | pattern => exact quoted_moves pattern _ rfl trivial

/-- A scan that starts a line in a mode leaves it in one that goes on behind
the line's end. -/
theorem scanFrom_context (rules : Rules) (before : List Char)
    (fits : mode.Fits escaped rest) :
    ∃ next : Mode, next.Spans ∧
      (scanFrom rules before rest (mode.context escaped)).context = next.context false := by
  -- The scan is followed with its context written as a mode, one move at a time.
  generalize same : mode.context escaped = context
  fun_induction scanFrom rules before rest context generalizing mode escaped with
  | case1 before context =>
      rw [← same]
      exact ⟨mode.carry, carry_spans fits, carry_context mode escaped⟩
  | case2 before context c rest =>
      rename_i ih
      subst same
      obtain ⟨next, after, moves⟩ := step_moves rules before fits
      exact ih (moves.fits fits) moves.context_eq.symm

end Step

/-- What is carried out of a line is at most one open thing, with its level. -/
structure Context.Settled (context : Context) : Prop where
  inString : context.inString = false
  inCharacter : context.inCharacter = false
  inPattern : context.inPattern = false
  inLineComment : context.inLineComment = false
  escaped : context.escaped = false
  atMostOne : [context.inBlockComment, context.inTextBlock, context.inArguments,
    context.inGeneric].count true ≤ 1
  argumentLevel :
    if context.inArguments then 1 ≤ context.argumentLevel else context.argumentLevel = 0
  genericLevel :
    if context.inGeneric then 1 ≤ context.genericLevel else context.genericLevel = 0

theorem Mode.Spans.settled {mode : Mode} (spans : mode.Spans) :
    (mode.context false).Settled := by
  cases mode with
  | string | character | lineComment | pattern | beforeArguments => exact spans.elim
  | code | textBlock | blockComment => constructor <;> decide
  | arguments inner =>
      refine ⟨rfl, rfl, rfl, rfl, rfl, Nat.le_refl _, ?_, rfl⟩
      simp only [Mode.context, if_true]
      omega
  | generic inner =>
      refine ⟨rfl, rfl, rfl, rfl, rfl, Nat.le_refl _, rfl, ?_⟩
      simp only [Mode.context, if_true]
      omega

/-- A context as a scan can carry it from one line to the next. -/
def Carried (context : Context) : Prop :=
  ∃ mode : Mode, mode.Spans ∧ context = mode.context false

theorem carried_fresh : Carried .fresh :=
  ⟨code, trivial, rfl⟩

theorem carried_scanLine (rules : Rules) (line : Line) {context : Context}
    (carried : Carried context) : Carried (scanLine rules line context).context := by
  obtain ⟨mode, spans, rfl⟩ := carried
  exact scanFrom_context rules [] (spans.fits false line)

/-- The context behind some lines of a source. -/
def contextAfter (rules : Rules) (lines : List Line) : Context :=
  lines.foldl (fun context line => (scanLine rules line context).context) .fresh

theorem carried_contextAfter (rules : Rules) (lines : List Line) :
    Carried (contextAfter rules lines) := by
  suffices kept : ∀ context, Carried context → Carried
      (lines.foldl (fun context line => (scanLine rules line context).context) context) from
    kept .fresh carried_fresh
  induction lines with
  | nil => exact fun _ carried => carried
  | cons line lines ih =>
      intro context carried
      exact ih _ (carried_scanLine rules line carried)

theorem carried_of_mem_scanLines {rules : Rules} {context : Context}
    (carried : Carried context) {lines : List Line} {outcome : Outcome}
    (member : outcome ∈ scanLines rules context lines) : Carried outcome.context := by
  induction lines generalizing context with
  | nil => cases member
  | cons line lines ih =>
      have next := carried_scanLine rules line carried
      rcases List.mem_cons.mp member with rfl | later
      · exact next
      · exact ih next later

/-- Every context carried out of a line, by a scan that starts with nothing
open, has at most one thing open.  This does not depend on how the scan judges
angle brackets and slashes. -/
theorem scanLines_settled (rules : Rules) (lines : List Line) :
    ∀ outcome ∈ scanLines rules .fresh lines, outcome.context.Settled := by
  intro outcome member
  obtain ⟨mode, spans, same⟩ := carried_of_mem_scanLines carried_fresh member
  rw [same]
  exact spans.settled

/-- Lines that leave a type argument list, a comment and arguments open. -/
def openLines : List Line :=
  ["a < b".toList, "c > /* d".toList, "*/ @E(\x7b x".toList]

/-- Where every angle bracket opens a list, two brackets of arguments are open
behind the last line, and nothing else is. -/
theorem openLines_settled :
    ∃ outcome ∈ scanLines { opensGeneric := fun _ _ => true } .fresh openLines,
      outcome.context.argumentLevel = 2 ∧ outcome.context.Settled := by
  have present : ∃ outcome ∈ scanLines { opensGeneric := fun _ _ => true } .fresh openLines,
      outcome.context.argumentLevel = 2 := by
    decide +kernel
  obtain ⟨outcome, member, level⟩ := present
  exact ⟨outcome, member, level, scanLines_settled _ _ outcome member⟩

end Scan
end CallTree
