import CallTree.Proofs.Scan.Steps
import CallTree.Source
import Mathlib.Data.List.Chain

/-!
# Parts of a line

A scan takes each character of a line for code, or for a part of something else:
of a literal, of a comment, of an annotation with its arguments, or of an escape.
Which of them it is depends on what is open before the character and behind it.
The mask of a line shows the code and hides the other parts.  Apart from escapes,
a part can only start and end at the delimiters of literals and comments, at the
`@` of an annotation, and at brackets that are closed.
-/

namespace CallTree
namespace Scan

open Mode

/-- What a scan takes a character of a line for. -/
inductive Part where
  | code
  /-- A string, a character, a text block or a pattern, with its delimiters. -/
  | literal
  /-- A comment, with its delimiters. -/
  | comment
  /-- An annotation with arguments, from its `@` to the bracket that ends them. -/
  | arguments
  /-- A backslash, or the character behind it, outside of the others. -/
  | escape
  deriving DecidableEq, Repr

/-- The part that is open in a context.  Type argument lists are code. -/
def Context.part (context : Context) : Part :=
  if context.inBlockComment || context.inLineComment then .comment
  else if context.inString || context.inCharacter || context.inTextBlock ||
      context.inPattern then .literal
  else if context.inArguments then .arguments
  else .code

/-- What the characters of a step are, whose first one is `c`.  They belong to what
is open before the step, or else to what it opens.  Three quotes that open no text
block are a literal of their own. -/
def stepPart (c : Char) (before after : Context) : Part :=
  if before.part ≠ .code then before.part
  else if after.part ≠ .code then after.part
  else if before.escaped || after.escaped then .escape
  else if before.inCode && c == '"' then .literal
  else .code

/-- A line, each character with its part. -/
abbrev PartedLine := List (Part × Char)

/-- What is left of a line, each character with its part. -/
def partsFrom (rules : Rules) (before rest : List Char) (context : Context) : PartedLine :=
  match rest with
  | [] => []
  | c :: rest =>
      let s := step rules before c rest context
      let taken := c :: rest.take s.further
      taken.map (stepPart c context s.context, ·) ++
        partsFrom rules (taken.reverse ++ before) (rest.drop s.further) s.context
termination_by rest.length
decreasing_by
  simp only [List.length_drop, List.length_cons]
  omega

/-- The lines, each of them in the context that the line before it leaves. -/
def partedLines (rules : Rules) (context : Context) : List Line → List PartedLine
  | [] => []
  | line :: lines =>
      partsFrom rules [] line context ::
        partedLines rules (scanLine rules line context).context lines

namespace PartedLine

/-- The line as it is written. -/
def raw (line : PartedLine) : Line :=
  line.map Prod.snd

/-- The line with its code alone. -/
def mask (line : PartedLine) : Line :=
  line.map fun place => if place.1 = .code then place.2 else ' '

theorem raw_append (line other : PartedLine) : (line ++ other).raw = line.raw ++ other.raw :=
  List.map_append

theorem mask_append (line other : PartedLine) : (line ++ other).mask = line.mask ++ other.mask :=
  List.map_append

end PartedLine

/-- The characters at which a part other than an escape starts or ends. -/
def partEdges : List Char :=
  ['"', '\x27', '/', '@', ')', '}']

/-- Neighbours belong to one part, unless one of them is an escape or stands at the
edge of a part. -/
def SamePart (place next : Part × Char) : Prop :=
  place.1 ≠ .escape → next.1 ≠ .escape → place.2 ∉ partEdges → next.2 ∉ partEdges →
    place.1 = next.1

/-- How the part of a step's characters fits to its contexts.  Where it is not what
was open before, the first of them is an edge; where it is not what is open behind,
the last one is. -/
structure FitsParts (c : Char) (rest : List Char) (before : Context) (s : Step) : Prop where
  shown : s.shown = true ↔ stepPart c before s.context = .code
  opens : stepPart c before s.context = before.part ∨
    stepPart c before s.context = .escape ∨ c ∈ partEdges
  closes : stepPart c before s.context = s.context.part ∨
    stepPart c before s.context = .escape ∨
    ∀ last ∈ (c :: rest.take s.further).getLast?, last ∈ partEdges

section Step

variable {rules : Rules} {before : List Char} {c : Char} {rest : List Char}
variable {mode next : Mode} {escaped after : Bool} {s : Step}

theorem part_context (mode : Mode) (escaped : Bool) :
    (mode.context escaped).part = (mode.context false).part := by
  cases mode <;> rfl

theorem edge_of_getLast? (front : List Char) (edge : c ∈ partEdges) :
    ∀ last ∈ (front ++ [c]).getLast?, last ∈ partEdges := by
  simpa using edge

/-- What is open before a hidden step has its characters. -/
theorem FitsParts.inside {context : Context} (inside : context.part ≠ .code)
    (hidden : s.shown = false)
    (closes : s.context.part = context.part ∨
      ∀ last ∈ (c :: rest.take s.further).getLast?, last ∈ partEdges) :
    FitsParts c rest context s := by
  have partEq : stepPart c context s.context = context.part := if_pos inside
  refine ⟨by simp [partEq, hidden, inside], .inl partEq, ?_⟩
  rw [partEq]
  exact closes.imp Eq.symm .inr

/-- What a hidden step opens has its characters. -/
theorem FitsParts.opening {context : Context} (outside : context.part = .code)
    (opened : s.context.part ≠ .code) (hidden : s.shown = false) (edge : c ∈ partEdges) :
    FitsParts c rest context s := by
  have partEq : stepPart c context s.context = s.context.part := by
    rw [stepPart, if_neg (not_not.mpr outside), if_pos opened]
  exact ⟨by simp [partEq, hidden, opened], .inr (.inr edge), .inl partEq⟩

theorem FitsParts.escaping {context : Context} (outside : context.part = .code)
    (stays : s.context.part = .code) (hidden : s.shown = false)
    (escapes : (context.escaped || s.context.escaped) = true) :
    FitsParts c rest context s := by
  have partEq : stepPart c context s.context = .escape := by
    rw [stepPart, if_neg (not_not.mpr outside), if_neg (not_not.mpr stays), if_pos escapes]
  exact ⟨by simp [partEq, hidden], .inr (.inl partEq), .inr (.inl partEq)⟩

theorem FitsParts.reading {context : Context} (outside : context.part = .code)
    (stays : s.context.part = .code) (shown : s.shown = true)
    (plain : (context.escaped || s.context.escaped) = false)
    (noQuote : (context.inCode && c == '"') = false) :
    FitsParts c rest context s := by
  have partEq : stepPart c context s.context = .code := by
    rw [stepPart, if_neg (not_not.mpr outside), if_neg (not_not.mpr stays), plain, noQuote]
    rfl
  exact ⟨by simp [partEq, shown], .inl (partEq.trans outside.symm),
    .inl (partEq.trans stays.symm)⟩

/-- A literal or a comment goes on, or is ended by a delimiter. -/
theorem fitsParts_closing {further : Nat} {ends : Prop} [Decidable ends]
    (inside : (mode.context false).part ≠ .code)
    (edge : ends → ∀ last ∈ (c :: rest.take further).getLast?, last ∈ partEdges) :
    FitsParts c rest (mode.context false)
      (if ends then { further, context := code.context false }
        else { context := mode.context false }) := by
  split
  · rename_i ended
    exact .inside inside rfl (.inr (edge ended))
  · exact .inside inside rfl (.inl rfl)

/-- A literal goes on, or is ended by one character. -/
theorem fitsParts_quoted {ends : Prop} [Decidable ends]
    (inside : (mode.context false).part ≠ .code) (edge : ends → c ∈ partEdges) :
    FitsParts c rest (mode.context false)
      { context := (if ends then code else mode).context false } := by
  split
  · rename_i ended
    exact .inside inside rfl (.inr (edge_of_getLast? [] (edge ended)))
  · exact .inside inside rfl (.inl rfl)

theorem fitsParts_argument (c : Char) (rest : List Char) (inner : Nat) :
    FitsParts c rest ((arguments inner).context false)
      { context := (behindArgument c inner).context false } := by
  have inside : ((arguments inner).context false).part ≠ .code := by rintro ⟨⟩
  unfold behindArgument
  split
  · exact .inside inside rfl (.inl rfl)
  · split
    · rename_i closes
      cases inner with
      | zero =>
          have edge : c ∈ partEdges := by
            rcases closes with rfl | rfl <;> decide
          exact .inside inside rfl (.inr (edge_of_getLast? [] edge))
      | succ inner => exact .inside inside rfl (.inl rfl)
    · exact .inside inside rfl (.inl rfl)

theorem fitsParts_typeArgument (c : Char) (rest : List Char) (inner : Nat) :
    FitsParts c rest ((generic inner).context false)
      { shown := true, context := (behindTypeArgument c inner).context false } := by
  rcases behindTypeArgument_cases c inner with ends | ⟨deeper, stays⟩
  · rw [ends]
    exact .reading rfl rfl rfl rfl rfl
  · rw [stays]
    exact .reading rfl rfl rfl rfl rfl

theorem fitsParts_annotationStep (rest : List Char) :
    FitsParts '@' rest (code.context false) (annotationStep rest (code.context false)) := by
  rw [annotationStep]
  split
  · exact .opening rfl (by rintro ⟨⟩) rfl (by decide)
  · exact .reading rfl rfl rfl rfl rfl

/-- Quotes of code open a literal or, if nothing is opened, are one. -/
theorem fitsParts_quote (rules : Rules) (before rest : List Char) :
    FitsParts '"' rest (code.context false)
      (codeStep rules before '"' rest (code.context false)) := by
  rw [codeStep_quote]
  split
  · rename_i quotes
    obtain ⟨behind, rfl⟩ := List.isPrefixOf_iff_prefix.mp quotes
    cases Text.isBlankText before || Text.isBlankText ((['"', '"'] ++ behind).drop 2) with
    | true => exact .opening rfl (by rintro ⟨⟩) rfl (by decide)
    | false =>
        exact ⟨by decide, .inr (.inr (by decide)),
          .inr (.inr (edge_of_getLast? ['"', '"'] (by decide)))⟩
  · exact .opening rfl (by rintro ⟨⟩) rfl (by decide)

theorem fitsParts_codeStep (rules : Rules) (before : List Char) (c : Char) (rest : List Char) :
    FitsParts c rest (code.context false)
      (codeStep rules before c rest (code.context false)) := by
  by_cases quote : c = '"'
  · subst quote
    exact fitsParts_quote rules before rest
  · have noQuote : (Context.inCode (code.context false) && c == '"') = false := by
      simpa using fun _ => quote
    rw [codeStep]
    split
    · rename_i slash
      obtain rfl : c = '/' := beq_iff_eq.mp slash
      split
      · exact .opening rfl (by rintro ⟨⟩) rfl (by decide)
      · split
        · exact .opening rfl (by rintro ⟨⟩) rfl (by decide)
        · split
          · exact .opening rfl (by rintro ⟨⟩) rfl (by decide)
          · exact .reading rfl rfl rfl rfl noQuote
    · split
      · rename_i isQuote
        exact absurd (beq_iff_eq.mp isQuote) quote
      · split
        · rename_i isQuote
          obtain rfl : c = '\x27' := beq_iff_eq.mp isQuote
          exact .opening rfl (by rintro ⟨⟩) rfl (by decide)
        · split
          · rename_i isAt
            obtain rfl : c = '@' := beq_iff_eq.mp isAt
            exact fitsParts_annotationStep rest
          · split
            · exact .reading rfl rfl rfl rfl noQuote
            · exact .reading rfl rfl rfl rfl noQuote

theorem fitsParts_step (rules : Rules) (before : List Char)
    (fits : mode.Fits escaped (c :: rest)) :
    FitsParts c rest (mode.context escaped) (step rules before c rest (mode.context escaped)) := by
  have escapes (after : Bool) (either : (escaped || after) = true) :
      FitsParts c rest (mode.context escaped) { context := mode.context after } := by
    by_cases outside : (mode.context escaped).part = .code
    · refine .escaping outside ?_ rfl (by simpa using either)
      rw [part_context, ← part_context mode escaped, outside]
    · refine .inside outside rfl (.inl ?_)
      rw [part_context, ← part_context mode escaped]
  cases escaped with
  | true =>
      rw [step_escaped]
      exact escapes false rfl
  | false =>
      by_cases isBackslash : c = '\\'
      · subst isBackslash
        rw [step_backslash]
        exact escapes true rfl
      · rw [step_plain isBackslash]
        cases mode with
        | code => exact fitsParts_codeStep rules before c rest
        | lineComment => cases fits
        | beforeArguments =>
            obtain rfl : c = '(' := by simpa using fits.2
            exact .inside (by rintro ⟨⟩) rfl (.inl rfl)
        | arguments inner => exact fitsParts_argument c rest inner
        | generic inner => exact fitsParts_typeArgument c rest inner
        | string =>
            refine fitsParts_quoted (by decide) ?_
            rintro rfl
            decide
        | character =>
            refine fitsParts_quoted (by decide) ?_
            rintro rfl
            decide
        | pattern =>
            refine fitsParts_quoted (by decide) ?_
            intro ends
            obtain rfl : c = '/' := beq_iff_eq.mp (Bool.and_eq_true_iff.mp ends).1
            decide
        | textBlock =>
            refine fitsParts_closing (by decide) ?_
            intro ends
            obtain ⟨isQuote, quotes⟩ := Bool.and_eq_true_iff.mp ends
            obtain rfl : c = '"' := beq_iff_eq.mp isQuote
            obtain ⟨behind, rfl⟩ := List.isPrefixOf_iff_prefix.mp quotes
            exact edge_of_getLast? ['"', '"'] (by decide)
        | blockComment =>
            refine fitsParts_closing (by decide) ?_
            intro ends
            obtain ⟨_, slash⟩ := Bool.and_eq_true_iff.mp ends
            obtain ⟨behind, rfl⟩ := List.head?_eq_some_iff.mp (beq_iff_eq.mp slash)
            exact edge_of_getLast? [c] (by decide)

theorem raw_map_part (part : Part) (text : List Char) :
    PartedLine.raw (text.map (part, ·)) = text := by
  simp [PartedLine.raw, Function.comp_def]

theorem mask_map_part (part : Part) (text : List Char) :
    PartedLine.mask (text.map (part, ·)) =
      if part = .code then text else List.replicate text.length ' ' := by
  by_cases isCode : part = .code
  · simp [PartedLine.mask, isCode, Function.comp_def]
  · simp [PartedLine.mask, isCode, Function.comp_def]

theorem raw_partsFrom (rules : Rules) (before rest : List Char) (context : Context) :
    (partsFrom rules before rest context).raw = rest := by
  fun_induction partsFrom rules before rest context with
  | case1 => rfl
  | case2 before context c rest =>
      rename_i s taken ih
      rw [PartedLine.raw_append, raw_map_part, ih]
      simp [taken]

/-- The mask shows the code and nothing else. -/
theorem mask_partsFrom (rules : Rules) (before : List Char) (fits : mode.Fits escaped rest) :
    (partsFrom rules before rest (mode.context escaped)).mask =
      (scanFrom rules before rest (mode.context escaped)).mask := by
  generalize same : mode.context escaped = context
  fun_induction partsFrom rules before rest context generalizing mode escaped with
  | case1 =>
      rw [scanFrom]
      rfl
  | case2 before context c rest =>
      rename_i s taken ih
      subst same
      obtain ⟨next, after, moves⟩ := step_moves rules before fits
      have shown := (fitsParts_step rules before fits).shown
      rw [scanFrom, PartedLine.mask_append, mask_map_part,
        ih (moves.fits fits) moves.context_eq.symm]
      exact congrArg (· ++ _) (if_congr shown.symm rfl rfl)

/-- What is left of a line starts with the part that is open, unless it starts with
an escape or at an edge. -/
theorem head?_partsFrom (rules : Rules) (before : List Char) (fits : mode.Fits escaped rest) :
    ∀ place ∈ (partsFrom rules before rest (mode.context escaped)).head?,
      place.1 = (mode.context escaped).part ∨ place.1 = .escape ∨ place.2 ∈ partEdges := by
  cases rest with
  | nil =>
      rw [partsFrom]
      rintro _ ⟨⟩
  | cons c rest =>
      rw [partsFrom]
      rintro place ⟨⟩
      exact (fitsParts_step rules before fits).opens

theorem isChain_map_part (part : Part) (text : List Char) :
    (text.map (part, ·)).IsChain SamePart := by
  apply List.isChain_map_of_isChain (R := fun _ _ => True)
  · intro _ _ _ _ _ _ _
    rfl
  · exact List.Pairwise.isChain (List.pairwise_of_forall fun _ _ => trivial)

theorem isChain_partsFrom (rules : Rules) (before : List Char)
    (fits : mode.Fits escaped rest) :
    (partsFrom rules before rest (mode.context escaped)).IsChain SamePart := by
  generalize same : mode.context escaped = context
  fun_induction partsFrom rules before rest context generalizing mode escaped with
  | case1 => exact .nil
  | case2 before context c rest =>
      rename_i s taken ih
      subst same
      obtain ⟨next, after, moves⟩ := step_moves rules before fits
      have contextEq : s.context = next.context after := moves.context_eq
      have nextFits : next.Fits after (rest.drop s.further) := moves.fits fits
      refine List.isChain_append.mpr
        ⟨isChain_map_part _ taken, ih nextFits contextEq.symm, ?_⟩
      -- At the seam the parts can differ only where a part ends or the next one starts.
      intro place placeMem follower followerMem placeRead followerRead placeInner followerInner
      rw [List.getLast?_map] at placeMem
      obtain ⟨last, lastMem, rfl⟩ := Option.map_eq_some_iff.mp placeMem
      rw [contextEq] at followerMem
      have closes := (fitsParts_step rules before fits).closes
      have opens := head?_partsFrom rules _ nextFits follower followerMem
      rcases opens with followerPart | followerEscape | followerEdge
      · rcases closes with stays | escape | edge
        · rw [followerPart, ← contextEq]
          exact stays
        · exact absurd escape placeRead
        · exact absurd (edge last lastMem) placeInner
      · exact absurd followerEscape followerRead
      · exact absurd followerEdge followerInner

end Step

theorem isChain_of_mem_partedLines (rules : Rules) {context : Context}
    (carried : Carried context) {lines : List Line} {line : PartedLine}
    (member : line ∈ partedLines rules context lines) : line.IsChain SamePart := by
  induction lines generalizing context with
  | nil => cases member
  | cons first lines ih =>
      rcases List.mem_cons.mp member with rfl | later
      · obtain ⟨mode, spans, rfl⟩ := carried
        exact isChain_partsFrom rules [] (spans.fits false first)
      · exact ih (carried_scanLine rules first carried) later

/-- A stretch without escapes and edges belongs to one part. -/
theorem PartedLine.exists_part {line : PartedLine} (chain : line.IsChain SamePart)
    (read : ∀ place ∈ line, place.1 ≠ .escape) (inner : ∀ place ∈ line, place.2 ∉ partEdges) :
    ∃ part, ∀ place ∈ line, place.1 = part := by
  induction line with
  | nil => exact ⟨.code, List.forall_mem_nil _⟩
  | cons place line ih =>
      obtain ⟨placeRead, read⟩ := List.forall_mem_cons.mp read
      obtain ⟨placeInner, inner⟩ := List.forall_mem_cons.mp inner
      obtain ⟨part, same⟩ := ih chain.tail read inner
      refine ⟨place.1, List.forall_mem_cons.mpr ⟨rfl, ?_⟩⟩
      cases line with
      | nil => exact List.forall_mem_nil _
      | cons next line =>
          have joined : place.1 = next.1 := chain.rel_head? rfl placeRead
            (read next List.mem_cons_self) placeInner (inner next List.mem_cons_self)
          intro other otherMem
          rw [same other otherMem, joined, same next List.mem_cons_self]

/-- The code line of a line in parts. -/
def PartedLine.codeLine (line : PartedLine) : CodeLine where
  raw := line.raw
  code := line.mask

theorem zipWith_codeLines (rules : Rules) {context : Context} (carried : Carried context)
    (lines : List Line) :
    List.zipWith (fun raw outcome => { raw, code := outcome.mask : CodeLine }) lines
        (scanLines rules context lines) =
      (partedLines rules context lines).map PartedLine.codeLine := by
  induction lines generalizing context with
  | nil => rfl
  | cons line lines ih =>
      have later := ih (carried_scanLine rules line carried)
      obtain ⟨mode, spans, rfl⟩ := carried
      have mask := mask_partsFrom rules [] (spans.fits false line)
      rw [scanLines, partedLines, List.zipWith_cons_cons, List.map_cons, later,
        PartedLine.codeLine, raw_partsFrom, mask]
      rfl

/-- The code lines of a text show the code of its lines in parts. -/
theorem codeLines_eq_map (rules : Rules) (text : List Char) :
    CodeLine.ofText rules text =
      (partedLines rules .fresh (Line.ofText text)).map PartedLine.codeLine :=
  zipWith_codeLines rules carried_fresh (Line.ofText text)

end Scan
end CallTree
