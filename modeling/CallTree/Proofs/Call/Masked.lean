import CallTree.Proofs.Call.Texts
import CallTree.Proofs.Scan.Parts
import CallTree.Walk.Callees

/-!
# Calls and masks

Calls are looked for in the lines of a body as they are written, not in their
masks.  No part of a line starts or ends at a character of a call's text, apart
from escapes.  So a call that is found this way stands in code, where the mask
shows it too, or else in one literal, one comment or the arguments of one
annotation.  The mask shows, besides the calls in code, those that only appear
where something is hidden between a name and its parenthesis.
-/

namespace CallTree

namespace CallSite

theorem CallText.ne_nil {callee text : List Char} (isCall : CallText callee text) : text ≠ [] := by
  cases isCall <;> simp

theorem CallText.plain {callee : List Char} (isWord : IsWord callee)
    (called : String.ofList callee ∉ uncalledWords) : CallText callee (callee ++ ['(']) :=
  .bare isWord called (List.forall_mem_nil _)

/-- The text of a call is a name, blanks and a parenthesis. -/
theorem CallText.exists_name {callee text : List Char} (isCall : CallText callee text) :
    ∃ name blanks, text = name ++ (blanks ++ ['(']) ∧ IsGap blanks ∧
      CallText callee (name ++ ['(']) ∧ name ≠ [] ∧
      ∀ c ∈ name, Text.isWord c = true ∨ c = '.' := by
  cases isCall with
  | @bare blanks isWord called gap =>
      exact ⟨callee, blanks, rfl, gap, .plain isWord called, isWord.1,
        fun c member => .inl (isWord.2 c member)⟩
  | @qualified receiver blanks receiverWord allowed calleeWord gap =>
      have shorter : CallText callee (receiver ++ '.' :: (callee ++ ([] ++ ['(']))) :=
        .qualified receiverWord allowed calleeWord (List.forall_mem_nil _)
      refine ⟨receiver ++ '.' :: callee, blanks, by simp, gap, by simpa using shorter,
        by simp, ?_⟩
      intro c member
      rcases List.mem_append.mp member with inReceiver | behind
      · exact .inl (receiverWord.2 c inReceiver)
      · rcases List.mem_cons.mp behind with rfl | inCallee
        · exact .inr rfl
        · exact .inl (calleeWord.2 c inCallee)

/-- Between the name and the parenthesis there may be any blanks. -/
theorem CallText.widen {callee name blanks : List Char} (isCall : CallText callee (name ++ ['(']))
    (gap : IsGap blanks) : CallText callee (name ++ (blanks ++ ['('])) := by
  generalize whole : name ++ ['('] = text at isCall
  cases isCall with
  | @bare given isWord called givenGap =>
      rw [← List.append_assoc] at whole
      obtain ⟨rfl, -⟩ := List.append_inj' whole rfl
      rw [List.append_assoc, ← List.append_assoc given]
      exact .bare isWord called fun c member =>
        (List.mem_append.mp member).elim (givenGap c) (gap c)
  | @qualified receiver given receiverWord allowed calleeWord givenGap =>
      rw [← List.append_assoc callee, ← List.cons_append, ← List.append_assoc] at whole
      obtain ⟨rfl, -⟩ := List.append_inj' whole rfl
      rw [List.append_assoc, List.cons_append, List.append_assoc, ← List.append_assoc given]
      exact .qualified receiverWord allowed calleeWord fun c member =>
        (List.mem_append.mp member).elim (givenGap c) (gap c)

theorem CallText.name_ne_nil {callee name : List Char} (isCall : CallText callee (name ++ ['('])) :
    name ≠ [] := by
  rintro rfl
  obtain ⟨given, blanks, whole, _, _, nonempty, _⟩ := isCall.exists_name
  have short := congrArg List.length whole
  have positive := List.length_pos_iff.mpr nonempty
  simp only [List.nil_append, List.length_append, List.length_singleton] at short
  omega

/-- The characters at the edges of parts are not those of calls. -/
theorem of_mem_partEdges : ∀ c ∈ Scan.partEdges,
    Text.isWord c = false ∧ Text.isBlank c = false ∧ c ≠ '.' ∧ c ≠ '(' := by
  have apart : (Scan.partEdges.all fun c =>
      !Text.isWord c && !Text.isBlank c && c != '.' && c != '(') = true := by
    decide +kernel
  intro c member
  simpa [and_assoc] using List.all_eq_true.mp apart c member

theorem CallText.not_mem_partEdges {callee text : List Char} (isCall : CallText callee text) :
    ∀ c ∈ text, c ∉ Scan.partEdges := by
  obtain ⟨name, blanks, rfl, gap, _, _, inName⟩ := isCall.exists_name
  intro c member edge
  obtain ⟨noWord, noBlank, noDot, noParenthesis⟩ := of_mem_partEdges c edge
  rcases List.mem_append.mp member with front | back
  · rcases inName c front with word | dot
    · rw [noWord] at word
      cases word
    · exact noDot dot
  · rcases List.mem_append.mp back with blank | last
    · rw [gap c blank] at noBlank
      cases noBlank
    · exact noParenthesis (List.mem_singleton.mp last)

end CallSite

open CallSite Scan

namespace Scan.PartedLine

variable {line front name gap call : PartedLine} {callee : List Char}

/-- Behind the front of a line, these places have the text of a call, and no word
runs into it. -/
structure Spells (line front call : PartedLine) (callee : List Char) : Prop where
  stands : front ++ call <+: line
  outside : followsWord front.raw.reverse = false
  isCall : CallText callee call.raw

/-- A call stands in a part of the line, with all its text. -/
def CallsIn (line : PartedLine) (part : Part) (callee : List Char) : Prop :=
  ∃ front call, line.Spells front call callee ∧ ∀ place ∈ call, place.1 = part

/-- The text of a call has an escape in it. -/
def CallsAtEscape (line : PartedLine) (callee : List Char) : Prop :=
  ∃ front call, line.Spells front call callee ∧ ∃ place ∈ call, place.1 = .escape

/-- The name of a call stands in code, and so does its parenthesis.  What is code
between them is blank, and no word of code runs into the name. -/
structure Shows (line front name gap : PartedLine) (callee : List Char) : Prop where
  stands : front ++ (name ++ (gap ++ [(.code, '(')])) <+: line
  outside : ∀ last ∈ front.getLast?, last.1 = .code → Text.isWord last.2 = false
  name_code : ∀ place ∈ name, place.1 = .code
  isCall : CallText callee (name.raw ++ ['('])
  gap_blank : ∀ place ∈ gap, place.1 = .code → Text.isBlank place.2 = true

/-- A call appears where something is hidden between its name and its parenthesis,
or where an escape is hidden right before it. -/
def CallsAcross (line : PartedLine) (callee : List Char) : Prop :=
  ∃ front name gap, line.Shows front name gap callee ∧
    ((∃ place ∈ gap, place.1 ≠ .code) ∨ ∃ last ∈ front.getLast?, last.1 = .escape)

theorem followsWord_raw (front : PartedLine) :
    followsWord front.raw.reverse = false ↔
      ∀ last ∈ front.getLast?, Text.isWord last.2 = false := by
  rw [followsWord, List.head?_reverse, raw, List.getLast?_map]
  cases front.getLast? with
  | none => simp
  | some last => simp

theorem followsWord_mask (front : PartedLine) :
    followsWord front.mask.reverse = false ↔
      ∀ last ∈ front.getLast?, last.1 = .code → Text.isWord last.2 = false := by
  have space : Text.isWord ' ' = false := by decide
  rw [followsWord, List.head?_reverse, mask, List.getLast?_map]
  cases front.getLast? with
  | none => simp
  | some last => by_cases isCode : last.1 = .code <;> simp [isCode, space]

theorem mask_eq_raw (shown : ∀ place ∈ line, place.1 = .code) : line.mask = line.raw := by
  apply List.map_congr_left
  intro place placeMem
  rw [if_pos (shown place placeMem)]

/-- Where the mask has no space, it shows code. -/
theorem code_of_mask (visible : ∀ c ∈ line.mask, c ≠ ' ') : ∀ place ∈ line, place.1 = .code := by
  intro place placeMem
  have shown := visible _ (List.mem_map_of_mem placeMem)
  by_contra hidden
  rw [if_neg hidden] at shown
  exact shown rfl

theorem exists_append_of_raw {first second : List Char} (cut : line.raw = first ++ second) :
    ∃ front behind : PartedLine, line = front ++ behind ∧ front.raw = first ∧
      behind.raw = second :=
  List.map_eq_append_iff.mp cut

theorem exists_append_of_mask {first second : List Char} (cut : line.mask = first ++ second) :
    ∃ front behind : PartedLine, line = front ++ behind ∧ front.mask = first ∧
      behind.mask = second :=
  List.map_eq_append_iff.mp cut

/-- A parenthesis in the mask is one of code. -/
theorem eq_of_mask_eq_parenthesis (shown : line.mask = ['(']) : line = [(.code, '(')] := by
  obtain ⟨place, rfl, same⟩ := List.map_eq_singleton_iff.mp shown
  have visible : ∀ c ∈ mask [place], c ≠ ' ' := by simp [shown]
  have isCode := code_of_mask visible place List.mem_cons_self
  rw [if_pos isCode] at same
  rw [← same, ← isCode]

theorem exists_standsAt_raw_iff :
    (∃ start stop, StandsAt line.raw start stop callee) ↔
      ∃ front call, line.Spells front call callee := by
  constructor
  · rintro ⟨_, _, _, _, _, cut, rfl, rfl, outside, isCall⟩
    obtain ⟨front, rest, rfl, rfl, restEq⟩ := exists_append_of_raw cut
    obtain ⟨call, behind, rfl, rfl, rfl⟩ := exists_append_of_raw restEq
    exact ⟨front, call, ⟨behind, List.append_assoc _ _ _⟩, outside, isCall⟩
  · rintro ⟨front, call, ⟨behind, rfl⟩, outside, isCall⟩
    refine ⟨_, _, front.raw, call.raw, raw behind, ?_, rfl, rfl, outside, isCall⟩
    rw [raw_append, raw_append, List.append_assoc]

/-- The text of a call belongs to one part, unless it has an escape in it. -/
theorem exists_spells_iff (chain : line.IsChain SamePart) :
    (∃ front call, line.Spells front call callee) ↔
      line.CallsIn .code callee ∨ line.CallsIn .literal callee ∨ line.CallsIn .comment callee ∨
        line.CallsIn .arguments callee ∨ line.CallsAtEscape callee := by
  constructor
  · rintro ⟨front, call, spells⟩
    by_cases escapes : ∃ place ∈ call, place.1 = .escape
    · exact .inr (.inr (.inr (.inr ⟨front, call, spells, escapes⟩)))
    · have inside : call <:+: line :=
        (List.suffix_append front call).isInfix.trans spells.stands.isInfix
      have inner : ∀ place ∈ call, place.2 ∉ partEdges := fun place placeMem =>
        spells.isCall.not_mem_partEdges place.2 (List.mem_map_of_mem placeMem)
      have read : ∀ place ∈ call, place.1 ≠ .escape := fun place placeMem escape =>
        escapes ⟨place, placeMem, escape⟩
      have unbroken := chain.infix inside
      obtain ⟨part, same⟩ := exists_part unbroken read inner
      obtain ⟨place, placeMem⟩ : ∃ place, place ∈ call := by
        apply List.exists_mem_of_ne_nil
        rintro rfl
        exact spells.isCall.ne_nil rfl
      cases part with
      | code => exact .inl ⟨front, call, spells, same⟩
      | literal => exact .inr (.inl ⟨front, call, spells, same⟩)
      | comment => exact .inr (.inr (.inl ⟨front, call, spells, same⟩))
      | arguments => exact .inr (.inr (.inr (.inl ⟨front, call, spells, same⟩)))
      | escape => exact absurd (same place placeMem) (read place placeMem)
  · rintro (⟨front, call, spells, _⟩ | ⟨front, call, spells, _⟩ | ⟨front, call, spells, _⟩ |
      ⟨front, call, spells, _⟩ | ⟨front, call, spells, _⟩) <;>
    exact ⟨front, call, spells⟩

theorem exists_standsAt_mask_iff :
    (∃ start stop, StandsAt line.mask start stop callee) ↔
      ∃ front name gap, line.Shows front name gap callee := by
  constructor
  · rintro ⟨_, _, _, _, _, cut, rfl, rfl, outside, isCall⟩
    obtain ⟨_, _, rfl, isGap, shorter, _, inName⟩ := isCall.exists_name
    obtain ⟨front, rest, rfl, rfl, restEq⟩ := exists_append_of_mask cut
    obtain ⟨call, behind, rfl, callEq, rfl⟩ := exists_append_of_mask restEq
    obtain ⟨name, after, rfl, rfl, afterEq⟩ := exists_append_of_mask callEq
    obtain ⟨gap, last, rfl, rfl, lastEq⟩ := exists_append_of_mask afterEq
    obtain rfl := eq_of_mask_eq_parenthesis lastEq
    have nameCode : ∀ place ∈ name, place.1 = .code := by
      apply code_of_mask
      rintro c member rfl
      rcases inName ' ' member with word | dot
      · exact absurd word (by decide)
      · exact absurd dot (by decide)
    refine ⟨front, name, gap, ⟨behind, by simp⟩, (followsWord_mask front).mp outside, nameCode,
      mask_eq_raw nameCode ▸ shorter, ?_⟩
    intro place placeMem isCode
    have blank := isGap _ (List.mem_map_of_mem placeMem)
    rwa [if_pos isCode] at blank
  · rintro ⟨front, name, gap, ⟨behind, rfl⟩, outside, nameCode, isCall, gapBlank⟩
    have isGap : IsGap gap.mask := by
      intro c member
      obtain ⟨place, placeMem, rfl⟩ := List.mem_map.mp member
      by_cases isCode : place.1 = .code
      · simpa [isCode] using gapBlank place placeMem isCode
      · simp [isCode]
        decide
    refine ⟨_, _, front.mask, name.mask ++ (gap.mask ++ ['(']), mask behind, ?_, rfl, rfl,
      (followsWord_mask front).mpr outside, ?_⟩
    · simp [mask]
    · rw [mask_eq_raw nameCode]
      exact isCall.widen isGap

/-- A call in code is shown. -/
theorem CallsIn.exists_shows (calls : line.CallsIn .code callee) :
    ∃ front name gap, line.Shows front name gap callee := by
  obtain ⟨front, call, ⟨⟨behind, rfl⟩, outside, isCall⟩, isCode⟩ := calls
  rw [← exists_standsAt_mask_iff]
  refine ⟨_, _, front.mask, call.mask, mask behind, ?_, rfl, rfl, ?_, ?_⟩
  · simp [mask]
  · rw [followsWord_mask]
    intro last lastMem _
    exact (followsWord_raw front).mp outside last lastMem
  · rwa [mask_eq_raw isCode]

/-- Where nothing is hidden in a call that is shown, and no escape before it, it
stands in code. -/
theorem Shows.spells (chain : line.IsChain SamePart) (shows : line.Shows front name gap callee)
    (gapCode : ∀ place ∈ gap, place.1 = .code)
    (noEscape : ∀ last ∈ front.getLast?, last.1 ≠ .escape) :
    line.Spells front (name ++ (gap ++ [(.code, '(')])) callee where
  stands := shows.stands
  outside := by
    rw [followsWord_raw]
    intro last lastMem
    by_contra word
    -- A word that runs into the name from elsewhere would belong to the name's part.
    obtain ⟨first, others, rfl⟩ : ∃ first others, name = first :: others := by
      apply List.exists_cons_of_ne_nil
      rintro rfl
      exact shows.isCall.name_ne_nil rfl
    have unbroken := chain.prefix shows.stands
    obtain ⟨_, _, seam⟩ := List.isChain_append.mp unbroken
    have firstCode : first.1 = .code := shows.name_code first List.mem_cons_self
    have lastInner : last.2 ∉ partEdges := fun edge => word (of_mem_partEdges _ edge).1
    have firstInner : first.2 ∉ partEdges :=
      shows.isCall.not_mem_partEdges first.2 (by simp [raw])
    have same := seam last lastMem first rfl (noEscape last lastMem) (by simp [firstCode])
      lastInner firstInner
    exact word (shows.outside last lastMem (same.trans firstCode))
  isCall := by
    have isGap : IsGap gap.raw := by
      intro c member
      obtain ⟨place, placeMem, rfl⟩ := List.mem_map.mp member
      exact shows.gap_blank place placeMem (gapCode place placeMem)
    rw [raw_append, raw_append]
    exact shows.isCall.widen isGap

/-- What the mask shows is the calls in code, and those that appear across something
hidden. -/
theorem exists_shows_iff (chain : line.IsChain SamePart) :
    (∃ front name gap, line.Shows front name gap callee) ↔
      line.CallsIn .code callee ∨ line.CallsAcross callee := by
  constructor
  · rintro ⟨front, name, gap, shows⟩
    by_cases across : (∃ place ∈ gap, place.1 ≠ .code) ∨
        ∃ last ∈ front.getLast?, last.1 = .escape
    · exact .inr ⟨front, name, gap, shows, across⟩
    · rw [not_or] at across
      obtain ⟨noneHidden, noEscape⟩ := across
      have gapCode : ∀ place ∈ gap, place.1 = .code := fun place placeMem =>
        by_contra fun hidden => noneHidden ⟨place, placeMem, hidden⟩
      refine .inl ⟨front, _, shows.spells chain gapCode fun last lastMem escape =>
        noEscape ⟨last, lastMem, escape⟩, ?_⟩
      simp only [List.mem_append, List.mem_singleton]
      rintro place (inName | inGap | rfl)
      · exact shows.name_code place inName
      · exact gapCode place inGap
      · rfl
  · rintro (inCode | ⟨front, name, gap, shows, _⟩)
    · exact inCode.exists_shows
    · exact ⟨front, name, gap, shows⟩

end Scan.PartedLine

/-- A call of the callee on the line with the given number is among the sites. -/
def CallSite.Reports (sites : List CallSite) (callee : String) (number : Int) : Prop :=
  ∃ site ∈ sites, site.callee = callee ∧ site.line = number

instance (sites : List CallSite) (callee : String) (number : Int) :
    Decidable (Reports sites callee number) :=
  inferInstanceAs (Decidable (∃ site ∈ sites, _))

theorem CallSite.reports_onLine_iff {line : Line} {callee : String} {place number : Int} :
    Reports (onLine line place) callee number ↔
      number = place ∧ ∃ start stop, StandsAt line start stop callee.toList := by
  rw [← exists_mem_onLine_iff, String.ofList_toList]
  constructor
  · rintro ⟨site, member, same, rfl⟩
    exact ⟨line_of_mem_onLine member, site, member, same⟩
  · rintro ⟨rfl, site, member, same⟩
    exact ⟨site, member, same, line_of_mem_onLine member⟩

theorem CallSite.between_natCast (lines : List Line) (line last column : Nat) :
    between lines line (some last) column =
      match (lines.take (last + 1)).drop line with
      | [] => []
      | first :: rest => onLines line (first.drop column :: rest) := by
  -- A last line beyond the end is the last line there is.
  have stop : lines.take (min (last : Int) ((lines.length : Int) - 1) + 1).toNat =
      lines.take (last + 1) := by
    rw [List.take_eq_take_iff]
    omega
  simp only [between, Option.getD_some, stop, Int.toNat_natCast]
  cases (lines.take (last + 1)).drop line with
  | nil => rfl
  | cons first rest =>
      cases column with
      | zero => simp
      | succ column =>
          have behind :
              ((line : Int) == (line : Nat) && ((column + 1 : Nat) : Int) != 0) = true := by
            simp only [BEq.rfl, Bool.true_and, bne_iff_ne]
            omega
          simp only [behind, if_true, Text.sliceFrom_natCast]

theorem Text.slice_map {α β : Type} (f : α → β) (values : List α) (first stop : Int) :
    slice (values.map f) first stop = (slice values first stop).map f := by
  rw [slice, slice, List.length_map, List.map_drop, List.map_take]

theorem Text.sliceFrom_map {α β : Type} (f : α → β) (values : List α) (first : Int) :
    sliceFrom (values.map f) first = (sliceFrom values first).map f := by
  rw [sliceFrom, sliceFrom, List.length_map, List.map_drop]

namespace Source

/-- The code lines of a body, of which the first is cut at the start of the
body. -/
def bodyCode (source : Source) (body : BodyStart) (last : Int) : List CodeLine :=
  match Text.slice source.lines body.line (last + 1) with
  | [] => []
  | first :: rest =>
      { raw := Text.sliceFrom first.raw body.column
        code := Text.sliceFrom first.code body.column } :: rest

/-- The calls that the masks of a body show. -/
def shownCalls (source : Source) (body : BodyStart) (last : Int) : List CallSite :=
  (source.bodyCode body last).zipIdx.flatMap fun (line, offset) =>
    onLine line.code (body.line + offset + 1)

/-- The lines of a body in parts, of which the first is cut at the start of the
body. -/
def bodyParts (rules : Rules) (text : List Char) (body : BodyStart) (last : Int) :
    List PartedLine :=
  match Text.slice (partedLines rules .fresh (Line.ofText text)) body.line (last + 1) with
  | [] => []
  | first :: rest => Text.sliceFrom first body.column :: rest

/-- The line of a body with the given number, in parts. -/
def BodyLine (rules : Rules) (text : List Char) (body : BodyStart) (last number : Int)
    (line : PartedLine) : Prop :=
  ∃ offset : Nat, (bodyParts rules text body last)[offset]? = some line ∧
    number = body.line + offset + 1

variable {rules : Rules} {text : List Char} {body : BodyStart} {last number : Int}
variable {callee : String}

theorem bodyCode_ofText (rules : Rules) (text : List Char) (body : BodyStart) (last : Int) :
    (ofText rules text).bodyCode body last =
      (bodyParts rules text body last).map PartedLine.codeLine := by
  rw [bodyCode, bodyParts, ofText, codeLines_eq_map, Text.slice_map]
  cases Text.slice (partedLines rules .fresh (Line.ofText text)) body.line (last + 1) with
  | nil => rfl
  | cons first rest =>
      have raw : Text.sliceFrom first.raw body.column =
          PartedLine.raw (Text.sliceFrom first body.column) := Text.sliceFrom_map _ _ _
      have mask : Text.sliceFrom first.mask body.column =
          PartedLine.mask (Text.sliceFrom first body.column) := Text.sliceFrom_map _ _ _
      simp only [List.map_cons, PartedLine.codeLine, raw, mask]

theorem isChain_of_bodyLine {line : PartedLine}
    (bodyLine : BodyLine rules text body last number line) : line.IsChain SamePart := by
  obtain ⟨offset, found, _⟩ := bodyLine
  have member := List.mem_of_getElem? found
  have chains : ∀ whole ∈ Text.slice (partedLines rules .fresh (Line.ofText text)) body.line
      (last + 1), whole.IsChain SamePart := fun whole wholeMem =>
    isChain_of_mem_partedLines rules carried_fresh
      (List.mem_of_mem_take (List.mem_of_mem_drop wholeMem))
  rw [bodyParts] at member
  split at member
  · cases member
  · rename_i first rest sliced
    rw [sliced, List.forall_mem_cons] at chains
    rcases List.mem_cons.mp member with rfl | later
    · exact chains.1.drop _
    · exact chains.2 line later

theorem reports_shownCalls_iff :
    Reports ((ofText rules text).shownCalls body last) callee number ↔
      ∃ line, BodyLine rules text body last number line ∧
        (line.CallsIn .code callee.toList ∨ line.CallsAcross callee.toList) := by
  have pieces : Reports ((ofText rules text).shownCalls body last) callee number ↔
      ∃ (line : PartedLine) (offset : Nat),
        (bodyParts rules text body last)[offset]? = some line ∧
        Reports (onLine line.mask (body.line + offset + 1)) callee number := by
    simp only [Reports, shownCalls, bodyCode_ofText, List.mem_flatMap, Prod.exists,
      List.mem_zipIdx_iff_getElem?, List.getElem?_map, Option.map_eq_some_iff]
    constructor
    · rintro ⟨site, ⟨_, offset, ⟨line, found, rfl⟩, member⟩, reported⟩
      exact ⟨line, offset, found, site, member, reported⟩
    · rintro ⟨line, offset, found, site, member, reported⟩
      exact ⟨site, ⟨line.codeLine, offset, ⟨line, found, rfl⟩, member⟩, reported⟩
  rw [pieces]
  constructor
  · rintro ⟨line, offset, found, reported⟩
    obtain ⟨numberEq, stands⟩ := reports_onLine_iff.mp reported
    have bodyLine : BodyLine rules text body last number line := ⟨offset, found, numberEq⟩
    rw [PartedLine.exists_standsAt_mask_iff,
      PartedLine.exists_shows_iff (isChain_of_bodyLine bodyLine)] at stands
    exact ⟨line, bodyLine, stands⟩
  · rintro ⟨line, bodyLine, calls⟩
    rw [← PartedLine.exists_shows_iff (isChain_of_bodyLine bodyLine),
      ← PartedLine.exists_standsAt_mask_iff] at calls
    obtain ⟨offset, found, numberEq⟩ := bodyLine
    exact ⟨line, offset, found, reports_onLine_iff.mpr ⟨numberEq, calls⟩⟩

theorem between_ofText (rules : Rules) (text : List Char) (line column last : Nat) :
    between (ofText rules text).rawLines line (some last) column =
      onLines line ((bodyParts rules text { line, column } last).map PartedLine.raw) := by
  have stretch : Text.slice (partedLines rules .fresh (Line.ofText text)) line
      ((last : Int) + 1) =
      ((partedLines rules .fresh (Line.ofText text)).take (last + 1)).drop line :=
    Text.slice_natCast _ line (last + 1)
  have raw : (ofText rules text).rawLines =
      (partedLines rules .fresh (Line.ofText text)).map PartedLine.raw := by
    rw [rawLines, ofText, codeLines_eq_map, List.map_map]
    rfl
  rw [between_natCast, bodyParts, stretch, raw, ← List.map_take, ← List.map_drop]
  cases ((partedLines rules .fresh (Line.ofText text)).take (last + 1)).drop line with
  | nil => rfl
  | cons first rest =>
      simp only [List.map_cons, Text.sliceFrom_natCast, PartedLine.raw, List.map_drop]

theorem reports_between_iff {line column last : Nat} :
    Reports (between (ofText rules text).rawLines line (some last) column) callee number ↔
      ∃ parted, BodyLine rules text { line, column } last number parted ∧
        Line.isComment parted.raw = false ∧
        (parted.CallsIn .code callee.toList ∨ parted.CallsIn .literal callee.toList ∨
          parted.CallsIn .comment callee.toList ∨ parted.CallsIn .arguments callee.toList ∨
          parted.CallsAtEscape callee.toList) := by
  rw [between_ofText]
  constructor
  · rintro ⟨site, member, reported⟩
    obtain ⟨offset, raw, found, code, onLine⟩ := mem_onLines_iff.mp member
    rw [List.getElem?_map] at found
    obtain ⟨parted, place, rfl⟩ := Option.map_eq_some_iff.mp found
    obtain ⟨numberEq, stands⟩ := reports_onLine_iff.mp ⟨site, onLine, reported⟩
    have bodyLine : BodyLine rules text { line, column } last number parted :=
      ⟨offset, place, by rw [numberEq, Int.natCast_add]⟩
    rw [PartedLine.exists_standsAt_raw_iff,
      PartedLine.exists_spells_iff (isChain_of_bodyLine bodyLine)] at stands
    exact ⟨parted, bodyLine, code, stands⟩
  · rintro ⟨parted, bodyLine, code, calls⟩
    rw [← PartedLine.exists_spells_iff (isChain_of_bodyLine bodyLine),
      ← PartedLine.exists_standsAt_raw_iff] at calls
    obtain ⟨offset, place, numberEq⟩ := bodyLine
    obtain ⟨site, member, reported⟩ := reports_onLine_iff.mpr ⟨numberEq, calls⟩
    refine ⟨site, mem_onLines_iff.mpr ⟨offset, parted.raw, ?_, code, ?_⟩, reported⟩
    · rw [List.getElem?_map, place, Option.map_some]
    · rwa [Int.natCast_add]

/-- The mask of a line that is blank shows no call. -/
theorem not_calls_of_isBlankText {line : PartedLine} (chain : line.IsChain SamePart)
    (blank : Text.isBlankText line.mask = true) (callee : List Char) :
    ¬ (line.CallsIn .code callee ∨ line.CallsAcross callee) := by
  rw [← PartedLine.exists_shows_iff chain]
  rintro ⟨front, name, gap, ⟨behind, rfl⟩, _⟩
  have shown : '(' ∈ PartedLine.mask (front ++ (name ++ (gap ++ [(.code, '(')])) ++ behind) := by
    simp [PartedLine.mask]
  exact absurd (List.all_eq_true.mp blank '(' shown) (by decide)

end Source

namespace Extent

/-- A body starts behind a brace, and lies at lines and columns that count from
zero. -/
theorem exists_nat_of_ofMasks {start index : Nat} {search : Search} {masks : List Line}
    {body : BodyStart} (found : (ofMasks start search index masks).body = some body) :
    ∃ line column last : Nat, body = { line, column := (column + 1 : Nat) } ∧
      (ofMasks start search index masks).last = last := by
  induction masks generalizing search index with
  | nil => cases found
  | cons mask masks ih =>
      rw [ofMasks] at found ⊢
      cases advanced : search.advance mask with
      | inl next =>
          rw [advanced] at found
          exact ih found
      | inr column =>
          simp only [advanced] at found ⊢
          split at found
          · rename_i closed
            cases found
            exact ⟨index, column, index, rfl, by rw [if_pos closed]⟩
          · rename_i opened
            cases found
            exact ⟨index, column, _, rfl, by rw [if_neg opened]⟩

end Extent

theorem Source.exists_nat_of_extentOf {source : Source} {method : Method} {body : BodyStart}
    (found : (source.extentOf method).body = some body) :
    ∃ line column last : Nat, body = { line, column := (column + 1 : Nat) } ∧
      (source.extentOf method).last = last :=
  Extent.exists_nat_of_ofMasks found

namespace Reading

variable {rules : Rules} {text : List Char} {body : BodyStart} {number : Int}

/-- What is reported for the body of a method, and what the masks of its lines show,
on a line that holds no code if it starts like a comment.  Both have the calls in
code, and no call of a line that starts like a comment.  What is reported besides is
the calls whose text stands in one literal, one comment or the arguments of one
annotation, or has an escape in it.  What is shown besides is the calls that only
appear where something is hidden between a name and its parenthesis, or where an
escape is hidden right before the name. -/
theorem reports_sites_iff {file : String} {method : Method}
    (found : ((ofText rules file text).source.extentOf method).body = some body)
    (callee : String)
    (sorted : ∀ line, Source.BodyLine rules text body
        ((ofText rules file text).source.extentOf method).last number line →
      Line.isComment line.raw = true → Text.isBlankText line.mask = true) :
    (Reports ((ofText rules file text).sites method) callee number ↔
      ∃ line, Source.BodyLine rules text body
          ((ofText rules file text).source.extentOf method).last number line ∧
        Line.isComment line.raw = false ∧
        (line.CallsIn .code callee.toList ∨ line.CallsIn .literal callee.toList ∨
          line.CallsIn .comment callee.toList ∨ line.CallsIn .arguments callee.toList ∨
          line.CallsAtEscape callee.toList)) ∧
    (Reports ((ofText rules file text).source.shownCalls body
        ((ofText rules file text).source.extentOf method).last) callee number ↔
      ∃ line, Source.BodyLine rules text body
          ((ofText rules file text).source.extentOf method).last number line ∧
        Line.isComment line.raw = false ∧
        (line.CallsIn .code callee.toList ∨ line.CallsAcross callee.toList)) := by
  constructor
  · obtain ⟨line, column, last, rfl, lastEq⟩ := Source.exists_nat_of_extentOf found
    have sites : (ofText rules file text).sites method =
        between (Source.ofText rules text).rawLines line (some last) (column + 1 : Nat) := by
      simp only [Reading.sites, found, lastEq]
      rfl
    rw [sites, lastEq]
    exact Source.reports_between_iff
  · rw [show (ofText rules file text).source = Source.ofText rules text from rfl] at sorted ⊢
    rw [Source.reports_shownCalls_iff]
    refine exists_congr fun line => and_congr_right fun bodyLine => ?_
    cases comment : Line.isComment line.raw with
    | true =>
        have nothing := Source.not_calls_of_isBlankText (Source.isChain_of_bodyLine bodyLine)
          (sorted line bodyLine comment) callee.toList
        simp [nothing]
    | false => simp

/-- A method with the text of a call in a literal, and a comment between a name and
its parenthesis. -/
def quotedCallText : List Char :=
  "class A \x7b\n void f() \x7b\n  log(\"g(\");\n  h /* now */ ();\n \x7d\n\x7d".toList

def quotedCall : Reading :=
  .ofText {} "A.java" quotedCallText

def quotedMethod : Method where
  name := "f"
  className := some "A"
  file := "A.java"
  line := 2
  parameters := []
  returnType := some "void"

/-- The line with the literal. -/
def quotedLine : PartedLine :=
  "  log(".toList.map (.code, ·) ++ "\"g(\"".toList.map (.literal, ·) ++
    ");".toList.map (.code, ·)

theorem extentOf_quotedMethod : quotedCall.source.extentOf quotedMethod =
    { start := 1, last := 4, body := some { line := 1, column := 11 } } := by
  decide +kernel

/-- The call around the literal is reported and shown, the one in it is reported. -/
theorem quotedMethod_calls :
    quotedLine.CallsIn .code "log".toList ∧ quotedLine.CallsIn .literal "g".toList ∧
    Reports (quotedCall.sites quotedMethod) "log" 3 ∧
    Reports (quotedCall.source.shownCalls { line := 1, column := 11 }
      (quotedCall.source.extentOf quotedMethod).last) "log" 3 ∧
    Reports (quotedCall.sites quotedMethod) "g" 3 := by
  have found : (quotedCall.source.extentOf quotedMethod).body =
      some { line := 1, column := 11 } := by
    rw [extentOf_quotedMethod]
  have last : (quotedCall.source.extentOf quotedMethod).last = 4 := by
    rw [extentOf_quotedMethod]
  have third : (Source.bodyParts {} quotedCallText { line := 1, column := 11 } 4)[1]? =
      some quotedLine := by
    decide +kernel
  have bodyLine : Source.BodyLine {} quotedCallText { line := 1, column := 11 }
      (quotedCall.source.extentOf quotedMethod).last 3 quotedLine :=
    ⟨1, last ▸ third, rfl⟩
  have noComment : Line.isComment quotedLine.raw = false := by decide
  have sorted : ∀ line, Source.BodyLine {} quotedCallText { line := 1, column := 11 }
        (quotedCall.source.extentOf quotedMethod).last 3 line →
      Line.isComment line.raw = true → Text.isBlankText line.mask = true := by
    rintro line ⟨offset, found, numberEq⟩ comment
    obtain rfl : offset = 1 := by
      dsimp only at numberEq
      omega
    rw [last, third] at found
    cases found
    rw [noComment] at comment
    cases comment
  have aroundText : CallText "log".toList "log(".toList :=
    .plain ⟨by decide, List.all_eq_true.mp (by decide)⟩ (by decide)
  have insideText : CallText "g".toList "g(".toList :=
    .plain ⟨by decide, List.all_eq_true.mp (by decide)⟩ (by decide)
  have around : quotedLine.CallsIn .code "log".toList :=
    ⟨"  ".toList.map (.code, ·), "log(".toList.map (.code, ·),
      ⟨by decide, by decide, aroundText⟩, by decide⟩
  have inside : quotedLine.CallsIn .literal "g".toList :=
    ⟨"  log(".toList.map (.code, ·) ++ [(.literal, '"')], "g(".toList.map (.literal, ·),
      ⟨by decide, by decide, insideText⟩, by decide⟩
  obtain ⟨reported, shown⟩ := reports_sites_iff found "log" sorted
  obtain ⟨reportedInside, _⟩ := reports_sites_iff found "g" sorted
  exact ⟨around, inside, reported.mpr ⟨quotedLine, bodyLine, noComment, .inl around⟩,
    shown.mpr ⟨quotedLine, bodyLine, noComment, .inl around⟩,
    reportedInside.mpr ⟨quotedLine, bodyLine, noComment, .inr (.inl inside)⟩⟩

/-- Not all that is reported for a body is shown by its masks, and not all that
they show is reported. -/
theorem not_reports_sites_iff_shown :
    (¬ ∀ (rules : Scan.Rules) (file : String) (text : List Char) (method : Method)
        (body : BodyStart) (callee : String) (number : Int),
      method ∈ (ofText rules file text).definitions →
      ((ofText rules file text).source.extentOf method).body = some body →
      Reports ((ofText rules file text).sites method) callee number →
      Reports ((ofText rules file text).source.shownCalls body
        ((ofText rules file text).source.extentOf method).last) callee number) ∧
    ¬ ∀ (rules : Scan.Rules) (file : String) (text : List Char) (method : Method)
        (body : BodyStart) (callee : String) (number : Int),
      method ∈ (ofText rules file text).definitions →
      ((ofText rules file text).source.extentOf method).body = some body →
      Reports ((ofText rules file text).source.shownCalls body
        ((ofText rules file text).source.extentOf method).last) callee number →
      Reports ((ofText rules file text).sites method) callee number := by
  have defined : quotedMethod ∈ quotedCall.definitions := by decide +kernel
  have found : (quotedCall.source.extentOf quotedMethod).body =
      some { line := 1, column := 11 } := by
    rw [extentOf_quotedMethod]
  have last : (quotedCall.source.extentOf quotedMethod).last = 4 := by
    rw [extentOf_quotedMethod]
  constructor
  · intro always
    have shown := always {} "A.java" quotedCallText quotedMethod _ "g" 3 defined found
      (by decide +kernel)
    rw [show (ofText {} "A.java" quotedCallText).source.extentOf quotedMethod = _ from
      extentOf_quotedMethod] at shown
    revert shown
    decide +kernel
  · intro always
    have reported := always {} "A.java" quotedCallText quotedMethod _ "h" 4 defined found
      (by
        rw [show (ofText {} "A.java" quotedCallText).source.extentOf quotedMethod = _ from
          extentOf_quotedMethod]
        decide +kernel)
    revert reported
    decide +kernel

end Reading
end CallTree
