import CallTree.Call.Site
import Mathlib.Data.List.Infix
import Mathlib.Data.List.TakeWhile

/-!
# Texts of calls

The search for call sites tries four forms at every position of a line.  What
it finds is said here without the search: a callee is reported exactly where
the text of a call of it stands in the line and no word runs into that text.
Two of the forms find nothing that the others do not.
-/

namespace CallTree

theorem Text.isWord_eq_false_of_isBlank {c : Char} (blank : isBlank c = true) :
    isWord c = false := by
  have separators : ∀ code ∈ List.range' 0x09 5 ++ List.range' 0x1c 5 ++
      [0x85, 0xa0, 0x1680] ++ List.range' 0x2000 11 ++
      [0x2028, 0x2029, 0x202f, 0x205f, 0x3000], isWord (Char.ofNat code) = false := by
    decide +kernel
  rw [← Char.ofNat_toNat c]
  apply separators
  simp only [isBlank, Bool.or_eq_true, Bool.and_eq_true, decide_eq_true_eq, beq_iff_eq] at blank
  simp only [List.mem_append, List.mem_range'_1, List.mem_cons, List.not_mem_nil, or_false]
  omega

namespace CallSite

/-- Letters, numbers and underscores, at least one. -/
def IsWord (word : List Char) : Prop :=
  word ≠ [] ∧ ∀ c ∈ word, Text.isWord c = true

/-- Blanks, or nothing. -/
def IsGap (blanks : List Char) : Prop :=
  ∀ c ∈ blanks, Text.isBlank c = true

/-- The text of a call, from its receiver or its callee to its parenthesis. -/
inductive CallText (callee : List Char) : List Char → Prop where
  | bare {blanks : List Char} : IsWord callee → String.ofList callee ∉ uncalledWords →
      IsGap blanks → CallText callee (callee ++ (blanks ++ ['(']))
  | qualified {receiver blanks : List Char} : IsWord receiver →
      String.ofList receiver ∉ controlWords → IsWord callee → IsGap blanks →
      CallText callee (receiver ++ '.' :: (callee ++ (blanks ++ ['('])))

/-- The text of a call of `callee` stands in the columns from `start` up to, but
without, `stop`, and no word runs into it. -/
def StandsAt (line : Line) (start stop : Nat) (callee : List Char) : Prop :=
  ∃ front text behind, line = front ++ (text ++ behind) ∧ front.length = start ∧
    front.length + text.length = stop ∧ followsWord front.reverse = false ∧
    CallText callee text

theorem mem_positions_iff {before line front rest : List Char} :
    (front, rest) ∈ positions before line ↔
      ∃ taken, line = taken ++ rest ∧ front = taken.reverse ++ before := by
  induction line generalizing before with
  | nil =>
      simp only [positions, List.mem_singleton, Prod.mk.injEq, List.nil_eq_append_iff]
      constructor
      · rintro ⟨rfl, rfl⟩
        exact ⟨[], ⟨rfl, rfl⟩, rfl⟩
      · rintro ⟨taken, ⟨rfl, rfl⟩, rfl⟩
        exact ⟨rfl, rfl⟩
  | cons c line ih =>
      rw [positions, List.mem_cons, ih, Prod.mk.injEq]
      constructor
      · rintro (⟨rfl, rfl⟩ | ⟨taken, rfl, rfl⟩)
        · exact ⟨[], rfl, rfl⟩
        · exact ⟨c :: taken, rfl, by simp⟩
      · rintro ⟨taken, lineEq, rfl⟩
        cases taken with
        | nil => exact .inl ⟨rfl, lineEq.symm⟩
        | cons d taken =>
            obtain ⟨rfl, rfl⟩ := List.cons.inj lineEq
            exact .inr ⟨taken, rfl, by simp⟩

theorem mem_positions_nil_iff {line before rest : List Char} :
    (before, rest) ∈ positions [] line ↔ line = before.reverse ++ rest := by
  rw [mem_positions_iff]
  constructor
  · rintro ⟨taken, rfl, rfl⟩
    simp
  · rintro rfl
    exact ⟨before.reverse, rfl, by simp⟩

/-- A run of characters that satisfy `p` ends where one does not. -/
theorem takeWhile_append_cons {p : Char → Bool} {run behind : List Char} {c : Char}
    (inside : ∀ d ∈ run, p d = true) (outside : p c = false) :
    (run ++ c :: behind).takeWhile p = run := by
  rw [List.takeWhile_append_of_pos inside, List.takeWhile_cons_of_neg (by simp [outside]),
    List.append_nil]

theorem opensArguments_iff {text : List Char} :
    opensArguments text = true ↔
      ∃ blanks behind, IsGap blanks ∧ text = blanks ++ '(' :: behind := by
  rw [opensArguments, beq_iff_eq]
  constructor
  · intro opens
    obtain ⟨behind, dropped⟩ := List.head?_eq_some_iff.mp opens
    refine ⟨text.takeWhile Text.isBlank, behind, fun c member => List.mem_takeWhile_imp member, ?_⟩
    rw [← dropped, Text.dropBlanks, List.takeWhile_append_dropWhile]
  · rintro ⟨blanks, behind, gap, rfl⟩
    rw [Text.dropBlanks, List.dropWhile_append_of_pos gap]
    rfl

theorem takeWhile_isWord_append {word blanks behind : List Char}
    (inside : ∀ c ∈ word, Text.isWord c = true) (gap : IsGap blanks) :
    (word ++ (blanks ++ '(' :: behind)).takeWhile Text.isWord = word := by
  cases blanks with
  | nil => exact takeWhile_append_cons inside (by decide)
  | cons blank blanks =>
      exact takeWhile_append_cons inside
        (Text.isWord_eq_false_of_isBlank (gap blank List.mem_cons_self))

theorem calledWord?_eq_some_iff {text word : List Char} :
    calledWord? text = some word ↔
      IsWord word ∧ ∃ blanks behind, IsGap blanks ∧ text = word ++ (blanks ++ '(' :: behind) := by
  rw [calledWord?]
  constructor
  · intro found
    have whole := List.prefix_append_drop (List.takeWhile_prefix (l := text) Text.isWord)
    split at found
    · rename_i called
      obtain ⟨nonempty, opens⟩ := Bool.and_eq_true_iff.mp called
      cases found
      refine ⟨⟨by simpa using nonempty, fun c member => List.mem_takeWhile_imp member⟩, ?_⟩
      obtain ⟨blanks, behind, gap, rest⟩ := opensArguments_iff.mp opens
      rw [rest] at whole
      exact ⟨blanks, behind, gap, whole⟩
    · cases found
  · rintro ⟨⟨nonempty, inside⟩, blanks, behind, gap, rfl⟩
    have opens : opensArguments (blanks ++ '(' :: behind) = true :=
      opensArguments_iff.mpr ⟨blanks, behind, gap, rfl⟩
    simp only [takeWhile_isWord_append inside gap, List.drop_left, opens]
    simp [nonempty]

theorem qualifiedCall?_eq_some_iff {text receiver callee : List Char} :
    qualifiedCall? text = some (receiver, callee) ↔
      IsWord receiver ∧ IsWord callee ∧ ∃ blanks behind, IsGap blanks ∧
        text = receiver ++ '.' :: (callee ++ (blanks ++ '(' :: behind)) := by
  rw [qualifiedCall?]
  constructor
  · intro found
    have whole := List.prefix_append_drop (List.takeWhile_prefix (l := text) Text.isWord)
    split at found
    · rename_i behindDot dotted
      rw [dotted] at whole
      split at found
      · cases found
      · rename_i nonempty
        obtain ⟨word, called, same⟩ := Option.map_eq_some_iff.mp found
        cases same
        obtain ⟨isWord, blanks, behind, gap, rfl⟩ := calledWord?_eq_some_iff.mp called
        exact ⟨⟨by simpa using nonempty, fun c member => List.mem_takeWhile_imp member⟩, isWord,
          blanks, behind, gap, whole⟩
    · cases found
  · rintro ⟨⟨nonempty, inside⟩, isWord, blanks, behind, gap, rfl⟩
    have called := calledWord?_eq_some_iff.mpr ⟨isWord, blanks, behind, gap, rfl⟩
    have run : (receiver ++ '.' :: (callee ++ (blanks ++ '(' :: behind))).takeWhile Text.isWord =
        receiver := takeWhile_append_cons inside (by decide)
    simp [run, nonempty, called]

/-- What is looked for where words start is found behind a front that ends
outside of words. -/
theorem mem_wordStarts_iff {α : Type} {search : List Char → Option α} {line : Line} {value : α} :
    (value ∈ (positions [] line).filterMap fun (before, rest) =>
        if followsWord before then none else search rest) ↔
      ∃ front rest, line = front ++ rest ∧ followsWord front.reverse = false ∧
        search rest = some value := by
  simp only [List.mem_filterMap, Prod.exists, mem_positions_nil_iff]
  constructor
  · rintro ⟨before, rest, rfl, found⟩
    split at found
    · cases found
    · rename_i outside
      exact ⟨before.reverse, rest, rfl, by simpa using outside, found⟩
  · rintro ⟨front, rest, rfl, outside, found⟩
    exact ⟨front.reverse, rest, by simp, by simp [outside, found]⟩

theorem mem_qualifiedCalls_iff {line : Line} {receiver callee : List Char} :
    (receiver, callee) ∈ qualifiedCalls line ↔
      (∃ front rest, line = front ++ rest ∧ followsWord front.reverse = false ∧
        qualifiedCall? rest = some (receiver, callee)) ∧
      String.ofList receiver ∉ controlWords := by
  rw [qualifiedCalls, List.mem_filter, mem_wordStarts_iff]
  simp

theorem mem_bareCalls_iff {line : Line} {callee : List Char} :
    callee ∈ bareCalls line ↔
      (∃ front rest, line = front ++ rest ∧ followsWord front.reverse = false ∧
        calledWord? rest = some callee) ∧
      String.ofList callee ∉ uncalledWords := by
  rw [bareCalls, List.mem_filter, mem_wordStarts_iff]
  simp

/-- No word with a capital is a control word. -/
theorem not_mem_uncalledWords {word : List Char} {c : Char} (member : c ∈ word)
    (upper : c.isUpper = true) : String.ofList word ∉ uncalledWords := by
  have lower : (uncalledWords.all fun uncalled => uncalled.toList.all (!·.isUpper)) = true := by
    decide
  intro uncalled
  have notUpper :=
    List.all_eq_true.mp (List.all_eq_true.mp lower _ uncalled) c (by simpa using member)
  rw [upper] at notUpper
  cases notUpper

theorem followsWord_dropWhile (before : List Char) :
    followsWord (before.dropWhile Text.isWord) = false := by
  have ends := List.head?_dropWhile_not Text.isWord before
  rw [followsWord]
  split at ends
  · rename_i c found
    simp [found, ends]
  · rename_i found
    simp [found]

/-- A receiver that looks like a class is the end of a receiver. -/
theorem exists_mem_qualifiedCalls_of_mem_classCalls {line : Line} {receiver callee : List Char}
    (member : (receiver, callee) ∈ classCalls line) :
    ∃ whole, (whole, callee) ∈ qualifiedCalls line := by
  simp only [classCalls, List.mem_filterMap, Prod.exists, mem_positions_nil_iff] at member
  obtain ⟨before, rest, rfl, found⟩ := member
  split at found
  · rename_i capital
    obtain ⟨starts, _⟩ := Bool.and_eq_true_iff.mp capital
    obtain ⟨⟨nonempty, inside⟩, calleeWord, blanks, behind, gap, rfl⟩ :=
      qualifiedCall?_eq_some_iff.mp found
    obtain ⟨c, tail, rfl⟩ := List.exists_cons_of_ne_nil nonempty
    have upper : c.isUpper = true := by simpa using starts
    -- The word that ends in the receiver starts inside `before`.
    refine ⟨(before.takeWhile Text.isWord).reverse ++ c :: tail,
      mem_qualifiedCalls_iff.mpr ⟨⟨(before.dropWhile Text.isWord).reverse, _, ?_, ?_,
        qualifiedCall?_eq_some_iff.mpr ⟨⟨by simp, ?_⟩, calleeWord, blanks, behind, gap, rfl⟩⟩, ?_⟩⟩
    · have cut : before.reverse =
          (before.dropWhile Text.isWord).reverse ++ (before.takeWhile Text.isWord).reverse := by
        rw [← List.reverse_append, List.takeWhile_append_dropWhile]
      simp [cut]
    · rw [List.reverse_reverse]
      exact followsWord_dropWhile before
    · intro d member
      rcases List.mem_append.mp member with front | back
      · exact List.mem_takeWhile_imp (List.mem_reverse.mp front)
      · exact inside d back
    · intro control
      exact not_mem_uncalledWords (by simp) upper (List.mem_append_left _ control)
  · cases found

theorem followsWord_append {front stretch : List Char} (nonempty : stretch ≠ [])
    (outside : ∀ c ∈ stretch, Text.isWord c = false) :
    followsWord (front ++ stretch).reverse = false := by
  rw [List.reverse_append, followsWord]
  cases reversed : stretch.reverse with
  | nil => exact absurd (List.reverse_eq_nil_iff.mp reversed) nonempty
  | cons c rest =>
      have member : c ∈ stretch := by
        rw [← List.mem_reverse, reversed]
        exact List.mem_cons_self
      simpa using outside c member

theorem IsGap.outside {blanks : List Char} (gap : IsGap blanks) :
    ∀ c ∈ blanks, Text.isWord c = false :=
  fun c member => Text.isWord_eq_false_of_isBlank (gap c member)

/-- A constructed class is a word before a parenthesis. -/
theorem mem_bareCalls_of_mem_constructions {line : Line} {callee : List Char}
    (member : callee ∈ constructions line) : callee ∈ bareCalls line := by
  obtain ⟨front, rest, rfl, _, found⟩ := mem_wordStarts_iff.mp member
  unfold construction? at found
  split at found
  · rename_i blank named
    simp only at found
    split at found
    · rename_i introduced
      obtain ⟨isBlank, capital⟩ := Bool.and_eq_true_iff.mp introduced
      obtain ⟨⟨nonempty, inside⟩, blanks, behind, gap, dropped⟩ := calledWord?_eq_some_iff.mp found
      obtain ⟨c, tail, rfl⟩ := List.exists_cons_of_ne_nil nonempty
      have upper : c.isUpper = true := by simpa [dropped] using capital
      have spaces : IsGap (blank :: named.takeWhile Text.isBlank) := by
        intro d member
        rcases List.mem_cons.mp member with rfl | later
        · exact isBlank
        · exact List.mem_takeWhile_imp later
      refine mem_bareCalls_iff.mpr
        ⟨⟨front ++ ['n', 'e', 'w'] ++ blank :: named.takeWhile Text.isBlank,
          Text.dropBlanks named, ?_, followsWord_append (by simp) spaces.outside, found⟩,
        not_mem_uncalledWords List.mem_cons_self upper⟩
      simp [Text.dropBlanks]
    · cases found
  · cases found

theorem exists_mem_onLine_iff_mem {line : Line} {number : Int} {callee : List Char} :
    (∃ site ∈ onLine line number, site.callee = String.ofList callee) ↔
      (∃ receiver, (receiver, callee) ∈ qualifiedCalls line) ∨ callee ∈ bareCalls line := by
  simp only [onLine, List.mem_append, List.mem_map, Prod.exists]
  constructor
  · rintro ⟨site, ((⟨receiver, word, member, rfl⟩ | ⟨receiver, word, member, rfl⟩) |
      ⟨word, member, rfl⟩) | ⟨word, member, rfl⟩, same⟩ <;>
    obtain rfl := String.ofList_injective same
    · exact .inl ⟨receiver, member⟩
    · exact .inl (exists_mem_qualifiedCalls_of_mem_classCalls member)
    · exact .inr member
    · exact .inr (mem_bareCalls_of_mem_constructions member)
  · rintro (⟨receiver, member⟩ | member)
    · exact ⟨_, .inl (.inl (.inl ⟨receiver, callee, member, rfl⟩)), rfl⟩
    · exact ⟨_, .inl (.inr ⟨callee, member, rfl⟩), rfl⟩

/-- The callees on a line are those of the calls whose texts stand in it. -/
theorem exists_mem_onLine_iff {line : Line} {number : Int} {callee : List Char} :
    (∃ site ∈ onLine line number, site.callee = String.ofList callee) ↔
      ∃ start stop, StandsAt line start stop callee := by
  rw [exists_mem_onLine_iff_mem]
  constructor
  · rintro (⟨receiver, member⟩ | member)
    · obtain ⟨⟨front, rest, rfl, outside, found⟩, allowed⟩ := mem_qualifiedCalls_iff.mp member
      obtain ⟨receiverWord, calleeWord, blanks, behind, gap, rfl⟩ :=
        qualifiedCall?_eq_some_iff.mp found
      exact ⟨_, _, front, _, behind, by simp, rfl, rfl, outside,
        .qualified receiverWord allowed calleeWord gap⟩
    · obtain ⟨⟨front, rest, rfl, outside, found⟩, allowed⟩ := mem_bareCalls_iff.mp member
      obtain ⟨calleeWord, blanks, behind, gap, rfl⟩ := calledWord?_eq_some_iff.mp found
      exact ⟨_, _, front, _, behind, by simp, rfl, rfl, outside, .bare calleeWord allowed gap⟩
  · rintro ⟨_, _, front, text, behind, rfl, _, _, outside, stands⟩
    cases stands with
    | @bare blanks calleeWord allowed gap =>
        refine .inr (mem_bareCalls_iff.mpr ⟨⟨front, _, rfl, outside, ?_⟩, allowed⟩)
        exact calledWord?_eq_some_iff.mpr ⟨calleeWord, blanks, behind, gap, by simp⟩
    | @qualified receiver blanks receiverWord allowed calleeWord gap =>
        refine .inl ⟨receiver, mem_qualifiedCalls_iff.mpr ⟨⟨front, _, rfl, outside, ?_⟩, allowed⟩⟩
        exact qualifiedCall?_eq_some_iff.mpr
          ⟨receiverWord, calleeWord, blanks, behind, gap, by simp⟩

theorem line_of_mem_onLine {line : Line} {number : Int} {site : CallSite}
    (member : site ∈ onLine line number) : site.line = number := by
  simp only [onLine, List.mem_append, List.mem_map] at member
  rcases member with ((⟨_, _, rfl⟩ | ⟨_, _, rfl⟩) | ⟨_, _, rfl⟩) | ⟨_, _, rfl⟩ <;> rfl

theorem mem_onLines_iff {index : Nat} {lines : List Line} {site : CallSite} :
    site ∈ onLines index lines ↔
      ∃ offset line, lines[offset]? = some line ∧ Line.isComment line = false ∧
        site ∈ onLine line ((index + offset : Nat) + 1) := by
  induction lines generalizing index with
  | nil => simp [onLines]
  | cons line lines ih =>
      rw [onLines, List.mem_append, ih]
      constructor
      · rintro (here | ⟨offset, later, found, code, member⟩)
        · split at here
          · cases here
          · rename_i code
            exact ⟨0, line, rfl, by simpa using code, here⟩
        · refine ⟨offset + 1, later, found, code, ?_⟩
          rwa [Nat.add_right_comm] at member
      · rintro ⟨offset, found, same, code, member⟩
        cases offset with
        | zero =>
            obtain rfl : line = found := Option.some.inj same
            rw [if_neg (by simp [code])]
            exact .inl member
        | succ offset =>
            refine .inr ⟨offset, found, same, code, ?_⟩
            rwa [Nat.add_right_comm]

end CallSite
end CallTree
