import CallTree.Call.Form
import CallTree.Proofs.Call.Texts

/-!
# Detection of calls in both directions

Callers are found by asking whether a body calls a given method, callees by
listing the calls of a body.  The first tries the forms that a call of the name
can take, the second the forms of any call.  For the names of methods, and
where no dollar sign makes a word part of a longer identifier, both see the
same calls: the places where the name stands before a parenthesis and no word
runs into it.
-/

namespace CallTree
namespace CallForm

open CallSite

/-- The name stands in the line before a parenthesis, and no word runs into
it. -/
def Calls (name : List Char) (line : Line) : Prop :=
  ∃ front blanks behind, line = front ++ (name ++ (blanks ++ '(' :: behind)) ∧
    followsWord front.reverse = false ∧ IsGap blanks

theorem mem_skipBlanks_iff {text rest : List Char} :
    rest ∈ skipBlanks text ↔ ∃ blanks, IsGap blanks ∧ text = blanks ++ rest := by
  induction text with
  | nil =>
      simp only [skipBlanks, List.mem_singleton, List.nil_eq_append_iff]
      constructor
      · rintro rfl
        exact ⟨[], by simp [IsGap], rfl, rfl⟩
      · rintro ⟨_, _, _, rfl⟩
        rfl
  | cons c text ih =>
      rw [skipBlanks]
      split
      · rename_i blank
        rw [List.mem_cons, ih]
        constructor
        · rintro (rfl | ⟨blanks, gap, rfl⟩)
          · exact ⟨[], by simp [IsGap], rfl⟩
          · exact ⟨c :: blanks, List.forall_mem_cons.mpr ⟨blank, gap⟩, rfl⟩
        · rintro ⟨blanks, gap, whole⟩
          cases blanks with
          | nil => exact .inl whole.symm
          | cons d blanks =>
              obtain ⟨rfl, rfl⟩ := List.cons.inj whole
              exact .inr ⟨blanks, (List.forall_mem_cons.mp gap).2, rfl⟩
      · rename_i notBlank
        rw [List.mem_singleton]
        constructor
        · rintro rfl
          exact ⟨[], by simp [IsGap], rfl⟩
        · rintro ⟨blanks, gap, whole⟩
          cases blanks with
          | nil => exact whole.symm
          | cons d blanks =>
              obtain ⟨rfl, _⟩ := List.cons.inj whole
              exact absurd (gap c List.mem_cons_self) notBlank

theorem isCallOf_iff {name text : List Char} :
    isCallOf name text = true ↔
      ∃ blanks behind, IsGap blanks ∧ text = name ++ (blanks ++ '(' :: behind) := by
  rw [isCallOf, Bool.and_eq_true_iff, List.isPrefixOf_iff_prefix, opensArguments_iff]
  constructor
  · rintro ⟨⟨rest, rfl⟩, blanks, behind, gap, opened⟩
    rw [List.drop_left] at opened
    exact ⟨blanks, behind, gap, by rw [opened]⟩
  · rintro ⟨blanks, behind, gap, rfl⟩
    exact ⟨⟨_, rfl⟩, blanks, behind, gap, List.drop_left⟩

theorem calls_of_isDottedCallOf {name front rest : List Char}
    (found : isDottedCallOf name rest = true) : Calls name (front ++ rest) := by
  unfold isDottedCallOf at found
  split at found
  · rename_i behindDot
    obtain ⟨text, member, called⟩ := List.any_eq_true.mp found
    obtain ⟨skipped, skippedGap, rfl⟩ := mem_skipBlanks_iff.mp member
    obtain ⟨blanks, behind, gap, rfl⟩ := isCallOf_iff.mp called
    refine ⟨front ++ '.' :: skipped, blanks, behind, by simp, ?_, gap⟩
    -- Neither the dot nor the blanks behind it belong to a word.
    apply followsWord_append (by simp)
    exact List.forall_mem_cons.mpr ⟨by decide, skippedGap.outside⟩
  · cases found

theorem calls_of_dotted_behind_blanks {name front rest : List Char}
    (found : (skipBlanks rest).any (isDottedCallOf name) = true) : Calls name (front ++ rest) := by
  obtain ⟨text, member, dotted⟩ := List.any_eq_true.mp found
  obtain ⟨skipped, _, rfl⟩ := mem_skipBlanks_iff.mp member
  rw [← List.append_assoc]
  exact calls_of_isDottedCallOf dotted

theorem calls_of_received {name before rest : List Char}
    (found : received name before rest = true) : Calls name (before.reverse ++ rest) :=
  calls_of_dotted_behind_blanks (Bool.and_eq_true_iff.mp found).2

theorem calls_of_receivedBy {receiver name before rest : List Char}
    (found : receivedBy receiver name before rest = true) :
    Calls name (before.reverse ++ rest) := by
  obtain ⟨starts, dotted⟩ := Bool.and_eq_true_iff.mp (Bool.and_eq_true_iff.mp found).2
  obtain ⟨behind, rfl⟩ := List.isPrefixOf_iff_prefix.mp starts
  rw [List.drop_left] at dotted
  rw [← List.append_assoc]
  exact calls_of_dotted_behind_blanks dotted

/-- Apart from the dollar sign, identifiers are made of word characters. -/
theorem head?_any_isIdentifierPart {before : List Char} (noDollar : before.head? ≠ some '$') :
    before.head?.any Text.isIdentifierPart = followsWord before := by
  cases before with
  | nil => rfl
  | cons c before =>
      have other : c ≠ '$' := by simpa using noDollar
      simp [followsWord, Text.isIdentifierPart, other]

theorem calls_of_bare {name before rest : List Char} (found : bare name before rest = true) :
    Calls name (before.reverse ++ rest) := by
  obtain ⟨outside, called⟩ := Bool.and_eq_true_iff.mp found
  obtain ⟨blanks, behind, gap, rfl⟩ := isCallOf_iff.mp called
  refine ⟨before.reverse, blanks, behind, rfl, ?_, gap⟩
  have notPart : before.head?.any Text.isIdentifierPart = false := by simpa using outside
  rw [List.reverse_reverse, ← head?_any_isIdentifierPart, notPart]
  intro dollar
  rw [dollar] at notPart
  exact absurd notPart (by decide)

/-- Where the name stands outside of words, it is called bare, unless a dollar
sign stands before it. -/
theorem exists_bare_of_calls {name : List Char} {line : Line} (calls : Calls name line)
    (noDollar : '$' ∉ line) :
    ∃ before rest, line = before.reverse ++ rest ∧ bare name before rest = true := by
  obtain ⟨front, blanks, behind, rfl, outside, gap⟩ := calls
  refine ⟨front.reverse, name ++ (blanks ++ '(' :: behind), by simp, ?_⟩
  have before : front.reverse.head? ≠ some '$' := by
    intro dollar
    exact noDollar (List.mem_append_left _ (List.mem_reverse.mp (List.mem_of_mem_head? dollar)))
  rw [bare, Bool.and_eq_true_iff, head?_any_isIdentifierPart before, outside]
  exact ⟨rfl, isCallOf_iff.mpr ⟨blanks, behind, gap, rfl⟩⟩

/-- Every form of a call has the name stand outside of words, or is the one of a
constructor behind `new`. -/
theorem calls_or_constructed_of_mem_formsOf {name : List Char} {className : Option (List Char)}
    {form : List Char → List Char → Bool} (member : form ∈ formsOf name className)
    {before rest : List Char} (found : form before rest = true) :
    Calls name (before.reverse ++ rest) ∨
      (className = some name ∧ constructed name before rest = true) := by
  unfold formsOf at member
  rw [List.append_assoc, List.append_assoc] at member
  rcases List.mem_append.mp member with any | more
  · rw [List.mem_singleton.mp any] at found
    exact .inl (calls_of_received found)
  rcases List.mem_append.mp more with onClass | others
  · cases className with
    | none => cases onClass
    | some className =>
        simp only at onClass
        split at onClass
        · cases onClass
        · rw [List.mem_singleton.mp onClass] at found
          exact .inl (calls_of_receivedBy found)
  rcases List.mem_append.mp others with plain | construction
  · simp only [List.mem_cons, List.not_mem_nil, or_false] at plain
    rcases plain with rfl | rfl | rfl | rfl
    · exact .inl (calls_of_bare found)
    · exact .inl (calls_of_receivedBy found)
    · exact .inl (calls_of_receivedBy found)
    · exact .inl (calls_of_isDottedCallOf found)
  · split at construction
    · rename_i own
      rw [List.mem_singleton.mp construction] at found
      exact .inr ⟨beq_iff_eq.mp (Bool.and_eq_true_iff.mp own).2, found⟩
    · cases construction

/-- Every form of a call of a method has the name stand outside of words. -/
theorem calls_of_mem_formsOf {name : List Char} {className : Option (List Char)}
    (other : className ≠ some name) {form : List Char → List Char → Bool}
    (member : form ∈ formsOf name className) {before rest : List Char}
    (found : form before rest = true) : Calls name (before.reverse ++ rest) :=
  (calls_or_constructed_of_mem_formsOf member found).resolve_right
    fun construction => other construction.1

theorem lineCalls_iff {name : List Char} {className : Option (List Char)} {line : Line}
    (other : className ≠ some name) (noDollar : '$' ∉ line) :
    lineCalls (formsOf name className) line = true ↔ Calls name line := by
  simp only [lineCalls, List.any_eq_true, Prod.exists, mem_positions_nil_iff]
  constructor
  · rintro ⟨form, member, before, rest, rfl, found⟩
    exact calls_of_mem_formsOf other member found
  · intro calls
    obtain ⟨before, rest, whole, found⟩ := exists_bare_of_calls calls noDollar
    exact ⟨bare name, by simp [formsOf], before, rest, whole, found⟩

/-- A word that may be called is called where the text of a call of it stands. -/
theorem calls_iff_standsAt {name : List Char} {line : Line} (word : IsWord name)
    (allowed : String.ofList name ∉ uncalledWords) :
    Calls name line ↔ ∃ start stop, StandsAt line start stop name := by
  constructor
  · rintro ⟨front, blanks, behind, rfl, outside, gap⟩
    exact ⟨_, _, front, _, behind, by simp, rfl, rfl, outside, .bare word allowed gap⟩
  · rintro ⟨_, _, front, text, behind, rfl, _, _, outside, stands⟩
    cases stands with
    | @bare blanks _ _ gap => exact ⟨front, blanks, behind, by simp, outside, gap⟩
    | @qualified receiver blanks _ _ _ gap =>
        refine ⟨front ++ receiver ++ ['.'], blanks, behind, by simp, ?_, gap⟩
        exact followsWord_append (by simp) (List.forall_mem_singleton.mpr (by decide))

theorem between_all (body : List Line) : between body 0 none 0 = onLines 0 body := by
  have stop :
      (min ((body.length : Int) - 1) ((body.length : Int) - 1) + 1).toNat = body.length := by
    omega
  simp only [between, Option.getD_none, stop, List.take_length, Int.toNat_zero, List.drop_zero]
  cases body with
  | nil => rfl
  | cons line body => simp

/-- For a method's name, a body is found to call it exactly when the calls listed
for the body have one of it. -/
theorem bodyCalls_iff_exists_site {body : List Line} {name : String} {className : Option String}
    (noDollar : ∀ line ∈ body, '$' ∉ line) (nonempty : name ≠ "")
    (word : ∀ c ∈ name.toList, Text.isWord c = true) (allowed : name ∉ uncalledWords)
    (other : className ≠ some name) :
    bodyCalls body name className = true ↔
      ∃ site ∈ CallSite.between body 0 none 0, site.callee = name := by
  have otherChars : className.map String.toList ≠ some name.toList := by
    intro same
    obtain ⟨given, rfl, listEq⟩ := Option.map_eq_some_iff.mp same
    exact other (congrArg some (String.toList_injective listEq))
  have isWord : IsWord name.toList := ⟨by simpa using nonempty, word⟩
  have calledChars : String.ofList name.toList ∉ uncalledWords := by simpa using allowed
  rw [between_all, bodyCalls]
  simp only [List.any_eq_true, Bool.and_eq_true, Bool.not_eq_true', mem_onLines_iff]
  constructor
  · rintro ⟨line, lineMem, code, found⟩
    have calls := (lineCalls_iff otherChars (noDollar line lineMem)).mp found
    obtain ⟨offset, place⟩ := List.getElem?_of_mem lineMem
    obtain ⟨site, member, same⟩ :=
      exists_mem_onLine_iff.mpr ((calls_iff_standsAt isWord calledChars).mp calls)
    exact ⟨site, ⟨offset, line, place, code, member⟩, by rw [same, String.ofList_toList]⟩
  · rintro ⟨site, ⟨offset, line, found, code, member⟩, rfl⟩
    have lineMem := List.mem_of_getElem? found
    have calls := exists_mem_onLine_iff.mp ⟨site, member, (String.ofList_toList).symm⟩
    refine ⟨line, lineMem, code, (lineCalls_iff otherChars (noDollar line lineMem)).mpr ?_⟩
    exact (calls_iff_standsAt isWord calledChars).mpr calls

/-- A call spread by blanks, behind a comment with another. -/
def spacedBody : List Line :=
  ["// save(x);".toList, "return this . store\t. save (y);".toList]

theorem spacedBody_calls_save :
    bodyCalls spacedBody "save" (some "Store") = true ∧
      ∃ site ∈ between spacedBody 0 none 0, site.callee = "save" := by
  have calls : bodyCalls spacedBody "save" (some "Store") = true := by decide +kernel
  have word : ∀ c ∈ "save".toList, Text.isWord c = true := List.all_eq_true.mp (by decide)
  exact ⟨calls, (bodyCalls_iff_exists_site (by decide) (by decide) word (by decide)
    (by decide)).mp calls⟩

end CallForm
end CallTree
