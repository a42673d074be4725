import CallTree.Extent
import CallTree.Proofs.Call.Texts

/-!
# The search for a body

The body of a method is looked for behind the first place where the method's
name stands before a parenthesis.  The search reads one line after the other, so
it succeeds when some line has the name with its parenthesis, and a brace stands
behind them, on the same line or on a later one.
-/

namespace CallTree

open CallSite (IsGap)

/-- No identifier runs on behind the text. -/
def Text.EndsApart (text : List Char) : Prop :=
  ∀ c, text.getLast? = some c → isIdentifierPart c = false

theorem Text.endsApart_append {front text : List Char} (nonempty : text ≠ []) :
    EndsApart (front ++ text) ↔ EndsApart text := by
  rw [EndsApart, EndsApart, List.getLast?_append_of_ne_nil front nonempty]

theorem getElem?_of_suffix {text found : List Char} {c : Char} (suffix : c :: found <:+ text) :
    text[text.length - (c :: found).length]? = some c := by
  obtain ⟨front, rfl⟩ := suffix
  rw [List.length_append, Nat.add_sub_cancel, List.getElem?_append_right (Nat.le_refl _),
    Nat.sub_self]
  rfl

namespace Extent

/-- The name stands before a parenthesis in the text, with nothing but blanks
between them, and does not continue an identifier. -/
structure Named (name text front gap behind : List Char) : Prop where
  text_eq : text = front ++ (name ++ (gap ++ '(' :: behind))
  blank : IsGap gap
  apart : Text.EndsApart front

section FindNamed

variable {name text found front gap behind : List Char} {previous : Option Char}

theorem afterNamed?_append (blank : IsGap gap) :
    afterNamed? name (name ++ (gap ++ '(' :: behind)) = some behind := by
  rw [afterNamed?, if_pos (List.isPrefixOf_iff_prefix.mpr (List.prefix_append _ _)),
    List.drop_left, Text.dropBlanks, List.dropWhile_append_of_pos blank]
  rfl

theorem exists_gap_of_afterNamed? (found_eq : afterNamed? name text = some found) :
    ∃ gap, IsGap gap ∧ text = name ++ (gap ++ '(' :: found) := by
  rw [afterNamed?] at found_eq
  split at found_eq
  · rename_i isPrefix
    obtain ⟨rest, rfl⟩ := List.isPrefixOf_iff_prefix.mp isPrefix
    rw [List.drop_left] at found_eq
    split at found_eq
    · rename_i dropped
      cases found_eq
      refine ⟨rest.takeWhile Text.isBlank, fun c member => List.mem_takeWhile_imp member, ?_⟩
      rw [← dropped, Text.dropBlanks, List.takeWhile_append_dropWhile]
    · cases found_eq
  · cases found_eq

/-- The parenthesis of an occurrence further on is not passed over. -/
theorem suffix_of_afterNamed? {c : Char}
    (text_eq : text = (c :: front) ++ (name ++ (gap ++ '(' :: behind)))
    (found_eq : afterNamed? name text = some found) : behind <:+ found := by
  obtain ⟨nearer, nearerBlank, nearer_eq⟩ := exists_gap_of_afterNamed? found_eq
  have foundSuffix : found <:+ text :=
    ⟨name ++ (nearer ++ ['(']), by rw [nearer_eq]; simp⟩
  have behindSuffix : behind <:+ text :=
    ⟨(c :: front) ++ (name ++ (gap ++ ['('])), by rw [text_eq]; simp⟩
  rcases Nat.lt_or_ge found.length behind.length with shorter | longer
  · have parenSuffix : '(' :: found <:+ text := ⟨name ++ nearer, by rw [nearer_eq]; simp⟩
    obtain ⟨between, rfl⟩ := List.suffix_of_suffix_length_le parenSuffix behindSuffix shorter
    have same : ((c :: front) ++ (name ++ gap)) ++ '(' :: between = name ++ nearer := by
      apply (List.append_left_inj ('(' :: found)).mp
      calc ((c :: front) ++ (name ++ gap)) ++ '(' :: between ++ '(' :: found
          = text := by rw [text_eq]; simp
        _ = name ++ nearer ++ '(' :: found := by rw [nearer_eq]; simp
    rcases List.append_eq_append_iff.mp same with ⟨_, nameEq, _⟩ | ⟨blanks, _, rfl⟩
    · have lengths := congrArg List.length nameEq
      simp only [List.length_append, List.length_cons] at lengths
      omega
    · exact absurd (nearerBlank '(' (by simp)) (by decide)
  · exact List.suffix_of_suffix_length_le behindSuffix foundSuffix longer

/-- The first place is found, and every other one lies behind it. -/
theorem exists_findNamed? (blank : IsGap gap)
    (apart : Text.EndsApart (previous.toList ++ front)) :
    ∃ found, findNamed? name previous (front ++ (name ++ (gap ++ '(' :: behind))) = some found ∧
      behind <:+ found := by
  induction front generalizing previous with
  | nil =>
      have starts : previous.any Text.isIdentifierPart = false := by
        cases previous with
        | none => rfl
        | some c => exact apart c rfl
      refine ⟨behind, ?_, List.suffix_rfl⟩
      rw [List.nil_append, findNamed?.eq_def, starts, if_neg Bool.false_ne_true,
        afterNamed?_append blank]
      split <;> rfl
  | cons c front ih =>
      have laterApart : Text.EndsApart ((some c).toList ++ front) :=
        (Text.endsApart_append (by simp)).mp apart
      obtain ⟨later, laterEq, laterSuffix⟩ := ih laterApart
      rw [List.cons_append, findNamed?]
      split
      · exact ⟨later, laterEq, laterSuffix⟩
      · cases here : afterNamed? name (c :: (front ++ (name ++ (gap ++ '(' :: behind)))) with
        | none => exact ⟨later, laterEq, laterSuffix⟩
        | some found => exact ⟨found, rfl, suffix_of_afterNamed? rfl here⟩

theorem exists_named_of_afterNamed? (starts : previous.any Text.isIdentifierPart = false)
    (found_eq : afterNamed? name text = some found) :
    ∃ front gap, text = front ++ (name ++ (gap ++ '(' :: found)) ∧ IsGap gap ∧
      Text.EndsApart (previous.toList ++ front) := by
  obtain ⟨gap, blank, text_eq⟩ := exists_gap_of_afterNamed? found_eq
  refine ⟨[], gap, text_eq, blank, ?_⟩
  intro c last
  cases previous with
  | none => cases last
  | some d =>
      cases last
      exact starts

theorem exists_named_of_findNamed? (found_eq : findNamed? name previous text = some found) :
    ∃ front gap, text = front ++ (name ++ (gap ++ '(' :: found)) ∧ IsGap gap ∧
      Text.EndsApart (previous.toList ++ front) := by
  induction text generalizing previous with
  | nil =>
      rw [findNamed?] at found_eq
      split at found_eq
      · cases found_eq
      · rename_i starts
        exact exists_named_of_afterNamed? (Bool.eq_false_iff.mpr starts) found_eq
  | cons c text ih =>
      have later (later_eq : findNamed? name (some c) text = some found) :
          ∃ front gap, c :: text = front ++ (name ++ (gap ++ '(' :: found)) ∧ IsGap gap ∧
            Text.EndsApart (previous.toList ++ front) := by
        obtain ⟨front, gap, rfl, blank, apart⟩ := ih later_eq
        exact ⟨c :: front, gap, rfl, blank, (Text.endsApart_append (by simp)).mpr apart⟩
      rw [findNamed?] at found_eq
      split at found_eq
      · exact later found_eq
      · rename_i starts
        cases here : afterNamed? name (c :: text) with
        | none =>
            rw [here] at found_eq
            exact later found_eq
        | some other =>
            rw [here] at found_eq
            cases found_eq
            exact exists_named_of_afterNamed? (Bool.eq_false_iff.mpr starts) here

theorem Named.exists_findNamed? (named : Named name text front gap behind) :
    ∃ found, findNamed? name none text = some found ∧ behind <:+ found := by
  rw [named.text_eq]
  exact Extent.exists_findNamed? named.blank named.apart

theorem named_of_findNamed? (found_eq : findNamed? name none text = some found) :
    ∃ front gap, Named name text front gap found := by
  obtain ⟨front, gap, text_eq, blank, apart⟩ := exists_named_of_findNamed? found_eq
  exact ⟨front, gap, text_eq, blank, apart⟩

theorem Named.suffix (named : Named name text front gap behind) : behind <:+ text :=
  ⟨front ++ (name ++ (gap ++ ['('])), by rw [named.text_eq]; simp⟩

end FindNamed

/-- The search will find a brace in the masks. -/
def Search.Succeeds (masks : List Line) : Search → Prop
  | .call name => ∃ skipped mask later front gap behind, masks = skipped ++ mask :: later ∧
      Named name mask front gap behind ∧ '{' ∈ behind ++ later.flatten
  | .brace => '{' ∈ masks.flatten

section Search

variable {search next : Search} {mask : Line} {masks : List Line} {column : Nat}

theorem getElem?_of_braceFrom {behind : List Char} {c : Char} {found : List Char}
    (suffix : behind <:+ mask) (found_eq : behind.dropWhile (· != '{') = c :: found) :
    mask[mask.length - (c :: found).length]? = some '{' := by
  have isBrace := List.head?_dropWhile_not (· != '{') behind
  rw [found_eq] at isBrace
  obtain rfl : c = '{' := by simpa using isBrace
  exact getElem?_of_suffix ((found_eq ▸ List.dropWhile_suffix _).trans suffix)

theorem not_mem_of_braceFrom {behind : List Char}
    (nothing : behind.dropWhile (· != '{') = []) : '{' ∉ behind := by
  intro member
  simpa using List.dropWhile_eq_nil_iff.mp nothing '{' member

/-- A column that the search gives is that of a brace. -/
theorem getElem?_of_advance (advance_eq : search.advance mask = .inr column) :
    mask[column]? = some '{' := by
  cases search with
  | brace =>
      rw [Search.advance] at advance_eq
      cases ahead : mask.dropWhile (· != '{') with
      | nil => simp [ahead] at advance_eq
      | cons c found =>
          rw [ahead] at advance_eq
          cases advance_eq
          exact getElem?_of_braceFrom List.suffix_rfl ahead
  | call name =>
      rw [Search.advance] at advance_eq
      cases named : findNamed? name none mask with
      | none => simp [named] at advance_eq
      | some behind =>
          rw [named] at advance_eq
          obtain ⟨front, gap, isNamed⟩ := named_of_findNamed? named
          cases ahead : behind.dropWhile (· != '{') with
          | nil => simp [ahead] at advance_eq
          | cons c found =>
              simp only [ahead] at advance_eq
              cases advance_eq
              exact getElem?_of_braceFrom isNamed.suffix ahead

/-- Where a line does not end a search that will succeed, the lines below it
do. -/
theorem Search.Succeeds.advance (succeeds : search.Succeeds (mask :: masks))
    (advance_eq : search.advance mask = .inl next) : next.Succeeds masks := by
  cases search with
  | brace =>
      rw [Search.advance] at advance_eq
      cases ahead : mask.dropWhile (· != '{') with
      | cons c found => simp [ahead] at advance_eq
      | nil =>
          rw [ahead] at advance_eq
          cases advance_eq
          rcases List.mem_append.mp succeeds with here | later
          · exact absurd here (not_mem_of_braceFrom ahead)
          · exact later
  | call name =>
      obtain ⟨skipped, holder, later, front, gap, behind, masksEq, isNamed, brace⟩ := succeeds
      rw [Search.advance] at advance_eq
      cases named : findNamed? name none mask with
      | none =>
          rw [named] at advance_eq
          cases advance_eq
          cases skipped with
          | nil =>
              cases masksEq
              obtain ⟨found, foundEq, _⟩ := isNamed.exists_findNamed?
              cases named.symm.trans foundEq
          | cons first skipped =>
              cases masksEq
              exact ⟨skipped, holder, later, front, gap, behind, rfl, isNamed, brace⟩
      | some found =>
          simp only [named] at advance_eq
          cases ahead : found.dropWhile (· != '{') with
          | cons c rest => simp [ahead] at advance_eq
          | nil =>
              rw [ahead] at advance_eq
              cases advance_eq
              cases skipped with
              | nil =>
                  cases masksEq
                  obtain ⟨other, otherEq, suffix⟩ := isNamed.exists_findNamed?
                  cases named.symm.trans otherEq
                  rcases List.mem_append.mp brace with here | below
                  · exact absurd (suffix.subset here) (not_mem_of_braceFrom ahead)
                  · exact below
              | cons first skipped =>
                  have masks_eq : masks = skipped ++ holder :: later := (List.cons.inj masksEq).2
                  rw [Search.Succeeds, masks_eq, List.flatten_append, List.flatten_cons]
                  rcases List.mem_append.mp brace with here | below
                  · exact List.mem_append_right _
                      (List.mem_append_left _ (isNamed.suffix.subset here))
                  · exact List.mem_append_right _ (List.mem_append_right _ below)

/-- A search that succeeds gives a body that starts behind a brace. -/
theorem exists_body_ofMasks (start index : Nat) (succeeds : search.Succeeds masks) :
    ∃ (line column : Nat) (mask : Line), (ofMasks start search index masks).body =
        some ⟨(index + line : Nat), (column : Int) + 1⟩ ∧
      masks[line]? = some mask ∧ mask[column]? = some '{' := by
  induction masks generalizing search index with
  | nil =>
      cases search with
      | brace => cases succeeds
      | call name =>
          obtain ⟨_, _, _, _, _, _, masksEq, _⟩ := succeeds
          simp at masksEq
  | cons mask masks ih =>
      rw [ofMasks]
      cases advanced : search.advance mask with
      | inl next =>
          obtain ⟨line, column, found, bodyEq, maskEq, braceEq⟩ :=
            ih (index + 1) (succeeds.advance advanced)
          refine ⟨line + 1, column, found, ?_, maskEq, braceEq⟩
          rw [← Nat.add_right_comm, Nat.add_assoc] at bodyEq
          exact bodyEq
      | inr column =>
          refine ⟨0, column, mask, ?_, rfl, getElem?_of_advance advanced⟩
          dsimp only
          split <;> rfl

end Search

end Extent
end CallTree
