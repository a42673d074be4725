import CallTree.Proofs.Call.Detection
import CallTree.Proofs.Source.Methods

/-!
# Calls of constructors in both directions

A constructor is called behind `new`, or like a method.  Asked for its callers, a
body may construct the class with type arguments between its name and the
parenthesis.  The calls listed for a body have no such form: there a name stands
before its parenthesis.  So a caller of a constructor lists no call of it exactly
when all it does is to construct the class with type arguments.
-/

namespace CallTree

namespace CallForm

open CallSite

/-- The class is constructed in the line with type arguments: `new`, the class, its
arguments between angle brackets, and a parenthesis. -/
def ConstructsTyped (name : List Char) (line : Line) : Prop :=
  ∃ front gap near inside far behind,
    line = front ++ ("new".toList ++ (gap ++ (name ++ (near ++ '<' ::
      (inside ++ '>' :: (far ++ '(' :: behind)))))) ∧
    followsWord front.reverse = false ∧ gap ≠ [] ∧ IsGap gap ∧ IsGap near ∧ '>' ∉ inside ∧ IsGap far

theorem opensConstruction_iff {text : List Char} :
    opensConstruction text = true ↔ opensArguments text = true ∨
      ∃ near inside far behind, text = near ++ '<' :: (inside ++ '>' :: (far ++ '(' :: behind)) ∧
        IsGap near ∧ '>' ∉ inside ∧ IsGap far := by
  constructor
  · intro opens
    have cut := List.takeWhile_append_dropWhile (p := Text.isBlank) (l := text)
    have blank : IsGap (text.takeWhile Text.isBlank) := fun c => List.mem_takeWhile_imp
    unfold opensConstruction at opens
    split at opens
    · rename_i behind dropped
      exact .inl (beq_iff_eq.mpr (by rw [dropped]; rfl))
    · rename_i inside dropped
      split at opens
      · cases opens
      · rename_i c rest closed
        have isBracket := List.head?_dropWhile_not (· != '>') inside
        rw [closed] at isBracket
        obtain rfl : c = '>' := by simpa using isBracket
        obtain ⟨far, behind, farBlank, rfl⟩ := opensArguments_iff.mp opens
        refine .inr ⟨_, inside.takeWhile (· != '>'), far, behind, ?_, blank, ?_, farBlank⟩
        · rw [← closed, List.takeWhile_append_dropWhile, ← dropped, Text.dropBlanks, cut]
        · intro bracket
          simpa using List.mem_takeWhile_imp bracket
    · cases opens
  · rintro (opens | ⟨near, inside, far, behind, rfl, blank, closed, farBlank⟩)
    · obtain ⟨blanks, behind, blank, rfl⟩ := opensArguments_iff.mp opens
      have dropped : Text.dropBlanks (blanks ++ '(' :: behind) = '(' :: behind := by
        rw [Text.dropBlanks, List.dropWhile_append_of_pos blank]
        rfl
      rw [opensConstruction, dropped]
      rfl
    · have dropped : Text.dropBlanks (near ++ '<' :: (inside ++ '>' :: (far ++ '(' :: behind))) =
          '<' :: (inside ++ '>' :: (far ++ '(' :: behind)) := by
        rw [Text.dropBlanks, List.dropWhile_append_of_pos blank]
        rfl
      have ended : (inside ++ '>' :: (far ++ '(' :: behind)).dropWhile (· != '>') =
          '>' :: (far ++ '(' :: behind) := by
        have within : ∀ c ∈ inside, (c != '>') = true := by
          intro c member
          rw [bne_iff_ne]
          rintro rfl
          exact closed member
        rw [List.dropWhile_append_of_pos within]
        rfl
      unfold opensConstruction
      rw [dropped]
      simp only [ended]
      exact opensArguments_iff.mpr ⟨far, behind, farBlank, rfl⟩

theorem constructed_iff {name before rest : List Char} :
    constructed name before rest = true ↔
      followsWord before = false ∧ ∃ gap text, gap ≠ [] ∧ IsGap gap ∧
        rest = "new".toList ++ (gap ++ (name ++ text)) ∧ opensConstruction text = true := by
  constructor
  · intro found
    unfold constructed at found
    split at found
    · rename_i blank rest
      simp only [Bool.and_eq_true, Bool.not_eq_true'] at found
      obtain ⟨⟨outside, isBlank⟩, named⟩ := found
      obtain ⟨text, member, starts⟩ := List.any_eq_true.mp named
      obtain ⟨blanks, gap, rfl⟩ := mem_skipBlanks_iff.mp member
      obtain ⟨isPrefix, opens⟩ := Bool.and_eq_true_iff.mp starts
      obtain ⟨behind, rfl⟩ := List.isPrefixOf_iff_prefix.mp isPrefix
      rw [List.drop_left] at opens
      exact ⟨outside, blank :: blanks, behind, by simp, List.forall_mem_cons.mpr ⟨isBlank, gap⟩,
        rfl, opens⟩
    · cases found
  · rintro ⟨outside, gap, text, nonempty, blank, rfl, opens⟩
    obtain ⟨c, gap, rfl⟩ := List.exists_cons_of_ne_nil nonempty
    obtain ⟨first, later⟩ := List.forall_mem_cons.mp blank
    have member : name ++ text ∈ skipBlanks (gap ++ (name ++ text)) :=
      mem_skipBlanks_iff.mpr ⟨gap, later, rfl⟩
    have named : (skipBlanks (gap ++ (name ++ text))).any (fun text =>
        name.isPrefixOf text && opensConstruction (text.drop name.length)) = true := by
      refine List.any_eq_true.mpr ⟨_, member, ?_⟩
      rw [List.drop_left, opens, Bool.and_true, List.isPrefixOf_iff_prefix]
      exact List.prefix_append name text
    change constructed name before ('n' :: 'e' :: 'w' :: c :: (gap ++ (name ++ text))) = true
    rw [constructed, outside, first, named]
    rfl

/-- A class behind `new` is called, or constructed with type arguments. -/
theorem calls_or_constructsTyped_of_constructed {name before rest : List Char}
    (found : constructed name before rest = true) :
    Calls name (before.reverse ++ rest) ∨ ConstructsTyped name (before.reverse ++ rest) := by
  obtain ⟨outside, gap, text, nonempty, blank, rfl, opens⟩ := constructed_iff.mp found
  rcases opensConstruction_iff.mp opens with plain | ⟨near, inside, far, behind, rfl, typed⟩
  · obtain ⟨blanks, behind, blanksGap, rfl⟩ := opensArguments_iff.mp plain
    refine .inl ⟨before.reverse ++ "new".toList ++ gap, blanks, behind, by simp, ?_, blanksGap⟩
    exact followsWord_append nonempty blank.outside
  · refine .inr ⟨before.reverse, gap, near, inside, far, behind, rfl, ?_, nonempty, blank, typed⟩
    rw [List.reverse_reverse]
    exact outside

theorem lineCalls_constructor_iff {name : List Char} {line : Line} (nonempty : name ≠ [])
    (noDollar : '$' ∉ line) :
    lineCalls (formsOf name (some name)) line = true ↔
      Calls name line ∨ ConstructsTyped name line := by
  simp only [lineCalls, List.any_eq_true, Prod.exists, mem_positions_nil_iff]
  constructor
  · rintro ⟨form, member, before, rest, rfl, found⟩
    rcases calls_or_constructed_of_mem_formsOf member found with calls | ⟨_, behindNew⟩
    · exact .inl calls
    · exact calls_or_constructsTyped_of_constructed behindNew
  · rintro (calls |
      ⟨front, gap, near, inside, far, behind, rfl, outside, gapNonempty, blank, typed⟩)
    · obtain ⟨before, rest, whole, found⟩ := exists_bare_of_calls calls noDollar
      exact ⟨bare name, by simp [formsOf], before, rest, whole, found⟩
    · refine ⟨constructed name, by simp [formsOf, nonempty], front.reverse, _,
        by rw [List.reverse_reverse], ?_⟩
      exact constructed_iff.mpr ⟨outside, gap, _, gapNonempty, blank, rfl,
        opensConstruction_iff.mpr (.inr ⟨near, inside, far, behind, rfl, typed⟩)⟩

/-- The names of classes: a capital, then letters, digits and underscores. -/
def IsClassName (name : List Char) : Prop :=
  ∃ c rest, name = c :: rest ∧ c.isUpper = true ∧ ∀ d ∈ rest, d.isAlphanum = true ∨ d = '_'

theorem IsClassName.isWord {name : List Char} (isClass : IsClassName name) : IsWord name := by
  obtain ⟨c, rest, rfl, upper, others⟩ := isClass
  refine ⟨by simp, List.forall_mem_cons.mpr ⟨?_, ?_⟩⟩
  · apply Text.isWord_of_isAlphanum
    exact Bool.or_eq_true_iff.mpr (.inl (Bool.or_eq_true_iff.mpr (.inl upper)))
  · intro d member
    rcases others d member with alphanum | rfl
    · exact Text.isWord_of_isAlphanum alphanum
    · rfl

theorem exists_site_iff {body : List Line} {name : String} :
    (∃ site ∈ CallSite.between body 0 none 0, site.callee = name) ↔
      ∃ line ∈ body, Line.isComment line = false ∧
        ∃ start stop, StandsAt line start stop name.toList := by
  rw [between_all]
  simp only [mem_onLines_iff]
  constructor
  · rintro ⟨site, ⟨offset, line, found, code, member⟩, rfl⟩
    refine ⟨line, List.mem_of_getElem? found, code, ?_⟩
    exact exists_mem_onLine_iff.mp ⟨site, member, (String.ofList_toList).symm⟩
  · rintro ⟨line, lineMem, code, stands⟩
    obtain ⟨offset, found⟩ := List.getElem?_of_mem lineMem
    obtain ⟨site, member, same⟩ := exists_mem_onLine_iff.mpr stands
    exact ⟨site, ⟨offset, line, found, code, member⟩, by rw [same, String.ofList_toList]⟩

/-- A body is found to call a constructor exactly when the calls listed for the body have
one of it, or some line constructs the class with type arguments. -/
theorem bodyCalls_constructor_iff {body : List Line} {name : String}
    (noDollar : ∀ line ∈ body, '$' ∉ line) (isClass : IsClassName name.toList) :
    bodyCalls body name (some name) = true ↔
      (∃ site ∈ CallSite.between body 0 none 0, site.callee = name) ∨
        ∃ line ∈ body, Line.isComment line = false ∧ ConstructsTyped name.toList line := by
  have isWord := isClass.isWord
  have allowed : String.ofList name.toList ∉ uncalledWords := by
    obtain ⟨c, rest, nameEq, upper, _⟩ := isClass
    exact not_mem_uncalledWords (by rw [nameEq]; exact List.mem_cons_self) upper
  rw [exists_site_iff, bodyCalls, List.any_eq_true, ← exists_or]
  refine exists_congr fun line => ?_
  rw [← and_or_left, ← and_or_left, and_congr_right_iff]
  intro lineMem
  rw [← calls_iff_standsAt isWord allowed, Bool.and_eq_true, Bool.not_eq_true', Option.map_some,
    lineCalls_constructor_iff isWord.1 (noDollar line lineMem)]

/-- A body with a class in type arguments, in a comment and in a longer word. -/
def typedBody : List Line :=
  ["// Box(x);".toList, "List<Box> boxes = of(smallBox(x), new Box <String> (x));".toList]

theorem isClassName_box : IsClassName "Box".toList :=
  ⟨'B', ['o', 'x'], rfl, rfl,
    List.forall_mem_cons.mpr ⟨.inl rfl, List.forall_mem_singleton.mpr (.inl rfl)⟩⟩

/-- The body constructs the class, and no call of it is listed. -/
theorem typedBody_misses_box :
    bodyCalls typedBody "Box" (some "Box") = true ∧
      ¬ ∃ site ∈ CallSite.between typedBody 0 none 0, site.callee = "Box" := by
  decide +kernel

theorem typedBody_constructs_box :
    bodyCalls typedBody "Box" (some "Box") = true ∧
      ∃ line ∈ typedBody, Line.isComment line = false ∧ ConstructsTyped "Box".toList line := by
  obtain ⟨calls, missed⟩ := typedBody_misses_box
  have found := (bodyCalls_constructor_iff (by decide) isClassName_box).mp calls
  exact ⟨calls, found.resolve_left missed⟩

/-- A body may be found to call a constructor of which it has no listed call. -/
theorem not_exists_site_of_bodyCalls_constructor :
    ¬ ∀ (body : List Line) (name : String), (∀ line ∈ body, '$' ∉ line) →
      IsClassName name.toList → bodyCalls body name (some name) = true →
        ∃ site ∈ CallSite.between body 0 none 0, site.callee = name := by
  intro always
  obtain ⟨calls, missed⟩ := typedBody_misses_box
  exact missed (always typedBody "Box" (by decide) isClassName_box calls)

end CallForm
end CallTree
