import CallTree.Proofs.Declaration.Heads
import CallTree.Proofs.Source.Agreement
import CallTree.Proofs.Text.Spacing

/-!
# What opens a class

A line opens a class where the first class header on it starts: at the start of the line or
behind a boundary, modifiers, a word that introduces a class, and a name.  Nothing else is asked
of the name, so the class of a line is named by some header at or above the line, and it is never
a reserved word exactly when no line's first header has one behind it.
-/

namespace CallTree
namespace ClassStack

open CallSite (IsGap)
open Text (StartsVisible)

/-- A text with modifiers in front of it, each followed by blanks. -/
inductive Modified (text : List Char) : List Char → Prop where
  | plain : Modified text text
  | behind {word : String} {gap rest : List Char} : word ∈ Declaration.modifiers → gap ≠ [] →
      IsGap gap → Modified text rest → Modified text (word.toList ++ (gap ++ rest))

/-- The text starts with a class header: modifiers, a word that introduces a class, blanks, and
what is `named` from the class's name on. -/
def StartsHeader (text named : List Char) : Prop :=
  ∃ word ∈ Declaration.classWords, ∃ gap, gap ≠ [] ∧ IsGap gap ∧
    Modified (word.toList ++ (gap ++ named)) text ∧
    named.head?.any Text.isIdentifierStart = true

theorem afterBlanks?_eq_some_iff {text rest : List Char} :
    afterBlanks? text = some rest ↔
      ∃ gap, gap ≠ [] ∧ IsGap gap ∧ text = gap ++ rest ∧ StartsVisible rest := by
  cases text with
  | nil =>
      constructor
      · nofun
      · rintro ⟨gap, nonempty, _, whole, _⟩
        exact absurd (List.append_eq_nil_iff.mp whole.symm).1 nonempty
  | cons c text =>
      rw [afterBlanks?]
      constructor
      · intro found
        split at found
        · rename_i blank
          cases found
          refine ⟨c :: text.takeWhile Text.isBlank, by simp, ?_, ?_,
            Text.startsVisible_dropBlanks text⟩
          · exact List.forall_mem_cons.mpr ⟨blank, fun d => List.mem_takeWhile_imp⟩
          · rw [List.cons_append, Text.dropBlanks, List.takeWhile_append_dropWhile]
        · cases found
      · rintro ⟨gap, nonempty, blank, whole, visible⟩
        obtain ⟨d, gap, rfl⟩ := List.exists_cons_of_ne_nil nonempty
        rw [List.cons_append] at whole
        obtain ⟨rfl, rfl⟩ := List.cons.inj whole
        obtain ⟨first, later⟩ := List.forall_mem_cons.mp blank
        rw [if_pos first, Text.dropBlanks, List.dropWhile_append_of_pos later]
        cases rest with
        | nil => rfl
        | cons d rest => rw [List.dropWhile_cons_of_neg (by simp [visible d rfl])]

/-- A word without blanks that blanks follow is what stands before the first blank. -/
theorem takeWhile_visible_append {word gap : List Char}
    (visible : ∀ c ∈ word, Text.isBlank c = false) (nonempty : gap ≠ []) (blank : IsGap gap)
    (rest : List Char) :
    (word ++ (gap ++ rest)).takeWhile (!Text.isBlank ·) = word ∧
      (word ++ (gap ++ rest)).dropWhile (!Text.isBlank ·) = gap ++ rest := by
  obtain ⟨c, gap, rfl⟩ := List.exists_cons_of_ne_nil nonempty
  have first := blank c List.mem_cons_self
  have inside : ∀ d ∈ word, (!Text.isBlank d) = true := by
    intro d member
    simp [visible d member]
  rw [List.takeWhile_append_of_pos inside, List.dropWhile_append_of_pos inside]
  simp [first]

theorem isBlank_eq_false_of_mem_words :
    ∀ word ∈ Declaration.classWords ++ Declaration.modifiers, ∀ c ∈ word.toList,
      Text.isBlank c = false := by
  have shown : (Declaration.classWords ++ Declaration.modifiers).all
      (·.toList.all (!Text.isBlank ·)) = true := by
    decide
  intro word wordMem c member
  have visible := List.all_eq_true.mp (List.all_eq_true.mp shown word wordMem) c member
  simpa using visible

theorem startsVisible_word {word : String}
    (wordMem : word ∈ Declaration.classWords ++ Declaration.modifiers) (rest : List Char) :
    StartsVisible (word.toList ++ rest) := by
  have nonempty : ∀ word ∈ Declaration.classWords ++ Declaration.modifiers, word.toList ≠ [] := by
    decide
  obtain ⟨c, later, wordEq⟩ := List.exists_cons_of_ne_nil (nonempty word wordMem)
  rw [wordEq]
  exact Text.startsVisible_cons
    (isBlank_eq_false_of_mem_words word wordMem c (by rw [wordEq]; exact List.mem_cons_self))

theorem isModifier_iff {word : List Char} :
    Declaration.isModifier word = true ↔
      ∃ modifier ∈ Declaration.modifiers, modifier.toList = word := by
  simp [Declaration.isModifier]

theorem afterModifier?_eq_some_iff {text rest : List Char} :
    afterModifier? text = some rest ↔
      ∃ word ∈ Declaration.modifiers, ∃ gap, gap ≠ [] ∧ IsGap gap ∧
        text = word.toList ++ (gap ++ rest) ∧ StartsVisible rest := by
  rw [afterModifier?]
  constructor
  · intro found
    split at found
    · rename_i modifier
      obtain ⟨word, wordMem, wordEq⟩ := isModifier_iff.mp modifier
      obtain ⟨gap, nonempty, blank, behindEq, visible⟩ := afterBlanks?_eq_some_iff.mp found
      refine ⟨word, wordMem, gap, nonempty, blank, ?_, visible⟩
      rw [wordEq, ← behindEq, List.takeWhile_append_dropWhile]
    · cases found
  · rintro ⟨word, wordMem, gap, nonempty, blank, rfl, visible⟩
    have shown := isBlank_eq_false_of_mem_words word (List.mem_append_right _ wordMem)
    obtain ⟨taken, dropped⟩ := takeWhile_visible_append shown nonempty blank rest
    rw [taken, dropped, if_pos (isModifier_iff.mpr ⟨word, wordMem, rfl⟩)]
    exact afterBlanks?_eq_some_iff.mpr ⟨gap, nonempty, blank, rfl, visible⟩

theorem modified_skipModifiers (text : List Char) : Modified (skipModifiers text) text := by
  fun_induction skipModifiers text with
  | case1 text _ => exact .plain
  | case2 text rest found _ ih =>
      obtain ⟨word, wordMem, gap, nonempty, blank, rfl, _⟩ := afterModifier?_eq_some_iff.mp found
      exact .behind wordMem nonempty blank ih

theorem skipModifiers_of_some {text rest : List Char} (found : afterModifier? text = some rest) :
    skipModifiers text = skipModifiers rest := by
  rw [skipModifiers]
  split
  · rename_i missing
    rw [found] at missing
    cases missing
  · rename_i other same
    rw [found] at same
    rw [Option.some.inj same]

theorem skipModifiers_of_none {text : List Char} (missing : afterModifier? text = none) :
    skipModifiers text = text := by
  rw [skipModifiers]
  split
  · rfl
  · rename_i found
    rw [missing] at found
    cases found

theorem Modified.startsVisible {text whole : List Char} (modified : Modified text whole)
    (visible : StartsVisible text) : StartsVisible whole := by
  cases modified with
  | plain => exact visible
  | behind wordMem _ _ _ => exact startsVisible_word (List.mem_append_right _ wordMem) _

theorem Modified.skipModifiers_eq {text whole : List Char} (modified : Modified text whole)
    (visible : StartsVisible text) (unmodified : afterModifier? text = none) :
    skipModifiers whole = text := by
  induction modified with
  | plain => exact skipModifiers_of_none unmodified
  | @behind word gap rest wordMem nonempty blank inner ih =>
      have found : afterModifier? (word.toList ++ (gap ++ rest)) = some rest :=
        afterModifier?_eq_some_iff.mpr
          ⟨word, wordMem, gap, nonempty, blank, rfl, inner.startsVisible visible⟩
      rw [skipModifiers_of_some found, ih]

theorem afterModifier?_classWord {word : String} (wordMem : word ∈ Declaration.classWords)
    {gap : List Char} (nonempty : gap ≠ []) (blank : IsGap gap) (rest : List Char) :
    afterModifier? (word.toList ++ (gap ++ rest)) = none := by
  have shown := isBlank_eq_false_of_mem_words word (List.mem_append_left _ wordMem)
  have noModifier : ∀ word ∈ Declaration.classWords,
      Declaration.isModifier word.toList = false := by
    decide
  obtain ⟨taken, _⟩ := takeWhile_visible_append shown nonempty blank rest
  rw [afterModifier?, taken, noModifier word wordMem, if_neg Bool.false_ne_true]

theorem afterClassWord?_eq_some_iff {word : String} {text behind : List Char} :
    (Declaration.afterWord? word text >>= afterBlanks?) = some behind ↔
      ∃ gap, gap ≠ [] ∧ IsGap gap ∧ text = word.toList ++ (gap ++ behind) ∧
        StartsVisible behind := by
  rw [Option.bind_eq_bind, Option.bind_eq_some_iff]
  constructor
  · rintro ⟨rest, starts, found⟩
    obtain ⟨gap, nonempty, blank, rfl, visible⟩ := afterBlanks?_eq_some_iff.mp found
    exact ⟨gap, nonempty, blank, Declaration.afterWord?_eq_some_iff.mp starts, visible⟩
  · rintro ⟨gap, nonempty, blank, rfl, visible⟩
    exact ⟨gap ++ behind, Declaration.afterWord?_eq_some_iff.mpr rfl,
      afterBlanks?_eq_some_iff.mpr ⟨gap, nonempty, blank, rfl, visible⟩⟩

theorem findSome?_classWords_iff {text behind : List Char} :
    (Declaration.classWords.findSome? fun word =>
        Declaration.afterWord? word text >>= afterBlanks?) = some behind ↔
      ∃ word ∈ Declaration.classWords, ∃ gap, gap ≠ [] ∧ IsGap gap ∧
        text = word.toList ++ (gap ++ behind) ∧ StartsVisible behind := by
  constructor
  · intro found
    obtain ⟨word, wordMem, here⟩ := List.exists_of_findSome?_eq_some found
    exact ⟨word, wordMem, afterClassWord?_eq_some_iff.mp here⟩
  · rintro ⟨word, wordMem, here⟩
    cases found : Declaration.classWords.findSome? fun word =>
        Declaration.afterWord? word text >>= afterBlanks? with
    | none =>
        have missing := List.findSome?_eq_none_iff.mp found word wordMem
        rw [afterClassWord?_eq_some_iff.mpr here] at missing
        cases missing
    | some other =>
        -- What stands before the first blank is the word, so only one can be found.
        obtain ⟨otherWord, otherMem, otherHere⟩ := List.exists_of_findSome?_eq_some found
        obtain ⟨gap, nonempty, blank, rfl, visible⟩ := here
        obtain ⟨otherGap, otherNonempty, otherBlank, same, otherVisible⟩ :=
          afterClassWord?_eq_some_iff.mp otherHere
        have dropped := (takeWhile_visible_append
          (isBlank_eq_false_of_mem_words word (List.mem_append_left _ wordMem))
          nonempty blank behind).2
        rw [same, (takeWhile_visible_append
          (isBlank_eq_false_of_mem_words otherWord (List.mem_append_left _ otherMem))
          otherNonempty otherBlank other).2] at dropped
        have here := afterBlanks?_eq_some_iff.mpr ⟨gap, nonempty, blank, rfl, visible⟩
        rw [← dropped, afterBlanks?_eq_some_iff.mpr
          ⟨otherGap, otherNonempty, otherBlank, rfl, otherVisible⟩] at here
        exact here

theorem startsVisible_of_isIdentifierStart {named : List Char}
    (starts : named.head?.any Text.isIdentifierStart = true) : StartsVisible named := by
  intro c first
  rw [first] at starts
  exact Text.isBlank_eq_false_of_isIdentifierPart
    (Text.isIdentifierPart_of_isIdentifierStart starts)

/-- A header is found where one starts. -/
theorem headerName?_eq_some_iff {text named : List Char} :
    headerName? text = some named ↔ StartsHeader text named := by
  rw [headerName?, Option.bind_eq_bind, Option.bind_eq_some_iff]
  constructor
  · rintro ⟨behind, found, starts⟩
    split at starts
    · rename_i identifier
      cases starts
      obtain ⟨word, wordMem, gap, nonempty, blank, skipped, _⟩ := findSome?_classWords_iff.mp found
      have modified := modified_skipModifiers text
      rw [skipped] at modified
      exact ⟨word, wordMem, gap, nonempty, blank, modified, identifier⟩
    · cases starts
  · rintro ⟨word, wordMem, gap, nonempty, blank, modified, identifier⟩
    have skipped := modified.skipModifiers_eq
      (startsVisible_word (List.mem_append_left _ wordMem) _)
      (afterModifier?_classWord wordMem nonempty blank named)
    refine ⟨named, findSome?_classWords_iff.mpr ⟨word, wordMem, gap, nonempty, blank, skipped,
      startsVisible_of_isIdentifierStart identifier⟩, ?_⟩
    rw [if_pos identifier]

/-- A header may start behind the front: behind a boundary, or where there is no front if
the line starts there. -/
def MayStart (atStart : Bool) (front : List Char) : Prop :=
  (front.getLast?.map isHeaderBoundary).getD atStart = true

theorem mayStart_cons {atStart : Bool} {c : Char} {front : List Char} :
    MayStart atStart (c :: front) ↔ MayStart (isHeaderBoundary c) front := by
  rw [MayStart, MayStart, List.getLast?_cons]
  cases front.getLast? with
  | none => exact Iff.rfl
  | some d => exact Iff.rfl

/-- A header starts behind the front, and none starts in the code before it. -/
structure FirstHeader (atStart : Bool) (code front text named : List Char) : Prop where
  code_eq : code = front ++ text
  mayStart : MayStart atStart front
  starts : StartsHeader text named
  first : ∀ earlier later other, code = earlier ++ later → MayStart atStart earlier →
    StartsHeader later other → front.length ≤ earlier.length

theorem laterHeaderName?_cons (c : Char) (code : List Char) :
    laterHeaderName? (c :: code) =
      ((if isHeaderBoundary c then headerName? code else none) <|> laterHeaderName? code) := by
  rw [laterHeaderName?]
  split
  · rfl
  · simp

theorem firstHeader_nil_iff {atStart : Bool} {code named : List Char} :
    FirstHeader atStart code [] code named ↔ atStart = true ∧ StartsHeader code named := by
  constructor
  · intro header
    exact ⟨header.mayStart, header.starts⟩
  · rintro ⟨atStart, starts⟩
    exact ⟨rfl, atStart, starts, fun _ _ _ _ _ _ => Nat.zero_le _⟩

theorem firstHeader_cons_iff {atStart : Bool} {c : Char} {code front text named : List Char} :
    FirstHeader atStart (c :: code) (c :: front) text named ↔
      (atStart = true → ∀ other, ¬ StartsHeader (c :: code) other) ∧
        FirstHeader (isHeaderBoundary c) code front text named := by
  constructor
  · rintro ⟨codeEq, mayStart, starts, first⟩
    refine ⟨fun atStart other here => ?_, ⟨List.cons.inj codeEq |>.2, mayStart_cons.mp mayStart,
      starts, ?_⟩⟩
    · exact absurd (first [] (c :: code) other rfl atStart here) (by simp)
    · intro earlier later other whole earlierStart here
      have bound := first (c :: earlier) later other (by rw [whole]; rfl)
        (mayStart_cons.mpr earlierStart) here
      simpa using bound
  · rintro ⟨notHere, codeEq, mayStart, starts, first⟩
    refine ⟨by rw [codeEq]; rfl, mayStart_cons.mpr mayStart, starts, ?_⟩
    intro earlier later other whole earlierStart here
    cases earlier with
    | nil =>
        rw [List.nil_append] at whole
        subst whole
        exact absurd here (notHere earlierStart other)
    | cons d earlier =>
        rw [List.cons_append] at whole
        obtain ⟨rfl, behind⟩ := List.cons.inj whole
        exact Nat.succ_le_succ
          (first earlier later other behind (mayStart_cons.mp earlierStart) here)

theorem headerName?_at_eq_some_iff {atStart : Bool} {code named : List Char} :
    (if atStart then headerName? code else none) = some named ↔
      FirstHeader atStart code [] code named := by
  rw [firstHeader_nil_iff, ← headerName?_eq_some_iff]
  cases atStart <;> simp

/-- The search finds the first header. -/
theorem orElse_laterHeaderName?_eq_some_iff {atStart : Bool} {code named : List Char} :
    ((if atStart then headerName? code else none) <|> laterHeaderName? code) = some named ↔
      ∃ front text, FirstHeader atStart code front text named := by
  induction code generalizing atStart with
  | nil =>
      rw [laterHeaderName?, Option.orElse_eq_orElse, Option.orElse_eq_or, Option.or_none,
        headerName?_at_eq_some_iff]
      constructor
      · intro header
        exact ⟨[], [], header⟩
      · rintro ⟨front, text, header⟩
        obtain ⟨rfl, rfl⟩ := List.nil_eq_append_iff.mp header.code_eq
        exact header
  | cons c code ih =>
      -- Behind `c` the search goes on as from a start, if `c` is a boundary.
      rw [Option.orElse_eq_orElse, Option.orElse_eq_or, Option.or_eq_some_iff,
        laterHeaderName?_cons, ih, headerName?_at_eq_some_iff]
      constructor
      · rintro (header | ⟨missing, front, text, header⟩)
        · exact ⟨[], c :: code, header⟩
        · refine ⟨c :: front, text,
            firstHeader_cons_iff.mpr ⟨fun atStart other starts => ?_, header⟩⟩
          have found := headerName?_at_eq_some_iff.mpr (firstHeader_nil_iff.mpr ⟨atStart, starts⟩)
          rw [missing] at found
          cases found
      · rintro ⟨front, text, header⟩
        cases front with
        | nil =>
            obtain rfl : c :: code = text := header.code_eq
            exact .inl header
        | cons d front =>
            obtain ⟨rfl, _⟩ := List.cons.inj (header.code_eq.trans (List.cons_append))
            obtain ⟨notHere, later⟩ := firstHeader_cons_iff.mp header
            refine .inr ⟨Option.eq_none_iff_forall_ne_some.mpr ?_, front, text, later⟩
            intro other found
            obtain ⟨atStart, starts⟩ :=
              firstHeader_nil_iff.mp (headerName?_at_eq_some_iff.mp found)
            exact notHere atStart other starts

/-- A line opens the class that its first header names. -/
theorem findHeader?_eq_some_iff {code before name behind : List Char} :
    findHeader? code = some (before, name, behind) ↔
      ∃ front text named, FirstHeader true code front text named ∧
        before = code.take (code.length - named.length) ∧
        name = named.takeWhile Text.isIdentifierPart ∧
        behind = named.dropWhile Text.isIdentifierPart := by
  have searched := @orElse_laterHeaderName?_eq_some_iff true code
  rw [if_pos rfl] at searched
  rw [findHeader?, Option.map_eq_some_iff]
  constructor
  · rintro ⟨named, found, parts⟩
    cases parts
    obtain ⟨front, text, header⟩ := searched.mp found
    exact ⟨front, text, named, header, rfl, rfl, rfl⟩
  · rintro ⟨front, text, named, header, rfl, rfl, rfl⟩
    exact ⟨named, searched.mpr ⟨front, text, header⟩, rfl⟩

theorem current_beginLine_of_findHeader? {stack : ClassStack} {code before name behind : List Char}
    (found : findHeader? code = some (before, name, behind)) :
    (stack.beginLine code).current = some (String.ofList name) := by
  rw [beginLine, found]
  rfl

end ClassStack

namespace Source

open ClassStack (FirstHeader findHeader?_eq_some_iff)

theorem classesFrom_take (stack : ClassStack) (lines : List CodeLine) (count : Nat) :
    classesFrom stack (lines.take count) = (classesFrom stack lines).take count := by
  induction lines generalizing stack count with
  | nil => simp [classesFrom]
  | cons line lines ih =>
      cases count with
      | zero => rfl
      | succ count =>
          rw [List.take_succ_cons, classesFrom, classesFrom, List.take_succ_cons, ih]

/-- The class of a line with a header is the one that the header names. -/
theorem classesFrom_of_findHeader? (stack : ClassStack) {lines : List CodeLine} {index : Nat}
    {line : CodeLine} (lineEq : lines[index]? = some line) {before name behind : List Char}
    (found : ClassStack.findHeader? line.code = some (before, name, behind)) :
    (classesFrom stack lines)[index]? = some (some (String.ofList name)) := by
  induction lines generalizing stack index with
  | nil => cases lineEq
  | cons top lines ih =>
      rw [classesFrom]
      cases index with
      | zero =>
          cases lineEq
          rw [List.getElem?_cons_zero, ClassStack.current_beginLine_of_findHeader? found]
      | succ index => exact ih _ lineEq

/-- The class of a line is named by the first header of a line at or above it. -/
theorem exists_firstHeader_of_classAt {source : Source} {line : Int} {className : String}
    (classEq : source.classAt line = some className) :
    ∃ index : Nat, (index : Int) ≤ line ∧ ∃ codeLine, source.lines[index]? = some codeLine ∧
      ∃ front text named, FirstHeader true codeLine.code front text named ∧
        className = String.ofList (named.takeWhile Text.isIdentifierPart) := by
  rw [classAt] at classEq
  split at classEq
  · cases classEq
  · rename_i inside
    have member : some className ∈ classesFrom {} (source.lines.take (line.toNat + 1)) := by
      rw [classesFrom_take]
      refine List.mem_of_getElem? (i := line.toNat) ?_
      rw [List.getElem?_take_of_lt (Nat.lt_add_one _)]
      exact Option.join_eq_some_iff.mp classEq
    have headers : ∀ codeLine ∈ source.lines.take (line.toNat + 1), ∀ before name behind,
        ClassStack.findHeader? codeLine.code = some (before, name, behind) →
        ∃ index : Nat, (index : Int) ≤ line ∧ ∃ codeLine, source.lines[index]? = some codeLine ∧
          ∃ front text named, FirstHeader true codeLine.code front text named ∧
            String.ofList name = String.ofList (named.takeWhile Text.isIdentifierPart) := by
      intro codeLine lineMem before name behind found
      obtain ⟨index, bound, rfl⟩ := List.mem_take_iff_getElem.mp lineMem
      obtain ⟨front, text, named, header, _, rfl, _⟩ := findHeader?_eq_some_iff.mp found
      exact ⟨index, by omega, _, List.getElem?_eq_getElem _, front, text, named, header, rfl⟩
    exact forall_name_classesFrom (p := fun className => ∃ index : Nat, (index : Int) ≤ line ∧
      ∃ codeLine, source.lines[index]? = some codeLine ∧
        ∃ front text named, FirstHeader true codeLine.code front text named ∧
          className = String.ofList (named.takeWhile Text.isIdentifierPart))
      (fun _ entryMem => absurd entryMem List.not_mem_nil) headers member

/-- The first header of a line names the class of the line. -/
theorem classAt_of_firstHeader {source : Source} {index : Nat} {codeLine : CodeLine}
    (lineEq : source.lines[index]? = some codeLine) {front text named : List Char}
    (header : FirstHeader true codeLine.code front text named) :
    source.classAt index = some (String.ofList (named.takeWhile Text.isIdentifierPart)) := by
  rw [classAt_natCast, classes, classesFrom_of_findHeader? {} lineEq
    (findHeader?_eq_some_iff.mpr ⟨front, text, named, header, rfl, rfl, rfl⟩)]
  rfl

/-- The first header of a line names the class of the line; every class of a line is named by the
first header of a line at or above it; so no line lies in a class with a reserved name exactly
when no line's first header has a reserved name behind it. -/
theorem classAt_not_isReserved_iff (rules : Scan.Rules) (text : List Char) :
    (∀ (index : Nat) codeLine front rest named,
      (ofText rules text).lines[index]? = some codeLine →
      FirstHeader true codeLine.code front rest named →
      (ofText rules text).classAt index =
        some (String.ofList (named.takeWhile Text.isIdentifierPart))) ∧
    (∀ line className, (ofText rules text).classAt line = some className →
      ∃ index : Nat, (index : Int) ≤ line ∧
        ∃ codeLine, (ofText rules text).lines[index]? = some codeLine ∧
          ∃ front rest named, FirstHeader true codeLine.code front rest named ∧
            className = String.ofList (named.takeWhile Text.isIdentifierPart)) ∧
    ((∀ line className, (ofText rules text).classAt line = some className →
        Declaration.isReserved className.toList = false) ↔
      ∀ codeLine ∈ (ofText rules text).lines, ∀ front rest named,
        FirstHeader true codeLine.code front rest named →
          Declaration.isReserved (named.takeWhile Text.isIdentifierPart) = false) := by
  refine ⟨fun _ _ _ _ _ lineEq header => classAt_of_firstHeader lineEq header,
    fun _ _ classEq => exists_firstHeader_of_classAt classEq, ?_⟩
  constructor
  · intro unreserved codeLine lineMem front rest named header
    obtain ⟨index, lineEq⟩ := List.mem_iff_getElem?.mp lineMem
    simpa using unreserved index _ (classAt_of_firstHeader lineEq header)
  · intro unreserved line className classEq
    obtain ⟨index, _, codeLine, lineEq, front, rest, named, header, rfl⟩ :=
      exists_firstHeader_of_classAt classEq
    simpa using unreserved codeLine (List.mem_of_getElem? lineEq) front rest named header

/-- A method that tests the type of its parameter `record`. -/
def recordText : List Char :=
  ("class A \x7b\n void f(Object record) \x7b\n" ++
    "  boolean b = record instanceof A;\n \x7d\n\x7d").toList

theorem classAt_recordText :
    (ofText {} recordText).classAt 1 = some "A" ∧
      (ofText {} recordText).classAt 2 = some "instanceof" := by
  decide +kernel

/-- The class of the line with the test is named by a header at or above it. -/
theorem recordText_class_has_header :
    (ofText {} recordText).classAt 2 = some "instanceof" ∧
      ∃ index : Nat, (index : Int) ≤ 2 ∧
        ∃ codeLine, (ofText {} recordText).lines[index]? = some codeLine ∧
          ∃ front rest named, FirstHeader true codeLine.code front rest named ∧
            "instanceof" = String.ofList (named.takeWhile Text.isIdentifierPart) := by
  have opened := classAt_recordText.2
  exact ⟨opened, (classAt_not_isReserved_iff {} recordText).2.1 2 "instanceof" opened⟩

/-- The test opens a class that has a reserved name. -/
theorem not_classAt_not_isReserved :
    (ofText {} recordText).classAt 1 = some "A" ∧
      (ofText {} recordText).classAt 2 = some "instanceof" ∧
      ¬ ∀ rules text line className, (ofText rules text).classAt line = some className →
        Declaration.isReserved className.toList = false := by
  obtain ⟨outside, opened⟩ := classAt_recordText
  refine ⟨outside, opened, fun unreserved => ?_⟩
  exact absurd (unreserved {} recordText 2 "instanceof" opened) (by decide)

end Source
end CallTree
