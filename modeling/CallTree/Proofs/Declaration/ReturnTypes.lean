import CallTree.Proofs.Declaration.Readings

/-!
# Reserved words in return types

A return type that is a reserved word as a whole is refused, but its parts are
not looked at: a reserved word may start a type that goes on behind it.  That is
so for a constructor with modifiers and type parameters.  Its last modifier and
the parameters read like a type with arguments, so the constructor is taken for a
method that returns it.
-/

namespace CallTree
namespace Declaration

/-- The word characters that a text starts with. -/
def leadingWord (text : List Char) : List Char :=
  text.takeWhile Text.isWord

/-- A type that is no word goes on, behind the word that it starts with, as a
qualified name, with arguments or with marks. -/
theorem IsType.exists_continuation {type name arguments marks : List Char}
    (isType : IsType type name arguments marks) (longer : type ≠ leadingWord type) :
    ∃ c ∈ ['.', '$', '<', '[', ' '], ∃ behind, type = leadingWord type ++ c :: behind := by
  have whole := List.takeWhile_append_dropWhile (p := Text.isWord) (l := type)
  have outside := List.head?_dropWhile_not Text.isWord type
  cases dropped : type.dropWhile Text.isWord with
  | nil =>
      rw [dropped, List.append_nil] at whole
      exact absurd whole.symm longer
  | cons c behind =>
      rw [dropped] at whole outside
      refine ⟨c, ?_, behind, whole.symm⟩
      rw [isType.eq, List.dropWhile_append] at dropped
      split at dropped
      · -- The name is a word, so the arguments or the marks come next.
        cases tail : arguments ++ marks with
        | nil =>
            rw [tail] at dropped
            cases dropped
        | cons d further =>
            have marked := isType.head?_tail (by rw [tail]; rfl)
            have apart : ¬ Text.isWord d = true := by
              rcases marked with rfl | rfl | rfl <;> decide
            rw [tail, List.dropWhile_cons_of_neg apart] at dropped
            obtain ⟨rfl, _⟩ := List.cons.inj dropped
            rcases marked with rfl | rfl | rfl <;> simp
      · rename_i stopsInName
        have member : c ∈ name := by
          cases rest : name.dropWhile Text.isWord with
          | nil => simp [rest] at stopsInName
          | cons d further =>
              rw [rest] at dropped
              obtain ⟨rfl, _⟩ := List.cons.inj dropped
              exact (List.dropWhile_suffix Text.isWord).subset (rest ▸ List.mem_cons_self)
        have part := isType.parts c member
        simp only [isTypeNamePart, Bool.or_eq_true, beq_iff_eq] at part
        rcases part with (word | rfl) | rfl
        · simp [word] at outside
        · simp
        · simp

section Reserved

variable {word : List Char}

theorem isReserved_eq_false
    (apart : ∀ reserved ∈ statementWords ++ modifiers, reserved.toList ≠ word) :
    isReserved word = false := by
  simpa [isReserved, or_imp, forall_and] using apart

theorem isReserved_of_space (space : ' ' ∈ word) : isReserved word = false := by
  have solid : ∀ reserved ∈ statementWords ++ modifiers, ' ' ∉ reserved.toList := by decide +kernel
  refine isReserved_eq_false fun reserved member same => ?_
  exact solid reserved member (same ▸ space)

theorem head?_reserved : ∀ reserved ∈ statementWords ++ modifiers,
    reserved.toList.head?.any isConstructorStart = false := by
  decide +kernel

theorem isReserved_of_isConstructorStart {c : Char} (starts : isConstructorStart c = true) :
    isReserved (c :: word) = false := by
  refine isReserved_eq_false fun reserved member same => ?_
  have lower := head?_reserved reserved member
  simp [same, starts] at lower

end Reserved

/-- Words with the space behind each. -/
def spaced (words : List String) : List Char :=
  words.flatMap fun word => word.toList ++ [' ']

/-- A constructor with modifiers and type parameters.  Where a bracket closes
inside the type parameters, no name goes on behind it. -/
structure GenericConstructor where
  words : List String
  typeParameters : List Char
  name : List Char
  /-- The text behind the parenthesis that opens the parameters. -/
  inside : List Char
  known : ∀ word ∈ words, word ∈ modifiers
  last : words.getLast? ≠ some "non-sealed"
  plain : '(' ∉ typeParameters ∧ ')' ∉ typeParameters
  separated : ∀ front back, typeParameters = front ++ '>' :: back →
    ∀ c, (skipSpace (back ++ ['>'])).head? = some c → isTypeNamePart c = false
  identifier : IsIdentifier isConstructorStart name

namespace GenericConstructor

/-- The constructor from its type parameters on. -/
def unmodified (declared : GenericConstructor) : List Char :=
  '<' :: (declared.typeParameters ++ '>' :: ' ' :: (declared.name ++ '(' :: declared.inside))

def text (declared : GenericConstructor) : List Char :=
  spaced declared.words ++ declared.unmodified

end GenericConstructor

section Items

variable {word : String} {text : List Char}

theorem afterItem_modifier (modifier : word ∈ modifiers) (rest : List Char) :
    afterItem (word.toList ++ ' ' :: rest) = [rest] := by
  simp only [modifiers, List.mem_cons, List.not_mem_nil, or_false] at modifier
  rcases modifier with rfl | rfl | rfl | rfl | rfl | rfl | rfl | rfl | rfl | rfl | rfl | rfl |
    rfl | rfl <;> rfl

theorem afterItems_modifier (modifier : word ∈ modifiers) (rest : List Char) :
    afterItems (word.toList ++ ' ' :: rest) = afterItems rest ++ [word.toList ++ ' ' :: rest] := by
  rw [afterItems_eq, afterItem_modifier modifier, List.flatMap_singleton]

/-- Modifiers in front come after everything that is read behind them. -/
theorem exists_afterItems_spaced {words : List String} (modifier : ∀ word ∈ words, word ∈ modifiers)
    (text : List Char) : ∃ more, afterItems (spaced words ++ text) = afterItems text ++ more := by
  induction words with
  | nil => exact ⟨[], (List.append_nil _).symm⟩
  | cons word words ih =>
      obtain ⟨wordModifier, wordsModifier⟩ := List.forall_mem_cons.mp modifier
      obtain ⟨more, further⟩ := ih wordsModifier
      have split : spaced (word :: words) ++ text =
          word.toList ++ ' ' :: (spaced words ++ text) := by
        simp [spaced]
      rw [split, afterItems_modifier wordModifier, further, List.append_assoc]
      exact ⟨_, rfl⟩

end Items

/-- A list with one bracket behind it closes there or at a bracket inside. -/
theorem cases_of_mem_closings {inside behind content after : List Char}
    (nothing : closings behind = [])
    (member : (content, after) ∈ closings (inside ++ '>' :: behind)) :
    after = behind ∨
      ∃ front back, inside = front ++ '>' :: back ∧ after = back ++ '>' :: behind := by
  obtain ⟨front, rfl, split⟩ := eq_of_mem_closings member
  have plain := not_mem_of_mem_closings member
  rw [List.append_assoc, List.singleton_append] at split
  rcases List.append_eq_append_iff.mp split with ⟨part, rfl, partEq⟩ | ⟨part, rfl, partEq⟩
  · cases part with
    | nil => exact .inl (List.cons.inj partEq).2.symm
    | cons c part =>
        -- A bracket behind the last one would be another way to close.
        obtain ⟨rfl, rest⟩ := List.cons.inj partEq
        have behindEq : behind = part ++ '>' :: after := rest
        have partPlain : '(' ∉ part ∧ ')' ∉ part := by
          simp only [List.mem_append, List.mem_cons, not_or] at plain
          exact ⟨plain.1.1.2.2, plain.2.1.2.2⟩
        have further := mem_closings partPlain after
        rw [← behindEq, nothing] at further
        cases further
  · cases part with
    | nil => exact .inl (List.cons.inj partEq).2
    | cons c back =>
        obtain ⟨rfl, rfl⟩ := List.cons.inj partEq
        exact .inr ⟨front, back, rfl, rfl⟩

theorem head?_skipSpace_bracket (text more : List Char) :
    (skipSpace (text ++ '>' :: more)).head? = (skipSpace (text ++ ['>'])).head? := by
  cases text with
  | nil => rfl
  | cons c text =>
      by_cases space : c = ' '
      · subst space
        simp [skipSpace, List.head?_append]
      · rw [List.cons_append, List.cons_append, skipSpace, skipSpace] <;> simp [space]

theorem head?_filterMap {α β : Type} {f : α → Option β} {l : List α} {a : α} {b : β}
    (only : ∀ x ∈ l, f x = none ∨ f x = some b) (member : a ∈ l) (found : f a = some b) :
    (l.filterMap f).head? = some b := by
  cases head : (l.filterMap f).head? with
  | none =>
      have empty := List.head?_eq_none_iff.mp head
      exact absurd (List.mem_filterMap.mpr ⟨a, member, found⟩) (by simp [empty])
  | some other =>
      obtain ⟨x, xMem, xFound⟩ := List.mem_filterMap.mp (List.mem_of_head? head)
      rcases only x xMem with nothing | same
      · rw [nothing] at xFound
        cases xFound
      · rw [← xFound, same]

namespace GenericConstructor

variable (declared : GenericConstructor)

theorem isName : IsName declared.name :=
  declared.identifier.isName fun _ => isIdentifierPart_of_isConstructorStart

theorem closings_name : closings (' ' :: (declared.name ++ '(' :: declared.inside)) = [] := by
  have plain : '>' ∉ ' ' :: declared.name := by
    have inName := declared.isName.ne (c := '>') (by decide)
    simpa using inName
  exact closings_eq_nil plain declared.inside

/-- Where the head proper may start: at the name, or where no name does. -/
theorem cases_of_mem_starts {start : List Char}
    (member : start ∈ afterTypeParameters declared.unmodified) :
    start = declared.name ++ '(' :: declared.inside ∨
      ∀ c, start.head? = some c → isTypeNamePart c = false := by
  rw [unmodified, afterTypeParameters] at member
  rcases List.mem_append.mp member with closed | whole
  · obtain ⟨⟨content, after⟩, closing, rfl⟩ := List.mem_map.mp closed
    rcases cases_of_mem_closings declared.closings_name closing with rfl | ⟨front, back, split, rfl⟩
    · exact .inl rfl
    · refine .inr fun c head => declared.separated front back split c ?_
      rwa [head?_skipSpace_bracket] at head
  · refine .inr fun c head => ?_
    rw [List.mem_singleton.mp whole] at head
    cases head
    decide

theorem mem_starts :
    declared.name ++ '(' :: declared.inside ∈ afterTypeParameters declared.unmodified := by
  have closes := mem_closings declared.plain (' ' :: (declared.name ++ '(' :: declared.inside))
  rw [unmodified, afterTypeParameters]
  exact List.mem_append_left _ (List.mem_map.mpr ⟨_, closes, rfl⟩)

theorem readings_starts : (afterTypeParameters declared.unmodified).flatMap readings = [] := by
  refine List.flatMap_eq_nil_iff.mpr fun start member => ?_
  rcases declared.cases_of_mem_starts member with rfl | apart
  · exact readings_name declared.isName declared.inside
  · exact readings_eq_nil apart

theorem afterItems_unmodified : afterItems declared.unmodified = [declared.unmodified] := by
  rw [afterItems_eq]
  rfl

/-- Without modifiers only the constructor's own head is read. -/
theorem constructorHeads_unmodified :
    (constructorHeads declared.unmodified).head? =
      some { returnType := none, name := declared.name, inside := declared.inside } := by
  have called := declared.identifier.calledName?_append declared.inside
  rw [constructorHeads, headStarts, declared.afterItems_unmodified, List.flatMap_singleton]
  refine head?_filterMap ?_ declared.mem_starts (by simp [called])
  intro start member
  rcases declared.cases_of_mem_starts member with rfl | apart
  · exact .inr (by simp [called])
  · have uncalled : calledName? isConstructorStart start = none := by
      cases start with
      | nil => rfl
      | cons c start =>
          have noStart : ¬ isConstructorStart c = true := by
            intro startsName
            have part := isTypeNamePart_of_isIdentifierPart
              (isIdentifierPart_of_isConstructorStart startsName)
            rw [apart c rfl] at part
            cases part
          rw [calledName?, if_neg noStart]
    exact .inl (by simp [uncalled])

/-- The last modifier and the type parameters. -/
def misread (declared : GenericConstructor) (word : String) : List Char :=
  word.toList ++ ' ' :: '<' :: (declared.typeParameters ++ ['>'])

theorem isType_misread {word : String} (modifier : word ∈ modifiers)
    (plain : word ≠ "non-sealed") :
    IsType (declared.misread word) word.toList
      (' ' :: '<' :: (declared.typeParameters ++ ['>'])) [] := by
  have letters : ∀ word ∈ modifiers, word ≠ "non-sealed" →
      word.toList ≠ [] ∧ word.toList.all isTypeNamePart = true := by decide +kernel
  obtain ⟨nonempty, parts⟩ := letters word modifier plain
  have isArguments : IsArguments (' ' :: '<' :: (declared.typeParameters ++ ['>'])) [' ']
      declared.typeParameters := ⟨rfl, .inr rfl, declared.plain⟩
  refine ⟨?_, nonempty, List.all_eq_true.mp parts, .inr ⟨_, _, isArguments⟩, .nil⟩
  rw [List.append_nil]
  rfl

theorem identifier_start : IsIdentifier Text.isIdentifierStart declared.name := by
  obtain ⟨first, later, nameEq, startsName, parts⟩ := declared.identifier
  exact ⟨first, later, nameEq, isIdentifierStart_of_isConstructorStart startsName, parts⟩

/-- Behind a modifier, the type parameters become its arguments. -/
theorem head?_methodHeads {word : String} (last : declared.words.getLast? = some word) :
    (methodHeads declared.text).head? = some {
      returnType := some (declared.misread word)
      name := declared.name
      inside := declared.inside } := by
  obtain ⟨earlier, wordsEq⟩ := List.getLast?_eq_some_iff.mp last
  have known : ∀ other ∈ earlier ++ [word], other ∈ modifiers := wordsEq ▸ declared.known
  obtain ⟨earlierKnown, wordKnown⟩ := List.forall_mem_append.mp known
  have modifier := wordKnown word List.mem_cons_self
  have plain : word ≠ "non-sealed" := fun same => declared.last (same ▸ last)
  have textEq : declared.text =
      spaced earlier ++ (word.toList ++ ' ' :: declared.unmodified) := by
    rw [text, wordsEq]
    simp [spaced]
  have typed : word.toList ++ ' ' :: declared.unmodified =
      declared.misread word ++ ' ' :: (declared.name ++ '(' :: declared.inside) := by
    simp [misread, unmodified]
  obtain ⟨more, items⟩ := exists_afterItems_spaced earlierKnown
    (word.toList ++ ' ' :: declared.unmodified)
  have isType := declared.isType_misread modifier plain
  have first := isType.head?_readings declared.identifier_start declared.inside
  have start := isType.afterTypeParameters_append
    (' ' :: (declared.name ++ '(' :: declared.inside))
  rw [methodHeads_eq, textEq, items, afterItems_modifier modifier, declared.afterItems_unmodified,
    typed]
  simp [declared.readings_starts, start, first]

theorem isReserved_name : isReserved declared.name = false := by
  obtain ⟨first, later, nameEq, starts, _⟩ := declared.identifier
  rw [nameEq]
  exact isReserved_of_isConstructorStart starts

theorem methodHead?_of_getLast? {word : String} (last : declared.words.getLast? = some word) :
    methodHead? declared.text = some {
      returnType := some (declared.misread word)
      name := declared.name
      inside := declared.inside } := by
  refine methodHead?_eq_some_iff.mpr ⟨declared.head?_methodHeads last, ?_, declared.isReserved_name⟩
  exact isReserved_of_space (by simp [misread])

theorem constructorHead?_of_unmodified (unmodified : declared.words = []) :
    (methodHead? declared.text <|>
      constructorHead? declared.text (some (String.ofList declared.name))) = some {
        returnType := none
        name := declared.name
        inside := declared.inside } := by
  have textEq : declared.text = declared.unmodified := by
    rw [text, unmodified]
    rfl
  have heads : methodHeads declared.unmodified = [] := by
    rw [methodHeads_eq, declared.afterItems_unmodified, List.flatMap_singleton,
      declared.readings_starts]
  have named : String.ofList declared.name ≠ "" := by
    have nonempty := declared.isName.nonempty
    simpa using nonempty
  have unread : methodHead? declared.unmodified = none := by
    rw [methodHead?, heads]
    rfl
  rw [textEq, unread]
  simp [constructorHead?, declared.constructorHeads_unmodified, named]

/-- What the constructor is read as. -/
def reading (declared : GenericConstructor) (inside : List Char) : Declaration where
  name := String.ofList declared.name
  returnType := declared.words.getLast?.map fun word => String.ofList (declared.misread word)
  parameters := (splitParameters inside).map String.ofList

theorem parse?_eq_reading {code inside after : List Char}
    (collapsed : Text.collapse code = declared.text)
    (closes : splitAtClosing 1 declared.inside = some (inside, after)) :
    parse? code (some (String.ofList declared.name)) = some (declared.reading inside) := by
  rw [reading]
  cases last : declared.words.getLast? with
  | some word =>
      have found := declared.methodHead?_of_getLast? last
      rw [← collapsed] at found
      exact parse?_eq_some_iff.mpr ⟨_, inside, after, by rw [found]; rfl, closes, rfl⟩
  | none =>
      have found := declared.constructorHead?_of_unmodified (List.getLast?_eq_none_iff.mp last)
      rw [← collapsed] at found
      exact parse?_eq_some_iff.mpr ⟨_, inside, after, found, closes, rfl⟩

theorem returnType_reading_eq_none_iff (inside : List Char) :
    (declared.reading inside).returnType = none ↔ declared.words = [] := by
  rw [reading, Option.map_eq_none_iff, List.getLast?_eq_none_iff]

end GenericConstructor

/-- A return type is no reserved word, and where it starts with one it goes on
behind it.  So a constructor with type parameters has no return type exactly when
it has no modifiers: else it has the last of them, with the type parameters for
arguments. -/
theorem returnType_of_parse? (code : List Char) (className : Option String) :
    (∀ declaration returnType, parse? code className = some declaration →
      declaration.returnType = some returnType →
        isReserved returnType.toList = false ∧
        (isReserved (leadingWord returnType.toList) = true →
          ∃ c ∈ ['.', '$', '<', '[', ' '], ∃ behind,
            returnType.toList = leadingWord returnType.toList ++ c :: behind)) ∧
    (∀ (declared : GenericConstructor) inside after, Text.collapse code = declared.text →
      className = some (String.ofList declared.name) →
        splitAtClosing 1 declared.inside = some (inside, after) →
          parse? code className = some (declared.reading inside) ∧
          ((declared.reading inside).returnType = none ↔ declared.words = [])) := by
  constructor
  · intro declaration returnType parsed typed
    obtain ⟨type, typeName, arguments, marks, rfl, isType, free⟩ :=
      exists_isType_of_parse? parsed typed
    rw [String.toList_ofList]
    refine ⟨free, fun reserved => isType.exists_continuation fun whole => ?_⟩
    rw [whole, reserved] at free
    cases free
  · rintro declared inside after collapsed rfl closes
    exact ⟨declared.parse?_eq_reading collapsed closes,
      declared.returnType_reading_eq_none_iff inside⟩

/-- The constructor `public <T> C(T x)`. -/
def publicConstructor : GenericConstructor where
  words := ["public"]
  typeParameters := ['T']
  name := ['C']
  inside := "T x)".toList
  known := by decide
  last := by decide
  plain := by decide
  separated front back split := by
    have bracket : '>' ∈ ['T'] := by
      rw [split]
      simp
    exact absurd bracket (by decide)
  identifier := ⟨'C', [], rfl, by decide, nofun⟩

theorem publicConstructor_parse? :
    parse? "public <T> C(T x)".toList (some "C") = some {
      name := "C"
      returnType := some "public <T>"
      parameters := ["T x"] } ∧
    isReserved "public <T>".toList = false ∧
    ∃ c ∈ ['.', '$', '<', '[', ' '], ∃ behind,
      "public <T>".toList = leadingWord "public <T>".toList ++ c :: behind := by
  obtain ⟨typed, constructed⟩ := returnType_of_parse? "public <T> C(T x)".toList (some "C")
  have collapsed : Text.collapse "public <T> C(T x)".toList = publicConstructor.text := by decide
  have closes : splitAtClosing 1 publicConstructor.inside = some ("T x".toList, []) := by decide
  obtain ⟨parsed, _⟩ := constructed publicConstructor _ _ collapsed rfl closes
  obtain ⟨free, goesOn⟩ := typed _ _ parsed rfl
  exact ⟨parsed, free, goesOn (by decide)⟩

/-- A return type may start with a reserved word, for a method and for a
constructor. -/
theorem reserved_words_lead_returnTypes :
    ¬ (∀ code className declaration returnType,
      parse? code className = some declaration → declaration.returnType = some returnType →
        isReserved (leadingWord returnType.toList) = false) ∧
    (parse? "public <T> C(T x)".toList (some "C")).map Declaration.returnType =
      some (some "public <T>") ∧
    (parse? "this.T f()".toList none).map Declaration.returnType = some (some "this.T") := by
  have constructor : parse? "public <T> C(T x)".toList (some "C") = some {
      name := "C"
      returnType := some "public <T>"
      parameters := ["T x"] } := by decide +kernel
  refine ⟨fun never => ?_, by rw [constructor]; rfl, by decide +kernel⟩
  exact absurd (never _ _ _ _ constructor rfl) (by decide)

end Declaration
end CallTree
