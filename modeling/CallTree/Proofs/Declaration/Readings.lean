import CallTree.Proofs.Declaration.Types

/-!
# Readings of a declaration

What the head of a declaration was read from, and which of its readings come
first.  A text that starts with a type, in front of a called name, is read as
that type and that name before anything else.
-/

namespace CallTree
namespace Declaration

section Methods

variable {text name inside rest : List Char} {head : Head}

/-- What a method's head was read from. -/
theorem exists_type_of_mem_methodHeads (member : head ∈ methodHeads text) :
    ∃ type typeName arguments marks rest, type ++ ' ' :: rest ∈ headStarts text ∧
      head.returnType = some type ∧ IsType type typeName arguments marks ∧
      calledName? Text.isIdentifierStart rest = some (head.name, head.inside) := by
  obtain ⟨start, startMem, typed⟩ := List.mem_flatMap.mp member
  obtain ⟨⟨type, after⟩, typeMem, found⟩ := List.mem_filterMap.mp typed
  obtain ⟨rest, spaced, further⟩ := Option.bind_eq_some_iff.mp found
  obtain ⟨⟨name, inside⟩, called, headEq⟩ := Option.bind_eq_some_iff.mp further
  obtain ⟨startEq, typeName, arguments, marks, isType⟩ := exists_isType_of_mem_types typeMem
  cases headEq
  rw [startEq, eq_of_afterSpace? spaced] at startMem
  exact ⟨type, typeName, arguments, marks, rest, startMem, rfl, isType, called⟩

theorem methodHead?_eq_some_iff :
    methodHead? text = some head ↔ (methodHeads text).head? = some head ∧
      head.returnType.any isReserved = false ∧ isReserved head.name = false := by
  rw [methodHead?]
  cases (methodHeads text).head? with
  | none => simp
  | some first =>
      dsimp only
      split
      · rename_i reserved
        simp only [Bool.or_eq_true] at reserved
        constructor
        · intro same
          cases same
        · rintro ⟨same, typeFree, nameFree⟩
          cases same
          simp [typeFree, nameFree] at reserved
      · rename_i free
        simp only [Bool.or_eq_true, not_or, Bool.not_eq_true] at free
        constructor
        · intro same
          cases same
          exact ⟨rfl, free⟩
        · exact fun same => same.1

theorem returnType_of_constructorHead? {className : Option String}
    (found : constructorHead? text className = some head) : head.returnType = none := by
  obtain ⟨start, _, called⟩ :=
    List.mem_filterMap.mp (mem_constructorHeads_of_constructorHead? found)
  obtain ⟨_, _, headEq⟩ := Option.bind_eq_some_iff.mp called
  cases headEq
  rfl

/-- A declaration is its head with the parameters up to the closing
parenthesis. -/
theorem parse?_eq_some_iff {code : List Char} {className : Option String}
    {declaration : Declaration} :
    parse? code className = some declaration ↔ ∃ head inside after,
      (methodHead? (Text.collapse code) <|>
        constructorHead? (Text.collapse code) className) = some head ∧
      splitAtClosing 1 head.inside = some (inside, after) ∧
      declaration = {
        name := String.ofList head.name
        returnType := head.returnType.map String.ofList
        parameters := (splitParameters inside).map String.ofList } := by
  rw [parse?]
  dsimp only
  split
  · rename_i missing
    simp [missing]
  · rename_i head found
    rw [Option.map_eq_some_iff]
    constructor
    · rintro ⟨⟨inside, after⟩, closes, rfl⟩
      exact ⟨head, inside, after, found, closes, rfl⟩
    · rintro ⟨other, inside, after, same, closes, rfl⟩
      cases found.symm.trans same
      exact ⟨(inside, after), closes, rfl⟩

/-- What the return type of a declaration was read from. -/
theorem exists_isType_of_parse? {code : List Char} {className : Option String}
    {declaration : Declaration} {returnType : String}
    (parsed : parse? code className = some declaration)
    (typed : declaration.returnType = some returnType) :
    ∃ type typeName arguments marks, returnType = String.ofList type ∧
      IsType type typeName arguments marks ∧ isReserved type = false := by
  obtain ⟨head, inside, after, found, closes, rfl⟩ := parse?_eq_some_iff.mp parsed
  obtain ⟨type, headType, rfl⟩ := Option.map_eq_some_iff.mp typed
  cases method : methodHead? (Text.collapse code) with
  | some methodHead =>
      rw [method] at found
      cases found
      obtain ⟨first, free, _⟩ := methodHead?_eq_some_iff.mp method
      obtain ⟨_, typeName, arguments, marks, _, _, typeEq, isType, _⟩ :=
        exists_type_of_mem_methodHeads (List.mem_of_head? first)
      cases headType.symm.trans typeEq
      rw [headType] at free
      exact ⟨type, typeName, arguments, marks, rfl, isType, free⟩
  | none =>
      rw [method] at found
      rw [returnType_of_constructorHead? found] at headType
      cases headType

end Methods
/-- An identifier whose first character satisfies `starts`. -/
def IsIdentifier (starts : Char → Bool) (name : List Char) : Prop :=
  ∃ first later, name = first :: later ∧ starts first = true ∧
    ∀ c ∈ later, Text.isIdentifierPart c = true

section Readings

variable {starts : Char → Bool} {text type name inside : List Char}

theorem isIdentifier_of_calledName? (found : calledName? starts text = some (name, inside)) :
    IsIdentifier starts name := by
  cases text with
  | nil => cases found
  | cons c text =>
      rw [calledName?] at found
      split at found
      · rename_i startsName
        dsimp only at found
        split at found
        · cases found
          exact ⟨c, _, rfl, startsName, fun d member => List.mem_takeWhile_imp member⟩
        · cases found
      · cases found

theorem IsIdentifier.isName (identifier : IsIdentifier starts name)
    (parts : ∀ c, starts c = true → Text.isIdentifierPart c = true) : IsName name := by
  obtain ⟨first, later, rfl, startsName, laterParts⟩ := identifier
  exact ⟨List.cons_ne_nil _ _, List.forall_mem_cons.mpr ⟨parts first startsName, laterParts⟩⟩

theorem IsIdentifier.calledName?_append (identifier : IsIdentifier starts name)
    (inside : List Char) : calledName? starts (name ++ '(' :: inside) = some (name, inside) := by
  obtain ⟨first, later, rfl, startsName, laterParts⟩ := identifier
  have taken : (later ++ '(' :: inside).takeWhile Text.isIdentifierPart = later :=
    CallSite.takeWhile_append_cons laterParts (by decide)
  have dropped : (later ++ '(' :: inside).dropWhile Text.isIdentifierPart = '(' :: inside := by
    rw [List.dropWhile_append_of_pos laterParts, List.dropWhile_cons_of_neg (by decide)]
  rw [List.cons_append, calledName?, if_pos startsName, taken, dropped]
  rfl

/-- The method heads whose type starts the text. -/
def readings (text : List Char) : List Head :=
  (types text).filterMap fun (type, after) => do
    let rest ← afterSpace? after
    let (name, inside) ← calledName? Text.isIdentifierStart rest
    pure { returnType := some type, name, inside }

theorem afterItems_eq (text : List Char) :
    afterItems text = (afterItem text).flatMap afterItems ++ [text] := by
  rw [afterItems]
  simp

theorem methodHeads_eq (text : List Char) :
    methodHeads text =
      (afterItems text).flatMap fun start => (afterTypeParameters start).flatMap readings := by
  rw [methodHeads, headStarts, List.flatMap_assoc]
  rfl

theorem readings_eq_nil (apart : ∀ c, text.head? = some c → isTypeNamePart c = false) :
    readings text = [] := by
  have nameless : text.takeWhile isTypeNamePart = [] := by
    cases text with
    | nil => rfl
    | cons c text => exact List.takeWhile_cons_of_neg (by simp [apart c rfl])
  rw [readings, types, nameless]
  rfl

theorem isTypeNamePart_of_isIdentifierPart {c : Char} (part : Text.isIdentifierPart c = true) :
    isTypeNamePart c = true := by
  simp only [Text.isIdentifierPart, Bool.or_eq_true] at part
  simp only [isTypeNamePart, Bool.or_eq_true]
  exact part.imp_left .inl

theorem readings_name (isName : IsName name) (inside : List Char) :
    readings (name ++ '(' :: inside) = [] := by
  have parts : ∀ c ∈ name, isTypeNamePart c = true :=
    fun c member => isTypeNamePart_of_isIdentifierPart (isName.parts c member)
  have nameEq : (name ++ '(' :: inside).takeWhile isTypeNamePart = name :=
    CallSite.takeWhile_append_cons parts (by decide)
  have named : name.isEmpty = false := by simpa [List.isEmpty_iff] using isName.nonempty
  rw [readings, types]
  simp [nameEq, named, skipSpace, arrayMarks, afterSpace?]

theorem afterTypeParameters_cons {c : Char} (part : isTypeNamePart c = true) (text : List Char) :
    afterTypeParameters (c :: text) = [c :: text] := by
  unfold afterTypeParameters
  split
  · rename_i opened
    cases opened
    exact absurd part (by decide)
  · rfl

theorem IsType.afterTypeParameters_append {typeName arguments marks : List Char}
    (isType : IsType type typeName arguments marks) (behind : List Char) :
    afterTypeParameters (type ++ behind) = [type ++ behind] := by
  obtain ⟨first, later, rfl, part⟩ := isType.exists_first
  exact afterTypeParameters_cons part (later ++ behind)

theorem IsType.head?_readings {typeName arguments marks : List Char}
    (isType : IsType type typeName arguments marks)
    (identifier : IsIdentifier Text.isIdentifierStart name) (inside : List Char) :
    (readings (type ++ ' ' :: (name ++ '(' :: inside))).head? =
      some { returnType := some type, name, inside } := by
  have isName := identifier.isName fun _ => Text.isIdentifierPart_of_isIdentifierStart
  obtain ⟨later, typesEq⟩ := List.head?_eq_some_iff.mp (isType.head?_types isName inside)
  rw [readings, typesEq, List.filterMap_cons]
  simp [afterSpace?, identifier.calledName?_append]

end Readings

end Declaration
end CallTree
