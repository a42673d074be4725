import CallTree.Method
import CallTree.Proofs.Declaration.Parameters
import CallTree.Proofs.Declaration.ReturnTypes

/-!
# Declarations printed and read again

A declaration that was read from code is printed as a signature: its return
type, its name and its parameters.  Reading the signature gives the declaration
back, unless its return type starts with a modifier, which is then read as one.
-/

namespace CallTree
namespace Declaration

open Text (SingleSpaced StartsVisible EndsVisible Collapsed)

section Heads

variable {text type typeName arguments marks name : List Char}

theorem afterItem_eq_nil (plain : text.head? ≠ some '@')
    (apart : ∀ word ∈ modifiers, ∀ rest, text ≠ word.toList ++ ' ' :: rest) :
    afterItem text = [] := by
  have noAnnotation : annotationRests text = [] := by
    unfold annotationRests
    split
    · exact absurd rfl plain
    · rfl
  rw [afterItem, noAnnotation, List.nil_append]
  refine List.filterMap_eq_nil_iff.mpr fun middle member => ?_
  obtain ⟨word, modifier, found⟩ := List.mem_filterMap.mp member
  cases spaced : afterSpace? middle with
  | none => rfl
  | some rest =>
      have textEq := afterWord?_eq_some_iff.mp found
      rw [eq_of_afterSpace? spaced] at textEq
      exact absurd textEq (apart word modifier rest)

/-- What comes behind the leading word of a type. -/
theorem IsType.exists_behind_leadingWord (isType : IsType type typeName arguments marks)
    (behind : List Char) :
    ∃ c ∈ ['.', '$', '<', '[', ' '], ∃ more,
      type ++ ' ' :: behind = leadingWord type ++ c :: more := by
  by_cases whole : type = leadingWord type
  · exact ⟨' ', by simp, behind, by rw [← whole]⟩
  · obtain ⟨c, member, further, split⟩ := isType.exists_continuation whole
    refine ⟨c, member, further ++ ' ' :: behind, ?_⟩
    nth_rewrite 1 [split]
    simp

theorem IsType.ne_modifier (isType : IsType type typeName arguments marks)
    (unmodified : isModifier (leadingWord type) = false) {word : String}
    (modifier : word ∈ modifiers) (behind rest : List Char) :
    type ++ ' ' :: behind ≠ word.toList ++ ' ' :: rest := by
  intro same
  obtain ⟨c, member, more, split⟩ := isType.exists_behind_leadingWord behind
  have outside : (['.', '$', '<', '[', ' '].all fun c => !Text.isWord c) = true := by decide
  have stops : Text.isWord c = false := by simpa using List.all_eq_true.mp outside c member
  have wordEq : (word.toList ++ ' ' :: rest).takeWhile Text.isWord = leadingWord type := by
    rw [← same, split]
    exact CallSite.takeWhile_append_cons (fun d => List.mem_takeWhile_imp) stops
  have letters : ∀ word ∈ modifiers, word ≠ "non-sealed" →
      word.toList.all Text.isWord = true := by decide +kernel
  by_cases hyphen : word = "non-sealed"
  · -- The word ends at the hyphen, which does not come next in a type.
    subst hyphen
    have stem : leadingWord type = "non".toList := wordEq.symm
    rw [split, stem] at same
    have whole : "non".toList ++ c :: more =
        "non".toList ++ ("-sealed".toList ++ ' ' :: rest) := same
    have next := List.append_cancel_left whole
    obtain rfl : c = '-' := (List.cons.inj next).1
    exact absurd member (by decide)
  · have inWord := List.all_eq_true.mp (letters word modifier hyphen)
    rw [CallSite.takeWhile_append_cons inWord (by decide)] at wordEq
    rw [← wordEq] at unmodified
    have known : isModifier word.toList = true := List.any_eq_true.mpr ⟨word, modifier, by simp⟩
    rw [known] at unmodified
    cases unmodified

/-- A type in front of a called name is what the text is read as. -/
theorem IsType.methodHead?_append (isType : IsType type typeName arguments marks)
    (unmodified : isModifier (leadingWord type) = false) (typeFree : isReserved type = false)
    (identifier : IsIdentifier Text.isIdentifierStart name) (nameFree : isReserved name = false)
    (inside : List Char) :
    methodHead? (type ++ ' ' :: (name ++ '(' :: inside)) =
      some { returnType := some type, name, inside } := by
  have noItem : afterItem (type ++ ' ' :: (name ++ '(' :: inside)) = [] := by
    refine afterItem_eq_nil ?_ fun word modifier rest =>
      isType.ne_modifier unmodified modifier _ rest
    obtain ⟨first, later, rfl, part⟩ := isType.exists_first
    rintro head
    cases head
    exact absurd part (by decide)
  have first := isType.head?_readings identifier inside
  refine methodHead?_eq_some_iff.mpr ⟨?_, typeFree, nameFree⟩
  rw [methodHeads_eq, afterItems_eq, noItem]
  simp [isType.afterTypeParameters_append, first]

section Constructors

variable (identifier : IsIdentifier isConstructorStart name) (inside : List Char)

include identifier

theorem IsIdentifier.afterItems_append :
    afterItems (name ++ '(' :: inside) = [name ++ '(' :: inside] := by
  obtain ⟨first, later, rfl, starts, _⟩ := identifier
  have noItem : afterItem (first :: later ++ '(' :: inside) = [] := by
    refine afterItem_eq_nil ?_ ?_
    · intro head
      cases head
      exact absurd starts (by decide)
    · intro word modifier rest same
      have small := head?_reserved word (List.mem_append_right _ modifier)
      cases letters : word.toList with
      | nil =>
          rw [letters] at same
          obtain ⟨rfl, _⟩ := List.cons.inj same
          exact absurd starts (by decide)
      | cons c more =>
          rw [letters] at same small
          obtain ⟨rfl, _⟩ := List.cons.inj same
          simp [starts] at small
  rw [afterItems_eq, noItem]
  rfl

theorem IsIdentifier.afterTypeParameters_append :
    afterTypeParameters (name ++ '(' :: inside) = [name ++ '(' :: inside] := by
  obtain ⟨first, later, rfl, starts, _⟩ := identifier
  have part := isTypeNamePart_of_isIdentifierPart (isIdentifierPart_of_isConstructorStart starts)
  exact afterTypeParameters_cons part (later ++ '(' :: inside)

/-- A called name at the front is what the text is read as. -/
theorem IsIdentifier.constructorHead?_append :
    (methodHead? (name ++ '(' :: inside) <|>
      constructorHead? (name ++ '(' :: inside) (some (String.ofList name))) =
        some { returnType := none, name, inside } := by
  have isName := identifier.isName fun _ => isIdentifierPart_of_isConstructorStart
  have named : String.ofList name ≠ "" := by simpa using isName.nonempty
  have start := identifier.afterTypeParameters_append inside
  have noMethod : methodHead? (name ++ '(' :: inside) = none := by
    rw [methodHead?, methodHeads_eq, identifier.afterItems_append]
    simp [start, readings_name isName]
  have heads : (constructorHeads (name ++ '(' :: inside)).head? =
      some { returnType := none, name, inside } := by
    rw [constructorHeads, headStarts, identifier.afterItems_append]
    simp [start, identifier.calledName?_append]
  rw [noMethod]
  simp [constructorHead?, heads, named]

end Constructors

end Heads

/-- The return type with the space behind it. -/
def spacedType : Option (List Char) → List Char
  | some type => type ++ [' ']
  | none => []

/-- A declaration as it is printed. -/
def printed (returnType : Option (List Char)) (name : List Char)
    (parameters : List (List Char)) : List Char :=
  spacedType returnType ++ (name ++ '(' :: (joinParameters parameters ++ [')']))

section Printed

variable {type name : List Char} {parameters : List (List Char)}

theorem collapsed_joinParameters
    (each : ∀ parameter ∈ parameters, Collapsed parameter ∧ parameter ≠ []) :
    Collapsed (joinParameters parameters) ∧ (parameters ≠ [] → joinParameters parameters ≠ []) := by
  unfold joinParameters
  induction parameters with
  | nil => exact ⟨Text.collapsed_of_visible nofun, fun nonempty => absurd rfl nonempty⟩
  | cons first parameters ih =>
      obtain ⟨⟨collapsed, nonempty⟩, laterEach⟩ := List.forall_mem_cons.mp each
      cases parameters with
      | nil =>
          rw [List.intercalate_singleton]
          exact ⟨collapsed, fun _ => nonempty⟩
      | cons next later =>
          obtain ⟨laterCollapsed, laterNonempty⟩ := ih laterEach
          have comma : Collapsed [','] := Text.collapsed_singleton (by decide)
          have split : [',', ' '].intercalate (first :: next :: later) =
              (first ++ [',']) ++ ' ' :: [',', ' '].intercalate (next :: later) := by
            simp
          rw [split]
          refine ⟨(collapsed.append comma).append_space (by simp) laterCollapsed ?_, by simp⟩
          exact laterNonempty (List.cons_ne_nil _ _)

theorem collapsed_printed {returnType : Option (List Char)} (isName : IsName name)
    (each : ∀ parameter ∈ parameters, Collapsed parameter ∧ parameter ≠ [])
    (typed : ∀ type, returnType = some type → Collapsed type ∧ type ≠ []) :
    Collapsed (printed returnType name parameters) := by
  have opening : Collapsed ['('] := Text.collapsed_singleton (by decide)
  have closing : Collapsed [')'] := Text.collapsed_singleton (by decide)
  have nameCollapsed : Collapsed name := Text.collapsed_of_visible fun c member =>
    Text.isBlank_eq_false_of_isIdentifierPart (isName.parts c member)
  have joined := (collapsed_joinParameters each).1
  have called : Collapsed (name ++ '(' :: (joinParameters parameters ++ [')'])) :=
    nameCollapsed.append (opening.append (joined.append closing))
  cases returnType with
  | none => exact called
  | some type =>
      obtain ⟨typeCollapsed, nonempty⟩ := typed type rfl
      have whole := typeCollapsed.append_space nonempty called (by simp)
      rwa [List.append_cons] at whole

end Printed

theorem toList_signature (method : Method) (typed : method.returnType ≠ some "") :
    method.signature.toList = printed (method.returnType.map String.toList) method.name.toList
      (method.parameters.map String.toList) := by
  have parametersEq : (", ".intercalate method.parameters).toList =
      joinParameters (method.parameters.map String.toList) := String.toList_intercalate
  cases returnType : method.returnType with
  | none => simp [Method.signature, printed, spacedType, returnType, parametersEq]
  | some type =>
      have nonempty : type ≠ "" := fun empty => typed (by rw [returnType, empty])
      simp [Method.signature, printed, spacedType, returnType, parametersEq, nonempty]

section Again

variable {text : List Char} {head : Head} {className : Option String}

theorem isBlank_eq_false_of_isTypeNamePart {c : Char} (part : isTypeNamePart c = true) :
    Text.isBlank c = false := by
  by_contra blank
  rw [Bool.not_eq_false] at blank
  have dot : c ≠ '.' := ne_of_isBlank blank (by decide)
  have dollar : c ≠ '$' := ne_of_isBlank blank (by decide)
  simp [isTypeNamePart, Text.isWord_eq_false_of_isBlank blank, dot, dollar] at part

/-- What the head of a method is made of. -/
theorem exists_type_of_methodHead? (single : SingleSpaced text)
    (found : methodHead? text = some head) :
    ∃ type typeName arguments marks, head.returnType = some type ∧
      IsType type typeName arguments marks ∧ Collapsed type ∧ isReserved type = false ∧
      IsIdentifier Text.isIdentifierStart head.name ∧ isReserved head.name = false := by
  obtain ⟨first, typeFree, nameFree⟩ := methodHead?_eq_some_iff.mp found
  obtain ⟨type, typeName, arguments, marks, rest, start, typeEq, isType, called⟩ :=
    exists_type_of_mem_methodHeads (List.mem_of_head? first)
  obtain ⟨taken, split, _⟩ := leaves_of_mem_headStarts start
  rw [split] at single
  have typeSingle := single.of_append.2
  have starts : StartsVisible type := by
    obtain ⟨c, later, rfl, part⟩ := isType.exists_first
    exact Text.startsVisible_cons (isBlank_eq_false_of_isTypeNamePart part)
  rw [typeEq] at typeFree
  exact ⟨type, typeName, arguments, marks, typeEq, isType,
    ⟨typeSingle.of_append.1, starts, typeSingle.endsVisible⟩, typeFree,
    isIdentifier_of_calledName? called, nameFree⟩

/-- What the head of a constructor is made of. -/
theorem isIdentifier_of_constructorHead? (found : constructorHead? text className = some head) :
    IsIdentifier isConstructorStart head.name ∧ className = some (String.ofList head.name) := by
  constructor
  · obtain ⟨start, _, read⟩ :=
      List.mem_filterMap.mp (mem_constructorHeads_of_constructorHead? found)
    obtain ⟨_, called, headEq⟩ := Option.bind_eq_some_iff.mp read
    cases headEq
    exact isIdentifier_of_calledName? called
  · unfold constructorHead? at found
    split at found
    · split at found
      · rename_i matching
        cases found
        simp only [Bool.and_eq_true, beq_iff_eq] at matching
        rw [matching.2]
      · cases found
    · cases found

/-- A head that was read is read again from the front of a printed text. -/
theorem head_of_spacedType (single : SingleSpaced text)
    (found : (methodHead? text <|> constructorHead? text className) = some head)
    (unmodified : ∀ type, head.returnType = some type → isModifier (leadingWord type) = false) :
    IsName head.name ∧
    (∀ type, head.returnType = some type → Collapsed type ∧ type ≠ []) ∧
    ∀ behind,
      (methodHead? (spacedType head.returnType ++ (head.name ++ '(' :: behind)) <|>
        constructorHead? (spacedType head.returnType ++ (head.name ++ '(' :: behind)) className) =
          some { head with inside := behind } := by
  cases read : methodHead? text with
  | some other =>
      rw [read] at found
      cases found
      obtain ⟨type, typeName, arguments, marks, typeEq, isType, collapsed, typeFree, identifier,
        nameFree⟩ := exists_type_of_methodHead? single read
      refine ⟨identifier.isName fun _ => Text.isIdentifierPart_of_isIdentifierStart, ?_, ?_⟩
      · intro same sameEq
        cases typeEq.symm.trans sameEq
        obtain ⟨c, later, rfl, _⟩ := isType.exists_first
        exact ⟨collapsed, List.cons_ne_nil c later⟩
      · intro behind
        have again := isType.methodHead?_append (unmodified type typeEq) typeFree identifier
          nameFree behind
        rw [typeEq, spacedType, List.append_assoc, List.singleton_append, again]
        rfl
  | none =>
      rw [read] at found
      have typeless := returnType_of_constructorHead? found
      obtain ⟨identifier, rfl⟩ := isIdentifier_of_constructorHead? found
      refine ⟨identifier.isName fun _ => isIdentifierPart_of_isConstructorStart, ?_, ?_⟩
      · intro type typeEq
        rw [typeless] at typeEq
        cases typeEq
      · intro behind
        rw [typeless, spacedType, List.nil_append]
        exact identifier.constructorHead?_append behind

/-- Where the head of a printed declaration is found, its parameters are. -/
theorem parse?_printed {returnType : Option (List Char)} {name inside after : List Char}
    (isName : IsName name)
    (typed : ∀ type, returnType = some type → Collapsed type ∧ type ≠ [])
    (closes : splitAtClosing 1 text = some (inside, after))
    (headed : ∀ behind,
      (methodHead? (spacedType returnType ++ (name ++ '(' :: behind)) <|>
        constructorHead? (spacedType returnType ++ (name ++ '(' :: behind)) className) =
          some { returnType, name, inside := behind }) :
    parse? (printed returnType name (splitParameters inside)) className = some {
      name := String.ofList name
      returnType := returnType.map String.ofList
      parameters := (splitParameters inside).map String.ofList } := by
  have collapsed : Collapsed (printed returnType name (splitParameters inside)) :=
    collapsed_printed isName (fun _ => collapsed_of_mem_splitParameters) typed
  refine parse?_eq_some_iff.mpr ⟨⟨returnType, name, _⟩, _, _, ?_,
    splitAtClosing_joinParameters closes, ?_⟩
  · rw [collapsed.collapse_eq]
    exact headed _
  · rw [splitParameters_joinParameters]

end Again

/-- Reading the signature of a method that was declared gives its declaration,
if its return type starts with no modifier. -/
theorem parse?_signature {code : List Char} {className : Option String}
    {declaration : Declaration} (parsed : parse? code className = some declaration)
    (unmodified : ∀ returnType, declaration.returnType = some returnType →
      isModifier (leadingWord returnType.toList) = false)
    (method : Method) (sameName : method.name = declaration.name)
    (sameType : method.returnType = declaration.returnType)
    (sameParameters : method.parameters = declaration.parameters) :
    parse? method.signature.toList className = some declaration := by
  obtain ⟨head, inside, after, found, closes, rfl⟩ := parse?_eq_some_iff.mp parsed
  have single := (Text.collapsed_collapse code).single
  obtain ⟨isName, typed, headed⟩ := head_of_spacedType single found fun type typeEq => by
    have free := unmodified (String.ofList type) (by simp [typeEq])
    rwa [String.toList_ofList] at free
  have nonempty : method.returnType ≠ some "" := by
    rw [sameType]
    intro empty
    obtain ⟨type, typeEq, ofListEq⟩ := Option.map_eq_some_iff.mp empty
    exact (typed type typeEq).2 (by simpa using ofListEq)
  have signatureEq : method.signature.toList =
      printed head.returnType head.name (splitParameters inside) := by
    rw [toList_signature method nonempty, sameName, sameType, sameParameters]
    simp [Function.comp_def]
  rw [signatureEq]
  exact parse?_printed isName typed closes headed

def findDeclaration : Declaration where
  name := "find"
  returnType := some "Map<K, List<V>>"
  parameters := ["@In(a = 1, b = 2) Map<K, V> m", "int[] n"]

def findMethod : Method where
  name := findDeclaration.name
  returnType := findDeclaration.returnType
  parameters := findDeclaration.parameters

theorem findMethod_parse?_signature :
    parse? "public <V> Map<K, List<V>> find(@In(a = 1, b = 2) Map<K, V> m ,int[] n) throws E".toList
      none = some findDeclaration ∧
    parse? "Map<K, List<V>> find(@In(a = 1, b = 2) Map<K, V> m, int[] n)".toList none =
      some findDeclaration := by
  have parsed : parse?
      "public <V> Map<K, List<V>> find(@In(a = 1, b = 2) Map<K, V> m ,int[] n) throws E".toList
      none = some findDeclaration := by decide +kernel
  have unmodified : ∀ returnType, findDeclaration.returnType = some returnType →
      isModifier (leadingWord returnType.toList) = false := by
    rintro _ ⟨⟩
    decide +kernel
  have printedEq : findMethod.signature =
      "Map<K, List<V>> find(@In(a = 1, b = 2) Map<K, V> m, int[] n)" := by decide +kernel
  have again := parse?_signature parsed unmodified findMethod rfl rfl rfl
  rw [printedEq] at again
  exact ⟨parsed, again⟩

end Declaration
end CallTree
