import CallTree.Proofs.Source.Methods
import CallTree.Proofs.Text.Collapse

/-!
# Names in the heads of declarations

Every reader of a head leaves a rest of the text that it reads.  What comes
before the name of a method or a constructor ends with a space or an angle
bracket, so the name of a declaration is a whole identifier of its code, with
only blanks up to its parenthesis.
-/

namespace CallTree
namespace Declaration

open CallSite (IsGap)
open Text (EndsApart)

/-- A reader may stop in front of the rest, where no identifier is cut. -/
def Leaves (text rest : List Char) : Prop :=
  ∃ taken, text = taken ++ rest ∧ EndsApart taken

theorem Leaves.refl (text : List Char) : Leaves text text :=
  ⟨[], rfl, nofun⟩

theorem Leaves.trans {text middle rest : List Char} (first : Leaves text middle)
    (second : Leaves middle rest) : Leaves text rest := by
  obtain ⟨taken, rfl, takenApart⟩ := first
  obtain ⟨further, rfl, furtherApart⟩ := second
  exact ⟨taken ++ further, by simp, takenApart.append furtherApart⟩

theorem leaves_of_suffix_cons {text rest : List Char} {c : Char}
    (apart : Text.isIdentifierPart c = false) (suffix : c :: rest <:+ text) :
    Leaves text rest := by
  obtain ⟨front, rfl⟩ := suffix
  refine ⟨front ++ [c], by simp, (Text.endsApart_append (by simp)).mpr ?_⟩
  intro d last
  cases last
  exact apart

section Readers

variable {text rest : List Char}

theorem suffix_skipSpace (text : List Char) : skipSpace text <:+ text := by
  unfold skipSpace
  split
  · exact List.suffix_cons _ _
  · exact List.suffix_rfl

theorem leaves_skipSpace (text : List Char) : Leaves text (skipSpace text) := by
  unfold skipSpace
  split
  · exact leaves_of_suffix_cons (c := ' ') (by decide) List.suffix_rfl
  · exact .refl _

theorem eq_of_afterSpace? (found : afterSpace? text = some rest) : text = ' ' :: rest := by
  unfold afterSpace? at found
  split at found
  · cases found
    rfl
  · cases found

theorem suffix_of_mem_afterArguments (member : rest ∈ afterArguments text) : rest <:+ text := by
  unfold afterArguments at member
  split at member
  · rename_i inside opened
    have insideSuffix : inside <:+ text :=
      (List.suffix_cons '(' inside).trans (opened ▸ suffix_skipSpace text)
    split at member
    · cases member
    · rename_i closed
      rw [List.mem_singleton.mp member]
      exact ((List.suffix_cons _ _).trans (closed ▸ List.dropWhile_suffix _)).trans insideSuffix
  · cases member

theorem suffix_of_mem_annotationRests (member : rest ∈ annotationRests text) :
    rest <:+ text := by
  unfold annotationRests at member
  split at member
  · rename_i text
    have nameSuffix : text.drop (text.takeWhile isTypeNamePart).length <:+ '@' :: text :=
      (List.drop_suffix _ _).trans (List.suffix_cons _ _)
    dsimp only at member
    split at member
    · cases member
    · rcases List.mem_append.mp member with taken | plain
      · exact (suffix_of_mem_afterArguments taken).trans nameSuffix
      · rw [List.mem_singleton.mp plain]
        exact nameSuffix
  · cases member

theorem afterWord?_eq_some_iff {word : String} :
    afterWord? word text = some rest ↔ text = word.toList ++ rest := by
  rw [afterWord?]
  constructor
  · intro found
    split at found
    · rename_i starts
      obtain ⟨behind, rfl⟩ := List.isPrefixOf_iff_prefix.mp starts
      cases found
      rw [List.drop_left]
    · cases found
  · rintro rfl
    rw [if_pos (List.isPrefixOf_iff_prefix.mpr (List.prefix_append _ _)), List.drop_left]

theorem suffix_of_afterWord? {word : String} (found : afterWord? word text = some rest) :
    rest <:+ text := by
  rw [afterWord?_eq_some_iff.mp found]
  exact List.suffix_append _ _

theorem leaves_of_mem_afterItem (member : rest ∈ afterItem text) : Leaves text rest := by
  obtain ⟨middle, reached, spaced⟩ := List.mem_filterMap.mp member
  have middleSuffix : middle <:+ text := by
    rcases List.mem_append.mp reached with annotated | modified
    · exact suffix_of_mem_annotationRests annotated
    · obtain ⟨word, -, found⟩ := List.mem_filterMap.mp modified
      exact suffix_of_afterWord? found
  rw [eq_of_afterSpace? spaced] at middleSuffix
  exact leaves_of_suffix_cons (by decide) middleSuffix

theorem leaves_of_mem_afterItems (member : rest ∈ afterItems text) : Leaves text rest := by
  induction text using afterItems.induct with
  | case1 text ih =>
      rw [afterItems] at member
      rcases List.mem_append.mp member with later | here
      · obtain ⟨⟨middle, reached⟩, -, further⟩ := List.mem_flatMap.mp later
        exact (leaves_of_mem_afterItem reached).trans (ih middle reached further)
      · rw [List.mem_singleton.mp here]
        exact .refl text

theorem eq_of_mem_closings {content after : List Char}
    (member : (content, after) ∈ closings text) :
    ∃ inside, content = inside ++ ['>'] ∧ text = content ++ after := by
  induction text generalizing content with
  | nil => cases member
  | cons c text ih =>
      have further (later : (content, after) ∈
          (closings text).map fun closing => (c :: closing.1, closing.2)) :
          ∃ inside, content = inside ++ ['>'] ∧ c :: text = content ++ after := by
        obtain ⟨⟨nearer, _⟩, nearerMem, same⟩ := List.mem_map.mp later
        cases same
        obtain ⟨inside, rfl, rfl⟩ := ih nearerMem
        exact ⟨c :: inside, rfl, rfl⟩
      rw [closings] at member
      split at member
      · cases member
      · dsimp only at member
        split at member
        · rename_i closes
          rcases List.mem_cons.mp member with here | later
          · cases here
            exact ⟨[], by rw [beq_iff_eq.mp closes]; rfl, rfl⟩
          · exact further later
        · exact further member

theorem leaves_of_mem_afterTypeParameters (member : rest ∈ afterTypeParameters text) :
    Leaves text rest := by
  unfold afterTypeParameters at member
  split at member
  · rename_i inside
    rcases List.mem_append.mp member with closed | plain
    · obtain ⟨⟨content, after⟩, closing, rfl⟩ := List.mem_map.mp closed
      obtain ⟨parameters, rfl, rfl⟩ := eq_of_mem_closings closing
      have behindBracket : Leaves ('<' :: (parameters ++ ['>'] ++ after)) after :=
        leaves_of_suffix_cons (c := '>') (by decide) ⟨'<' :: parameters, by simp⟩
      exact behindBracket.trans (leaves_skipSpace after)
    · rw [List.mem_singleton.mp plain]
      exact .refl _
  · rw [List.mem_singleton.mp member]
    exact .refl _

theorem leaves_of_mem_headStarts (member : rest ∈ headStarts text) : Leaves text rest := by
  obtain ⟨middle, items, parameters⟩ := List.mem_flatMap.mp member
  exact (leaves_of_mem_afterItems items).trans (leaves_of_mem_afterTypeParameters parameters)

theorem arrayMarks_append (text : List Char) :
    (arrayMarks text).1 ++ (arrayMarks text).2 = text := by
  fun_induction arrayMarks text with
  | case5 text => rfl
  | _ => simp_all

theorem suffix_of_mem_types {type : List Char} (member : (type, rest) ∈ types text) :
    rest <:+ text := by
  rw [types] at member
  dsimp only at member
  split at member
  · cases member
  · obtain ⟨⟨shorter, after⟩, reached, same⟩ := List.mem_map.mp member
    have restEq : (arrayMarks after).2 = rest := congrArg Prod.snd same
    have restSuffix : rest <:+ after := ⟨(arrayMarks after).1, restEq ▸ arrayMarks_append after⟩
    have nameSuffix := List.drop_suffix (text.takeWhile isTypeNamePart).length text
    refine restSuffix.trans ?_
    rcases List.mem_append.mp reached with parameterized | plain
    · split at parameterized
      · rename_i inside opened
        obtain ⟨⟨content, behind⟩, closing, pairEq⟩ := List.mem_map.mp parameterized
        obtain ⟨_, _, insideEq⟩ := eq_of_mem_closings (List.mem_reverse.mp closing)
        have behindEq : behind = after := congrArg Prod.snd pairEq
        have insideSuffix : after <:+ inside := ⟨content, by rw [insideEq, behindEq]⟩
        exact (insideSuffix.trans (List.suffix_cons '<' inside)).trans
          (opened ▸ (suffix_skipSpace _).trans nameSuffix)
      · cases parameterized
    · cases List.mem_singleton.mp plain
      exact nameSuffix

end Readers

section Names

variable {text name inside : List Char}

theorem isIdentifierStart_of_isConstructorStart {c : Char}
    (starts : isConstructorStart c = true) : Text.isIdentifierStart c = true := by
  have letter (upper : c.isUpper = true) : c.isAlpha = true :=
    Bool.or_eq_true_iff.mpr (.inl upper)
  simp only [isConstructorStart, Bool.or_eq_true] at starts
  simp only [Text.isIdentifierStart, Bool.or_eq_true]
  exact starts.imp_left (.imp_left letter)

theorem isIdentifierPart_of_isConstructorStart {c : Char}
    (starts : isConstructorStart c = true) : Text.isIdentifierPart c = true :=
  Text.isIdentifierPart_of_isIdentifierStart (isIdentifierStart_of_isConstructorStart starts)

/-- A name is an identifier. -/
structure IsName (name : List Char) : Prop where
  nonempty : name ≠ []
  parts : ∀ c ∈ name, Text.isIdentifierPart c = true

theorem exists_gap_skipSpace (text : List Char) :
    ∃ gap, IsGap gap ∧ text = gap ++ skipSpace text := by
  unfold skipSpace
  split
  · exact ⟨[' '], List.forall_mem_singleton.mpr (by decide), rfl⟩
  · exact ⟨[], nofun, rfl⟩

theorem exists_gap_of_calledName? {starts : Char → Bool}
    (identifier : ∀ c, starts c = true → Text.isIdentifierPart c = true)
    (found : calledName? starts text = some (name, inside)) :
    IsName name ∧ ∃ gap, IsGap gap ∧ text = name ++ (gap ++ '(' :: inside) := by
  cases text with
  | nil => cases found
  | cons c text =>
      rw [calledName?] at found
      split at found
      · rename_i startsName
        dsimp only at found
        split at found
        · rename_i behind opened
          cases found
          have parts : ∀ d ∈ c :: text.takeWhile Text.isIdentifierPart,
              Text.isIdentifierPart d = true :=
            List.forall_mem_cons.mpr
              ⟨identifier c startsName, fun d member => List.mem_takeWhile_imp member⟩
          refine ⟨⟨List.cons_ne_nil _ _, parts⟩, ?_⟩
          obtain ⟨gap, gapBlank, gapEq⟩ :=
            exists_gap_skipSpace (text.dropWhile Text.isIdentifierPart)
          refine ⟨gap, gapBlank, ?_⟩
          rw [← opened, ← gapEq, List.cons_append, List.takeWhile_append_dropWhile]
        · cases found
      · cases found

/-- Where a reader stops, a called name is one of the text. -/
theorem Leaves.named {starts : Char → Bool} {start : List Char} (leaves : Leaves text start)
    (identifier : ∀ c, starts c = true → Text.isIdentifierPart c = true)
    (found : calledName? starts start = some (name, inside)) :
    IsName name ∧ ∃ front gap, Extent.Named name text front gap inside := by
  obtain ⟨taken, rfl, apart⟩ := leaves
  obtain ⟨isName, gap, gapBlank, rfl⟩ := exists_gap_of_calledName? identifier found
  exact ⟨isName, taken, gap, rfl, gapBlank, apart⟩

theorem named_of_mem_methodHeads {head : Head} (member : head ∈ methodHeads text) :
    IsName head.name ∧ ∃ front gap, Extent.Named head.name text front gap head.inside := by
  obtain ⟨start, startMem, typed⟩ := List.mem_flatMap.mp member
  obtain ⟨⟨type, after⟩, typeMem, found⟩ := List.mem_filterMap.mp typed
  obtain ⟨rest, spaced, further⟩ := Option.bind_eq_some_iff.mp found
  obtain ⟨⟨name, inside⟩, called, headEq⟩ := Option.bind_eq_some_iff.mp further
  cases headEq
  have typeSuffix := suffix_of_mem_types typeMem
  rw [eq_of_afterSpace? spaced] at typeSuffix
  have leaves := (leaves_of_mem_headStarts startMem).trans
    (leaves_of_suffix_cons (by decide) typeSuffix)
  exact leaves.named (fun _ => Text.isIdentifierPart_of_isIdentifierStart) called

theorem named_of_mem_constructorHeads {head : Head} (member : head ∈ constructorHeads text) :
    IsName head.name ∧ ∃ front gap, Extent.Named head.name text front gap head.inside := by
  obtain ⟨start, startMem, found⟩ := List.mem_filterMap.mp member
  obtain ⟨⟨name, inside⟩, called, headEq⟩ := Option.bind_eq_some_iff.mp found
  cases headEq
  exact (leaves_of_mem_headStarts startMem).named
    (fun _ => isIdentifierPart_of_isConstructorStart) called

theorem mem_methodHeads_of_methodHead? {head : Head} (found : methodHead? text = some head) :
    head ∈ methodHeads text := by
  rw [methodHead?] at found
  split at found
  · rename_i first
    split at found
    · cases found
    · cases found
      exact List.mem_of_head? first
  · cases found

theorem mem_constructorHeads_of_constructorHead? {className : Option String} {head : Head}
    (found : constructorHead? text className = some head) : head ∈ constructorHeads text := by
  unfold constructorHead? at found
  split at found
  · rename_i first
    split at found
    · cases found
      exact List.mem_of_head? first
    · cases found
  · cases found

/-- The name of a declaration stands before a parenthesis of its code. -/
theorem named_of_parse? {code : List Char} {className : Option String}
    {declaration : Declaration} (parsed : parse? code className = some declaration) :
    IsName declaration.name.toList ∧
      ∃ front gap behind, Extent.Named declaration.name.toList code front gap behind := by
  rw [parse?] at parsed
  dsimp only at parsed
  split at parsed
  · cases parsed
  · rename_i head found
    obtain ⟨_, _, rfl⟩ := Option.map_eq_some_iff.mp parsed
    have collapsed : IsName head.name ∧ ∃ front gap, Extent.Named head.name
        (Text.collapse code) front gap head.inside := by
      cases method : methodHead? (Text.collapse code) with
      | some head =>
          rw [method] at found
          cases found
          exact named_of_mem_methodHeads (mem_methodHeads_of_methodHead? method)
      | none =>
          rw [method] at found
          exact named_of_mem_constructorHeads (mem_constructorHeads_of_constructorHead? found)
    obtain ⟨isName, front, gap, named⟩ := collapsed
    rw [String.toList_ofList]
    exact ⟨isName, Text.named_of_collapse isName.nonempty isName.parts named⟩

end Names

end Declaration
end CallTree
