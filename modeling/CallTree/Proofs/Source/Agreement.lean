import CallTree.Proofs.Source.Methods
import Mathlib.Data.List.TakeWhile

/-!
# The ways to find a method agree

All methods of a source are found in one pass down its lines, with the open
classes at hand.  The method at a line is found by going up from the line, with
the classes of all lines worked out before.  A declaration that the pass accepts
on a line is one that the way up meets there, in the same class, so that the way
up never goes past it.
-/

namespace CallTree

/-- A segment that does not start the line follows a brace or a semicolon. -/
theorem exists_suffix_of_mem_laterSegments {code segment : List Char} {start net : Int}
    (member : (net, segment) ∈ laterSegments start code) :
    ∃ mark ∈ ['{', '}', ';'], mark :: segment <:+ code := by
  induction code generalizing start with
  | nil => simp [laterSegments] at member
  | cons c rest ih =>
      have further {after : Int} (found : (net, segment) ∈ laterSegments after rest) :
          ∃ mark ∈ ['{', '}', ';'], mark :: segment <:+ c :: rest := by
        obtain ⟨mark, isMark, suffix⟩ := ih found
        exact ⟨mark, isMark, suffix.trans (List.suffix_cons c rest)⟩
      have behind {after : Int} (isMark : c ∈ ['{', '}', ';'])
          (found : (net, segment) ∈ (after, rest) :: laterSegments after rest) :
          ∃ mark ∈ ['{', '}', ';'], mark :: segment <:+ c :: rest := by
        rcases List.mem_cons.mp found with here | later
        · rw [(Prod.mk.inj here).2]
          exact ⟨c, isMark, List.suffix_rfl⟩
        · exact further later
      rw [laterSegments] at member
      split at member
      · rename_i opens
        exact behind (by simp [beq_iff_eq.mp opens]) member
      · split at member
        · rename_i closes
          exact behind (by simp [beq_iff_eq.mp closes]) member
        · split at member
          · rename_i ends
            exact behind (by simp [beq_iff_eq.mp ends]) member
          · exact further member

theorem suffix_of_mem_segments {code segment : List Char} {net : Int}
    (member : (net, segment) ∈ segments code) : segment <:+ code := by
  rcases List.mem_cons.mp member with here | later
  · cases here
    exact List.suffix_rfl
  · obtain ⟨mark, _, suffix⟩ := exists_suffix_of_mem_laterSegments later
    exact (List.suffix_cons mark segment).trans suffix

namespace Source

/-- A segment of the line declares something: it has a signature, which takes
some of the lines below, and the signature reads as a declaration. -/
structure Declares (className : Option String) (line : CodeLine) (below : List CodeLine)
    (segment code : List Char) (joined : Nat) (declaration : Declaration) : Prop where
  segment_mem : ∃ net, (net, segment) ∈ segments line.code
  signature_eq : Declaration.signature? segment (below.map CodeLine.code) = some (code, joined)
  parse_eq : Declaration.parse? code className = some declaration

section Declares

variable {className : Option String} {line : CodeLine} {below : List CodeLine}
variable {segment code : List Char} {joined : Nat} {declaration : Declaration}

theorem not_isBlankText_of_signature? {below : List Line}
    (found : Declaration.signature? segment below = some (code, joined)) :
    Text.isBlankText segment = false := by
  cases blank : Text.isBlankText segment with
  | false => rfl
  | true =>
      have trimmed : Text.trim segment = [] := by
        have dropped : Text.dropBlanks segment = [] :=
          List.dropWhile_eq_nil_iff.mpr (List.all_eq_true.mp blank)
        rw [Text.trim, dropped]
        rfl
      simp [Declaration.signature?, trimmed, Declaration.dropAnnotations] at found

theorem Declares.not_isBlankText
    (declares : Declares className line below segment code joined declaration) :
    Text.isBlankText line.code = false := by
  obtain ⟨net, segmentMem⟩ := declares.segment_mem
  have shown := not_isBlankText_of_signature? declares.signature_eq
  rw [Text.isBlankText, List.all_eq_false] at shown ⊢
  obtain ⟨c, member, visible⟩ := shown
  exact ⟨c, (suffix_of_mem_segments segmentMem).subset member, visible⟩

/-- Going up, a line on which something is declared is not passed. -/
theorem Declares.isSome_declarationOn?
    (declares : Declares className line below segment code joined declaration) :
    (declarationOn? className (line :: below)).isSome := by
  obtain ⟨net, segmentMem⟩ := declares.segment_mem
  rw [declarationOn?, declares.not_isBlankText, if_neg Bool.false_ne_true,
    List.findSome?_isSome_iff]
  refine ⟨(net, segment), segmentMem, ?_⟩
  simp [declares.signature_eq, declares.parse_eq]

end Declares

section Definitions

variable {stack : ClassStack} {file : String} {index skip : Nat} {method : Method}

theorem exists_declares_of_mem_methodsOn {line : CodeLine} {below : List CodeLine}
    {places : List (Int × List Char)} (places_subset : places ⊆ segments line.code)
    (member : method ∈ (methodsOn stack file index (below.map CodeLine.code) places).1) :
    ∃ segment code joined declaration,
      Declares stack.current line below segment code joined declaration ∧
        method = Source.method file stack.current index declaration := by
  induction places with
  | nil => simp [methodsOn] at member
  | cons place places ih =>
      obtain ⟨net, segment⟩ := place
      have later := ih (List.subset_of_cons_subset places_subset)
      rw [methodsOn] at member
      split at member
      · split at member
        · exact later member
        · rename_i code joined signature
          split at member
          · exact later member
          · rename_i declaration parsed
            have here : Declares stack.current line below segment code joined declaration :=
              ⟨⟨net, places_subset List.mem_cons_self⟩, signature, parsed⟩
            split at member
            · rcases List.mem_cons.mp member with rfl | other
              · exact ⟨segment, code, joined, declaration, here, rfl⟩
              · exact later other
            · rw [List.mem_singleton.mp member]
              exact ⟨segment, code, joined, declaration, here, rfl⟩
      · exact later member

/-- Where a method comes from: the line at `offset`, of those that start with line
`first` of the source, and the segment that declares the method in the class of
that line. -/
structure Origin (classes : List (Option String)) (lines : List CodeLine) (file : String)
    (first : Nat) (method : Method) where
  offset : Nat
  line : CodeLine
  below : List CodeLine
  className : Option String
  segment : List Char
  code : List Char
  joined : Nat
  declaration : Declaration
  lines_eq : lines.drop offset = line :: below
  class_eq : classes[offset]? = some className
  declares : Declares className line below segment code joined declaration
  method_eq : method = Source.method file className (first + offset) declaration

namespace Origin

variable {classes : List (Option String)} {lines : List CodeLine} {first : Nat}

def below_line (origin : Origin classes lines file (first + 1) method)
    (className : Option String) (line : CodeLine) :
    Origin (className :: classes) (line :: lines) file first method :=
  { origin with
    offset := origin.offset + 1
    lines_eq := origin.lines_eq
    class_eq := origin.class_eq
    method_eq := origin.method_eq.trans (by rw [Nat.add_right_comm, Nat.add_assoc]) }

theorem line_eq (origin : Origin classes lines file first method) :
    method.line = (first + origin.offset : Nat) + 1 :=
  congrArg Method.line origin.method_eq

theorem offset_lt (origin : Origin classes lines file first method) :
    origin.offset < lines.length := by
  by_contra beyond
  have nothing := List.drop_eq_nil_of_le (Nat.le_of_not_lt beyond)
  rw [origin.lines_eq] at nothing
  cases nothing

end Origin

theorem exists_origin_of_mem_definitionsFrom {lines : List CodeLine}
    (member : method ∈ definitionsFrom stack file index skip lines) :
    Nonempty (Origin (classesFrom stack lines) lines file index method) := by
  induction lines generalizing stack index skip with
  | nil => simp [definitionsFrom] at member
  | cons line lines ih =>
      rw [definitionsFrom] at member
      rw [classesFrom]
      split at member
      · rcases List.mem_append.mp member with here | later
        · obtain ⟨segment, code, joined, declaration, declares, methodEq⟩ :=
            exists_declares_of_mem_methodsOn (List.Subset.refl _) here
          exact ⟨⟨0, line, lines, _, segment, code, joined, declaration, rfl, rfl, declares,
            methodEq⟩⟩
        · exact (ih later).map fun origin => origin.below_line _ line
      · exact (ih member).map fun origin => origin.below_line _ line

/-- The pass down the lines gives the methods of a line before those of the lines
below it. -/
theorem pairwise_line_definitionsFrom (lines : List CodeLine) :
    (definitionsFrom stack file index skip lines).Pairwise
      fun method later => method.line ≤ later.line := by
  induction lines generalizing stack index skip with
  | nil => exact .nil
  | cons line lines ih =>
      rw [definitionsFrom]
      split
      · have onLine : ∀ method ∈ (methodsOn (stack.beginLine line.code) file index
            (lines.map CodeLine.code) (segments line.code)).1,
            method.line = (index : Int) + 1 := by
          intro method member
          obtain ⟨_, _, _, _, _, rfl⟩ :=
            exists_declares_of_mem_methodsOn (List.Subset.refl _) member
          rfl
        refine List.pairwise_append.mpr ⟨?_, ih, ?_⟩
        · apply List.pairwise_of_forall_mem_list
          intro method member later laterMem
          exact Int.le_of_eq ((onLine method member).trans (onLine later laterMem).symm)
        · intro method member later laterMem
          obtain ⟨origin⟩ := exists_origin_of_mem_definitionsFrom laterMem
          rw [onLine method member, origin.line_eq]
          omega
      · exact ih

end Definitions

section MethodAt

variable {source : Source} {classes : List (Option String)} {file : String}

theorem exists_methodBefore?_of_declared {index : Nat}
    (declared : (declarationOn? (classes[index]?).join (source.lines.drop index)).isSome) :
    ∃ found, source.methodBefore? classes file (index + 1) = some found ∧
      found.line = (index : Int) + 1 := by
  obtain ⟨declaration, declaredEq⟩ := Option.isSome_iff_exists.mp declared
  refine ⟨method file (classes[index]?).join index declaration, ?_, rfl⟩
  rw [methodBefore?]
  simp only [declaredEq]

/-- Going up from further below ends on the same line or on one below it. -/
theorem methodBefore?_mono {count later : Nat} (le : count ≤ later) {found : Method}
    (foundEq : source.methodBefore? classes file count = some found) :
    ∃ other, source.methodBefore? classes file later = some other ∧
      found.line ≤ other.line := by
  induction later with
  | zero =>
      obtain rfl : count = 0 := Nat.le_zero.mp le
      exact ⟨found, foundEq, Int.le_refl _⟩
  | succ index ih =>
      rcases Nat.lt_or_ge index count with last | above
      · obtain rfl : count = index + 1 := Nat.le_antisymm le last
        exact ⟨found, foundEq, Int.le_refl _⟩
      · cases declared : declarationOn? (classes[index]?).join (source.lines.drop index) with
        | none =>
            rw [methodBefore?]
            simpa only [declared] using ih above
        | some declaration =>
            obtain ⟨other, otherEq, lineEq⟩ :=
              exists_methodBefore?_of_declared (Option.isSome_iff_exists.mpr ⟨_, declared⟩)
            obtain ⟨_, line, lineLt, foundLine, _⟩ := methodBefore?_eq_some foundEq
            exact ⟨other, otherEq, by omega⟩

@[simp]
theorem classAt_natCast (source : Source) (index : Nat) :
    source.classAt index = (source.classes[index]?).join := by
  rw [classAt, if_neg (by omega), Int.toNat_natCast]

theorem methodAt_mono {line later : Int} (le : line ≤ later) {found : Method}
    (foundEq : source.methodAt line file = some found) :
    ∃ other, source.methodAt later file = some other ∧ found.line ≤ other.line :=
  methodBefore?_mono (by omega) foundEq

/-- Going up from a line ends at or above it, in the class of the line where it
ends. -/
theorem line_le_of_methodAt {line : Int} {found : Method}
    (foundEq : source.methodAt line file = some found) :
    found.line ≤ line + 1 ∧ found.className = source.classAt (found.line - 1) := by
  obtain ⟨_, index, indexLt, lineEq, classEq⟩ := methodBefore?_eq_some foundEq
  have above : found.line - 1 = index := by omega
  refine ⟨by omega, ?_⟩
  rw [classEq, above, classAt_natCast]

end MethodAt

section Agreement

variable {source : Source} {file : String} {method : Method}

theorem exists_origin_of_mem_definitions (member : method ∈ source.definitions file) :
    Nonempty (Origin source.classes source.lines file 0 method) :=
  exists_origin_of_mem_definitionsFrom member

namespace Origin

variable (origin : Origin source.classes source.lines file 0 method)

include origin

theorem line_bounds : 1 ≤ method.line ∧ method.line ≤ source.lines.length := by
  have lineEq := origin.line_eq
  have inside := origin.offset_lt
  omega

theorem classAt_line : source.classAt (method.line - 1) = method.className := by
  have offsetEq : method.line - 1 = origin.offset := by
    have lineEq := origin.line_eq
    omega
  rw [offsetEq, classAt_natCast, origin.class_eq]
  exact (congrArg Method.className origin.method_eq).symm

/-- From the line of a definition on, going up finds a method there or below. -/
theorem exists_methodAt (path : String) {line : Int} (below : method.line - 1 ≤ line) :
    ∃ found, source.methodAt line path = some found ∧ method.line ≤ found.line := by
  have lineEq := origin.line_eq
  have inside := origin.offset_lt
  have declared : (declarationOn? (source.classes[origin.offset]?).join
      (source.lines.drop origin.offset)).isSome := by
    rw [origin.class_eq, origin.lines_eq]
    exact origin.declares.isSome_declarationOn?
  obtain ⟨found, foundEq, foundLine⟩ := exists_methodBefore?_of_declared declared
  have counted : origin.offset + 1 ≤ (min (line + 1) source.lines.length).toNat := by omega
  obtain ⟨other, otherEq, le⟩ := methodBefore?_mono counted foundEq
  exact ⟨other, otherEq, by omega⟩

end Origin

/-- The definitions of a source stand in the order of their lines, all in the
file and each in the class of its line; from the line of a definition on, the
method at a line is declared there or below it, at or above the line asked for;
and it moves down with the line asked for. -/
theorem definitions_agree_with_methodAt (source : Source) (file path : String) :
    (source.definitions file).Pairwise (fun method later => method.line ≤ later.line) ∧
    (∀ method ∈ source.definitions file,
      1 ≤ method.line ∧ method.line ≤ source.lines.length ∧
      source.classAt (method.line - 1) = method.className ∧
      ∀ line, method.line - 1 ≤ line →
        ∃ found, source.methodAt line path = some found ∧
          method.line ≤ found.line ∧ found.line ≤ line + 1 ∧
          found.className = source.classAt (found.line - 1)) ∧
    ∀ line later found, line ≤ later → source.methodAt line path = some found →
      ∃ other, source.methodAt later path = some other ∧ found.line ≤ other.line := by
  refine ⟨pairwise_line_definitionsFrom source.lines, ?_, ?_⟩
  · intro method member
    obtain ⟨origin⟩ := exists_origin_of_mem_definitions member
    refine ⟨origin.line_bounds.1, origin.line_bounds.2, origin.classAt_line, ?_⟩
    intro line below
    obtain ⟨found, foundEq, le⟩ := origin.exists_methodAt path below
    obtain ⟨above, classEq⟩ := line_le_of_methodAt foundEq
    exact ⟨found, foundEq, le, above, classEq⟩
  · intro line later found le foundEq
    exact methodAt_mono le foundEq

end Agreement

/-- A class in a class, with a method on two lines before it. -/
def nestedText : List Char :=
  "class A \x7b\n int\n f(int x) \x7b g(); \x7d\n class B \x7b void g() \x7b \x7d \x7d\n\x7d".toList

/-- From the last line, the way up ends at the method of the inner class. -/
theorem nested_definitions_agree :
    ∃ method ∈ (ofText {} nestedText).definitions "A.java", method.className = some "B" ∧
      (ofText {} nestedText).classAt (method.line - 1) = some "B" ∧
      ∃ found, (ofText {} nestedText).methodAt 4 "A.java" = some found ∧
        method.line ≤ found.line := by
  have inner : ∃ method ∈ (ofText {} nestedText).definitions "A.java",
      method.className = some "B" ∧ method.line - 1 ≤ 4 := by
    decide +kernel
  obtain ⟨method, member, className, above⟩ := inner
  obtain ⟨_, _, classEq, below⟩ := (definitions_agree_with_methodAt (ofText {} nestedText)
    "A.java" "A.java").2.1 method member
  obtain ⟨found, foundEq, le, _⟩ := below 4 above
  exact ⟨method, member, className, classEq.trans className, found, foundEq, le⟩

end Source
end CallTree
