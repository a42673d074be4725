import CallTree.Proofs.Tree.Levels
import CallTree.Source

/-!
# Where found methods lie

Every definition of a source lies in the file that it was looked for in, and in
a class that has a name.  So does the method at a line, if it lies in a class
at all.
-/

namespace CallTree

theorem Text.isWord_of_isAlphanum {c : Char} (alphanum : c.isAlphanum = true) :
    isWord c = true := by
  have bounded : c.val ≤ 'z'.val := by
    rcases Bool.or_eq_true_iff.mp alphanum with letter | digit
    · rcases Bool.or_eq_true_iff.mp letter with upper | lower
      · exact UInt32.le_trans (of_decide_eq_true upper).2 (by decide)
      · exact of_decide_eq_true (Bool.and_eq_true_iff.mp lower).2
    · exact UInt32.le_trans (of_decide_eq_true (Bool.and_eq_true_iff.mp digit).2) (by decide)
  have ascii : c.toNat < 0x80 :=
    Nat.lt_of_le_of_lt (UInt32.le_iff_toNat_le.mp bounded) (by decide)
  simp [isWord, isAlphanumeric, ascii, alphanum]

theorem Text.isIdentifierPart_of_isIdentifierStart {c : Char}
    (starts : isIdentifierStart c = true) : isIdentifierPart c = true := by
  simp only [isIdentifierStart, Bool.or_eq_true, beq_iff_eq] at starts
  rcases starts with (letter | rfl) | rfl
  · have word : isWord c = true := isWord_of_isAlphanum (Bool.or_eq_true_iff.mpr (.inl letter))
    simp [isIdentifierPart, word]
  · rfl
  · rfl

namespace ClassStack

/-- Every open class has a name. -/
def Named (stack : ClassStack) : Prop :=
  ∀ entry ∈ stack.classes, entry.name ≠ ""

theorem isIdentifierStart_of_headerName? {text named : List Char}
    (found : headerName? text = some named) :
    named.head?.any Text.isIdentifierStart = true := by
  obtain ⟨behind, _, starts⟩ := Option.bind_eq_some_iff.mp found
  split at starts
  · cases starts
    assumption
  · cases starts

theorem isIdentifierStart_of_laterHeaderName? {text named : List Char}
    (found : laterHeaderName? text = some named) :
    named.head?.any Text.isIdentifierStart = true := by
  induction text with
  | nil => cases found
  | cons c rest ih =>
      rw [laterHeaderName?] at found
      split at found
      · rw [Option.orElse_eq_orElse, Option.orElse_eq_or, Option.or_eq_some_iff] at found
        rcases found with here | ⟨_, later⟩
        · exact isIdentifierStart_of_headerName? here
        · exact ih later
      · exact ih found

/-- The name that a header gives to its class is not empty. -/
theorem name_ne_nil_of_findHeader? {code before name behind : List Char}
    (found : findHeader? code = some (before, name, behind)) : name ≠ [] := by
  obtain ⟨named, header, parts⟩ := Option.map_eq_some_iff.mp found
  have starts : named.head?.any Text.isIdentifierStart = true := by
    rw [Option.orElse_eq_orElse, Option.orElse_eq_or, Option.or_eq_some_iff] at header
    rcases header with here | ⟨_, later⟩
    · exact isIdentifierStart_of_headerName? here
    · exact isIdentifierStart_of_laterHeaderName? later
  cases parts
  cases named with
  | nil => simp at starts
  | cons c rest =>
      have continues := Text.isIdentifierPart_of_isIdentifierStart
        (by simpa using starts : Text.isIdentifierStart c = true)
      simp [continues]

theorem forall_name_beginLine {p : String → Prop} {stack : ClassStack}
    (holds : ∀ entry ∈ stack.classes, p entry.name) {code : List Char}
    (header : ∀ before name behind, findHeader? code = some (before, name, behind) →
      p (String.ofList name)) :
    ∀ entry ∈ (stack.beginLine code).classes, p entry.name := by
  have settled : ∀ entry ∈ stack.classes.map fun entry => { entry with fresh := false },
      p entry.name := by
    intro entry entryMem
    obtain ⟨old, oldMem, rfl⟩ := List.mem_map.mp entryMem
    exact holds old oldMem
  rw [ClassStack.beginLine]
  cases found : findHeader? code with
  | none => exact settled
  | some parts =>
      obtain ⟨before, name, behind⟩ := parts
      intro entry entryMem
      rcases List.mem_cons.mp entryMem with rfl | old
      · exact header before name behind found
      · exact settled entry old

theorem forall_name_endLine {p : String → Prop} {stack : ClassStack}
    (holds : ∀ entry ∈ stack.classes, p entry.name) (opens closes : Nat) :
    ∀ entry ∈ (stack.endLine opens closes).classes, p entry.name := by
  intro entry entryMem
  have entered : entry ∈ enter opens stack.classes :=
    (List.dropWhile_sublist _).subset entryMem
  cases classes : stack.classes with
  | nil => simp [classes, enter] at entered
  | cons top rest =>
      rw [classes, enter] at entered
      rcases List.mem_cons.mp entered with rfl | old
      · exact holds top (by simp [classes])
      · exact holds entry (by simp [classes, old])

theorem forall_name_current {p : String → Prop} {stack : ClassStack}
    (holds : ∀ entry ∈ stack.classes, p entry.name) {className : String}
    (currentEq : stack.current = some className) : p className := by
  obtain ⟨entry, headEq, rfl⟩ := Option.map_eq_some_iff.mp currentEq
  exact holds entry (List.mem_of_mem_head? headEq)

theorem Named.beginLine {stack : ClassStack} (named : stack.Named) (code : List Char) :
    (stack.beginLine code).Named := by
  refine forall_name_beginLine (p := (· ≠ "")) named ?_
  intro before name behind found
  simpa using name_ne_nil_of_findHeader? found

theorem Named.endLine {stack : ClassStack} (named : stack.Named) (opens closes : Nat) :
    (stack.endLine opens closes).Named :=
  forall_name_endLine (p := (· ≠ "")) named opens closes

theorem Named.current_ne_empty {stack : ClassStack} (named : stack.Named) {className : String}
    (currentEq : stack.current = some className) : className ≠ "" :=
  forall_name_current (p := (· ≠ "")) named currentEq

end ClassStack

namespace Source

/-- What holds of the names of the open classes and of those that the lines' headers give holds
of the class of each line. -/
theorem forall_name_classesFrom {p : String → Prop} {stack : ClassStack}
    (holds : ∀ entry ∈ stack.classes, p entry.name) {lines : List CodeLine}
    (headers : ∀ line ∈ lines, ∀ before name behind,
      ClassStack.findHeader? line.code = some (before, name, behind) → p (String.ofList name))
    {className : String} (member : some className ∈ classesFrom stack lines) : p className := by
  induction lines generalizing stack with
  | nil => simp [classesFrom] at member
  | cons line lines ih =>
      have begun := ClassStack.forall_name_beginLine holds (headers line List.mem_cons_self)
      rw [classesFrom] at member
      rcases List.mem_cons.mp member with here | later
      · exact ClassStack.forall_name_current begun here.symm
      · exact ih (ClassStack.forall_name_endLine begun line.opens line.closes)
          (fun line lineMem => headers line (List.mem_cons_of_mem _ lineMem)) later

theorem mem_classesFrom {stack : ClassStack} (named : stack.Named) {lines : List CodeLine}
    {className : String} (member : some className ∈ classesFrom stack lines) :
    className ≠ "" := by
  refine forall_name_classesFrom (p := (· ≠ "")) named ?_ member
  intro line _ before name behind found
  simpa using ClassStack.name_ne_nil_of_findHeader? found

theorem mem_methodsOn {stack : ClassStack} {file : String} {index : Nat} {below : List Line}
    {places : List (Int × List Char)} {method : Method}
    (member : method ∈ (methodsOn stack file index below places).1) :
    method.file = file ∧ method.className = stack.current := by
  induction places with
  | nil => simp [methodsOn] at member
  | cons place places ih =>
      rw [methodsOn] at member
      split at member
      · split at member
        · exact ih member
        · split at member
          · exact ih member
          · split at member
            · rcases List.mem_cons.mp member with rfl | later
              · exact ⟨rfl, rfl⟩
              · exact ih later
            · rw [List.mem_singleton.mp member]
              exact ⟨rfl, rfl⟩
      · exact ih member

theorem mem_definitionsFrom {stack : ClassStack} (named : stack.Named) {file : String}
    {index skip : Nat} {lines : List CodeLine} {method : Method}
    (member : method ∈ definitionsFrom stack file index skip lines) :
    method.file = file ∧ method.HasClass := by
  induction lines generalizing stack index skip with
  | nil => simp [definitionsFrom] at member
  | cons line lines ih =>
      have begun := named.beginLine line.code
      have ended := begun.endLine line.opens line.closes
      rw [definitionsFrom] at member
      split at member
      · rename_i searched
        obtain ⟨className, currentEq⟩ :=
          Option.isSome_iff_exists.mp (Bool.and_eq_true_iff.mp searched).2
        rcases List.mem_append.mp member with here | later
        · have onLine : method ∈ (methodsOn (stack.beginLine line.code) file index
              (lines.map CodeLine.code) (segments line.code)).1 := here
          obtain ⟨fileEq, classEq⟩ := mem_methodsOn onLine
          exact ⟨fileEq, className, classEq.trans currentEq, begun.current_ne_empty currentEq⟩
        · exact ih ended later
      · exact ih ended member

theorem named_initial : ClassStack.Named {} := by
  intro entry entryMem
  cases entryMem

theorem file_of_mem_definitions {source : Source} {file : String} {method : Method}
    (member : method ∈ source.definitions file) : method.file = file :=
  (mem_definitionsFrom named_initial member).1

theorem hasClass_of_mem_definitions {source : Source} {file : String} {method : Method}
    (member : method ∈ source.definitions file) : method.HasClass :=
  (mem_definitionsFrom named_initial member).2

theorem methodBefore?_eq_some {source : Source} {classes : List (Option String)}
    {file : String} {count : Nat} {method : Method}
    (found : source.methodBefore? classes file count = some method) :
    method.file = file ∧ ∃ index < count, method.line = (index : Int) + 1 ∧
      method.className = (classes[index]?).join := by
  induction count with
  | zero => cases found
  | succ index ih =>
      rw [methodBefore?] at found
      split at found
      · cases found
        exact ⟨rfl, index, Nat.lt_add_one index, rfl, rfl⟩
      · obtain ⟨fileEq, above, aboveLt, rest⟩ := ih found
        exact ⟨fileEq, above, Nat.lt_succ_of_lt aboveLt, rest⟩

theorem file_of_methodAt {source : Source} {line : Int} {file : String} {method : Method}
    (found : source.methodAt line file = some method) : method.file = file :=
  (methodBefore?_eq_some found).1

theorem hasClass_of_methodAt {source : Source} {line : Int} {file : String} {method : Method}
    (found : source.methodAt line file = some method)
    (inClass : method.className.isNone = false) : method.HasClass := by
  obtain ⟨_, index, _, _, classEq⟩ := methodBefore?_eq_some found
  obtain ⟨className, someEq⟩ :=
    Option.isSome_iff_exists.mp (Option.isNone_eq_false_iff.mp inClass)
  have member : some className ∈ source.classes :=
    List.mem_of_getElem? (Option.join_eq_some_iff.mp (classEq.symm.trans someEq))
  exact ⟨className, someEq, mem_classesFrom named_initial member⟩

end Source
end CallTree
