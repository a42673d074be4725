import CallTree.Proofs.Analysis.Outcome
import CallTree.Proofs.Call.Texts
import CallTree.Proofs.Declaration.Heads
import CallTree.Proofs.Source.Agreement
import CallTree.Proofs.Tree.Identity

/-!
# Names in call trees

A class has the name in its header, a method the name in its declaration, and a
call that leads nowhere the words around its dot.  All of these are identifiers,
in which neither dots nor colons stand, and a walk makes no other names.  So the
nodes of a returned tree have plain names.
-/

namespace CallTree

namespace Declaration

theorem IsName.not_mem {name : List Char} (isName : IsName name) {c : Char}
    (outside : Text.isIdentifierPart c = false) : c ∉ name := by
  intro member
  have inside := isName.parts c member
  rw [outside] at inside
  cases inside

theorem isName_of_isWord {word : List Char} (isWord : CallSite.IsWord word) : IsName word where
  nonempty := isWord.1
  parts := by
    intro c member
    rw [Text.isIdentifierPart, isWord.2 c member, Bool.true_or]

end Declaration

open Declaration (IsName)

/-- The names of a method are identifiers. -/
structure Method.IsNamed (method : Method) : Prop where
  name : IsName method.name.toList
  className : ∀ className, method.className = some className → IsName className.toList

/-- The words of a call are identifiers. -/
structure CallSite.IsNamed (site : CallSite) : Prop where
  callee : IsName site.callee.toList
  receiver : ∀ receiver, site.receiver = some receiver → IsName receiver.toList

namespace Occurrence

theorem hasPlainNames_of_isName {occurrence : Occurrence}
    (method : IsName occurrence.method.toList) (className : IsName occurrence.className.toList) :
    occurrence.HasPlainNames where
  dot_method := method.not_mem (by decide)
  colon_method := method.not_mem (by decide)
  colon_className := className.not_mem (by decide)

/-- The class of an occurrence is the one given, or else the unknown one. -/
theorem isName_or_unknownClass {className : Option String} :
    (∀ name, className = some name → IsName name.toList) →
      IsName (String.toList (match className with
        | some name => if name == "" then unknownClass else name
        | none => unknownClass)) := by
  intro named
  have unknown : IsName unknownClass.toList :=
    ⟨by decide, List.all_eq_true.mp (by decide)⟩
  cases className with
  | none => exact unknown
  | some name =>
      dsimp only
      split
      · exact unknown
      · exact named name rfl

theorem hasPlainNames_ofMethod {method : Method} (named : method.IsNamed) (external : Bool) :
    (ofMethod method external).HasPlainNames :=
  hasPlainNames_of_isName named.name (isName_or_unknownClass named.className)

theorem hasPlainNames_unresolved {site : CallSite} (named : site.IsNamed) :
    (unresolved site).HasPlainNames :=
  hasPlainNames_of_isName named.callee (isName_or_unknownClass named.receiver)

end Occurrence

theorem ClassStack.isName_of_findHeader? {code before name behind : List Char}
    (found : findHeader? code = some (before, name, behind)) : IsName name where
  nonempty := name_ne_nil_of_findHeader? found
  parts := by
    obtain ⟨_, _, parts⟩ := Option.map_eq_some_iff.mp found
    cases parts
    intro c member
    exact List.mem_takeWhile_imp member

namespace Source

variable {source : Source} {file : String} {method : Method}

theorem isName_of_mem_classes {className : String} (member : some className ∈ source.classes) :
    IsName className.toList := by
  refine forall_name_classesFrom (p := fun className => IsName className.toList) ?_ ?_ member
  · intro entry entryMem
    cases entryMem
  · intro line _ before name behind found
    rw [String.toList_ofList]
    exact ClassStack.isName_of_findHeader? found

theorem isNamed_of_mem_definitions (member : method ∈ source.definitions file) :
    method.IsNamed := by
  obtain ⟨origin⟩ := exists_origin_of_mem_definitions member
  rw [origin.method_eq]
  constructor
  · exact (Declaration.named_of_parse? origin.declares.parse_eq).1
  · intro className classEq
    have lineClass : source.classes[origin.offset]? = some (some className) :=
      origin.class_eq.trans (congrArg some classEq)
    exact isName_of_mem_classes (List.mem_of_getElem? lineClass)

theorem isName_of_declarationOn? {className : Option String} {lines : List CodeLine}
    {declaration : Declaration} (found : declarationOn? className lines = some declaration) :
    IsName declaration.name.toList := by
  cases lines with
  | nil => cases found
  | cons line below =>
      rw [declarationOn?] at found
      split at found
      · cases found
      · obtain ⟨place, _, read⟩ := List.exists_of_findSome?_eq_some found
        obtain ⟨signature, _, parsed⟩ := Option.bind_eq_some_iff.mp read
        exact (Declaration.named_of_parse? parsed).1

theorem isName_of_methodBefore? {classes : List (Option String)} {count : Nat}
    (found : source.methodBefore? classes file count = some method) :
    IsName method.name.toList := by
  induction count with
  | zero => cases found
  | succ index ih =>
      rw [methodBefore?] at found
      split at found
      · rename_i declaration declared
        cases found
        exact isName_of_declarationOn? declared
      · exact ih found

theorem isNamed_of_methodAt {line : Int} (found : source.methodAt line file = some method) :
    method.IsNamed := by
  constructor
  · exact isName_of_methodBefore? found
  · intro className classEq
    obtain ⟨_, index, _, _, joined⟩ := methodBefore?_eq_some found
    have lineClass : source.classes[index]? = some (some className) :=
      Option.join_eq_some_iff.mp (joined.symm.trans classEq)
    exact isName_of_mem_classes (List.mem_of_getElem? lineClass)

end Source

namespace CallSite

variable {site : CallSite}

theorem isNamed_of_mem_onLine {line : Line} {number : Int} (member : site ∈ onLine line number) :
    site.IsNamed := by
  have bare {callee : List Char} (called : callee ∈ bareCalls line) :
      IsNamed { callee := String.ofList callee, line := number } := by
    obtain ⟨⟨_, _, _, _, found⟩, _⟩ := mem_bareCalls_iff.mp called
    obtain ⟨isWord, _⟩ := calledWord?_eq_some_iff.mp found
    exact ⟨by simpa using Declaration.isName_of_isWord isWord, by simp⟩
  have qualified {receiver callee rest : List Char}
      (found : qualifiedCall? rest = some (receiver, callee)) :
      IsNamed { callee := String.ofList callee, receiver := some (String.ofList receiver),
                line := number } := by
    obtain ⟨receiverWord, calleeWord, _⟩ := qualifiedCall?_eq_some_iff.mp found
    exact ⟨by simpa using Declaration.isName_of_isWord calleeWord,
      by simpa using Declaration.isName_of_isWord receiverWord⟩
  simp only [onLine, List.mem_append, List.mem_map, Prod.exists] at member
  rcases member with ((⟨_, _, called, rfl⟩ | ⟨_, _, called, rfl⟩) | ⟨_, called, rfl⟩) |
    ⟨_, called, rfl⟩
  · obtain ⟨⟨_, _, _, _, found⟩, _⟩ := mem_qualifiedCalls_iff.mp called
    exact qualified found
  · obtain ⟨⟨before, rest⟩, _, found⟩ := List.mem_filterMap.mp called
    dsimp only at found
    split at found
    · exact qualified found
    · cases found
  · exact bare called
  · exact bare (mem_bareCalls_of_mem_constructions called)

theorem isNamed_of_mem_between {lines : List Line} {start firstColumn : Int}
    {last : Option Int} (member : site ∈ between lines start last firstColumn) :
    site.IsNamed := by
  rw [between] at member
  dsimp only at member
  split at member
  · cases member
  · obtain ⟨_, _, _, _, onLine⟩ := mem_onLines_iff.mp member
    exact isNamed_of_mem_onLine onLine

end CallSite

theorem Reading.isNamed_of_mem_sites {reading : Reading} {method : Method} {site : CallSite}
    (member : site ∈ reading.sites method) : site.IsNamed := by
  rw [sites] at member
  split at member
  · exact CallSite.isNamed_of_mem_between member
  · exact CallSite.isNamed_of_mem_between member

namespace Corpus

variable {corpus : Corpus} {method : Method}

theorem isNamed_of_mem_definitions {file : String} (member : method ∈ corpus.definitions file) :
    method.IsNamed := by
  rw [definitions] at member
  split at member
  · exact Source.isNamed_of_mem_definitions member
  · cases member

theorem isNamed_of_mem_sites {site : CallSite} (member : site ∈ corpus.sites method) :
    site.IsNamed := by
  rw [sites] at member
  split at member
  · exact Reading.isNamed_of_mem_sites member
  · cases member

/-- Whatever a method leads to has plain names. -/
theorem hasPlainNames_of_mem_graph {direction : Direction} {branch : Branch}
    (member : branch ∈ corpus.graph direction method) : branch.occurrence.HasPlainNames := by
  cases direction with
  | up =>
      obtain ⟨caller, callerMem, rfl⟩ := List.mem_map.mp member
      obtain ⟨_, _, defined, _⟩ := mem_countedCallers_iff.mp callerMem
      exact Occurrence.hasPlainNames_ofMethod (isNamed_of_mem_definitions defined) true
  | down =>
      obtain ⟨site, siteMem, rfl⟩ := List.mem_map.mp member
      rw [branch]
      split
      · rename_i callee resolved
        obtain ⟨defined, _⟩ := mem_definitions_of_resolve? resolved
        exact Occurrence.hasPlainNames_ofMethod (isNamed_of_mem_definitions defined) true
      · exact Occurrence.hasPlainNames_unresolved (isNamed_of_mem_sites siteMem)

end Corpus

/-- A returned tree has plain names. -/
theorem Analysis.hasPlainNames_of_run {project : Project} {configuration : Configuration}
    {metrics : Metrics} {cursor : Cursor} {direction : Option String} {chain : Chain}
    (returned : (run project configuration metrics cursor direction).result =
      .ok (some chain)) :
    chain.root.HasPlainNames := by
  intro occurrence member
  obtain ⟨corpus, root, _, _, found, _, grows⟩ := exists_growth returned
  have rootPlain := Occurrence.hasPlainNames_ofMethod (Source.isNamed_of_methodAt found) true
  have below : occurrence ∈ Tree.preorderBelow [chain.root] := by
    rwa [Tree.preorderBelow, Tree.preorderBelow, List.append_nil]
  obtain ⟨branch, plain, same⟩ := grows.exists_branch_of_mem_preorderBelow
    (fun branch => branch.occurrence.HasPlainNames)
    (fun _ _ _ => Corpus.hasPlainNames_of_mem_graph)
    (List.forall_mem_singleton.mpr rootPlain) occurrence below
  rw [← same] at plain
  exact ⟨plain.dot_method, plain.colon_method, plain.colon_className⟩

end CallTree
