import CallTree.Proofs.Analysis.Outcome
import CallTree.Proofs.Walk.Reach

/-!
# Edges of trees of callers

The children of an expanded node, in a tree that leads up, are the definitions
that count as callers of its method, in the order of the listing.  A definition
counts by the body of the first definition with its key, so an overload is left
out or taken in by what the first of its kind does.
-/

namespace CallTree

/-- Lists of methods that show the same occurrences have the same members. -/
theorem Occurrence.mem_of_map_eq {first second : List Method} {external : Bool}
    (mapEq : first.map (ofMethod · external) = second.map (ofMethod · external))
    (secondHasClass : ∀ other ∈ second, other.HasClass) {method : Method}
    (hasClass : method.HasClass) (member : method ∈ first) : method ∈ second := by
  have shown : ofMethod method external ∈ first.map (ofMethod · external) :=
    List.mem_map_of_mem member
  rw [mapEq] at shown
  obtain ⟨other, otherMem, occurrenceEq⟩ := List.mem_map.mp shown
  rwa [← ofMethod_injective (secondHasClass other otherMem) hasClass occurrenceEq]

namespace Corpus

theorem hasClass_of_mem_countedCallers {corpus : Corpus} {key : MethodKey} {method : Method}
    (member : method ∈ corpus.countedCallers key) : method.HasClass := by
  obtain ⟨_, _, defined, _⟩ := mem_countedCallers_iff.mp member
  exact hasClass_of_mem_definitions defined

/-- The counted callers are the callers exactly where every definition counts by
what it does itself. -/
theorem map_countedCallers_eq_iff {corpus : Corpus} {key : MethodKey} :
    (corpus.countedCallers key).map (Occurrence.ofMethod · true) =
        (corpus.callersOf key).map (Occurrence.ofMethod · true) ↔
      ∀ file ∈ corpus.files, ∀ method ∈ corpus.definitions file,
        corpus.countsAsCaller key method = corpus.calls key method := by
  constructor
  · intro mapEq file fileMem method methodMem
    have hasClass := hasClass_of_mem_definitions methodMem
    rw [Bool.eq_iff_iff]
    constructor
    · intro counts
      have member := Occurrence.mem_of_map_eq mapEq (fun _ => hasClass_of_mem_callersOf) hasClass
        (mem_countedCallers_iff.mpr ⟨file, fileMem, methodMem, counts⟩)
      obtain ⟨_, _, _, calls⟩ := mem_callersOf_iff.mp member
      exact calls
    · intro calls
      have member := Occurrence.mem_of_map_eq mapEq.symm
        (fun _ => hasClass_of_mem_countedCallers) hasClass
        (mem_callersOf_iff.mpr ⟨file, fileMem, methodMem, calls⟩)
      obtain ⟨_, _, _, counts⟩ := mem_countedCallers_iff.mp member
      exact counts
  · intro agrees
    congr 1
    apply List.flatMap_congr
    intro file fileMem
    apply List.filter_congr
    exact agrees file fileMem

end Corpus

namespace Analysis

variable {project : Project} {configuration : Configuration} {metrics : Metrics}
variable {cursor : Cursor} {direction : Option String} {chain : Chain} {corpus : Corpus}

theorem children_eq_countedCallers
    (returned : (run project configuration metrics cursor direction).result =
      .ok (some chain))
    (upward : chain.direction = .up)
    (seen : cursor.corpus? project configuration = some corpus) {depth : Nat} {node : Tree}
    (nodeMem : node ∈ chain.root.level depth) (inside : node.occurrence.external = false) :
    (node.children.map fun child => child.occurrence.asLeaf) =
      (corpus.countedCallers node.occurrence.key).map (Occurrence.ofMethod · true) := by
  obtain ⟨same, root, after, sameSeen, _, _, grows⟩ := exists_growth returned
  cases sameSeen.symm.trans seen
  rw [upward] at grows
  obtain ⟨method, hasClass, nodeEq, childrenEq, _⟩ := grows.exists_children nodeMem inside
  rw [childrenEq, nodeEq, Occurrence.key_ofMethod hasClass]
  simp only [Corpus.graph, Corpus.callerGraph, List.map_map]
  rfl

/-- The children of an expanded node are the definitions that count as callers
of its method, in order.  They are the definitions whose own bodies call it
exactly when every definition, of all listed files, counts by its own body. -/
theorem children_eq_callersOf_iff
    (returned : (run project configuration metrics cursor direction).result =
      .ok (some chain))
    (upward : chain.direction = .up)
    (seen : cursor.corpus? project configuration = some corpus) {depth : Nat} {node : Tree}
    (nodeMem : node ∈ chain.root.level depth) (inside : node.occurrence.external = false) :
    (node.children.map fun child => child.occurrence.asLeaf) =
        (corpus.countedCallers node.occurrence.key).map (Occurrence.ofMethod · true) ∧
    ((node.children.map fun child => child.occurrence.asLeaf) =
        (corpus.callersOf node.occurrence.key).map (Occurrence.ofMethod · true) ↔
      ∀ file ∈ corpus.files, ∀ method ∈ corpus.definitions file,
        corpus.calls node.occurrence.key (corpus.firstLike method) =
          corpus.calls node.occurrence.key method) := by
  have childrenEq := children_eq_countedCallers returned upward seen nodeMem inside
  refine ⟨childrenEq, ?_⟩
  rw [childrenEq]
  exact Corpus.map_countedCallers_eq_iff

/-- The text of a class where only the second of two overloads calls `t`. -/
def overloadsText : String :=
  classText "A" ["void t() { }", "void f() { }", "void f(int x) { t(); }"]

def overloads : Project :=
  MemoryProject.toProject { files := [("A.java", overloadsText)] }

/-- What an analysis of the overloads sees. -/
def overloadsCorpus : Corpus where
  project := overloads
  rules := rules {}
  file := "A.java"
  text := overloadsText.toList

/-- The analysis of `t` returns a tree that leads up, and whose root misses the
caller. -/
theorem exists_chain_overloads :
    ∃ chain, (run overloads {} {} { file := "A.java", line := 1 } (some "up")).result =
        .ok (some chain) ∧
      chain.direction = .up ∧ chain.root.occurrence.external = false ∧
      (chain.root.children.map fun child => child.occurrence.asLeaf) ≠
        (overloadsCorpus.callersOf chain.root.occurrence.key).map
          (Occurrence.ofMethod · true) := by
  have passes : (run overloads {} {} { file := "A.java", line := 1 } (some "up")).returns
      (fun chain => chain.direction == .up && !chain.root.occurrence.external &&
        (chain.root.children.map fun child => child.occurrence.asLeaf) !=
          (overloadsCorpus.callersOf chain.root.occurrence.key).map
            (Occurrence.ofMethod · true)) = true := by
    decide +kernel
  obtain ⟨chain, returned, tested⟩ := exists_chain_of_returns passes
  simp only [Bool.and_eq_true, beq_iff_eq, Bool.not_eq_true', bne_iff_ne] at tested
  exact ⟨chain, returned, tested.1.1, tested.1.2, tested.2⟩

/-- The overload that calls `t` is left out of its callers: some definition does
not count by what it does itself. -/
theorem overloads_children_eq_iff :
    ∃ chain, (run overloads {} {} { file := "A.java", line := 1 } (some "up")).result =
        .ok (some chain) ∧
      (chain.root.children.map fun child => child.occurrence.asLeaf) =
        (overloadsCorpus.countedCallers chain.root.occurrence.key).map
          (Occurrence.ofMethod · true) ∧
      ¬ ∀ file ∈ overloadsCorpus.files, ∀ method ∈ overloadsCorpus.definitions file,
        overloadsCorpus.calls chain.root.occurrence.key (overloadsCorpus.firstLike method) =
          overloadsCorpus.calls chain.root.occurrence.key method := by
  obtain ⟨chain, returned, upward, inside, missed⟩ := exists_chain_overloads
  have seen : Cursor.corpus? { file := "A.java", line := 1 } overloads {} =
      some overloadsCorpus := rfl
  obtain ⟨childrenEq, exactIff⟩ := children_eq_callersOf_iff returned upward seen
    (Tree.mem_level_zero.mpr rfl) inside
  exact ⟨chain, returned, childrenEq, fun agrees => missed (exactIff.mpr agrees)⟩

/-- Not every returned tree shows, below an expanded node, the definitions whose
own bodies call its method. -/
theorem not_children_eq_callersOf :
    ¬ ∀ (project : Project) (configuration : Configuration) (metrics : Metrics)
        (cursor : Cursor) (direction : Option String) (chain : Chain) (corpus : Corpus)
        (depth : Nat) (node : Tree),
      (run project configuration metrics cursor direction).result = .ok (some chain) →
      chain.direction = .up → cursor.corpus? project configuration = some corpus →
      node ∈ chain.root.level depth → node.occurrence.external = false →
      (node.children.map fun child => child.occurrence.asLeaf) =
        (corpus.callersOf node.occurrence.key).map (Occurrence.ofMethod · true) := by
  intro always
  obtain ⟨chain, returned, upward, inside, missed⟩ := exists_chain_overloads
  exact missed (always overloads {} {} { file := "A.java", line := 1 } (some "up") chain
    overloadsCorpus 0 chain.root returned upward rfl (Tree.mem_level_zero.mpr rfl) inside)

end Analysis
end CallTree
