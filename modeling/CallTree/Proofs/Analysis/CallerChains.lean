import CallTree.Proofs.Analysis.Outcome
import CallTree.Proofs.Walk.Reach
import Mathlib.Data.List.Chain

/-!
# Chains of callers

A chain of callers that is no longer than the tree is deep ends at a method in
the tree, unless one of the methods between its ends was met first on the last
level, at the end of a longer chain.  Such a method is never expanded, not even
where a shorter chain leads to it.
-/

namespace CallTree

open CallGraph

variable {corpus : Corpus} {root : Method}

/-- The method is met on the last level and expanded nowhere: a chain without
repetitions, as long as the tree is deep, leads to it. -/
structure Corpus.CutAtEnd (corpus : Corpus) (root : Method) (levels : Nat) (tree : Tree)
    (key : MethodKey) : Prop where
  shown : ∃ node ∈ tree.level levels, node.occurrence.key = key
  unexpanded : key ∉ tree.expanded
  detour : ∃ steps : List MethodKey, List.IsChain corpus.CalledBy (root.key :: steps) ∧
    (root.key :: steps).Nodup ∧ steps.length = levels ∧ (root.key :: steps).getLast? = some key

section Growth

variable {tree : Tree} {levels : Nat} {after : List MethodKey}

/-- The methods above a node form a chain of callers. -/
theorem isChain_of_descends (unambiguous : ∀ file ∈ corpus.files, corpus.Unambiguous file)
    {first last : Method} {methods : List Method}
    (descends : Descends corpus.callerGraph (corpus.callerGraph first) methods (.reach last)) :
    List.IsChain corpus.CalledBy (first.key :: (methods.map Method.key ++ [last.key])) := by
  have calledBy {method other : Method} (reached : .reach other ∈ corpus.callerGraph method) :
      corpus.CalledBy method.key other.key :=
    ⟨other, (Corpus.reach_mem_callerGraph_iff unambiguous).mp reached, rfl⟩
  induction methods generalizing first with
  | nil => exact List.isChain_pair.mpr (calledBy descends)
  | cons method methods ih =>
      exact List.isChain_cons_cons.mpr ⟨calledBy descends.1, ih descends.2⟩

theorem exists_reach_of_descends {branches : List Branch} {methods : List Method}
    {last : Branch} (start : ∀ branch ∈ branches, ∃ method, branch = .reach method)
    (descends : Descends corpus.callerGraph branches methods last) :
    ∃ method, last = .reach method := by
  induction methods generalizing branches with
  | nil => exact start last descends
  | cons method methods ih =>
      refine ih ?_ descends.2
      intro branch branchMem
      obtain ⟨other, _, rfl⟩ := List.mem_map.mp branchMem
      exact ⟨other, rfl⟩

/-- Every caller of the method of an expanded node stands one level below it, and
is expanded somewhere unless that is the last level. -/
theorem exists_caller (unambiguous : ∀ file ∈ corpus.files, corpus.Unambiguous file)
    (grows : corpus.callerGraph.Grows levels [] [.reach root] [tree] after)
    {depth : Nat} {node : Tree} (nodeMem : node ∈ tree.level depth)
    (inside : node.occurrence.external = false) {caller : MethodKey}
    (called : corpus.CalledBy node.occurrence.key caller) :
    ∃ child ∈ tree.level (depth + 1), child.occurrence.key = caller ∧
      (caller ∈ tree.expanded ∨ depth + 1 = levels) := by
  obtain ⟨method, hasClass, nodeEq, _, reaches⟩ := grows.exists_children nodeMem inside
  rw [nodeEq, Occurrence.key_ofMethod hasClass] at called
  obtain ⟨other, otherMem, rfl⟩ := called
  exact reaches other ((Corpus.reach_mem_callerGraph_iff unambiguous).mpr otherMem)

theorem cutAtEnd_of_mem_level (unambiguous : ∀ file ∈ corpus.files, corpus.Unambiguous file)
    (grows : corpus.callerGraph.Grows (levels + 1) [] [.reach root] [tree] after) {node : Tree}
    (nodeMem : node ∈ tree.level (levels + 1))
    (unexpanded : node.occurrence.key ∉ tree.expanded) :
    corpus.CutAtEnd root (levels + 1) tree node.occurrence.key := by
  obtain ⟨methods, branch, lengthEq, route, stands⟩ :=
    grows.exists_route (List.mem_singleton.mpr rfl) nodeMem
  obtain ⟨last, rfl⟩ := exists_reach_of_descends
    (fun branch branchMem => ⟨root, List.mem_singleton.mp branchMem⟩) route.descends
  have keyEq : node.occurrence.key = last.key := stands.key_eq
  obtain ⟨first, rest, rfl⟩ := List.exists_cons_of_length_eq_add_one lengthEq
  cases List.mem_singleton.mp route.descends.1
  refine ⟨⟨node, nodeMem, rfl⟩, unexpanded, rest.map Method.key ++ [last.key],
    isChain_of_descends unambiguous route.descends.2, ?_, by simpa using lengthEq, by
      rw [keyEq, ← List.cons_append, List.getLast?_concat]⟩
  -- The methods above are expanded, so the last one is none of them.
  have apart : last.key ∉ (root :: rest).map Method.key := by
    intro keyMem
    obtain ⟨method, methodMem, sameKey⟩ := List.mem_map.mp keyMem
    apply unexpanded
    rw [keyEq, ← sameKey]
    exact grows.perm_expanded.mem_iff.mp (route.known method methodMem)
  rw [← List.cons_append, ← List.map_cons]
  exact List.nodup_append.mpr ⟨route.distinct, List.nodup_singleton _, by
    intro key keyMem other otherMem
    rw [List.mem_singleton.mp otherMem]
    rintro rfl
    exact apart keyMem⟩

/-- A chain of callers from an expanded method ends at a method in the tree, or
one of those before its end is cut. -/
theorem exists_mem_preorder_or_cutAtEnd
    (unambiguous : ∀ file ∈ corpus.files, corpus.Unambiguous file)
    (grows : corpus.callerGraph.Grows (levels + 1) [] [.reach root] [tree] after)
    {target caller : MethodKey} {steps : List MethodKey} (expanded : target ∈ tree.expanded)
    (linked : List.IsChain corpus.CalledBy (target :: steps))
    (ends : (target :: steps).getLast? = some caller) :
    (∃ occurrence ∈ tree.preorder, occurrence.key = caller) ∨
    ∃ index key, index + 1 < steps.length ∧ steps[index]? = some key ∧
      corpus.CutAtEnd root (levels + 1) tree key := by
  induction steps generalizing target with
  | nil =>
      cases ends
      obtain ⟨depth, node, nodeMem, _, keyEq⟩ := Tree.mem_expanded_iff.mp expanded
      exact .inl ⟨node.occurrence, Tree.mem_preorder_iff.mpr ⟨depth, node, nodeMem, rfl⟩, keyEq⟩
  | cons next steps ih =>
      obtain ⟨called, rest⟩ := List.isChain_cons_cons.mp linked
      rw [List.getLast?_cons_cons] at ends
      obtain ⟨depth, node, nodeMem, inside, rfl⟩ := Tree.mem_expanded_iff.mp expanded
      obtain ⟨child, childMem, rfl, placed⟩ := exists_caller unambiguous grows nodeMem inside called
      by_cases childExpanded : child.occurrence.key ∈ tree.expanded
      · rcases ih childExpanded rest ends with appears | ⟨index, key, before, keyAt, cut⟩
        · exact .inl appears
        · exact .inr ⟨index + 1, key, Nat.add_lt_add_right before 1, keyAt, cut⟩
      · -- The child was stopped on the last level, which only matters if the chain goes on.
        rw [placed.resolve_left childExpanded] at childMem
        cases steps with
        | nil =>
            cases ends
            exact .inl ⟨child.occurrence,
              Tree.mem_preorder_iff.mpr ⟨_, child, childMem, rfl⟩, rfl⟩
        | cons _ _ =>
            exact .inr ⟨0, child.occurrence.key, by simp, rfl,
              cutAtEnd_of_mem_level unambiguous grows childMem childExpanded⟩

theorem mem_expanded_of_calledBy_root
    (unambiguous : ∀ file ∈ corpus.files, corpus.Unambiguous file)
    (grows : corpus.callerGraph.Grows (levels + 2) [] [.reach root] [tree] after)
    {caller : MethodKey} (called : corpus.CalledBy root.key caller) :
    caller ∈ tree.expanded := by
  obtain ⟨hasClass, children, rfl⟩ := grows.root_eq
  rw [← Occurrence.key_ofMethod hasClass false] at called
  obtain ⟨_, _, _, expanded | atEnd⟩ :=
    exists_caller unambiguous grows (Tree.mem_level_zero.mpr rfl) rfl called
  · exact expanded
  · omega

theorem exists_mem_preorder_root
    (grows : corpus.callerGraph.Grows levels [] [.reach root] [tree] after) :
    ∃ occurrence ∈ tree.preorder, occurrence.key = root.key := by
  obtain ⟨node, nodeMem, stands⟩ := grows.exists_stands (List.mem_singleton.mpr rfl)
  cases List.mem_singleton.mp nodeMem
  have rootMem := Tree.mem_level_zero.mpr (rfl : tree = tree)
  exact ⟨tree.occurrence, Tree.mem_preorder_iff.mpr ⟨0, tree, rootMem, rfl⟩, stands.key_eq⟩

/-- A chain of callers from the root that is no longer than the tree is deep ends
at a method in the tree, or one of those before its end is cut.  The first is
never cut there, since a longer chain has two levels to go through. -/
theorem exists_mem_preorder_or_cutAtEnd_of_length_le
    (unambiguous : ∀ file ∈ corpus.files, corpus.Unambiguous file)
    (grows : corpus.callerGraph.Grows levels [] [.reach root] [tree] after)
    {steps : List MethodKey} {caller : MethodKey}
    (linked : List.IsChain corpus.CalledBy (root.key :: steps))
    (ends : (root.key :: steps).getLast? = some caller) (fits : steps.length ≤ levels) :
    (∃ occurrence ∈ tree.preorder, occurrence.key = caller) ∨
    ∃ index key, 0 < index ∧ index + 1 < steps.length ∧ steps[index]? = some key ∧
      corpus.CutAtEnd root levels tree key := by
  cases steps with
  | nil =>
      cases ends
      exact .inl (exists_mem_preorder_root grows)
  | cons first steps =>
      cases levels with
      | zero => cases fits
      | succ levels =>
          rcases exists_mem_preorder_or_cutAtEnd unambiguous grows grows.root_mem_expanded
            linked ends with appears | ⟨index, key, before, keyAt, cut⟩
          · exact .inl appears
          · refine .inr ⟨index, key, ?_, before, keyAt, cut⟩
            rw [Nat.pos_iff_ne_zero]
            rintro rfl
            cases keyAt
            obtain ⟨further, rfl⟩ : ∃ further, levels = further + 1 := by
              rw [List.length_cons] at before fits
              exact Nat.exists_eq_add_one.mpr (by omega)
            have called := (List.isChain_cons_cons.mp linked).1
            exact cut.unexpanded (mem_expanded_of_calledBy_root unambiguous grows called)

end Growth

namespace Analysis

variable {project : Project} {configuration : Configuration} {metrics : Metrics}
variable {cursor : Cursor} {direction : Option String} {chain : Chain}

/-- A chain of callers with fewer steps than the configured depth ends at a method
in the returned tree, unless a method between its ends, at least two steps from
the root, is cut on the last level. -/
theorem exists_mem_preorder_of_isChain
    (returned : (run project configuration metrics cursor direction).result =
      .ok (some chain))
    (upward : chain.direction = .up)
    (seen : cursor.corpus? project configuration = some corpus)
    (found : corpus.methodAt cursor.line = some root)
    (unambiguous : ∀ file ∈ corpus.files, corpus.Unambiguous file)
    {steps : List MethodKey} {caller : MethodKey}
    (linked : List.IsChain corpus.CalledBy (root.key :: steps))
    (ends : (root.key :: steps).getLast? = some caller)
    (short : (steps.length : Int) ≤ configuration.maxDepth - 1) :
    (∃ occurrence ∈ chain.root.preorder, occurrence.key = caller) ∨
    ∃ index key, 0 < index ∧ index + 1 < steps.length ∧ steps[index]? = some key ∧
      corpus.CutAtEnd root (levels configuration) chain.root key := by
  obtain ⟨after, grows⟩ := exists_growth_of_found returned seen found
  rw [upward, Corpus.graph] at grows
  have fits : steps.length ≤ levels configuration := by
    rw [levels]
    omega
  exact exists_mem_preorder_or_cutAtEnd_of_length_le unambiguous grows linked ends fits

/-- The text of a class where a longer chain leads to `b` before a shorter one. -/
def detourText : String :=
  classText "A" ["void r() { }", "void a() { r(); }", "void b() { a(); r(); }",
    "void c() { b(); }", "void d() { c(); }"]

def detour : Project :=
  MemoryProject.toProject { files := [("A.java", detourText)] }

/-- What an analysis of the detour sees. -/
def detourCorpus : Corpus where
  project := detour
  rules := rules { maxDepth := 4 }
  file := "A.java"
  text := detourText.toList

/-- The key of a method of the detour. -/
def detourKey (name : String) : MethodKey where
  file := "A.java"
  className := "A"
  name

theorem unambiguous_detour : ∀ file ∈ detourCorpus.files, detourCorpus.Unambiguous file := by
  decide +kernel

/-- The method `d` calls `c`, which calls `b`, which calls `r`. -/
theorem isChain_detour : List.IsChain detourCorpus.CalledBy
    [detourKey "r", detourKey "b", detourKey "c", detourKey "d"] := by
  decide +kernel

theorem exists_methodAt_detour :
    ∃ root, detourCorpus.methodAt 1 = some root ∧ root.key = detourKey "r" := by
  have keyEq : (detourCorpus.methodAt 1).map Method.key = some (detourKey "r") := by
    decide +kernel
  exact Option.map_eq_some_iff.mp keyEq

/-- The analysis of `r` returns a tree that leads up and misses `d`. -/
theorem exists_chain_detour :
    ∃ chain, (run detour { maxDepth := 4 } {} { file := "A.java", line := 1 }
        (some "up")).result = .ok (some chain) ∧
      chain.direction = .up ∧
      ¬ ∃ occurrence ∈ chain.root.preorder, occurrence.key = detourKey "d" := by
  have passes : (run detour { maxDepth := 4 } {} { file := "A.java", line := 1 }
      (some "up")).returns (fun chain => chain.direction == .up &&
        chain.root.preorder.all fun occurrence => occurrence.key != detourKey "d") = true := by
    decide +kernel
  obtain ⟨chain, returned, tested⟩ := exists_chain_of_returns passes
  simp only [Bool.and_eq_true, beq_iff_eq, List.all_eq_true, bne_iff_ne] at tested
  refine ⟨chain, returned, tested.1, ?_⟩
  rintro ⟨occurrence, occurrenceMem, keyEq⟩
  exact tested.2 occurrence occurrenceMem keyEq

/-- In the tree above `r` the chain from `d` is broken: a method on it, not the
first, is cut on the last level. -/
theorem exists_cutAtEnd_detour :
    ∃ chain root, (run detour { maxDepth := 4 } {} { file := "A.java", line := 1 }
        (some "up")).result = .ok (some chain) ∧
      detourCorpus.methodAt 1 = some root ∧
      ∃ index key, 0 < index ∧ index + 1 < 3 ∧
        [detourKey "b", detourKey "c", detourKey "d"][index]? = some key ∧
        detourCorpus.CutAtEnd root 3 chain.root key := by
  obtain ⟨chain, returned, upward, missed⟩ := exists_chain_detour
  obtain ⟨root, found, keyEq⟩ := exists_methodAt_detour
  have linked := isChain_detour
  rw [← keyEq] at linked
  refine ⟨chain, root, returned, found, ?_⟩
  exact (exists_mem_preorder_of_isChain returned upward rfl found unambiguous_detour linked rfl
    (by decide)).resolve_left missed

/-- Not every chain of callers with fewer steps than the configured depth ends at
a method in the returned tree. -/
theorem not_exists_mem_preorder_of_isChain :
    ¬ ∀ (project : Project) (configuration : Configuration) (metrics : Metrics)
        (cursor : Cursor) (direction : Option String) (chain : Chain) (corpus : Corpus)
        (root : Method) (steps : List MethodKey) (caller : MethodKey),
      (run project configuration metrics cursor direction).result = .ok (some chain) →
      chain.direction = .up → cursor.corpus? project configuration = some corpus →
      corpus.methodAt cursor.line = some root →
      (∀ file ∈ corpus.files, corpus.Unambiguous file) → 1 ≤ configuration.maxDepth →
      List.IsChain corpus.CalledBy (root.key :: steps) →
      (root.key :: steps).getLast? = some caller →
      (steps.length : Int) ≤ configuration.maxDepth - 1 →
      ∃ occurrence ∈ chain.root.preorder, occurrence.key = caller := by
  intro always
  obtain ⟨chain, returned, upward, missed⟩ := exists_chain_detour
  obtain ⟨root, found, keyEq⟩ := exists_methodAt_detour
  have linked := isChain_detour
  rw [← keyEq] at linked
  exact missed (always detour { maxDepth := 4 } {} { file := "A.java", line := 1 } (some "up")
    chain detourCorpus root _ _ returned upward rfl found unambiguous_detour (by decide)
    linked rfl (by decide))

end Analysis
end CallTree
