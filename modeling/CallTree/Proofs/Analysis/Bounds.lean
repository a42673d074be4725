import CallTree.Proofs.Analysis.Outcome

/-!
# Bounds of returned trees

Whatever a project holds, the tree that an analysis returns is no deeper than
configured, has no nodes below those that were not expanded, and expands no
method twice.
-/

namespace CallTree
namespace Analysis

variable {project : Project} {configuration : Configuration} {metrics : Metrics}
variable {cursor : Cursor} {direction : Option String} {chain : Chain}

theorem depth_le_maxDepth
    (returned : (run project configuration metrics cursor direction).result =
      .ok (some chain)) :
    (chain.root.depth : Int) ≤ max 1 configuration.maxDepth := by
  obtain ⟨_, _, _, _, _, _, grows⟩ := exists_growth returned
  have bounded := grows.depth_le chain.root (List.mem_singleton.mpr rfl)
  rw [levels] at bounded
  omega

theorem children_eq_nil_of_external
    (returned : (run project configuration metrics cursor direction).result =
      .ok (some chain))
    {depth : Nat} {node : Tree} (nodeMem : node ∈ chain.root.level depth)
    (external : node.occurrence.external = true) : node.children = [] := by
  obtain ⟨_, _, _, _, _, _, grows⟩ := exists_growth returned
  obtain ⟨_, _, _, _, stands⟩ :=
    grows.exists_route (List.mem_singleton.mpr rfl) nodeMem
  exact stands.children_eq_nil external

theorem expanded_nodup
    (returned : (run project configuration metrics cursor direction).result =
      .ok (some chain)) :
    chain.root.expanded.Nodup := by
  obtain ⟨_, _, _, _, _, _, grows⟩ := exists_growth returned
  exact grows.nodup_expanded

/-- A returned tree keeps to the configured depth, ends at nodes that were not
expanded, and expands every method at most once, also where methods call each
other in a circle. -/
theorem run_tree_bounded
    (returned : (run project configuration metrics cursor direction).result =
      .ok (some chain)) :
    (chain.root.depth : Int) ≤ max 1 configuration.maxDepth ∧
    (∀ depth, ∀ node ∈ chain.root.level depth,
      node.occurrence.external = true → node.children = []) ∧
    chain.root.expanded.Nodup := by
  refine ⟨depth_le_maxDepth returned, ?_, expanded_nodup returned⟩
  intro depth node nodeMem external
  exact children_eq_nil_of_external returned nodeMem external

/-- Two methods that call each other. -/
def circle : Project :=
  MemoryProject.toProject { files := [
    ("A.java", classText "A" ["void ping() { pong(); }", "void pong() { ping(); }"])] }

/-- Both methods of the circle are expanded, and the third node ends it. -/
theorem circle_tree_bounded :
    ∃ chain, (run circle {} {} { file := "A.java", line := 1 } (some "down")).result =
        .ok (some chain) ∧ chain.root.expanded.length = 2 ∧
      (chain.root.depth : Int) ≤ max 1 10 ∧
      (∀ depth, ∀ node ∈ chain.root.level depth,
        node.occurrence.external = true → node.children = []) ∧
      chain.root.expanded.Nodup := by
  have passes : (run circle {} {} { file := "A.java", line := 1 } (some "down")).returns
      (fun chain => chain.root.expanded.length == 2) = true := by
    decide +kernel
  obtain ⟨chain, returned, tested⟩ := exists_chain_of_returns passes
  exact ⟨chain, returned, beq_iff_eq.mp tested, run_tree_bounded returned⟩

end Analysis
end CallTree
