import CallTree.Proofs.Analysis.Bounds
import CallTree.Proofs.Analysis.Names
import CallTree.Proofs.Report.MergedTree

/-!
# Locations in call graphs

The nodes of a call graph are told apart by identifiers, which are digests.
Unless digests collide, the occurrences of a tree with plain names share an
identifier exactly where they lie at one place, so that the graph has one node
for each location of the tree.
-/

namespace CallTree

theorem Tree.mem_preorder_iff_hasNode {tree : Tree} {occurrence : Occurrence} :
    occurrence ∈ tree.preorder ↔ ∃ node, tree.HasNode node ∧ node.occurrence = occurrence := by
  rw [mem_preorder_iff]
  constructor
  · rintro ⟨depth, node, nodeMem, rfl⟩
    exact ⟨node, ⟨depth, nodeMem⟩, rfl⟩
  · rintro ⟨node, ⟨depth, nodeMem⟩, rfl⟩
    exact ⟨depth, node, nodeMem, rfl⟩

def NodeAttributes.location (attributes : NodeAttributes) : Location where
  file := attributes.filePath
  className := attributes.className
  method := attributes.methodName
  line := attributes.lineNumber

/-- Where the method of a visited node lies. -/
def GraphNode.location? (node : GraphNode) : Option Location :=
  node.attributes.map NodeAttributes.location

namespace Graph

/-- The graph has one node for each location of the tree. -/
structure ShowsLocations (tree : Tree) (graph : Graph) : Prop where
  /-- Occurrences have one identifier exactly where they lie at one place. -/
  identifier_eq_iff : ∀ first ∈ tree.preorder, ∀ second ∈ tree.preorder,
    (first.identifier = second.identifier ↔ first.location = second.location)
  /-- Every occurrence lies where the node with its identifier does. -/
  exists_node : ∀ occurrence ∈ tree.preorder, ∃ node ∈ graph.nodes,
    node.identifier = occurrence.identifier ∧ node.location? = some occurrence.location
  /-- Every node is the node of an occurrence. -/
  exists_occurrence : ∀ node ∈ graph.nodes, ∃ occurrence ∈ tree.preorder,
    occurrence.identifier = node.identifier ∧ node.location? = some occurrence.location
  locations_nodup : (graph.nodes.map GraphNode.location?).Nodup

section Shows

variable {direction : Direction} {visited : List Tree} {tree : Tree} {graph : Graph}

theorem Shows.exists_location
    (shown : Shows direction (·.occurrence.identifier) visited graph)
    (visited_iff : ∀ node, node ∈ visited ↔ tree.HasNode node) {node : GraphNode}
    (nodeMem : node ∈ graph.nodes) :
    ∃ occurrence ∈ tree.preorder, occurrence.identifier = node.identifier ∧
      node.location? = some occurrence.location := by
  obtain ⟨first, external, hasNode, identified, attributesEq, _⟩ :=
    shown.exists_occurrence visited_iff nodeMem
  refine ⟨first.occurrence, Tree.mem_preorder_iff_hasNode.mpr ⟨first, hasNode, rfl⟩,
    identified, ?_⟩
  rw [GraphNode.location?, attributesEq]
  rfl

theorem Shows.showsLocations
    (shown : Shows direction (·.occurrence.identifier) visited graph)
    (visited_iff : ∀ node, node ∈ visited ↔ tree.HasNode node) (plain : tree.HasPlainNames)
    (apart : tree.DigestsApart) : graph.ShowsLocations tree where
  identifier_eq_iff first firstMem second secondMem :=
    Tree.identifier_eq_iff_location_eq plain apart firstMem secondMem
  exists_node := by
    intro occurrence member
    obtain ⟨met, hasNode, rfl⟩ := Tree.mem_preorder_iff_hasNode.mp member
    obtain ⟨node, nodeMem, identified⟩ := List.mem_map.mp
      ((shown.mem_identifiers_iff_hasNode visited_iff _).mpr ⟨met, hasNode, rfl⟩)
    obtain ⟨first, firstMem, firstIdentified, located⟩ :=
      shown.exists_location visited_iff nodeMem
    refine ⟨node, nodeMem, identified, ?_⟩
    rw [located, (Tree.identifier_eq_iff_location_eq plain apart firstMem member).mp
      (firstIdentified.trans identified)]
  exists_occurrence _ nodeMem := shown.exists_location visited_iff nodeMem
  locations_nodup := by
    have distinct := shown.identifiers_nodup
    apply List.Nodup.map_on _ distinct.of_map
    intro node nodeMem other otherMem same
    obtain ⟨first, firstMem, firstIdentified, firstLocated⟩ :=
      shown.exists_location visited_iff nodeMem
    obtain ⟨second, secondMem, secondIdentified, secondLocated⟩ :=
      shown.exists_location visited_iff otherMem
    have locations : first.location = second.location := by
      apply Option.some.inj
      rw [← firstLocated, ← secondLocated, same]
    apply List.inj_on_of_nodup_map distinct nodeMem otherMem
    rw [← firstIdentified, ← secondIdentified]
    exact Occurrence.identifier_eq_of_location_eq locations

end Shows

theorem showsLocations_ofChain {chain : Chain} (plain : chain.root.HasPlainNames)
    (apart : chain.root.DigestsApart) : (ofChain chain).ShowsLocations chain.root := by
  obtain ⟨visited, visited_iff, shown⟩ :=
    (shows_empty chain.direction (·.occurrence.identifier)).collect [chain.root]
  simp only [List.mem_singleton, exists_eq_left] at visited_iff
  rw [List.nil_append] at shown
  exact shown.showsLocations visited_iff plain apart

/-- Identities of methods with plain names are one text only for one location,
whatever stands in the paths; so the graph of a chain has one node for each
location unless digests collide.  Found methods and calls have plain names, and
so have the chains that an analysis returns. -/
theorem locations_told_apart :
    (∀ first second : Occurrence, first.HasPlainNames → second.HasPlainNames →
      (first.identity = second.identity ↔ first.location = second.location)) ∧
    (∀ chain : Chain, chain.root.HasPlainNames → chain.root.DigestsApart →
      (ofChain chain).ShowsLocations chain.root) ∧
    (∀ (source : Source) (file : String) (method : Method) (external : Bool),
      (method ∈ source.definitions file ∨ ∃ line, source.methodAt line file = some method) →
      (Occurrence.ofMethod method external).HasPlainNames) ∧
    (∀ lines start last column, ∀ site ∈ CallSite.between lines start last column,
      (Occurrence.unresolved site).HasPlainNames) ∧
    (∀ project configuration metrics cursor direction chain,
      (Analysis.run project configuration metrics cursor direction).result =
        .ok (some chain) → chain.root.HasPlainNames) := by
  refine ⟨?_, ?_, ?_, ?_, ?_⟩
  · intro first second firstPlain secondPlain
    exact ⟨Occurrence.location_eq_of_identity_eq firstPlain secondPlain,
      Occurrence.identity_eq_of_location_eq⟩
  · intro chain plain apart
    exact showsLocations_ofChain plain apart
  · rintro source file method external (defined | ⟨line, found⟩)
    · exact Occurrence.hasPlainNames_ofMethod (Source.isNamed_of_mem_definitions defined) external
    · exact Occurrence.hasPlainNames_ofMethod (Source.isNamed_of_methodAt found) external
  · intro lines start last column site member
    exact Occurrence.hasPlainNames_unresolved (CallSite.isNamed_of_mem_between member)
  · intro _ _ _ _ _ chain returned
    exact Analysis.hasPlainNames_of_run returned

/-- A method whose line is negative and whose path holds a colon. -/
def innerMethod : Occurrence :=
  { method := "f", className := "A.B", file := "p:q", line := -1 }

/-- A method whose path is the identity of another. -/
def outerMethod : Occurrence :=
  { method := "g", className := "C", file := innerMethod.identity, line := 2 }

/-- The outer method calls the inner one twice. -/
def nestedPaths : Chain :=
  .ofTree .down (.node outerMethod
    [.node innerMethod [], .leaf { innerMethod with external := true }])

/-- A method as it is found in its class. -/
def foundMethod : Method :=
  { name := "f", className := some "A", file := "A.java", line := 2, returnType := some "void" }

/-- A call as it is found in a body. -/
def foundCall : CallSite :=
  { callee := "g", receiver := some "B", line := 1 }

/-- The three nodes lie at two locations, and the methods of a circle have a node
each. -/
theorem nestedPaths_told_apart :
    (innerMethod.HasPlainNames ∧ outerMethod.HasPlainNames ∧
      innerMethod.identity ≠ outerMethod.identity) ∧
    (nestedPaths.root.preorder.length = 3 ∧ nestedPaths.root.HasPlainNames ∧
      nestedPaths.root.DigestsApart ∧ (ofChain nestedPaths).nodes.length = 2 ∧
      (ofChain nestedPaths).ShowsLocations nestedPaths.root) ∧
    (foundMethod ∈ (Source.ofText (Analysis.rules {})
        (Analysis.classText "A" ["void f() { B.g(); }"]).toList).definitions "A.java" ∧
      (Occurrence.ofMethod foundMethod false).HasPlainNames) ∧
    (foundCall ∈ CallSite.between [" B.g();".toList] 0 none 0 ∧
      (Occurrence.unresolved foundCall).HasPlainNames) ∧
    ∃ chain, (Analysis.run Analysis.circle {} {} { file := "A.java", line := 1 }
        (some "down")).result = .ok (some chain) ∧
      chain.root.HasPlainNames ∧ (ofChain chain).ShowsLocations chain.root := by
  obtain ⟨identities, merged, methods, calls, returned⟩ := locations_told_apart
  refine ⟨?_, ?_, ?_, ?_, ?_⟩
  · have innerPlain : innerMethod.HasPlainNames := by decide
    have outerPlain : outerMethod.HasPlainNames := by decide
    refine ⟨innerPlain, outerPlain, ?_⟩
    intro same
    have located := (identities _ _ innerPlain outerPlain).mp same
    exact absurd (congrArg Location.line located) (by decide)
  · have plain : nestedPaths.root.HasPlainNames := by decide +kernel
    have apart : nestedPaths.root.DigestsApart := by decide +kernel
    exact ⟨by decide, plain, apart, by decide +kernel, merged nestedPaths plain apart⟩
  · have defined : foundMethod ∈ (Source.ofText (Analysis.rules {})
        (Analysis.classText "A" ["void f() { B.g(); }"]).toList).definitions "A.java" := by
      decide +kernel
    exact ⟨defined, methods _ _ _ _ (.inl defined)⟩
  · have called : foundCall ∈ CallSite.between [" B.g();".toList] 0 none 0 := by
      decide +kernel
    exact ⟨called, calls _ _ _ _ _ called⟩
  · have passes : (Analysis.run Analysis.circle {} {} { file := "A.java", line := 1 }
        (some "down")).returns (fun chain => chain.root.DigestsApart) = true := by
      decide +kernel
    obtain ⟨chain, found, tested⟩ := Analysis.exists_chain_of_returns passes
    have plain := returned _ _ _ _ _ chain found
    exact ⟨chain, found, plain, merged chain plain (of_decide_eq_true tested)⟩

end Graph
end CallTree
