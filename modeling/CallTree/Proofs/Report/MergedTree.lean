import CallTree.Proofs.Tree.Levels
import CallTree.Report.Graph
import Mathlib.Data.List.Nodup
import Mathlib.Data.Set.Insert

/-!
# Call graphs of trees

A call graph is collected by visiting the nodes of a tree one after another.
What it holds at any time is said by the trees visited so far: their
identifiers and those of their children, the edges between them, and for each
identifier the attributes that were visited first, external if any were.  Each
visit keeps this, so that the finished graph is the tree with the nodes of one
identifier merged, whatever the identifiers are.
-/

namespace CallTree

/-- The node is the root of the tree or lies below it. -/
def Tree.HasNode (tree node : Tree) : Prop :=
  ∃ depth, node ∈ tree.level depth

theorem Tree.hasNode_iff (tree node : Tree) :
    tree.HasNode node ↔ node = tree ∨ ∃ child ∈ tree.children, child.HasNode node := by
  constructor
  · rintro ⟨depth, nodeMem⟩
    cases depth with
    | zero => exact .inl (mem_level_zero.mp nodeMem)
    | succ depth =>
        obtain ⟨child, childMem, below⟩ := mem_level_succ.mp nodeMem
        exact .inr ⟨child, childMem, depth, below⟩
  · rintro (rfl | ⟨child, childMem, depth, below⟩)
    · exact ⟨0, mem_level_zero.mpr rfl⟩
    · exact ⟨depth + 1, mem_level_succ.mpr ⟨child, childMem, below⟩⟩

theorem Tree.HasNode.child {tree node child : Tree} (hasNode : tree.HasNode node)
    (childMem : child ∈ node.children) : tree.HasNode child := by
  obtain ⟨depth, nodeMem⟩ := hasNode
  exact ⟨depth + 1, mem_level_succ_of_mem_children nodeMem childMem⟩

namespace Graph

/-- The edge between a node and its child, from caller to callee. -/
def stepEdge : Direction → String → String → String × String
  | .up, parent, child => (child, parent)
  | .down, parent, child => (parent, child)

def identifiers (graph : Graph) : List String :=
  graph.nodes.map GraphNode.identifier

/-- What a node shows that was visited with the given trees: the attributes of the
first one, external if any of them is. -/
def shownAttributes? : List Tree → Option NodeAttributes
  | [] => none
  | first :: later =>
      some { first.occurrence.attributes with
        isExternal := (first :: later).any (·.occurrence.external) }

theorem exists_first_of_shownAttributes? {seen : List Tree} (visited : seen ≠ []) :
    ∃ first ∈ seen, ∃ external,
      shownAttributes? seen =
        some { first.occurrence.attributes with isExternal := external } ∧
      (external = true ↔ ∃ other ∈ seen, other.occurrence.external = true) := by
  cases seen with
  | nil => exact absurd rfl visited
  | cons first later =>
      exact ⟨first, List.mem_cons_self, _, rfl, List.any_eq_true⟩

/-- The graph has the identifiers and edges in the two sets, each once, and its
nodes show the visited trees. -/
structure Records (identify : Tree → String) (visited : List Tree) (named : Set String)
    (linked : Set (String × String)) (graph : Graph) : Prop where
  identifiers_nodup : graph.identifiers.Nodup
  edges_nodup : graph.edges.Nodup
  mem_identifiers_iff : ∀ identifier, identifier ∈ graph.identifiers ↔ identifier ∈ named
  mem_edges_iff : ∀ edge, edge ∈ graph.edges ↔ edge ∈ linked
  visited_named : ∀ tree ∈ visited, identify tree ∈ named
  attributes_eq : ∀ node ∈ graph.nodes,
    node.attributes = shownAttributes? (visited.filter (identify · == node.identifier))

section Steps

variable {identify : Tree → String} {visited : List Tree} {named : Set String}
  {linked : Set (String × String)} {graph : Graph}

theorem any_identifier_eq_true_iff {identifier : String} :
    graph.nodes.any (·.identifier == identifier) = true ↔ identifier ∈ graph.identifiers := by
  simp [identifiers]

theorem identifiers_touch (graph : Graph) (identifier : String) :
    (graph.touch identifier).identifiers =
      if identifier ∈ graph.identifiers then graph.identifiers
      else graph.identifiers ++ [identifier] := by
  simp only [touch, any_identifier_eq_true_iff]
  split
  · rfl
  · simp [identifiers]

/-- A node that is added has not been visited. -/
theorem Records.touch (records : Records identify visited named linked graph)
    (identifier : String) :
    Records identify visited (insert identifier named) linked (graph.touch identifier) := by
  by_cases known : identifier ∈ graph.identifiers
  · have unchanged : graph.touch identifier = graph := by
      rw [Graph.touch, if_pos (any_identifier_eq_true_iff.mpr known)]
    rw [unchanged, Set.insert_eq_of_mem ((records.mem_identifiers_iff identifier).mp known)]
    exact records
  · have added : graph.touch identifier =
        { graph with nodes := graph.nodes ++ [{ identifier }] } := by
      rw [Graph.touch, if_neg (mt any_identifier_eq_true_iff.mp known)]
    have identifiersEq := graph.identifiers_touch identifier
    rw [if_neg known] at identifiersEq
    refine ⟨?_, ?_, ?_, ?_, ?_, ?_⟩
    · rw [identifiersEq]
      exact records.identifiers_nodup.append (List.nodup_singleton identifier)
        (List.disjoint_singleton.mpr known)
    · rw [added]
      exact records.edges_nodup
    · intro other
      rw [identifiersEq, List.mem_append, List.mem_singleton, records.mem_identifiers_iff,
        Set.mem_insert_iff, or_comm]
    · rw [added]
      exact records.mem_edges_iff
    · intro tree treeMem
      exact Set.mem_insert_of_mem identifier (records.visited_named tree treeMem)
    · intro node nodeMem
      rw [added] at nodeMem
      rcases List.mem_append.mp nodeMem with old | new
      · exact records.attributes_eq node old
      · obtain rfl := List.mem_singleton.mp new
        have unvisited : visited.filter (identify · == identifier) = [] := by
          apply List.filter_eq_nil_iff.mpr
          intro tree treeMem same
          rw [beq_iff_eq] at same
          exact known ((records.mem_identifiers_iff identifier).mpr
            (same ▸ records.visited_named tree treeMem))
        rw [unvisited, shownAttributes?]

/-- Meeting one more tree is what a node shows of the trees together. -/
theorem attributes_meet {node : GraphNode} {seen : List Tree}
    (shown : node.attributes = shownAttributes? seen) (tree : Tree) :
    (node.meet tree.occurrence).attributes = shownAttributes? (seen ++ [tree]) := by
  cases seen with
  | nil =>
      simp only [GraphNode.meet, shown, shownAttributes?]
      simp [Occurrence.attributes]
  | cons first later =>
      simp only [GraphNode.meet, shown, shownAttributes?]
      simp [Bool.or_assoc]

theorem identifier_meet (node : GraphNode) (occurrence : Occurrence) :
    (node.meet occurrence).identifier = node.identifier := by
  rw [GraphNode.meet]
  split <;> rfl

theorem Records.visit (records : Records identify visited named linked graph) (tree : Tree) :
    Records identify (visited ++ [tree]) (insert (identify tree) named) linked
      (graph.visit (identify tree) tree.occurrence) := by
  have touched := records.touch (identify tree)
  have identifiersEq : (graph.visit (identify tree) tree.occurrence).identifiers =
      (graph.touch (identify tree)).identifiers := by
    simp only [identifiers, Graph.visit, List.map_map]
    apply List.map_congr_left
    intro node _
    rw [Function.comp_apply]
    split
    · exact identifier_meet node tree.occurrence
    · rfl
  refine ⟨?_, touched.edges_nodup, ?_, touched.mem_edges_iff, ?_, ?_⟩
  · rw [identifiersEq]
    exact touched.identifiers_nodup
  · rw [identifiersEq]
    exact touched.mem_identifiers_iff
  · intro other otherMem
    rcases List.mem_append.mp otherMem with old | new
    · exact touched.visited_named other old
    · rw [List.mem_singleton.mp new]
      exact Set.mem_insert _ _
  · intro node nodeMem
    obtain ⟨old, oldMem, rfl⟩ := List.mem_map.mp nodeMem
    have shown := touched.attributes_eq old oldMem
    split
    · rename_i same
      rw [beq_iff_eq] at same
      rw [identifier_meet, List.filter_append, attributes_meet shown tree,
        List.filter_cons_of_pos (by simp [same]), List.filter_nil]
    · rename_i other
      have apart : ¬ (identify tree == old.identifier) = true := by
        rwa [beq_iff_eq, eq_comm, ← beq_iff_eq]
      rw [shown, List.filter_append,
        List.filter_cons_of_neg (p := (identify · == old.identifier)) apart, List.filter_nil,
        List.append_nil]

theorem Records.connect (records : Records identify visited named linked graph)
    (source target : String) :
    Records identify visited (insert target (insert source named))
      (insert (source, target) linked) (graph.connect source target) := by
  have touched := (records.touch source).touch target
  rw [Graph.connect]
  split
  · rename_i known
    rw [Set.insert_eq_of_mem ((touched.mem_edges_iff _).mp (List.contains_iff_mem.mp known))]
    exact touched
  · rename_i unknown
    refine ⟨touched.identifiers_nodup, ?_, touched.mem_identifiers_iff, ?_,
      touched.visited_named, touched.attributes_eq⟩
    · exact touched.edges_nodup.append (List.nodup_singleton (source, target))
        (List.disjoint_singleton.mpr (mt List.contains_iff_mem.mpr unknown))
    · intro edge
      rw [List.mem_append, List.mem_singleton, touched.mem_edges_iff, Set.mem_insert_iff, or_comm]

theorem Records.connectStep (records : Records identify visited named linked graph)
    (direction : Direction) {parent : String} (parentNamed : parent ∈ named) (child : String) :
    Records identify visited (insert child named) (insert (stepEdge direction parent child) linked)
      (connectStep direction graph parent child) := by
  cases direction with
  | up =>
      have connected := records.connect child parent
      rwa [Set.insert_eq_of_mem (Set.mem_insert_of_mem child parentNamed)] at connected
  | down =>
      have connected := records.connect parent child
      rwa [Set.insert_eq_of_mem parentNamed] at connected

/-- The children of a node are connected one after another. -/
theorem Records.connectSteps (records : Records identify visited named linked graph)
    (direction : Direction) {parent : String} (parentNamed : parent ∈ named)
    (children : List Tree) :
    Records identify visited (named ∪ {name | ∃ child ∈ children, identify child = name})
      (linked ∪ {edge | ∃ child ∈ children, stepEdge direction parent (identify child) = edge})
      (children.foldl
        (fun graph child => Graph.connectStep direction graph parent (identify child)) graph) := by
  induction children generalizing named linked graph with
  | nil => simpa using records
  | cons child children ih =>
      have connected := ih (records.connectStep direction parentNamed (identify child))
        (Set.mem_insert_of_mem (identify child) parentNamed)
      convert connected using 1
      · ext name
        simp only [Set.mem_union, Set.mem_ofPred_eq, Set.mem_insert_iff, List.mem_cons,
          or_and_right, exists_or, exists_eq_left, eq_comm (a := name)]
        rw [or_left_comm, or_assoc]
      · ext edge
        simp only [Set.mem_union, Set.mem_ofPred_eq, Set.mem_insert_iff, List.mem_cons,
          or_and_right, exists_or, exists_eq_left, eq_comm (a := edge)]
        rw [or_left_comm, or_assoc]
      · rfl

end Steps

section Visits

variable {direction : Direction} {identify : Tree → String} {visited : List Tree} {graph : Graph}

/-- The identifiers of the trees and of their children. -/
def namesOf (identify : Tree → String) (visited : List Tree) : Set String :=
  {name | ∃ tree ∈ visited, identify tree = name ∨ ∃ child ∈ tree.children, identify child = name}

/-- The edges between the trees and their children. -/
def linksOf (direction : Direction) (identify : Tree → String) (visited : List Tree) :
    Set (String × String) :=
  {edge | ∃ tree ∈ visited, ∃ child ∈ tree.children,
    stepEdge direction (identify tree) (identify child) = edge}

/-- The graph holds what the visited trees tell, and nothing else. -/
abbrev Shows (direction : Direction) (identify : Tree → String) (visited : List Tree)
    (graph : Graph) : Prop :=
  Records identify visited (namesOf identify visited) (linksOf direction identify visited) graph

theorem shows_empty (direction : Direction) (identify : Tree → String) :
    Shows direction identify [] {} := by
  refine ⟨List.nodup_nil, List.nodup_nil, ?_, ?_, ?_, ?_⟩ <;>
    simp [identifiers, namesOf, linksOf]

/-- Visiting one more tree adds what it tells. -/
theorem Shows.visitRoot (shown : Shows direction identify visited graph) (tree : Tree) :
    Shows direction identify (visited ++ [tree]) (visitRoot direction identify graph tree) := by
  have connected := (shown.visit tree).connectSteps direction
    (Set.mem_insert (identify tree) _) tree.children
  convert connected using 1
  · ext name
    simp only [namesOf, Set.mem_ofPred_eq, Set.mem_union, Set.mem_insert_iff, List.mem_append,
      List.mem_singleton, or_and_right, exists_or, exists_eq_left, eq_comm (a := name)]
    rw [or_left_comm, or_assoc]
  · ext edge
    simp only [linksOf, Set.mem_ofPred_eq, Set.mem_union, List.mem_append, List.mem_singleton,
      or_and_right, exists_or, exists_eq_left]
  · rfl

/-- Collecting visits every node of the waiting trees. -/
theorem Shows.collect (shown : Shows direction identify visited graph) (waiting : List Tree) :
    ∃ later, (∀ node, node ∈ later ↔ ∃ tree ∈ waiting, tree.HasNode node) ∧
      Shows direction identify (visited ++ later) (collect direction identify graph waiting) := by
  fun_induction Graph.collect direction identify graph waiting generalizing visited with
  | case1 graph => exact ⟨[], by simp, by simpa using shown⟩
  | case2 graph tree waiting ih =>
      obtain ⟨later, laterMem, finished⟩ := ih (shown.visitRoot tree)
      refine ⟨tree :: later, ?_, by simpa using finished⟩
      intro node
      rw [List.mem_cons, laterMem]
      simp only [List.mem_append, List.mem_cons, List.mem_reverse, or_and_right, exists_or,
        exists_eq_left]
      rw [tree.hasNode_iff node, or_assoc]

variable {tree : Tree}

theorem Shows.mem_identifiers_iff_hasNode (shown : Shows direction identify visited graph)
    (visited_iff : ∀ node, node ∈ visited ↔ tree.HasNode node) (identifier : String) :
    identifier ∈ graph.identifiers ↔
      ∃ node, tree.HasNode node ∧ identify node = identifier := by
  rw [shown.mem_identifiers_iff]
  constructor
  · rintro ⟨node, nodeMem, same | ⟨child, childMem, same⟩⟩
    · exact ⟨node, (visited_iff node).mp nodeMem, same⟩
    · exact ⟨child, ((visited_iff node).mp nodeMem).child childMem, same⟩
  · rintro ⟨node, hasNode, same⟩
    exact ⟨node, (visited_iff node).mpr hasNode, .inl same⟩

theorem Shows.mem_edges_iff_hasNode (shown : Shows direction identify visited graph)
    (visited_iff : ∀ node, node ∈ visited ↔ tree.HasNode node) (edge : String × String) :
    edge ∈ graph.edges ↔ ∃ parent child, tree.HasNode parent ∧ child ∈ parent.children ∧
      edge = stepEdge direction (identify parent) (identify child) := by
  rw [shown.mem_edges_iff]
  constructor
  · rintro ⟨parent, parentMem, child, childMem, same⟩
    exact ⟨parent, child, (visited_iff parent).mp parentMem, childMem, same.symm⟩
  · rintro ⟨parent, child, hasParent, childMem, same⟩
    exact ⟨parent, (visited_iff parent).mpr hasParent, child, childMem, same.symm⟩

/-- When all nodes of a tree are visited, every node of the graph has the attributes
of one of them. -/
theorem Shows.exists_occurrence (shown : Shows direction identify visited graph)
    (visited_iff : ∀ node, node ∈ visited ↔ tree.HasNode node) {node : GraphNode}
    (nodeMem : node ∈ graph.nodes) :
    ∃ first external, tree.HasNode first ∧ identify first = node.identifier ∧
      node.attributes = some { first.occurrence.attributes with isExternal := external } ∧
      (external = true ↔ ∃ other, tree.HasNode other ∧ identify other = node.identifier ∧
        other.occurrence.external = true) := by
  have seen_iff : ∀ other, other ∈ visited.filter (identify · == node.identifier) ↔
      tree.HasNode other ∧ identify other = node.identifier := by
    intro other
    rw [List.mem_filter, visited_iff, beq_iff_eq]
  obtain ⟨other, seen⟩ := (shown.mem_identifiers_iff_hasNode visited_iff node.identifier).mp
    (List.mem_map_of_mem nodeMem)
  obtain ⟨first, firstSeen, external, attributesEq, external_iff⟩ :=
    exists_first_of_shownAttributes? (List.ne_nil_of_mem ((seen_iff other).mpr seen))
  simp only [seen_iff, and_assoc] at firstSeen external_iff
  exact ⟨first, external, firstSeen.1, firstSeen.2,
    (shown.attributes_eq node nodeMem).trans attributesEq, external_iff⟩

end Visits

/-- The graph is the tree with the nodes of one identifier merged. -/
structure IsMergedTree (direction : Direction) (identify : Tree → String) (tree : Tree)
    (graph : Graph) : Prop where
  identifiers_nodup : graph.identifiers.Nodup
  edges_nodup : graph.edges.Nodup
  /-- The nodes are the identifiers that occur in the tree. -/
  mem_identifiers_iff : ∀ identifier,
    identifier ∈ graph.identifiers ↔ ∃ node, tree.HasNode node ∧ identify node = identifier
  /-- The edges are the steps of the tree, from caller to callee. -/
  mem_edges_iff : ∀ edge, edge ∈ graph.edges ↔
    ∃ parent child, tree.HasNode parent ∧ child ∈ parent.children ∧
      edge = stepEdge direction (identify parent) (identify child)
  /-- Every node shows the attributes of an occurrence with its identifier, external if
  any is. -/
  exists_occurrence : ∀ node ∈ graph.nodes, ∃ first external,
    tree.HasNode first ∧ identify first = node.identifier ∧
    node.attributes = some { first.occurrence.attributes with isExternal := external } ∧
    (external = true ↔ ∃ other, tree.HasNode other ∧ identify other = node.identifier ∧
      other.occurrence.external = true)

/-- The graph of a tree is the tree with the nodes of one identifier merged,
whatever identifies its nodes. -/
theorem isMergedTree_collect (direction : Direction) (identify : Tree → String) (tree : Tree) :
    IsMergedTree direction identify tree (collect direction identify {} [tree]) := by
  obtain ⟨visited, visited_iff, shown⟩ :=
    (shows_empty direction identify).collect [tree]
  simp only [List.mem_singleton, exists_eq_left] at visited_iff
  rw [List.nil_append] at shown
  refine ⟨shown.identifiers_nodup, shown.edges_nodup, ?_, ?_, ?_⟩
  · exact shown.mem_identifiers_iff_hasNode visited_iff
  · exact shown.mem_edges_iff_hasNode visited_iff
  · exact fun node nodeMem => shown.exists_occurrence visited_iff nodeMem

end Graph
end CallTree
