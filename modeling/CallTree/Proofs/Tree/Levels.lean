import CallTree.Tree

/-!
# Levels of a tree

The nodes of a tree by their distance from its root, and the methods that its
expanded nodes stand for.
-/

namespace CallTree

/-- The method lies in a class that has a name. -/
def Method.HasClass (method : Method) : Prop :=
  ∃ className, method.className = some className ∧ className ≠ ""

/-- What an occurrence shows of the key of its method. -/
def Occurrence.key (occurrence : Occurrence) : MethodKey where
  file := occurrence.file
  className := occurrence.className
  name := occurrence.method

/-- The occurrence as it is when its node is not expanded. -/
def Occurrence.asLeaf (occurrence : Occurrence) : Occurrence :=
  { occurrence with external := true }

theorem Occurrence.key_ofMethod {method : Method} (hasClass : method.HasClass)
    (external : Bool) : (ofMethod method external).key = method.key := by
  obtain ⟨className, classEq, named⟩ := hasClass
  simp [key, ofMethod, Method.key, classEq, named]

theorem Occurrence.className_ofMethod {method : Method} (hasClass : method.HasClass)
    (external : Bool) : some (ofMethod method external).className = method.className := by
  obtain ⟨className, classEq, named⟩ := hasClass
  simp [ofMethod, classEq, named]

/-- An occurrence shows all there is to know of a method in a named class. -/
theorem Occurrence.ofMethod_injective {first second : Method} (firstHasClass : first.HasClass)
    (secondHasClass : second.HasClass) {external : Bool}
    (equal : ofMethod first external = ofMethod second external) : first = second := by
  have classEq : first.className = second.className := by
    rw [← className_ofMethod firstHasClass external, equal,
      className_ofMethod secondHasClass external]
  cases first
  cases second
  simp only [ofMethod, Occurrence.mk.injEq] at equal
  simp_all

namespace Tree

/-- The nodes that lie the given number of steps below the root. -/
def level : Nat → Tree → List Tree
  | 0, tree => [tree]
  | depth + 1, tree => tree.children.flatMap (level depth)

@[simp]
theorem mem_level_zero {tree node : Tree} : node ∈ tree.level 0 ↔ node = tree := by
  simp [level]

@[simp]
theorem mem_level_succ {tree node : Tree} {depth : Nat} :
    node ∈ tree.level (depth + 1) ↔ ∃ child ∈ tree.children, node ∈ child.level depth := by
  simp [level]

theorem mem_level_succ_of_mem_children {depth : Nat} {tree node child : Tree}
    (nodeMem : node ∈ tree.level depth) (childMem : child ∈ node.children) :
    child ∈ tree.level (depth + 1) := by
  induction depth generalizing tree with
  | zero =>
      rw [mem_level_zero] at nodeMem
      subst node
      exact mem_level_succ.mpr ⟨child, childMem, mem_level_zero.mpr rfl⟩
  | succ depth ih =>
      obtain ⟨top, topMem, below⟩ := mem_level_succ.mp nodeMem
      exact mem_level_succ.mpr ⟨top, topMem, ih below⟩

theorem exists_parent {depth : Nat} {tree node : Tree}
    (nodeMem : node ∈ tree.level (depth + 1)) :
    ∃ parent ∈ tree.level depth, node ∈ parent.children := by
  induction depth generalizing tree with
  | zero =>
      obtain ⟨child, childMem, same⟩ := mem_level_succ.mp nodeMem
      rw [mem_level_zero] at same
      subst node
      exact ⟨tree, mem_level_zero.mpr rfl, childMem⟩
  | succ depth ih =>
      obtain ⟨top, topMem, below⟩ := mem_level_succ.mp nodeMem
      obtain ⟨parent, parentMem, childMem⟩ := ih below
      exact ⟨parent, mem_level_succ.mpr ⟨top, topMem, parentMem⟩, childMem⟩

theorem level_leaf {occurrence : Occurrence} {depth : Nat} {node : Tree}
    (nodeMem : node ∈ (leaf occurrence).level depth) :
    depth = 0 ∧ node = leaf occurrence := by
  cases depth with
  | zero => exact ⟨rfl, mem_level_zero.mp nodeMem⟩
  | succ depth => simp [leaf, children] at nodeMem

theorem preorderBelow_eq_flatMap (trees : List Tree) :
    preorderBelow trees = trees.flatMap preorder := by
  induction trees with
  | nil => rfl
  | cons tree trees ih => rw [preorderBelow, ih, List.flatMap_cons]

theorem depthBelow_le {trees : List Tree} {bound : Nat}
    (bounded : ∀ tree ∈ trees, tree.depth ≤ bound) : depthBelow trees ≤ bound := by
  induction trees with
  | nil => simp [depthBelow]
  | cons tree trees ih =>
      rw [depthBelow]
      exact Nat.max_le.mpr ⟨bounded tree List.mem_cons_self,
        ih fun other otherMem => bounded other (List.mem_cons_of_mem tree otherMem)⟩

theorem occurrence_mem_preorder {depth : Nat} {tree node : Tree}
    (nodeMem : node ∈ tree.level depth) : node.occurrence ∈ tree.preorder := by
  cases tree with
  | node occurrence children =>
      rw [preorder, preorderBelow_eq_flatMap]
      induction depth generalizing occurrence children with
      | zero =>
          rw [mem_level_zero] at nodeMem
          simp [nodeMem, Tree.occurrence]
      | succ depth ih =>
          obtain ⟨child, childMem, below⟩ := mem_level_succ.mp nodeMem
          cases child with
          | node childOccurrence grandchildren =>
              apply List.mem_cons_of_mem
              refine List.mem_flatMap.mpr ⟨_, childMem, ?_⟩
              rw [preorder, preorderBelow_eq_flatMap]
              exact ih childOccurrence grandchildren below

mutual

theorem exists_level_of_mem_preorder {occurrence : Occurrence} :
    (tree : Tree) → occurrence ∈ tree.preorder →
      ∃ depth, ∃ node ∈ tree.level depth, node.occurrence = occurrence
  | node here children, member => by
      rw [preorder, List.mem_cons] at member
      rcases member with rfl | below
      · exact ⟨0, node occurrence children, mem_level_zero.mpr rfl, rfl⟩
      · obtain ⟨child, childMem, depth, found, foundMem, foundEq⟩ :=
          exists_level_of_mem_preorderBelow children below
        exact ⟨depth + 1, found, mem_level_succ.mpr ⟨child, childMem, foundMem⟩, foundEq⟩

theorem exists_level_of_mem_preorderBelow {occurrence : Occurrence} :
    (trees : List Tree) → occurrence ∈ preorderBelow trees →
      ∃ tree ∈ trees, ∃ depth, ∃ node ∈ tree.level depth, node.occurrence = occurrence
  | [], member => by simp [preorderBelow] at member
  | tree :: trees, member => by
      rw [preorderBelow, List.mem_append] at member
      rcases member with here | later
      · exact ⟨tree, List.mem_cons_self, exists_level_of_mem_preorder tree here⟩
      · obtain ⟨other, otherMem, found⟩ := exists_level_of_mem_preorderBelow trees later
        exact ⟨other, List.mem_cons_of_mem tree otherMem, found⟩

end

theorem mem_preorder_iff {tree : Tree} {occurrence : Occurrence} :
    occurrence ∈ tree.preorder ↔
      ∃ depth, ∃ node ∈ tree.level depth, node.occurrence = occurrence := by
  constructor
  · exact exists_level_of_mem_preorder tree
  · rintro ⟨depth, node, nodeMem, rfl⟩
    exact occurrence_mem_preorder nodeMem

/-- The keys of the expanded nodes, in preorder. -/
def expanded (tree : Tree) : List MethodKey :=
  (tree.preorder.filter fun occurrence => !occurrence.external).map Occurrence.key

theorem mem_expanded_iff {tree : Tree} {key : MethodKey} :
    key ∈ tree.expanded ↔
      ∃ depth, ∃ node ∈ tree.level depth,
        node.occurrence.external = false ∧ node.occurrence.key = key := by
  simp only [expanded, List.mem_map, List.mem_filter, Bool.not_eq_true', mem_preorder_iff]
  constructor
  · rintro ⟨occurrence, ⟨⟨depth, node, nodeMem, rfl⟩, inside⟩, keyEq⟩
    exact ⟨depth, node, nodeMem, inside, keyEq⟩
  · rintro ⟨depth, node, nodeMem, inside, keyEq⟩
    exact ⟨node.occurrence, ⟨⟨depth, node, nodeMem, rfl⟩, inside⟩, keyEq⟩

theorem expanded_leaf {occurrence : Occurrence} (external : occurrence.external = true) :
    (leaf occurrence).expanded = [] := by
  simp [expanded, leaf, preorder, preorderBelow, external]

theorem expanded_node {occurrence : Occurrence} (inside : occurrence.external = false)
    (children : List Tree) :
    (node occurrence children).expanded =
      occurrence.key :: children.flatMap expanded := by
  rw [expanded, preorder, preorderBelow_eq_flatMap,
    List.filter_cons_of_pos (by simp [inside]), List.map_cons, List.filter_flatMap,
    List.map_flatMap]
  rfl

end Tree
end CallTree
