import CallTree.Proofs.Tree.Leveled
import Mathlib.Order.Bounds.Basic

/-!
# Visits of a tree

The visit that keeps the waiting trees on a stack meets the nodes in preorder.
So the measures of a tree, which are taken from its children's, can be read off
the visit: it meets as many nodes as the tree has, as many of them pass a test as
there are in the tree, and the deepest of them lies on the last level.
-/

namespace CallTree
namespace Tree

theorem preorderBelow_append (first second : List Tree) :
    preorderBelow (first ++ second) = preorderBelow first ++ preorderBelow second := by
  induction first with
  | nil => rfl
  | cons tree trees ih =>
      rw [List.cons_append, preorderBelow, preorderBelow, ih, List.append_assoc]

/-- The waiting trees are visited one after another, each in preorder. -/
theorem visit_eq_preorderBelow (waiting : List Tree) : visit waiting = preorderBelow waiting := by
  fun_induction visit waiting with
  | case1 => rfl
  | case2 occurrence children waiting ih =>
      rw [ih, preorderBelow_append, preorderBelow, preorder, List.cons_append]

theorem nodes_eq_preorderBelow (tree : Tree) : tree.nodes = preorderBelow [tree] :=
  visit_eq_preorderBelow [tree]

theorem nodes_eq_preorder (tree : Tree) : tree.nodes = tree.preorder := by
  rw [nodes_eq_preorderBelow, preorderBelow, preorderBelow, List.append_nil]

mutual

/-- The number of nodes that pass a test. -/
def count (test : Occurrence → Bool) : Tree → Nat
  | node occurrence children => (test occurrence).toNat + countBelow test children

def countBelow (test : Occurrence → Bool) : List Tree → Nat
  | [] => 0
  | tree :: trees => tree.count test + countBelow test trees

end

mutual

theorem countP_preorder (test : Occurrence → Bool) :
    (tree : Tree) → tree.preorder.countP test = tree.count test
  | node occurrence children => by
      rw [preorder, count, List.countP_cons, countP_preorderBelow test children, Nat.add_comm]
      cases test occurrence <;> rfl

theorem countP_preorderBelow (test : Occurrence → Bool) :
    (trees : List Tree) → (preorderBelow trees).countP test = countBelow test trees
  | [] => rfl
  | tree :: trees => by
      rw [preorderBelow, countBelow, List.countP_append, countP_preorder test tree,
        countP_preorderBelow test trees]

end

mutual

/-- No node lies deeper than the depth of its tree. -/
theorem lt_of_mem_leveled {level : Nat} {place : Nat × Occurrence} :
    (tree : Tree) → place ∈ tree.leveled level → place.1 < level + tree.depth
  | node occurrence children, member => by
      rw [leveled, List.mem_cons] at member
      rw [depth]
      rcases member with rfl | below
      · omega
      · have bounded := lt_of_mem_leveledBelow children below
        omega

theorem lt_of_mem_leveledBelow {level : Nat} {place : Nat × Occurrence} :
    (trees : List Tree) → place ∈ leveledBelow level trees → place.1 < level + depthBelow trees
  | [], member => by cases member
  | tree :: trees, member => by
      rw [leveledBelow, List.mem_append] at member
      rw [depthBelow]
      rcases member with here | later
      · have bounded := lt_of_mem_leveled tree here
        omega
      · have bounded := lt_of_mem_leveledBelow trees later
        omega

end

mutual

/-- Some node lies as deep as its tree is. -/
theorem exists_mem_leveled (level : Nat) :
    (tree : Tree) → ∃ place ∈ tree.leveled level, place.1 + 1 = level + tree.depth
  | node occurrence children => by
      rw [leveled, depth]
      by_cases childless : children = []
      · subst childless
        exact ⟨(level, occurrence), List.mem_cons_self, rfl⟩
      · obtain ⟨place, placeMem, deep⟩ := exists_mem_leveledBelow (level + 1) children childless
        exact ⟨place, List.mem_cons_of_mem _ placeMem, by omega⟩

theorem exists_mem_leveledBelow (level : Nat) :
    (trees : List Tree) → trees ≠ [] →
      ∃ place ∈ leveledBelow level trees, place.1 + 1 = level + depthBelow trees
  | [], nonempty => absurd rfl nonempty
  | tree :: trees, _ => by
      rw [leveledBelow, depthBelow]
      by_cases first : depthBelow trees ≤ tree.depth
      · obtain ⟨place, placeMem, deep⟩ := exists_mem_leveled level tree
        exact ⟨place, List.mem_append_left _ placeMem, by omega⟩
      · have nonempty : trees ≠ [] := by
          rintro rfl
          exact first (Nat.zero_le _)
        obtain ⟨place, placeMem, deep⟩ := exists_mem_leveledBelow level trees nonempty
        exact ⟨place, List.mem_append_right _ placeMem, by omega⟩

end

/-- The depth of a tree is one more than the deepest level that has a node. -/
theorem exists_isGreatest_level (tree : Tree) :
    ∃ deepest, IsGreatest {level | ∃ occurrence, (level, occurrence) ∈ tree.leveled 0} deepest ∧
      tree.depth = 1 + deepest := by
  obtain ⟨⟨deepest, occurrence⟩, placeMem, deep⟩ := exists_mem_leveled 0 tree
  refine ⟨deepest, ⟨⟨occurrence, placeMem⟩, ?_⟩, by omega⟩
  rintro level ⟨other, otherMem⟩
  have bounded := lt_of_mem_leveled tree otherMem
  omega

/-- A visit meets the nodes of a tree in preorder, each on the level that the
leveled list gives it.  The number of nodes met, the number of external ones among
them and the deepest of their levels are the measures of the tree. -/
theorem nodes_preorder_and_measures (tree : Tree) :
    tree.nodes = tree.preorder ∧
      tree.nodes.length = tree.size ∧
      tree.externalCount = tree.count Occurrence.external ∧
      (tree.leveled 0).map Prod.snd = tree.nodes ∧
      ∃ deepest,
        IsGreatest {level | ∃ occurrence, (level, occurrence) ∈ tree.leveled 0} deepest ∧
        tree.depth = 1 + deepest := by
  have places : (tree.leveled 0).map Prod.snd = tree.nodes := by
    rw [nodes_eq_preorder, map_snd_leveled]
  refine ⟨nodes_eq_preorder tree, ?_, ?_, places, exists_isGreatest_level tree⟩
  · rw [← places, List.length_map, length_leveled]
  · rw [externalCount, nodes_eq_preorder, countP_preorder]

end Tree
end CallTree
