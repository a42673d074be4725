import CallTree.Tree
import Mathlib.Data.List.Forall2

/-!
# Leveled lists

The nodes of a tree in preorder, each with its level.  The levels alone tell where
the children of a node end, so the list determines the shape of the tree.
-/

namespace CallTree
namespace Tree

/-- Trees of the same shape with the same method names at the same places. -/
inductive SameNames : Tree → Tree → Prop
  | node {first second : Occurrence} {firstChildren secondChildren : List Tree} :
      first.method = second.method → List.Forall₂ SameNames firstChildren secondChildren →
      SameNames (.node first firstChildren) (.node second secondChildren)

mutual

/-- The nodes in preorder with their levels, where the root is at `level`. -/
def leveled (level : Nat) : Tree → List (Nat × Occurrence)
  | node occurrence children => (level, occurrence) :: leveledBelow (level + 1) children

def leveledBelow (level : Nat) : List Tree → List (Nat × Occurrence)
  | [] => []
  | tree :: trees => tree.leveled level ++ leveledBelow level trees

end

mutual

theorem map_snd_leveled (level : Nat) :
    (tree : Tree) → (tree.leveled level).map Prod.snd = tree.preorder
  | node occurrence children => by
      rw [leveled, preorder, List.map_cons, map_snd_leveledBelow (level + 1) children]

theorem map_snd_leveledBelow (level : Nat) :
    (trees : List Tree) → (leveledBelow level trees).map Prod.snd = preorderBelow trees
  | [] => rfl
  | tree :: trees => by
      rw [leveledBelow, preorderBelow, List.map_append, map_snd_leveled level tree,
        map_snd_leveledBelow level trees]

end

mutual

theorem length_leveled (level : Nat) : (tree : Tree) → (tree.leveled level).length = tree.size
  | node occurrence children => by
      rw [leveled, size, List.length_cons, length_leveledBelow (level + 1) children, Nat.add_comm]

theorem length_leveledBelow (level : Nat) :
    (trees : List Tree) → (leveledBelow level trees).length = sizeBelow trees
  | [] => rfl
  | tree :: trees => by
      rw [leveledBelow, sizeBelow, List.length_append, length_leveled level tree,
        length_leveledBelow level trees]

end

/-- What a line of an outline shows of a node: its level and the name of its
method. -/
def label (place : Nat × Occurrence) : Nat × String :=
  (place.1, place.2.method)

/-- The list does not go on at or below the given level. -/
def EndsAbove (level : Nat) (rest : List (Nat × String)) : Prop :=
  ∀ next ∈ rest.head?, next.1 < level

theorem EndsAbove.succ {level : Nat} {rest : List (Nat × String)} (ends : EndsAbove level rest) :
    EndsAbove (level + 1) rest :=
  fun next starts => Nat.lt_succ_of_lt (ends next starts)

theorem endsAbove_leveledBelow {level : Nat} {rest : List (Nat × String)}
    (ends : EndsAbove level rest) (trees : List Tree) :
    EndsAbove (level + 1) ((leveledBelow level trees).map label ++ rest) := by
  cases trees with
  | nil => exact ends.succ
  | cons tree trees =>
      cases tree with
      | node occurrence children =>
          intro next starts
          cases starts
          exact Nat.lt_succ_self level

mutual

/-- A tree is read back from the labels that a list starts with, when the list goes
on above the level of its children. -/
theorem sameNames_of_leveled {level : Nat} {rest rest' : List (Nat × String)}
    (ends : EndsAbove (level + 1) rest) (ends' : EndsAbove (level + 1) rest') :
    (first second : Tree) →
      (first.leveled level).map label ++ rest = (second.leveled level).map label ++ rest' →
      first.SameNames second ∧ rest = rest'
  | node occurrence children, node occurrence' children', same => by
      simp only [leveled, List.map_cons, List.cons_append, List.cons.injEq] at same
      obtain ⟨here, below⟩ := same
      obtain ⟨shapes, restEq⟩ :=
        forall₂_sameNames_of_leveledBelow ends ends' children children' below
      exact ⟨.node (congrArg Prod.snd here) shapes, restEq⟩

theorem forall₂_sameNames_of_leveledBelow {level : Nat} {rest rest' : List (Nat × String)}
    (ends : EndsAbove level rest) (ends' : EndsAbove level rest') :
    (first second : List Tree) →
      (leveledBelow level first).map label ++ rest =
        (leveledBelow level second).map label ++ rest' →
      List.Forall₂ SameNames first second ∧ rest = rest'
  | [], [], same => ⟨.nil, same⟩
  | [], node occurrence children :: trees, same => by
      -- The rest would have to start at this level.
      change rest = _ at same
      rw [same] at ends
      exact absurd (ends (level, occurrence.method) rfl) (Nat.lt_irrefl level)
  | node occurrence children :: trees, [], same => by
      change _ = rest' at same
      rw [← same] at ends'
      exact absurd (ends' (level, occurrence.method) rfl) (Nat.lt_irrefl level)
  | tree :: trees, tree' :: trees', same => by
      simp only [leveledBelow, List.map_append, List.append_assoc] at same
      obtain ⟨shape, later⟩ := sameNames_of_leveled (endsAbove_leveledBelow ends trees)
        (endsAbove_leveledBelow ends' trees') tree tree' same
      obtain ⟨shapes, restEq⟩ := forall₂_sameNames_of_leveledBelow ends ends' trees trees' later
      exact ⟨.cons shape shapes, restEq⟩

end

/-- The levels and names in preorder determine the names at all places. -/
theorem sameNames_of_map_label_eq {level : Nat} {first second : Tree}
    (same : (first.leveled level).map label = (second.leveled level).map label) :
    first.SameNames second := by
  have closed : EndsAbove (level + 1) [] := fun _ starts => absurd starts (by simp)
  exact (sameNames_of_leveled closed closed first second (by rw [same])).1

end Tree
end CallTree
