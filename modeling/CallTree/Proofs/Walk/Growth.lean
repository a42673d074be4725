import CallTree.Proofs.Tree.Levels
import CallTree.Walk.Callees
import Mathlib.Data.List.Perm.Basic
import Mathlib.Data.List.Nodup

/-!
# Growth of call trees

A walk grows trees from branches.  A branch that leads to a method becomes an
expanded node when the method is met for the first time and a level is left,
and a leaf otherwise.  The methods that have been expanded are passed on from
each branch to the branches behind it.
-/

namespace CallTree

/-- What hangs below an expanded method: another method, or a call that leads
nowhere. -/
inductive Branch where
  | reach (method : Method)
  | miss (site : CallSite)

/-- The occurrence of a branch that is not expanded. -/
def Branch.occurrence : Branch → Occurrence
  | .reach method => .ofMethod method true
  | .miss site => .unresolved site

/-- What hangs below each method, in order. -/
abbrev CallGraph := Method → List Branch

namespace CallGraph

/-- With the given number of levels left and the given methods expanded before,
the branches grow to the trees, after which the last methods have been
expanded. -/
inductive Grows (graph : CallGraph) :
    Nat → List MethodKey → List Branch → List Tree → List MethodKey → Prop where
  | nil {levels : Nat} {visited : List MethodKey} : Grows graph levels visited [] [] visited
  | miss {levels : Nat} {visited after : List MethodKey} {branches : List Branch}
      {trees : List Tree} (site : CallSite)
      (rest : Grows graph levels visited branches trees after) :
      Grows graph levels visited (.miss site :: branches)
        (.leaf (.unresolved site) :: trees) after
  | cut {levels : Nat} {visited after : List MethodKey} {branches : List Branch}
      {trees : List Tree} {method : Method} (hasClass : method.HasClass)
      (stopped : levels = 0 ∨ method.key ∈ visited)
      (rest : Grows graph levels visited branches trees after) :
      Grows graph levels visited (.reach method :: branches)
        (.leaf (.ofMethod method true) :: trees) after
  | expand {levels : Nat} {visited middle after : List MethodKey} {branches : List Branch}
      {children trees : List Tree} {method : Method} (hasClass : method.HasClass)
      (fresh : method.key ∉ visited)
      (below : Grows graph levels (method.key :: visited) (graph method) children middle)
      (rest : Grows graph (levels + 1) middle branches trees after) :
      Grows graph (levels + 1) visited (.reach method :: branches)
        (.node (.ofMethod method false) children :: trees) after

namespace Grows

variable {graph : CallGraph} {levels : Nat} {visited middle after : List MethodKey}
variable {branches others : List Branch} {trees otherTrees : List Tree}

theorem append (first : Grows graph levels visited branches trees middle)
    (second : Grows graph levels middle others otherTrees after) :
    Grows graph levels visited (branches ++ others) (trees ++ otherTrees) after := by
  induction first with
  | nil => exact second
  | miss site _ ih => exact .miss site (ih second)
  | cut hasClass stopped _ ih => exact .cut hasClass stopped (ih second)
  | expand hasClass fresh below _ _ ih => exact .expand hasClass fresh below (ih second)

theorem occurrences (grows : Grows graph levels visited branches trees after) :
    (trees.map fun tree => tree.occurrence.asLeaf) = branches.map Branch.occurrence := by
  induction grows with
  | nil => rfl
  | miss site _ ih => rw [List.map_cons, List.map_cons, ih]; rfl
  | cut _ _ _ ih => rw [List.map_cons, List.map_cons, ih]; rfl
  | expand _ _ _ _ _ ih => rw [List.map_cons, List.map_cons, ih]; rfl

theorem depth_le (grows : Grows graph levels visited branches trees after) :
    ∀ tree ∈ trees, tree.depth ≤ levels + 1 := by
  induction grows with
  | nil => simp
  | miss site _ ih => simpa [Tree.leaf, Tree.depth, Tree.depthBelow] using ih
  | cut _ _ _ ih => simpa [Tree.leaf, Tree.depth, Tree.depthBelow] using ih
  | expand _ _ _ _ belowIH restIH =>
      intro tree treeMem
      rcases List.mem_cons.mp treeMem with rfl | later
      · have := Tree.depthBelow_le belowIH
        rw [Tree.depth]
        omega
      · exact restIH tree later

/-- The methods expanded by a growth are those at the expanded nodes. -/
theorem visited_perm (grows : Grows graph levels visited branches trees after) :
    after.Perm (trees.flatMap Tree.expanded ++ visited) := by
  induction grows with
  | nil => exact .refl _
  | miss site _ ih =>
      rwa [List.flatMap_cons, Tree.expanded_leaf rfl, List.nil_append]
  | cut _ _ _ ih =>
      rwa [List.flatMap_cons, Tree.expanded_leaf rfl, List.nil_append]
  | @expand levels visited middle after branches children trees method hasClass _ _ _
      belowIH restIH =>
      rw [List.flatMap_cons, Tree.expanded_node rfl, Occurrence.key_ofMethod hasClass]
      -- The growth marks the method, then what is below it, then what is behind it.
      calc
        after.Perm (trees.flatMap Tree.expanded ++ middle) := restIH
        List.Perm _ (trees.flatMap Tree.expanded ++
            (children.flatMap Tree.expanded ++ method.key :: visited)) :=
          belowIH.append_left _
        List.Perm _ (method.key ::
            (trees.flatMap Tree.expanded ++ (children.flatMap Tree.expanded ++ visited))) := by
          rw [← List.append_assoc, ← List.append_assoc]
          exact List.perm_middle
        List.Perm _ (method.key ::
            (children.flatMap Tree.expanded ++ (trees.flatMap Tree.expanded ++ visited))) := by
          apply List.Perm.cons
          rw [← List.append_assoc, ← List.append_assoc]
          exact List.perm_append_comm.append_right visited
        List.Perm _ _ := by
          rw [List.cons_append, List.cons_append, List.append_assoc]

theorem visited_subset (grows : Grows graph levels visited branches trees after) :
    visited ⊆ after := by
  intro key keyMem
  exact grows.visited_perm.mem_iff.mpr (List.mem_append_right _ keyMem)

theorem nodup_visited (grows : Grows graph levels visited branches trees after)
    (distinct : visited.Nodup) : after.Nodup := by
  induction grows with
  | nil => exact distinct
  | miss _ _ ih => exact ih distinct
  | cut _ _ _ ih => exact ih distinct
  | expand _ fresh _ _ belowIH restIH =>
      exact restIH (belowIH (List.nodup_cons.mpr ⟨fresh, distinct⟩))

theorem perm_expanded {tree : Tree} (grows : Grows graph levels [] branches [tree] after) :
    after.Perm tree.expanded := by
  simpa using grows.visited_perm

theorem nodup_expanded {tree : Tree} (grows : Grows graph levels [] branches [tree] after) :
    tree.expanded.Nodup :=
  grows.perm_expanded.nodup_iff.mp (grows.nodup_visited List.nodup_nil)

/-- What holds of the branches, and is handed down by the graph, holds at every
node. -/
theorem exists_branch_of_mem_preorderBelow (holds : Branch → Prop)
    (handed : ∀ method, holds (.reach method) → ∀ branch ∈ graph method, holds branch)
    (grows : Grows graph levels visited branches trees after)
    (here : ∀ branch ∈ branches, holds branch) :
    ∀ occurrence ∈ Tree.preorderBelow trees,
      ∃ branch, holds branch ∧ occurrence.asLeaf = branch.occurrence := by
  induction grows with
  | nil => simp [Tree.preorderBelow]
  | miss site _ ih =>
      obtain ⟨first, rest⟩ := List.forall_mem_cons.mp here
      exact List.forall_mem_cons.mpr ⟨⟨_, first, rfl⟩, ih rest⟩
  | cut _ _ _ ih =>
      obtain ⟨first, rest⟩ := List.forall_mem_cons.mp here
      exact List.forall_mem_cons.mpr ⟨⟨_, first, rfl⟩, ih rest⟩
  | expand _ _ _ _ belowIH restIH =>
      obtain ⟨first, rest⟩ := List.forall_mem_cons.mp here
      refine List.forall_mem_cons.mpr ⟨⟨_, first, rfl⟩, ?_⟩
      exact List.forall_mem_append.mpr ⟨belowIH (handed _ first), restIH rest⟩

end Grows

/-- How a branch stands at a node of a grown tree, `depth` steps below the
roots: a call that leads nowhere; a method that is not expanded, since no level
is left or it is expanded elsewhere; or an expanded method. -/
inductive Stands (graph : CallGraph) (levels : Nat) (visited : List MethodKey) (depth : Nat) :
    Branch → Tree → Prop where
  | miss (site : CallSite) :
      Stands graph levels visited depth (.miss site) (.leaf (.unresolved site))
  | cut {method : Method} (hasClass : method.HasClass)
      (stopped : depth = levels ∨ method.key ∈ visited) :
      Stands graph levels visited depth (.reach method) (.leaf (.ofMethod method true))
  | expanded {method : Method} {children : List Tree} {before after : List MethodKey}
      (hasClass : method.HasClass) (known : method.key ∈ visited) (room : depth < levels)
      (below : Grows graph (levels - (depth + 1)) before (graph method) children after)
      (subset : after ⊆ visited) :
      Stands graph levels visited depth (.reach method)
        (.node (.ofMethod method false) children)

theorem Stands.children_eq_nil {graph : CallGraph} {levels depth : Nat}
    {visited : List MethodKey} {branch : Branch} {node : Tree}
    (stands : Stands graph levels visited depth branch node)
    (external : node.occurrence.external = true) : node.children = [] := by
  cases stands with
  | miss site => rfl
  | cut _ _ => rfl
  | expanded _ _ _ _ _ => cases external

theorem Stands.key_eq {graph : CallGraph} {levels depth : Nat} {visited : List MethodKey}
    {method : Method} {node : Tree}
    (stands : Stands graph levels visited depth (.reach method) node) :
    node.occurrence.key = method.key := by
  cases stands with
  | cut hasClass _ => exact Occurrence.key_ofMethod hasClass true
  | expanded hasClass _ _ _ _ => exact Occurrence.key_ofMethod hasClass false

theorem Stands.below {graph : CallGraph} {levels depth : Nat} {visited after : List MethodKey}
    {branch : Branch} {node : Tree} (stands : Stands graph levels visited depth branch node)
    (subset : visited ⊆ after) : Stands graph (levels + 1) after (depth + 1) branch node := by
  cases stands with
  | miss site => exact .miss site
  | cut hasClass stopped =>
      refine .cut hasClass (stopped.imp ?_ fun known => subset known)
      omega
  | expanded hasClass known room below included =>
      rw [← Nat.add_sub_add_right levels 1 (depth + 1)] at below
      exact .expanded hasClass (subset known) (by omega) below (List.Subset.trans included subset)

/-- The methods lead from one of the branches down to the last branch. -/
def Descends (graph : CallGraph) : List Branch → List Method → Branch → Prop
  | branches, [], last => last ∈ branches
  | branches, method :: methods, last =>
      .reach method ∈ branches ∧ Descends graph (graph method) methods last

theorem Descends.mono {graph : CallGraph} {branches others : List Branch}
    {methods : List Method} {last : Branch} (descends : Descends graph branches methods last)
    (subset : branches ⊆ others) : Descends graph others methods last := by
  cases methods with
  | nil => exact subset descends
  | cons method methods => exact ⟨subset descends.1, descends.2⟩

/-- The methods above a node: they lead to it, no two of them share their key,
and all of them were expanded by the growth. -/
structure Route (graph : CallGraph) (branches : List Branch) (visited after : List MethodKey)
    (methods : List Method) (last : Branch) : Prop where
  descends : Descends graph branches methods last
  distinct : (methods.map Method.key).Nodup
  fresh : ∀ method ∈ methods, method.key ∉ visited
  known : ∀ method ∈ methods, method.key ∈ after

theorem Route.here {graph : CallGraph} {branch : Branch} {branches : List Branch}
    {visited after : List MethodKey} :
    Route graph (branch :: branches) visited after [] branch where
  descends := List.mem_cons_self
  distinct := List.nodup_nil
  fresh := by simp
  known := by simp

theorem Route.behind {graph : CallGraph} {branch : Branch} {branches : List Branch}
    {visited middle after : List MethodKey} {methods : List Method} {last : Branch}
    (route : Route graph branches middle after methods last) (subset : visited ⊆ middle) :
    Route graph (branch :: branches) visited after methods last where
  descends := route.descends.mono (List.subset_cons_self branch branches)
  distinct := route.distinct
  fresh method methodMem visitedMem := route.fresh method methodMem (subset visitedMem)
  known := route.known

/-- A route below an expanded method goes on from the method. -/
theorem Route.cons {graph : CallGraph} {method : Method} {branches : List Branch}
    {visited middle after : List MethodKey} {methods : List Method} {last : Branch}
    (route : Route graph (graph method) (method.key :: visited) middle methods last)
    (fresh : method.key ∉ visited) (known : method.key ∈ middle) (subset : middle ⊆ after) :
    Route graph (.reach method :: branches) visited after (method :: methods) last where
  descends := ⟨List.mem_cons_self, route.descends⟩
  distinct := by
    rw [List.map_cons, List.nodup_cons]
    refine ⟨?_, route.distinct⟩
    intro keyMem
    obtain ⟨other, otherMem, keyEq⟩ := List.mem_map.mp keyMem
    exact route.fresh other otherMem (keyEq ▸ List.mem_cons_self)
  fresh := by
    intro other otherMem
    rcases List.mem_cons.mp otherMem with rfl | later
    · exact fresh
    · exact fun visitedMem => route.fresh other later (List.mem_cons_of_mem _ visitedMem)
  known := by
    intro other otherMem
    rcases List.mem_cons.mp otherMem with rfl | later
    · exact subset known
    · exact subset (route.known other later)

namespace Grows

variable {graph : CallGraph} {levels : Nat} {visited middle after : List MethodKey}
variable {branches others : List Branch} {trees otherTrees : List Tree}

theorem exists_stands (grows : Grows graph levels visited branches trees after)
    {branch : Branch} (branchMem : branch ∈ branches) :
    ∃ tree ∈ trees, Stands graph levels after 0 branch tree := by
  induction grows with
  | nil => cases branchMem
  | miss site _ ih =>
      rcases List.mem_cons.mp branchMem with rfl | later
      · exact ⟨_, List.mem_cons_self, .miss site⟩
      · obtain ⟨tree, treeMem, stands⟩ := ih later
        exact ⟨tree, List.mem_cons_of_mem _ treeMem, stands⟩
  | cut hasClass stopped rest ih =>
      rcases List.mem_cons.mp branchMem with rfl | later
      · exact ⟨_, List.mem_cons_self,
          .cut hasClass (stopped.imp Eq.symm fun known => rest.visited_subset known)⟩
      · obtain ⟨tree, treeMem, stands⟩ := ih later
        exact ⟨tree, List.mem_cons_of_mem _ treeMem, stands⟩
  | expand hasClass fresh below rest _ ih =>
      rcases List.mem_cons.mp branchMem with rfl | later
      · have known := rest.visited_subset (below.visited_subset List.mem_cons_self)
        exact ⟨_, List.mem_cons_self,
          .expanded hasClass known (Nat.succ_pos _) below rest.visited_subset⟩
      · obtain ⟨tree, treeMem, stands⟩ := ih later
        exact ⟨tree, List.mem_cons_of_mem _ treeMem, stands⟩

/-- Every node of a grown tree has a route to it, as long as it lies deep, and
stands for the branch at the end of that route. -/
theorem exists_route (grows : Grows graph levels visited branches trees after) {tree : Tree}
    (treeMem : tree ∈ trees) {depth : Nat} {node : Tree} (nodeMem : node ∈ tree.level depth) :
    ∃ methods last, methods.length = depth ∧ Route graph branches visited after methods last ∧
      Stands graph levels after depth last node := by
  induction grows generalizing tree depth with
  | nil => cases treeMem
  | @miss _ visited _ _ _ site _ ih =>
      rcases List.mem_cons.mp treeMem with rfl | later
      · obtain ⟨rfl, rfl⟩ := Tree.level_leaf nodeMem
        exact ⟨[], .miss site, rfl, .here, .miss site⟩
      · obtain ⟨methods, last, lengthEq, route, stands⟩ := ih later nodeMem
        exact ⟨methods, last, lengthEq, route.behind (List.Subset.refl visited), stands⟩
  | @cut _ visited _ _ _ method hasClass stopped rest ih =>
      rcases List.mem_cons.mp treeMem with rfl | later
      · obtain ⟨rfl, rfl⟩ := Tree.level_leaf nodeMem
        exact ⟨[], .reach method, rfl, .here,
          .cut hasClass (stopped.imp Eq.symm fun known => rest.visited_subset known)⟩
      · obtain ⟨methods, last, lengthEq, route, stands⟩ := ih later nodeMem
        exact ⟨methods, last, lengthEq, route.behind (List.Subset.refl visited), stands⟩
  | @expand levels visited middle after _ children _ method hasClass fresh below rest
      belowIH restIH =>
      have known : method.key ∈ middle := below.visited_subset List.mem_cons_self
      rcases List.mem_cons.mp treeMem with rfl | later
      · cases depth with
        | zero =>
            rw [Tree.mem_level_zero] at nodeMem
            subst node
            exact ⟨[], .reach method, rfl, .here,
              .expanded hasClass (rest.visited_subset known) (by omega) below
                rest.visited_subset⟩
        | succ depth =>
            -- The route to a node below the method is the one below it, behind the method.
            obtain ⟨child, childMem, inside⟩ := Tree.mem_level_succ.mp nodeMem
            obtain ⟨methods, last, lengthEq, route, stands⟩ := belowIH childMem inside
            exact ⟨method :: methods, last, by simp [lengthEq],
              route.cons fresh known rest.visited_subset, stands.below rest.visited_subset⟩
      · obtain ⟨methods, last, lengthEq, route, stands⟩ := restIH later nodeMem
        have subset : visited ⊆ middle :=
          fun key keyMem => below.visited_subset (List.mem_cons_of_mem _ keyMem)
        exact ⟨methods, last, lengthEq, route.behind subset, stands⟩

end Grows
end CallGraph
end CallTree
