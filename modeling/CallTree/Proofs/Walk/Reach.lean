import CallTree.Proofs.Walk.Growth
import Mathlib.Data.Finset.Card
import Mathlib.Order.Bounds.Basic

/-!
# What grown trees reach

The nodes of a tree grown from one root, one step down and one step up.  With
enough levels no method is cut for want of one, and the expanded methods are
the least set that holds the root and is closed under the steps of the graph.
-/

namespace CallTree
namespace CallGraph

variable {graph : CallGraph} {levels depth : Nat} {after : List MethodKey} {root : Method}
variable {tree node : Tree}

/-- An expanded node stands for a method, and every method that the graph leads
to from there stands one step below.  It is expanded somewhere unless that step
takes the last level. -/
theorem Grows.exists_children (grows : Grows graph levels [] [.reach root] [tree] after)
    (nodeMem : node ∈ tree.level depth) (inside : node.occurrence.external = false) :
    ∃ method, method.HasClass ∧ node.occurrence = .ofMethod method false ∧
      (node.children.map fun child => child.occurrence.asLeaf) =
        (graph method).map Branch.occurrence ∧
      ∀ other, .reach other ∈ graph method →
        ∃ child ∈ tree.level (depth + 1), child.occurrence.key = other.key ∧
          (other.key ∈ tree.expanded ∨ depth + 1 = levels) := by
  obtain ⟨_, _, _, _, stands⟩ := grows.exists_route (List.mem_singleton.mpr rfl) nodeMem
  cases stands with
  | miss site => cases inside
  | cut _ _ => cases inside
  | @expanded method children before middle hasClass _ room below subset =>
      refine ⟨method, hasClass, rfl, below.occurrences, ?_⟩
      intro other otherMem
      obtain ⟨child, childMem, childStands⟩ := below.exists_stands otherMem
      have childLevel : child ∈ tree.level (depth + 1) :=
        Tree.mem_level_succ_of_mem_children nodeMem childMem
      have expands {key : MethodKey} (keyMem : key ∈ middle) : key ∈ tree.expanded :=
        grows.perm_expanded.mem_iff.mp (subset keyMem)
      cases childStands with
      | cut otherHasClass stopped =>
          refine ⟨_, childLevel, Occurrence.key_ofMethod otherHasClass true, ?_⟩
          rcases stopped with atEnd | known
          · right
            omega
          · exact .inl (expands known)
      | expanded otherHasClass known _ _ _ =>
          exact ⟨_, childLevel, Occurrence.key_ofMethod otherHasClass false,
            .inl (expands known)⟩

/-- A node below the root hangs on an expanded one, and the graph leads there. -/
theorem Grows.exists_parent (grows : Grows graph levels [] [.reach root] [tree] after)
    (nodeMem : node ∈ tree.level (depth + 1)) (inside : node.occurrence.external = false) :
    ∃ parent ∈ tree.level depth, ∃ method other,
      method.HasClass ∧ parent.occurrence = .ofMethod method false ∧
      other.HasClass ∧ node.occurrence = .ofMethod other false ∧
      .reach other ∈ graph method := by
  obtain ⟨parent, parentMem, childMem⟩ := Tree.exists_parent nodeMem
  refine ⟨parent, parentMem, ?_⟩
  obtain ⟨_, _, _, _, stands⟩ := grows.exists_route (List.mem_singleton.mpr rfl) parentMem
  cases stands with
  | miss site => cases childMem
  | cut _ _ => cases childMem
  | @expanded method _ _ _ hasClass _ _ below _ =>
      obtain ⟨methods, last, lengthEq, route, childStands⟩ :=
        below.exists_route childMem (Tree.mem_level_zero.mpr rfl)
      obtain rfl := List.length_eq_zero_iff.mp lengthEq
      have lastMem : last ∈ graph method := route.descends
      cases childStands with
      | miss site => cases inside
      | cut _ _ => cases inside
      | @expanded other _ _ _ otherHasClass _ _ _ _ =>
          exact ⟨method, other, hasClass, rfl, otherHasClass, rfl, lastMem⟩

theorem Grows.root_eq (grows : Grows graph (levels + 1) [] [.reach root] [tree] after) :
    root.HasClass ∧ ∃ children, tree = .node (.ofMethod root false) children := by
  cases grows with
  | cut _ stopped _ => simp at stopped
  | expand hasClass _ _ rest =>
      cases rest
      exact ⟨hasClass, _, rfl⟩

theorem Grows.root_mem_expanded
    (grows : Grows graph (levels + 1) [] [.reach root] [tree] after) :
    root.key ∈ tree.expanded := by
  obtain ⟨hasClass, children, rfl⟩ := grows.root_eq
  rw [Tree.expanded_node rfl, Occurrence.key_ofMethod hasClass]
  exact List.mem_cons_self

theorem Grows.key_ne_root (grows : Grows graph (levels + 1) [] [.reach root] [tree] after)
    (nodeMem : node ∈ tree.level (depth + 1)) (inside : node.occurrence.external = false) :
    node.occurrence.key ≠ root.key := by
  intro keyEq
  obtain ⟨hasClass, children, rfl⟩ := grows.root_eq
  -- The root comes first among the expanded methods, which are distinct.
  have distinct := grows.nodup_expanded
  rw [Tree.expanded_node rfl, List.nodup_cons, Occurrence.key_ofMethod hasClass] at distinct
  obtain ⟨child, childMem, below⟩ := Tree.mem_level_succ.mp nodeMem
  apply distinct.1
  refine List.mem_flatMap.mpr ⟨child, childMem, ?_⟩
  exact Tree.mem_expanded_iff.mpr ⟨depth, node, below, inside, keyEq⟩

theorem Descends.forall_mem {known : Method → Prop}
    (stays : ∀ method other, known method → .reach other ∈ graph method → known other)
    {branches : List Branch} {methods : List Method} {last : Branch}
    (start : ∀ method, .reach method ∈ branches → known method)
    (descends : Descends graph branches methods last) : ∀ method ∈ methods, known method := by
  induction methods generalizing branches with
  | nil => simp
  | cons first methods ih =>
      have firstKnown := start first descends.1
      intro method methodMem
      rcases List.mem_cons.mp methodMem with rfl | later
      · exact firstKnown
      · exact ih (fun other otherMem => stays first other firstKnown otherMem) descends.2
          method later

section Closure

variable {known : Method → Prop} (rootKnown : known root)
variable (stays : ∀ method other, known method → .reach other ∈ graph method → known other)

include rootKnown stays

/-- The way down to a node meets as many methods as it has steps. -/
theorem Grows.depth_le_card (grows : Grows graph levels [] [.reach root] [tree] after)
    {keys : Finset MethodKey} (within : ∀ method, known method → method.key ∈ keys)
    (nodeMem : node ∈ tree.level depth) : depth ≤ keys.card := by
  obtain ⟨methods, last, rfl, route, _⟩ :=
    grows.exists_route (List.mem_singleton.mpr rfl) nodeMem
  have start : ∀ method, .reach method ∈ [Branch.reach root] → known method := by
    intro method methodMem
    cases List.mem_singleton.mp methodMem
    exact rootKnown
  have subset : (methods.map Method.key).toFinset ⊆ keys := by
    intro key keyMem
    obtain ⟨method, methodMem, rfl⟩ := List.mem_map.mp (List.mem_toFinset.mp keyMem)
    exact within method (route.descends.forall_mem stays start method methodMem)
  calc
    methods.length = (methods.map Method.key).length := by rw [List.length_map]
    _ = (methods.map Method.key).toFinset.card :=
      (List.toFinset_card_of_nodup route.distinct).symm
    _ ≤ keys.card := Finset.card_le_card subset

theorem Grows.exists_known (grows : Grows graph (levels + 1) [] [.reach root] [tree] after)
    (nodeMem : node ∈ tree.level depth) (inside : node.occurrence.external = false) :
    ∃ method, method.HasClass ∧ node.occurrence = .ofMethod method false ∧ known method ∧
      (method = root ∨ method.key ≠ root.key) := by
  induction depth generalizing node with
  | zero =>
      rw [Tree.mem_level_zero] at nodeMem
      obtain ⟨hasClass, children, rfl⟩ := grows.root_eq
      subst node
      exact ⟨root, hasClass, rfl, rootKnown, .inl rfl⟩
  | succ depth ih =>
      obtain ⟨parent, parentMem, method, other, hasClass, parentEq, otherHasClass, nodeEq,
        leads⟩ := grows.exists_parent nodeMem inside
      obtain ⟨above, aboveHasClass, aboveEq, aboveKnown, _⟩ :=
        ih parentMem (by rw [parentEq]; rfl)
      have sameMethod : above = method :=
        Occurrence.ofMethod_injective aboveHasClass hasClass (aboveEq.symm.trans parentEq)
      subst above
      have distinct := grows.key_ne_root nodeMem inside
      rw [nodeEq, Occurrence.key_ofMethod otherHasClass] at distinct
      exact ⟨other, otherHasClass, nodeEq, stays method other aboveKnown leads, .inr distinct⟩

variable {leads : MethodKey → MethodKey → Prop}
variable (agrees : ∀ method, method.HasClass → known method →
  (method = root ∨ method.key ≠ root.key) → ∀ key,
    leads method.key key ↔ ∃ other, .reach other ∈ graph method ∧ other.key = key)

include agrees

/-- With more levels than there are keys, no step leads out of the expanded
methods: a step that takes the last level would have met more methods on its
way than there are keys. -/
theorem Grows.mem_expanded_of_leads
    (grows : Grows graph (levels + 1) [] [.reach root] [tree] after)
    {keys : Finset MethodKey} (within : ∀ method, known method → method.key ∈ keys)
    (deep : keys.card ≤ levels) {key other : MethodKey} (keyMem : key ∈ tree.expanded)
    (step : leads key other) : other ∈ tree.expanded := by
  obtain ⟨depth, node, nodeMem, inside, rfl⟩ := Tree.mem_expanded_iff.mp keyMem
  obtain ⟨method, hasClass, nodeEq, methodKnown, own⟩ :=
    grows.exists_known rootKnown stays nodeMem inside
  obtain ⟨same, sameHasClass, sameEq, _, reaches⟩ := grows.exists_children nodeMem inside
  have sameMethod : same = method :=
    Occurrence.ofMethod_injective sameHasClass hasClass (sameEq.symm.trans nodeEq)
  subst same
  rw [nodeEq, Occurrence.key_ofMethod hasClass] at step
  obtain ⟨callee, calleeMem, rfl⟩ := (agrees method hasClass methodKnown own other).mp step
  obtain ⟨child, childMem, _, expanded | atEnd⟩ := reaches callee calleeMem
  · exact expanded
  · have := grows.depth_le_card rootKnown stays within childMem
    omega

/-- Every set that holds the root and is closed under the steps holds the
expanded methods, whatever the number of levels. -/
theorem Grows.mem_of_mem_expanded
    (grows : Grows graph (levels + 1) [] [.reach root] [tree] after) {set : Set MethodKey}
    (rootMem : root.key ∈ set)
    (closed : ∀ key ∈ set, ∀ other, leads key other → other ∈ set)
    (nodeMem : node ∈ tree.level depth) (inside : node.occurrence.external = false) :
    node.occurrence.key ∈ set := by
  induction depth generalizing node with
  | zero =>
      rw [Tree.mem_level_zero] at nodeMem
      obtain ⟨hasClass, children, rfl⟩ := grows.root_eq
      subst node
      rw [Tree.occurrence, Occurrence.key_ofMethod hasClass]
      exact rootMem
  | succ depth ih =>
      obtain ⟨parent, parentMem, method, other, hasClass, parentEq, otherHasClass, nodeEq,
        leadsTo⟩ := grows.exists_parent nodeMem inside
      have parentInside : parent.occurrence.external = false := by rw [parentEq]; rfl
      obtain ⟨same, sameHasClass, sameEq, sameKnown, own⟩ :=
        grows.exists_known rootKnown stays parentMem parentInside
      have sameMethod : same = method :=
        Occurrence.ofMethod_injective sameHasClass hasClass (sameEq.symm.trans parentEq)
      subst same
      have parentIn := ih parentMem parentInside
      rw [parentEq, Occurrence.key_ofMethod hasClass] at parentIn
      rw [nodeEq, Occurrence.key_ofMethod otherHasClass]
      exact closed method.key parentIn other.key
        ((agrees method hasClass sameKnown own other.key).mpr ⟨other, leadsTo, rfl⟩)

/-- With more levels than there are keys, the expanded methods are the least set
that holds the root and is closed under the steps. -/
theorem Grows.isLeast_expanded
    (grows : Grows graph (levels + 1) [] [.reach root] [tree] after)
    {keys : Finset MethodKey} (within : ∀ method, known method → method.key ∈ keys)
    (deep : keys.card ≤ levels) :
    IsLeast {set : Set MethodKey |
        root.key ∈ set ∧ ∀ key ∈ set, ∀ other, leads key other → other ∈ set}
      {key | key ∈ tree.expanded} := by
  refine ⟨⟨grows.root_mem_expanded, ?_⟩, ?_⟩
  · intro key keyMem other step
    exact grows.mem_expanded_of_leads rootKnown stays agrees within deep keyMem step
  · rintro set ⟨rootMem, closed⟩ key keyMem
    obtain ⟨depth, node, nodeMem, inside, rfl⟩ := Tree.mem_expanded_iff.mp keyMem
    exact grows.mem_of_mem_expanded rootKnown stays agrees rootMem closed nodeMem inside

end Closure
end CallGraph
end CallTree
