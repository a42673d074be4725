import CallTree.Proofs.Analysis.Outcome
import CallTree.Proofs.Walk.Reach

/-!
# What deep analyses expand

In unambiguous files the key of a method decides where a step leads from it.
With more levels than there are keys, an analysis expands the methods that can
be reached by such steps, and no others.  The order of the listing does not
matter to the callers.
-/

namespace CallTree
namespace Corpus

variable {corpus : Corpus} {root : Method}

/-- The methods that an analysis of a root may meet: the root itself and the
definitions of its file and of the listed ones. -/
def scope (corpus : Corpus) (root : Method) : List Method :=
  root :: (corpus.file :: corpus.files).flatMap corpus.definitions

/-- The keys of the methods that an analysis may meet. -/
def keys (corpus : Corpus) (root : Method) : Finset MethodKey :=
  ((corpus.scope root).map Method.key).toFinset

/-- The definition stands for its key in an analysis of the root, which stands
for its own key whatever is defined under it. -/
def StandsFor (corpus : Corpus) (root method : Method) (key : MethodKey) : Prop :=
  method.key = key ∧ method ∈ corpus.scope root ∧ (method = root ∨ method.key ≠ root.key)

/-- A step of an analysis in the given direction leads from a key to another. -/
def Leads (corpus : Corpus) (root : Method) : Direction → MethodKey → MethodKey → Prop
  | .up, key, other => corpus.CalledBy key other
  | .down, key, other => ∃ method, corpus.StandsFor root method key ∧
      ∃ site ∈ corpus.sites method, ∃ callee,
        corpus.resolve? site method.file = some callee ∧ callee.key = other

theorem mem_scope_iff {method : Method} :
    method ∈ corpus.scope root ↔
      method = root ∨ ∃ file ∈ corpus.file :: corpus.files, method ∈ corpus.definitions file := by
  rw [scope, List.mem_cons, List.mem_flatMap]

theorem reach_mem_calleeGraph_iff {method callee : Method} :
    .reach callee ∈ corpus.calleeGraph method ↔
      ∃ site ∈ corpus.sites method, corpus.resolve? site method.file = some callee := by
  have branchEq (site : CallSite) : corpus.branch method.file site = .reach callee ↔
      corpus.resolve? site method.file = some callee := by
    rw [branch]
    cases corpus.resolve? site method.file <;> simp
  simp only [calleeGraph, List.mem_map, branchEq]

theorem StandsFor.unique
    (unambiguous : ∀ file ∈ corpus.file :: corpus.files, corpus.Unambiguous file)
    {first second : Method} {key : MethodKey} (stands : corpus.StandsFor root first key)
    (other : corpus.StandsFor root second key) : first = second := by
  obtain ⟨firstKey, firstMem, firstOwn⟩ := stands
  obtain ⟨secondKey, secondMem, secondOwn⟩ := other
  have keyEq : first.key = second.key := firstKey.trans secondKey.symm
  by_cases isRoot : first.key = root.key
  · rw [firstOwn.resolve_right (not_not_intro isRoot),
      secondOwn.resolve_right (not_not_intro (keyEq ▸ isRoot))]
  · have notRoot {method : Method} (sameKey : first.key = method.key) : method ≠ root := by
      rintro rfl
      exact isRoot sameKey
    obtain ⟨file, fileMem, defined⟩ := (mem_scope_iff.mp firstMem).resolve_left (notRoot rfl)
    obtain ⟨otherFile, _, otherDefined⟩ :=
      (mem_scope_iff.mp secondMem).resolve_left (notRoot keyEq)
    -- A key names its file, so both definitions stand in the same one.
    have sameFile : otherFile = file := by
      rw [← file_of_mem_definitions defined, ← file_of_mem_definitions otherDefined]
      exact (congrArg MethodKey.file keyEq).symm
    rw [sameFile] at otherDefined
    exact List.inj_on_of_nodup_map (unambiguous file fileMem) defined otherDefined keyEq

/-- The graph of either direction stays among the methods in scope. -/
theorem mem_scope_of_reach (direction : Direction) {method other : Method}
    (member : method ∈ corpus.scope root)
    (reached : .reach other ∈ corpus.graph direction method) (fileEq : root.file = corpus.file) :
    other ∈ corpus.scope root := by
  rw [mem_scope_iff]
  right
  cases direction with
  | up =>
      obtain ⟨caller, callerMem, sameCaller⟩ := List.mem_map.mp reached
      cases sameCaller
      obtain ⟨file, fileMem, defined, _⟩ := mem_countedCallers_iff.mp callerMem
      exact ⟨file, List.mem_cons_of_mem _ fileMem, defined⟩
  | down =>
      obtain ⟨site, _, resolved⟩ := reach_mem_calleeGraph_iff.mp reached
      obtain ⟨defined, here | listed⟩ := mem_definitions_of_resolve? resolved
      · refine ⟨other.file, ?_, defined⟩
        rw [here]
        rcases mem_scope_iff.mp member with rfl | ⟨file, fileMem, methodDefined⟩
        · exact fileEq ▸ List.mem_cons_self
        · exact file_of_mem_definitions methodDefined ▸ fileMem
      · exact ⟨other.file, List.mem_cons_of_mem _ listed, defined⟩

/-- In unambiguous files the steps between keys are those of the graph. -/
theorem leads_iff (unambiguous : ∀ file ∈ corpus.file :: corpus.files, corpus.Unambiguous file)
    (direction : Direction) {method : Method} (member : method ∈ corpus.scope root)
    (own : method = root ∨ method.key ≠ root.key) (key : MethodKey) :
    corpus.Leads root direction method.key key ↔
      ∃ other, .reach other ∈ corpus.graph direction method ∧ other.key = key := by
  cases direction with
  | up =>
      have listed : ∀ file ∈ corpus.files, corpus.Unambiguous file :=
        fun file fileMem => unambiguous file (List.mem_cons_of_mem _ fileMem)
      simp only [Leads, CalledBy, graph, reach_mem_callerGraph_iff listed]
  | down =>
      simp only [Leads, graph, reach_mem_calleeGraph_iff]
      constructor
      · rintro ⟨same, stands, site, siteMem, callee, resolved, keyEq⟩
        cases stands.unique unambiguous ⟨rfl, member, own⟩
        exact ⟨callee, ⟨site, siteMem, resolved⟩, keyEq⟩
      · rintro ⟨callee, ⟨site, siteMem, resolved⟩, keyEq⟩
        exact ⟨method, ⟨rfl, member, own⟩, site, siteMem, callee, resolved, keyEq⟩

/-- A tree grown with more levels than there are keys expands the least set of
keys that holds the root and is closed under steps. -/
theorem isLeast_expanded
    (unambiguous : ∀ file ∈ corpus.file :: corpus.files, corpus.Unambiguous file)
    (fileEq : root.file = corpus.file) {direction : Direction} {levels : Nat} {tree : Tree}
    {after : List MethodKey}
    (grows : (corpus.graph direction).Grows levels [] [.reach root] [tree] after)
    (deep : (corpus.keys root).card < levels) :
    IsLeast {set : Set MethodKey | root.key ∈ set ∧
        ∀ key ∈ set, ∀ other, corpus.Leads root direction key other → other ∈ set}
      {key | key ∈ tree.expanded} := by
  obtain ⟨levels, rfl⟩ := Nat.exists_eq_add_of_lt deep
  have within (method : Method) (member : method ∈ corpus.scope root) :
      method.key ∈ corpus.keys root :=
    List.mem_toFinset.mpr (List.mem_map_of_mem member)
  exact grows.isLeast_expanded List.mem_cons_self
    (fun _ _ member reached => mem_scope_of_reach direction member reached fileEq)
    (fun _ _ member own => leads_iff unambiguous direction member own)
    within (Nat.le_add_right _ _)

/-- The same corpus with another listing. -/
def relist (corpus : Corpus) (listing : List String) : Corpus :=
  { corpus with project := { corpus.project with listing := .ok listing } }

section Relist

variable {listing : List String} (permuted : corpus.files.Perm listing)

include permuted

theorem calledBy_relist_iff {target caller : MethodKey} :
    (corpus.relist listing).CalledBy target caller ↔ corpus.CalledBy target caller := by
  have sameCallers : ((corpus.relist listing).callersOf target).Perm (corpus.callersOf target) :=
    permuted.symm.flatMap_right _
  simp only [CalledBy, sameCallers.mem_iff]

theorem keys_relist : (corpus.relist listing).keys root = corpus.keys root := by
  have sameScope : ((corpus.relist listing).scope root).Perm (corpus.scope root) :=
    ((permuted.symm.cons _).flatMap_right _).cons root
  exact List.toFinset_eq_of_perm _ _ (sameScope.map Method.key)

theorem unambiguous_relist
    (unambiguous : ∀ file ∈ corpus.file :: corpus.files, corpus.Unambiguous file) :
    ∀ file ∈ (corpus.relist listing).file :: (corpus.relist listing).files,
      (corpus.relist listing).Unambiguous file := by
  intro file fileMem
  exact unambiguous file ((permuted.symm.cons corpus.file).mem_iff.mp fileMem)

/-- A walk to the callers that has expanded its root runs with any order of the
listing. -/
theorem exists_runs_relist {levels : Nat} {metrics : Metrics} {tree : Tree}
    {after : Walk (List Candidate)} (hasClass : root.HasClass)
    (runs : Walk.Runs (Walk.callers corpus.project corpus.rules (levels + 1) root)
      { loaded := [(corpus.file, some (Candidate.ofText corpus.rules corpus.file corpus.text))],
        metrics } tree after) :
    ∃ other finish, Walk.Runs
      (Walk.callers (corpus.relist listing).project corpus.rules (levels + 1) root)
      { loaded := [(corpus.file, some (Candidate.ofText corpus.rules corpus.file corpus.text))],
        metrics } other finish := by
  have start := Walk.Faithful.start corpus (Candidate.ofText corpus.rules) metrics
  obtain ⟨_, obtainable⟩ :=
    Walk.obtainable_of_runs_callers hasClass start List.not_mem_nil runs
  have listable : (corpus.relist listing).Listable := by
    intro fault failed
    cases failed
  have relisted : ∀ file ∈ (corpus.relist listing).files,
      (corpus.relist listing).Obtainable file := by
    intro file fileMem
    exact obtainable file (permuted.mem_iff.mpr fileMem)
  obtain ⟨other, finish, runsAgain, _⟩ := Walk.ends_callers listable relisted (levels + 1) root _
    (Walk.Faithful.start (corpus.relist listing) (Candidate.ofText corpus.rules) metrics)
  exact ⟨other, finish, runsAgain⟩

end Relist

end Corpus

namespace Analysis

variable {project : Project} {configuration : Configuration} {metrics : Metrics}
variable {cursor : Cursor} {direction : Option String} {chain : Chain} {corpus : Corpus}
variable {root : Method}

theorem isLeast_expanded_of_run
    (returned : (run project configuration metrics cursor direction).result =
      .ok (some chain))
    (seen : cursor.corpus? project configuration = some corpus)
    (found : corpus.methodAt cursor.line = some root)
    (unambiguous : ∀ file ∈ corpus.file :: corpus.files, corpus.Unambiguous file)
    (deep : ((corpus.keys root).card : Int) + 2 ≤ configuration.maxDepth) :
    IsLeast {set : Set MethodKey | root.key ∈ set ∧
        ∀ key ∈ set, ∀ other, corpus.Leads root chain.direction key other → other ∈ set}
      {key | key ∈ chain.root.expanded} := by
  obtain ⟨after, grows⟩ := exists_growth_of_found returned seen found
  have room : (corpus.keys root).card < levels configuration := by
    rw [levels]
    omega
  exact Corpus.isLeast_expanded unambiguous (Source.file_of_methodAt found) grows room

theorem corpus?_relist (seen : cursor.corpus? project configuration = some corpus)
    (listing : List String) :
    cursor.corpus? { project with listing := .ok listing } configuration =
      some (corpus.relist listing) := by
  obtain ⟨file, normalized, rest⟩ := Option.bind_eq_some_iff.mp seen
  obtain ⟨text, given, made⟩ := Option.bind_eq_some_iff.mp rest
  cases made
  exact Option.bind_eq_some_iff.mpr ⟨file, normalized,
    Option.bind_eq_some_iff.mpr ⟨text, given, rfl⟩⟩

/-- An upward analysis with room for an expanded root returns a chain with any
order of the listing. -/
theorem exists_run_relist
    (returned : (run project configuration metrics cursor direction).result =
      .ok (some chain))
    (upward : chain.direction = .up)
    (seen : cursor.corpus? project configuration = some corpus)
    (room : 0 < levels configuration) {listing : List String}
    (permuted : corpus.files.Perm listing) :
    ∃ other, (run { project with listing := .ok listing } configuration metrics cursor
        direction).result = .ok (some other) ∧ other.direction = .up := by
  obtain ⟨same, root, toward, towardEq, sameSeen, found, inClass, yields⟩ :=
    run_result_eq_some_iff.mp returned
  cases sameSeen.symm.trans seen
  cases yields.direction_eq.symm.trans upward
  obtain ⟨rest, levelsEq⟩ := Nat.exists_eq_add_one.mpr room
  obtain ⟨tree, after, runs, _⟩ := yields
  rw [levelsEq] at runs
  obtain ⟨other, finish, runsAgain⟩ := Corpus.exists_runs_relist permuted
    (Source.hasClass_of_methodAt found inClass) runs
  rw [← levelsEq] at runsAgain
  refine ⟨.ofTree .up other, run_result_eq_some_iff.mpr ?_, rfl⟩
  exact ⟨corpus.relist listing, root, .up, towardEq, corpus?_relist seen listing, found, inClass,
    other, finish, runsAgain, rfl⟩

/-- With at least two levels more than there are keys, an analysis expands the
least set of keys that holds the root and is closed under steps.  Upward, every
order of the listing gives the same set. -/
theorem expanded_isLeast_and_relist
    (returned : (run project configuration metrics cursor direction).result =
      .ok (some chain))
    (seen : cursor.corpus? project configuration = some corpus)
    (found : corpus.methodAt cursor.line = some root)
    (unambiguous : ∀ file ∈ corpus.file :: corpus.files, corpus.Unambiguous file)
    (deep : ((corpus.keys root).card : Int) + 2 ≤ configuration.maxDepth) :
    IsLeast {set : Set MethodKey | root.key ∈ set ∧
        ∀ key ∈ set, ∀ other, corpus.Leads root chain.direction key other → other ∈ set}
      {key | key ∈ chain.root.expanded} ∧
    (chain.direction = .up → ∀ listing, corpus.files.Perm listing →
      ∃ other, (run { project with listing := .ok listing } configuration metrics cursor
          direction).result = .ok (some other) ∧
        ∀ key, key ∈ other.root.expanded ↔ key ∈ chain.root.expanded) := by
  have least := isLeast_expanded_of_run returned seen found unambiguous deep
  refine ⟨least, ?_⟩
  intro upward listing permuted
  have room : 0 < levels configuration := by
    rw [levels]
    omega
  obtain ⟨other, otherReturned, otherUpward⟩ :=
    exists_run_relist returned upward seen room permuted
  refine ⟨other, otherReturned, ?_⟩
  have otherLeast := isLeast_expanded_of_run otherReturned (corpus?_relist seen listing)
    found (Corpus.unambiguous_relist permuted unambiguous)
    (by rwa [Corpus.keys_relist permuted])
  rw [upward] at least
  rw [otherUpward] at otherLeast
  simp only [Corpus.Leads, Corpus.calledBy_relist_iff permuted] at least otherLeast
  exact Set.ext_iff.mp (otherLeast.unique least)

/-- Two files, the second of which calls into the first. -/
def twoFiles : Project :=
  MemoryProject.toProject { files := [
    ("A.java", classText "A" ["void r() { }"]),
    ("B.java", classText "B" ["void s() { r(); }"])] }

/-- What an analysis of the first file sees. -/
def twoFilesCorpus : Corpus where
  project := twoFiles
  rules := rules {}
  file := "A.java"
  text := (classText "A" ["void r() { }"]).toList

/-- Both methods are expanded above `r`, whichever file is listed first. -/
theorem twoFiles_expanded_isLeast :
    ∃ chain root, (run twoFiles {} {} { file := "A.java", line := 1 } (some "up")).result =
        .ok (some chain) ∧ chain.root.expanded.length = 2 ∧
      IsLeast {set : Set MethodKey | root.key ∈ set ∧
          ∀ key ∈ set, ∀ other, twoFilesCorpus.Leads root chain.direction key other → other ∈ set}
        {key | key ∈ chain.root.expanded} ∧
      ∃ other, (run { twoFiles with listing := .ok ["B.java", "A.java"] } {} {}
          { file := "A.java", line := 1 } (some "up")).result = .ok (some other) ∧
        ∀ key, key ∈ other.root.expanded ↔ key ∈ chain.root.expanded := by
  have passes : (run twoFiles {} {} { file := "A.java", line := 1 } (some "up")).returns
      (fun chain => chain.direction == .up && chain.root.expanded.length == 2) = true := by
    decide +kernel
  obtain ⟨chain, returned, tested⟩ := exists_chain_of_returns passes
  simp only [Bool.and_eq_true, beq_iff_eq] at tested
  have cardEq : (twoFilesCorpus.methodAt 1).map (fun root => (twoFilesCorpus.keys root).card) =
      some 2 := by
    decide +kernel
  obtain ⟨root, found, rootCard⟩ := Option.map_eq_some_iff.mp cardEq
  have unambiguous : ∀ file ∈ twoFilesCorpus.file :: twoFilesCorpus.files,
      twoFilesCorpus.Unambiguous file := by
    decide +kernel
  have seen : Cursor.corpus? { file := "A.java", line := 1 } twoFiles {} =
      some twoFilesCorpus := rfl
  obtain ⟨least, relisted⟩ := expanded_isLeast_and_relist returned seen found unambiguous
    (by rw [rootCard]; decide)
  exact ⟨chain, root, returned, tested.2, least,
    relisted tested.1 ["B.java", "A.java"] (List.Perm.swap _ _ _)⟩

end Analysis
end CallTree
