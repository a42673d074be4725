import CallTree.Proofs.Metrics.Counters
import CallTree.Proofs.Tree.Visits
import CallTree.Proofs.Walk.Callees
import CallTree.Proofs.Walk.Callers

/-!
# Accounts of a walk

The counters of a walk account for what it does.  Each node of the trees it
grows is counted once, by its kind.  Each file it has loaded, apart from the one
it was given, has been read once, with success or without.  Every action keeps
the accounts.
-/

namespace CallTree
namespace Walk

variable {α β γ : Type}

/-- A run that grows the trees adds their nodes to the counters, and drops no
file. -/
structure Adds (trees : List Tree) (before after : Walk α) : Prop where
  created : after.metrics.counter "nodes.created" =
    before.metrics.counter "nodes.created" + Tree.sizeBelow trees
  external : after.metrics.counter "nodes.external" =
    before.metrics.counter "nodes.external" +
      (Tree.preorderBelow trees).countP Occurrence.external
  unresolved : after.metrics.counter "calls.unresolved" =
    before.metrics.counter "calls.unresolved" +
      (Tree.preorderBelow trees).countP (·.file == Occurrence.nowhere)
  loaded : before.loaded <:+ after.loaded

/-- The accounts of a walk that was given one file and the metrics: it is
faithful, has loaded every file once and none but those of the corpus, and its
counters say how many of the others it has read, and how many it could not.  The
project has been asked for each of the others, and for nothing else. -/
structure Balanced (corpus : Corpus) (keep : String → List Char → α) (metrics : Metrics)
    (walk : Walk α) : Prop extends Faithful corpus keep walk where
  distinct : (walk.loaded.map Prod.fst).Nodup
  within : ∀ file ∈ walk.loaded.map Prod.fst, file ∈ corpus.file :: corpus.files
  read : walk.metrics.counter "files.read" + 1 =
    metrics.counter "files.read" + walk.loaded.countP (·.2.isSome)
  failed : walk.metrics.counter "files.read_failures" =
    metrics.counter "files.read_failures" + walk.loaded.countP (·.2.isNone)
  asked : walk.loaded.map Prod.fst = walk.reads ++ [corpus.file]

/-- Every run of the action keeps the accounts, and adds the trees that go with
its value. -/
def Accounts (corpus : Corpus) (keep : String → List Char → α) (metrics : Metrics)
    (trees : β → List Tree) (action : WalkM α β) : Prop :=
  ∀ before value after, Balanced corpus keep metrics before → Runs action before value after →
    Balanced corpus keep metrics after ∧ Adds (trees value) before after

variable {corpus : Corpus} {keep : String → List Char → α} {metrics : Metrics}
variable {before middle after : Walk α}

/-- Without a change to the counters of nodes, nothing is added. -/
theorem Adds.nothing
    (same : ∀ name ∈ ["nodes.created", "nodes.external", "calls.unresolved"],
      after.metrics.counter name = before.metrics.counter name)
    (loaded : before.loaded <:+ after.loaded) : Adds [] before after where
  created := by simp [same, Tree.sizeBelow]
  external := by simp [same, Tree.preorderBelow]
  unresolved := by simp [same, Tree.preorderBelow]
  loaded := loaded

theorem Adds.refl (walk : Walk α) : Adds [] walk walk :=
  .nothing (fun _ _ => rfl) (List.suffix_refl _)

theorem Adds.append {trees others : List Tree} (first : Adds trees before middle)
    (second : Adds others middle after) : Adds (trees ++ others) before after where
  created := by
    have := first.created
    have := second.created
    rw [Tree.sizeBelow_append]
    omega
  external := by
    have := first.external
    have := second.external
    rw [Tree.preorderBelow_append, List.countP_append]
    omega
  unresolved := by
    have := first.unresolved
    have := second.unresolved
    rw [Tree.preorderBelow_append, List.countP_append]
    omega
  loaded := first.loaded.trans second.loaded

theorem Balanced.start (corpus : Corpus) (keep : String → List Char → α) (metrics : Metrics) :
    Balanced corpus keep metrics
      { loaded := [(corpus.file, some (keep corpus.file corpus.text))], metrics } where
  toFaithful := .start corpus keep metrics
  distinct := by simp
  within := by simp
  read := by simp
  failed := by simp
  asked := rfl

/-- Only the loaded files, the reads and their counters matter to the accounts of a
faithful walk. -/
theorem Balanced.of_faithful (balanced : Balanced corpus keep metrics before)
    (faithful : Faithful corpus keep after) (loaded : after.loaded = before.loaded)
    (read : after.metrics.counter "files.read" = before.metrics.counter "files.read")
    (failed : after.metrics.counter "files.read_failures" =
      before.metrics.counter "files.read_failures")
    (reads : after.reads = before.reads) :
    Balanced corpus keep metrics after where
  toFaithful := faithful
  distinct := loaded ▸ balanced.distinct
  within := loaded ▸ balanced.within
  read := by rw [read, loaded, balanced.read]
  failed := by rw [failed, loaded, balanced.failed]
  asked := by rw [loaded, reads, balanced.asked]

theorem counter_list {name : String} (other : name ≠ "errors.total") (before : Walk α) :
    (outcome (list corpus.project) before).2.metrics.counter name =
      before.metrics.counter name := by
  rw [outcome_list]
  cases before.files with
  | some files => rfl
  | none =>
      cases corpus.project.listing with
      | ok files => rfl
      | error fault =>
          dsimp only
          split
          · rw [Metrics.counter_recordError, if_neg other, Int.add_zero]
          · rfl

theorem accounts_list : Accounts corpus keep metrics (fun _ => []) (list corpus.project) := by
  intro before files after balanced runs
  obtain ⟨_, _, faithful, _⟩ := balanced.toFaithful.of_runs_list runs
  have counterEq {name : String} (other : name ≠ "errors.total") :
      after.metrics.counter name = before.metrics.counter name := by
    rw [← counter_list other before, runs]
  have loadedEq : after.loaded = before.loaded := by
    rw [← (outcome_list_keeps corpus.project before).2.1, runs]
  have readsEq : after.reads = before.reads := by
    rw [← (outcome_list_keeps corpus.project before).2.2, runs]
  refine ⟨balanced.of_faithful faithful loadedEq (counterEq (by decide)) (counterEq (by decide))
    readsEq, .nothing ?_ (loadedEq ▸ List.suffix_refl _)⟩
  intro name nameMem
  apply counterEq
  rintro rfl
  simp at nameMem

/-- A file that has not been loaded is read once, and counted by what came of
it. -/
theorem accounts_load {file : String} (fileMem : file ∈ corpus.file :: corpus.files) :
    Accounts corpus keep metrics (fun _ => []) (load corpus.project keep file) := by
  intro before kept after balanced runs
  obtain ⟨_, _, faithful, _⟩ := balanced.toFaithful.of_runs_load runs
  rcases runs_load_cases runs with ⟨_, rfl⟩ | ⟨unread, rfl⟩
  · exact ⟨balanced, .refl after⟩
  · have fresh : file ∉ before.loaded.map Prod.fst := by
      intro member
      obtain ⟨entry, entryMem, rfl⟩ := List.mem_map.mp member
      simpa using List.lookup_eq_none_iff.mp unread entry entryMem
    have readEq := balanced.read
    have failedEq := balanced.failed
    refine ⟨⟨faithful, List.nodup_cons.mpr ⟨fresh, balanced.distinct⟩,
      List.forall_mem_cons.mpr ⟨fileMem, balanced.within⟩, ?_, ?_, ?_⟩,
      .nothing ?_ (List.suffix_cons _ _)⟩
    · cases kept <;> simp <;> omega
    · cases kept <;> simp <;> omega
    · exact congrArg (file :: ·) balanced.asked
    · cases kept <;> simp

/-- A file that is loaded is among the loaded ones afterwards. -/
theorem mem_loaded_of_runs_load {project : Project} {file : String} {kept : Option α}
    (runs : Runs (load project keep file) before kept after) :
    file ∈ after.loaded.map Prod.fst := by
  rcases runs_load_cases runs with ⟨found, rfl⟩ | ⟨_, rfl⟩
  · obtain ⟨earlier, later, loadedEq, _⟩ := List.lookup_eq_some_iff.mp found
    simp [loadedEq]
  · exact List.mem_cons_self

theorem accounts_pure {trees : β → List Tree} {value : β} (nothing : trees value = []) :
    Accounts corpus keep metrics trees (pure value) := by
  intro before result after balanced runs
  obtain ⟨rfl, rfl⟩ := runs_pure.mp runs
  rw [nothing]
  exact ⟨balanced, .refl after⟩

/-- After something is found without a tree, only what was found matters. -/
theorem accounts_found {action : WalkM α β} {value : β} {next : β → WalkM α γ}
    {trees : γ → List Tree} (first : Accounts corpus keep metrics (fun _ => []) action)
    (found : Finds corpus keep action value)
    (second : Accounts corpus keep metrics trees (next value)) :
    Accounts corpus keep metrics trees (action >>= next) := by
  intro before result after balanced runs
  obtain ⟨same, middle, here, later⟩ := runs_bind.mp runs
  obtain ⟨rfl, _⟩ := found before same middle balanced.toFaithful here
  obtain ⟨between, nothing⟩ := first before same middle balanced here
  obtain ⟨ended, adds⟩ := second middle result after between later
  exact ⟨ended, nothing.append adds⟩

theorem accounts_single {action : WalkM α Tree}
    (accounts : Accounts corpus keep metrics (fun tree => [tree]) action) :
    Accounts corpus keep metrics id (action >>= fun tree => pure [tree]) := by
  intro before trees after balanced runs
  obtain ⟨tree, middle, here, rest⟩ := runs_bind.mp runs
  obtain ⟨rfl, rfl⟩ := runs_pure.mp rest
  exact accounts before tree after balanced here

theorem accounts_collect {action : β → WalkM α (List Tree)} {values : List β}
    (each : ∀ value ∈ values, Accounts corpus keep metrics id (action value)) :
    Accounts corpus keep metrics id (collect action values) := by
  induction values with
  | nil => exact accounts_pure rfl
  | cons value values ih =>
      intro before trees after balanced runs
      obtain ⟨first, middle, others, here, later, rfl⟩ := runs_collect_cons.mp runs
      obtain ⟨between, adds⟩ := each value List.mem_cons_self before first middle balanced here
      obtain ⟨ended, addsLater⟩ :=
        ih (fun other otherMem => each other (List.mem_cons_of_mem value otherMem))
          middle others after between later
      exact ⟨ended, adds.append addsLater⟩

theorem adds_leaf {occurrence : Occurrence} (external : occurrence.external = true)
    (inside : occurrence.file ≠ Occurrence.nowhere) (before : Walk α) :
    Adds [.leaf occurrence] before { before with metrics := before.metrics.recordNode true } := by
  constructor
  · simp [Tree.leaf, Tree.sizeBelow, Tree.size]
  · simp [Tree.leaf, Tree.preorderBelow, Tree.preorder, external]
  · simp [Tree.leaf, Tree.preorderBelow, Tree.preorder, inside]
  · exact List.suffix_refl _

theorem Balanced.recordNode (balanced : Balanced corpus keep metrics before) (external : Bool) :
    Balanced corpus keep metrics
      { before with metrics := before.metrics.recordNode external } :=
  balanced.of_faithful (balanced.toFaithful.of_eq rfl rfl) rfl (by simp) (by simp) rfl

theorem Balanced.expanding (balanced : Balanced corpus keep metrics before) (method : Method) :
    Balanced corpus keep metrics { before with
      visited := method.key :: before.visited
      metrics := before.metrics.recordNode false } :=
  (balanced.recordNode false).of_faithful (balanced.toFaithful.of_eq rfl rfl) rfl rfl rfl rfl

theorem accounts_stop {method : Method} (inside : method.file ≠ Occurrence.nowhere) :
    Accounts corpus keep metrics (fun tree => [tree]) (stop method) := by
  intro before tree after balanced runs
  rw [Runs, outcome_stop] at runs
  cases runs
  exact ⟨balanced.recordNode true, adds_leaf rfl inside before⟩

theorem accounts_expand {method : Method} (inside : method.file ≠ Occurrence.nowhere)
    {children : WalkM α (List Tree)} (below : Accounts corpus keep metrics id children) :
    Accounts corpus keep metrics (fun tree => [tree]) (expand method children) := by
  intro before tree after balanced runs
  rcases runs_expand_iff.mp runs with ⟨_, rfl, rfl⟩ | ⟨_, trees, grown, rfl⟩
  · exact ⟨balanced.recordNode true, adds_leaf rfl inside before⟩
  · obtain ⟨ended, adds⟩ := below _ trees after (balanced.expanding method) grown
    have createdEq := adds.created
    have externalEq := adds.external
    have unresolvedEq := adds.unresolved
    refine ⟨ended, ?_⟩
    constructor
    · simp [Tree.sizeBelow, Tree.size] at createdEq ⊢
      omega
    · simp [Tree.preorderBelow, Tree.preorder, Occurrence.ofMethod] at externalEq ⊢
      omega
    · simp [Tree.preorderBelow, Tree.preorder, Occurrence.ofMethod, inside] at unresolvedEq ⊢
      omega
    · exact adds.loaded

/-- What each action loads is loaded after all of them. -/
theorem mem_loaded_of_runs_collect {action : String → WalkM α (List Tree)}
    {files : List String}
    (each : ∀ file ∈ files, Accounts corpus keep metrics id (action file))
    (loads : ∀ file ∈ files, ∀ before trees after, Balanced corpus keep metrics before →
      Runs (action file) before trees after → file ∈ after.loaded.map Prod.fst)
    (balanced : Balanced corpus keep metrics before) {trees : List Tree}
    (runs : Runs (collect action files) before trees after) :
    ∀ file ∈ files, file ∈ after.loaded.map Prod.fst := by
  induction files generalizing before trees with
  | nil => simp
  | cons first files ih =>
      obtain ⟨grown, middle, others, here, later, rfl⟩ := runs_collect_cons.mp runs
      have eachLater : ∀ file ∈ files, Accounts corpus keep metrics id (action file) :=
        fun file fileMem => each file (List.mem_cons_of_mem first fileMem)
      obtain ⟨between, _⟩ := each first List.mem_cons_self before grown middle balanced here
      obtain ⟨_, adds⟩ := accounts_collect eachLater middle others after between later
      refine List.forall_mem_cons.mpr ⟨?_, ?_⟩
      · have loaded := loads first List.mem_cons_self before grown middle balanced here
        exact (adds.loaded.map Prod.fst).subset loaded
      · exact ih eachLater
          (fun file fileMem => loads file (List.mem_cons_of_mem first fileMem)) between later

theorem accounts_candidates (metrics : Metrics) {levels : Nat} (method : Method) {file : String}
    (listed : file ∈ corpus.files)
    (each : ∀ other : Method, other.file ∈ corpus.file :: corpus.files →
      Accounts corpus (Candidate.ofText corpus.rules) metrics (fun tree => [tree])
        (callers corpus.project corpus.rules levels other)) :
    Accounts corpus (Candidate.ofText corpus.rules) metrics id
      (match (corpus.text? file).map (Candidate.ofText corpus.rules file) with
        | none => pure []
        | some candidates =>
            collect (fun candidate =>
              if candidate.calls method then do
                let tree ← callers corpus.project corpus.rules levels candidate.method
                pure [tree]
              else pure []) candidates) := by
  cases corpus.text? file with
  | none => exact accounts_pure rfl
  | some text =>
      apply accounts_collect
      intro candidate candidateMem
      cases candidate.calls method with
      | false => exact accounts_pure rfl
      | true =>
          apply accounts_single
          apply each
          rw [Source.file_of_mem_definitions (Candidate.method_mem_definitions candidateMem)]
          exact List.mem_cons_of_mem corpus.file listed

section Named

variable (named : Occurrence.nowhere ∉ corpus.file :: corpus.files)

include named

theorem accounts_callers (levels : Nat) {method : Method}
    (fileMem : method.file ∈ corpus.file :: corpus.files) :
    Accounts corpus (Candidate.ofText corpus.rules) metrics (fun tree => [tree])
      (callers corpus.project corpus.rules levels method) := by
  have inside : method.file ≠ Occurrence.nowhere := ne_of_mem_of_not_mem fileMem named
  induction levels generalizing method with
  | zero => exact accounts_stop inside
  | succ levels ih =>
      apply accounts_expand inside
      apply accounts_found accounts_list finds_list
      apply accounts_collect
      intro file listed
      apply accounts_found (accounts_load (List.mem_cons_of_mem corpus.file listed))
        (finds_load file)
      exact accounts_candidates metrics method listed
        fun other otherMem => ih otherMem (ne_of_mem_of_not_mem otherMem named)

/-- Expanding one method loads every listed file. -/
theorem mem_loaded_of_runs_callers {levels : Nat} {method : Method}
    {before after : Walk (List Candidate)} {tree : Tree}
    (balanced : Balanced corpus (Candidate.ofText corpus.rules) metrics before)
    (fresh : method.key ∉ before.visited)
    (runs : Runs (callers corpus.project corpus.rules (levels + 1) method) before tree after) :
    ∀ file ∈ corpus.files, file ∈ after.loaded.map Prod.fst := by
  have below (file : String) (listed : file ∈ corpus.files) :=
    accounts_candidates metrics method listed fun other => accounts_callers named levels
  rcases runs_expand_iff.mp runs with ⟨visited, _⟩ | ⟨_, trees, inside, _⟩
  · exact absurd visited fresh
  · obtain ⟨files, middle, lists, collects⟩ := runs_bind.mp inside
    have marked := balanced.expanding method
    obtain ⟨_, rfl, _⟩ := marked.toFaithful.of_runs_list lists
    obtain ⟨between, _⟩ := accounts_list _ _ _ marked lists
    refine mem_loaded_of_runs_collect ?_ ?_ between collects
    · intro file listed
      exact accounts_found (accounts_load (List.mem_cons_of_mem corpus.file listed))
        (finds_load file) (below file listed)
    · intro file listed start grown finish started runsIn
      obtain ⟨kept, loaded, loads, rest⟩ := runs_bind.mp runsIn
      obtain ⟨_, rfl, _⟩ := started.toFaithful.of_runs_load loads
      obtain ⟨loadedBalanced, _⟩ :=
        accounts_load (List.mem_cons_of_mem corpus.file listed) _ _ _ started loads
      obtain ⟨_, adds⟩ := below file listed loaded grown finish loadedBalanced rest
      exact (adds.loaded.map Prod.fst).subset (mem_loaded_of_runs_load loads)

end Named

theorem accounts_namedIn (site : CallSite) {file : String}
    (fileMem : file ∈ corpus.file :: corpus.files) :
    Accounts corpus (Reading.ofText corpus.rules) metrics (fun _ => [])
      (namedIn corpus.project corpus.rules site file) := by
  apply accounts_found (accounts_load fileMem) (finds_load file)
  cases corpus.text? file with
  | none => exact accounts_pure rfl
  | some text => exact accounts_pure rfl

theorem accounts_resolveElsewhere (site : CallSite) (file : String) (standby : Option Method)
    {files : List String} (listed : ∀ other ∈ files, other ∈ corpus.files) :
    Accounts corpus (Reading.ofText corpus.rules) metrics (fun _ => [])
      (resolveElsewhere corpus.project corpus.rules site file standby files) := by
  induction files generalizing standby with
  | nil => exact accounts_pure rfl
  | cons other others ih =>
      have here : other ∈ corpus.file :: corpus.files :=
        List.mem_cons_of_mem corpus.file (listed other List.mem_cons_self)
      have later : ∀ next ∈ others, next ∈ corpus.files :=
        fun next nextMem => listed next (List.mem_cons_of_mem other nextMem)
      rw [resolveElsewhere]
      split
      · exact ih standby later
      · apply accounts_found (accounts_namedIn site here) (finds_namedIn site other)
        cases inReceiver? site (corpus.named site other) with
        | some method => exact accounts_pure rfl
        | none => exact ih _ later

theorem accounts_resolve (site : CallSite) {file : String}
    (fileMem : file ∈ corpus.file :: corpus.files) :
    Accounts corpus (Reading.ofText corpus.rules) metrics (fun _ => [])
      (resolve corpus.project corpus.rules site file) := by
  apply accounts_found (accounts_namedIn site fileMem) (finds_namedIn site file)
  cases corpus.named site file with
  | nil =>
      apply accounts_found accounts_list finds_list
      exact accounts_resolveElsewhere site file none fun _ listed => listed
  | cons first others => exact accounts_pure rfl

/-- A call that leads nowhere is counted as a node, as an external one and as
unresolved. -/
theorem accounts_missed (site : CallSite) :
    Accounts corpus (Reading.ofText corpus.rules) metrics id (do
      record Metrics.recordUnresolved
      let tree ← miss site
      pure [tree]) := by
  intro before trees after balanced runs
  cases runs
  refine ⟨balanced.of_faithful (balanced.toFaithful.of_eq rfl rfl) rfl (by simp) (by simp) rfl,
    ?_⟩
  constructor
  · simp [Tree.leaf, Tree.sizeBelow, Tree.size]
  · simp [Tree.leaf, Tree.preorderBelow, Tree.preorder, Occurrence.unresolved]
  · simp [Tree.leaf, Tree.preorderBelow, Tree.preorder, Occurrence.unresolved]
  · exact List.suffix_refl _

theorem accounts_callees (named : Occurrence.nowhere ∉ corpus.file :: corpus.files)
    (levels : Nat) (reading : Reading) {method : Method}
    (fileMem : method.file ∈ corpus.file :: corpus.files) :
    Accounts corpus (Reading.ofText corpus.rules) metrics (fun tree => [tree])
      (callees corpus.project corpus.rules levels reading method) := by
  have inside : method.file ≠ Occurrence.nowhere := ne_of_mem_of_not_mem fileMem named
  induction levels generalizing reading method with
  | zero => exact accounts_stop inside
  | succ levels ih =>
      apply accounts_expand inside
      apply accounts_collect
      intro site _
      apply accounts_found (accounts_resolve site fileMem) (finds_resolve site method.file)
      cases resolved : corpus.resolve? site method.file with
      | none => exact accounts_missed site
      | some callee =>
          obtain ⟨defined, _⟩ := Corpus.mem_definitions_of_resolve? resolved
          obtain ⟨calleeText, calleeTextEq⟩ := Corpus.exists_text_of_mem_definitions defined
          have calleeMem := file_mem_of_resolve? resolved fileMem
          apply accounts_found (accounts_load calleeMem) (finds_load callee.file)
          -- The file of a definition has a text, so that no call is missed here.
          rw [calleeTextEq]
          exact accounts_single (ih _ calleeMem (ne_of_mem_of_not_mem calleeMem named))

end Walk
end CallTree
