import CallTree.Proofs.Analysis.Outcome
import CallTree.Proofs.Walk.Accounts
import Mathlib.Data.Finset.Card

/-!
# Accounts of an analysis

The metrics of an analysis that returns a chain account for it.  The counters of
nodes grow by the nodes of its tree, and the counters of reads by the files that
were read on the way, each of them once.
-/

namespace CallTree
namespace Corpus

/-- The listed files other than the given one. -/
def otherFiles (corpus : Corpus) : Finset String :=
  corpus.files.toFinset.erase corpus.file

/-- The files that a walk over the corpus has asked the project for when it ends, the
last one first. -/
def readBy {α : Type} (corpus : Corpus) (keep : String → List Char → α) (metrics : Metrics)
    (walk : WalkM α Tree) : List String :=
  let start : Walk α :=
    { loaded := [(corpus.file, some (keep corpus.file corpus.text))], metrics }
  (Walk.outcome walk start).2.reads

/-- The files that the walk from a method in a direction asks for. -/
def reads (corpus : Corpus) (levels : Nat) (metrics : Metrics) (root : Method) :
    Direction → List String
  | .up =>
      corpus.readBy (Candidate.ofText corpus.rules) metrics
        (Walk.callers corpus.project corpus.rules levels root)
  | .down =>
      corpus.readBy (Reading.ofText corpus.rules) metrics
        (Walk.callees corpus.project corpus.rules levels
          (Reading.ofText corpus.rules corpus.file corpus.text) root)

/-- Reading the file gives a text. -/
def readable (corpus : Corpus) (file : String) : Bool :=
  (corpus.project.read file).isOk

theorem text?_isSome {corpus : Corpus} {file : String} (other : file ≠ corpus.file) :
    (corpus.text? file).isSome = corpus.readable file := by
  rw [text?, if_neg other, readable]
  cases corpus.project.read file <;> rfl

end Corpus

namespace Walk

variable {α : Type} {corpus : Corpus} {keep : String → List Char → α} {metrics : Metrics}
variable {walk : Walk α}

theorem Balanced.isSome_eq_readable (balanced : Balanced corpus keep metrics walk)
    {file : String} {kept : Option α} (loaded : (file, kept) ∈ walk.loaded)
    (other : file ≠ corpus.file) : kept.isSome = corpus.readable file := by
  obtain ⟨earlier, later, loadedEq⟩ := List.append_of_mem loaded
  have distinct := balanced.distinct
  rw [loadedEq, List.map_append, List.map_cons] at distinct
  have found : walk.loaded.lookup file = some kept := by
    refine List.lookup_eq_some_iff.mpr ⟨earlier, later, loadedEq, ?_⟩
    intro entry entryMem
    have different := (List.nodup_append.mp distinct).2.2 entry.1
      (List.mem_map_of_mem entryMem) file List.mem_cons_self
    simpa using different.symm
  rw [(balanced.loaded file kept found).1, Option.isSome_map, Corpus.text?_isSome other]

theorem Balanced.ne_file (balanced : Balanced corpus keep metrics walk)
    {fresh : List (String × Option α)} {kept : Option α}
    (loadedEq : walk.loaded = fresh ++ [(corpus.file, kept)]) :
    ∀ entry ∈ fresh, entry.1 ≠ corpus.file := by
  intro entry entryMem
  have distinct := balanced.distinct
  rw [loadedEq, List.map_append] at distinct
  exact (List.nodup_append.mp distinct).2.2 entry.1 (List.mem_map_of_mem entryMem) corpus.file
    (by simp)

/-- The files that have been read are those that can be read. -/
theorem Balanced.countP_isSome (balanced : Balanced corpus keep metrics walk)
    {fresh : List (String × Option α)} {kept : Option α}
    (loadedEq : walk.loaded = fresh ++ [(corpus.file, kept)]) :
    fresh.countP (·.2.isSome) = (fresh.map Prod.fst).countP corpus.readable ∧
      fresh.countP (·.2.isNone) = (fresh.map Prod.fst).countP (!corpus.readable ·) := by
  have isSomeEq : ∀ entry ∈ fresh, entry.2.isSome = corpus.readable entry.1 := by
    intro entry entryMem
    exact balanced.isSome_eq_readable (loadedEq ▸ List.mem_append_left _ entryMem)
      (balanced.ne_file loadedEq entry entryMem)
  rw [List.countP_map, List.countP_map]
  constructor
  · apply List.countP_congr
    intro entry entryMem
    simp [isSomeEq entry entryMem]
  · apply List.countP_congr
    intro entry entryMem
    simp [← isSomeEq entry entryMem]

end Walk

namespace Analysis

variable {project : Project} {configuration : Configuration} {metrics ended : Metrics}
variable {cursor : Cursor} {corpus : Corpus} {chain : Chain} {direction : Option String}

/-- The counters grow by the nodes of the chain and by the files read. -/
structure Settles (corpus : Corpus) (metrics : Metrics) (chain : Chain) (reads : List String)
    (ended : Metrics) : Prop where
  created : ended.counter "nodes.created" - metrics.counter "nodes.created" = chain.total
  external : ended.counter "nodes.external" - metrics.counter "nodes.external" =
    chain.root.externalCount
  unresolved : ended.counter "calls.unresolved" - metrics.counter "calls.unresolved" =
    chain.root.nodes.countP (·.file == Occurrence.nowhere)
  distinct : reads.Nodup
  within : ∀ file ∈ reads, file ∈ corpus.otherFiles
  read : ended.counter "files.read" - metrics.counter "files.read" =
    reads.countP corpus.readable
  failed : ended.counter "files.read_failures" - metrics.counter "files.read_failures" =
    reads.countP (!corpus.readable ·)

variable {α : Type} {keep : String → List Char → α} {walk : WalkM α Tree} {after : Walk α}
variable {tree : Tree}

/-- A walk has loaded the files that it has asked for, and before them the given
one. -/
theorem exists_loaded_eq (accounts : Walk.Accounts corpus keep metrics (fun tree => [tree]) walk)
    (runs : Walk.Runs walk
      { loaded := [(corpus.file, some (keep corpus.file corpus.text))], metrics } tree after) :
    ∃ fresh, after.loaded = fresh ++ [(corpus.file, some (keep corpus.file corpus.text))] ∧
      corpus.readBy keep metrics walk = fresh.map Prod.fst := by
  obtain ⟨balanced, adds⟩ := accounts _ tree after (.start corpus keep metrics) runs
  obtain ⟨fresh, loadedEq⟩ := adds.loaded
  refine ⟨fresh, loadedEq.symm, ?_⟩
  have asked := balanced.asked
  rw [← loadedEq, List.map_append] at asked
  rw [Corpus.readBy, runs]
  exact (List.append_cancel_right asked).symm

theorem settles_of_runs (accounts : Walk.Accounts corpus keep metrics (fun tree => [tree]) walk)
    (runs : Walk.Runs walk
      { loaded := [(corpus.file, some (keep corpus.file corpus.text))], metrics } tree after)
    (direction : Direction) :
    Settles corpus metrics (.ofTree direction tree) (corpus.readBy keep metrics walk)
      after.metrics := by
  obtain ⟨balanced, adds⟩ := accounts _ tree after (.start corpus keep metrics) runs
  obtain ⟨fresh, loadedEq, readsEq⟩ := exists_loaded_eq accounts runs
  have distinct := balanced.distinct
  rw [loadedEq, List.map_append] at distinct
  obtain ⟨readable, unreadable⟩ := balanced.countP_isSome loadedEq
  have givenRead : [(corpus.file, some (keep corpus.file corpus.text))].countP
      (·.2.isSome) = 1 := rfl
  have givenFailed : [(corpus.file, some (keep corpus.file corpus.text))].countP
      (·.2.isNone) = 0 := rfl
  rw [readsEq]
  constructor
  · have createdEq := adds.created
    rw [Tree.sizeBelow, Tree.sizeBelow, Nat.add_zero] at createdEq
    exact Int.sub_eq_iff_eq_add'.mpr createdEq
  · have externalEq := adds.external
    rw [← Tree.nodes_eq_preorderBelow] at externalEq
    exact Int.sub_eq_iff_eq_add'.mpr externalEq
  · have unresolvedEq := adds.unresolved
    rw [← Tree.nodes_eq_preorderBelow] at unresolvedEq
    exact Int.sub_eq_iff_eq_add'.mpr unresolvedEq
  · exact (List.nodup_append.mp distinct).1
  · intro file fileMem
    obtain ⟨entry, entryMem, rfl⟩ := List.mem_map.mp fileMem
    have other := balanced.ne_file loadedEq entry entryMem
    have within := balanced.within entry.1
      (List.mem_map_of_mem (loadedEq ▸ List.mem_append_left _ entryMem))
    simpa [Corpus.otherFiles, other] using within
  · have readEq := balanced.read
    rw [loadedEq, List.countP_append, readable, givenRead] at readEq
    omega
  · have failedEq := balanced.failed
    rw [loadedEq, List.countP_append, unreadable, givenFailed] at failedEq
    omega

theorem Settles.of_counters {reads : List String} {later : Metrics}
    (settles : Settles corpus metrics chain reads ended)
    (same : ∀ name ∈ ["nodes.created", "nodes.external", "calls.unresolved", "files.read",
      "files.read_failures"], later.counter name = ended.counter name) :
    Settles corpus metrics chain reads later where
  created := by rw [same _ (by simp), settles.created]
  external := by rw [same _ (by simp), settles.external]
  unresolved := by rw [same _ (by simp), settles.unresolved]
  distinct := settles.distinct
  within := settles.within
  read := by rw [same _ (by simp), settles.read]
  failed := by rw [same _ (by simp), settles.failed]

/-- Every file that was read is counted once, with success or without. -/
theorem Settles.card_reads {reads : List String}
    (settles : Settles corpus metrics chain reads ended) :
    ended.counter "files.read" - metrics.counter "files.read" +
        (ended.counter "files.read_failures" - metrics.counter "files.read_failures") =
      reads.toFinset.card := by
  have parts : reads.length =
      reads.countP corpus.readable + reads.countP (!corpus.readable ·) := by
    simpa using List.length_eq_countP_add_countP corpus.readable
  rw [List.toFinset_card_of_nodup settles.distinct, settles.read, settles.failed, parts]
  exact (Int.natCast_add _ _).symm

theorem Settles.reads_subset {reads : List String}
    (settles : Settles corpus metrics chain reads ended) :
    reads.toFinset ⊆ corpus.otherFiles := by
  intro file fileMem
  exact settles.within file (List.mem_toFinset.mp fileMem)

theorem ofWalk_eq_of_runs {direction : Direction} {file : String} {kept : α}
    (runs : Walk.Runs walk { loaded := [(file, some kept)], metrics } tree after) :
    ofWalk direction metrics file kept walk =
      { result := .ok (some (.ofTree direction tree))
        metrics := after.metrics
        listed := after.files } := by
  rw [Walk.Runs, Walk.outcome] at runs
  rw [ofWalk, runs]
  rfl

theorem counter_timed (analysis : Analysis) {name : String}
    (other : ∀ success : Bool, name ≠ operation ++ if success then ".success" else ".failure") :
    (timed analysis).metrics.counter name = analysis.metrics.counter name := by
  rw [timed, Metrics.counter_recordTiming, if_neg (other _), Int.add_zero]

section Returned

variable {root : Method} {way : Direction} {line : Int}
variable (named : Occurrence.nowhere ∉ corpus.file :: corpus.files)

include named

theorem settles_ofText (rulesEq : corpus.rules = rules configuration)
    (found : corpus.methodAt line = some root) (inClass : root.className.isNone = false)
    (yields : Yields corpus (levels configuration) metrics root way chain) :
    Settles corpus metrics chain (corpus.reads (levels configuration) metrics root way)
      (ofText corpus.project configuration metrics way corpus.file line corpus.text).metrics := by
  have fileMem : root.file ∈ corpus.file :: corpus.files :=
    Source.file_of_methodAt found ▸ List.mem_cons_self
  rw [Corpus.methodAt] at found
  simp only [ofText, ← rulesEq, found, inClass, Bool.false_eq_true, if_false]
  cases way with
  | up =>
      obtain ⟨tree, after, runs, rfl⟩ := yields
      simp only [ofWalk_eq_of_runs runs]
      exact settles_of_runs (Walk.accounts_callers named _ fileMem) runs .up
  | down =>
      obtain ⟨tree, after, runs, rfl⟩ := yields
      simp only [ofWalk_eq_of_runs runs]
      exact settles_of_runs (Walk.accounts_callees named _ _ fileMem) runs .down

theorem settles_run
    (returned : (run project configuration metrics cursor direction).result = .ok (some chain))
    (seen : cursor.corpus? project configuration = some corpus) :
    ∃ root, corpus.methodAt cursor.line = some root ∧
      Yields corpus (levels configuration) metrics root chain.direction chain ∧
      Settles corpus metrics chain
        (corpus.reads (levels configuration) metrics root chain.direction)
        (run project configuration metrics cursor direction).metrics := by
  obtain ⟨same, root, way, known, sameSeen, found, inClass, yields⟩ :=
    run_result_eq_some_iff.mp returned
  cases sameSeen.symm.trans seen
  obtain ⟨rfl, rulesEq⟩ := corpus?_eq_some seen
  have settles := settles_ofText named rulesEq found inClass yields
  rw [yields.direction_eq]
  refine ⟨root, found, yields, ?_⟩
  rw [run, known]
  dsimp only
  rw [toward_eq_timed seen]
  apply settles.of_counters
  intro name nameMem
  apply counter_timed
  revert name
  decide

/-- Upward, every node stands for a method of some file. -/
theorem countP_nowhere_of_up
    (returned : (run project configuration metrics cursor direction).result = .ok (some chain))
    (seen : cursor.corpus? project configuration = some corpus) (up : chain.direction = .up) :
    chain.root.nodes.countP (·.file == Occurrence.nowhere) = 0 := by
  obtain ⟨same, root, after, sameSeen, found, _, grows⟩ := exists_growth returned
  cases sameSeen.symm.trans seen
  rw [up, Corpus.graph] at grows
  have nodesEq := grows.exists_branch_of_mem_preorderBelow
    (fun branch => ∃ method, branch = .reach method ∧
      method.file ∈ corpus.file :: corpus.files)
    (by
      intro method _ branch branchMem
      obtain ⟨caller, rfl, listed⟩ := Corpus.exists_file_of_mem_callerGraph branchMem
      exact ⟨caller, rfl, List.mem_cons_of_mem corpus.file listed⟩)
    (by simp [Source.file_of_methodAt found])
  rw [List.countP_eq_zero, Tree.nodes_eq_preorderBelow]
  intro occurrence occurrenceMem
  obtain ⟨_, ⟨method, rfl, fileMem⟩, occurrenceEq⟩ := nodesEq occurrence occurrenceMem
  have fileEq : occurrence.file = method.file := congrArg Occurrence.file occurrenceEq
  rw [fileEq, beq_iff_eq]
  exact ne_of_mem_of_not_mem fileMem named

/-- Upward, every other file is read as soon as the root is expanded. -/
theorem otherFiles_subset_of_up {levels : Nat} (fileEq : root.file = corpus.file)
    (yields : Yields corpus (levels + 1) metrics root .up chain) :
    corpus.otherFiles ⊆ (corpus.reads (levels + 1) metrics root .up).toFinset := by
  obtain ⟨tree, after, runs, rfl⟩ := yields
  have start := Walk.Balanced.start corpus (Candidate.ofText corpus.rules) metrics
  intro file fileMem
  obtain ⟨other, listed⟩ := Finset.mem_erase.mp fileMem
  have loaded := Walk.mem_loaded_of_runs_callers named start (by simp) runs file
    (List.mem_toFinset.mp listed)
  obtain ⟨fresh, loadedEq, readsEq⟩ := exists_loaded_eq
    (Walk.accounts_callers named (levels + 1) (fileEq ▸ List.mem_cons_self)) runs
  rw [loadedEq] at loaded
  rw [List.mem_toFinset, Corpus.reads, readsEq]
  simpa [other] using loaded

end Returned

/-- The metrics of an analysis that returns a chain account for it.  Nodes,
external nodes and unresolved calls are counted as they stand in the tree, where
no call is unresolved upward.  The files that the project is asked for, with success
or without, are other listed files, each of them once, and all of them upward when
there is a second level. -/
theorem run_metrics_account
    (returned : (run project configuration metrics cursor direction).result = .ok (some chain))
    (seen : cursor.corpus? project configuration = some corpus)
    (named : Occurrence.nowhere ∉ corpus.file :: corpus.files) :
    let raised (name : String) : Int :=
      (run project configuration metrics cursor direction).metrics.counter name -
        metrics.counter name
    raised "nodes.created" = chain.total ∧
    raised "nodes.external" = chain.root.externalCount ∧
    raised "calls.unresolved" = chain.root.nodes.countP (·.file == Occurrence.nowhere) ∧
    (chain.direction = .up → raised "calls.unresolved" = 0) ∧
    raised "files.read" + raised "files.read_failures" ≤ corpus.otherFiles.card ∧
    (chain.direction = .up → 2 ≤ configuration.maxDepth →
      raised "files.read" + raised "files.read_failures" = corpus.otherFiles.card) ∧
    ∃ root, corpus.methodAt cursor.line = some root ∧
      let reads := corpus.reads (levels configuration) metrics root chain.direction
      reads.Nodup ∧ raised "files.read" = reads.countP corpus.readable ∧
        raised "files.read_failures" = reads.countP (!corpus.readable ·) := by
  intro raised
  obtain ⟨root, found, yields, settles⟩ := settles_run named returned seen
  have unresolved : raised "calls.unresolved" =
      chain.root.nodes.countP (·.file == Occurrence.nowhere) := settles.unresolved
  have cardReads : raised "files.read" + raised "files.read_failures" =
      (corpus.reads (levels configuration) metrics root chain.direction).toFinset.card :=
    settles.card_reads
  refine ⟨settles.created, settles.external, unresolved, ?_, ?_, ?_, root, found,
    settles.distinct, settles.read, settles.failed⟩
  · intro up
    rw [unresolved, countP_nowhere_of_up named returned seen up]
    rfl
  · rw [cardReads]
    exact_mod_cast Finset.card_le_card settles.reads_subset
  · intro up deep
    obtain ⟨below, levelsEq⟩ : ∃ below, levels configuration = below + 1 := by
      refine ⟨(configuration.maxDepth - 2).toNat, ?_⟩
      rw [levels]
      omega
    rw [levelsEq, up] at yields
    have all := otherFiles_subset_of_up named (Source.file_of_methodAt found) yields
    rw [← levelsEq, ← up] at all
    rw [cardReads, settles.reads_subset.antisymm all]

/-- A caller, a file that cannot be read, and one without a method. -/
def counted : MemoryProject where
  files := [
    ("A.java", classText "A" ["void r() { }"]),
    ("B.java", classText "B" ["void s() { r(); }"]),
    ("D.java", "")]
  unreadable := [("C.java", .undecodable)]

/-- The walk reads two files and fails to read a third. -/
theorem counted_metrics_account :
    ∃ chain, (run counted.toProject {} {} { file := "A.java", line := 1 } (some "up")).result =
        .ok (some chain) ∧ chain.total = 2 ∧
      let ended := (run counted.toProject {} {} { file := "A.java", line := 1 }
        (some "up")).metrics
      ended.counter "nodes.created" = 2 ∧ ended.counter "calls.unresolved" = 0 ∧
        ended.counter "files.read" + ended.counter "files.read_failures" = 3 := by
  have passes : (run counted.toProject {} {} { file := "A.java", line := 1 }
      (some "up")).returns (fun chain => chain.total == 2 && chain.direction == .up) = true := by
    decide +kernel
  obtain ⟨chain, returned, shape⟩ := exists_chain_of_returns passes
  obtain ⟨total, up⟩ := by simpa using shape
  have seen : ({ file := "A.java", line := 1 } : Cursor).corpus? counted.toProject {} = some
      ⟨counted.toProject, rules {}, "A.java", (classText "A" ["void r() { }"]).toList⟩ := rfl
  obtain ⟨created, _, _, unresolved, _, complete, _⟩ :=
    run_metrics_account returned seen (by decide)
  have others : (Corpus.mk counted.toProject (rules {}) "A.java"
      (classText "A" ["void r() { }"]).toList).otherFiles.card = 3 := by decide +kernel
  refine ⟨chain, returned, total, ?_, ?_, ?_⟩
  · simpa [Metrics.counter, Tally.get, total] using created
  · simpa [Metrics.counter, Tally.get] using unresolved up
  · simpa [Metrics.counter, Tally.get, others] using complete up (by decide)

end Analysis
end CallTree
