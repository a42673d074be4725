import CallTree.Proofs.Analysis.Outcome
import CallTree.Proofs.Project.Failures
import CallTree.Proofs.Walk.Lockstep

/-!
# Faulty files

A file that cannot be read adds nothing to an analysis: the walk notes that it
has no text, and goes on as if the project did not list it.  A walk over the
project and one over the project without such files differ in these notes and
in their metrics only, so that both come to the same result.
-/

namespace CallTree
namespace Walk

variable {α : Type}

/-- The walks differ only in their metrics, in what they have asked for, and in what
they have noted of the lacking files, of which neither has a text. -/
structure EqualBut (lacking : List String) (walk other : Walk α) : Prop where
  visited : other.visited = walk.visited
  files : other.files = walk.files.map (·.filter (· ∉ lacking))
  loaded : ∀ file, file ∉ lacking → other.loaded.lookup file = walk.loaded.lookup file
  absent : ∀ file ∈ lacking,
    (walk.loaded.lookup file).join = none ∧ (other.loaded.lookup file).join = none

variable {keep : String → List Char → α} {lacking : List String} {project other : Project}
variable {walk otherWalk : Walk α}

theorem EqualBut.start {file : String} (listed : file ∉ lacking) (kept : α) (metrics : Metrics) :
    EqualBut lacking { loaded := [(file, some kept)], metrics }
      { loaded := [(file, some kept)], metrics } where
  visited := rfl
  files := rfl
  loaded _ _ := rfl
  absent := by
    intro path lacks
    have different : path ≠ file := ne_of_mem_of_not_mem lacks listed
    simp [List.lookup_cons, beq_eq_false_iff_ne.mpr different]

theorem join_lookup_cons_none {file path : String} {entries : List (String × Option α)}
    (absent : (entries.lookup path).join = none) :
    (((file, none) :: entries).lookup path).join = none := by
  rw [List.lookup_cons]
  split
  · rfl
  · exact absent

theorem lookup_cons_of_ne {file path : String} (different : path ≠ file) {kept : Option α}
    {entries : List (String × Option α)} :
    ((file, kept) :: entries).lookup path = entries.lookup path := by
  rw [List.lookup_cons, beq_eq_false_iff_ne.mpr different]

theorem EqualBut.note_left (equal : EqualBut lacking walk otherWalk) {file : String}
    (lacks : file ∈ lacking) (metrics : Metrics) :
    EqualBut lacking { walk.ask file with loaded := (file, none) :: walk.loaded, metrics }
      otherWalk where
  visited := equal.visited
  files := equal.files
  loaded path listed := by
    rw [lookup_cons_of_ne (ne_of_mem_of_not_mem lacks listed).symm]
    exact equal.loaded path listed
  absent path pathLacks :=
    ⟨join_lookup_cons_none (equal.absent path pathLacks).1, (equal.absent path pathLacks).2⟩

theorem EqualBut.note_right (equal : EqualBut lacking walk otherWalk) {file : String}
    (lacks : file ∈ lacking) (metrics : Metrics) :
    EqualBut lacking walk
      { otherWalk.ask file with loaded := (file, none) :: otherWalk.loaded, metrics } where
  visited := equal.visited
  files := equal.files
  loaded path listed := by
    rw [lookup_cons_of_ne (ne_of_mem_of_not_mem lacks listed).symm]
    exact equal.loaded path listed
  absent path pathLacks :=
    ⟨(equal.absent path pathLacks).1, join_lookup_cons_none (equal.absent path pathLacks).2⟩

theorem EqualBut.keep_file (equal : EqualBut lacking walk otherWalk) {file : String}
    (listed : file ∉ lacking) (kept : Option α) (metrics otherMetrics : Metrics) :
    EqualBut lacking { walk.ask file with loaded := (file, kept) :: walk.loaded, metrics }
      { otherWalk.ask file with
        loaded := (file, kept) :: otherWalk.loaded, metrics := otherMetrics } where
  visited := equal.visited
  files := equal.files
  loaded path pathListed := by
    rw [List.lookup_cons, List.lookup_cons, equal.loaded path pathListed]
  absent path pathLacks := by
    have different : path ≠ file := ne_of_mem_of_not_mem pathLacks listed
    rw [lookup_cons_of_ne different, lookup_cons_of_ne different]
    exact equal.absent path pathLacks

/-- A file of which nothing is obtained has no text, whether or not that was
known. -/
theorem load_left_out {file : String} (leftOut : project.obtained file = .ok none)
    (absent : (walk.loaded.lookup file).join = none) :
    Runs (load project keep file) walk none walk ∨
      Runs (load project keep file) walk none { walk.ask file with
        loaded := (file, none) :: walk.loaded
        metrics := walk.metrics.recordReadFailure } := by
  cases found : walk.loaded.lookup file with
  | some kept =>
      rw [found, Option.join_some] at absent
      exact .inl (by rw [Runs, outcome_load, found, absent])
  | none => exact .inr (by rw [Runs, outcome_load_of_unread project keep found, leftOut]; rfl)

theorem idle_load_lacking {file : String} (lacks : file ∈ lacking)
    (leftOut : project.obtained file = .ok none) :
    Idle (EqualBut lacking) (load project keep file) none := by
  intro before start equal
  rcases load_left_out leftOut (equal.absent file lacks).1 with known | read
  · exact ⟨before, known, equal⟩
  · exact ⟨_, read, equal.note_left lacks _⟩

theorem alike_load_lacking {file : String} (lacks : file ∈ lacking)
    (leftOut : project.obtained file = .ok none)
    (obtainedEq : other.obtained = project.obtained) :
    Alike (EqualBut lacking) (load project keep file) (load other keep file) := by
  intro before start equal
  obtain ⟨after, runs, stays⟩ := idle_load_lacking lacks leftOut before start equal
  have otherLeftOut : other.obtained file = .ok none := by rw [obtainedEq, leftOut]
  rcases load_left_out otherLeftOut (equal.absent file lacks).2 with known | read
  · rw [runs, known]
    exact ⟨rfl, stays⟩
  · rw [runs, read]
    exact ⟨rfl, stays.note_right lacks _⟩

theorem alike_load_listed {file : String} (listed : file ∉ lacking)
    (obtainedEq : other.obtained = project.obtained) :
    Alike (EqualBut lacking) (load project keep file) (load other keep file) := by
  intro before start equal
  have loadedEq := equal.loaded file listed
  cases found : before.loaded.lookup file with
  | some known =>
      rw [outcome_load, outcome_load, loadedEq, found]
      exact ⟨rfl, equal⟩
  | none =>
      rw [outcome_load_of_unread project keep found,
        outcome_load_of_unread other keep (loadedEq.trans found), obtainedEq]
      cases project.obtained file with
      | ok text => exact ⟨rfl, equal.keep_file listed _ _ _⟩
      | error fault =>
          exact ⟨rfl, equal.visited, equal.files, equal.loaded, equal.absent⟩

theorem EqualBut.lists (equal : EqualBut lacking walk otherWalk)
    (listedEq : other.listed = project.listed.map (·.filter (· ∉ lacking))) :
    (outcome (list other) otherWalk).1 =
        (outcome (list project) walk).1.map (·.filter (· ∉ lacking)) ∧
      EqualBut lacking (outcome (list project) walk).2 (outcome (list other) otherWalk).2 := by
  cases known : walk.files with
  | some files =>
      have otherKnown : otherWalk.files = some (files.filter (· ∉ lacking)) := by
        rw [equal.files, known, Option.map_some]
      rw [outcome_list, outcome_list, known, otherKnown]
      exact ⟨rfl, equal⟩
  | none =>
      have otherUnlisted : otherWalk.files = none := by rw [equal.files, known, Option.map_none]
      obtain ⟨firstEq, filesEq⟩ := outcome_list_of_unlisted project known
      obtain ⟨otherFirstEq, otherFilesEq⟩ := outcome_list_of_unlisted other otherUnlisted
      obtain ⟨visitedEq, loadedEq, _⟩ := outcome_list_keeps project walk
      obtain ⟨otherVisitedEq, otherLoadedEq, _⟩ := outcome_list_keeps other otherWalk
      refine ⟨by rw [firstEq, otherFirstEq, listedEq], ?_⟩
      constructor
      · rw [visitedEq, otherVisitedEq, equal.visited]
      · rw [filesEq, otherFilesEq, listedEq]
        cases project.listed <;> rfl
      · rw [loadedEq, otherLoadedEq]
        exact equal.loaded
      · rw [loadedEq, otherLoadedEq]
        exact equal.absent

/-- A walk over a project runs in lockstep with a walk over the project without
some files that fail to read. -/
theorem lockstep_equalBut (keep : String → List Char → α)
    (listedEq : other.listed = project.listed.map (·.filter (· ∉ lacking)))
    (obtainedEq : other.obtained = project.obtained)
    (leftOut : ∀ file ∈ lacking, project.obtained file = .ok none) :
    Lockstep keep lacking project other (EqualBut lacking) where
  visited _ _ equal := equal.visited
  marks _ _ _ equal :=
    ⟨by rw [equal.visited], equal.files, equal.loaded, equal.absent⟩
  records _ _ _ equal := ⟨rfl, equal.visited, equal.files, equal.loaded, equal.absent⟩
  lists _ _ equal := equal.lists listedEq
  loads file := by
    by_cases lacks : file ∈ lacking
    · exact alike_load_lacking lacks (leftOut file lacks) obtainedEq
    · exact alike_load_listed lacks obtainedEq
  skips file lacks := idle_load_lacking lacks (leftOut file lacks)

end Walk

namespace Analysis

variable {project other : Project} {configuration : Configuration} {metrics : Metrics}
variable {cursor : Cursor} {direction : Option String} {corpus : Corpus}
variable {lacking : List String}

theorem ofWalk_result_eq_of_alike {α : Type} {related : Walk α → Walk α → Prop}
    {walk otherWalk : WalkM α Tree} {way : Direction} {file : String} {kept : α}
    (alike : Walk.Alike related walk otherWalk)
    (start : related { loaded := [(file, some kept)], metrics }
      { loaded := [(file, some kept)], metrics }) :
    (ofWalk way metrics file kept walk).result =
      (ofWalk way metrics file kept otherWalk).result :=
  congrArg (Except.map fun tree => some (Chain.ofTree way tree)) (alike _ _ start).1

/-- Analyses of the same text have the same result when the other project lacks
only files that fail to read. -/
theorem ofText_result_eq {file : String} (listed : file ∉ lacking)
    (listedEq : other.listed = project.listed.map (·.filter (· ∉ lacking)))
    (obtainedEq : other.obtained = project.obtained)
    (leftOut : ∀ path ∈ lacking, project.obtained path = .ok none)
    (way : Direction) (line : Int) (text : List Char) :
    (ofText project configuration metrics way file line text).result =
      (ofText other configuration metrics way file line text).result := by
  apply ofText_congr Analysis.result
  · intro root
    have lockstep := Walk.lockstep_equalBut (Candidate.ofText (rules configuration)) listedEq
      obtainedEq leftOut
    exact ofWalk_result_eq_of_alike (lockstep.alike_callers _ root) (.start listed _ metrics)
  · intro root
    have lockstep := Walk.lockstep_equalBut (Reading.ofText (rules configuration)) listedEq
      obtainedEq leftOut
    exact ofWalk_result_eq_of_alike (lockstep.alike_callees _ _ root) (.start listed _ metrics)

theorem corpus?_eq_of_reads (seen : cursor.corpus? project configuration = some corpus)
    (readEq : other.read = project.read) (normalizeEq : other.normalize = project.normalize) :
    cursor.corpus? other configuration = some { corpus with project := other } := by
  obtain ⟨file, normalized, rest⟩ := Option.bind_eq_some_iff.mp seen
  obtain ⟨text, given, made⟩ := Option.bind_eq_some_iff.mp rest
  cases made
  exact Option.bind_eq_some_iff.mpr ⟨file, by rw [normalizeEq, normalized],
    Option.bind_eq_some_iff.mpr ⟨text, by rw [readEq, given], rfl⟩⟩

theorem run_result_eq_of_lacking (lacking : List String)
    (seen : cursor.corpus? project configuration = some corpus) (listed : corpus.file ∉ lacking)
    (listedEq : other.listed = project.listed.map (·.filter (· ∉ lacking)))
    (readEq : other.read = project.read) (normalizeEq : other.normalize = project.normalize)
    (leftOut : ∀ path ∈ lacking, project.obtained path = .ok none) :
    (run project configuration metrics cursor direction).result =
      (run other configuration metrics cursor direction).result := by
  rw [run, run]
  cases Direction.ofString? (direction.getD configuration.defaultDirection) with
  | none => rfl
  | some way =>
      dsimp only
      rw [toward_eq_timed seen, toward_eq_timed (corpus?_eq_of_reads seen readEq normalizeEq)]
      have obtainedEq : other.obtained = project.obtained := by
        funext path
        rw [Project.obtained, Project.obtained, readEq]
      exact ofText_result_eq listed listedEq obtainedEq leftOut way cursor.line corpus.text

theorem obtainable_of_faulty {faulty : List String}
    (fails : ∀ file ∈ faulty, file ≠ corpus.file ∧ corpus.project.FailsToRead file)
    (readable : ∀ file ∈ corpus.files, file ≠ corpus.file → file ∉ faulty →
      ∃ text, corpus.project.read file = .ok text) :
    ∀ file ∈ corpus.files, corpus.Obtainable file := by
  intro file fileMem
  by_cases given : file = corpus.file
  · exact .inl given
  right
  intro fault failed
  by_cases isFaulty : file ∈ faulty
  · obtain ⟨same, sameFailed, ofReading⟩ := (fails file isFaulty).2
    cases sameFailed.symm.trans failed
    exact ofReading.skipsFile
  · obtain ⟨text, read⟩ := readable file fileMem given isFaulty
    cases read.symm.trans failed

/-- Files that fail to read add nothing: the result is the one without them in
the listing, and if all other files can be read it is no fault.  A listing that
fails with a fault of this library counts as empty. -/
theorem run_result_without_faulty {faulty : List String}
    (seen : cursor.corpus? project configuration = some corpus)
    (fails : ∀ file ∈ faulty, file ≠ corpus.file ∧ project.FailsToRead file) :
    (run project configuration metrics cursor direction).result =
        (run (project.without faulty) configuration metrics cursor direction).result ∧
    ((Direction.ofString? (direction.getD configuration.defaultDirection)).isSome →
      (∀ fault, project.listing = .error fault → "CallChainError" ∈ fault.kinds) →
      (∀ file ∈ corpus.files, file ≠ corpus.file → file ∉ faulty →
        ∃ text, project.read file = .ok text) →
      ∃ value, (run project configuration metrics cursor direction).result = .ok value) ∧
    (∀ fault, project.listing = .error fault → "CallChainError" ∈ fault.kinds →
      (run project configuration metrics cursor direction).result =
        (run { project with listing := .ok [] } configuration metrics cursor
          direction).result) := by
  refine ⟨?_, ?_, ?_⟩
  · apply run_result_eq_of_lacking faulty seen _ (project.listed_without faulty) rfl rfl
    · intro file fileMem
      exact (fails file fileMem).2.obtained_eq
    · intro fileMem
      exact (fails corpus.file fileMem).1 rfl
  · intro known listable readable
    obtain ⟨way, wayEq⟩ := Option.isSome_iff_exists.mp known
    obtain ⟨rfl, _⟩ := corpus?_eq_some seen
    rw [run, wayEq]
    exact exists_toward_result_ok seen
      (fun fault failed => Fault.isOwn_iff.mpr (listable fault failed))
      (obtainable_of_faulty fails readable) way
  · intro fault failed own
    have nothing := Project.listed_eq_nil failed (Fault.isOwn_iff.mpr own)
    exact run_result_eq_of_lacking [] seen List.not_mem_nil (by rw [nothing]; rfl) rfl rfl
      (by simp)

/-- Two files that call each other and two that cannot be read, with a listing
that may fail. -/
def spoiled (listingFault : Option Fault) : Project :=
  MemoryProject.toProject {
    files := [
      ("A.java", classText "A" ["void r() { s(); }"]),
      ("B.java", classText "B" ["void s() { r(); }"])]
    unreadable := [("C.java", .system .refused), ("D.java", .undecodable)]
    listingFault }

/-- What an analysis of the first file sees. -/
def spoiledCorpus (listingFault : Option Fault) : Corpus where
  project := spoiled listingFault
  rules := rules {}
  file := "A.java"
  text := (classText "A" ["void r() { s(); }"]).toList

theorem spoiled_seen (listingFault : Option Fault) :
    Cursor.corpus? { file := "A.java", line := 1 } (spoiled listingFault) {} =
      some (spoiledCorpus listingFault) :=
  rfl

theorem spoiled_fails (listingFault : Option Fault) : ∀ file ∈ ["C.java", "D.java"],
    file ≠ "A.java" ∧ (spoiled listingFault).FailsToRead file := by
  simp only [List.mem_cons, List.not_mem_nil, or_false]
  rintro file (rfl | rfl)
  · exact ⟨by decide, _, rfl, .system .refused⟩
  · exact ⟨by decide, _, rfl, .undecodable⟩

theorem spoiled_reads : ∀ file ∈ (spoiledCorpus none).files, file ≠ "A.java" →
    file ∉ ["C.java", "D.java"] → ∃ text, (spoiled none).read file = .ok text := by
  have filesEq : (spoiledCorpus none).files = ["A.java", "B.java", "C.java", "D.java"] := by
    decide
  rw [filesEq]
  simp only [List.mem_cons, List.not_mem_nil, or_false]
  rintro file (rfl | rfl | rfl | rfl) other notFaulty
  · exact absurd rfl other
  · exact ⟨_, rfl⟩
  · exact absurd (.inl rfl) notFaulty
  · exact absurd (.inr rfl) notFaulty

/-- The analysis goes past the unreadable files to a tree of three nodes; when
the listing fails, it comes to what it comes to without any files. -/
theorem spoiled_result_without_faulty :
    (∃ value, (run (spoiled none) {} {} { file := "A.java", line := 1 } (some "up")).result =
          .ok value ∧
        (run ((spoiled none).without ["C.java", "D.java"]) {} {}
          { file := "A.java", line := 1 } (some "up")).result = .ok value ∧
        value.map Chain.total = some 3) ∧
    (run (spoiled (some (.notFound "listing" "/repo"))) {} {}
        { file := "A.java", line := 1 } (some "up")).result =
      (run { spoiled (some (.notFound "listing" "/repo")) with listing := .ok [] } {} {}
        { file := "A.java", line := 1 } (some "up")).result := by
  have passes : (run (spoiled none) {} {} { file := "A.java", line := 1 } (some "up")).returns
      (fun chain => chain.total == 3) = true := by
    decide +kernel
  obtain ⟨chain, returned, total⟩ := exists_chain_of_returns passes
  have ended : ∃ value, (run (spoiled none) {} {} { file := "A.java", line := 1 }
      (some "up")).result = .ok value :=
    (run_result_without_faulty (spoiled_seen none) (spoiled_fails none)).2.1 (by decide +kernel)
      (fun _ failed => nomatch failed) spoiled_reads
  constructor
  · obtain ⟨value, valueEq⟩ := ended
    refine ⟨value, valueEq, ?_, ?_⟩
    · rw [← (run_result_without_faulty (spoiled_seen none) (spoiled_fails none)).1]
      exact valueEq
    · cases valueEq.symm.trans returned
      exact congrArg some (beq_iff_eq.mp total)
  · exact (run_result_without_faulty (spoiled_seen (some (.notFound "listing" "/repo")))
      (spoiled_fails _)).2.2 (.notFound "listing" "/repo") rfl (by decide)

end Analysis

end CallTree
