import CallTree.Proofs.Analysis.Outcome
import CallTree.Proofs.Walk.Lockstep

/-!
# Given texts

A text that is given with the cursor takes the place of the text of its file.
A walk that starts with the text never reads the file, so that the analysis is
the one of the project in which the file has that text.
-/

namespace CallTree
namespace Walk

variable {α : Type}

/-- The walks are the same, and need not read the file. -/
def SameWith (file : String) (walk other : Walk α) : Prop :=
  walk = other ∧ (walk.loaded.lookup file).isSome

variable {project other : Project} {keep : String → List Char → α} {file : String}

theorem alike_load_given
    (readEq : ∀ path, path ≠ file → other.read path = project.read path) (path : String) :
    Alike (SameWith file) (load project keep path) (load other keep path) := by
  rintro walk _ ⟨rfl, given⟩
  cases found : walk.loaded.lookup path with
  | some known =>
      rw [outcome_load, outcome_load, found]
      exact ⟨rfl, rfl, given⟩
  | none =>
      have different : path ≠ file := by
        rintro rfl
        simp [found] at given
      have obtainedEq : other.obtained path = project.obtained path := by
        rw [Project.obtained, Project.obtained, readEq path different]
      rw [outcome_load_of_unread project keep found, outcome_load_of_unread other keep found,
        obtainedEq]
      cases project.obtained path with
      | error fault => exact ⟨rfl, rfl, given⟩
      | ok text =>
          refine ⟨rfl, rfl, ?_⟩
          rw [List.lookup_cons, beq_eq_false_iff_ne.mpr different.symm]
          exact given

/-- Walks that need not read a file run in lockstep over projects that differ in
the text of that file only. -/
theorem lockstep_sameWith (keep : String → List Char → α)
    (listingEq : other.listing = project.listing)
    (readEq : ∀ path, path ≠ file → other.read path = project.read path) :
    Lockstep keep [] project other (SameWith file) where
  visited := by
    rintro walk _ ⟨rfl, _⟩
    rfl
  marks := by
    rintro walk _ key ⟨rfl, given⟩
    exact ⟨rfl, given⟩
  records := by
    rintro change walk _ ⟨rfl, given⟩
    exact ⟨rfl, rfl, given⟩
  lists := by
    rintro walk _ ⟨rfl, given⟩
    have outcomeEq : outcome (list other) walk = outcome (list project) walk := by
      rw [outcome_list, outcome_list, listingEq]
    rw [outcomeEq]
    exact ⟨(map_filter_lacking_nil _).symm, rfl, (outcome_list_keeps project walk).2.1 ▸ given⟩
  loads := alike_load_given readEq
  skips := by simp

end Walk

namespace MemoryProject

variable {file : String}

theorem map_fst_insert {α : Type} {entries : List (String × α)}
    (inside : file ∈ entries.map Prod.fst) (value : α) :
    (insert file value entries).map Prod.fst = entries.map Prod.fst := by
  induction entries with
  | nil => cases inside
  | cons entry entries ih =>
      obtain ⟨other, old⟩ := entry
      rw [insert]
      split
      · rfl
      · rename_i different
        have later : file ∈ entries.map Prod.fst := by
          rcases List.mem_cons.mp inside with rfl | later
          · simp at different
          · exact later
        rw [List.map_cons, ih later, List.map_cons]

theorem lookup_insert_self {α : Type} (entries : List (String × α)) (value : α) :
    (insert file value entries).lookup file = some value := by
  induction entries with
  | nil => simp [insert]
  | cons entry entries ih =>
      obtain ⟨other, old⟩ := entry
      rw [insert]
      by_cases here : other = file
      · simp [here]
      · rw [if_neg (by simpa using here), List.lookup_cons, beq_eq_false_iff_ne.mpr (Ne.symm here)]
        exact ih

theorem lookup_insert_of_ne {α : Type} (entries : List (String × α)) (value : α)
    {path : String} (different : path ≠ file) :
    (insert file value entries).lookup path = entries.lookup path := by
  have unequal : (path == file) = false := beq_eq_false_iff_ne.mpr different
  induction entries with
  | nil => simp [insert, List.lookup_cons, unequal]
  | cons entry entries ih =>
      obtain ⟨other, old⟩ := entry
      rw [insert]
      by_cases here : other = file
      · simp [here, List.lookup_cons, unequal]
      · rw [if_neg (by simpa using here), List.lookup_cons, List.lookup_cons, ih]

theorem insert_insert {α : Type} (entries : List (String × α)) (old value : α) :
    insert file value (insert file old entries) = insert file value entries := by
  induction entries with
  | nil => simp [insert]
  | cons entry entries ih =>
      obtain ⟨other, text⟩ := entry
      by_cases here : other = file <;> simp [insert, here, ih]

variable {project : MemoryProject}

theorem listing_add (inside : file ∈ project.files.map Prod.fst) (text : String) :
    (project.add file text).toProject.listing = project.toProject.listing := by
  have pathsEq : (project.add file text).paths = project.paths := by
    simp only [paths, add, map_fst_insert inside]
  rw [toProject, toProject, pathsEq]
  rfl

theorem read_add (project : MemoryProject) (text : String) {path : String}
    (different : path ≠ file) :
    (project.add file text).toProject.read path = project.toProject.read path := by
  simp only [toProject, read, add, lookup_insert_of_ne _ _ different]

theorem read_add_self (readable : project.unreadable.lookup file = none) (text : String) :
    (project.add file text).toProject.read file = .ok text := by
  simp only [toProject, read, add, readable, lookup_insert_self]

end MemoryProject

namespace Analysis

variable {project : MemoryProject} {configuration : Configuration} {metrics : Metrics}
variable {file text : String} {line : Int} {direction : Option String}

theorem ofWalk_eq_of_alike {α : Type} {walk other : WalkM α Tree} {way : Direction} {kept : α}
    (alike : Walk.Alike (Walk.SameWith file) walk other) :
    ofWalk way metrics file kept walk = ofWalk way metrics file kept other := by
  have given : Walk.SameWith file ({ loaded := [(file, some kept)], metrics } : Walk α)
      { loaded := [(file, some kept)], metrics } := ⟨rfl, by simp⟩
  obtain ⟨resultEq, walkEq, _⟩ := alike _ _ given
  have outcomeEq : Walk.outcome walk { loaded := [(file, some kept)], metrics } =
      Walk.outcome other { loaded := [(file, some kept)], metrics } :=
    Prod.ext resultEq walkEq
  rw [Walk.outcome, Walk.outcome] at outcomeEq
  rw [ofWalk, ofWalk, outcomeEq]

/-- Over projects that differ in the text of a file only, analyses that are
given a text of that file are the same. -/
theorem ofText_eq_of_reads {first second : Project}
    (listingEq : second.listing = first.listing)
    (readEq : ∀ path, path ≠ file → second.read path = first.read path) (way : Direction)
    (given : List Char) :
    ofText first configuration metrics way file line given =
      ofText second configuration metrics way file line given := by
  apply ofText_congr id
  · intro root
    have lockstep := Walk.lockstep_sameWith (Candidate.ofText (rules configuration)) listingEq
      readEq
    exact ofWalk_eq_of_alike (lockstep.alike_callers _ root)
  · intro root
    have lockstep := Walk.lockstep_sameWith (Reading.ofText (rules configuration)) listingEq
      readEq
    exact ofWalk_eq_of_alike (lockstep.alike_callees _ _ root)

theorem run_given_eq_run_add (inside : file ∈ project.files.map Prod.fst)
    (readable : project.unreadable.lookup file = none) :
    run project.toProject configuration metrics { file, line, text := some text } direction =
      run (project.add file text).toProject configuration metrics { file, line } direction := by
  rw [run, run]
  cases Direction.ofString? (direction.getD configuration.defaultDirection) with
  | none => rfl
  | some way =>
      have given : ({ file, line, text := some text } : Cursor).corpus? project.toProject
          configuration = some
            ⟨project.toProject, rules configuration, file, text.toList⟩ := rfl
      have replaced : ({ file, line } : Cursor).corpus? (project.add file text).toProject
          configuration = some
            ⟨(project.add file text).toProject, rules configuration, file, text.toList⟩ := by
        refine Option.bind_eq_some_iff.mpr ⟨text, ?_, rfl⟩
        rw [MemoryProject.read_add_self readable text]
        rfl
      dsimp only
      rw [toward_eq_timed given, toward_eq_timed replaced,
        ofText_eq_of_reads (MemoryProject.listing_add inside text)
          fun _ different => project.read_add text different]

/-- A text that is given for a file of the project shadows the text that the
project has: the analysis, its metrics included, is the one of the project with
the given text in place, and does not depend on what stood there before. -/
theorem run_given_shadows (inside : file ∈ project.files.map Prod.fst)
    (readable : project.unreadable.lookup file = none) :
    run project.toProject configuration metrics { file, line, text := some text } direction =
        run (project.add file text).toProject configuration metrics { file, line } direction ∧
    ∀ old, run (project.add file old).toProject configuration metrics
        { file, line, text := some text } direction =
      run project.toProject configuration metrics { file, line, text := some text }
        direction := by
  refine ⟨run_given_eq_run_add inside readable, ?_⟩
  intro old
  have stillInside : file ∈ (project.add file old).files.map Prod.fst := by
    rw [MemoryProject.add, MemoryProject.map_fst_insert inside]
    exact inside
  have replaced : (project.add file old).add file text = project.add file text := by
    simp only [MemoryProject.add, MemoryProject.insert_insert]
  rw [run_given_eq_run_add stillInside readable, run_given_eq_run_add inside readable, replaced]

/-- Two files, the second of which calls a method that the first does not have
yet. -/
def edited : MemoryProject where
  files := [
    ("A.java", classText "A" ["void before() { }"]),
    ("B.java", classText "B" ["void s() { r(); }"])]

/-- The new text of the first file. -/
def editedText : String :=
  classText "A" ["void r() { s(); }"]

/-- The methods of the new text and of the second file call each other, whatever
the project has in place of the new text. -/
theorem edited_given_shadows :
    (∃ chain, (run edited.toProject {} {}
        { file := "A.java", line := 1, text := some editedText } (some "up")).result =
          .ok (some chain) ∧ chain.total = 3) ∧
    run edited.toProject {} {} { file := "A.java", line := 1, text := some editedText }
        (some "up") =
      run (edited.add "A.java" editedText).toProject {} {} { file := "A.java", line := 1 }
        (some "up") ∧
    run (edited.add "A.java" "").toProject {} {}
        { file := "A.java", line := 1, text := some editedText } (some "up") =
      run edited.toProject {} {} { file := "A.java", line := 1, text := some editedText }
        (some "up") := by
  have passes : (run edited.toProject {} {}
      { file := "A.java", line := 1, text := some editedText } (some "up")).returns
      (fun chain => chain.total == 3) = true := by
    decide +kernel
  obtain ⟨chain, returned, total⟩ := exists_chain_of_returns passes
  obtain ⟨shadowed, anyOld⟩ := run_given_shadows
    (show "A.java" ∈ edited.files.map Prod.fst by decide)
    (show edited.unreadable.lookup "A.java" = none from rfl)
  exact ⟨⟨chain, returned, beq_iff_eq.mp total⟩, shadowed, anyOld ""⟩

end Analysis
end CallTree
