import CallTree.Proofs.Corpus
import CallTree.Proofs.Walk.Run

/-!
# Faithful walks

A walk keeps what it has read.  It is faithful to a corpus when what it keeps is
what it would get by reading afresh.  Every action of a walk preserves this, so
that the order in which files are read makes no difference.
-/

namespace CallTree
namespace Walk

variable {α β γ : Type}

/-- What the walk keeps of its files and of the listing agrees with the corpus,
and the given file needs no reading. -/
structure Faithful (corpus : Corpus) (keep : String → List Char → α) (walk : Walk α) :
    Prop where
  given : (walk.loaded.lookup corpus.file).isSome
  loaded : ∀ file kept, walk.loaded.lookup file = some kept →
    kept = (corpus.text? file).map (keep file) ∧ corpus.Obtainable file
  listed : ∀ files, walk.files = some files → files = corpus.files ∧ corpus.Listable

variable {corpus : Corpus} {keep : String → List Char → α} {before after : Walk α}

theorem Faithful.start (corpus : Corpus) (keep : String → List Char → α) (metrics : Metrics) :
    Faithful corpus keep
      { loaded := [(corpus.file, some (keep corpus.file corpus.text))], metrics } where
  given := by simp
  loaded := by
    intro file kept found
    by_cases same : file = corpus.file
    · subst same
      rw [List.lookup_cons_self, Option.some.injEq] at found
      exact ⟨by rw [← found, corpus.text?_file, Option.map_some], .inl rfl⟩
    · simp [List.lookup_cons, beq_eq_false_iff_ne.mpr same] at found
  listed := by simp

theorem Faithful.of_eq (faithful : Faithful corpus keep before)
    (loaded : after.loaded = before.loaded) (files : after.files = before.files) :
    Faithful corpus keep after where
  given := loaded ▸ faithful.given
  loaded := loaded ▸ faithful.loaded
  listed := files ▸ faithful.listed

theorem Faithful.keep_file (faithful : Faithful corpus keep before) {file : String}
    {kept : Option α} (keptEq : kept = (corpus.text? file).map (keep file))
    (obtainable : corpus.Obtainable file)
    (loaded : after.loaded = (file, kept) :: before.loaded)
    (files : after.files = before.files) : Faithful corpus keep after where
  given := by
    rw [loaded, List.lookup_cons]
    split
    · rfl
    · exact faithful.given
  loaded := by
    intro other known found
    rw [loaded, List.lookup_cons] at found
    split at found
    · rename_i same
      cases found
      rw [beq_iff_eq.mp same]
      exact ⟨keptEq, obtainable⟩
    · exact faithful.loaded other known found
  listed := files ▸ faithful.listed

theorem Faithful.ne_file (faithful : Faithful corpus keep before) {file : String}
    (unread : before.loaded.lookup file = none) : file ≠ corpus.file := by
  rintro rfl
  simpa [unread] using faithful.given

/-- Loading a file ends the walk or gives what reading it afresh gives. -/
theorem Faithful.loads (faithful : Faithful corpus keep before) (file : String) :
    (corpus.Obtainable file ∧ ∃ after,
      Runs (load corpus.project keep file) before ((corpus.text? file).map (keep file)) after ∧
        Faithful corpus keep after ∧ after.visited = before.visited) ∨
    (¬ corpus.Obtainable file ∧
      ∀ kept after, ¬ Runs (load corpus.project keep file) before kept after) := by
  simp only [Runs, outcome_load]
  cases found : before.loaded.lookup file with
  | some known =>
      obtain ⟨rfl, obtainable⟩ := faithful.loaded file known found
      exact .inl ⟨obtainable, before, rfl, faithful, rfl⟩
  | none =>
      have other := faithful.ne_file found
      cases reading : corpus.project.read file with
      | ok text =>
          have textEq : corpus.text? file = some text.toList := by
            simp [Corpus.text?, other, reading]
          have obtainable : corpus.Obtainable file := .inr (by simp [reading])
          rw [textEq]
          exact .inl ⟨obtainable, _, rfl,
            faithful.keep_file (by rw [textEq, Option.map_some]) obtainable rfl rfl, rfl⟩
      | error fault =>
          have textEq : corpus.text? file = none := by simp [Corpus.text?, other, reading]
          rw [textEq]
          cases skips : fault.skipsFile with
          | true =>
              have obtainable : corpus.Obtainable file := .inr (by simp [reading, skips])
              exact .inl ⟨obtainable, _, if_pos skips,
                faithful.keep_file (by rw [textEq, Option.map_none]) obtainable rfl rfl, rfl⟩
          | false =>
              refine .inr ⟨?_, by simp [skips]⟩
              rintro (same | skipped)
              · exact other same
              · rw [skipped fault reading] at skips
                cases skips

/-- Listing the project ends the walk or gives the files of the corpus. -/
theorem Faithful.lists (faithful : Faithful corpus keep before) :
    (corpus.Listable ∧ ∃ after, Runs (list corpus.project) before corpus.files after ∧
      Faithful corpus keep after ∧ after.visited = before.visited) ∨
    (¬ corpus.Listable ∧
      ∀ files after, ¬ Runs (list corpus.project) before files after) := by
  simp only [Runs, outcome_list]
  cases known : before.files with
  | some files =>
      obtain ⟨rfl, listable⟩ := faithful.listed files known
      exact .inl ⟨listable, before, rfl, faithful, rfl⟩
  | none =>
      cases listing : corpus.project.listing with
      | ok files =>
          have filesEq : corpus.files = files := by simp [Corpus.files, listing]
          have listable : corpus.Listable := by simp [Corpus.Listable, listing]
          rw [filesEq]
          refine .inl ⟨listable, _, rfl, ⟨faithful.given, faithful.loaded, ?_⟩, rfl⟩
          rintro _ ⟨⟩
          exact ⟨filesEq.symm, listable⟩
      | error fault =>
          have filesEq : corpus.files = [] := by simp [Corpus.files, listing]
          rw [filesEq]
          cases own : fault.isOwn with
          | true =>
              have listable : corpus.Listable := by simp [Corpus.Listable, listing, own]
              refine .inl ⟨listable, _, if_pos own, ⟨faithful.given, faithful.loaded, ?_⟩, rfl⟩
              rintro _ ⟨⟩
              exact ⟨filesEq.symm, listable⟩
          | false =>
              refine .inr ⟨fun listable => ?_, by simp [own]⟩
              rw [listable fault listing] at own
              cases own

theorem Faithful.of_runs_load (faithful : Faithful corpus keep before) {file : String}
    {kept : Option α} (runs : Runs (load corpus.project keep file) before kept after) :
    corpus.Obtainable file ∧ kept = (corpus.text? file).map (keep file) ∧
      Faithful corpus keep after ∧ after.visited = before.visited := by
  rcases faithful.loads file with ⟨obtainable, _, loads, stays⟩ | ⟨_, fails⟩
  · obtain ⟨rfl, rfl⟩ := runs.unique loads
    exact ⟨obtainable, rfl, stays⟩
  · exact absurd runs (fails kept after)

theorem Faithful.of_runs_list (faithful : Faithful corpus keep before) {files : List String}
    (runs : Runs (list corpus.project) before files after) :
    corpus.Listable ∧ files = corpus.files ∧ Faithful corpus keep after ∧
      after.visited = before.visited := by
  rcases faithful.lists with ⟨listable, _, lists, stays⟩ | ⟨_, fails⟩
  · obtain ⟨rfl, rfl⟩ := runs.unique lists
    exact ⟨listable, rfl, stays⟩
  · exact absurd runs (fails files after)

theorem Faithful.outcome_load (faithful : Faithful corpus keep before) (file : String) :
    Faithful corpus keep (outcome (load corpus.project keep file) before).2 := by
  cases ended : outcome (load corpus.project keep file) before with
  | mk result after =>
      cases result with
      | ok kept => exact (faithful.of_runs_load ended).2.2.1
      | error fault => exact outcome_load_error ended ▸ faithful.of_eq rfl rfl

theorem Faithful.outcome_list (faithful : Faithful corpus keep before) :
    Faithful corpus keep (outcome (list corpus.project) before).2 := by
  cases ended : outcome (list corpus.project) before with
  | mk result after =>
      cases result with
      | ok files => exact (faithful.of_runs_list ended).2.2.1
      | error fault => exact outcome_list_error ended ▸ faithful

end Walk
end CallTree
