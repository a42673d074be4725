import CallTree.Proofs.Project.Failures
import CallTree.Walk.Basic

/-!
# Runs of a walk

An action of a walk runs when it ends without a fault.  For each action, this
module says with which values it runs, and what the walk is like afterwards.
-/

namespace CallTree
namespace Walk

variable {α β γ : Type}

/-- What an action ends with, and the walk that it leaves. -/
def outcome (action : WalkM α β) (before : Walk α) : Except Fault β × Walk α :=
  action.run.run before

@[simp]
theorem outcome_pure (value : β) (before : Walk α) :
    outcome (pure value) before = (.ok value, before) :=
  rfl

@[simp]
theorem outcome_bind (action : WalkM α β) (next : β → WalkM α γ) (before : Walk α) :
    outcome (action >>= next) before =
      match outcome action before with
      | (.ok first, middle) => outcome (next first) middle
      | (.error fault, middle) => (.error fault, middle) := by
  change (match outcome action before with
    | (first, middle) => (ExceptT.bindCont next first).run middle : Except Fault γ × Walk α) = _
  rcases outcome action before with ⟨_ | _, _⟩ <;> rfl

@[simp]
theorem outcome_get (before : Walk α) :
    outcome (get : WalkM α (Walk α)) before = (.ok before, before) :=
  rfl

@[simp]
theorem outcome_modify (change : Walk α → Walk α) (before : Walk α) :
    outcome (modify change : WalkM α Unit) before = (.ok (), change before) :=
  rfl

@[simp]
theorem outcome_throw (fault : Fault) (before : Walk α) :
    outcome (throw fault : WalkM α β) before = (.error fault, before) :=
  rfl

@[simp]
theorem outcome_record (change : Metrics → Metrics) (before : Walk α) :
    outcome (record change) before =
      (.ok (), { before with metrics := change before.metrics }) :=
  rfl

theorem outcome_list (project : Project) (before : Walk α) :
    outcome (list project) before =
      match before.files with
      | some files => (.ok files, before)
      | none =>
          match project.listing with
          | .ok files => (.ok files, { before with files := some files })
          | .error fault =>
              if fault.isOwn then
                (.ok [], { before with
                  files := some [], metrics := before.metrics.recordError fault.kind })
              else (.error fault, before) := by
  cases known : before.files with
  | some files => simp only [list, outcome_bind, outcome_get, known, outcome_pure]
  | none =>
      cases listing : project.listing with
      | ok files =>
          simp only [list, outcome_bind, outcome_get, known, listing, outcome_pure,
            outcome_modify]
      | error fault =>
          cases own : fault.isOwn <;>
            simp only [list, outcome_bind, outcome_get, known, listing, own, if_true,
              Bool.false_eq_true, if_false, outcome_throw, outcome_record, outcome_pure,
              outcome_modify]

theorem outcome_load (project : Project) (keep : String → List Char → α) (file : String)
    (before : Walk α) :
    outcome (load project keep file) before =
      match before.loaded.lookup file with
      | some known => (.ok known, before)
      | none =>
          match project.read file with
          | .ok text =>
              (.ok (some (keep file text.toList)), { before.ask file with
                loaded := (file, some (keep file text.toList)) :: before.loaded
                metrics := before.metrics.recordRead })
          | .error fault =>
              if fault.skipsFile then
                (.ok none, { before.ask file with
                  loaded := (file, none) :: before.loaded
                  metrics := before.metrics.recordReadFailure })
              else (.error fault, before.ask file) := by
  cases found : before.loaded.lookup file with
  | some known => simp only [load, outcome_bind, outcome_get, found, outcome_pure]
  | none =>
      cases reading : project.read file with
      | ok text =>
          simp only [load, outcome_bind, outcome_get, found, reading, outcome_record,
            outcome_pure, outcome_modify, ask]
      | error fault =>
          cases skips : fault.skipsFile <;>
            simp only [load, outcome_bind, outcome_get, found, reading, skips, if_true,
              Bool.false_eq_true, if_false, outcome_throw, outcome_record, outcome_pure,
              outcome_modify, ask]

theorem outcome_stop (method : Method) (before : Walk α) :
    outcome (stop method) before =
      (.ok (.leaf (.ofMethod method true)),
        { before with metrics := before.metrics.recordNode true }) :=
  rfl

theorem outcome_expand (method : Method) (children : WalkM α (List Tree)) (before : Walk α) :
    outcome (expand method children) before =
      if method.key ∈ before.visited then
        (.ok (.leaf (.ofMethod method true)),
          { before with metrics := before.metrics.recordNode true })
      else
        match outcome children { before with
          visited := method.key :: before.visited
          metrics := before.metrics.recordNode false } with
        | (.ok below, after) => (.ok (.node (.ofMethod method false) below), after)
        | (.error fault, after) => (.error fault, after) := by
  by_cases visited : method.key ∈ before.visited
  · simp only [expand, outcome_bind, outcome_get, visited, List.contains_eq_mem, decide_true,
      if_true, outcome_stop]
  · simp only [expand, outcome_bind, outcome_get, visited, List.contains_eq_mem, decide_false,
      Bool.false_eq_true, if_false, outcome_modify, outcome_record, outcome_pure]
    rcases outcome children _ with ⟨_ | _, _⟩ <;> rfl

theorem outcome_list_keeps (project : Project) (before : Walk α) :
    (outcome (list project) before).2.visited = before.visited ∧
      (outcome (list project) before).2.loaded = before.loaded ∧
      (outcome (list project) before).2.reads = before.reads := by
  rw [outcome_list]
  cases before.files with
  | some files => exact ⟨rfl, rfl, rfl⟩
  | none =>
      cases project.listing with
      | ok files => exact ⟨rfl, rfl, rfl⟩
      | error fault =>
          dsimp only
          split
          · exact ⟨rfl, rfl, rfl⟩
          · exact ⟨rfl, rfl, rfl⟩

/-- A listing that ends the walk leaves it as it was. -/
theorem outcome_list_error {project : Project} {before after : Walk α} {fault : Fault}
    (failed : outcome (list project) before = (.error fault, after)) : after = before := by
  rw [outcome_list] at failed
  cases known : before.files with
  | some files => simp [known] at failed
  | none =>
      cases listing : project.listing with
      | ok files => simp [known, listing] at failed
      | error fault =>
          simp only [known, listing] at failed
          split at failed
          · cases failed
          · cases failed
            rfl

/-- A file that ends the walk has been asked for, and nothing else is changed. -/
theorem outcome_load_error {project : Project} {keep : String → List Char → α} {file : String}
    {before after : Walk α} {fault : Fault}
    (failed : outcome (load project keep file) before = (.error fault, after)) :
    after = before.ask file := by
  rw [outcome_load] at failed
  cases found : before.loaded.lookup file with
  | some known => simp [found] at failed
  | none =>
      cases reading : project.read file with
      | ok text => simp [found, reading] at failed
      | error fault =>
          simp only [found, reading] at failed
          split at failed
          · cases failed
          · cases failed
            rfl

/-- A walk that has not listed the project takes it to have its listed files. -/
theorem outcome_list_of_unlisted (project : Project) {before : Walk α}
    (unlisted : before.files = none) :
    (outcome (list project) before).1 = project.listed ∧
      (outcome (list project) before).2.files = project.listed.toOption := by
  rw [outcome_list, unlisted, Project.listed]
  cases project.listing with
  | ok files => exact ⟨rfl, rfl⟩
  | error fault =>
      dsimp only
      split
      · exact ⟨rfl, rfl⟩
      · exact ⟨rfl, unlisted⟩

/-- A walk that has not read a file obtains it from the project. -/
theorem outcome_load_of_unread (project : Project) (keep : String → List Char → α)
    {file : String} {before : Walk α} (unread : before.loaded.lookup file = none) :
    outcome (load project keep file) before =
      match project.obtained file with
      | .ok text =>
          (.ok (text.map fun text => keep file text.toList), { before.ask file with
            loaded := (file, text.map fun text => keep file text.toList) :: before.loaded
            metrics :=
              if text.isSome then before.metrics.recordRead else before.metrics.recordReadFailure })
      | .error fault => (.error fault, before.ask file) := by
  rw [outcome_load, unread, Project.obtained]
  cases project.read file with
  | ok text => rfl
  | error fault =>
      dsimp only
      split
      · rfl
      · rfl

/-- The action ends with a value, and leaves the walk as `after`. -/
def Runs (action : WalkM α β) (before : Walk α) (value : β) (after : Walk α) : Prop :=
  outcome action before = (.ok value, after)

theorem Runs.unique {action : WalkM α β} {before after other : Walk α} {value result : β}
    (first : Runs action before value after) (second : Runs action before result other) :
    value = result ∧ after = other := by
  rw [Runs, first] at second
  cases second
  exact ⟨rfl, rfl⟩

theorem runs_bind {action : WalkM α β} {next : β → WalkM α γ} {before after : Walk α}
    {value : γ} :
    Runs (action >>= next) before value after ↔
      ∃ first middle, Runs action before first middle ∧
        Runs (next first) middle value after := by
  simp only [Runs, outcome_bind]
  rcases outcome action before with ⟨fault | first, middle⟩
  · simp
  · constructor
    · intro later
      exact ⟨first, middle, rfl, later⟩
    · rintro ⟨_, _, ⟨⟩, later⟩
      exact later

theorem runs_pure {result value : β} {before after : Walk α} :
    Runs (pure result) before value after ↔ value = result ∧ after = before := by
  simp [Runs, eq_comm]

theorem Runs.single {action : WalkM α β} {before after : Walk α} {value : β}
    (runs : Runs action before value after) :
    Runs (action >>= fun result => pure [result]) before [value] after :=
  runs_bind.mpr ⟨value, after, runs, runs_pure.mpr ⟨rfl, rfl⟩⟩

theorem runs_collect_cons {action : β → WalkM α (List γ)} {value : β} {rest : List β}
    {before after : Walk α} {values : List γ} :
    Runs (collect action (value :: rest)) before values after ↔
      ∃ first middle others, Runs (action value) before first middle ∧
        Runs (collect action rest) middle others after ∧ values = first ++ others := by
  simp only [collect, runs_bind, runs_pure]
  constructor
  · rintro ⟨first, middle, here, others, _, later, rfl, rfl⟩
    exact ⟨first, middle, others, here, later, rfl⟩
  · rintro ⟨first, middle, others, here, later, rfl⟩
    exact ⟨first, middle, here, others, after, later, rfl, rfl⟩

/-- A file that has been loaded is known; any other is read, and what came of it
is kept and counted. -/
theorem runs_load_cases {project : Project} {keep : String → List Char → α} {file : String}
    {before after : Walk α} {kept : Option α}
    (runs : Runs (load project keep file) before kept after) :
    (before.loaded.lookup file = some kept ∧ after = before) ∨
      (before.loaded.lookup file = none ∧ after = { before.ask file with
        loaded := (file, kept) :: before.loaded
        metrics :=
          if kept.isSome then before.metrics.recordRead
          else before.metrics.recordReadFailure }) := by
  cases found : before.loaded.lookup file with
  | some known =>
      rw [Runs, outcome_load, found] at runs
      cases runs
      exact .inl ⟨rfl, rfl⟩
  | none =>
      rw [Runs, outcome_load_of_unread _ _ found] at runs
      cases obtained : project.obtained file with
      | error fault => simp [obtained] at runs
      | ok text =>
          simp only [obtained, Prod.mk.injEq, Except.ok.injEq] at runs
          obtain ⟨rfl, rfl⟩ := runs
          exact .inr ⟨rfl, by rw [Option.isSome_map]⟩

/-- An expansion either stops at a method that has been expanded before, or
marks the method and goes on to its children. -/
theorem runs_expand_iff {method : Method} {children : WalkM α (List Tree)}
    {before after : Walk α} {tree : Tree} :
    Runs (expand method children) before tree after ↔
      (method.key ∈ before.visited ∧ tree = .leaf (.ofMethod method true) ∧
        after = { before with metrics := before.metrics.recordNode true }) ∨
      (method.key ∉ before.visited ∧ ∃ below,
        Runs children { before with
          visited := method.key :: before.visited
          metrics := before.metrics.recordNode false } below after ∧
        tree = .node (.ofMethod method false) below) := by
  rw [Runs, outcome_expand]
  by_cases visited : method.key ∈ before.visited
  · simp [visited, eq_comm]
  · simp only [visited, if_false, Runs, false_and, false_or, not_false_eq_true, true_and]
    rcases outcome children _ with ⟨fault | below, _⟩
    · simp
    · constructor
      · rintro ⟨⟩
        exact ⟨below, rfl, rfl⟩
      · rintro ⟨_, ⟨⟩, rfl⟩
        rfl

end Walk
end CallTree
