import CallTree.Proofs.Walk.Faithful
import CallTree.Proofs.Walk.Growth

/-!
# Walks grow trees

An action of a walk follows a call graph when every run of it, from a faithful
walk, grows the trees of given branches.  Actions that follow a graph can be
put together, whatever the order in which they fill what the walk keeps.
-/

namespace CallTree
namespace Walk

variable {α β γ : Type}

/-- Every run of the action gives the value, stays faithful and expands no
method. -/
def Finds (corpus : Corpus) (keep : String → List Char → α) (action : WalkM α β) (value : β) :
    Prop :=
  ∀ before result after, Faithful corpus keep before → Runs action before result after →
    result = value ∧ Faithful corpus keep after ∧ after.visited = before.visited

/-- Every run of the action grows the branches, and stays faithful. -/
def Follows (corpus : Corpus) (keep : String → List Char → α) (graph : CallGraph) (levels : Nat)
    (branches : List Branch) (action : WalkM α (List Tree)) : Prop :=
  ∀ before trees after, Faithful corpus keep before → Runs action before trees after →
    Faithful corpus keep after ∧
      graph.Grows levels before.visited branches trees after.visited

variable {corpus : Corpus} {keep : String → List Char → α} {graph : CallGraph} {levels : Nat}

theorem finds_pure (value : β) : Finds corpus keep (pure value) value := by
  intro before result after faithful runs
  obtain ⟨rfl, rfl⟩ := runs_pure.mp runs
  exact ⟨rfl, faithful, rfl⟩

theorem finds_bind {action : WalkM α β} {value : β} {next : β → WalkM α γ} {result : γ}
    (first : Finds corpus keep action value) (second : Finds corpus keep (next value) result) :
    Finds corpus keep (action >>= next) result := by
  intro before last after faithful runs
  obtain ⟨found, middle, here, later⟩ := runs_bind.mp runs
  obtain ⟨rfl, between, visitedEq⟩ := first before found middle faithful here
  obtain ⟨lastEq, ended, laterEq⟩ := second middle last after between later
  exact ⟨lastEq, ended, laterEq.trans visitedEq⟩

theorem finds_load (file : String) :
    Finds corpus keep (load corpus.project keep file) ((corpus.text? file).map (keep file)) := by
  intro before kept after faithful runs
  exact (faithful.of_runs_load runs).2

theorem finds_list : Finds corpus keep (list corpus.project) corpus.files := by
  intro before files after faithful runs
  exact (faithful.of_runs_list runs).2

/-- After something is found, only what was found matters. -/
theorem follows_bind {action : WalkM α β} {value : β} {next : β → WalkM α (List Tree)}
    {branches : List Branch} (first : Finds corpus keep action value)
    (second : Follows corpus keep graph levels branches (next value)) :
    Follows corpus keep graph levels branches (action >>= next) := by
  intro before trees after faithful runs
  obtain ⟨found, middle, here, later⟩ := runs_bind.mp runs
  obtain ⟨rfl, between, visitedEq⟩ := first before found middle faithful here
  rw [← visitedEq]
  exact second middle trees after between later

theorem follows_nil : Follows corpus keep graph levels [] (pure []) := by
  intro before trees after faithful runs
  obtain ⟨rfl, rfl⟩ := runs_pure.mp runs
  exact ⟨faithful, .nil⟩

theorem follows_collect {action : β → WalkM α (List Tree)} {branches : β → List Branch}
    {values : List β}
    (each : ∀ value ∈ values,
      Follows corpus keep graph levels (branches value) (action value)) :
    Follows corpus keep graph levels (values.flatMap branches) (collect action values) := by
  induction values with
  | nil => exact follows_nil
  | cons value values ih =>
      intro before trees after faithful runs
      obtain ⟨first, middle, others, here, later, rfl⟩ := runs_collect_cons.mp runs
      obtain ⟨between, grows⟩ :=
        each value List.mem_cons_self before first middle faithful here
      obtain ⟨ended, growsLater⟩ :=
        ih (fun other otherMem => each other (List.mem_cons_of_mem value otherMem))
          middle others after between later
      exact ⟨ended, grows.append growsLater⟩

theorem follows_collect_map {target : β → Branch} {action : β → WalkM α (List Tree)}
    {values : List β}
    (each : ∀ value ∈ values, Follows corpus keep graph levels [target value] (action value)) :
    Follows corpus keep graph levels (values.map target) (collect action values) := by
  rw [List.map_eq_flatMap]
  exact follows_collect each

/-- Every part of a run starts from a faithful walk. -/
theorem exists_run_of_runs_collect {action : β → WalkM α (List Tree)}
    {branches : β → List Branch} {values : List β}
    (each : ∀ value ∈ values,
      Follows corpus keep graph levels (branches value) (action value))
    {before after : Walk α} {trees : List Tree} (faithful : Faithful corpus keep before)
    (runs : Runs (collect action values) before trees after) {value : β}
    (valueMem : value ∈ values) :
    ∃ start grown finish, Faithful corpus keep start ∧
      Runs (action value) start grown finish := by
  induction values generalizing before trees with
  | nil => cases valueMem
  | cons first values ih =>
      obtain ⟨grown, middle, others, here, later, rfl⟩ := runs_collect_cons.mp runs
      rcases List.mem_cons.mp valueMem with rfl | behind
      · exact ⟨before, grown, middle, faithful, here⟩
      · have between :=
          (each first List.mem_cons_self before grown middle faithful here).1
        exact ih (fun other otherMem => each other (List.mem_cons_of_mem first otherMem))
          between later behind

theorem filter_map_eq_flatMap (test : β → Bool) (target : β → γ)
    (values : List β) :
    (values.filter test).map target =
      values.flatMap fun value => if test value then [target value] else [] := by
  induction values with
  | nil => rfl
  | cons value values ih =>
      rw [List.flatMap_cons, ← ih]
      cases tested : test value <;> simp [tested]

/-- Values that do not pass a test have no branch. -/
theorem follows_collect_filter {test : β → Bool} {target : β → Branch}
    {action : β → WalkM α (List Tree)} {values : List β}
    (each : ∀ value ∈ values, Follows corpus keep graph levels [target value] (action value)) :
    Follows corpus keep graph levels ((values.filter test).map target)
      (collect (fun value => if test value then action value else pure []) values) := by
  rw [filter_map_eq_flatMap]
  apply follows_collect
  intro value valueMem
  cases test value with
  | true => exact each value valueMem
  | false => exact follows_nil

theorem follows_stop {method : Method} (hasClass : method.HasClass) :
    Follows corpus keep graph 0 [.reach method]
      (stop method >>= fun tree => pure [tree]) := by
  intro before trees after faithful runs
  obtain ⟨tree, middle, stops, rest⟩ := runs_bind.mp runs
  obtain ⟨rfl, rfl⟩ := runs_pure.mp rest
  rw [Runs, outcome_stop] at stops
  cases stops
  exact ⟨faithful.of_eq rfl rfl, .cut hasClass (.inl rfl) .nil⟩

theorem follows_expand {method : Method} (hasClass : method.HasClass)
    {children : WalkM α (List Tree)}
    (below : Follows corpus keep graph levels (graph method) children) :
    Follows corpus keep graph (levels + 1) [.reach method]
      (expand method children >>= fun tree => pure [tree]) := by
  intro before trees after faithful runs
  obtain ⟨tree, middle, expands, rest⟩ := runs_bind.mp runs
  obtain ⟨rfl, rfl⟩ := runs_pure.mp rest
  rcases runs_expand_iff.mp expands with ⟨visited, rfl, rfl⟩ | ⟨fresh, grown, inside, rfl⟩
  · exact ⟨faithful.of_eq rfl rfl, .cut hasClass (.inr visited) .nil⟩
  · have marked : Faithful corpus keep { before with
        visited := method.key :: before.visited
        metrics := before.metrics.recordNode false } := faithful.of_eq rfl rfl
    obtain ⟨ended, grows⟩ := below _ grown after marked inside
    exact ⟨ended, .expand hasClass fresh grows .nil⟩

/-- From every faithful walk the action runs, and leaves the walk faithful. -/
def Ends (corpus : Corpus) (keep : String → List Char → α) (action : WalkM α β) : Prop :=
  ∀ before, Faithful corpus keep before →
    ∃ value after, Runs action before value after ∧ Faithful corpus keep after

theorem ends_pure (value : β) : Ends corpus keep (pure value) := by
  intro before faithful
  exact ⟨value, before, runs_pure.mpr ⟨rfl, rfl⟩, faithful⟩

theorem ends_bind {action : WalkM α β} {next : β → WalkM α γ}
    (first : Ends corpus keep action) (second : ∀ value, Ends corpus keep (next value)) :
    Ends corpus keep (action >>= next) := by
  intro before faithful
  obtain ⟨value, middle, runs, between⟩ := first before faithful
  obtain ⟨result, after, runsNext, ended⟩ := second value middle between
  exact ⟨result, after, runs_bind.mpr ⟨value, middle, runs, runsNext⟩, ended⟩

/-- After an action that ends, only what it finds matters. -/
theorem ends_found {action : WalkM α β} {value : β} {next : β → WalkM α γ}
    (first : Ends corpus keep action) (found : Finds corpus keep action value)
    (second : Ends corpus keep (next value)) : Ends corpus keep (action >>= next) := by
  intro before faithful
  obtain ⟨result, middle, runs, between⟩ := first before faithful
  obtain ⟨rfl, _⟩ := found before result middle faithful runs
  obtain ⟨last, after, runsNext, ended⟩ := second middle between
  exact ⟨last, after, runs_bind.mpr ⟨result, middle, runs, runsNext⟩, ended⟩

theorem ends_load {file : String} (obtainable : corpus.Obtainable file)
    {next : Option α → WalkM α β}
    (rest : Ends corpus keep (next ((corpus.text? file).map (keep file)))) :
    Ends corpus keep (load corpus.project keep file >>= next) := by
  intro before faithful
  rcases faithful.loads file with ⟨_, middle, loads, between, _⟩ | ⟨unobtainable, _⟩
  · obtain ⟨value, after, runs, ended⟩ := rest middle between
    exact ⟨value, after, runs_bind.mpr ⟨_, middle, loads, runs⟩, ended⟩
  · exact absurd obtainable unobtainable

theorem ends_list (listable : corpus.Listable) {next : List String → WalkM α β}
    (rest : Ends corpus keep (next corpus.files)) :
    Ends corpus keep (list corpus.project >>= next) := by
  intro before faithful
  rcases faithful.lists with ⟨_, middle, lists, between, _⟩ | ⟨unlistable, _⟩
  · obtain ⟨value, after, runs, ended⟩ := rest middle between
    exact ⟨value, after, runs_bind.mpr ⟨_, middle, lists, runs⟩, ended⟩
  · exact absurd listable unlistable

theorem ends_collect {action : β → WalkM α (List γ)} {values : List β}
    (each : ∀ value ∈ values, Ends corpus keep (action value)) :
    Ends corpus keep (collect action values) := by
  induction values with
  | nil => exact ends_pure []
  | cons value values ih =>
      apply ends_bind (each value List.mem_cons_self)
      intro first
      apply ends_bind (ih fun other otherMem => each other (List.mem_cons_of_mem value otherMem))
      intro others
      exact ends_pure (first ++ others)

theorem ends_stop (method : Method) : Ends corpus keep (stop method) := by
  intro before faithful
  exact ⟨_, _, outcome_stop method before, faithful.of_eq rfl rfl⟩

theorem ends_expand (method : Method) {children : WalkM α (List Tree)}
    (below : Ends corpus keep children) : Ends corpus keep (expand method children) := by
  intro before faithful
  by_cases visited : method.key ∈ before.visited
  · exact ⟨_, _, runs_expand_iff.mpr (.inl ⟨visited, rfl, rfl⟩), faithful.of_eq rfl rfl⟩
  · have marked : Faithful corpus keep { before with
        visited := method.key :: before.visited
        metrics := before.metrics.recordNode false } := faithful.of_eq rfl rfl
    obtain ⟨grown, after, inside, ended⟩ := below _ marked
    exact ⟨_, after, runs_expand_iff.mpr (.inr ⟨visited, grown, inside, rfl⟩), ended⟩

end Walk
end CallTree
