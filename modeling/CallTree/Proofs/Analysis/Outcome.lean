import CallTree.Proofs.Walk.Callees
import CallTree.Proofs.Walk.Callers

/-!
# Outcomes of an analysis

An analysis returns a chain exactly when its direction is known, its file has a
text, a method of a class stands at its line, and the walk from that method
runs.  The tree of the chain then grows from the method along the graph of the
direction.
-/

namespace CallTree

/-- The graph that an analysis in the given direction follows. -/
def Corpus.graph (corpus : Corpus) : Direction → CallGraph
  | .up => corpus.callerGraph
  | .down => corpus.calleeGraph

namespace Analysis

variable {project : Project} {configuration : Configuration} {metrics : Metrics}
variable {cursor : Cursor} {corpus : Corpus} {chain : Chain}

theorem ofWalk_result_eq_some_iff {α : Type} {direction : Direction} {file : String} {kept : α}
    {walk : WalkM α Tree} :
    (ofWalk direction metrics file kept walk).result = .ok (some chain) ↔
      ∃ tree after, Walk.Runs walk { loaded := [(file, some kept)], metrics } tree after ∧
        chain = .ofTree direction tree := by
  have resultEq : (ofWalk direction metrics file kept walk).result =
      (Walk.outcome walk { loaded := [(file, some kept)], metrics }).1.map
        fun tree => some (.ofTree direction tree) := rfl
  rw [resultEq]
  simp only [Walk.Runs]
  rcases Walk.outcome walk _ with ⟨fault | tree, after⟩
  · simp [Except.map]
  · simp only [Except.map, Except.ok.injEq, Option.some.injEq, Prod.mk.injEq]
    constructor
    · rintro rfl
      exact ⟨tree, after, ⟨rfl, rfl⟩, rfl⟩
    · rintro ⟨_, _, ⟨rfl, rfl⟩, rfl⟩
      rfl

/-- The walk from a method in a direction runs and grows the tree of the
chain. -/
def Yields (corpus : Corpus) (levels : Nat) (metrics : Metrics) (root : Method)
    (direction : Direction) (chain : Chain) : Prop :=
  match direction with
  | .up => ∃ tree after,
      Walk.Runs (Walk.callers corpus.project corpus.rules levels root)
        { loaded := [(corpus.file,
            some (Candidate.ofText corpus.rules corpus.file corpus.text))], metrics }
        tree after ∧ chain = .ofTree .up tree
  | .down => ∃ tree after,
      Walk.Runs (Walk.callees corpus.project corpus.rules levels
          (Reading.ofText corpus.rules corpus.file corpus.text) root)
        { loaded := [(corpus.file,
            some (Reading.ofText corpus.rules corpus.file corpus.text))], metrics }
        tree after ∧ chain = .ofTree .down tree

theorem ofText_result_eq_some_iff {direction : Direction} {line : Int}
    (rulesEq : corpus.rules = rules configuration) :
    (ofText corpus.project configuration metrics direction corpus.file line
        corpus.text).result = .ok (some chain) ↔
      ∃ root, corpus.methodAt line = some root ∧ root.className.isNone = false ∧
        Yields corpus (levels configuration) metrics root direction chain := by
  rw [ofText, ← rulesEq, Corpus.methodAt]
  cases Source.methodAt (Source.ofText corpus.rules corpus.text) line corpus.file with
  | none => simp
  | some root =>
      simp only [Option.some.injEq, exists_eq_left']
      cases inClass : root.className.isNone with
      | true => simp
      | false =>
          simp only [Bool.false_eq_true, if_false, true_and]
          cases direction with
          | up => exact ofWalk_result_eq_some_iff
          | down => exact ofWalk_result_eq_some_iff

theorem corpus?_eq_some
    (seen : cursor.corpus? project configuration = some corpus) :
    corpus.project = project ∧ corpus.rules = rules configuration := by
  obtain ⟨_, _, rest⟩ := Option.bind_eq_some_iff.mp seen
  obtain ⟨_, _, made⟩ := Option.bind_eq_some_iff.mp rest
  cases made
  exact ⟨rfl, rfl⟩

/-- An analysis is the timed analysis of the text that it sees, and fails if it
sees none. -/
theorem toward_cases (project : Project) (configuration : Configuration)
    (metrics : Metrics) (cursor : Cursor) (direction : Direction) :
    (∃ fault, cursor.corpus? project configuration = none ∧
      (toward project configuration metrics cursor direction).result = .error fault) ∨
    (∃ corpus, cursor.corpus? project configuration = some corpus ∧
      toward project configuration metrics cursor direction =
        timed (ofText project configuration metrics direction corpus.file cursor.line
          corpus.text)) := by
  simp only [toward, Cursor.corpus?]
  cases project.normalize cursor.file with
  | error fault => exact .inl ⟨fault, rfl, rfl⟩
  | ok file =>
      cases cursor.text with
      | some text => exact .inr ⟨_, rfl, rfl⟩
      | none =>
          cases reading : project.read file with
          | error fault =>
              refine .inl ⟨fault, by simp [Except.toOption, reading], ?_⟩
              simp only [reading]
              rfl
          | ok text =>
              refine .inr ⟨{ project, rules := rules configuration, file, text := text.toList },
                by simp [Except.toOption, reading], ?_⟩
              simp only [reading]

theorem toward_eq_timed (seen : cursor.corpus? project configuration = some corpus)
    (way : Direction) :
    toward project configuration metrics cursor way =
      timed (ofText project configuration metrics way corpus.file cursor.line corpus.text) := by
  rcases toward_cases project configuration metrics cursor way with
    ⟨_, unseen, _⟩ | ⟨same, sameSeen, towardEq⟩
  · cases unseen.symm.trans seen
  · cases sameSeen.symm.trans seen
    exact towardEq

theorem toward_result_eq_some_iff {direction : Direction} :
    (toward project configuration metrics cursor direction).result = .ok (some chain) ↔
      ∃ corpus root, cursor.corpus? project configuration = some corpus ∧
        corpus.methodAt cursor.line = some root ∧ root.className.isNone = false ∧
        Yields corpus (levels configuration) metrics root direction chain := by
  rcases toward_cases project configuration metrics cursor direction with
    ⟨fault, unseen, resultEq⟩ | ⟨corpus, seen, towardEq⟩
  · simp [resultEq, unseen]
  · obtain ⟨rfl, rulesEq⟩ := corpus?_eq_some seen
    rw [towardEq, timed, ofText_result_eq_some_iff rulesEq, seen]
    simp

/-- An analysis returns a chain exactly when it finds a method in a class and
the walk from there runs. -/
theorem run_result_eq_some_iff {direction : Option String} :
    (run project configuration metrics cursor direction).result = .ok (some chain) ↔
      ∃ corpus root toward,
        Direction.ofString? (direction.getD configuration.defaultDirection) = some toward ∧
        cursor.corpus? project configuration = some corpus ∧
        corpus.methodAt cursor.line = some root ∧ root.className.isNone = false ∧
        Yields corpus (levels configuration) metrics root toward chain := by
  rw [run]
  cases Direction.ofString? (direction.getD configuration.defaultDirection) with
  | none => simp
  | some toward =>
      rw [toward_result_eq_some_iff]
      simp

theorem Yields.direction_eq {levels : Nat} {root : Method} {direction : Direction}
    (yields : Yields corpus levels metrics root direction chain) :
    chain.direction = direction := by
  cases direction <;>
  · obtain ⟨_, _, _, rfl⟩ := yields
    rfl

theorem Yields.grows {levels : Nat} {root : Method} {direction : Direction}
    (hasClass : root.HasClass) (fileEq : root.file = corpus.file)
    (yields : Yields corpus levels metrics root direction chain) :
    ∃ after, (corpus.graph direction).Grows levels [] [.reach root] [chain.root] after := by
  cases direction with
  | up =>
      obtain ⟨tree, after, runs, rfl⟩ := yields
      have start := Walk.Faithful.start corpus (Candidate.ofText corpus.rules) metrics
      exact ⟨after.visited, (Walk.follows_callers levels hasClass _ _ _ start runs.single).2⟩
  | down =>
      obtain ⟨tree, after, runs, rfl⟩ := yields
      have start := Walk.Faithful.start corpus (Reading.ofText corpus.rules) metrics
      have textEq : corpus.text? root.file = some corpus.text := by
        rw [fileEq, corpus.text?_file]
      have follows := Walk.follows_callees levels hasClass textEq
      rw [fileEq] at follows
      exact ⟨after.visited, (follows _ _ _ start runs.single).2⟩

/-- A returned tree grows from the method at the cursor, along the graph of its
direction. -/
theorem exists_growth {direction : Option String}
    (returned : (run project configuration metrics cursor direction).result =
      .ok (some chain)) :
    ∃ corpus root after, cursor.corpus? project configuration = some corpus ∧
      corpus.methodAt cursor.line = some root ∧ root.HasClass ∧
      (corpus.graph chain.direction).Grows (levels configuration) [] [.reach root]
        [chain.root] after := by
  obtain ⟨corpus, root, toward, _, seen, found, inClass, yields⟩ :=
    run_result_eq_some_iff.mp returned
  have hasClass := Source.hasClass_of_methodAt found inClass
  obtain ⟨after, grows⟩ := yields.grows hasClass (Source.file_of_methodAt found)
  rw [← yields.direction_eq] at grows
  exact ⟨corpus, root, after, seen, found, hasClass, grows⟩

theorem exists_growth_of_found {direction : Option String} {root : Method}
    (returned : (run project configuration metrics cursor direction).result =
      .ok (some chain))
    (seen : cursor.corpus? project configuration = some corpus)
    (found : corpus.methodAt cursor.line = some root) :
    ∃ after, (corpus.graph chain.direction).Grows (levels configuration) [] [.reach root]
      [chain.root] after := by
  obtain ⟨same, sameRoot, after, sameSeen, sameFound, _, grows⟩ := exists_growth returned
  cases sameSeen.symm.trans seen
  cases sameFound.symm.trans found
  exact ⟨after, grows⟩

theorem exists_ofText_result_ok (rulesEq : corpus.rules = rules configuration)
    (listable : corpus.Listable) (obtainable : ∀ file ∈ corpus.files, corpus.Obtainable file)
    (direction : Direction) (line : Int) :
    ∃ value, (ofText corpus.project configuration metrics direction corpus.file line
      corpus.text).result = .ok value := by
  rw [ofText, ← rulesEq]
  cases found : Source.methodAt (Source.ofText corpus.rules corpus.text) line corpus.file with
  | none => exact ⟨none, rfl⟩
  | some root =>
      dsimp only
      split
      · exact ⟨none, rfl⟩
      · cases direction with
        | up =>
            obtain ⟨tree, after, runs, _⟩ := Walk.ends_callers listable obtainable
              (levels configuration) root _ (.start corpus _ metrics)
            exact ⟨_, ofWalk_result_eq_some_iff.mpr ⟨tree, after, runs, rfl⟩⟩
        | down =>
            have fileMem : root.file ∈ corpus.file :: corpus.files :=
              Source.file_of_methodAt found ▸ List.mem_cons_self
            obtain ⟨tree, after, runs, _⟩ := Walk.ends_callees listable obtainable
              (levels configuration) (Reading.ofText corpus.rules corpus.file corpus.text)
              fileMem _ (.start corpus _ metrics)
            exact ⟨_, ofWalk_result_eq_some_iff.mpr ⟨tree, after, runs, rfl⟩⟩

/-- An analysis ends without a fault when it has a text to start from, and the
listing and every listed file can be had. -/
theorem exists_toward_result_ok (seen : cursor.corpus? project configuration = some corpus)
    (listable : corpus.Listable) (obtainable : ∀ file ∈ corpus.files, corpus.Obtainable file)
    (direction : Direction) :
    ∃ value, (toward project configuration metrics cursor direction).result = .ok value := by
  rw [toward_eq_timed seen, timed]
  obtain ⟨rfl, rulesEq⟩ := corpus?_eq_some seen
  exact exists_ofText_result_ok rulesEq listable obtainable direction cursor.line

/-- Whatever is looked at, analyses of the same text over two projects show the
same when the walks from every method of the text do. -/
theorem ofText_congr {β : Type} (view : Analysis → β) {other : Project} {file : String}
    {text : List Char} {direction : Direction} {line : Int}
    (up : ∀ root, view (ofWalk .up metrics file (Candidate.ofText (rules configuration) file text)
        (Walk.callers project (rules configuration) (levels configuration) root)) =
      view (ofWalk .up metrics file (Candidate.ofText (rules configuration) file text)
        (Walk.callers other (rules configuration) (levels configuration) root)))
    (down : ∀ root,
      let reading := Reading.ofText (rules configuration) file text
      view (ofWalk .down metrics file reading
        (Walk.callees project (rules configuration) (levels configuration) reading root)) =
      view (ofWalk .down metrics file reading
        (Walk.callees other (rules configuration) (levels configuration) reading root))) :
    view (ofText project configuration metrics direction file line text) =
      view (ofText other configuration metrics direction file line text) := by
  rw [ofText, ofText]
  cases (Source.ofText (rules configuration) text).methodAt line file with
  | none => rfl
  | some root =>
      dsimp only
      split
      · rfl
      · cases direction with
        | up => exact up root
        | down => exact down root

/-- The text of a class with the given methods, one a line. -/
def classText (name : String) (methods : List String) : String :=
  "class " ++ name ++ " \x7b\n" ++
    String.join (methods.map fun method => " " ++ method ++ "\n") ++ "\x7d"

/-- The analysis returns a chain that passes a test. -/
def returns (analysis : Analysis) (test : Chain → Bool) : Bool :=
  match analysis.result with
  | .ok (some chain) => test chain
  | _ => false

theorem exists_chain_of_returns {analysis : Analysis} {test : Chain → Bool}
    (passes : analysis.returns test = true) :
    ∃ chain, analysis.result = .ok (some chain) ∧ test chain = true := by
  rw [returns] at passes
  split at passes
  · exact ⟨_, ‹_›, passes⟩
  · cases passes

end Analysis
end CallTree
