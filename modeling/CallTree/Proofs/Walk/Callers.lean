import CallTree.Proofs.Walk.Simulation
import Mathlib.Data.List.Nodup

/-!
# Walks to the callers

The walk to the callers of a method follows the graph of callers.  Whether a
definition calls a method is read off the body of the first definition with its
key; in an unambiguous file that is the body of the definition itself.
-/

namespace CallTree

theorem CallForm.bodyCalls_of_hasClass {method : Method} (hasClass : method.HasClass)
    (body : List Line) :
    bodyCalls body method.name method.className =
      bodyCalls body method.key.name (some method.key.className) := by
  obtain ⟨className, classEq, _⟩ := hasClass
  simp [Method.key, classEq]

theorem Candidate.method_mem_definitions {rules : Scan.Rules} {file : String}
    {text : List Char} {candidate : Candidate} (member : candidate ∈ ofText rules file text) :
    candidate.method ∈ (Source.ofText rules text).definitions file := by
  obtain ⟨method, methodMem, rfl⟩ := List.mem_map.mp member
  exact methodMem

namespace Corpus

/-- The definitions of a file with the bodies that a walk uses for them. -/
def candidates (corpus : Corpus) (file : String) : List Candidate :=
  match corpus.text? file with
  | some text => Candidate.ofText corpus.rules file text
  | none => []

/-- The first definition with the key of the given one. -/
def firstLike (corpus : Corpus) (method : Method) : Method :=
  ((corpus.definitions method.file).find? fun other => other.key == method.key).getD method

/-- The definition counts as a caller of the method with the given key: the
first definition like it calls that method. -/
def countsAsCaller (corpus : Corpus) (key : MethodKey) (method : Method) : Bool :=
  corpus.calls key (corpus.firstLike method)

/-- The definitions in the listed files that count as callers, in order. -/
def countedCallers (corpus : Corpus) (key : MethodKey) : List Method :=
  corpus.files.flatMap fun file =>
    (corpus.definitions file).filter (corpus.countsAsCaller key)

/-- The graph that leads from a method to its callers. -/
def callerGraph (corpus : Corpus) : CallGraph :=
  fun method => (corpus.countedCallers method.key).map .reach

theorem firstLike_mem {corpus : Corpus} {file : String} {method : Method}
    (member : method ∈ corpus.definitions file) :
    corpus.firstLike method ∈ corpus.definitions file ∧
      (corpus.firstLike method).key = method.key := by
  rw [firstLike, file_of_mem_definitions member]
  cases found : (corpus.definitions file).find? fun other => other.key == method.key with
  | some first =>
      exact ⟨List.mem_of_find?_eq_some found, by simpa using List.find?_some found⟩
  | none => exact ⟨member, rfl⟩

theorem firstLike_eq_self {corpus : Corpus} {file : String} {method : Method}
    (member : method ∈ corpus.definitions file) (unambiguous : corpus.Unambiguous file) :
    corpus.firstLike method = method := by
  obtain ⟨firstMem, keyEq⟩ := firstLike_mem member
  exact List.inj_on_of_nodup_map unambiguous firstMem member keyEq

theorem mem_countedCallers_iff {corpus : Corpus} {key : MethodKey} {method : Method} :
    method ∈ corpus.countedCallers key ↔
      ∃ file ∈ corpus.files, method ∈ corpus.definitions file ∧
        corpus.countsAsCaller key method = true := by
  simp [countedCallers]

theorem exists_file_of_mem_callerGraph {corpus : Corpus} {method : Method} {branch : Branch}
    (member : branch ∈ corpus.callerGraph method) :
    ∃ caller, branch = .reach caller ∧ caller.file ∈ corpus.files := by
  obtain ⟨caller, callerMem, rfl⟩ := List.mem_map.mp member
  obtain ⟨file, listed, defined, _⟩ := mem_countedCallers_iff.mp callerMem
  exact ⟨caller, rfl, file_of_mem_definitions defined ▸ listed⟩

theorem countedCallers_eq_callersOf {corpus : Corpus}
    (unambiguous : ∀ file ∈ corpus.files, corpus.Unambiguous file) (key : MethodKey) :
    corpus.countedCallers key = corpus.callersOf key := by
  apply List.flatMap_congr
  intro file fileMem
  apply List.filter_congr
  intro method methodMem
  rw [countsAsCaller, firstLike_eq_self methodMem (unambiguous file fileMem)]

theorem reach_mem_callerGraph_iff {corpus : Corpus}
    (unambiguous : ∀ file ∈ corpus.files, corpus.Unambiguous file) {method other : Method} :
    .reach other ∈ corpus.callerGraph method ↔ other ∈ corpus.callersOf method.key := by
  simp [callerGraph, countedCallers_eq_callersOf unambiguous]

/-- The body that a walk uses for a definition is that of the first one like
it. -/
theorem body_firstLike {corpus : Corpus} {file : String} {text : List Char}
    (textEq : corpus.text? file = some text) {method : Method}
    (member : method ∈ corpus.definitions file) :
    corpus.body (corpus.firstLike method) =
      (Candidate.sharedExtent (Source.ofText corpus.rules text)
        ((Source.ofText corpus.rules text).definitions file) method).bodyLines
        (Source.ofText corpus.rules text).rawLines := by
  have definitionsEq : corpus.definitions file =
      (Source.ofText corpus.rules text).definitions file := by
    simp [definitions, textEq]
  rw [body, file_of_mem_definitions (firstLike_mem member).1, textEq, Candidate.sharedExtent,
    firstLike, file_of_mem_definitions member, definitionsEq]

/-- The candidates of a file that call a method are its definitions that count
as callers. -/
theorem candidates_filter_calls {corpus : Corpus} {method : Method}
    (hasClass : method.HasClass) (file : String) :
    ((corpus.candidates file).filter (·.calls method)).map Candidate.method =
      (corpus.definitions file).filter (corpus.countsAsCaller method.key) := by
  cases textEq : corpus.text? file with
  | none => simp [candidates, definitions, textEq]
  | some text =>
      have definitionsEq : corpus.definitions file =
          (Source.ofText corpus.rules text).definitions file := by
        simp [definitions, textEq]
      simp only [candidates, textEq, Candidate.ofText, List.filter_map, List.map_map]
      rw [← definitionsEq]
      change List.map id _ = _
      rw [List.map_id]
      apply List.filter_congr
      intro definition member
      simp only [Function.comp_apply, Candidate.calls, countsAsCaller, calls,
        (firstLike_mem member).2, body_firstLike textEq member, definitionsEq,
        CallForm.bodyCalls_of_hasClass hasClass]

end Corpus

namespace Walk

variable {corpus : Corpus}

theorem follows_callersIn {levels : Nat} {method : Method} (hasClass : method.HasClass)
    (each : ∀ other : Method, other.HasClass →
      Follows corpus (Candidate.ofText corpus.rules) corpus.callerGraph levels [.reach other]
        (callers corpus.project corpus.rules levels other >>= fun tree => pure [tree]))
    (file : String) :
    Follows corpus (Candidate.ofText corpus.rules) corpus.callerGraph levels
      (((corpus.definitions file).filter (corpus.countsAsCaller method.key)).map .reach)
      (do
        match ← load corpus.project (Candidate.ofText corpus.rules) file with
        | none => pure []
        | some candidates =>
            collect (fun candidate =>
              if candidate.calls method then do
                let tree ← callers corpus.project corpus.rules levels candidate.method
                pure [tree]
              else pure []) candidates) := by
  apply follows_bind (finds_load file)
  rw [← corpus.candidates_filter_calls hasClass file, List.map_map]
  cases textEq : corpus.text? file with
  | none =>
      rw [Corpus.candidates, textEq]
      exact follows_nil
  | some text =>
      rw [Corpus.candidates, textEq]
      apply follows_collect_filter
      intro candidate candidateMem
      exact each candidate.method
        (Source.hasClass_of_mem_definitions (Candidate.method_mem_definitions candidateMem))

theorem follows_callers (levels : Nat) {method : Method} (hasClass : method.HasClass) :
    Follows corpus (Candidate.ofText corpus.rules) corpus.callerGraph levels [.reach method]
      (callers corpus.project corpus.rules levels method >>= fun tree => pure [tree]) := by
  induction levels generalizing method with
  | zero => exact follows_stop hasClass
  | succ levels ih =>
      apply follows_expand hasClass
      apply follows_bind finds_list
      rw [Corpus.callerGraph, Corpus.countedCallers, List.map_flatMap]
      apply follows_collect
      intro file _
      exact follows_callersIn hasClass (fun _ otherHasClass => ih otherHasClass) file

/-- The walk to the callers ends when the listing and every listed file can be
had. -/
theorem ends_callers (listable : corpus.Listable)
    (obtainable : ∀ file ∈ corpus.files, corpus.Obtainable file) (levels : Nat)
    (method : Method) :
    Ends corpus (Candidate.ofText corpus.rules)
      (callers corpus.project corpus.rules levels method) := by
  induction levels generalizing method with
  | zero => exact ends_stop method
  | succ levels ih =>
      apply ends_expand
      apply ends_list listable
      apply ends_collect
      intro file fileMem
      apply ends_load (obtainable file fileMem)
      cases corpus.text? file with
      | none => exact ends_pure []
      | some text =>
          apply ends_collect
          intro candidate _
          cases candidate.calls method with
          | true => exact ends_bind (ih candidate.method) fun tree => ends_pure [tree]
          | false => exact ends_pure []

/-- Expanding one method takes the listing and every listed file. -/
theorem obtainable_of_runs_callers {levels : Nat} {method : Method}
    {before after : Walk (List Candidate)} {tree : Tree} (hasClass : method.HasClass)
    (faithful : Faithful corpus (Candidate.ofText corpus.rules) before)
    (fresh : method.key ∉ before.visited)
    (runs : Runs (callers corpus.project corpus.rules (levels + 1) method) before tree after) :
    corpus.Listable ∧ ∀ file ∈ corpus.files, corpus.Obtainable file := by
  rcases runs_expand_iff.mp runs with ⟨visited, _⟩ | ⟨_, below, inside, rfl⟩
  · exact absurd visited fresh
  · obtain ⟨files, middle, lists, collects⟩ := runs_bind.mp inside
    have marked : Faithful corpus (Candidate.ofText corpus.rules) { before with
        visited := method.key :: before.visited
        metrics := before.metrics.recordNode false } := faithful.of_eq rfl rfl
    obtain ⟨listable, rfl, between, _⟩ := marked.of_runs_list lists
    refine ⟨listable, fun file fileMem => ?_⟩
    obtain ⟨start, grown, finish, started, runsIn⟩ := exists_run_of_runs_collect
      (fun other _ => follows_callersIn hasClass (fun _ => follows_callers levels) other)
      between collects fileMem
    obtain ⟨kept, loaded, loads, _⟩ := runs_bind.mp runsIn
    exact (started.of_runs_load loads).1

end Walk
end CallTree
