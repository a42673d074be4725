import CallTree.Proofs.Analysis.Outcome
import CallTree.Service
import Mathlib.Data.List.Forall2

/-!
# Answers of a service

A service answers requests one after another.  Whatever the walk of an analysis
meets becomes part of its answer.  Before the walk starts, the path is normalized
and the text is read; a fault there is answered if it is one of this library, and
passed on if not.
-/

namespace CallTree

/-- The listing fails with faults of this library only, and reads fail in the
ways in which reading may fail. -/
structure Project.FailsSoftly (project : Project) : Prop where
  listing : ∀ fault, project.listing = .error fault → "CallChainError" ∈ fault.kinds
  read : ∀ file fault, project.read file = .error fault → fault.OfReading

theorem MemoryProject.failsSoftly (project : MemoryProject)
    (listing : ∀ fault, project.listingFault = some fault → "CallChainError" ∈ fault.kinds)
    (unreadable : ∀ entry ∈ project.unreadable, entry.2.OfReading) :
    project.toProject.FailsSoftly where
  listing := by
    intro fault failed
    apply listing
    cases listingFault : project.listingFault with
    | none => simp [toProject, listingFault] at failed
    | some other => simpa [toProject, listingFault] using failed
  read := by
    intro file fault failed
    simp only [toProject, MemoryProject.read] at failed
    split at failed
    · rename_i found
      obtain ⟨earlier, later, entriesEq, _⟩ := List.lookup_eq_some_iff.mp found
      cases failed
      exact unreadable (file, fault) (by simp [entriesEq])
    · split at failed
      · cases failed
      · cases failed
        exact .notFound file ""

/-- A request without errors has a direction. -/
theorem Request.exists_resolvedDirection {request : Request} (valid : request.errors = []) :
    ∃ direction, request.resolvedDirection = some direction := by
  cases resolved : request.resolvedDirection with
  | some direction => exact ⟨direction, rfl⟩
  | none => simp [errors, resolved] at valid

namespace Analysis

variable {project : Project} {configuration : Configuration} {metrics : Metrics}
variable {cursor : Cursor} {direction : Direction} {fault : Fault}

/-- An analysis fails over such a project exactly when it cannot normalize the
path, or has to read the text and cannot. -/
theorem toward_result_eq_error_iff (softly : project.FailsSoftly) :
    (toward project configuration metrics cursor direction).result = .error fault ↔
      project.normalize cursor.file = .error fault ∨
        cursor.text = none ∧ ∃ file, project.normalize cursor.file = .ok file ∧
          project.read file = .error fault := by
  have ends {corpus : Corpus} (seen : cursor.corpus? project configuration = some corpus) :
      (toward project configuration metrics cursor direction).result ≠ .error fault := by
    obtain ⟨rfl, _⟩ := corpus?_eq_some seen
    have listable : corpus.Listable :=
      fun other failed => Fault.isOwn_iff.mpr (softly.listing other failed)
    have obtainable : ∀ file ∈ corpus.files, corpus.Obtainable file :=
      fun file _ => .inr fun other failed => (softly.read file other failed).skipsFile
    obtain ⟨value, valueEq⟩ :
        ∃ value, (toward corpus.project configuration metrics cursor direction).result =
          .ok value := exists_toward_result_ok seen listable obtainable direction
    simp [valueEq]
  cases normalizing : project.normalize cursor.file with
  | error other => simp [toward, normalizing]
  | ok file =>
      cases given : cursor.text with
      | some text =>
          have seen : cursor.corpus? project configuration =
              some ⟨project, rules configuration, file, text.toList⟩ := by
            simp [Cursor.corpus?, normalizing, given, Except.toOption]
          simp [ends seen]
      | none =>
          cases reading : project.read file with
          | error other => simp [toward, normalizing, given, reading, timed]
          | ok text =>
              have seen : cursor.corpus? project configuration =
                  some ⟨project, rules configuration, file, text.toList⟩ := by
                simp [Cursor.corpus?, normalizing, given, reading, Except.toOption]
              simp [ends seen, reading]

end Analysis

namespace Service

variable {service : Service} {metrics : Metrics} {request : Request} {fault : Fault}

/-- The answers to requests, one after another, with the metrics carried on. -/
def answers (service : Service) : Metrics → List Request → List (Except Fault Response)
  | _, [] => []
  | metrics, request :: requests =>
      let (answer, later) := service.analyze metrics request
      answer :: service.answers later requests

/-- The answer is a response, which is no error exactly when it carries a
result. -/
def Answered (answer : Except Fault Response) : Prop :=
  ∃ response, answer = .ok response ∧ (response.error = false ↔ response.result.isSome)

/-- The request is valid, and its path cannot be normalized, or its text is left
to be read and cannot be, for a fault that is none of this library. -/
inductive Escapes (service : Service) (request : Request) : Fault → Prop where
  | path {fault : Fault} (valid : request.errors = [])
      (failed : service.project.normalize request.file = .error fault)
      (foreign : "CallChainError" ∉ fault.kinds) : Escapes service request fault
  | text {file : String} {fault : Fault} (valid : request.errors = [])
      (left : request.text = none)
      (normalized : service.project.normalize request.file = .ok file)
      (failed : service.project.read file = .error fault)
      (foreign : "CallChainError" ∉ fault.kinds) : Escapes service request fault

theorem respond_eq_error_iff {analysis : Analysis} :
    (respond request analysis).1 = .error fault ↔
      analysis.result = .error fault ∧ "CallChainError" ∉ fault.kinds := by
  rw [← Fault.isOwn_iff]
  rcases analysis with ⟨other | _ | chain, ended, listed⟩
  · cases own : other.isOwn with
    | true =>
        simp only [respond, own, if_true, reduceCtorEq, Except.error.injEq, false_iff, not_and,
          not_not]
        rintro rfl
        exact own
    | false =>
        simp only [respond, own, Bool.false_eq_true, if_false, Except.error.injEq]
        constructor
        · rintro rfl
          exact ⟨rfl, by simp [own]⟩
        · rintro ⟨rfl, _⟩
          rfl
  · simp [respond]
  · simp [respond]

theorem error_eq_false_iff_of_respond {analysis : Analysis} {response : Response}
    (answered : (respond request analysis).1 = .ok response) :
    response.error = false ↔ response.result.isSome := by
  rcases analysis with ⟨other | _ | chain, ended, listed⟩
  · cases own : other.isOwn with
    | true =>
        simp only [respond, own, if_true, Except.ok.injEq] at answered
        simp [← answered, Response.failure]
    | false => simp [respond, own] at answered
  · cases answered
    simp [Response.failure]
  · cases answered
    simp [Response.success]

theorem analyze_of_valid (valid : request.errors = []) :
    ∃ direction, service.analyze metrics request =
      respond request (Analysis.toward service.project service.configuration metrics
        { file := request.file, line := request.line, text := request.text } direction) := by
  obtain ⟨direction, resolved⟩ := Request.exists_resolvedDirection valid
  refine ⟨direction, ?_⟩
  rw [analyze, valid, resolved]

theorem analyze_of_invalid (invalid : request.errors ≠ []) :
    ∃ message, (service.analyze metrics request).1 = .ok (.failure message "validation") := by
  cases errorsEq : request.errors with
  | nil => exact absurd errorsEq invalid
  | cons first others =>
      rw [analyze, errorsEq]
      exact ⟨_, rfl⟩

/-- A fault comes out of the service exactly when it escapes it. -/
theorem analyze_eq_error_iff (softly : service.project.FailsSoftly) (metrics : Metrics)
    (request : Request) (fault : Fault) :
    (service.analyze metrics request).1 = .error fault ↔ service.Escapes request fault := by
  by_cases valid : request.errors = []
  · obtain ⟨direction, analyzeEq⟩ := analyze_of_valid valid
    rw [analyzeEq, respond_eq_error_iff, Analysis.toward_result_eq_error_iff softly]
    constructor
    · rintro ⟨failed | ⟨left, file, normalized, failed⟩, foreign⟩
      · exact .path valid failed foreign
      · exact .text valid left normalized failed foreign
    · rintro (⟨_, failed, foreign⟩ | ⟨_, left, normalized, failed, foreign⟩)
      · exact ⟨.inl failed, foreign⟩
      · exact ⟨.inr ⟨left, _, normalized, failed⟩, foreign⟩
  · obtain ⟨message, answered⟩ :
        ∃ message, (service.analyze metrics request).1 = .ok (.failure message "validation") :=
      analyze_of_invalid valid
    rw [answered]
    constructor
    · rintro ⟨⟩
    · rintro (⟨isValid, _, _⟩ | ⟨isValid, _, _, _, _⟩)
      · exact absurd isValid valid
      · exact absurd isValid valid

/-- A response is no error exactly when it carries a result. -/
theorem error_eq_false_iff {response : Response}
    (answered : (service.analyze metrics request).1 = .ok response) :
    response.error = false ↔ response.result.isSome := by
  by_cases valid : request.errors = []
  · obtain ⟨direction, analyzeEq⟩ := analyze_of_valid valid
    exact error_eq_false_iff_of_respond (analyzeEq ▸ answered)
  · obtain ⟨message, failed⟩ := analyze_of_invalid valid
    cases failed.symm.trans answered
    simp [Response.failure]

theorem answered_iff_not_escapes (softly : service.project.FailsSoftly) (metrics : Metrics)
    (request : Request) :
    Answered (service.analyze metrics request).1 ↔
      ∀ fault, ¬ service.Escapes request fault := by
  simp only [← analyze_eq_error_iff softly metrics]
  constructor
  · rintro ⟨response, answered, _⟩ fault failed
    cases answered.symm.trans failed
  · intro never
    cases answered : (service.analyze metrics request).1 with
    | error fault => exact absurd answered (never fault)
    | ok response => exact ⟨response, rfl, error_eq_false_iff answered⟩

/-- Over a project that fails in known ways, a service answers every request of a
sequence with a response, which is no error exactly when it carries a result,
unless a fault escapes: one that is none of this library, met before the walk
starts.  That fault is what the request ends with. -/
theorem answers_unless_escapes (softly : service.project.FailsSoftly) (metrics : Metrics)
    (requests : List Request) :
    List.Forall₂ (fun request answer =>
      (Answered answer ↔ ∀ fault, ¬ service.Escapes request fault) ∧
        ∀ fault, answer = .error fault ↔ service.Escapes request fault)
      requests (service.answers metrics requests) := by
  induction requests generalizing metrics with
  | nil => exact .nil
  | cons request requests ih =>
      exact .cons ⟨answered_iff_not_escapes softly metrics request,
        analyze_eq_error_iff softly metrics request⟩ (ih _)

/-- A project whose only file the system refuses, and whose listing fails. -/
def refused : MemoryProject where
  files := [("A.java", Analysis.classText "A" ["void r() { }"])]
  unreadable := [("A.java", .system .refused)]
  listingFault := some (.notFound "listing" "/repo")

def refusing : Service where
  project := refused.toProject
  configuration := {}

theorem refusing_failsSoftly : refusing.project.FailsSoftly := by
  refine refused.failsSoftly ?_ ?_
  · rintro _ ⟨⟩
    decide
  · simp only [refused, List.mem_cons, List.not_mem_nil, or_false]
    rintro _ rfl
    exact .system .refused

/-- A request that leaves the text of the file to be read. -/
def leftToRead : Request where
  file := "A.java"
  line := 1

theorem refusing_escapes : refusing.Escapes leftToRead (.system .refused) :=
  .text (by decide) rfl rfl rfl (by decide)

/-- With the text given the request is answered; without it, the refusal comes
out of the service. -/
theorem refusing_answers_unless_escapes :
    ∃ first second, refusing.answers {} [{ leftToRead with text := some "" }, leftToRead] =
      [first, second] ∧ Answered first ∧ second = .error (.system .refused) := by
  have spec := answers_unless_escapes refusing_failsSoftly {}
    [{ leftToRead with text := some "" }, leftToRead]
  obtain ⟨first, rest, ⟨firstAnswered, _⟩, restSpec, answersEq⟩ :=
    List.forall₂_cons_left_iff.mp spec
  obtain ⟨second, last, ⟨_, secondFault⟩, lastSpec, rfl⟩ :=
    List.forall₂_cons_left_iff.mp restSpec
  obtain rfl : last = [] := by simpa using lastSpec
  refine ⟨first, second, answersEq, firstAnswered.mpr ?_, (secondFault _).mpr refusing_escapes⟩
  rintro fault (⟨_, failed, _⟩ | ⟨_, left, _, _, _⟩)
  · cases failed
  · cases left

/-- Not every request is answered: a fault of the system in reading the file at
the cursor comes out of the service. -/
theorem not_always_answered :
    ¬ ∀ (service : Service) (metrics : Metrics) (requests : List Request),
      service.project.FailsSoftly → ∀ answer ∈ service.answers metrics requests,
        Answered answer := by
  intro always
  obtain ⟨response, answered, _⟩ := always refusing {} [leftToRead] refusing_failsSoftly _
    List.mem_cons_self
  have failed := (analyze_eq_error_iff refusing_failsSoftly {} leftToRead _).mpr refusing_escapes
  cases answered.symm.trans failed

end Service
end CallTree
