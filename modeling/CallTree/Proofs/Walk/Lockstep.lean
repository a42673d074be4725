import CallTree.Proofs.Walk.Callees
import CallTree.Walk.Callers

/-!
# Walks in lockstep

Two walks over two projects run side by side, where the second project may lack
some files of the first.  What has to be known of the projects is said once:
listing and loading keep the two walks related, and a file that is lacking adds
nothing to the first walk.  The walks to the callers and to the callees then
come to the same trees and the same faults.
-/

namespace CallTree
namespace Walk

variable {α β γ : Type} {related : Walk α → Walk α → Prop}

/-- From related walks, both actions come to the same value or the same fault,
and the walks stay related. -/
def Alike (related : Walk α → Walk α → Prop) (action other : WalkM α β) : Prop :=
  ∀ before start, related before start →
    (outcome action before).1 = (outcome other start).1 ∧
      related (outcome action before).2 (outcome other start).2

/-- The first walk runs the action alone, and comes to the value. -/
def Idle (related : Walk α → Walk α → Prop) (action : WalkM α β) (value : β) : Prop :=
  ∀ before start, related before start →
    ∃ after, Runs action before value after ∧ related after start

theorem alike_pure (value : β) : Alike related (pure value) (pure value) := by
  intro before start holds
  exact ⟨rfl, holds⟩

/-- What follows two actions has to be alike for the values that the first comes to. -/
theorem alike_bind_of_runs {action other : WalkM α β} {next later : β → WalkM α γ}
    (first : Alike related action other)
    (second : ∀ before start value after, related before start →
      Runs action before value after → Alike related (next value) (later value)) :
    Alike related (action >>= next) (other >>= later) := by
  intro before start holds
  have ends := first before start holds
  have follows := second before start
  rw [outcome_bind, outcome_bind]
  simp only [Runs] at follows
  generalize outcome action before = ended at ends follows
  generalize outcome other start = otherEnded at ends
  obtain ⟨result, middle⟩ := ended
  obtain ⟨otherResult, otherMiddle⟩ := otherEnded
  obtain ⟨rfl, between⟩ := ends
  cases result with
  | error fault => exact ⟨rfl, between⟩
  | ok value => exact follows value middle holds rfl middle otherMiddle between

theorem alike_bind {action other : WalkM α β} {next later : β → WalkM α γ}
    (first : Alike related action other)
    (second : ∀ value, Alike related (next value) (later value)) :
    Alike related (action >>= next) (other >>= later) :=
  alike_bind_of_runs first fun _ _ value _ _ _ => second value

theorem alike_bind_idle {action : WalkM α β} {value : β} {next : β → WalkM α γ}
    {other : WalkM α γ} (first : Idle related action value)
    (second : Alike related (next value) other) : Alike related (action >>= next) other := by
  intro before start holds
  obtain ⟨middle, runs, between⟩ := first before start holds
  rw [outcome_bind, runs]
  exact second middle start between

theorem idle_pure (value : β) : Idle related (pure value) value := by
  intro before start holds
  exact ⟨before, runs_pure.mpr ⟨rfl, rfl⟩, holds⟩

theorem idle_bind {action : WalkM α β} {value : β} {next : β → WalkM α γ} {result : γ}
    (first : Idle related action value) (second : Idle related (next value) result) :
    Idle related (action >>= next) result := by
  intro before start holds
  obtain ⟨middle, runs, between⟩ := first before start holds
  obtain ⟨after, runsNext, ended⟩ := second middle start between
  exact ⟨after, runs_bind.mpr ⟨value, middle, runs, runsNext⟩, ended⟩

/-- Values for which the first walk runs alone may be left out of the second. -/
theorem alike_collect_filter {action other : β → WalkM α (List γ)} {shared : β → Bool}
    {values : List β}
    (both : ∀ value, shared value = true → Alike related (action value) (other value))
    (alone : ∀ value, shared value = false → Idle related (action value) []) :
    Alike related (collect action values) (collect other (values.filter shared)) := by
  induction values with
  | nil => exact alike_pure []
  | cons value values ih =>
      cases sharedEq : shared value with
      | true =>
          rw [List.filter_cons_of_pos sharedEq]
          apply alike_bind (both value sharedEq)
          intro first
          apply alike_bind ih
          intro others
          exact alike_pure (first ++ others)
      | false =>
          rw [List.filter_cons_of_neg (by simp [sharedEq])]
          apply alike_bind_idle (alone value sharedEq)
          simpa only [List.nil_append, bind_pure] using ih

theorem alike_collect {action other : β → WalkM α (List γ)} {values : List β}
    (both : ∀ value, Alike related (action value) (other value)) :
    Alike related (collect action values) (collect other values) := by
  have all : values.filter (fun _ => true) = values := List.filter_eq_self.mpr fun _ _ => rfl
  nth_rewrite 2 [← all]
  exact alike_collect_filter (fun value _ => both value) fun value alone => nomatch alone

/-- A relation between walks over a project and walks over another one, which
lists the same files but the lacking ones.  What one action does to both walks
keeps them related. -/
structure Lockstep (keep : String → List Char → α) (lacking : List String)
    (project other : Project) (related : Walk α → Walk α → Prop) : Prop where
  visited : ∀ before start, related before start → start.visited = before.visited
  marks : ∀ before start key, related before start →
    related { before with visited := key :: before.visited }
      { start with visited := key :: start.visited }
  records : ∀ change, Alike related (record change) (record change)
  lists : ∀ before start, related before start →
    (outcome (list other) start).1 =
        (outcome (list project) before).1.map (·.filter (· ∉ lacking)) ∧
      related (outcome (list project) before).2 (outcome (list other) start).2
  loads : ∀ file, Alike related (load project keep file) (load other keep file)
  skips : ∀ file ∈ lacking, Idle related (load project keep file) none

theorem map_filter_lacking_nil (result : Except Fault (List String)) :
    result.map (·.filter (· ∉ ([] : List String))) = result := by
  cases result with
  | error fault => rfl
  | ok files => simp [Except.map]

namespace Lockstep

variable {keep : String → List Char → α} {lacking : List String} {project other : Project}

theorem alike_list (lockstep : Lockstep keep lacking project other related)
    {next later : List String → WalkM α β}
    (rest : ∀ files, Alike related (next files) (later (files.filter (· ∉ lacking)))) :
    Alike related (list project >>= next) (list other >>= later) := by
  intro before start holds
  have ends := lockstep.lists before start holds
  rw [outcome_bind, outcome_bind]
  generalize outcome (list project) before = ended at ends
  generalize outcome (list other) start = otherEnded at ends
  obtain ⟨result, middle⟩ := ended
  obtain ⟨otherResult, otherMiddle⟩ := otherEnded
  obtain ⟨rfl, between⟩ := ends
  cases result with
  | error fault => exact ⟨rfl, between⟩
  | ok files => exact rest files middle otherMiddle between

theorem alike_stop (lockstep : Lockstep keep lacking project other related) (method : Method) :
    Alike related (stop method) (stop method) := by
  apply alike_bind (lockstep.records _)
  intro _
  exact alike_pure _

theorem alike_expand (lockstep : Lockstep keep lacking project other related)
    (method : Method) {children otherChildren : WalkM α (List Tree)}
    (below : Alike related children otherChildren) :
    Alike related (expand method children) (expand method otherChildren) := by
  intro before start holds
  have visitedEq := lockstep.visited before start holds
  by_cases known : method.key ∈ before.visited
  · rw [outcome_expand, outcome_expand, if_pos known, if_pos (visitedEq ▸ known)]
    exact ⟨rfl, (lockstep.records (·.recordNode true) before start holds).2⟩
  · have counted := (lockstep.records (·.recordNode false) before start holds).2
    have ends := below _ _ (lockstep.marks _ _ method.key counted)
    rw [outcome_expand, outcome_expand, if_neg known, if_neg (visitedEq ▸ known)]
    simp only [outcome_record] at ends
    generalize outcome children _ = ended at ends
    generalize outcome otherChildren _ = otherEnded at ends
    obtain ⟨result, after⟩ := ended
    obtain ⟨otherResult, otherAfter⟩ := otherEnded
    obtain ⟨rfl, finished⟩ := ends
    cases result with
    | error fault => exact ⟨rfl, finished⟩
    | ok trees => exact ⟨rfl, finished⟩

end Lockstep

/-- Side by side, the walks to the callers of a method come to the same tree. -/
theorem Lockstep.alike_callers {rules : Scan.Rules} {lacking : List String}
    {project other : Project} {related : Walk (List Candidate) → Walk (List Candidate) → Prop}
    (lockstep : Lockstep (Candidate.ofText rules) lacking project other related) (levels : Nat)
    (method : Method) :
    Alike related (callers project rules levels method) (callers other rules levels method) := by
  induction levels generalizing method with
  | zero => exact lockstep.alike_stop method
  | succ levels ih =>
      apply lockstep.alike_expand
      apply lockstep.alike_list
      intro files
      apply alike_collect_filter
      · intro file _
        apply alike_bind (lockstep.loads file)
        intro kept
        cases kept with
        | none => exact alike_pure []
        | some candidates =>
            apply alike_collect
            intro candidate
            cases candidate.calls method with
            | true => exact alike_bind (ih candidate.method) fun tree => alike_pure [tree]
            | false => exact alike_pure []
      · intro file lacks
        exact idle_bind (lockstep.skips file (by simpa using lacks)) (idle_pure [])

section Callees

variable {rules : Scan.Rules} {lacking : List String} {project other : Project}
variable {related : Walk Reading → Walk Reading → Prop}

theorem Lockstep.alike_namedIn
    (lockstep : Lockstep (Reading.ofText rules) lacking project other related)
    (site : CallSite) (file : String) :
    Alike related (namedIn project rules site file) (namedIn other rules site file) := by
  apply alike_bind (lockstep.loads file)
  intro kept
  cases kept with
  | none => exact alike_pure []
  | some reading => exact alike_pure _

theorem Lockstep.idle_namedIn
    (lockstep : Lockstep (Reading.ofText rules) lacking project other related)
    (site : CallSite) {file : String} (lacks : file ∈ lacking) :
    Idle related (namedIn project rules site file) [] :=
  idle_bind (lockstep.skips file lacks) (idle_pure [])

/-- A lacking file has no definitions to stand by or to be preferred. -/
theorem Lockstep.alike_resolveElsewhere
    (lockstep : Lockstep (Reading.ofText rules) lacking project other related)
    (site : CallSite) (file : String) (standby : Option Method) (files : List String) :
    Alike related (resolveElsewhere project rules site file standby files)
      (resolveElsewhere other rules site file standby (files.filter (· ∉ lacking))) := by
  induction files generalizing standby with
  | nil => exact alike_pure standby
  | cons next files ih =>
      by_cases lacks : next ∈ lacking
      · rw [List.filter_cons_of_neg (by simpa using lacks), resolveElsewhere]
        split
        · exact ih standby
        · apply alike_bind_idle (lockstep.idle_namedIn site lacks)
          simpa only [inReceiver?_nil, List.head?_nil, Option.orElse_eq_orElse,
            Option.orElse_eq_or, Option.or_none] using ih standby
      · rw [List.filter_cons_of_pos (by simpa using lacks), resolveElsewhere, resolveElsewhere]
        split
        · exact ih standby
        · apply alike_bind (lockstep.alike_namedIn site next)
          intro methods
          cases inReceiver? site methods with
          | some method => exact alike_pure (some method)
          | none => exact ih (standby <|> methods.head?)

theorem Lockstep.alike_resolve
    (lockstep : Lockstep (Reading.ofText rules) lacking project other related)
    (site : CallSite) (file : String) :
    Alike related (resolve project rules site file) (resolve other rules site file) := by
  apply alike_bind (lockstep.alike_namedIn site file)
  intro methods
  cases methods with
  | nil => exact lockstep.alike_list (lockstep.alike_resolveElsewhere site file none)
  | cons first others => exact alike_pure _

theorem Lockstep.alike_miss
    (lockstep : Lockstep (Reading.ofText rules) lacking project other related)
    (site : CallSite) :
    Alike related (miss site >>= fun tree => pure [tree])
      (miss site >>= fun tree => pure [tree]) := by
  apply alike_bind
  · exact alike_bind (lockstep.records _) fun _ => alike_pure _
  · intro tree
    exact alike_pure [tree]

/-- Side by side, the walks to the callees of a method come to the same tree. -/
theorem Lockstep.alike_callees
    (lockstep : Lockstep (Reading.ofText rules) lacking project other related) (levels : Nat)
    (reading : Reading) (method : Method) :
    Alike related (callees project rules levels reading method)
      (callees other rules levels reading method) := by
  induction levels generalizing reading method with
  | zero => exact lockstep.alike_stop method
  | succ levels ih =>
      apply lockstep.alike_expand
      apply alike_collect
      intro site
      apply alike_bind (lockstep.alike_resolve site method.file)
      intro resolved
      cases resolved with
      | none => exact alike_bind (lockstep.records _) fun _ => lockstep.alike_miss site
      | some callee =>
          apply alike_bind (lockstep.loads callee.file)
          intro kept
          cases kept with
          | none => exact lockstep.alike_miss site
          | some found => exact alike_bind (ih found callee) fun tree => alike_pure [tree]

end Callees

end Walk
end CallTree
