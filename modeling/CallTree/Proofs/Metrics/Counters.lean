import CallTree.Metrics

/-!
# Counters

What is recorded changes the counters that it is meant for, and no others.
-/

namespace CallTree
namespace Tally

theorem get_cons (name other : String) (count : Int) (rest : Tally) :
    Tally.get ((name, count) :: rest) other = if other = name then count else rest.get other := by
  by_cases same : other = name
  · simp [get, same]
  · have unequal : (other == name) = false := beq_eq_false_iff_ne.mpr same
    simp [get, List.lookup_cons, unequal, same]

theorem get_add (tally : Tally) (name other : String) (amount : Int) :
    (tally.add name amount).get other =
      tally.get other + if other = name then amount else 0 := by
  induction tally with
  | nil => rw [add, get_cons, get, List.lookup_nil, Option.getD_none, Int.zero_add]
  | cons entry rest ih =>
      obtain ⟨first, count⟩ := entry
      by_cases here : first = name
      · rw [add, if_pos (beq_iff_eq.mpr here), get_cons, get_cons, here]
        split <;> omega
      · rw [add, if_neg (by simpa using here), get_cons, get_cons, ih]
        by_cases same : other = first
        · have different : other ≠ name := fun equal => here (same ▸ equal)
          rw [if_pos same, if_pos same, if_neg different, Int.add_zero]
        · rw [if_neg same, if_neg same]

end Tally

namespace Metrics

theorem counter_increment (metrics : Metrics) (name other : String) (amount : Int) :
    (metrics.increment name amount).counter other =
      metrics.counter other + if other = name then amount else 0 :=
  Tally.get_add metrics.counters name other amount

variable (metrics : Metrics) (name : String)

@[simp]
theorem counter_recordNode (external : Bool) :
    (metrics.recordNode external).counter name =
      metrics.counter name + (if name = "nodes.created" then 1 else 0) +
        if external = true ∧ name = "nodes.external" then 1 else 0 := by
  cases external with
  | true =>
      rw [recordNode, if_pos rfl, counter_increment, counter_increment]
      simp
  | false =>
      rw [recordNode, if_neg Bool.false_ne_true, counter_increment]
      simp

@[simp]
theorem counter_recordUnresolved :
    metrics.recordUnresolved.counter name =
      metrics.counter name + if name = "calls.unresolved" then 1 else 0 :=
  counter_increment ..

@[simp]
theorem counter_recordRead :
    metrics.recordRead.counter name =
      metrics.counter name + if name = "files.read" then 1 else 0 :=
  counter_increment ..

@[simp]
theorem counter_recordError (kind : String) :
    (metrics.recordError kind).counter name =
      metrics.counter name + if name = "errors.total" then 1 else 0 :=
  counter_increment ..

@[simp]
theorem counter_recordReadFailure :
    metrics.recordReadFailure.counter name =
      metrics.counter name + (if name = "files.read_failures" then 1 else 0) +
        if name = "errors.total" then 1 else 0 := by
  rw [recordReadFailure, counter_recordError, counter_increment]

@[simp]
theorem counter_recordTiming (operation : String) (duration : Float) (success : Bool) :
    (metrics.recordTiming operation duration success).counter name =
      metrics.counter name +
        if name = operation ++ (if success then ".success" else ".failure") then 1 else 0 :=
  counter_increment ..

end Metrics
end CallTree
