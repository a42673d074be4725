/-!
# Metrics

Counts of what an analysis touched, errors by kind, and timings by operation.
A count exists once it has been changed, even by zero; reading one that does
not exist gives zero.
-/

namespace CallTree

/-- Counts by name, in the order of their first change. -/
abbrev Tally := List (String × Int)

namespace Tally

def get (tally : Tally) (name : String) : Int :=
  (tally.lookup name).getD 0

def add (name : String) (amount : Int) : Tally → Tally
  | [] => [(name, amount)]
  | (other, count) :: rest =>
      if other == name then (other, count + amount) :: rest
      else (other, count) :: add name amount rest

end Tally

/-- One timed run of an operation, in milliseconds. -/
structure Sample where
  duration : Float
  success : Bool

structure Metrics where
  counters : Tally := []
  errors : Tally := []
  timings : List (String × List Sample) := []

/-- Figures about the timed runs of an operation. -/
structure TimingFigures where
  count : Nat
  total : Float
  average : Float
  least : Float
  greatest : Float
  successRate : Float

namespace Metrics

def increment (metrics : Metrics) (name : String) (amount : Int) : Metrics :=
  { metrics with counters := metrics.counters.add name amount }

def counter (metrics : Metrics) (name : String) : Int :=
  metrics.counters.get name

/-- Append a sample to those of its operation. -/
def addSample (operation : String) (sample : Sample) :
    List (String × List Sample) → List (String × List Sample)
  | [] => [(operation, [sample])]
  | (other, samples) :: rest =>
      if other == operation then (other, samples ++ [sample]) :: rest
      else (other, samples) :: addSample operation sample rest

/-- Record a timed run, and count it as a success or a failure. -/
def recordTiming (metrics : Metrics) (operation : String) (duration : Float) (success : Bool) :
    Metrics :=
  { metrics with timings := addSample operation { duration, success } metrics.timings }.increment
    (operation ++ (if success then ".success" else ".failure")) 1

def recordError (metrics : Metrics) (kind : String) : Metrics :=
  { metrics with errors := metrics.errors.add kind 1 }.increment "errors.total" 1

def recordRead (metrics : Metrics) : Metrics :=
  metrics.increment "files.read" 1

/-- A file that was left out counts as an error too. -/
def recordReadFailure (metrics : Metrics) : Metrics :=
  (metrics.increment "files.read_failures" 1).recordError "SourceReadError"

def recordNode (metrics : Metrics) (external : Bool) : Metrics :=
  let counted := metrics.increment "nodes.created" 1
  if external then counted.increment "nodes.external" 1 else counted

def recordUnresolved (metrics : Metrics) : Metrics :=
  metrics.increment "calls.unresolved" 1

def least (first : Float) (others : List Float) : Float :=
  others.foldl (fun least value => if value < least then value else least) first

def greatest (first : Float) (others : List Float) : Float :=
  others.foldl (fun greatest value => if greatest < value then value else greatest) first

/-- The figures of an operation that has been timed. -/
def figures? (metrics : Metrics) (operation : String) : Option TimingFigures :=
  match metrics.timings.lookup operation with
  | none | some [] => none
  | some (first :: others) =>
      let samples := first :: others
      let count := samples.length
      let total := (samples.map Sample.duration).foldl (· + ·) 0
      some {
        count
        total
        average := total / Float.ofNat count
        least := least first.duration (others.map Sample.duration)
        greatest := greatest first.duration (others.map Sample.duration)
        successRate := Float.ofNat (samples.countP Sample.success) / Float.ofNat count }

end Metrics
end CallTree
