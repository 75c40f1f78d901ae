import MotionControl.Engine.Cycle
import MotionControl.Settings.System

/-!
# Running an engine periodically

- `CycleStats`: what is kept of the timing of past cycles.
- `TaskSettings`: the period of a task, where it runs and how long.
- `Task.checkName`: whether an engine can be run by a task.
- `Task.run`: the loop, on the rounds that its surroundings grant it.
-/

namespace MotionControl

/-- Timing in nanoseconds. -/
structure CycleStats where
  count : UInt64
  last : Int
  shortest : Int
  longest : Int
  total : Int
  /-- Cycles that took longer than their period. -/
  overruns : UInt64
  /-- The longest delay between the time a cycle was due and its begin. -/
  latency : Int
  deriving Repr, DecidableEq

namespace CycleStats

/-- The greatest duration that is told apart. -/
def greatestDuration : Int := 0x7fffffffffffffff

/-- A duration brought into 64 bits. -/
def saturate (d : Int) : Int := max (-0x8000000000000000) (min greatestDuration d)

/-- No cycle has run: any first duration is shorter than the shortest so far. -/
def empty : CycleStats where
  count := 0
  last := 0
  shortest := greatestDuration
  longest := 0
  total := 0
  overruns := 0
  latency := 0

/-- One more cycle with its duration and its latency. -/
def record (s : CycleStats) (duration latency : Int) : CycleStats :=
  { s with
    count := s.count + 1
    last := duration
    shortest := min s.shortest duration
    longest := max s.longest duration
    total := saturate (s.total + duration)
    latency := max s.latency latency }

/-- The average duration, rounded toward zero; zero before the first cycle.  The number of cycles
is read as a signed one, and there is no average if it does not fit into 64 bits. -/
def average (s : CycleStats) : Except Fault Int :=
  if s.count = 0 then .ok 0
  else
    let quotient := s.total.tdiv s.count.toInt64.toInt
    if quotient ≤ greatestDuration then .ok quotient else .error .quotient

end CycleStats

/-- How a task runs. -/
structure TaskSettings where
  /-- The period in microseconds. -/
  cycleTime : UInt32
  /-- The processor core that the task is bound to, if any. -/
  core : Option Nat
  /-- The priority of a task that is bound to a core. -/
  priority : Int
  /-- The task ends by itself after so many cycles. -/
  maxCycles : Option UInt64
  deriving Repr, DecidableEq

namespace TaskSettings

/-- The priority when none is given. -/
def defaultPriority : Int := 80

/-- A task on any core that does not end by itself. -/
def ofSystem {α : Type} (s : SystemSettings α) : TaskSettings :=
  ⟨s.cycleTime, none, defaultPriority, none⟩

/-- The period in nanoseconds. -/
def budget (s : TaskSettings) : Int := s.cycleTime.toNat * 1000

end TaskSettings

namespace Task

/-- What happens around one turn of the loop: whether a stop was requested before it,
and how long its cycle took. -/
structure Round where
  stopped : Bool
  duration : Int
  deriving Repr, DecidableEq

/-- A round in which nothing is requested and no time passes. -/
def Round.quiet : Round := ⟨false, 0⟩

/-- Whether another cycle runs. -/
def goesOn (settings : TaskSettings) (stats : CycleStats) (stopped : Bool) : Bool :=
  !stopped && settings.maxCycles.all fun limit => stats.count < limit

/-- The timing after a cycle. -/
def account (settings : TaskSettings) (stats : CycleStats) (duration : Int) : CycleStats :=
  let stats := stats.record duration 0
  if settings.budget < duration then { stats with overruns := stats.overruns + 1 } else stats

variable {α σ : Type} [Scalar α]

/-- A task bears the name of its engine, and such a name has no NUL in it. -/
def checkName (e : Engine α σ) : Except Fault Unit :=
  if e.name.toList.contains '\x00' then .error .taskName else .ok ()

/-- The loop: a cycle for each round, until it must not go on or no round is left. -/
def loop (settings : TaskSettings) :
    List Round → CycleStats → Engine α σ → Except (Interrupted α σ) (CycleStats × Engine α σ)
  | [], stats, e => .ok (stats, e)
  | round :: rest, stats, e =>
    if goesOn settings stats round.stopped then do
      let e ← e.step
      loop settings rest (account settings stats round.duration) e
    else .ok (stats, e)

/-- What is reported of a task whose cycle was given up. -/
def interruptedMessage : String := "cycle thread panicked"

/-- Runs a task from its begin. -/
def run (settings : TaskSettings) (rounds : List Round) (e : Engine α σ) :
    Except (Interrupted α σ) (CycleStats × Engine α σ) :=
  loop settings rounds .empty e

end Task

end MotionControl
