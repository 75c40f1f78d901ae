import MotionControl.Settings.Problem

/-!
# Settings of an engine's supervision

- `StallSettings`: when a cycle counts as stalled, and how many in a row trip.
- `ArrivalSettings`: how close is close enough.
- `TimeoutSettings`: how long a command may take.
-/

namespace MotionControl

open Scalar

/-- Thresholds of stall detection. -/
structure StallSettings (α : Type) where
  /-- Off means that no cycle ever counts as stalled. -/
  enabled : Bool
  /-- A measured speed below this magnitude is "not moving". -/
  speedThreshold : α
  /-- An order further than this from the measured speed is "not tracking". -/
  errorThreshold : α
  /-- The number of stalled cycles in a row that trips. -/
  cyclesMax : UInt32
  deriving Repr, BEq

namespace StallSettings

variable {α : Type} [Scalar α]

/-- The watch is on, but no speed is below a threshold of zero: nothing counts as a stall. -/
def default : StallSettings α := ⟨true, 0, 0, 25⟩

/-- At least one cycle makes a stall, and no threshold is negative. -/
def check (s : StallSettings α) : Except (Problem α) Unit := do
  require (s.cyclesMax != 0) .noStallCycles
  require (!isNaN s.speedThreshold && !decide (s.speedThreshold < 0))
    (.negative "blocking speed_threshold" s.speedThreshold)
  require (!isNaN s.errorThreshold && !decide (s.errorThreshold < 0))
    (.negative "blocking speed_error_threshold" s.errorThreshold)

end StallSettings

/-- How the two tolerances combine into "reached". -/
inductive ArrivalPolicy where
  /-- Both hold in the same cycle. -/
  | simultaneous
  /-- The position is latched first; from then on the heading alone decides. -/
  | sequential
  deriving Repr, DecidableEq

namespace ArrivalPolicy

/-- Both policies. -/
def all : List ArrivalPolicy := [.simultaneous, .sequential]

/-- The name of a policy in a document. -/
def name : ArrivalPolicy → String
  | simultaneous => "simultaneous"
  | sequential => "sequential"

/-- The policy of a name, if it is the name of one. -/
def ofName? (name : String) : Option ArrivalPolicy := all.find? (·.name = name)

end ArrivalPolicy

/-- Tolerances within which a target counts as reached. -/
structure ArrivalSettings (α : Type) where
  linearThreshold : α
  angularThreshold : α
  policy : ArrivalPolicy
  deriving Repr, BEq

namespace ArrivalSettings

variable {α : Type} [Scalar α]

/-- The tolerances when none are given. -/
def default : ArrivalSettings α := ⟨5, 2, .simultaneous⟩

/-- Both tolerances are positive, the angular one at most half a turn. -/
def check (s : ArrivalSettings α) : Except (Problem α) Unit := do
  require (0 < s.linearThreshold && isFinite s.linearThreshold)
    (.notPositive "pose_reached linear_threshold" s.linearThreshold)
  require (0 < s.angularThreshold && s.angularThreshold ≤ 180)
    (.outsideBounds "pose_reached angular_threshold" s.angularThreshold ⟨0, true, 180⟩)

end ArrivalSettings

/-- How many cycles a command may take. -/
structure TimeoutSettings where
  enabled : Bool
  cycles : UInt32
  deriving Repr, DecidableEq

namespace TimeoutSettings

/-- Commands do not time out. -/
def default : TimeoutSettings := ⟨false, 500⟩

/-- A timeout that is in force leaves a command at least one cycle. -/
def check {α : Type} (s : TimeoutSettings) : Except (Problem α) Unit :=
  require (!(s.enabled && s.cycles == 0)) .noTimeoutCycles

end TimeoutSettings

end MotionControl
