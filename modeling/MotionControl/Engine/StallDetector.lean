import MotionControl.Settings.Supervision

/-!
# Stall detection

A cycle is stalled when the axis is measured as standing although the order asks
for something else.  Enough stalled cycles in a row trip the detector; any other
cycle clears the count.

- `StallDetector.isStalled`: whether a single cycle counts.
- `StallDetector.update`: feeds one cycle.
-/

namespace MotionControl

open Scalar

/-- Thresholds and the number of stalled cycles in a row. -/
structure StallDetector (α : Type) where
  settings : StallSettings α
  cycles : UInt32
  deriving Repr, BEq

/-- One more, unless the counter is full. -/
def countUp (n : UInt32) : UInt32 := if n = 0xffffffff then n else n + 1

namespace StallDetector

variable {α : Type}

/-- A detector that has not seen a cycle. -/
def fresh (settings : StallSettings α) : StallDetector α := ⟨settings, 0⟩

/-- Counts from zero again. -/
def reset (d : StallDetector α) : StallDetector α := { d with cycles := 0 }

/-- Other thresholds; the count goes on. -/
def withSettings (d : StallDetector α) (settings : StallSettings α) : StallDetector α :=
  { d with settings }

variable [Scalar α]

/-- Standing still while the order lies elsewhere. -/
def isStalled (d : StallDetector α) (order current : α) : Bool :=
  decide (abs current < d.settings.speedThreshold)
    && decide (d.settings.errorThreshold < abs (order - current))

/-- Feeds one cycle.  Every stalled cycle trips once the count has reached its limit,
so that a limit lowered during a stall trips in the next stalled cycle. -/
def update (d : StallDetector α) (order current : α) : Bool × StallDetector α :=
  if d.settings.enabled && d.isStalled order current then
    let cycles := countUp d.cycles
    (decide (d.settings.cyclesMax ≤ cycles), { d with cycles })
  else (false, d.reset)

end StallDetector

end MotionControl
