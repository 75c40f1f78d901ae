import MotionControl.Control.Signals
import MotionControl.Settings.Controllers

/-!
# Speed ramps

- `SpeedRamp.limit`: a speed order capped, kept within reach of the measured
  speed, and raised to the least useful speed.
-/

namespace MotionControl

open Scalar

/-- Limits and the cycle period in seconds. -/
structure SpeedRamp (α : Type) where
  settings : RampSettings α
  period : α
  deriving Repr, BEq

namespace SpeedRamp

variable {α : Type} [Scalar α]

/-- The number of input and of output signals. -/
def arity : Nat × Nat := (3, 2)

/-- The order that the speed loop tracks.  `bound` caps it by its magnitude, and the
cap holds last: a bound of zero beats the least speed. -/
def limit (f : SpeedRamp α) (order current bound : α) : Except Fault α := do
  let cap := lesser f.settings.maxSpeed (abs bound)
  let capped ← orFault .clampBounds (clamp? (-cap) cap order)
  let reached ←
    if 0 < f.period then do
      let reach := f.settings.maxAcceleration * f.period
      let step ← orFault .clampBounds (clamp? (-reach) reach (capped - current))
      pure (current + step)
    else pure capped
  let least := f.settings.minSpeed
  let lifted :=
    if !(reached == 0) && decide (abs reached < least) then copySign least reached
    else reached
  orFault .clampBounds (clamp? (-cap) cap lifted)

/-- One cycle on the signals order, measured speed and bound: the order to track, and the
measured speed again. -/
def compute (f : SpeedRamp α) (inputs outputs : List α) : Except Fault (List α) := do
  let order ← Slice.get inputs 0
  let current ← Slice.get inputs 1
  let bound ← Slice.get inputs 2
  Slice.setAll outputs [(0, ← f.limit order current bound), (1, current)]

end SpeedRamp

end MotionControl
