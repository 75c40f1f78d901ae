import MotionControl.Control.Signals
import MotionControl.Geometry.Pose
import MotionControl.Settings.Controllers

/-!
# Straight-line moves

A pose error becomes a linear and an angular set-point: turn towards the target,
drive to it, turn to the final orientation.  In speed mode there is no pose error
and the orders pass through.

- `MoveRequest`, `MoveOutput`: what the law is given and what it asks of the two axes,
  with their places in signal vectors.
- `StraightMove.steer`: a cycle with a pose to reach, and `StraightMove.compute`: any cycle.
-/

namespace MotionControl

open Scalar

/-- Where the robot is and should be, how fast it is and may be. -/
structure MoveRequest (α : Type) where
  current : Pose α
  target : Pose α
  speed : Polar α
  order : Polar α
  allowReverse : Bool
  intermediate : Bool
  /-- At least one half in speed mode. -/
  mode : α

/-- The order of signals: three for each pose, two for each speed, then reversing,
whether the target is intermediate, and the mode.  Orientations are wrapped. -/
def MoveRequest.ofSignals? {α : Type} [Scalar α] : List α → Option (MoveRequest α)
  | x :: y :: angle :: goalX :: goalY :: goalAngle :: linearSpeed :: angularSpeed :: linearOrder
      :: angularOrder :: allowReverse :: intermediate :: mode :: _ =>
    some {
      current := .of x y angle
      target := .of goalX goalY goalAngle
      speed := ⟨linearSpeed, angularSpeed⟩
      order := ⟨linearOrder, angularOrder⟩
      allowReverse := isSet allowReverse
      intermediate := isSet intermediate
      mode }
  | _ => none

/-- The output signals, in their order: an error, a speed, a limit and an order for each
axis, and the mode. -/
inductive MoveOutput where
  | linearError
  | linearSpeed
  | linearLimit
  | linearOrder
  | angularError
  | angularSpeed
  | angularLimit
  | angularOrder
  | mode
  deriving Repr, DecidableEq

/-- The place of an output among the signals. -/
def MoveOutput.place (o : MoveOutput) : Nat := o.ctorIdx

/-- The step that a move is in. -/
inductive MoveStep where
  /-- Far away and facing elsewhere: turn on the spot. -/
  | align
  /-- Far away and facing the target: drive. -/
  | straight
  /-- Close: turn to the final orientation. -/
  | orient
  /-- Speed mode, no pose to reach. -/
  | speed
  deriving Repr, DecidableEq

/-- What a step is called in reports. -/
def MoveStep.title : MoveStep → String
  | align => "Align"
  | straight => "Straight"
  | orient => "Orient"
  | speed => "Speed"

/-- The law with what it remembers: the target that driving has started for, and
the last step.  Once aligned on a target, an overshoot is corrected backwards
instead of by turning round. -/
structure StraightMove (α : Type) where
  settings : StraightMoveSettings α
  alignedOn : Option (Pose α)
  step : MoveStep
  deriving Repr, BEq

namespace StraightMove

variable {α : Type} [Scalar α]

/-- The number of input and of output signals. -/
def arity : Nat × Nat := (13, 9)

/-- The law before its first cycle. -/
def fresh (settings : StraightMoveSettings α) : StraightMove α := ⟨settings, none, .speed⟩

/-- Forgets the alignment and the last step. -/
def reset (f : StraightMove α) : StraightMove α := .fresh f.settings

/-- The alignment that is still good for a target. -/
def alignmentFor (f : StraightMove α) (target : Pose α) : Option (Pose α) :=
  f.alignedOn.filter (· == target)

/-- The pose error, driven backwards where that is allowed and shorter to turn. -/
def directedError (r : MoveRequest α) (allowReverse : Bool) : Polar α :=
  let error := r.current.polarErrorTo r.target
  if allowReverse && decide (90 < abs error.angle) then error.reverse else error

/-- The way to a target: the error to correct, the limit of the linear speed, and the law
after the cycle. -/
def steer (f : StraightMove α) (r : MoveRequest α) : Polar α × α × StraightMove α :=
  let aligned := f.alignmentFor r.target
  let error := directedError r (r.allowReverse || aligned.isSome)
  let linearLimit := abs r.order.distance
  if f.settings.linearThreshold < abs error.distance then
    if f.settings.angularThreshold < abs error.angle then
      (error, 0, { f with alignedOn := aligned, step := .align })
    else
      (error, linearLimit, { f with alignedOn := some r.target, step := .straight })
  else
    let angle :=
      if r.intermediate || f.settings.bypassFinalOrientation then 0
      else r.current.headingErrorTo r.target
    ({ error with angle }, linearLimit, { f with alignedOn := aligned, step := .orient })

/-- Writes outputs, one after another. -/
def write (outputs : List α) (writes : List (MoveOutput × α)) : Except Fault (List α) :=
  Slice.setAll outputs (writes.map fun w => (w.1.place, w.2))

/-- One cycle: the outputs, written in place, and the law after it. -/
def compute (f : StraightMove α) (inputs outputs : List α) :
    Except Fault (List α × StraightMove α) := do
  let r ← orFault .signalCount (MoveRequest.ofSignals? inputs)
  let outputs ← write outputs [
    (.linearSpeed, r.speed.distance), (.angularSpeed, r.speed.angle),
    (.linearOrder, r.order.distance), (.angularOrder, r.order.angle), (.mode, r.mode)]
  if isSet r.mode then
    let outputs ← write outputs [
      (.linearError, 0), (.angularError, 0),
      (.linearLimit, abs r.order.distance), (.angularLimit, abs r.order.angle)]
    .ok (outputs, { f with alignedOn := none, step := .speed })
  else
    let (error, linearLimit, f) := f.steer r
    let outputs ← write outputs [
      (.linearError, error.distance), (.linearLimit, linearLimit),
      (.angularError, error.angle), (.angularLimit, abs r.order.angle)]
    .ok (outputs, f)

end StraightMove

end MotionControl
