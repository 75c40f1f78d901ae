import MotionControl.Control.StandardTree
import MotionControl.Engine.Cycle
import MotionControl.Settings.System

/-!
# Building engines

- `Engine.ofPlatform`: a vehicle engine from its settings.
- `Engine.ofMotor`: a single-axis engine from its settings.

Settings are checked first, then the period, then the tree is wired.
-/

namespace MotionControl

open Scalar

/-- What an engine may do without. -/
structure Attachments (α σ : Type) where
  hooks : Hooks α σ
  /-- Where snapshots are queued. -/
  telemetry : Option (TelemetryQueue α)
  telemetryInterval : UInt32

/-- No hooks and no telemetry. -/
def Attachments.none {α σ : Type} : Attachments α σ := ⟨.idle, Option.none, 0⟩

namespace Engine

variable {α σ : Type} [Scalar α]

/-- A period has to be positive and finite. -/
def checkPeriod (period : α) : Except (EngineError α) Unit :=
  checked "cycle_time" (require (0 < period && isFinite period) (.periodNotPositive period))

/-- An engine in Stop that has not run yet. -/
def ofParts (name : String) (parameters : EngineParameters α) (tree : Node α)
    (stall : StallSettings α) (arrival : ArrivalSettings α) (pathFollow : Bool)
    (plant : Plant α σ) (actuators : Actuators α σ) (attachments : Attachments α σ) (world : σ) :
    Engine α σ where
  name
  state := { ControlState.initial with pathFollow }
  parameters
  tree
  machine := .initial
  stall := .fresh stall
  arrival := .fresh arrival
  plant
  actuators
  hooks := attachments.hooks
  pathLoaded := false
  telemetry := attachments.telemetry
  world

/-- A vehicle engine. -/
def ofPlatform (settings : PlatformSettings α) (period : α) (odometer : Odometer α σ)
    (actuators : Actuators α σ) (targets : Option (TargetSource α σ))
    (attachments : Attachments α σ) (world : σ) : Except (EngineError α) (Engine α σ) := do
  settings.check.mapError .settings
  checkPeriod period
  let tree ← (StandardTree.platform settings period).mapError .wiring
  let parameters := {
    period
    maxLinearSpeed := settings.maxLinearSpeed
    maxAngularSpeed := settings.maxAngularSpeed
    timeout := settings.timeout
    telemetryInterval := attachments.telemetryInterval }
  .ok (ofParts "platform" parameters tree settings.stall settings.arrival settings.pathFollow
    (.platform odometer settings.drive targets) actuators attachments world)

/-- The tolerances of a single axis.  Its heading never changes, so that only the
position counts. -/
def axisArrival (settings : MotorSettings α) : ArrivalSettings α where
  linearThreshold := settings.positionThreshold
  angularThreshold := 180
  policy := .simultaneous

/-- A single-axis engine. -/
def ofMotor (settings : MotorSettings α) (period : α) (encoder : Encoder α σ)
    (actuators : Actuators α σ) (attachments : Attachments α σ) (world : σ) :
    Except (EngineError α) (Engine α σ) := do
  settings.check.mapError .settings
  checkPeriod period
  let tree ← (StandardTree.motor settings period).mapError .wiring
  let parameters := {
    period
    maxLinearSpeed := settings.maxSpeed
    maxAngularSpeed := 0
    timeout := settings.timeout
    telemetryInterval := attachments.telemetryInterval }
  .ok (ofParts settings.name parameters tree settings.stall (axisArrival settings) false
    (.motor encoder) actuators attachments world)

end Engine

end MotionControl
