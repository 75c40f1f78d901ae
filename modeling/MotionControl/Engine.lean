import MotionControl.Control.Node.Access
import MotionControl.Control.Node.Cycle
import MotionControl.Engine.Arrival
import MotionControl.Engine.Drive
import MotionControl.Engine.StallDetector
import MotionControl.Engine.Surroundings
import MotionControl.Mode.Machine
import MotionControl.Telemetry.Queue

/-!
# Engines

An engine owns one controller tree together with its run mode, stall detection,
arrival, timeout and telemetry, and carries the world that it measures and moves.

- `Plant`: what is moved, a vehicle on a differential drive or a single axis.  It
  says what the tree reads and how its outputs become actuator commands.
- `Engine`: the whole.
- `Interrupted`: an engine whose cycle was given up, as it was left.
-/

namespace MotionControl

open Scalar

/-- What an engine moves, with its measurements. -/
inductive Plant (α σ : Type) where
  | platform (odometer : Odometer α σ) (drive : DriveSettings α)
      (targets : Option (TargetSource α σ))
  | motor (encoder : Encoder α σ)

/-- Command and ramped order, as the tree gives them. -/
structure Demand (α : Type) where
  command : Polar α
  filtered : Polar α
  deriving Repr, BEq

namespace Plant

variable {α σ : Type}

/-- The source of waypoints.  A single axis follows no path. -/
def targets? : Plant α σ → Option (TargetSource α σ)
  | platform _ _ targets => targets
  | motor _ => none

variable [Scalar α]

/-- One measurement.  A single axis lies along the abscissa. -/
def sample (p : Plant α σ) (world : σ) : Odometry α × σ :=
  match p with
  | platform odometer _ _ => odometer.sample world
  | motor encoder =>
    let (reading, world) := encoder.sample world
    (⟨.of reading.position 0 0, .speed reading.speed 0⟩, world)

/-- Tells the measurements where the plant is. -/
def reseat (p : Plant α σ) (pose : Pose α) (world : σ) : σ :=
  match p with
  | platform odometer _ _ => odometer.reseat pose world
  | motor encoder => encoder.reseat pose.x world

/-- The inputs of the tree in this state. -/
def treeInputs (p : Plant α σ) (s : ControlState α) (speedMode : Bool) : List α :=
  match p with
  | platform .. =>
    [s.pose.x, s.pose.y, s.pose.orientation,
      s.target.pose.x, s.target.pose.y, s.target.pose.orientation,
      s.speed.distance, s.speed.angle, s.order.distance, s.order.angle,
      flag s.target.allowReverse, flag s.target.intermediate, flag speedMode]
  | motor _ =>
    [s.pose.x, s.target.pose.x, s.speed.distance, abs s.order.distance, flag speedMode,
      s.order.distance]

/-- What the outputs of the tree ask for. -/
def demand (p : Plant α σ) (outputs : Signals α) : Except Fault (Demand α) :=
  match p with
  | platform .. => do
    .ok {
      command := .speed (← outputs.get 0) (← outputs.get 1)
      filtered := .speed (← outputs.get 2) (← outputs.get 3) }
  | motor _ => do
    .ok { command := .speed (← outputs.get 0) 0, filtered := .speed (← outputs.get 1) 0 }

/-- The actuator commands for a polar command. -/
def actuation (p : Plant α σ) (command : Polar α) : Except Fault (List α) :=
  match p with
  | platform _ drive _ => do .ok (← drive.duties command).toList
  | motor _ => .ok [command.distance]

/-- The actuator commands that hold still. -/
def stillness : Plant α σ → List α
  | platform .. => Wheels.zero.toList
  | motor _ => [0]

end Plant

/-- An engine between two cycles. -/
structure Engine (α σ : Type) where
  name : String
  state : ControlState α
  parameters : EngineParameters α
  tree : Node α
  machine : ModeMachine
  stall : StallDetector α
  arrival : ArrivalJudge α
  plant : Plant α σ
  actuators : Actuators α σ
  hooks : Hooks α σ
  /-- The source's current waypoint was loaded. -/
  pathLoaded : Bool
  /-- Where snapshots wait, if anybody publishes them. -/
  telemetry : Option (TelemetryQueue α)
  world : σ

/-- Why a cycle was given up, and the engine that it left behind. -/
structure Interrupted (α σ : Type) where
  fault : Fault
  engine : Engine α σ

namespace Engine

variable {α σ : Type} [Scalar α]

/-- The mode that the engine is in. -/
def mode (e : Engine α σ) : Mode := e.machine.mode

/-- Sends the command of the state to the actuators.  A command that has no actuator
commands stays in the state. -/
def drive (e : Engine α σ) : Except (Interrupted α σ) (Engine α σ) :=
  match e.plant.actuation e.state.command with
  | .ok commands => .ok { e with world := e.actuators.apply commands e.world }
  | .error fault => .error ⟨fault, e⟩

/-- Sends a zero command and shows it in the state. -/
def hold (e : Engine α σ) : Engine α σ :=
  { e with
    state := e.state.zeroCommand
    world := e.actuators.apply e.plant.stillness e.world }

/-- Lets the actuators go and shows a zero command in the state. -/
def release (e : Engine α σ) : Engine α σ :=
  { e with
    state := e.state.zeroCommand
    world := e.actuators.release e.world }

end Engine

end MotionControl
