import MotionControl.Engine.Build
import MotionControl.Simulation.Axis
import MotionControl.Simulation.Base
import MotionControl.Simulation.Waypoints

/-!
# A test bench for engines

A world in which everything that an engine does to its surroundings can be seen:
measurements come from a simulation or from a recording, and calls are counted.

- `Machine`: what the simulations have in common, whatever they measure.
- `Bench`: the world.
- `BaseBench.engine`, `AxisBench.engine`: engines on a bench.
-/

namespace MotionControl

/-- A simulated machine.  It takes commands in `α`, is measured in `γ`, and is put
at a place of type `δ`. -/
class Machine (β : Type) (α γ δ : outParam Type) where
  /-- One measurement, which lets one period pass. -/
  advance : β → γ × β
  reseat : β → δ → β
  apply : β → List α → β
  release : β → β
  /-- An obstacle that keeps the machine where it is. -/
  setBlocked : β → Bool → β

instance {α : Type} [Scalar α] : Machine (SimulatedBase α) α (Odometry α) (Pose α) where
  advance := SimulatedBase.advance
  reseat := SimulatedBase.reseat
  apply := SimulatedBase.apply
  release := SimulatedBase.release
  setBlocked := SimulatedBase.setBlocked

instance {α : Type} [Scalar α] : Machine (SimulatedAxis α) α (AxisReading α) α where
  advance := SimulatedAxis.advance
  reseat := SimulatedAxis.reseat
  apply := SimulatedAxis.apply
  release := SimulatedAxis.release
  setBlocked := SimulatedAxis.setBlocked

/-- A list of measurements, the last of which is repeated for ever, and the places
at which the measurements were seated since they were looked at. -/
structure Recording (β γ : Type) where
  next : β
  later : List β
  seats : List γ

namespace Recording

variable {β γ : Type}

/-- A recording of at least one measurement. -/
def ofList? : List β → Option (Recording β γ)
  | [] => none
  | first :: rest => some ⟨first, rest, []⟩

/-- The next measurement. -/
def sample (r : Recording β γ) : β × Recording β γ :=
  match r.later with
  | [] => (r.next, r)
  | later :: rest => (r.next, { r with next := later, later := rest })

/-- Notes a seat; a recording plays on regardless. -/
def reseat (r : Recording β γ) (seat : γ) : Recording β γ :=
  { r with seats := r.seats ++ [seat] }

end Recording

/-- What is measured on a bench: a machine, or a recording of one. -/
inductive Stand (β γ δ : Type) where
  | simulated (machine : β)
  | recorded (recording : Recording γ δ)

namespace Stand

variable {β γ δ : Type}

/-- The recording if there is one, the machine otherwise. -/
def ofRecording? (machine : β) : Option (Recording γ δ) → Stand β γ δ
  | some recording => recorded recording
  | none => simulated machine

/-- The machine, unless a recording is played. -/
def machine? : Stand β γ δ → Option β
  | simulated machine => some machine
  | recorded _ => none

/-- The places at which a recording was seated since it was asked last. -/
def takeSeats : Stand β γ δ → List δ × Stand β γ δ
  | simulated machine => ([], simulated machine)
  | recorded recording => (recording.seats, recorded { recording with seats := [] })

variable {α : Type} [Machine β α γ δ]

/-- The next measurement, by the machine or from the recording. -/
def sample : Stand β γ δ → γ × Stand β γ δ
  | simulated machine =>
    let (reading, machine) := Machine.advance machine
    (reading, simulated machine)
  | recorded recording =>
    let (reading, recording) := recording.sample
    (reading, recorded recording)

/-- Puts the machine at a place, or notes that it would have been put there. -/
def reseat (seat : δ) : Stand β γ δ → Stand β γ δ
  | simulated machine => simulated (Machine.reseat machine seat)
  | recorded recording => recorded (recording.reseat seat)

/-- Does something to the machine, if there is one. -/
def onMachine (f : β → β) : Stand β γ δ → Stand β γ δ
  | simulated machine => simulated (f machine)
  | recorded recording => recorded recording

end Stand

/-- What stands on a bench, with everything that an engine did to it. -/
structure Bench (α β γ δ : Type) where
  stand : Stand β γ δ
  waypoints : WaypointQueue α
  /-- How often commands were applied. -/
  applied : Nat
  /-- How often the actuators were let go. -/
  released : Nat
  lastCommands : List α
  beforeCalls : Nat
  afterCalls : Nat
  reachedCalls : Nat

namespace Bench

variable {α β γ δ : Type}

/-- A bench on which nothing has happened yet. -/
def fresh (stand : Stand β γ δ) (waypoints : WaypointQueue α) : Bench α β γ δ where
  stand
  waypoints
  applied := 0
  released := 0
  lastCommands := []
  beforeCalls := 0
  afterCalls := 0
  reachedCalls := 0

/-- What the hooks of a bench do to the state, besides counting their calls. -/
structure HookPlan (α : Type) where
  before : ControlState α → ControlState α
  after : ControlState α → ControlState α
  /-- The cycle that the first hook gives up. -/
  givesUpAt : Option UInt64

/-- Hooks that count and follow a plan. -/
def hooks (plan : HookPlan α) : Hooks α (Bench α β γ δ) where
  beforeControl s bench :=
    let bench := { bench with beforeCalls := bench.beforeCalls + 1 }
    if plan.givesUpAt = some s.cycle then (.error .hook, bench) else (.ok (plan.before s), bench)
  afterControl s bench := (plan.after s, { bench with afterCalls := bench.afterCalls + 1 })
  targetReached _ bench := { bench with reachedCalls := bench.reachedCalls + 1 }

/-- The waypoints of a bench as a target source.  A plain source pays no attention
to the hold. -/
def targets [Scalar α] (plain : Bool) : TargetSource α (Bench α β γ δ) :=
  let source := WaypointQueue.source (σ := Bench α β γ δ) Bench.waypoints
    fun waypoints bench => { bench with waypoints }
  if plain then { source with mayAdvance := fun _ => true } else source

variable [Machine β α γ δ]

/-- The next measurement of what stands on the bench. -/
def sample (bench : Bench α β γ δ) : γ × Bench α β γ δ :=
  let (reading, stand) := bench.stand.sample
  (reading, { bench with stand })

/-- Puts what stands on the bench at a place. -/
def reseat (seat : δ) (bench : Bench α β γ δ) : Bench α β γ δ :=
  { bench with stand := bench.stand.reseat seat }

/-- Puts an obstacle before the machine, or takes it away; a recording knows none. -/
def setBlocked (bench : Bench α β γ δ) (blocked : Bool) : Bench α β γ δ :=
  { bench with stand := bench.stand.onMachine (Machine.setBlocked · blocked) }

/-- Actuators that count their calls and pass them on. -/
def actuators : Actuators α (Bench α β γ δ) where
  apply commands bench :=
    { bench with
      stand := bench.stand.onMachine (Machine.apply · commands)
      applied := bench.applied + 1
      lastCommands := commands }
  release bench :=
    { bench with
      stand := bench.stand.onMachine Machine.release
      released := bench.released + 1 }

end Bench

/-- A bench with a vehicle. -/
abbrev BaseBench (α : Type) := Bench α (SimulatedBase α) (Odometry α) (Pose α)

/-- A bench with a single axis. -/
abbrev AxisBench (α : Type) := Bench α (SimulatedAxis α) (AxisReading α) α

variable {α : Type} [Scalar α]

/-- A vehicle engine on a bench. -/
def BaseBench.engine (settings : PlatformSettings α) (period : α)
    (targets : Option (TargetSource α (BaseBench α))) (attachments : Attachments α (BaseBench α))
    (bench : BaseBench α) : Except (EngineError α) (Engine α (BaseBench α)) :=
  Engine.ofPlatform settings period ⟨Bench.sample, Bench.reseat⟩ Bench.actuators targets
    attachments bench

/-- A single-axis engine on a bench. -/
def AxisBench.engine (settings : MotorSettings α) (period : α)
    (attachments : Attachments α (AxisBench α)) (bench : AxisBench α) :
    Except (EngineError α) (Engine α (AxisBench α)) :=
  Engine.ofMotor settings period ⟨Bench.sample, Bench.reseat⟩ Bench.actuators attachments bench

end MotionControl
