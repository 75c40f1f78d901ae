import MotionControl.Engine

/-!
# Requests to an engine

What may be asked of an engine between two cycles.  A refused request gives an
error and no engine, so that the engine stays as it was.

- `EngineError`: why a construction or a request was refused, with its wording.
- `Engine.handle`: one mode event with everything that a change of mode entails.
- `Engine.requestMode`, `Engine.setPoseTarget`, `Engine.setSpeedTarget`,
  `Engine.setPassthrough`: commands.
- `Engine.setParameters` and the other setters.
- `Request`, `Engine.request`: all of them.
-/

namespace MotionControl

/-- Why an engine was not built, or a request was not carried out. -/
inductive EngineError (α : Type) where
  | settings (error : SettingsError α)
  | wiring (error : WiringError α)
  | parameters (error : ParameterError α)
  | rejected (mode : Mode) (event : ModeEvent) (reason : Refusal)
  deriving Repr

namespace EngineError

/-- The name of a refusal in a report; a refusal that was passed on keeps its own. -/
def title {α : Type} : EngineError α → String
  | settings _ => SettingsError.title
  | wiring e => e.title
  | parameters e => e.title
  | rejected .. => "TransitionRejected"

/-- The wording of a refusal. -/
def message : EngineError Float → String
  | settings e => e.message
  | wiring e => e.message
  | parameters e => e.message
  | rejected mode event reason =>
    "mode request " ++ event.title ++ " rejected in " ++ mode.title ++ ": " ++ reason.text

end EngineError

namespace Engine

variable {α σ : Type} [Scalar α]

/-! ## Modes -/

/-- Arrival in a mode: the history of the controllers is forgotten, and a mode that
does not drive stops the actuators. -/
def enter (e : Engine α σ) (target : Mode) : Engine α σ :=
  let e := { e with
    state := { e.state with mode := target, stalledCycles := 0 }
    tree := e.tree.reset
    stall := e.stall.reset }
  match target with
  | .stop => e.release
  | .idle | .blocked => e.hold
  | .running | .runningSpeed | .passthrough => e

/-- A command begins: the progress of the one before is forgotten. -/
def beginCommand (e : Engine α σ) : Engine α σ :=
  { e with state := e.state.beginCommand, arrival := e.arrival.reset }

/-- One mode event. -/
def handle (e : Engine α σ) (event : ModeEvent) :
    Except (EngineError α) (Transition × Engine α σ) :=
  match e.machine.handle event with
  | .error reason => .error (.rejected e.mode event reason)
  | .ok (transition, machine) =>
    let e := { e with machine }
    let e := if transition.changed then e.enter transition.target else e
    .ok (transition, if event = .recover then e.beginCommand else e)

/-- One mode event, its transition left out. -/
def accept (e : Engine α σ) (event : ModeEvent) : Except (EngineError α) (Engine α σ) :=
  (e.handle event).map (·.2)

/-- Switches the engine on. -/
def enable (e : Engine α σ) : Except (EngineError α) (Engine α σ) := e.accept .enable

/-- Stop is reached from every mode. -/
def disable (e : Engine α σ) : Engine α σ :=
  match e.accept .disable with
  | .ok e => e
  | .error _ => e

/-- Drops the active command. -/
def dropCommand (e : Engine α σ) : Except (EngineError α) (Engine α σ) := e.accept .release

/-- Takes up the command that stalled. -/
def recover (e : Engine α σ) : Except (EngineError α) (Engine α σ) := e.accept .recover

/-- A command to go to a mode.  Idle means to be enabled when the engine is stopped,
and to drop the command otherwise; the regulating modes begin a command. -/
def requestMode (e : Engine α σ) (mode : Mode) : Except (EngineError α) (Engine α σ) :=
  if mode = .idle ∧ e.mode = .stop then e.enable
  else do
    let e ← e.accept (.toward mode)
    .ok (if mode.isRegulating then e.beginCommand else e)

/-! ## Commands -/

/-- A pose to reach, at the speed that goes with it. -/
def setPoseTarget (e : Engine α σ) (target : PathPose α) :
    Except (EngineError α) (Engine α σ) := do
  let e ← e.accept .poseTarget
  let state := { e.state with target, order := e.parameters.speedFor target }
  .ok { e with state }.beginCommand

/-- A speed to keep, without a pose to reach. -/
def setSpeedTarget (e : Engine α σ) (order : Polar α) : Except (EngineError α) (Engine α σ) := do
  let e ← e.accept .speedTarget
  .ok { e with state := { e.state with order } }.beginCommand

/-- Orders go to the actuators without regulation. -/
def setPassthrough (e : Engine α σ) (order : Polar α) : Except (EngineError α) (Engine α σ) := do
  let e ← e.accept .passthrough
  .ok { e with state := { e.state with order } }.beginCommand

/-- Another order for the active command. -/
def setSpeedOrder (e : Engine α σ) (order : Polar α) : Engine α σ :=
  { e with state := { e.state with order } }

/-- The plant is known to be at a pose. -/
def setPose (e : Engine α σ) (pose : Pose α) : Engine α σ :=
  { e with
    state := { e.state with pose }
    world := e.plant.reseat pose e.world }

/-- Whether targets are taken from the path. -/
def setPathFollow (e : Engine α σ) (enabled : Bool) : Engine α σ :=
  { e with state := { e.state with pathFollow := enabled } }

/-! ## Settings -/

/-- Settings that passed their check, or the problem under the name of their table. -/
def checked (table : String) (outcome : Except (Problem α) Unit) :
    Except (EngineError α) Unit :=
  (inSection [table] outcome).mapError .settings

/-- Another parameter block for a leaf of the tree. -/
def setParameters (e : Engine α σ) (leaf : String) (settings : LawSettings α) :
    Except (EngineError α) (Engine α σ) := do
  let tree ← (e.tree.setParameters leaf settings).mapError .parameters
  .ok { e with tree }

/-- Switching stall detection off clears its count. -/
def setStallSettings (e : Engine α σ) (settings : StallSettings α) :
    Except (EngineError α) (Engine α σ) := do
  checked "blocking" settings.check
  let stall := e.stall.withSettings settings
  .ok (if settings.enabled then { e with stall }
    else { e with stall := stall.reset, state := { e.state with stalledCycles := 0 } })

/-- Other settings for telling whether a target is reached. -/
def setArrivalSettings (e : Engine α σ) (settings : ArrivalSettings α) :
    Except (EngineError α) (Engine α σ) := do
  checked "pose_reached" settings.check
  .ok { e with arrival := e.arrival.withSettings settings }

/-- Other settings for giving a target up. -/
def setTimeoutSettings (e : Engine α σ) (settings : TimeoutSettings) :
    Except (EngineError α) (Engine α σ) := do
  checked "timeout" settings.check
  .ok { e with parameters := { e.parameters with timeout := settings } }

end Engine

/-! ## All requests -/

/-- What may be asked of an engine between two cycles. -/
inductive Request (α : Type) where
  | handle (event : ModeEvent)
  | requestMode (mode : Mode)
  | enable
  | disable
  | dropCommand
  | recover
  | setPoseTarget (target : PathPose α)
  | setSpeedTarget (order : Polar α)
  | setPassthrough (order : Polar α)
  | setSpeedOrder (order : Polar α)
  | setPose (pose : Pose α)
  | setPathFollow (enabled : Bool)
  | setParameters (leaf : String) (settings : LawSettings α)
  | setStallSettings (settings : StallSettings α)
  | setArrivalSettings (settings : ArrivalSettings α)
  | setTimeoutSettings (settings : TimeoutSettings)

namespace Engine

variable {α σ : Type} [Scalar α]

/-- What a request made of the engine; the engine as it was if the request was refused. -/
def granted (e : Engine α σ) (outcome : Except (EngineError α) (Engine α σ)) : Engine α σ :=
  outcome.toOption.getD e

/-- The engine after a request, accepted or refused. -/
def request (e : Engine α σ) : Request α → Engine α σ
  | .handle event => e.granted ((e.handle event).map (·.2))
  | .requestMode mode => e.granted (e.requestMode mode)
  | .enable => e.granted e.enable
  | .disable => e.disable
  | .dropCommand => e.granted e.dropCommand
  | .recover => e.granted e.recover
  | .setPoseTarget target => e.granted (e.setPoseTarget target)
  | .setSpeedTarget order => e.granted (e.setSpeedTarget order)
  | .setPassthrough order => e.granted (e.setPassthrough order)
  | .setSpeedOrder order => e.setSpeedOrder order
  | .setPose pose => e.setPose pose
  | .setPathFollow enabled => e.setPathFollow enabled
  | .setParameters leaf settings => e.granted (e.setParameters leaf settings)
  | .setStallSettings settings => e.granted (e.setStallSettings settings)
  | .setArrivalSettings settings => e.granted (e.setArrivalSettings settings)
  | .setTimeoutSettings settings => e.granted (e.setTimeoutSettings settings)

end Engine

end MotionControl
