import MotionControl.Mode

/-!
# Transitions between run modes

Stop leads to Idle, Idle to the three driving modes and back, and a stall traps a
regulating mode in Blocked.  Disable reaches Stop from everywhere.

- `ModeMachine.next?`: the table of accepted events.
- `ModeMachine.handle`: one event; a refused event leaves the machine as it was.
- `ModeMachine.refusal`: why an event is refused in a mode.
-/

namespace MotionControl

/-- What may change the run mode. -/
inductive ModeEvent where
  /-- Release the actuators and hold the engine in Stop. -/
  | disable
  /-- Leave Stop. -/
  | enable
  /-- A pose target was issued. -/
  | poseTarget
  /-- A speed target was issued. -/
  | speedTarget
  /-- Forward speed orders without regulation. -/
  | passthrough
  /-- Drop the active command and hold zero. -/
  | release
  /-- The cycle detected a stall. -/
  | blocked
  /-- A stall was acknowledged; resume the command that stalled. -/
  | recover
  deriving Repr, DecidableEq

namespace ModeEvent

/-- All events. -/
def all : List ModeEvent :=
  [.disable, .enable, .poseTarget, .speedTarget, .passthrough, .release, .blocked, .recover]

/-- The name of an event in a message. -/
def title : ModeEvent → String
  | disable => "Disable"
  | enable => "Enable"
  | poseTarget => "PoseTarget"
  | speedTarget => "SpeedTarget"
  | passthrough => "Passthrough"
  | release => "Release"
  | blocked => "Blocked"
  | recover => "Recover"

/-- The event of a title, if it is the title of one. -/
def ofTitle? (title : String) : Option ModeEvent := all.find? (·.title = title)

/-- The event that leads to a mode. -/
def toward : Mode → ModeEvent
  | .stop => disable
  | .idle => release
  | .blocked => blocked
  | .running => poseTarget
  | .runningSpeed => speedTarget
  | .passthrough => passthrough

end ModeEvent

/-- Why an event is refused. -/
inductive Refusal where
  | onlyEnable
  | stalled
  | nothingToBlock
  | alreadyEnabled
  | passthrough
  | regulating
  deriving Repr, DecidableEq

namespace Refusal

/-- What is said about it. -/
def text : Refusal → String
  | onlyEnable => "Stop: only Enable allowed"
  | stalled => "Blocked: only Recover, PoseTarget or Disable allowed"
  | nothingToBlock => "Idle: nothing to block"
  | alreadyEnabled => "Idle: already enabled"
  | passthrough => "Passthrough: only Release or Disable allowed"
  | regulating => "Running: invalid event for current mode"

end Refusal

/-- A completed transition. -/
structure Transition where
  origin : Mode
  target : Mode
  deriving Repr, DecidableEq

/-- The mode is a different one. -/
def Transition.changed (t : Transition) : Bool := t.origin ≠ t.target

/-- The current mode, and the regulating mode that last stalled. -/
structure ModeMachine where
  mode : Mode
  resume : Mode
  deriving Repr, DecidableEq

namespace ModeMachine

/-- A new machine stands in Stop. -/
def initial : ModeMachine := ⟨.stop, .running⟩

/-- The mode that an event leads to, if it is accepted. -/
def next? (m : ModeMachine) (event : ModeEvent) : Option Mode :=
  match m.mode, event with
  | _, .disable => some .stop
  | .stop, .enable => some .idle
  | .idle, .poseTarget => some .running
  | .idle, .speedTarget => some .runningSpeed
  | .idle, .passthrough => some .passthrough
  | .running, .poseTarget | .runningSpeed, .poseTarget => some .running
  | .running, .speedTarget | .runningSpeed, .speedTarget => some .runningSpeed
  | .running, .blocked | .runningSpeed, .blocked => some .blocked
  | .running, .release | .runningSpeed, .release | .passthrough, .release => some .idle
  | .blocked, .recover => some m.resume
  | .blocked, .poseTarget => some .running
  | _, _ => none

/-- Why an event that is not accepted is refused. -/
def refusal (mode : Mode) (event : ModeEvent) : Refusal :=
  match mode, event with
  | .stop, _ => .onlyEnable
  | .blocked, _ => .stalled
  | .idle, .blocked => .nothingToBlock
  | .idle, _ => .alreadyEnabled
  | .passthrough, _ => .passthrough
  | .running, _ | .runningSpeed, _ => .regulating

/-- The machine after an accepted event; a stall remembers the mode it trapped. -/
def move (m : ModeMachine) (event : ModeEvent) (target : Mode) : ModeMachine where
  mode := target
  resume := if event = .blocked then m.mode else m.resume

/-- Attempts one event. -/
def handle (m : ModeMachine) (event : ModeEvent) : Except Refusal (Transition × ModeMachine) :=
  match m.next? event with
  | some target => .ok (⟨m.mode, target⟩, m.move event target)
  | none => .error (refusal m.mode event)

/-- Stop, whatever the mode. -/
def forceStop (m : ModeMachine) : ModeMachine := { m with mode := .stop }

/-- Idle, unless the engine is stopped. -/
def forceIdle (m : ModeMachine) : ModeMachine :=
  if m.mode = .stop then m else { m with mode := .idle }

end ModeMachine

end MotionControl
