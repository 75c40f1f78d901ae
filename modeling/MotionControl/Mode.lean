/-!
# Run modes and the progress of a target

- `Mode`: what an engine is doing with its actuators.
- `MoveStatus`: how far the active target has come.

Each has a code for fixed records, a name for documents and, for modes, a title
for messages.
-/

namespace MotionControl

/-- The run mode of an engine. -/
inductive Mode where
  /-- Disabled, actuators released. -/
  | stop
  /-- Enabled, holding a zero command. -/
  | idle
  /-- A stall was detected; waiting for recovery or a stop. -/
  | blocked
  /-- Closed loop on a pose. -/
  | running
  /-- Closed loop on a speed. -/
  | runningSpeed
  /-- Speed orders reach the actuators without regulation. -/
  | passthrough
  deriving Repr, DecidableEq, Inhabited

namespace Mode

/-- All modes, in the order of their codes. -/
def all : List Mode := [.stop, .idle, .blocked, .running, .runningSpeed, .passthrough]

/-- The code of a mode in a telemetry record. -/
def code : Mode → UInt8
  | stop => 0
  | idle => 1
  | blocked => 2
  | running => 3
  | runningSpeed => 4
  | passthrough => 5

/-- The mode of a code, if it is the code of one. -/
def ofCode? (code : UInt8) : Option Mode := all.find? (·.code = code)

/-- The name of a mode in a document. -/
def name : Mode → String
  | stop => "stop"
  | idle => "idle"
  | blocked => "blocked"
  | running => "running"
  | runningSpeed => "running_speed"
  | passthrough => "passthrough"

/-- The mode of a name, if it is the name of one. -/
def ofName? (name : String) : Option Mode := all.find? (·.name = name)

/-- The name of a mode in a message. -/
def title : Mode → String
  | stop => "STOP"
  | idle => "IDLE"
  | blocked => "BLOCKED"
  | running => "RUNNING"
  | runningSpeed => "RUNNING_SPEED"
  | passthrough => "PASSTHROUGH"

/-- The controller tree is computed in this mode. -/
def isRegulating : Mode → Bool
  | running | runningSpeed => true
  | _ => false

/-- The actuators may receive a command other than zero in this mode. -/
def drivesActuators : Mode → Bool
  | running | runningSpeed | passthrough => true
  | _ => false

end Mode

/-- The progress of the active target. -/
inductive MoveStatus where
  /-- Not reached yet, or there is no target. -/
  | moving
  /-- A pose on the way was reached. -/
  | intermediateReached
  /-- The last pose was reached. -/
  | reached
  /-- Given up after a stall. -/
  | blocked
  /-- Given up after too many cycles. -/
  | timeout
  deriving Repr, DecidableEq, Inhabited

namespace MoveStatus

/-- All statuses, in the order of their codes. -/
def all : List MoveStatus := [.moving, .intermediateReached, .reached, .blocked, .timeout]

/-- The code of a status in a telemetry record. -/
def code : MoveStatus → UInt8
  | moving => 0
  | intermediateReached => 1
  | reached => 2
  | blocked => 3
  | timeout => 4

/-- The status of a code, if it is the code of one. -/
def ofCode? (code : UInt8) : Option MoveStatus := all.find? (·.code = code)

/-- The name of a status in a document. -/
def name : MoveStatus → String
  | moving => "moving"
  | intermediateReached => "intermediate_reached"
  | reached => "reached"
  | blocked => "blocked"
  | timeout => "timeout"

/-- The status of a name, if it is the name of one. -/
def ofName? (name : String) : Option MoveStatus := all.find? (·.name = name)

/-- The target, last or on the way, was reached. -/
def isReached : MoveStatus → Bool
  | reached | intermediateReached => true
  | _ => false

/-- The command ended without reaching its target. -/
def isAborted : MoveStatus → Bool
  | blocked | timeout => true
  | _ => false

end MoveStatus

end MotionControl
