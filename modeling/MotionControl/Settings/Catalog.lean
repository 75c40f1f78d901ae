import MotionControl.Settings.Document

/-!
# A catalog of settings blocks

Every kind of block that settings consist of, by name, for tools that inspect one
block without the document around it.

- `Block.default`: a block as it is when nothing is given.
- `Block.inspect?`: a block that was read, in full, and what is wrong with it.
- `Block.catalog`: all of them, and the choices between names that they contain.
-/

namespace MotionControl

open Document

/-- A kind of block. -/
structure Block where
  name : String
  /-- The defaults of a block, which may depend on a name. -/
  default : String → Value
  /-- A block with its defaults filled in, and what is wrong with it. -/
  inspect? : Surplus → Value → Option (Value × Option String)

namespace Block

/-- The problem of a check that failed. -/
def complaint? {ε : Type} (text : ε → String) : Except ε Unit → Option String
  | .ok () => none
  | .error e => some (text e)

section

variable {β : Type} [Readable β] [Showable β]

/-- A kind of block with defaults and something that may be wrong with it. -/
def of (name : String) (default : String → β) (wrong? : β → Option String) : Block where
  name
  default given := shown (default given)
  inspect? surplus v := (read? surplus v).map fun (b : β) => (shown b, wrong? b)

/-- A block without a path of its own. -/
def plain (name : String) (default : β) (check : β → Except (Problem Float) Unit) : Block :=
  of name (fun _ => default) fun b => complaint? Problem.text (check b)

/-- A block that knows its place in the document. -/
def placed (name : String) (default : String → β) (check : β → Except (SettingsError Float) Unit) :
    Block :=
  of name default fun b => complaint? SettingsError.message (check b)

/-- A choice between names, inspected as the only field of a block, with a remark. -/
def choice (name : String) (default : β) (remark? : β → Option String) : Block where
  name
  default _ := .table [("v", shown default)]
  inspect? surplus v := (Record.ofValue? (Record.required "v") surplus v).map fun (b : β) =>
    (.table [("v", shown b)], remark? b)

end

/-- The blocks of settings, the data that they are about, and the choices in them. -/
def catalog : List Block := [
  plain "pid" PidGains.default PidGains.check,
  plain "pose_straight" StraightMoveSettings.default StraightMoveSettings.check,
  plain "speed_ramp" RampSettings.default RampSettings.check,
  plain "blocking" StallSettings.default StallSettings.check,
  plain "pose_reached" ArrivalSettings.default ArrivalSettings.check,
  plain "timeout" TimeoutSettings.default TimeoutSettings.check,
  plain "drive" DriveSettings.default DriveSettings.check,
  placed "shared" (fun _ => SharedSettings.default) SharedSettings.check,
  placed "platform" (fun _ => PlatformSettings.default) PlatformSettings.check,
  placed "motor" MotorSettings.named MotorSettings.check,
  placed "pilot" (fun _ => SystemSettings.default) SystemSettings.check,
  of "pose" (fun _ => (Pose.origin : Pose Float)) fun _ => none,
  of "polar" (fun _ => (Polar.zero : Polar Float)) fun _ => none,
  of "path_pose" (fun _ => (PathPose.final .origin : PathPose Float)) fun _ => none,
  choice "mode" Mode.stop fun _ => none,
  choice "status" MoveStatus.moving fun _ => none,
  choice "policy" ArrivalPolicy.simultaneous fun _ => none,
  choice "log_level" LogLevel.info fun level => some level.name]

end Block

end MotionControl
