import MotionControl.Document.Record
import MotionControl.Geometry.PathPose
import MotionControl.Mode
import MotionControl.Scalar
import MotionControl.Settings.System

/-!
# Settings in documents

The field names of every block, in document order.  Reading fills in the defaults
of fields that are left out; the fields of `DriveSettings` without a sensible
default, the name of a motor and the name of a service have to be given.
-/

namespace MotionControl

open Document Record

/-! ## Choices between names -/

instance : Readable Mode := ⟨readName? Mode.ofName?⟩
instance : Showable Mode := ⟨fun m => .text m.name⟩

instance : Readable MoveStatus := ⟨readName? MoveStatus.ofName?⟩
instance : Showable MoveStatus := ⟨fun s => .text s.name⟩

instance : Readable LogLevel := ⟨readName? LogLevel.ofName?⟩
instance : Showable LogLevel := ⟨fun l => .text l.name⟩

instance : Readable ArrivalPolicy := ⟨readName? ArrivalPolicy.ofName?⟩
instance : Showable ArrivalPolicy := ⟨fun p => .text p.name⟩

/-! ## Geometry -/

/-- A pose that is read has its orientation wrapped like any other.  How its numbers are read is
left to them. -/
instance {α : Type} [Scalar α] [Readable α] : Readable (Pose α) where
  read? := Record.ofValue? do
    return .of (← optional "x" 0) (← optional "y" 0) (← optional "orientation" 0)

instance : Showable (Pose Float) where
  shown p := .table [("x", shown p.x), ("y", shown p.y), ("orientation", shown p.orientation)]

/-- A polar vector is read as it stands, the angle unwrapped. -/
instance : Readable (Polar Float) where
  read? := Record.ofValue? do
    return ⟨← optional "distance" 0, ← optional "angle" 0⟩

instance : Showable (Polar Float) where
  shown v := .table [("distance", shown v.distance), ("angle", shown v.angle)]

/-- Speed ratios are read as they stand; they are clamped where they are used. -/
instance : Readable (PathPose Float) where
  read? := Record.ofValue? do
    return {
      pose := ← required "pose"
      allowReverse := ← optional "allow_reverse" false
      linearRatio := ← optional "max_speed_ratio_linear" 1
      angularRatio := ← optional "max_speed_ratio_angular" 1
      intermediate := ← optional "intermediate" false }

instance : Showable (PathPose Float) where
  shown p := .table [
    ("pose", shown p.pose),
    ("allow_reverse", shown p.allowReverse),
    ("max_speed_ratio_linear", shown p.linearRatio),
    ("max_speed_ratio_angular", shown p.angularRatio),
    ("intermediate", shown p.intermediate)]

/-! ## Controllers -/

instance : Readable (PidGains Float) where
  read? := Record.ofValue? do
    return {
      proportional := ← optional "kp" 0
      integral := ← optional "ki" 0
      derivative := ← optional "kd" 0
      integralLimit := ← optional "integral_limit" Scalar.greatest }

instance : Showable (PidGains Float) where
  shown g := .table [
    ("kp", shown g.proportional),
    ("ki", shown g.integral),
    ("kd", shown g.derivative),
    ("integral_limit", shown g.integralLimit)]

instance : Readable (StraightMoveSettings Float) where
  read? := Record.ofValue? do
    let d : StraightMoveSettings Float := .default
    return {
      angularThreshold := ← optional "angular_threshold" d.angularThreshold
      linearThreshold := ← optional "linear_threshold" d.linearThreshold
      bypassFinalOrientation := ← optional "bypass_final_orientation" d.bypassFinalOrientation }

instance : Showable (StraightMoveSettings Float) where
  shown s := .table [
    ("angular_threshold", shown s.angularThreshold),
    ("linear_threshold", shown s.linearThreshold),
    ("bypass_final_orientation", shown s.bypassFinalOrientation)]

instance : Readable (RampSettings Float) where
  read? := Record.ofValue? do
    let d : RampSettings Float := .default
    return {
      minSpeed := ← optional "min_speed" d.minSpeed
      maxSpeed := ← optional "max_speed" d.maxSpeed
      maxAcceleration := ← optional "max_acceleration" d.maxAcceleration }

instance : Showable (RampSettings Float) where
  shown s := .table [
    ("min_speed", shown s.minSpeed),
    ("max_speed", shown s.maxSpeed),
    ("max_acceleration", shown s.maxAcceleration)]

/-! ## Supervision -/

instance : Readable (StallSettings Float) where
  read? := Record.ofValue? do
    let d : StallSettings Float := .default
    return {
      enabled := ← optional "anti_blocking_on" d.enabled
      speedThreshold := ← optional "speed_threshold" d.speedThreshold
      errorThreshold := ← optional "speed_error_threshold" d.errorThreshold
      cyclesMax := ← optional "cycles_max" d.cyclesMax }

instance : Showable (StallSettings Float) where
  shown s := .table [
    ("anti_blocking_on", shown s.enabled),
    ("speed_threshold", shown s.speedThreshold),
    ("speed_error_threshold", shown s.errorThreshold),
    ("cycles_max", shown s.cyclesMax)]

instance : Readable (ArrivalSettings Float) where
  read? := Record.ofValue? do
    let d : ArrivalSettings Float := .default
    return {
      linearThreshold := ← optional "linear_threshold" d.linearThreshold
      angularThreshold := ← optional "angular_threshold" d.angularThreshold
      policy := ← optional "policy" d.policy }

instance : Showable (ArrivalSettings Float) where
  shown s := .table [
    ("linear_threshold", shown s.linearThreshold),
    ("angular_threshold", shown s.angularThreshold),
    ("policy", shown s.policy)]

instance : Readable TimeoutSettings where
  read? := Record.ofValue? do
    let d : TimeoutSettings := .default
    return {
      enabled := ← optional "enabled" d.enabled
      cycles := ← optional "timeout_cycle_number" d.cycles }

instance : Showable TimeoutSettings where
  shown s := .table [
    ("enabled", shown s.enabled),
    ("timeout_cycle_number", shown s.cycles)]

/-! ## Drive -/

/-- The geometry has to be given; the rest has defaults. -/
instance : Readable (DriveSettings Float) where
  read? := Record.ofValue? do
    let d : DriveSettings Float := .default
    return {
      trackWidth := ← required "track_width_mm"
      leftDiameter := ← required "left_wheel_diameter_mm"
      rightDiameter := ← required "right_wheel_diameter_mm"
      leftConstant := ← optional "left_motor_constant" d.leftConstant
      rightConstant := ← optional "right_motor_constant" d.rightConstant
      minDuty := ← optional "min_duty_percent" d.minDuty
      maxDuty := ← optional "max_duty_percent" d.maxDuty }

instance : Showable (DriveSettings Float) where
  shown s := .table [
    ("track_width_mm", shown s.trackWidth),
    ("left_wheel_diameter_mm", shown s.leftDiameter),
    ("right_wheel_diameter_mm", shown s.rightDiameter),
    ("left_motor_constant", shown s.leftConstant),
    ("right_motor_constant", shown s.rightConstant),
    ("min_duty_percent", shown s.minDuty),
    ("max_duty_percent", shown s.maxDuty)]

/-! ## Engines -/

instance : Readable (PlatformSettings Float) where
  read? := Record.ofValue? do
    let d : PlatformSettings Float := .default
    return {
      maxLinearSpeed := ← optional "max_linear_speed" d.maxLinearSpeed
      maxAngularSpeed := ← optional "max_angular_speed" d.maxAngularSpeed
      pathFollow := ← optional "path_follow" d.pathFollow
      linearPosition := ← optional "linear_position_pid" d.linearPosition
      angularPosition := ← optional "angular_position_pid" d.angularPosition
      linearSpeed := ← optional "linear_speed_pid" d.linearSpeed
      angularSpeed := ← optional "angular_speed_pid" d.angularSpeed
      straightMove := ← optional "pose_straight" d.straightMove
      linearRamp := ← optional "linear_speed_filter" d.linearRamp
      angularRamp := ← optional "angular_speed_filter" d.angularRamp
      stall := ← optional "blocking" d.stall
      arrival := ← optional "pose_reached" d.arrival
      timeout := ← optional "timeout" d.timeout
      drive := ← optional "drive" d.drive }

instance : Showable (PlatformSettings Float) where
  shown s := .table [
    ("max_linear_speed", shown s.maxLinearSpeed),
    ("max_angular_speed", shown s.maxAngularSpeed),
    ("path_follow", shown s.pathFollow),
    ("linear_position_pid", shown s.linearPosition),
    ("angular_position_pid", shown s.angularPosition),
    ("linear_speed_pid", shown s.linearSpeed),
    ("angular_speed_pid", shown s.angularSpeed),
    ("pose_straight", shown s.straightMove),
    ("linear_speed_filter", shown s.linearRamp),
    ("angular_speed_filter", shown s.angularRamp),
    ("blocking", shown s.stall),
    ("pose_reached", shown s.arrival),
    ("timeout", shown s.timeout),
    ("drive", shown s.drive)]

instance : Readable (MotorSettings Float) where
  read? := Record.ofValue? do
    let name ← required "name"
    let d : MotorSettings Float := .named name
    return {
      name
      maxSpeed := ← optional "max_speed" d.maxSpeed
      positionThreshold := ← optional "position_threshold" d.positionThreshold
      position := ← optional "position_pid" d.position
      speed := ← optional "speed_pid" d.speed
      ramp := ← optional "speed_filter" d.ramp
      stall := ← optional "blocking" d.stall
      timeout := ← optional "timeout" d.timeout }

instance : Showable (MotorSettings Float) where
  shown s := .table [
    ("name", shown s.name),
    ("max_speed", shown s.maxSpeed),
    ("position_threshold", shown s.positionThreshold),
    ("position_pid", shown s.position),
    ("speed_pid", shown s.speed),
    ("speed_filter", shown s.ramp),
    ("blocking", shown s.stall),
    ("timeout", shown s.timeout)]

/-! ## The process -/

instance : Readable SharedSettings where
  read? := Record.ofValue? do
    return {
      logLevel := ← optional "log_level" SharedSettings.default.logLevel
      serviceName := ← required "service_name" }

instance : Showable SharedSettings where
  shown s := .table [("log_level", shown s.logLevel), ("service_name", shown s.serviceName)]

instance : Readable (SystemSettings Float) where
  read? := Record.ofValue? do
    let d : SystemSettings Float := .default
    return {
      shared := ← optional "shared" d.shared
      cycleTime := ← optional "cycle_time_us" d.cycleTime
      telemetryInterval := ← optional "telemetry_interval" d.telemetryInterval
      platform := ← optional "platform" d.platform
      motors := ← optional "motors" d.motors }

instance : Showable (SystemSettings Float) where
  shown s := .table [
    ("shared", shown s.shared),
    ("cycle_time_us", shown s.cycleTime),
    ("telemetry_interval", shown s.telemetryInterval),
    ("platform", shown s.platform),
    ("motors", shown s.motors)]

end MotionControl
