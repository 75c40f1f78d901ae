import MotionControl.Settings.Engines

/-!
# Settings of a whole process

- `Text.isBlank`: text without a visible character.
- `SharedSettings`: the name of the service and how much it logs.
- `SystemSettings`: the cycle period, the platform and the motors.
- `SystemSettings.check`: every block is checked, in document order.
- `SystemSettings.motor?`: the settings of the motor with a given name.
-/

namespace MotionControl

open Scalar

/-- How much is logged. -/
inductive LogLevel where
  | trace
  | debug
  | info
  | warn
  | error
  deriving Repr, DecidableEq

namespace LogLevel

/-- All levels, the most talkative first. -/
def all : List LogLevel := [.trace, .debug, .info, .warn, .error]

/-- The name of a level, in documents and as a filter. -/
def name : LogLevel → String
  | trace => "trace"
  | debug => "debug"
  | info => "info"
  | warn => "warn"
  | error => "error"

/-- The level of a name, if it is the name of one. -/
def ofName? (name : String) : Option LogLevel := all.find? (·.name = name)

/-- Levels from the most talkative to the least. -/
def rank : LogLevel → Nat
  | trace => 0
  | debug => 1
  | info => 2
  | warn => 3
  | error => 4

/-- A line is shown when it is at least as severe as the configured level. -/
def shows (configured line : LogLevel) : Bool := configured.rank ≤ line.rank

end LogLevel

namespace Text

/-- The ranges of code points with the White_Space property. -/
def blankRanges : List (Nat × Nat) :=
  [(0x09, 0x0d), (0x20, 0x20), (0x85, 0x85), (0xa0, 0xa0), (0x1680, 0x1680),
   (0x2000, 0x200a), (0x2028, 0x2029), (0x202f, 0x202f), (0x205f, 0x205f), (0x3000, 0x3000)]

/-- A character that Unicode calls white space. -/
def isBlankChar (c : Char) : Bool :=
  blankRanges.any fun (low, high) => low ≤ c.toNat && c.toNat ≤ high

/-- No visible character at all. -/
def isBlank (s : String) : Bool := s.toList.all isBlankChar

end Text

/-- What all engines of a process have in common. -/
structure SharedSettings where
  logLevel : LogLevel
  serviceName : String
  deriving Repr, DecidableEq

namespace SharedSettings

/-- The shared settings when none are given. -/
def default : SharedSettings := ⟨.info, "pilot"⟩

/-- The service has a name that can be seen. -/
def check {α : Type} (s : SharedSettings) : Except (SettingsError α) Unit :=
  inSection ["shared"] (require (!Text.isBlank s.serviceName) (.emptyText "service_name"))

end SharedSettings

/-- The shortest and the longest accepted cycle, in microseconds. -/
def cycleTimeRange : UInt32 × UInt32 := (100, 1000000)

/-- The cycle when none is configured, in microseconds. -/
def defaultCycleTime : UInt32 := 20000

/-- The most motors that one process runs. -/
def maxMotors : Nat := 8

/-- The settings of a process. -/
structure SystemSettings (α : Type) where
  shared : SharedSettings
  /-- The control period in microseconds. -/
  cycleTime : UInt32
  /-- A snapshot is published every so many cycles; zero means never. -/
  telemetryInterval : UInt32
  platform : PlatformSettings α
  motors : List (MotorSettings α)
  deriving Repr, BEq

namespace SystemSettings

variable {α : Type} [Scalar α]

/-- The system when nothing is given: a vehicle and no motors. -/
def default : SystemSettings α where
  shared := .default
  cycleTime := defaultCycleTime
  telemetryInterval := 50
  platform := .default
  motors := []

/-- The control period in seconds. -/
def period (s : SystemSettings α) : α := ofNat s.cycleTime.toNat * millionth

/-- Checks motors in order; a name that an earlier motor has is a problem of the
later one. -/
def checkMotors (seen : List String) : List (MotorSettings α) → Except (SettingsError α) Unit
  | [] => .ok ()
  | m :: rest => do
    inSection ["motors"] (require (!seen.contains m.name) (.duplicateMotor m.name))
    m.check
    checkMotors (m.name :: seen) rest

/-- The checks of all parts, and that no two motors share a name. -/
def check (s : SystemSettings α) : Except (SettingsError α) Unit := do
  s.shared.check
  inSection ["cycle_time_us"]
    (require (cycleTimeRange.1 ≤ s.cycleTime && s.cycleTime ≤ cycleTimeRange.2)
      (.cycleTimeOutside s.cycleTime cycleTimeRange.1 cycleTimeRange.2))
  s.platform.check
  inSection ["motors"]
    (require (s.motors.length ≤ maxMotors) (.tooManyMotors s.motors.length maxMotors))
  checkMotors [] s.motors

/-- The settings of the motor called `name`. -/
def motor? (s : SystemSettings α) (name : String) : Except (SettingsError α) (MotorSettings α) :=
  match s.motors.find? (·.name = name) with
  | some m => .ok m
  | none => .error ⟨["motors"], .unknownMotor name⟩

end SystemSettings

end MotionControl
