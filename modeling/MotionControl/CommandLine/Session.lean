import MotionControl.CommandLine.Arguments
import MotionControl.CommandLine.Log
import MotionControl.Engine.Build
import MotionControl.Settings.Load
import MotionControl.Simulation.Base
import MotionControl.Simulation.Waypoints
import MotionControl.Task
import MotionControl.Telemetry.Publisher
import MotionControl.Telemetry.Lines

/-!
# A demonstration run

A vehicle engine drives a simulated vehicle round a square of half a metre, until
the path is complete, the vehicle is blocked, or enough cycles have run.

- `Session.start`: settings, simulation and engine; `Session.startAmong`: the same among
  given files.
- `Session.advance`: one cycle, as long as the run goes on.
- `Session.finish`: what is left at the end, as a `Report`.
-/

namespace MotionControl

/-- What a run leaves behind. -/
structure Report where
  exitCode : UInt32
  lines : List LogLine
  /-- The snapshots of the telemetry file, if one was begun. -/
  telemetry : Option (List (Snapshot Float))
  deriving Repr

/-- The text of the telemetry file, a line for each snapshot. -/
def Report.telemetryText (r : Report) : Option String :=
  r.telemetry.map fun snapshots =>
    snapshots.foldl (fun text s => (LineWriter.buffer.publish s text).2) ""

/-- The simulated vehicle and the path that it is to take. -/
structure Floor where
  base : SimulatedBase Float
  waypoints : WaypointQueue Float

namespace Floor

/-- The simulated vehicle measures itself. -/
def odometer : Odometer Float Floor where
  sample floor :=
    let (odometry, base) := floor.base.advance
    (odometry, { floor with base })
  reseat pose floor := { floor with base := floor.base.reseat pose }

/-- Commands go to the simulated vehicle. -/
def actuators : Actuators Float Floor where
  apply commands floor := { floor with base := floor.base.apply commands }
  release floor := { floor with base := floor.base.release }

/-- The path of the session. -/
def targets : TargetSource Float Floor :=
  WaypointQueue.source Floor.waypoints fun waypoints floor => { floor with waypoints }

/-- A square with sides of half a metre, back to where it began. -/
def square : List (Pose Float) :=
  [.of 500 0 90, .of 500 500 180, .of 0 500 (-90), .of 0 0 0]

end Floor

/-- A run that has begun. -/
structure Session where
  options : Options
  level : LogLevel
  task : TaskSettings
  stats : CycleStats
  engine : Engine Float Floor
  /-- A cycle was given up. -/
  interrupted : Bool
  /-- Collects what belongs into the telemetry file, if there is one. -/
  telemetry : Option (Publisher Float (Journal Float))
  lines : List LogLine

namespace Session

/-- The version of the program. -/
def version : String := "0.1.0"

/-- A message that says what goes on. -/
def info (message : String) : LogLine := ⟨.info, message⟩

/-- The end of a run that failed. -/
def failure (message : String) : LogLine := ⟨.error, "FATAL: " ++ message⟩

/-- The lines that the level shows. -/
def shown (level : LogLevel) (lines : List LogLine) : List LogLine :=
  lines.filter fun line => level.shows line.level

/-- The level of a run. -/
def levelOf (options : Options) (configured : LogLevel) : LogLevel :=
  if options.verbose then .debug else configured

/-- The first line of a run. -/
def greeting : LogLine := info ("Pilot v" ++ version ++ " starting...")

/-- What is said of settings that passed their check. -/
def settingsLine (s : SystemSettings Float) : LogLine :=
  info ("Config OK: service=" ++ s.shared.serviceName ++ ", cycle_time="
    ++ toString s.cycleTime ++ "µs, motors=" ++ toString s.motors.length)

/-- The report of a run that fails before its first cycle. -/
def failed (level : LogLevel) (lines : List LogLine) (message : String) : Report :=
  ⟨1, shown level (lines ++ [failure message]), none⟩

/-- The settings of a run: built-in ones, or those at the source of its file. -/
def settings : Option Source → Except LoadError (SystemSettings Float)
  | none => .ok .default
  | some source => SystemSettings.load source

/-- A vehicle engine on the demonstration floor, switched on. -/
def buildEngine (s : SystemSettings Float) : Except (EngineError Float) (Engine Float Floor) := do
  let floor : Floor := ⟨.fresh s.platform.drive s.period, .ofPath Floor.square⟩
  let attachments := { Attachments.none with
    telemetry := some .empty
    telemetryInterval := s.telemetryInterval }
  let e ← Engine.ofPlatform s.platform s.period Floor.odometer Floor.actuators
    (some Floor.targets) attachments floor
  e.enable

/-- Begins a run.  `source` is what its settings file holds, and `writable` whether its
telemetry file can be created. -/
def start (options : Options) (source : Option Source) (writable : Except PathError Unit) :
    Report ⊕ Session :=
  match settings source with
  | .error e => .inl (failed (levelOf options SharedSettings.default.logLevel) [greeting] e.message)
  | .ok s =>
    let level := levelOf options s.shared.logLevel
    let lines := [greeting, settingsLine s]
    match writable with
    | .error e => .inl (failed level lines e.message)
    | .ok () =>
      match buildEngine s with
      | .error e => .inl (failed level lines e.message)
      | .ok engine => .inr {
          options
          level
          task := { TaskSettings.ofSystem s with
            core := options.core
            priority := options.priority
            maxCycles := options.cycles }
          stats := .empty
          engine
          interrupted := false
          telemetry := options.telemetry.map fun _ => .fresh Journal.keeping .empty
          lines }

/-- Begins a run among given files. -/
def startAmong (files : Files) (options : Options) : Report ⊕ Session :=
  start options (options.config.map files.read)
    ((options.telemetry.map files.checkWritable).getD (.ok ()))

/-- All waypoints were left behind and the last one is reached. -/
def pathComplete (s : Session) : Bool :=
  s.engine.world.waypoints.isEmpty && decide (s.engine.state.status = .reached)

/-- The vehicle was stopped by a stall. -/
def blocked (s : Session) : Bool := decide (s.engine.mode = .blocked)

/-- Whether another cycle runs. -/
def goesOn (s : Session) : Bool :=
  Task.goesOn s.task s.stats (s.interrupted || s.pathComplete || s.blocked)

/-- Hands the queued telemetry to the file. -/
def drain (s : Session) : Session :=
  match s.telemetry, s.engine.telemetry with
  | some publisher, some queue =>
    let drained := publisher.drain queue
    { s with
      telemetry := some drained.publisher
      engine := { s.engine with telemetry := some drained.queue } }
  | _, _ => s

/-- One more cycle, which takes so many nanoseconds; nothing once the run is over.  A cycle
that is given up is the last one. -/
def advance (s : Session) (duration : Int) : Option Session :=
  if s.goesOn then
    match s.engine.step with
    | .ok engine =>
      some { s with engine, stats := Task.account s.task s.stats duration }.drain
    | .error i => some { s with engine := i.engine, interrupted := true }.drain
  else none

/-- The last lines of a run that was not given up. -/
def summary (stats : CycleStats) : Except Fault (List LogLine) := do
  let average ← stats.average
  .ok [
    info ("Cycles: " ++ toString stats.count ++ " (avg " ++ toString average
      ++ " ns, max " ++ toString stats.longest ++ " ns, overruns "
      ++ toString stats.overruns ++ ")"),
    info "Pilot shutdown complete"]

/-- The lines at the end of a run. -/
def closing (s : Session) : Except Fault (List LogLine) := do
  let pose := s.engine.world.base.pose
  let outcome :=
    if s.pathComplete then
      [info ("Path complete after " ++ toString s.engine.state.cycle ++ " cycles")]
    else if s.blocked then [⟨.warn, "Platform blocked, stopping"⟩]
    else []
  let last ← if s.interrupted then .ok [failure Task.interruptedMessage] else summary s.stats
  .ok (outcome
    ++ [info ("Final pose: x=" ++ fixedPlaces 1 pose.x ++ " y=" ++ fixedPlaces 1 pose.y
        ++ " orientation=" ++ fixedPlaces 1 pose.orientation)]
    ++ last)

/-- Ends a run: the motors are let go and the rest of the telemetry is written. -/
def finish (s : Session) : Except Fault Report := do
  let s := { s with engine := s.engine.disable }.drain
  .ok {
    exitCode := if s.interrupted then 1 else 0
    lines := shown s.level (s.lines ++ (← s.closing))
    telemetry := s.telemetry.map (·.state.taken) }

end Session

end MotionControl
