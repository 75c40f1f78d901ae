import MotionControl.CommandLine.Session

/-!
# The program

Reads the command line and the settings file, runs a session at its own pace, and
writes the log and the telemetry file.
-/

namespace MotionControl

namespace Program

/-- The answer to a call for help. -/
def usage : String :=
  "Periodic motion-control engine driven on a simulated base

Usage: pilot [OPTIONS] [CONFIG]

Arguments:
  [CONFIG]  Path to the pilot configuration TOML. Built-in defaults when absent

Options:
      --cycles <CYCLES>            Stop after this many cycles
      --cpu-core <CPU_CORE>        CPU core to pin the cycle thread to (enables RT setup)
      --rt-priority <RT_PRIORITY>  SCHED_FIFO priority used with --cpu-core [default: 80]
      --telemetry <FILE>           Write telemetry snapshots as JSON lines to this file instead of the log
  -v, --verbose                    Enable verbose logging (DEBUG level)
      --json                       Output logs in JSON format
  -h, --help                       Print help
  -V, --version                    Print version"

/-- Why a path could not be opened. -/
def pathError : IO.Error → PathError
  | .noFileOrDirectory _ code text => .ofCode code text
  | .inappropriateType _ code text => .ofCode code text
  | .permissionDenied _ code text => .ofCode code text
  | .invalidArgument _ code text => .ofCode code text
  | .resourceExhausted _ code text => .ofCode code text
  | .noSuchThing _ code text => .ofCode code text
  | .otherError code text => .ofCode code text
  | e => .other (toString e)

/-- What stands at the place of a file. -/
def sourceAt (path : String) : IO Source := do
  try
    let file ← IO.FS.Handle.mk path .read
    return .ok (← file.readBinToEnd)
  catch e => return .error (pathError e)

/-- Creates an empty file, or says why that is impossible. -/
def createFile (path : String) : IO (Except PathError Unit) := do
  try
    IO.FS.writeFile path ""
    return .ok ()
  catch e => return .error (pathError e)

/-- Runs cycles, one in each period, until the session is over. -/
partial def drive (s : Session) (previous : Nat) : IO Session := do
  let begun ← IO.monoNanosNow
  match s.advance previous with
  | none => return s
  | some next =>
    let spent := (← IO.monoNanosNow) - begun
    IO.sleep (UInt32.ofNat ((s.task.budget.toNat - spent) / 1000000))
    drive next spent

/-- Carries out a run. -/
def run (options : Options) : IO UInt32 := do
  let source ← options.config.mapM sourceAt
  let valid := (Session.settings source).toOption.isSome
  let writable ← match options.telemetry with
    | some path => if valid then createFile path else pure (.ok ())
    | none => pure (.ok ())
  let report ← match Session.start options source writable with
    | .inl report => pure report
    | .inr session => do
      let session ← drive session 0
      match session.finish with
      | .ok report => pure report
      | .error _ => throw (IO.userError "the statistics of the run have no average")
  for line in report.lines do
    IO.println (line.render options.json)
  if let (some path, some text) := (options.telemetry, report.telemetryText) then
    IO.FS.writeFile path text
  return report.exitCode

end Program

end MotionControl

open MotionControl in
/-- The program. -/
def main (arguments : List String) : IO UInt32 := do
  match Invocation.ofArguments arguments with
  | .run options => Program.run options
  | .help =>
    IO.println Program.usage
    return 0
  | .version =>
    IO.println ("pilot " ++ Session.version)
    return 0
  | .misuse =>
    IO.eprintln "error: invalid arguments\n\nFor more information, try '--help'."
    return 2
