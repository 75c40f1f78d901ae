import MotionControl.Engine.Requests

/-!
# One cycle of an engine

The order of a cycle: load a waypoint, measure, call the first hook, control, call
the second hook, look for a stall, for arrival and for a timeout, and queue
telemetry.

- `Engine.step`: the whole cycle.
- `Engine.steps`, `Engine.trace`, `Engine.stepsUntil`: several cycles.
-/

namespace MotionControl

namespace Engine

variable {α σ : Type} [Scalar α]

/-- The next cycle begins. -/
def tick (e : Engine α σ) : Engine α σ :=
  { e with state := { e.state with cycle := e.state.cycle + 1 } }

/-! ## Waypoints -/

/-- The waypoint to load in this cycle, if any: the first one as soon as there is
one, a later one once the active target is reached and the source lets go of it. -/
def nextWaypoint (e : Engine α σ) : Option (PathPose α) × Engine α σ :=
  match e.plant.targets? with
  | none => (none, e)
  | some source =>
    if !e.pathLoaded then
      match source.current e.world with
      | none => (none, e)
      | some first => (some first, { e with pathLoaded := true })
    else if e.state.reached && source.mayAdvance e.world then
      let world := source.advance e.world
      let next := source.current world
      (next, { e with world, pathLoaded := next.isSome })
    else (none, e)

/-- Waypoints are loaded in the modes that a pose target is accepted in, a stall
apart. -/
def loadsWaypoints (mode : Mode) : Bool :=
  match mode with
  | .idle | .running | .runningSpeed => true
  | .stop | .blocked | .passthrough => false

/-- Loads a waypoint if there is one to load.  A waypoint that is refused is left
aside. -/
def followPath (e : Engine α σ) : Engine α σ :=
  if e.state.pathFollow && loadsWaypoints e.mode then
    match e.nextWaypoint with
    | (none, e) => e
    | (some target, e) =>
      match e.setPoseTarget target with
      | .ok e => e
      | .error _ => e
  else e

/-! ## Measurement and control -/

/-- Takes one measurement. -/
def sense (e : Engine α σ) : Engine α σ :=
  let (odometry, world) := e.plant.sample e.world
  { e with world, state := { e.state with pose := odometry.pose, speed := odometry.speed } }

/-- Calls the first hook, and shows the mode that the cycle runs in. -/
def beforeControl (e : Engine α σ) : Except (Interrupted α σ) (Engine α σ) :=
  match e.hooks.beforeControl e.state e.world with
  | (.error fault, world) => .error ⟨fault, { e with world }⟩
  | (.ok state, world) => .ok { e with world, state := { state with mode := e.mode } }

/-- Computes the tree, and shows in the state what it asks for. -/
def consultTree (e : Engine α σ) (speedMode : Bool) : Except Fault (Engine α σ) := do
  let (outputs, tree) ← e.tree.respond (e.plant.treeInputs e.state speedMode)
  let demand ← e.plant.demand outputs
  let state := { e.state with command := demand.command, filtered := demand.filtered }
  .ok { e with tree, state }

/-- Computes the tree and sends its command. -/
def regulate (e : Engine α σ) (speedMode : Bool) : Except (Interrupted α σ) (Engine α σ) := do
  drive (← (e.consultTree speedMode).mapError (⟨·, e⟩))

/-- Sends the order as it is. -/
def forward (e : Engine α σ) : Except (Interrupted α σ) (Engine α σ) :=
  drive { e with state := { e.state with command := e.state.order, filtered := e.state.order } }

/-- What the mode asks for. -/
def control (e : Engine α σ) : Except (Interrupted α σ) (Engine α σ) :=
  match e.mode with
  | .running => e.regulate false
  | .runningSpeed => e.regulate true
  | .passthrough => e.forward
  | .idle | .blocked => .ok e.hold
  | .stop => .ok { e with state := e.state.zeroCommand }

/-- Calls the second hook. -/
def afterControl (e : Engine α σ) : Engine α σ :=
  let (state, world) := e.hooks.afterControl e.state e.world
  { e with state, world }

/-! ## Supervision -/

/-- Feeds the stall detector.  When it trips, the engine is blocked; the state then
still shows how many cycles it took. -/
def checkStall (e : Engine α σ) : Engine α σ :=
  let (tripped, stall) := e.stall.update e.state.filtered.distance e.state.speed.distance
  let e := { e with stall, state := { e.state with stalledCycles := stall.cycles } }
  if tripped then
    match e.accept .blocked with
    | .ok blocked =>
      { blocked with
        state := { blocked.state with status := .blocked, stalledCycles := stall.cycles } }
    | .error _ => e
  else e

/-- Looks whether the target is reached, unless it was before. -/
def checkArrival (e : Engine α σ) : Engine α σ :=
  if e.state.reached then e
  else
    let (status, arrival) := e.arrival.judge e.state.pose e.state.target
    if status.isReached then
      let state := { e.state with
        status
        reached := true
        intermediate := decide (status = .intermediateReached) }
      { e with arrival, state, world := e.hooks.targetReached state e.world }
    else { e with arrival }

/-- Gives up a command that takes too long. -/
def checkTimeout (e : Engine α σ) : Engine α σ :=
  if !e.state.reached && e.parameters.timedOut e.state then
    let machine := e.machine.forceIdle
    let e := { e with machine }.enter machine.mode
    { e with state := { e.state with status := .timeout } }
  else e

/-- Arrival and timeout concern a pose target only. -/
def checkTarget (e : Engine α σ) : Engine α σ :=
  if e.mode = .running then e.checkArrival.checkTimeout else e

/-- Queues a snapshot in every cycle that the interval asks for. -/
def publish (e : Engine α σ) : Engine α σ :=
  let interval := e.parameters.telemetryInterval.toUInt64
  if interval = 0 ∨ e.state.cycle % interval ≠ 0 then e
  else { e with telemetry := e.telemetry.map fun q => (q.push (.capture e.state)).2 }

/-! ## Cycles -/

/-- One cycle. -/
def step (e : Engine α σ) : Except (Interrupted α σ) (Engine α σ) := do
  let e ← e.tick.followPath.sense.beforeControl
  let regulating := e.mode.isRegulating
  let e ← e.control
  let e := e.afterControl
  let e := if regulating then e.checkStall else e
  .ok e.checkTarget.publish

/-- A number of cycles. -/
def steps (e : Engine α σ) : Nat → Except (Interrupted α σ) (Engine α σ)
  | 0 => .ok e
  | n + 1 => do (← e.step).steps n

/-- The engines after each of a number of cycles. -/
def trace (e : Engine α σ) : Nat → Except (Interrupted α σ) (List (Engine α σ))
  | 0 => .ok []
  | n + 1 => do
    let e ← e.step
    .ok (e :: (← e.trace n))

/-- Cycles until a condition holds after one, at most `n`: how many were left then,
if it came to hold, and the engine after the last of them. -/
def stepsUntil (holds : Engine α σ → Bool) (e : Engine α σ) :
    Nat → Except (Interrupted α σ) (Option Nat × Engine α σ)
  | 0 => .ok (none, e)
  | n + 1 => do
    let e ← e.step
    if holds e then .ok (some n, e) else e.stepsUntil holds n

end Engine

end MotionControl
