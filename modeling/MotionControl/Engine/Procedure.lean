import MotionControl.Engine.Requests
import MotionControl.InPlace

/-!
# Requests in place

Whoever shares an engine with others asks it for one thing after another, and each request changes
the engine in place: a refusal leaves whatever the statements before it made of the engine.

- `ModeMachine.feed`: one event.
- `Node.amend`: another parameter block for a leaf, somewhere in a tree.
- `Procedure`: a change of an engine.
- `Procedure.handle`, `Procedure.requestMode` and so on: one for each request.
- `Procedure.carryOut`: all of them.
-/

namespace MotionControl

/-! ## Modes -/

namespace ModeMachine

/-- One event.  The mode that a stall traps is noted before the machine moves. -/
def feed (event : ModeEvent) : InPlace Refusal ModeMachine Transition := do
  let machine ← get
  match machine.next? event with
  | none => throw (refusal machine.mode event)
  | some target =>
    if event = .blocked then
      modify fun m => { m with resume := m.mode }
    modify fun m => { m with mode := target }
    return ⟨machine.mode, target⟩

end ModeMachine

/-! ## Trees -/

namespace Node

variable {α β : Type}

mutual

/-- What a change of the first node of this name comes to, and the tree that it leaves; nothing
if there is no such node. -/
def visit? (name : String) (change : Node α → β × Node α) : Node α → Option (β × Node α)
  | leaf own law inputs outputs =>
    if own = name then some (change (leaf own law inputs outputs)) else none
  | sequential own stages =>
    if own = name then some (change (sequential own stages))
    else (visitStage? name change stages).map (·.map id (sequential own))
  | parallel own inputs outputs branches =>
    if own = name then some (change (parallel own inputs outputs branches))
    else (visitBranch? name change branches).map (·.map id (parallel own inputs outputs))

/-- The same among stages. -/
def visitStage? (name : String) (change : Node α → β × Node α) :
    List (Node α) → Option (β × List (Node α))
  | [] => none
  | stage :: rest =>
    match visit? name change stage with
    | some visited => some (visited.map id (· :: rest))
    | none => (visitStage? name change rest).map (·.map id (stage :: ·))

/-- The same among branches. -/
def visitBranch? (name : String) (change : Node α → β × Node α) :
    List (Wired (Node α)) → Option (β × List (Wired (Node α)))
  | [] => none
  | ⟨inputMap, outputMap, node⟩ :: rest =>
    match visit? name change node with
    | some visited => some (visited.map id (⟨inputMap, outputMap, ·⟩ :: rest))
    | none =>
      (visitBranch? name change rest).map (·.map id (⟨inputMap, outputMap, node⟩ :: ·))

end

variable [Scalar α]

/-- A leaf takes another parameter block, which is checked before the law is asked for it. -/
def take (settings : LawSettings α) : InPlace (ParameterError α) (Node α) Unit := do
  match ← get with
  | leaf name law inputs outputs =>
    (settings.check.mapError (.invalid name) : Except (ParameterError α) Unit)
    match law.install settings with
    | some law => set (leaf name law inputs outputs)
    | none =>
      if law.isParameterized then throw (.wrongKind name law.kind settings.kind)
      else throw (.notParameterized name)
  | n => throw (.notParameterized n.name)

/-- The leaf of this name takes another parameter block, wherever in the tree it is. -/
def amend (name : String) (settings : LawSettings α) : InPlace (ParameterError α) (Node α) Unit :=
  fun tree =>
    (tree.visit? name (take settings).run).getD (.error (.unknownController name), tree)

end Node

/-! ## Engines -/

/-- A change of an engine. -/
abbrev Procedure (α σ β : Type) := InPlace (EngineError α) (Engine α σ) β

namespace Procedure

variable {α σ : Type} [Scalar α]

/-- One mode event. -/
def handle (event : ModeEvent) : Procedure α σ Transition := do
  let mode := (← get).mode
  let transition ← ((ModeMachine.feed event).within Engine.machine fun machine e =>
    { e with machine }).reporting (.rejected mode event)
  if transition.changed then
    modify (·.enter transition.target)
  if event = .recover then
    modify Engine.beginCommand
  return transition

/-- One mode event, its transition left out. -/
def accept (event : ModeEvent) : Procedure α σ Unit := do
  let _ ← handle event

/-- A command to go to a mode. -/
def requestMode (mode : Mode) : Procedure α σ Unit := do
  let current := (← get).mode
  if mode = .idle ∧ current = .stop then
    accept .enable
  else
    accept (.toward mode)
    if mode.isRegulating then
      modify Engine.beginCommand

/-- A pose to reach, at the speed that goes with it. -/
def setPoseTarget (target : PathPose α) : Procedure α σ Unit := do
  accept .poseTarget
  modify fun e => { e with state := { e.state with target } }
  modify fun e => { e with state := { e.state with order := e.parameters.speedFor target } }
  modify Engine.beginCommand

/-- A speed to keep, without a pose to reach. -/
def setSpeedTarget (order : Polar α) : Procedure α σ Unit := do
  accept .speedTarget
  modify (·.setSpeedOrder order)
  modify Engine.beginCommand

/-- Orders that go to the actuators without regulation. -/
def setPassthrough (order : Polar α) : Procedure α σ Unit := do
  accept .passthrough
  modify (·.setSpeedOrder order)
  modify Engine.beginCommand

/-- Another parameter block for a leaf of the tree. -/
def setParameters (leaf : String) (settings : LawSettings α) : Procedure α σ Unit :=
  ((Node.amend leaf settings).within Engine.tree fun tree e => { e with tree }).reporting
    .parameters

/-- Other settings for the stall detection; switching it off clears its count. -/
def setStallSettings (settings : StallSettings α) : Procedure α σ Unit := do
  Engine.checked "blocking" settings.check
  modify fun e => { e with stall := e.stall.withSettings settings }
  if !settings.enabled then
    modify fun e => { e with stall := e.stall.reset }
    modify fun e => { e with state := { e.state with stalledCycles := 0 } }

/-- Other settings for telling whether a target is reached. -/
def setArrivalSettings (settings : ArrivalSettings α) : Procedure α σ Unit := do
  Engine.checked "pose_reached" settings.check
  modify fun e => { e with arrival := e.arrival.withSettings settings }

/-- Other settings for giving a target up. -/
def setTimeoutSettings (settings : TimeoutSettings) : Procedure α σ Unit := do
  (Engine.checked "timeout" settings.check : Except (EngineError α) Unit)
  modify fun e => { e with parameters := { e.parameters with timeout := settings } }

/-- A request, carried out in place. -/
def carryOut : Request α → Procedure α σ Unit
  | .handle event => accept event
  | .requestMode mode => requestMode mode
  | .enable => accept .enable
  | .disable => try accept .disable catch _ => pure ()
  | .dropCommand => accept .release
  | .recover => accept .recover
  | .setPoseTarget target => setPoseTarget target
  | .setSpeedTarget order => setSpeedTarget order
  | .setPassthrough order => setPassthrough order
  | .setSpeedOrder order => modify (·.setSpeedOrder order)
  | .setPose pose => modify (·.setPose pose)
  | .setPathFollow enabled => modify (·.setPathFollow enabled)
  | .setParameters leaf settings => setParameters leaf settings
  | .setStallSettings settings => setStallSettings settings
  | .setArrivalSettings settings => setArrivalSettings settings
  | .setTimeoutSettings settings => setTimeoutSettings settings

end Procedure

end MotionControl
