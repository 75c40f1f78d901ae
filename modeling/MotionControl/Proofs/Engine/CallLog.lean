import MotionControl.Proofs.Engine.Operations

/-!
# Logging the calls to the actuators

A world can carry a second component that the surroundings of an engine leave alone.
Here it is the list of the calls that the actuators received, the latest one last.

- `ActuatorCall`, `Actuators.logged`: actuators that also write down their calls.
- `Plant.beside`, `Hooks.beside`: measurements and hooks that leave the list alone.
- `Engine.Logging`: the surroundings of an engine append its calls and nothing else.
- `Engine.BuiltLogging`: an engine fresh from its builder, before any call.
- `Engine.BuiltLogging.logging`: such an engine is logging.
-/

namespace MotionControl

variable {α σ γ : Type}

/-! ## Surroundings beside another component of the world -/

/-- The odometer next to a component of the world that it leaves alone. -/
def Odometer.beside (o : Odometer α σ) : Odometer α (σ × γ) where
  sample w := ((o.sample w.1).1, (o.sample w.1).2, w.2)
  reseat pose w := (o.reseat pose w.1, w.2)

/-- The encoder next to a component of the world that it leaves alone. -/
def Encoder.beside (n : Encoder α σ) : Encoder α (σ × γ) where
  sample w := ((n.sample w.1).1, (n.sample w.1).2, w.2)
  reseat position w := (n.reseat position w.1, w.2)

/-- The waypoints next to a component of the world that they leave alone. -/
def TargetSource.beside (s : TargetSource α σ) : TargetSource α (σ × γ) where
  current w := s.current w.1
  mayAdvance w := s.mayAdvance w.1
  advance w := (s.advance w.1, w.2)

/-- The hooks next to a component of the world that they leave alone. -/
def Hooks.beside (h : Hooks α σ) : Hooks α (σ × γ) where
  beforeControl s w := ((h.beforeControl s w.1).1, (h.beforeControl s w.1).2, w.2)
  afterControl s w := ((h.afterControl s w.1).1, (h.afterControl s w.1).2, w.2)
  targetReached s w := (h.targetReached s w.1, w.2)

/-- The attachments with their hooks next to a component of the world. -/
def Attachments.beside (a : Attachments α σ) : Attachments α (σ × γ) where
  hooks := a.hooks.beside
  telemetry := a.telemetry
  telemetryInterval := a.telemetryInterval

/-! ## Calls to the actuators -/

/-- One call to the actuators. -/
inductive ActuatorCall (α : Type) where
  | apply (commands : List α)
  | release
  deriving Repr, DecidableEq

/-- The actuators, writing down every call after carrying it out. -/
def Actuators.logged (a : Actuators α σ) : Actuators α (σ × List (ActuatorCall α)) where
  apply commands w := (a.apply commands w.1, w.2 ++ [.apply commands])
  release w := (a.release w.1, w.2 ++ [.release])

namespace Engine

open Outcome

/-- The calls that the actuators received so far. -/
def calls (e : Engine α (σ × List (ActuatorCall α))) : List (ActuatorCall α) := e.world.2

variable [Scalar α]

/-- The actuators append their calls to the list, and nothing else changes it. -/
structure Logging (e : Engine α (σ × List (ActuatorCall α))) : Prop where
  sample : ∀ w, (e.plant.sample w).2.2 = w.2
  reseat : ∀ pose w, (e.plant.reseat pose w).2 = w.2
  advance : ∀ source, e.plant.targets? = some source → ∀ w, (source.advance w).2 = w.2
  beforeControl : ∀ s w, (e.hooks.beforeControl s w).2.2 = w.2
  afterControl : ∀ s w, (e.hooks.afterControl s w).2.2 = w.2
  targetReached : ∀ s w, (e.hooks.targetReached s w).2 = w.2
  apply : ∀ commands w, (e.actuators.apply commands w).2 = w.2 ++ [.apply commands]
  release : ∀ w, (e.actuators.release w).2 = w.2 ++ [.release]

/-- An engine fresh from its builder.  Its surroundings are arbitrary, apart from having the
calls to the actuators written down beside them; there were none yet. -/
inductive BuiltLogging : Engine α (σ × List (ActuatorCall α)) → Prop where
  | platform {settings : PlatformSettings α} {period : α} {odometer : Odometer α σ}
      {actuators : Actuators α σ} {targets : Option (TargetSource α σ)}
      {attachments : Attachments α σ} {world : σ} {e}
      (built : ofPlatform settings period odometer.beside actuators.logged
        (targets.map TargetSource.beside) attachments.beside (world, []) = .ok e) :
      BuiltLogging e
  | motor {settings : MotorSettings α} {period : α} {encoder : Encoder α σ}
      {actuators : Actuators α σ} {attachments : Attachments α σ} {world : σ} {e}
      (built : ofMotor settings period encoder.beside actuators.logged attachments.beside
        (world, []) = .ok e) :
      BuiltLogging e

/-! ## Fresh engines -/

/-- What a vehicle engine is made of. -/
theorem ofPlatform_eq_ok {settings : PlatformSettings α} {period : α} {odometer : Odometer α σ}
    {actuators : Actuators α σ} {targets : Option (TargetSource α σ)}
    {attachments : Attachments α σ} {world : σ} {e : Engine α σ}
    (h : ofPlatform settings period odometer actuators targets attachments world = .ok e) :
    ∃ parameters tree, StandardTree.platform settings period = .ok tree ∧
      e = ofParts "platform" parameters tree settings.stall settings.arrival settings.pathFollow
        (.platform odometer settings.drive targets) actuators attachments world := by
  obtain ⟨_, -, h⟩ := bind_eq_ok_iff.mp h
  obtain ⟨_, -, h⟩ := bind_eq_ok_iff.mp h
  obtain ⟨tree, htree, h⟩ := bind_eq_ok_iff.mp h
  cases h
  exact ⟨_, tree, mapError_eq_ok_iff.mp htree, rfl⟩

/-- What a single-axis engine is made of. -/
theorem ofMotor_eq_ok {settings : MotorSettings α} {period : α} {encoder : Encoder α σ}
    {actuators : Actuators α σ} {attachments : Attachments α σ} {world : σ} {e : Engine α σ}
    (h : ofMotor settings period encoder actuators attachments world = .ok e) :
    ∃ parameters tree, StandardTree.motor settings period = .ok tree ∧
      e = ofParts settings.name parameters tree settings.stall (axisArrival settings) false
        (.motor encoder) actuators attachments world := by
  obtain ⟨_, -, h⟩ := bind_eq_ok_iff.mp h
  obtain ⟨_, -, h⟩ := bind_eq_ok_iff.mp h
  obtain ⟨tree, htree, h⟩ := bind_eq_ok_iff.mp h
  cases h
  exact ⟨_, tree, mapError_eq_ok_iff.mp htree, rfl⟩

theorem BuiltLogging.logging {e : Engine α (σ × List (ActuatorCall α))}
    (h : BuiltLogging e) : e.Logging := by
  cases h with
  | @platform _ _ _ _ targets _ _ _ built =>
    obtain ⟨_, _, -, rfl⟩ := ofPlatform_eq_ok built
    refine ⟨fun _ => rfl, fun _ _ => rfl, ?_, fun _ _ => rfl, fun _ _ => rfl, fun _ _ => rfl,
      fun _ _ => rfl, fun _ => rfl⟩
    intro source hsource w
    cases targets with
    | none => cases hsource
    | some inner =>
      cases hsource
      rfl
  | motor built =>
    obtain ⟨_, _, -, rfl⟩ := ofMotor_eq_ok built
    refine ⟨fun _ => rfl, fun _ _ => rfl, ?_, fun _ _ => rfl, fun _ _ => rfl, fun _ _ => rfl,
      fun _ _ => rfl, fun _ => rfl⟩
    intro source hsource
    cases hsource

/-- A fresh engine stands in Stop and has not touched its actuators. -/
theorem BuiltLogging.untouched {e : Engine α (σ × List (ActuatorCall α))}
    (h : BuiltLogging e) : e.mode = .stop ∧ e.calls = [] := by
  cases h with
  | platform built =>
    obtain ⟨_, _, -, rfl⟩ := ofPlatform_eq_ok built
    exact ⟨rfl, rfl⟩
  | motor built =>
    obtain ⟨_, _, -, rfl⟩ := ofMotor_eq_ok built
    exact ⟨rfl, rfl⟩

end Engine

end MotionControl
