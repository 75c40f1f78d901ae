import MotionControl.Proofs.Outcome
import MotionControl.Settings.Engines

/-!
# Settings that pass their check

`check` reports the first problem, so settings without one have passed every check.

- `require_eq_ok_iff`, `inSection_eq_ok_iff`: one check, and a block of checks under a path.
- `PlatformSettings.Checked`, `MotorSettings.Checked`: the blocks of an engine's settings
  passed their checks.
- `StraightMoveSettings.linearThreshold_of_check`, `ArrivalSettings.thresholds_of_check`: what
  the checks say about thresholds.
-/

namespace MotionControl

open Outcome

variable {α : Type}

/-- A requirement passes if and only if it is met. -/
theorem require_eq_ok_iff {holds : Bool} {problem : Problem α} :
    require holds problem = .ok () ↔ holds = true := by
  cases holds with
  | true => exact ⟨fun _ => rfl, fun _ => rfl⟩
  | false =>
    constructor
    · intro h
      cases h
    · intro h
      cases h

/-- A check passes in a section if and only if it passes. -/
theorem inSection_eq_ok_iff {path : List String} {outcome : Except (Problem α) Unit} :
    inSection path outcome = .ok () ↔ outcome = .ok () := by
  cases outcome with
  | ok _ => exact ⟨fun _ => rfl, fun _ => rfl⟩
  | error problem =>
    constructor
    · intro h
      cases h
    · intro h
      cases h

variable [Scalar α]

/-- The controller blocks and the tolerances of the vehicle passed their checks. -/
structure PlatformSettings.Checked (s : PlatformSettings α) : Prop where
  linearPosition : s.linearPosition.check = .ok ()
  angularPosition : s.angularPosition.check = .ok ()
  linearSpeed : s.linearSpeed.check = .ok ()
  angularSpeed : s.angularSpeed.check = .ok ()
  straightMove : s.straightMove.check = .ok ()
  linearRamp : s.linearRamp.check = .ok ()
  angularRamp : s.angularRamp.check = .ok ()
  arrival : s.arrival.check = .ok ()

/-- The check of a vehicle is the checks of its blocks. -/
theorem PlatformSettings.checked {s : PlatformSettings α} (h : s.check = .ok ()) : s.Checked := by
  obtain ⟨_, _, h⟩ := bind_eq_ok_iff.mp h
  obtain ⟨_, linearPosition, h⟩ := bind_eq_ok_iff.mp h
  obtain ⟨_, angularPosition, h⟩ := bind_eq_ok_iff.mp h
  obtain ⟨_, linearSpeed, h⟩ := bind_eq_ok_iff.mp h
  obtain ⟨_, angularSpeed, h⟩ := bind_eq_ok_iff.mp h
  obtain ⟨_, straightMove, h⟩ := bind_eq_ok_iff.mp h
  obtain ⟨_, linearRamp, h⟩ := bind_eq_ok_iff.mp h
  obtain ⟨_, angularRamp, h⟩ := bind_eq_ok_iff.mp h
  obtain ⟨_, _, h⟩ := bind_eq_ok_iff.mp h
  obtain ⟨_, arrival, h⟩ := bind_eq_ok_iff.mp h
  exact ⟨inSection_eq_ok_iff.mp linearPosition, inSection_eq_ok_iff.mp angularPosition,
    inSection_eq_ok_iff.mp linearSpeed, inSection_eq_ok_iff.mp angularSpeed,
    inSection_eq_ok_iff.mp straightMove, inSection_eq_ok_iff.mp linearRamp,
    inSection_eq_ok_iff.mp angularRamp, inSection_eq_ok_iff.mp arrival⟩

/-- A checked distance is not negative. -/
theorem StraightMoveSettings.linearThreshold_of_check {s : StraightMoveSettings α}
    (h : s.check = .ok ()) : 0 ≤ s.linearThreshold := by
  obtain ⟨_, _, h⟩ := bind_eq_ok_iff.mp h
  exact of_decide_eq_true (Bool.and_eq_true_iff.mp (require_eq_ok_iff.mp h)).1

/-- Checked tolerances are positive. -/
theorem ArrivalSettings.thresholds_of_check {s : ArrivalSettings α} (h : s.check = .ok ()) :
    0 < s.linearThreshold ∧ 0 < s.angularThreshold := by
  obtain ⟨_, linear, angular⟩ := bind_eq_ok_iff.mp h
  exact ⟨of_decide_eq_true (Bool.and_eq_true_iff.mp (require_eq_ok_iff.mp linear)).1,
    of_decide_eq_true (Bool.and_eq_true_iff.mp (require_eq_ok_iff.mp angular)).1⟩

/-- The controller blocks of a motor passed their checks. -/
structure MotorSettings.Checked (s : MotorSettings α) : Prop where
  position : s.position.check = .ok ()
  speed : s.speed.check = .ok ()
  ramp : s.ramp.check = .ok ()

/-- The check of an axis is the checks of its blocks. -/
theorem MotorSettings.checked {s : MotorSettings α} (h : s.check = .ok ()) : s.Checked := by
  obtain ⟨_, _, h⟩ := bind_eq_ok_iff.mp h
  obtain ⟨_, _, h⟩ := bind_eq_ok_iff.mp h
  obtain ⟨_, _, h⟩ := bind_eq_ok_iff.mp h
  obtain ⟨_, position, h⟩ := bind_eq_ok_iff.mp h
  obtain ⟨_, speed, h⟩ := bind_eq_ok_iff.mp h
  obtain ⟨_, ramp, h⟩ := bind_eq_ok_iff.mp h
  exact ⟨inSection_eq_ok_iff.mp position, inSection_eq_ok_iff.mp speed,
    inSection_eq_ok_iff.mp ramp⟩

end MotionControl
