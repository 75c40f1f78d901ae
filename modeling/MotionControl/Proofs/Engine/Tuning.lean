import MotionControl.Proofs.Engine.Erasure
import MotionControl.Proofs.Engine.Startup
import MotionControl.Proofs.Tree.Lookup

/-!
# Tuning a running motor

The tree of a motor has three parameter blocks, each at a leaf with a name of its own.  Its root has
the name of the motor, and a name means the first node that has it: a motor that is called like one
of the leaves hides it.  All other leaves can be read and set at any time.

- `MotorSettings.blocks`: the parameter blocks of a motor, under the names of their leaves.
- `Engine.Called.stands`: the tree of a motor, whatever was done with it.
- `Engine.motor_leaves_in_reach`: which leaves can be read and set.
-/

namespace MotionControl

open Outcome

variable {α : Type} [Scalar α]

/-- The parameter blocks that a motor is built with, under the names of their leaves. -/
def MotorSettings.blocks (s : MotorSettings α) : List (String × LawSettings α) := [
  ("position_pid", .pid s.position), ("speed_pid", .pid s.speed), ("speed_ramp", .speedRamp s.ramp)]

namespace Engine

variable {σ : Type} {e e' : Engine α σ}

/-- Calls leave a tree of the same loops. -/
theorem Called.stands (h : Called e e') {own : String} {a : AxisCascade α}
    (hstands : e.tree.Stands 6 (AxisCascade.motorCircuit own) a) :
    ∃ a', e'.tree.Stands 6 (AxisCascade.motorCircuit own) a' := by
  obtain ⟨cs, hcs⟩ := h
  exact hstands.calls (AxisCascade.wires own) hcs

/-- Checked settings and a checked period make a motor.  A leaf that is not called like the motor
shows its block, and at any time it takes every block of its kind that passes its check, and shows
it.  A leaf that is called like the motor is hidden by the root of the tree: it shows no block and
takes none. -/
theorem motor_leaves_in_reach {settings : MotorSettings α} {period : α}
    (hsettings : settings.check = .ok ()) (hperiod : checkPeriod period = .ok ())
    (encoder : Encoder α σ) (actuators : Actuators α σ) (attachments : Attachments α σ)
    (world : σ) :
    ∃ e, ofMotor settings period encoder actuators attachments world = .ok e ∧
      ∀ leaf block, (leaf, block) ∈ settings.blocks →
        (settings.name ≠ leaf →
          e.tree.parameters? leaf = some block ∧
            ∀ operations given, given.kind = block.kind → given.check = .ok () →
              ∃ tuned, (e.attemptAll operations).setParameters leaf given = .ok tuned ∧
                tuned.tree.parameters? leaf = some given) ∧
        (settings.name = leaf → ∀ operations,
          (e.attemptAll operations).tree.parameters? leaf = none ∧
            ∀ given, (e.attemptAll operations).setParameters leaf given
              = .error (.parameters (.notParameterized leaf))) := by
  obtain ⟨e, hbuilt⟩ := ofMotor_builds hsettings hperiod encoder actuators attachments world
  have hstands : e.tree.Stands 6 (AxisCascade.motorCircuit settings.name)
      (.fresh settings.position settings.speed settings.ramp period) := by
    obtain ⟨_, _, htree, rfl⟩ := ofMotor_eq_ok hbuilt
    exact StandardTree.motor_stands (MotorSettings.checked hsettings) htree
  refine ⟨e, hbuilt, fun leaf block hblock => ?_⟩
  change (leaf, block) ∈ (AxisCascade.fresh settings.position settings.speed settings.ramp
    period).blocks at hblock
  refine ⟨fun hname => ⟨?_, ?_⟩, fun hname operations => ?_⟩
  · exact hstands.parameters?_leaf hblock hname
  · intro operations given hkind hcheck
    obtain ⟨a, ha⟩ := (attemptAll_called e operations).stands hstands
    -- the leaf may have another block by now, but one of the same kind
    obtain ⟨block', hblock', hkind'⟩ := AxisCascade.block_of_block hblock a
    obtain ⟨tree, hset, hread⟩ :=
      ha.setParameters_leaf hblock' hname (hkind.trans hkind'.symm) hcheck
    refine ⟨{ e.attemptAll operations with tree }, ?_, hread⟩
    rw [setParameters, hset]
    rfl
  · obtain ⟨a, ha⟩ := (attemptAll_called e operations).stands hstands
    rw [hname] at ha
    refine ⟨Node.parameters?_root ha.circuit, fun given => ?_⟩
    rw [setParameters, Node.setParameters_root ha.circuit]
    rfl

/-- A motor called like its speed loop, with an axis that stands still. -/
def namesake : Except (EngineError Float) (Engine Float Unit) :=
  ofMotor (.named "speed_pid") 1 ⟨fun _ => (⟨0, 0⟩, ()), fun _ _ => ()⟩
    ⟨fun _ _ => (), fun _ => ()⟩ .none ()

/-- While it turns, its ramp takes another block; its speed loop takes none. -/
theorem namesake_tunes_ramp :
    ∃ e tuned, namesake = .ok e ∧
      (e.attemptAll [.request .enable, .request (.setSpeedTarget (.speed 10 0)), .step]).setParameters
        "speed_ramp" (.speedRamp ⟨2, 10, 30⟩) = .ok tuned ∧
      tuned.tree.parameters? "speed_ramp" = some (.speedRamp ⟨2, 10, 30⟩) ∧
      (e.attemptAll [.request .enable]).setParameters "speed_pid" (.pid ⟨1, 0, 0, 5⟩)
        = .error (.parameters (.notParameterized "speed_pid")) := by
  have hsettings : (MotorSettings.named "speed_pid" : MotorSettings Float).check = .ok () := rfl
  have hperiod : checkPeriod (1 : Float) = .ok () := rfl
  obtain ⟨e, hbuilt, hleaves⟩ := motor_leaves_in_reach hsettings hperiod
    ⟨fun _ => (⟨0, 0⟩, ()), fun _ _ => ()⟩ ⟨fun _ _ => (), fun _ => ()⟩ .none ()
  obtain ⟨-, hramp⟩ := (hleaves "speed_ramp" _ (.tail _ (.tail _ (.head _)))).1 (by decide)
  obtain ⟨tuned, htuned, hread⟩ := hramp [.request .enable,
    .request (.setSpeedTarget (.speed 10 0)), .step] (.speedRamp ⟨2, 10, 30⟩) rfl rfl
  obtain ⟨-, hhidden⟩ := (hleaves "speed_pid" _ (.tail _ (.head _))).2 rfl [.request .enable]
  exact ⟨e, tuned, hbuilt, htuned, hread, hhidden _⟩

/-- So its settings pass their check, but its speed loop can neither be read nor be set. -/
theorem namesake_hides_speed_loop :
    (MotorSettings.named "speed_pid" : MotorSettings Float).check = .ok () ∧
      (LawSettings.pid (⟨1, 0, 0, 5⟩ : PidGains Float)).check = .ok () ∧
      ∃ e, namesake = .ok e ∧ e.tree.parameters? "speed_pid" = none ∧
        e.setParameters "speed_pid" (.pid ⟨1, 0, 0, 5⟩)
          = .error (.parameters (.notParameterized "speed_pid")) :=
  ⟨rfl, rfl, _, rfl, rfl, rfl⟩

end Engine

end MotionControl
