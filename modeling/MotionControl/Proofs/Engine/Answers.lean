import MotionControl.Proofs.Engine.Operations

/-!
# What a request comes to

However many requests there are, there are few things that can become of an engine that is asked:
it refuses, it changes its mode, it takes up a stalled command again, it begins another command, or
it is told something that has to do with none of these.

- `ModeMachine.next?_toward`: an event that is meant to lead to a mode does.
- `Request.commands?`: the mode that a request begins a command in.
- `Engine.Answered`: what a request may come to.
- `Engine.request_answered`: every request does, apart from an event that is fed by hand.
-/

namespace MotionControl

open Outcome

/-! ## Events -/

namespace ModeMachine

variable {m : ModeMachine} {target : Mode}

/-- An event that is meant to lead to a mode does so wherever it is accepted. -/
theorem next?_toward (mode : Mode) (h : m.next? (.toward mode) = some target) :
    target = mode := by
  cases mode with
  | stop | idle | blocked | running | runningSpeed | passthrough =>
    revert h
    unfold next? ModeEvent.toward
    cases m.mode with
    | stop | idle | blocked | running | runningSpeed | passthrough =>
      rintro ⟨⟩ <;> rfl

/-- Only a stopped engine can be enabled. -/
theorem next?_enable (h : m.next? .enable = some target) : target = .idle := by
  revert h
  unfold next?
  cases m.mode with
  | stop | idle | blocked | running | runningSpeed | passthrough =>
    rintro ⟨⟩ <;> rfl

end ModeMachine

/-- The mode that a request begins a command in. -/
def Request.commands? {α : Type} : Request α → Option Mode
  | .requestMode mode => if mode.isRegulating then some mode else none
  | .setPoseTarget _ => some .running
  | .setSpeedTarget _ => some .runningSpeed
  | .setPassthrough _ => some .passthrough
  | _ => none

namespace Engine

variable {α σ : Type} [Scalar α] {e e' : Engine α σ} {what : Request α}

/-! ## Answers -/

/-- What a request may come to. -/
inductive Answered (e : Engine α σ) (what : Request α) : Engine α σ → Prop where
  | refused : Answered e what e
  /-- The mode is a resting one, and no command is begun. -/
  | moved {event target} (next : e.machine.next? event = some target)
      (resting : target.isRegulating = false) (plain : event ≠ .recover) :
      Answered e what (e.arrive event target)
  /-- The stalled command is begun anew in the mode that it stalled in. -/
  | recovered {target} (asked : what = .recover) (next : e.machine.next? .recover = some target) :
      Answered e what (e.arrive .recover target)
  /-- A command is begun, for a target and with an order of its own if it has one. -/
  | commanded {mode} (commands : what.commands? = some mode)
      (next : e.machine.next? (.toward mode) = some mode) (goal : PathPose α) (order : Polar α) :
      Answered e what { e.arrive (.toward mode) mode with
        state := { (e.arrive (.toward mode) mode).state with target := goal, order } }.beginCommand
  /-- The measurements are told where the plant is. -/
  | reseated (pose : Pose α) : Answered e what (e.setPose pose)
  /-- The engine is told something that has to do with no command. -/
  | told (order : Polar α) (pathFollow : Bool) (stalledCycles : UInt32) (tree : Node α)
      (stall : StallDetector α) (arrival : ArrivalJudge α) (timeout : TimeoutSettings) :
      Answered e what { e with
        state := { e.state with order, pathFollow, stalledCycles }
        tree, stall, arrival
        parameters := { e.parameters with timeout } }

/-- No request for a mode is a recovery. -/
theorem toward_ne_recover (mode : Mode) : ModeEvent.toward mode ≠ .recover := by
  cases mode with
  | stop | idle | blocked | running | runningSpeed | passthrough =>
    rintro ⟨⟩

namespace Answered

theorem of_accept {event : ModeEvent} {target : Mode}
    (hleads : ∀ {target'}, e.machine.next? event = some target' → target' = target)
    (hresting : target.isRegulating = false) (hplain : event ≠ .recover)
    (h : e.accept event = .ok e') : Answered e what e' := by
  obtain ⟨target', hnext, rfl⟩ := accept_eq_ok_iff.mp h
  refine .moved hnext ?_ hplain
  rw [hleads hnext]
  exact hresting

/-- A command is an accepted event and its beginning, whatever is ordered in between. -/
theorem of_command (mode : Mode) {after : Engine α σ → Engine α σ}
    (hcommands : what.commands? = some mode)
    (hafter : ∀ e, ∃ goal order,
      after e = { e with state := { e.state with target := goal, order } }.beginCommand)
    (h : (do
      let e ← e.accept (.toward mode)
      .ok (after e)) = .ok e') : Answered e what e' := by
  obtain ⟨arrived, haccept, hset⟩ := bind_eq_ok_iff.mp h
  cases hset
  obtain ⟨target, hnext, rfl⟩ := accept_eq_ok_iff.mp haccept
  obtain rfl := ModeMachine.next?_toward mode hnext
  obtain ⟨goal, order, hordered⟩ := hafter (e.arrive (.toward target) target)
  rw [hordered]
  exact .commanded hcommands hnext goal order

/-- What a request for a mode may come to. -/
theorem of_requestMode {mode : Mode} (h : e.requestMode mode = .ok e') :
    Answered e (.requestMode mode) e' := by
  unfold requestMode at h
  by_cases henable : mode = .idle ∧ e.mode = .stop
  · rw [if_pos henable] at h
    exact .of_accept ModeMachine.next?_enable rfl (by decide) h
  · rw [if_neg henable] at h
    by_cases hregulating : mode.isRegulating
    · simp only [if_pos hregulating] at h
      exact .of_command mode (if_pos hregulating) (fun e => ⟨e.state.target, e.state.order, rfl⟩) h
    · simp only [if_neg hregulating] at h
      obtain ⟨arrived, haccept, hset⟩ := bind_eq_ok_iff.mp h
      cases hset
      exact .of_accept (ModeMachine.next?_toward mode) (Bool.eq_false_iff.mpr hregulating)
        (toward_ne_recover mode) haccept

theorem of_disable (e : Engine α σ) : Answered e what e.disable := by
  obtain hrefused | haccept := disable_cases e
  · rw [hrefused]
    exact .refused
  · exact .of_accept (ModeMachine.next?_toward .stop) rfl (by decide) haccept

theorem of_stallSettings {settings : StallSettings α} (h : e.setStallSettings settings = .ok e') :
    Answered e what e' := by
  obtain ⟨_, -, hset⟩ := bind_eq_ok_iff.mp h
  cases hset
  by_cases henabled : settings.enabled
  · simp only [if_pos henabled]
    exact .told _ _ _ _ _ _ _
  · simp only [if_neg henabled]
    exact .told _ _ _ _ _ _ _

end Answered

/-- Every request comes to one of these.  An event that is fed by hand is left out, because it
leads to a regulating mode without a command. -/
theorem request_answered (e : Engine α σ) (hwhat : ∀ event, what ≠ .handle event) :
    Answered e what (e.request what) := by
  cases what with
  | handle event => exact absurd rfl (hwhat event)
  | requestMode mode => exact granted_cases .refused fun _ => .of_requestMode
  | enable =>
    exact granted_cases .refused fun _ => .of_accept ModeMachine.next?_enable rfl (by decide)
  | disable => exact .of_disable e
  | dropCommand =>
    exact granted_cases .refused fun _ =>
      .of_accept (ModeMachine.next?_toward .idle) rfl (by decide)
  | recover =>
    refine granted_cases .refused fun e' h => ?_
    obtain ⟨target, hnext, rfl⟩ := accept_eq_ok_iff.mp h
    exact .recovered rfl hnext
  | setPoseTarget target =>
    exact granted_cases .refused fun _ => .of_command .running rfl fun _ => ⟨_, _, rfl⟩
  | setSpeedTarget order =>
    exact granted_cases .refused fun _ => .of_command .runningSpeed rfl fun _ => ⟨_, _, rfl⟩
  | setPassthrough order =>
    exact granted_cases .refused fun _ => .of_command .passthrough rfl fun _ => ⟨_, _, rfl⟩
  | setSpeedOrder order => exact .told _ _ _ _ _ _ _
  | setPose pose => exact .reseated pose
  | setPathFollow enabled => exact .told _ _ _ _ _ _ _
  | setParameters leaf settings =>
    refine granted_cases .refused fun e' h => ?_
    obtain ⟨tree, -, hset⟩ := bind_eq_ok_iff.mp h
    cases hset
    exact .told _ _ _ _ _ _ _
  | setStallSettings settings => exact granted_cases .refused fun _ => .of_stallSettings
  | setArrivalSettings settings =>
    refine granted_cases .refused fun e' h => ?_
    obtain ⟨_, -, hset⟩ := bind_eq_ok_iff.mp h
    cases hset
    exact .told _ _ _ _ _ _ _
  | setTimeoutSettings settings =>
    refine granted_cases .refused fun e' h => ?_
    obtain ⟨_, -, hset⟩ := bind_eq_ok_iff.mp h
    cases hset
    exact .told _ _ _ _ _ _ _

end Engine

end MotionControl
