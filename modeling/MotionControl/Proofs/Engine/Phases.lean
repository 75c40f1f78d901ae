import MotionControl.Proofs.Engine.CallLog
import MotionControl.Proofs.Engine.CycleParts

/-!
# The phases of a cycle

A cycle first moves the engine, and then looks at what came of it: for a stall, for arrival
and for a timeout.  The mode can change when a waypoint is loaded and when the engine is
looked at, and nowhere in between.

- `Engine.controlled`, `Engine.supervised`, `Engine.step_eq`: the two halves of a cycle.
- `Engine.Steady`: the mode and the stall detector stay as they are.
- `Engine.Carried`: what becomes of them where no cycle is looked at: the detector keeps its
  count until the mode changes.
- `Engine.request_carried`, `Engine.controlled_stall`, `Engine.checkTarget_spec`: this is
  how every request, every waypoint and every timeout treats them.
- `Engine.checkTarget_invariant`, `Engine.supervised_invariant`: what every look at the outcome
  preserves, all of them do.
- `Engine.supervised_of_ne_running`: outside Running a stall is all that is looked for.
- `Engine.Built`: an engine fresh from its builder.
-/

namespace MotionControl

open Outcome

namespace Engine

variable {α σ : Type} [Scalar α] {e e' : Engine α σ}

/-! ## The two halves of a cycle -/

/-- The engine of a cycle before anything is looked for: the waypoint is loaded, the
measurement taken, the command sent and both hooks called. -/
def controlled (e : Engine α σ) : Except (Interrupted α σ) (Engine α σ) := do
  let e ← e.tick.followPath.sense.beforeControl
  .ok (← e.control).afterControl

/-- The engine after it was looked at for a stall, if it may stall in its mode. -/
def stallChecked (e : Engine α σ) : Engine α σ := if e.mode.isRegulating then e.checkStall else e

/-- The rest of the cycle. -/
def supervised (e : Engine α σ) : Engine α σ := e.stallChecked.checkTarget.publish

/-- The mode and the stall detector are the same. -/
structure Steady (e e' : Engine α σ) : Prop where
  machine : e'.machine = e.machine
  stall : e'.stall = e.stall

omit [Scalar α] in
theorem Steady.refl (e : Engine α σ) : Steady e e := ⟨rfl, rfl⟩

omit [Scalar α] in
theorem Steady.trans {e'' : Engine α σ} (h : Steady e e') (h' : Steady e' e'') : Steady e e'' :=
  ⟨h'.machine.trans h.machine, h'.stall.trans h.stall⟩

omit [Scalar α] in
theorem Steady.mode (h : Steady e e') : e'.mode = e.mode := congrArg ModeMachine.mode h.machine

omit [Scalar α] in
/-- The hooks before control leave mode and detector alone. -/
theorem beforeControl_steady (h : e.beforeControl = .ok e') : Steady e e' := by
  have hreadied := beforeControl_spec e
  rw [h] at hreadied
  cases hreadied with
  | ready ran => exact ⟨rfl, rfl⟩

/-- So does control. -/
theorem control_steady (h : e.control = .ok e') : Steady e e' := by
  cases steered_of_control h with
  | shown | sent => exact ⟨rfl, rfl⟩

/-- A cycle is its two halves: the mode that it runs in is still there after the first. -/
theorem step_eq (e : Engine α σ) : e.step = e.controlled.map supervised := by
  unfold step controlled
  cases hready : e.tick.followPath.sense.beforeControl with
  | error interrupted => rfl
  | ok ready =>
    rw [ok_bind, ok_bind]
    dsimp only
    cases hcontrol : ready.control with
    | error interrupted => rfl
    | ok driven =>
      have hmode : driven.afterControl.mode = ready.mode := (control_steady hcontrol).mode
      rw [ok_bind, ok_bind, Except.map, supervised, stallChecked, hmode]

/-- A cycle that is not given up is control and then supervision. -/
theorem step_eq_ok_iff : e.step = .ok e' ↔ ∃ c, e.controlled = .ok c ∧ c.supervised = e' := by
  rw [step_eq, map_eq_ok_iff]

/-! ## What becomes of a count -/

/-- The detector has the same count, unless the mode is another one: then it starts again.
The state shows what it showed before, unless it shows no stalled cycle at all: this is so in
another mode, and when a command was accepted since the last cycle. -/
structure Carried (e e' : Engine α σ) : Prop where
  stall : e'.stall = if e'.mode = e.mode then e.stall else e.stall.reset
  shown : e'.state.stalledCycles = 0 ∧
      (e'.mode ≠ e.mode ∨ e'.state.commandCycle = e'.state.cycle) ∨
    e'.mode = e.mode ∧ e'.state.stalledCycles = e.state.stalledCycles ∧
      e'.state.commandCycle = e.state.commandCycle ∧ e'.state.cycle = e.state.cycle

/-- The same count, shown alike. -/
structure Alike (e e' : Engine α σ) : Prop extends Steady e e' where
  shown : e'.state.stalledCycles = e.state.stalledCycles
  command : e'.state.commandCycle = e.state.commandCycle
  cycle : e'.state.cycle = e.state.cycle

omit [Scalar α] in
theorem Alike.refl (e : Engine α σ) : Alike e e := ⟨.refl e, rfl, rfl, rfl⟩

omit [Scalar α] in
theorem Alike.trans {e'' : Engine α σ} (h : Alike e e') (h' : Alike e' e'') : Alike e e'' where
  toSteady := h.toSteady.trans h'.toSteady
  shown := h'.shown.trans h.shown
  command := h'.command.trans h.command
  cycle := h'.cycle.trans h.cycle

namespace Carried

omit [Scalar α] in
/-- What leaves mode and detector alone carries the count. -/
theorem of_alike (h : Alike e e') : Carried e e' where
  stall := by
    rw [if_pos h.mode]
    exact h.stall
  shown := .inr ⟨h.mode, h.shown, h.command, h.cycle⟩

omit [Scalar α] in
theorem refl (e : Engine α σ) : Carried e e := .of_alike (.refl e)

omit [Scalar α] in
/-- What happens to one engine happens to any other with the same count. -/
theorem from_alike {looked : Engine α σ} (h : Carried looked e') (halike : Alike e looked) :
    Carried e e' where
  stall := by
    rw [← halike.mode, ← halike.stall]
    exact h.stall
  shown := by
    rw [← halike.mode, ← halike.shown, ← halike.command, ← halike.cycle]
    exact h.shown

omit [Scalar α] in
/-- It is the same to any engine with the same count after it. -/
theorem to_alike {looked : Engine α σ} (h : Carried e looked) (halike : Alike looked e') :
    Carried e e' where
  stall := by
    rw [halike.mode, halike.stall]
    exact h.stall
  shown := by
    rw [halike.mode, halike.shown, halike.command, halike.cycle]
    exact h.shown

omit [Scalar α] in
/-- The beginning of a command leaves the count to the detector. -/
theorem beginCommand (h : Carried e e') : Carried e e'.beginCommand where
  stall := h.stall
  shown := .inl ⟨rfl, .inr rfl⟩

omit [Scalar α] in
/-- So does a change of mode that clears it. -/
theorem of_reset (h : e'.stall = e.stall.reset) (hshown : e'.state.stalledCycles = 0)
    (hmode : e'.mode ≠ e.mode) : Carried e e' where
  stall := by
    rw [if_neg hmode]
    exact h
  shown := .inl ⟨hshown, .inl hmode⟩

end Carried

/-- Whatever mode is entered, the detector starts again there and the state shows no stall. -/
theorem enter_spec (e : Engine α σ) (target : Mode) :
    (e.enter target).machine = e.machine ∧ (e.enter target).stall = e.stall.reset ∧
      (e.enter target).state.stalledCycles = 0 := by
  cases target with
  | stop | idle | blocked | running | runningSpeed | passthrough => exact ⟨rfl, rfl, rfl⟩

/-- Arriving in a mode carries the count, or clears it with the change. -/
theorem arrive_carried (e : Engine α σ) (event : ModeEvent) (target : Mode) :
    Carried e (e.arrive event target) := by
  refine arrive_cases (fun hsame => ?_) (fun hother => ?_) fun _ _ hentered => ?_
  · refine ⟨(if_pos ?_).symm, .inr ⟨?_, rfl, rfl, rfl⟩⟩
    · exact hsame.symm
    · exact hsame.symm
  · obtain ⟨hmachine, hstall, hshown⟩ :=
      ({ e with machine := e.machine.move event target } : Engine α σ).enter_spec target
    refine .of_reset hstall hshown ?_
    rw [mode, hmachine]
    exact Ne.symm hother
  · exact hentered.beginCommand

/-- An event that leads to a mode ends in it. -/
theorem arrive_mode (e : Engine α σ) (event : ModeEvent) (target : Mode) :
    (e.arrive event target).mode = target := by
  refine arrive_cases (I := (·.mode = target)) (fun _ => rfl) (fun _ => ?_) fun _ _ h => h
  rw [mode, (enter_spec _ target).1]
  rfl

/-- So does every event. -/
theorem accept_carried {event : ModeEvent} (h : e.accept event = .ok e') : Carried e e' := by
  obtain ⟨target, -, rfl⟩ := accept_eq_ok_iff.mp h
  exact arrive_carried e event target

/-! ## Requests -/

/-- A command is an accepted event and its beginning, whatever is set in between. -/
theorem command_carried {event : ModeEvent} {after : Engine α σ → Engine α σ}
    (h : (do
      let e ← e.accept event
      .ok (after e).beginCommand) = .ok e')
    (hsame : ∀ e, Steady e (after e)) : Carried e e' := by
  obtain ⟨arrived, haccept, hset⟩ := bind_eq_ok_iff.mp h
  cases hset
  have harrived := accept_carried haccept
  refine ⟨?_, .inl ⟨rfl, .inr rfl⟩⟩
  show (after arrived).stall = if (after arrived).mode = e.mode then _ else _
  rw [(hsame arrived).mode, (hsame arrived).stall]
  exact harrived.stall

theorem setPoseTarget_carried {target : PathPose α} (h : e.setPoseTarget target = .ok e') :
    Carried e e' :=
  command_carried h fun _ => ⟨rfl, rfl⟩

theorem setSpeedTarget_carried {order : Polar α} (h : e.setSpeedTarget order = .ok e') :
    Carried e e' :=
  command_carried h fun _ => ⟨rfl, rfl⟩

theorem setPassthrough_carried {order : Polar α} (h : e.setPassthrough order = .ok e') :
    Carried e e' :=
  command_carried h fun _ => ⟨rfl, rfl⟩

theorem requestMode_carried {target : Mode} (h : e.requestMode target = .ok e') :
    Carried e e' := by
  obtain ⟨event, haccept⟩ | ⟨event, arrived, haccept, rfl⟩ := requestMode_cases h
  · exact accept_carried haccept
  · exact (accept_carried haccept).beginCommand

theorem disable_carried (e : Engine α σ) : Carried e e.disable := by
  obtain hrefused | haccept := disable_cases e
  · rw [hrefused]
    exact .refl e
  · exact accept_carried haccept

/-- Other thresholds keep the count, and switching the detector off clears it. -/
theorem setStallSettings_eq_ok {settings : StallSettings α}
    (h : e.setStallSettings settings = .ok e') :
    e' = if settings.enabled then { e with stall := e.stall.withSettings settings }
      else { e with
        stall := (e.stall.withSettings settings).reset
        state := { e.state with stalledCycles := 0 } } := by
  obtain ⟨_, -, hset⟩ := bind_eq_ok_iff.mp h
  cases hset
  rfl

/-- Nothing but the settings of the detector themselves changes its count in a mode. -/
theorem request_carried (e : Engine α σ) {what : Request α}
    (hwhat : ∀ settings, what ≠ .setStallSettings settings) : Carried e (e.request what) := by
  cases what with
  | handle event => exact granted_cases (.refl e) fun _ => accept_carried
  | requestMode mode => exact granted_cases (.refl e) fun _ => requestMode_carried
  | enable => exact granted_cases (.refl e) fun _ => accept_carried
  | disable => exact disable_carried e
  | dropCommand => exact granted_cases (.refl e) fun _ => accept_carried
  | recover => exact granted_cases (.refl e) fun _ => accept_carried
  | setPoseTarget target => exact granted_cases (.refl e) fun _ => setPoseTarget_carried
  | setSpeedTarget order => exact granted_cases (.refl e) fun _ => setSpeedTarget_carried
  | setPassthrough order => exact granted_cases (.refl e) fun _ => setPassthrough_carried
  | setSpeedOrder order => exact .of_alike ⟨⟨rfl, rfl⟩, rfl, rfl, rfl⟩
  | setPose pose => exact .of_alike ⟨⟨rfl, rfl⟩, rfl, rfl, rfl⟩
  | setPathFollow enabled => exact .of_alike ⟨⟨rfl, rfl⟩, rfl, rfl, rfl⟩
  | setParameters leaf settings =>
    refine granted_cases (.refl e) fun e' h => ?_
    obtain ⟨tree, -, hset⟩ := bind_eq_ok_iff.mp h
    cases hset
    exact .of_alike ⟨⟨rfl, rfl⟩, rfl, rfl, rfl⟩
  | setStallSettings settings => exact absurd rfl (hwhat settings)
  | setArrivalSettings settings =>
    refine granted_cases (.refl e) fun e' h => ?_
    obtain ⟨_, -, hset⟩ := bind_eq_ok_iff.mp h
    cases hset
    exact .of_alike ⟨⟨rfl, rfl⟩, rfl, rfl, rfl⟩
  | setTimeoutSettings settings =>
    refine granted_cases (.refl e) fun e' h => ?_
    obtain ⟨_, -, hset⟩ := bind_eq_ok_iff.mp h
    cases hset
    exact .of_alike ⟨⟨rfl, rfl⟩, rfl, rfl, rfl⟩

/-! ## The two halves of a cycle, again -/

omit [Scalar α] in
theorem Looked.alike {next : Option (PathPose α) × Engine α σ} (h : Looked e next) :
    Alike e next.2 := by
  cases h with
  | nothing => exact .refl e
  | first targets unloaded current => exact ⟨⟨rfl, rfl⟩, rfl, rfl, rfl⟩
  | dropped targets loaded reached free => exact ⟨⟨rfl, rfl⟩, rfl, rfl, rfl⟩

/-- A waypoint that is loaded is a request for its pose. -/
theorem followPath_carried (e : Engine α σ) : Carried e e.followPath := by
  cases followPath_spec e with
  | looked look => exact .of_alike look.alike
  | loaded loads look accepted => exact (setPoseTarget_carried accepted).from_alike look.alike

theorem accept_poseTarget_mode (h : e.accept .poseTarget = .ok e') : e'.mode = .running := by
  obtain ⟨reached, hnext, rfl⟩ := accept_eq_ok_iff.mp h
  rw [arrive_mode]
  revert hnext
  unfold ModeMachine.next?
  cases e.machine.mode with
  | stop | passthrough =>
    rintro ⟨⟩
  | idle | blocked | running | runningSpeed =>
    rintro ⟨⟩
    rfl

theorem setPoseTarget_mode {target : PathPose α} (h : e.setPoseTarget target = .ok e') :
    e'.mode = .running := by
  obtain ⟨arrived, haccept, hset⟩ := bind_eq_ok_iff.mp h
  cases hset
  show arrived.mode = .running
  exact accept_poseTarget_mode haccept

/-- A waypoint starts the engine, unless it is stopped, blocked or not regulated. -/
theorem followPath_mode (e : Engine α σ) :
    e.followPath.mode = e.mode ∨ loadsWaypoints e.mode ∧ e.followPath.mode = .running := by
  cases followPath_spec e with
  | looked look => exact .inl look.alike.mode
  | loaded loads look accepted => exact .inr ⟨loads, setPoseTarget_mode accepted⟩

/-- After the waypoint, the first half of a cycle leaves the mode and the detector alone. -/
theorem controlled_steady (h : e.controlled = .ok e') : Steady e.tick.followPath e' := by
  obtain ⟨ready, hready, h⟩ := bind_eq_ok_iff.mp h
  obtain ⟨driven, hcontrol, h⟩ := bind_eq_ok_iff.mp h
  cases h
  have hsensed : Steady e.tick.followPath e.tick.followPath.sense := ⟨rfl, rfl⟩
  have hdriven := (hsensed.trans (beforeControl_steady hready)).trans (control_steady hcontrol)
  exact hdriven.trans ⟨rfl, rfl⟩

/-- In the first half of a cycle, only a waypoint can end a count.  What the state shows is
up to the hooks. -/
theorem controlled_stall (h : e.controlled = .ok e') :
    e'.stall = if e'.mode = e.mode then e.stall else e.stall.reset := by
  have hsteady := controlled_steady h
  rw [hsteady.stall, hsteady.mode]
  exact (followPath_carried e.tick).stall

/-- Before the looks, only a loaded waypoint changes the mode. -/
theorem controlled_mode (h : e.controlled = .ok e') :
    e'.mode = e.mode ∨ loadsWaypoints e.mode ∧ e'.mode = .running := by
  rw [(controlled_steady h).mode]
  exact followPath_mode e.tick

theorem ArrivalLook.alike (h : ArrivalLook e e') : Alike e e' := by
  cases h with
  | before reached => exact .refl e
  | away unreached judged moving => exact ⟨⟨rfl, rfl⟩, rfl, rfl, rfl⟩
  | arrived unreached judged there shown =>
    rw [shown]
    exact ⟨⟨rfl, rfl⟩, rfl, rfl, rfl⟩

/-- A timeout leads to Idle, and so to another mode. -/
theorem TimeoutLook.carried (h : TimeoutLook e e') (hmode : e.mode = .running) :
    e' = e ∨ Carried e e' ∧ e'.mode = .idle := by
  cases h with
  | pending => exact .inl rfl
  | @expired idle unreached expired entered =>
    have hforced : e.machine.forceIdle.mode = .idle := by
      have hstop : e.machine.mode ≠ .stop := by
        rw [show e.machine.mode = .running from hmode]
        decide
      rw [ModeMachine.forceIdle, if_neg hstop]
    obtain ⟨hmachine, hstall, hshown⟩ :=
      ({ e with machine := e.machine.forceIdle } : Engine α σ).enter_spec e.machine.forceIdle.mode
    rw [← entered] at hmachine hstall hshown
    have hidle : idle.mode = .idle := (congrArg ModeMachine.mode hmachine).trans hforced
    refine .inr ⟨.of_reset hstall hshown ?_, hidle⟩
    show idle.mode ≠ _
    rw [hidle, hmode]
    decide

/-- The looks at target and clock change the mode to idle at most. -/
theorem checkTarget_spec (e : Engine α σ) :
    Alike e e.checkTarget ∨ Carried e e.checkTarget ∧ e.checkTarget.mode = .idle := by
  unfold checkTarget
  by_cases hrunning : e.mode = .running
  · rw [if_pos hrunning]
    have harrived := (checkArrival_spec e).alike
    obtain hkept | ⟨hcarried, hidle⟩ := (checkTimeout_spec _).carried (harrived.mode.trans hrunning)
    · rw [hkept]
      exact .inl harrived
    · exact .inr ⟨hcarried.from_alike harrived, hidle⟩
  · rw [if_neg hrunning]
    exact .inl (.refl e)

omit [Scalar α] in
theorem publish_alike (e : Engine α σ) :
    Alike e e.publish ∧ e.publish.state = e.state ∧ e.publish.world = e.world := by
  obtain ⟨telemetry, hpublished⟩ := publish_eq e
  rw [hpublished]
  exact ⟨⟨⟨rfl, rfl⟩, rfl, rfl, rfl⟩, rfl, rfl⟩

/-- What no look at the outcome of a cycle takes away is there after all three.  Arrival and a
timeout are looked for in Running only. -/
theorem checkTarget_invariant {I : Engine α σ → Prop}
    (hstall : ∀ {e e'}, StallLook e e' → I e → I e')
    (harrival : ∀ {e e'}, e.mode = .running → ArrivalLook e e' → I e → I e')
    (htimeout : ∀ {e e'}, e.mode = .running → TimeoutLook e e' → I e → I e') (h : I e) :
    I e.stallChecked.checkTarget := by
  have hchecked : I e.stallChecked := by
    unfold stallChecked
    by_cases hregulating : e.mode.isRegulating
    · rw [if_pos hregulating]
      exact hstall (checkStall_spec e) h
    · rw [if_neg hregulating]
      exact h
  unfold checkTarget
  by_cases hrunning : e.stallChecked.mode = .running
  · rw [if_pos hrunning]
    have hlook := checkArrival_spec e.stallChecked
    exact htimeout (hlook.alike.mode.trans hrunning) (checkTimeout_spec _)
      (harrival hrunning hlook hchecked)
  · rw [if_neg hrunning]
    exact hchecked

/-- What no look at the outcome of a cycle takes away is there after all of them. -/
theorem supervised_invariant {I : Engine α σ → Prop}
    (hstall : ∀ {e e'}, StallLook e e' → I e → I e')
    (harrival : ∀ {e e'}, ArrivalLook e e' → I e → I e')
    (htimeout : ∀ {e e'}, TimeoutLook e e' → I e → I e')
    (hpublish : ∀ {e telemetry}, I e → I { e with telemetry }) (h : I e) : I e.supervised := by
  have htarget : I e.stallChecked.checkTarget :=
    checkTarget_invariant hstall (fun _ => harrival) (fun _ => htimeout) h
  obtain ⟨telemetry, hpublished⟩ := publish_eq e.stallChecked.checkTarget
  rw [supervised, hpublished]
  exact hpublish htarget

/-- Outside Running nothing is looked for after the stall. -/
theorem supervised_of_ne_running (h : e.stallChecked.mode ≠ .running) :
    ∃ telemetry, e.supervised = { e.stallChecked with telemetry } := by
  have hrest : e.stallChecked.checkTarget = e.stallChecked := if_neg h
  obtain ⟨telemetry, hpublished⟩ := publish_eq e.stallChecked
  exact ⟨telemetry, by rw [supervised, hrest, hpublished]⟩

/-- In a mode that does not regulate nothing is looked for. -/
theorem supervised_of_resting (h : e.mode.isRegulating = false) :
    ∃ telemetry, e.supervised = { e with telemetry } := by
  have hchecked : e.stallChecked = e := if_neg (Bool.eq_false_iff.mp h)
  have hrunning : e.stallChecked.mode ≠ .running := by
    rw [hchecked]
    intro hmode
    rw [hmode] at h
    cases h
  obtain ⟨telemetry, hsupervised⟩ := supervised_of_ne_running hrunning
  rw [hchecked] at hsupervised
  exact ⟨telemetry, hsupervised⟩

/-- After the stall, a cycle looks for arrival and for a timeout.  Only the timeout touches the
count. -/
theorem supervised_spec (e : Engine α σ) :
    Alike e.stallChecked e.supervised ∨
      Carried e.stallChecked e.supervised ∧ e.supervised.mode = .idle := by
  have hpublished := (publish_alike e.stallChecked.checkTarget).1
  obtain halike | ⟨hcarried, hidle⟩ := e.stallChecked.checkTarget_spec
  · exact .inl (halike.trans hpublished)
  · exact .inr ⟨hcarried.to_alike hpublished, hpublished.mode.trans hidle⟩

/-! ## Fresh engines -/

/-- An engine fresh from its builder, with any surroundings. -/
inductive Built : Engine α σ → Prop where
  | platform {settings : PlatformSettings α} {period : α} {odometer : Odometer α σ}
      {actuators : Actuators α σ} {targets : Option (TargetSource α σ)}
      {attachments : Attachments α σ} {world : σ} {e}
      (built : ofPlatform settings period odometer actuators targets attachments world = .ok e) :
      Built e
  | motor {settings : MotorSettings α} {period : α} {encoder : Encoder α σ}
      {actuators : Actuators α σ} {attachments : Attachments α σ} {world : σ} {e}
      (built : ofMotor settings period encoder actuators attachments world = .ok e) : Built e

/-- A fresh engine stands in Stop and has counted nothing. -/
theorem Built.uncounted (h : Built e) :
    e.mode = .stop ∧ e.stall.cycles = 0 ∧ e.state.stalledCycles = 0 := by
  cases h with
  | platform built =>
    obtain ⟨_, _, -, rfl⟩ := ofPlatform_eq_ok built
    exact ⟨rfl, rfl, rfl⟩
  | motor built =>
    obtain ⟨_, _, -, rfl⟩ := ofMotor_eq_ok built
    exact ⟨rfl, rfl, rfl⟩

end Engine

end MotionControl
