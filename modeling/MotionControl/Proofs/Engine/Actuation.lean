import MotionControl.Proofs.Engine.Phases
import MotionControl.Scalar

/-!
# Actuators outside the driving modes

An engine that is stopped has let its actuators go, and an engine that is idle or blocked
has sent them a zero command last.  A mode is entered in many ways: by a request, by a
waypoint, by a stall in the middle of a cycle, by a timeout.  Whichever it is, what the
actuators were last told fits the mode after it.

- `Engine.Settled`: the invariant.
- `Engine.Quiet`: changes that the actuators do not see.
- `Engine.arrive_settled`, `Engine.request_settled`, `Engine.step_settled`: an event, a
  request and a cycle settle the actuators.
- `Engine.actuators_fit_mode`: the invariant over whole runs.
-/

namespace MotionControl

open Outcome

/-- Holding still sends every actuator a zero, and there is at least one. -/
theorem Plant.stillness_zero {α σ : Type} [Scalar α] (p : Plant α σ) :
    p.stillness ≠ [] ∧ ∀ command ∈ p.stillness, command = 0 := by
  cases p with
  | platform odometer drive targets =>
    refine ⟨List.cons_ne_nil _ _, ?_⟩
    intro command hmem
    rcases List.mem_cons.mp hmem with rfl | hmem
    · rfl
    · exact List.mem_singleton.mp hmem
  | motor encoder =>
    refine ⟨List.cons_ne_nil _ _, ?_⟩
    intro command hmem
    exact List.mem_singleton.mp hmem

namespace Engine

variable {α σ : Type} [Scalar α] {e e' : Engine α (σ × List (ActuatorCall α))}

/-- The actuators were let go, or never touched. -/
def Released (e : Engine α (σ × List (ActuatorCall α))) : Prop :=
  e.calls = [] ∨ e.calls.getLast? = some .release

/-- The actuators were last sent a command, and it was zero for each of them. -/
def HeldStill (e : Engine α (σ × List (ActuatorCall α))) : Prop :=
  ∃ commands, e.calls.getLast? = some (.apply commands) ∧ commands ≠ [] ∧
    ∀ command ∈ commands, command = 0

/-- What the actuators were last told fits the mode. -/
structure Settled (e : Engine α (σ × List (ActuatorCall α))) : Prop where
  logging : e.Logging
  released : e.mode = .stop → e.Released
  still : e.mode = .idle ∨ e.mode = .blocked → e.HeldStill

/-! ## Changes that the actuators do not see -/

/-- The mode, the surroundings and the calls to the actuators are the same. -/
structure Quiet (e e' : Engine α (σ × List (ActuatorCall α))) : Prop where
  mode : e'.mode = e.mode
  plant : e'.plant = e.plant
  actuators : e'.actuators = e.actuators
  hooks : e'.hooks = e.hooks
  calls : e'.calls = e.calls

omit [Scalar α] in
/-- Doing nothing is quiet. -/
theorem Quiet.refl (e : Engine α (σ × List (ActuatorCall α))) : Quiet e e :=
  ⟨rfl, rfl, rfl, rfl, rfl⟩

omit [Scalar α] in
/-- What leaves the outside alone calls no actuator. -/
theorem SameOutside.quiet (h : SameOutside e e') : Quiet e e' where
  mode := congrArg ModeMachine.mode h.machine
  plant := h.plant
  actuators := h.actuators
  hooks := h.hooks
  calls := congrArg Prod.snd h.world

/-- Only the surroundings matter to what is written down. -/
theorem Logging.of_same (h : e.Logging) (hplant : e'.plant = e.plant)
    (hactuators : e'.actuators = e.actuators) (hhooks : e'.hooks = e.hooks) : e'.Logging where
  sample := hplant ▸ h.sample
  reseat := hplant ▸ h.reseat
  advance := hplant ▸ h.advance
  beforeControl := hhooks ▸ h.beforeControl
  afterControl := hhooks ▸ h.afterControl
  targetReached := hhooks ▸ h.targetReached
  apply := hactuators ▸ h.apply
  release := hactuators ▸ h.release

/-- The actuators go on being logged. -/
theorem Quiet.logging (h : Quiet e e') (he : e.Logging) : e'.Logging :=
  he.of_same h.plant h.actuators h.hooks

/-- What is settled stays so as long as no actuator is called. -/
theorem Settled.of_quiet (he : e.Settled) (h : Quiet e e') : e'.Settled where
  logging := h.logging he.logging
  released := by
    intro hmode
    unfold Released
    rw [h.calls]
    exact he.released (h.mode ▸ hmode)
  still := by
    intro hmode
    unfold HeldStill
    rw [h.calls]
    exact he.still (h.mode ▸ hmode)

/-- A driving mode asks nothing of the last call. -/
theorem Logging.settled_of_drives (h : e.Logging) (hmode : e.mode.drivesActuators = true) :
    e.Settled where
  logging := h
  released := by
    intro hstop
    rw [hstop] at hmode
    cases hmode
  still := by
    rintro (hidle | hblocked)
    · rw [hidle] at hmode
      cases hmode
    · rw [hblocked] at hmode
      cases hmode

/-! ## Entering a mode -/

theorem Logging.calls_hold (h : e.Logging) :
    e.hold.calls = e.calls ++ [.apply e.plant.stillness] := h.apply _ _

theorem Logging.calls_release (h : e.Logging) : e.release.calls = e.calls ++ [.release] :=
  h.release _

/-- After a hold, the last call is the one that keeps the machine still. -/
theorem Logging.hold_still (h : e.Logging) : e.hold.HeldStill := by
  refine ⟨e.plant.stillness, ?_, e.plant.stillness_zero⟩
  rw [h.calls_hold, List.getLast?_concat]

/-- After a release, the last call is the one that lets it go. -/
theorem Logging.release_released (h : e.Logging) : e.release.Released := by
  right
  rw [h.calls_release, List.getLast?_concat]

/-- Holding suits every mode but Stop. -/
theorem Logging.hold_settled (h : e.Logging) (hmode : e.mode ≠ .stop) : e.hold.Settled where
  logging := h.of_same rfl rfl rfl
  released := fun hstop => absurd hstop hmode
  still := fun _ => h.hold_still

theorem Logging.release_settled (h : e.Logging) (hmode : e.mode = .stop) :
    e.release.Settled where
  logging := h.of_same rfl rfl rfl
  released := fun _ => h.release_released
  still := by
    rintro (hidle | hblocked)
    · cases hmode.symm.trans hidle
    · cases hmode.symm.trans hblocked

/-- However a mode was reached, entering it tells the actuators what it asks for. -/
theorem enter_settled (h : e.Logging) {target : Mode} (hmode : e.mode = target) :
    (e.enter target).Settled := by
  -- The histories are cleared first, which the actuators do not see.
  have hcleared : ({ e with
      state := { e.state with mode := target, stalledCycles := 0 }
      tree := e.tree.reset
      stall := e.stall.reset } : Engine α (σ × List (ActuatorCall α))).Logging :=
    h.of_same rfl rfl rfl
  cases target with
  | stop => exact hcleared.release_settled hmode
  | idle => exact hcleared.hold_settled fun hstop => by cases hmode.symm.trans hstop
  | blocked => exact hcleared.hold_settled fun hstop => by cases hmode.symm.trans hstop
  | running => exact hcleared.settled_of_drives (congrArg Mode.drivesActuators hmode)
  | runningSpeed => exact hcleared.settled_of_drives (congrArg Mode.drivesActuators hmode)
  | passthrough => exact hcleared.settled_of_drives (congrArg Mode.drivesActuators hmode)

omit [Scalar α] in
theorem beginCommand_quiet (e : Engine α (σ × List (ActuatorCall α))) :
    Quiet e e.beginCommand := ⟨rfl, rfl, rfl, rfl, rfl⟩

/-- An event that keeps the mode is quiet, and any other one enters its mode. -/
theorem arrive_settled (h : e.Settled) (event : ModeEvent) (target : Mode) :
    (e.arrive event target).Settled := by
  refine arrive_cases (fun hsame => ?_) (fun _ => ?_) fun _ entered hentered => ?_
  · exact h.of_quiet ⟨hsame.symm, rfl, rfl, rfl, rfl⟩
  · have hmoved : Logging { e with machine := e.machine.move event target } :=
      h.logging.of_same rfl rfl rfl
    exact enter_settled hmoved rfl
  · exact hentered.of_quiet (beginCommand_quiet entered)

/-! ## Requests -/

theorem setPose_quiet (h : e.Logging) (pose : Pose α) : Quiet e (e.setPose pose) where
  mode := rfl
  plant := rfl
  actuators := rfl
  hooks := rfl
  calls := h.reseat pose e.world

/-- Whatever comes of a request, the actuators fit the mode that it leads to. -/
theorem Requested.settled (hrequested : Requested e e') (h : e.Settled) : e'.Settled := by
  cases hrequested with
  | kept same => exact h.of_quiet same.quiet
  | @arrived event target _ next same =>
    exact (arrive_settled h event target).of_quiet same.quiet
  | reseated pose =>
    exact h.of_quiet (setPose_quiet h.logging pose)

/-- So they do if it is refused. -/
theorem request_settled (h : e.Settled) (what : Request α) : (e.request what).Settled :=
  (e.request_spec what).settled h

/-! ## One cycle -/

theorem Looked.quiet {next : Option (PathPose α) × Engine α (σ × List (ActuatorCall α))}
    (hlook : Looked e next) (h : e.Logging) : Quiet e next.2 := by
  cases hlook with
  | nothing => exact .refl e
  | first targets unloaded current => exact ⟨rfl, rfl, rfl, rfl, rfl⟩
  | dropped targets loaded reached free =>
    exact ⟨rfl, rfl, rfl, rfl, h.advance _ targets e.world⟩

/-- A waypoint that is loaded is a request for its pose. -/
theorem followPath_settled (h : e.Settled) : e.followPath.Settled := by
  cases followPath_spec e with
  | looked look => exact h.of_quiet (look.quiet h.logging)
  | loaded loads look accepted =>
    exact (setPoseTarget_spec accepted).settled (h.of_quiet (look.quiet h.logging))

theorem sense_quiet (h : e.Logging) : Quiet e e.sense where
  mode := rfl
  plant := rfl
  actuators := rfl
  hooks := rfl
  calls := h.sample e.world

theorem beforeControl_quiet (h : e.Logging) (hbefore : e.beforeControl = .ok e') :
    Quiet e e' := by
  have hcalls := h.beforeControl e.state e.world
  have hreadied := beforeControl_spec e
  rw [hbefore] at hreadied
  cases hreadied with
  | ready ran =>
    rw [ran] at hcalls
    exact ⟨rfl, rfl, rfl, rfl, hcalls⟩

theorem afterControl_quiet (h : e.Logging) : Quiet e e.afterControl where
  mode := rfl
  plant := rfl
  actuators := rfl
  hooks := rfl
  calls := h.afterControl e.state e.world

theorem consultTree_quiet {speedMode : Bool} (h : e.consultTree speedMode = .ok e') :
    Quiet e e' := by
  obtain ⟨⟨outputs, tree⟩, -, h⟩ := bind_eq_ok_iff.mp h
  obtain ⟨demand, -, h⟩ := bind_eq_ok_iff.mp h
  cases h
  exact ⟨rfl, rfl, rfl, rfl, rfl⟩

/-- Whatever is sent in a driving mode suits it. -/
theorem drive_settled (h : e.Logging) (hmode : e.mode.drivesActuators = true)
    (hdrive : e.drive = .ok e') : e'.Settled := by
  unfold drive at hdrive
  cases hcommands : e.plant.actuation e.state.command with
  | ok commands =>
    rw [hcommands] at hdrive
    cases hdrive
    refine Logging.settled_of_drives ?_ hmode
    exact h.of_same rfl rfl rfl
  | error fault =>
    rw [hcommands] at hdrive
    cases hdrive

/-- A regulating mode ends in a command. -/
theorem regulate_settled (h : e.Logging) (hmode : e.mode.drivesActuators = true)
    {speedMode : Bool} (hregulate : e.regulate speedMode = .ok e') : e'.Settled := by
  obtain ⟨consulted, hconsult, hdrive⟩ := bind_eq_ok_iff.mp hregulate
  have hquiet := consultTree_quiet (mapError_eq_ok_iff.mp hconsult)
  exact drive_settled (hquiet.logging h) (hquiet.mode ▸ hmode) hdrive

/-- So does the mode that forwards orders. -/
theorem forward_settled (h : e.Logging) (hmode : e.mode.drivesActuators = true)
    (hforward : e.forward = .ok e') : e'.Settled := by
  have hordered : ({ e with
      state := { e.state with command := e.state.order, filtered := e.state.order } } :
      Engine α (σ × List (ActuatorCall α))).Logging := h.of_same rfl rfl rfl
  exact drive_settled hordered hmode hforward

/-- The main part of a cycle leaves the actuators fit for its mode. -/
theorem control_settled (h : e.Settled) (hcontrol : e.control = .ok e') : e'.Settled := by
  unfold control at hcontrol
  cases hmode : e.mode with
  | stop =>
    rw [hmode] at hcontrol
    cases hcontrol
    exact h.of_quiet ⟨rfl, rfl, rfl, rfl, rfl⟩
  | idle =>
    rw [hmode] at hcontrol
    cases hcontrol
    exact h.logging.hold_settled (by rw [hmode]; decide)
  | blocked =>
    rw [hmode] at hcontrol
    cases hcontrol
    exact h.logging.hold_settled (by rw [hmode]; decide)
  | running =>
    rw [hmode] at hcontrol
    exact regulate_settled h.logging (by rw [hmode]; rfl) hcontrol
  | runningSpeed =>
    rw [hmode] at hcontrol
    exact regulate_settled h.logging (by rw [hmode]; rfl) hcontrol
  | passthrough =>
    rw [hmode] at hcontrol
    exact forward_settled h.logging (by rw [hmode]; rfl) hcontrol

/-- A stall is counted first.  The zero command of Blocked comes after the one that stalled. -/
theorem StallLook.settled (hlook : StallLook e e') (h : e.Settled) : e'.Settled := by
  cases hlook with
  | counted stall => exact h.of_quiet ⟨rfl, rfl, rfl, rfl, rfl⟩
  | @tripped stall blocked accepted =>
    have hcounted : Settled { e with
        stall, state := { e.state with stalledCycles := stall.cycles } } :=
      h.of_quiet ⟨rfl, rfl, rfl, rfl, rfl⟩
    exact ((Requested.accepted accepted).settled hcounted).of_quiet ⟨rfl, rfl, rfl, rfl, rfl⟩

theorem ArrivalLook.quiet (hlook : ArrivalLook e e') (h : e.Logging) : Quiet e e' := by
  cases hlook with
  | before reached => exact .refl e
  | away unreached judged moving => exact ⟨rfl, rfl, rfl, rfl, rfl⟩
  | arrived unreached judged there shown =>
    exact ⟨rfl, rfl, rfl, rfl, h.targetReached _ e.world⟩

/-- A timeout holds the machine still. -/
theorem TimeoutLook.settled (hlook : TimeoutLook e e') (h : e.Settled) : e'.Settled := by
  cases hlook with
  | pending => exact h
  | expired unreached expired entered =>
    -- The machine is forced, so that it is the entering that stops the actuators.
    have hidle : ({ e with machine := e.machine.forceIdle } :
        Engine α (σ × List (ActuatorCall α))).Logging := h.logging.of_same rfl rfl rfl
    rw [entered]
    exact (enter_settled hidle rfl).of_quiet ⟨rfl, rfl, rfl, rfl, rfl⟩

/-- A whole cycle leaves the actuators fit for the mode that it ends in. -/
theorem step_settled (h : e.Settled) (hstep : e.step = .ok e') : e'.Settled := by
  obtain ⟨c, hc, rfl⟩ := step_eq_ok_iff.mp hstep
  obtain ⟨ready, hready, hc⟩ := bind_eq_ok_iff.mp hc
  obtain ⟨driven, hdriven, hc⟩ := bind_eq_ok_iff.mp hc
  cases hc
  -- The invariant goes through the phases in their order.
  have hticked : e.tick.Settled := h.of_quiet ⟨rfl, rfl, rfl, rfl, rfl⟩
  have hfollowed := followPath_settled hticked
  have hsensed := hfollowed.of_quiet (sense_quiet hfollowed.logging)
  have hbefore := hsensed.of_quiet (beforeControl_quiet hsensed.logging hready)
  have hcontrolled := control_settled hbefore hdriven
  have hafter := hcontrolled.of_quiet (afterControl_quiet hcontrolled.logging)
  exact supervised_invariant StallLook.settled
    (fun hlook h => h.of_quiet (hlook.quiet h.logging)) TimeoutLook.settled
    (fun h => h.of_quiet ⟨rfl, rfl, rfl, rfl, rfl⟩) hafter

/-! ## Whole runs -/

/-- An engine begins with its actuators released. -/
theorem BuiltLogging.settled (h : BuiltLogging e) : e.Settled where
  logging := h.logging
  released := fun _ => .inl h.untouched.2
  still := by
    rintro (hidle | hblocked)
    · cases h.untouched.1.symm.trans hidle
    · cases h.untouched.1.symm.trans hblocked

/-- So the actuators fit the mode after any operations. -/
theorem performAll_settled {operations : List (Operation α)} (h : e.Settled)
    (hrun : e.performAll operations = .ok e') : e'.Settled :=
  performAll_invariant (fun _ what hbefore => request_settled hbefore what)
    (fun _ _ hbefore => step_settled hbefore) h hrun

/-- After any operations on a fresh engine, accepted or refused, what the actuators were
told last fits its mode: in Stop they were let go or never touched, and in Idle and in
Blocked they were sent a zero command. -/
theorem actuators_fit_mode {operations : List (Operation α)} (hbuilt : BuiltLogging e)
    (hrun : e.performAll operations = .ok e') :
    (e'.mode = .stop → e'.calls = [] ∨ e'.calls.getLast? = some .release) ∧
    (e'.mode = .idle ∨ e'.mode = .blocked →
      ∃ commands, e'.calls.getLast? = some (.apply commands) ∧ commands ≠ [] ∧
        ∀ command ∈ commands, command = 0) := by
  have hsettled := performAll_settled hbuilt.settled hrun
  exact ⟨hsettled.released, hsettled.still⟩

/-- The encoder of an axis that never turns. -/
def stuckEncoder : Encoder Float Unit where
  sample world := (⟨0, 0⟩, world)
  reseat _ world := world

/-- Actuators that do nothing. -/
def slackActuators : Actuators Float Unit where
  apply _ world := world
  release world := world

/-- A single axis that never turns. -/
def stuckAxis : Except (EngineError Float) (Engine Float (Unit × List (ActuatorCall Float))) :=
  ofMotor (.named "lift") 1 stuckEncoder.beside slackActuators.logged Attachments.none.beside
    ((), [])

/-- A speed target and two cycles, as many as it takes to stall. -/
def stallingRun : List (Operation Float) :=
  [.request .enable, .request (.setStallSettings ⟨true, 1, 1, 2⟩),
    .request (.setSpeedTarget (.speed 100 0)), .step, .step]

/-- The axis that never turns is blocked by its stall, and a zero command comes last. -/
theorem stuckAxis_holds_still :
    ∃ e e', stuckAxis = .ok e ∧ e.performAll stallingRun = .ok e' ∧ e'.mode = .blocked ∧
      ∃ commands, e'.calls.getLast? = some (.apply commands) ∧ commands ≠ [] ∧
        ∀ command ∈ commands, command = 0 := by
  have hstalls : (stuckAxis.toOption.bind fun e =>
      (e.performAll stallingRun).toOption.map mode) = some .blocked := by decide +kernel
  obtain ⟨e, hbuilt, hran⟩ := Option.bind_eq_some_iff.mp hstalls
  obtain ⟨e', hrun, hmode⟩ := Option.map_eq_some_iff.mp hran
  rw [toOption_eq_some_iff] at hbuilt hrun
  exact ⟨e, e', hbuilt, hrun, hmode, (actuators_fit_mode (.motor hbuilt) hrun).2 (.inr hmode)⟩

end Engine

end MotionControl
