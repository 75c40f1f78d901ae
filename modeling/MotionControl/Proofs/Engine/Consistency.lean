import MotionControl.Proofs.Engine.Reporting

/-!
# A consistent picture

Callers decide from a few fields of the state whether a move is over: the mode, the status and two
flags.  They are written in many places, and agree with each other wherever they are looked at.

- `Engine.Consistent`: how the fields agree.
- `Engine.Consistent.begun`: a command that begins makes them agree, whatever they were.
- `Engine.Consistent.of_same`: so does whatever leaves the progress alone, if it leads to no other
  regulating mode.
- `Engine.Consistent.answered`, `Engine.Consistent.step`: a request, and a cycle.
- `Engine.stays_consistent`: everything that is done with an engine.
-/

namespace MotionControl

open Outcome

namespace Engine

variable {α σ : Type} [Scalar α] {e e' : Engine α σ}

/-! ## The fields -/

/-- The mode on display is the mode of the engine, and goes with the progress on display. -/
structure Consistent (e : Engine α σ) : Prop where
  shown : e.state.mode = e.mode
  moving : e.state.status = .moving → e.state.reached = false
  timeout : e.state.status = .timeout → e.state.reached = false
  reached : e.state.status = .reached → e.state.reached = true ∧ e.state.intermediate = false
  passed : e.state.status = .intermediateReached →
    e.state.reached = true ∧ e.state.intermediate = true
  /-- A blocked engine may have reached its target before. -/
  intermediate : e.state.intermediate = true → e.state.reached = true
  running : e.mode = .running →
    e.state.status = .moving ∨ e.state.status = .reached ∨ e.state.status = .intermediateReached
  runningSpeed : e.mode = .runningSpeed → e.state.status = .moving ∧ e.state.reached = false
  command : e.state.commandCycle ≤ e.state.cycle

/-- The progress on display is the same, and as old as before. -/
structure SameProgress (e e' : Engine α σ) : Prop where
  reached : e'.state.reached = e.state.reached
  intermediate : e'.state.intermediate = e.state.intermediate
  status : e'.state.status = e.state.status
  commandCycle : e'.state.commandCycle = e.state.commandCycle
  cycle : e'.state.cycle = e.state.cycle

namespace Consistent

omit [Scalar α] in
/-- The progress of a command goes with its mode, and with every mode that does not regulate. -/
theorem of_same (h : Consistent e) (hsame : SameProgress e e')
    (hshown : e'.state.mode = e'.mode) (hmode : e'.mode = e.mode ∨ e'.mode.isRegulating = false) :
    Consistent e' where
  shown := hshown
  moving hstatus := by
    rw [hsame.status] at hstatus
    rw [hsame.reached]
    exact h.moving hstatus
  timeout hstatus := by
    rw [hsame.status] at hstatus
    rw [hsame.reached]
    exact h.timeout hstatus
  reached hstatus := by
    rw [hsame.status] at hstatus
    rw [hsame.reached, hsame.intermediate]
    exact h.reached hstatus
  passed hstatus := by
    rw [hsame.status] at hstatus
    rw [hsame.reached, hsame.intermediate]
    exact h.passed hstatus
  intermediate hpassed := by
    rw [hsame.intermediate] at hpassed
    rw [hsame.reached]
    exact h.intermediate hpassed
  running hrunning := by
    obtain hkept | hresting := hmode
    · rw [hsame.status]
      exact h.running (hkept.symm.trans hrunning)
    · rw [hrunning] at hresting
      cases hresting
  runningSpeed hspeed := by
    obtain hkept | hresting := hmode
    · rw [hsame.status, hsame.reached]
      exact h.runningSpeed (hkept.symm.trans hspeed)
    · rw [hspeed] at hresting
      cases hresting
  command := by
    rw [hsame.commandCycle, hsame.cycle]
    exact h.command

omit [Scalar α] in
/-- A command begins with a clean slate. -/
theorem begun (hshown : e.state.mode = e.mode) : Consistent e.beginCommand where
  shown := hshown
  moving _ := rfl
  timeout hstatus := by cases hstatus
  reached hstatus := by cases hstatus
  passed hstatus := by cases hstatus
  intermediate hpassed := by cases hpassed
  running _ := .inl rfl
  runningSpeed _ := ⟨rfl, rfl⟩
  command := UInt64.le_refl _

end Consistent

/-! ## Requests -/

/-- Entering a mode shows it, and leaves the rest of the state alone. -/
theorem enter_progress (e : Engine α σ) (target : Mode) :
    SameProgress e (e.enter target) ∧ (e.enter target).state.mode = target := by
  cases target with
  | stop | idle | blocked | running | runningSpeed | passthrough =>
    exact ⟨⟨rfl, rfl, rfl, rfl, rfl⟩, rfl⟩

/-- The mode on display follows an event. -/
theorem arrive_shown (hshown : e.state.mode = e.mode) (event : ModeEvent) (target : Mode) :
    (e.arrive event target).state.mode = (e.arrive event target).mode := by
  rw [arrive_mode]
  refine arrive_cases (I := (·.state.mode = target)) (fun hkept => hshown.trans hkept)
    (fun _ => ?_) fun _ _ hentered => hentered
  exact (enter_progress { e with machine := e.machine.move event target } target).2

/-- No event but a recovery touches the progress. -/
theorem arrive_progress {event : ModeEvent} (hplain : event ≠ .recover) (target : Mode) :
    SameProgress e (e.arrive event target) := by
  refine arrive_cases (fun _ => ⟨rfl, rfl, rfl, rfl, rfl⟩) (fun _ => ?_)
    fun hrecover => absurd hrecover hplain
  obtain ⟨hsame, -⟩ := enter_progress { e with machine := e.machine.move event target } target
  exact ⟨hsame.reached, hsame.intermediate, hsame.status, hsame.commandCycle, hsame.cycle⟩

/-- A recovery is an event like any other and the beginning of a command. -/
theorem arrive_recover (e : Engine α σ) (target : Mode) :
    ∃ entered : Engine α σ, e.arrive .recover target = entered.beginCommand ∧
      (e.state.mode = e.mode → entered.state.mode = entered.mode) := by
  let moved : Engine α σ := { e with machine := e.machine.move .recover target }
  by_cases hchanged : (Transition.mk e.machine.mode target).changed
  · refine ⟨moved.enter target, ?_, fun _ => ?_⟩
    · rw [arrive, if_pos rfl, if_pos hchanged]
    · rw [(enter_progress moved target).2, mode, (enter_spec moved target).1]
      rfl
  · refine ⟨moved, ?_, fun hshown => hshown.trans ?_⟩
    · rw [arrive, if_pos rfl, if_neg hchanged]
    · show e.machine.mode = target
      simpa [Transition.changed] using hchanged

/-- Whatever comes of a request is consistent. -/
theorem Consistent.answered (h : Consistent e) {what : Request α}
    (hanswer : Answered e what e') : Consistent e' := by
  cases hanswer with
  | refused => exact h
  | @moved event target next resting plain =>
    refine h.of_same (arrive_progress plain target) (arrive_shown h.shown event target) (.inr ?_)
    rw [arrive_mode]
    exact resting
  | @recovered target asked next =>
    obtain ⟨entered, hentered, hshown⟩ := arrive_recover e target
    rw [hentered]
    exact begun (hshown h.shown)
  | @commanded mode commands next goal order =>
    exact begun (arrive_shown h.shown (.toward mode) mode)
  | reseated | told => exact h.of_same ⟨rfl, rfl, rfl, rfl, rfl⟩ h.shown (.inl rfl)

/-! ## The first half of a cycle -/

omit [Scalar α] in
/-- The next cycle is not before the command, as long as its number does not wrap. -/
theorem Consistent.tick (h : Consistent e) (hroom : e.state.cycle.toNat + 1 < 2 ^ 64) :
    Consistent e.tick where
  shown := h.shown
  moving := h.moving
  timeout := h.timeout
  reached := h.reached
  passed := h.passed
  intermediate := h.intermediate
  running := h.running
  runningSpeed := h.runningSpeed
  command := by
    have hcommand := h.command
    show e.state.commandCycle ≤ e.state.cycle + 1
    rw [UInt64.le_iff_toNat_le] at hcommand ⊢
    rw [UInt64.toNat_add]
    show _ ≤ (_ + 1) % 2 ^ 64
    omega

/-- A new target makes the state consistent, however it was before. -/
theorem setPoseTarget_consistent {target : PathPose α} (hshown : e.state.mode = e.mode)
    (h : e.setPoseTarget target = .ok e') : Consistent e' := by
  obtain ⟨arrived, haccept, hset⟩ := bind_eq_ok_iff.mp h
  cases hset
  obtain ⟨reached, -, rfl⟩ := accept_eq_ok_iff.mp haccept
  exact .begun (arrive_shown hshown .poseTarget reached)

omit [Scalar α] in
theorem Looked.consistent {next : Option (PathPose α) × Engine α σ} (h : Looked e next)
    (he : Consistent e) : Consistent next.2 := by
  cases h with
  | nothing => exact he
  | first | dropped => exact he.of_same ⟨rfl, rfl, rfl, rfl, rfl⟩ he.shown (.inl rfl)

theorem followPath_consistent (h : Consistent e) : Consistent e.followPath := by
  cases followPath_spec e with
  | looked look => exact look.consistent h
  | loaded loads look accepted => exact setPoseTarget_consistent (look.consistent h).shown accepted

omit [Scalar α] in
/-- Discreet hooks leave the state consistent, also when they give up. -/
theorem Readied.consistent (hhooks : e.hooks.Discreet)
    {outcome : Except (Interrupted α σ) (Engine α σ)} (h : Readied e outcome) (he : Consistent e) :
    Consistent (left outcome) := by
  cases h with
  | failed ran => exact he.of_same ⟨rfl, rfl, rfl, rfl, rfl⟩ he.shown (.inl rfl)
  | ready ran =>
    cases hhooks.before ran
    exact he.of_same ⟨rfl, rfl, rfl, rfl, rfl⟩ rfl (.inl rfl)

omit [Scalar α] in
theorem Steered.consistent (h : Steered e e') (he : Consistent e) : Consistent e' := by
  cases h with
  | shown | sent => exact he.of_same ⟨rfl, rfl, rfl, rfl, rfl⟩ he.shown (.inl rfl)

omit [Scalar α] in
theorem afterControl_consistent (hhooks : e.hooks.Discreet) (he : Consistent e) :
    Consistent e.afterControl := by
  have hstate : e.afterControl.state = e.state := hhooks.after e.state e.world
  have hsame : SameProgress e e.afterControl :=
    ⟨congrArg ControlState.reached hstate, congrArg ControlState.intermediate hstate,
      congrArg ControlState.status hstate, congrArg ControlState.commandCycle hstate,
      congrArg ControlState.cycle hstate⟩
  refine he.of_same hsame ?_ (.inl rfl)
  rw [hstate]
  exact he.shown

/-- The first half of a cycle begins a command for a waypoint, and leaves every other one alone. -/
theorem left_controlled_consistent (hhooks : e.hooks.Discreet) (h : Consistent e)
    (hroom : e.state.cycle.toNat + 1 < 2 ^ 64) : Consistent (left e.controlled) := by
  have hfollowed := followPath_consistent (h.tick hroom)
  have hsensed : Consistent e.tick.followPath.sense :=
    hfollowed.of_same ⟨rfl, rfl, rfl, rfl, rfl⟩ hfollowed.shown (.inl rfl)
  have hsame : e.tick.followPath.sense.hooks = e.hooks := (sensed_maintained e).hooks
  -- The hooks are the same all along, and leave the state alone.
  have hboth : Consistent (left e.controlled) ∧ (left e.controlled).hooks.Discreet := by
    refine left_controlled (I := fun e => Consistent e ∧ e.hooks.Discreet)
      ⟨hsensed, hsame ▸ hhooks⟩ (fun hready ⟨he, hdiscreet⟩ => ?_)
      (fun hsteered ⟨he, hdiscreet⟩ => ?_) fun driven ⟨he, hdiscreet⟩ => ?_
    · exact ⟨hready.consistent hdiscreet he,
        (hready.unreported hdiscreet.punctual).hooks ▸ hdiscreet⟩
    · exact ⟨hsteered.consistent he, hsteered.unreported.hooks ▸ hdiscreet⟩
    · exact ⟨afterControl_consistent hdiscreet he, hdiscreet⟩
  exact hboth.1

/-! ## The looks at the outcome -/

/-- A stall leads out of every regulating mode, and says nothing of the target. -/
theorem StallLook.consistent (h : StallLook e e') (he : Consistent e) : Consistent e' := by
  cases h with
  | counted stall => exact he.of_same ⟨rfl, rfl, rfl, rfl, rfl⟩ he.shown (.inl rfl)
  | @tripped stall blocked accepted =>
    obtain ⟨target, hnext, rfl⟩ := accept_eq_ok_iff.mp accepted
    have hblocked : target = .blocked := ModeMachine.next?_toward .blocked hnext
    rw [hblocked]
    set counted : Engine α σ :=
      { e with stall, state := { e.state with stalledCycles := stall.cycles } }
    have hsame : SameProgress counted (counted.arrive .blocked .blocked) :=
      arrive_progress (by decide) .blocked
    have hmode : (counted.arrive .blocked .blocked).mode = .blocked := arrive_mode ..
    refine ⟨arrive_shown (e := counted) he.shown .blocked .blocked, ?_, ?_, ?_, ?_, ?_, ?_, ?_, ?_⟩
    · rintro ⟨⟩
    · rintro ⟨⟩
    · rintro ⟨⟩
    · rintro ⟨⟩
    · intro hpassed
      exact hsame.reached.trans (he.intermediate (hsame.intermediate.symm.trans hpassed))
    · intro hrunning
      cases hmode.symm.trans hrunning
    · intro hspeed
      cases hmode.symm.trans hspeed
    · show (counted.arrive .blocked .blocked).state.commandCycle ≤ _
      rw [hsame.commandCycle, hsame.cycle]
      exact he.command

/-- A target that becomes reached is shown so in every field. -/
theorem ArrivalLook.consistent (hmode : e.mode = .running) (h : ArrivalLook e e')
    (he : Consistent e) : Consistent e' := by
  cases h with
  | before reached => exact he
  | away unreached judged moving => exact he.of_same ⟨rfl, rfl, rfl, rfl, rfl⟩ he.shown (.inl rfl)
  | @arrived status arrival state unreached judged there shown =>
    subst shown
    refine ⟨he.shown, ?_, ?_, ?_, ?_, fun _ => rfl, ?_, ?_, he.command⟩
    · rintro rfl
      cases there
    · rintro rfl
      cases there
    · rintro rfl
      exact ⟨rfl, rfl⟩
    · rintro rfl
      exact ⟨rfl, rfl⟩
    · intro _
      cases status with
      | reached => exact .inr (.inl rfl)
      | intermediateReached => exact .inr (.inr rfl)
      | moving | blocked | timeout => cases there
    · intro hspeed
      cases hmode.symm.trans hspeed

/-- A target that is given up was not reached. -/
theorem TimeoutLook.consistent (hmode : e.mode = .running) (h : TimeoutLook e e')
    (he : Consistent e) : Consistent e' := by
  obtain rfl | ⟨-, hidle⟩ := h.carried hmode
  · exact he
  cases h with
  | pending => exact he
  | @expired idle unreached expired entered =>
    obtain ⟨hsame, hshown⟩ :=
      enter_progress { e with machine := e.machine.forceIdle } e.machine.forceIdle.mode
    rw [← entered] at hsame hshown
    have hmissed : idle.state.reached = false := hsame.reached.trans unreached
    refine ⟨?_, ?_, fun _ => hmissed, ?_, ?_, ?_, ?_, ?_, ?_⟩
    · have hforced : idle.machine = e.machine.forceIdle := by
        rw [entered]
        exact (enter_spec _ _).1
      exact hshown.trans (congrArg ModeMachine.mode hforced).symm
    · rintro ⟨⟩
    · rintro ⟨⟩
    · rintro ⟨⟩
    · intro hpassed
      exact hsame.reached.trans (he.intermediate (hsame.intermediate.symm.trans hpassed))
    · intro hrunning
      cases hidle.symm.trans hrunning
    · intro hspeed
      cases hidle.symm.trans hspeed
    · show idle.state.commandCycle ≤ idle.state.cycle
      rw [hsame.commandCycle, hsame.cycle]
      exact he.command

/-- So do the looks at the end of a cycle. -/
theorem supervised_consistent (h : Consistent e) : Consistent e.supervised := by
  have htarget : Consistent e.stallChecked.checkTarget :=
    checkTarget_invariant StallLook.consistent ArrivalLook.consistent TimeoutLook.consistent h
  obtain ⟨telemetry, hpublished⟩ := publish_eq e.stallChecked.checkTarget
  rw [supervised, hpublished]
  exact htarget.of_same ⟨rfl, rfl, rfl, rfl, rfl⟩ htarget.shown (.inl rfl)

/-! ## Runs -/

/-- A cycle leaves a consistent picture, finished or given up. -/
theorem Consistent.step (h : Consistent e) (hhooks : e.hooks.Discreet)
    (hroom : e.state.cycle.toNat + 1 < 2 ^ 64) : Consistent (left e.step) :=
  left_step (left_controlled_consistent hhooks h hroom) fun _ => supervised_consistent

/-- How many cycles there are among operations. -/
def cyclesAmong (operations : List (Operation α)) : Nat :=
  operations.countP (· matches .step)

/-- Everything that is done with an engine leaves a consistent picture. -/
theorem Consistent.attemptAll (h : Consistent e) (hhooks : e.hooks.Discreet)
    {operations : List (Operation α)}
    (hplain : ∀ event, .request (.handle event) ∉ operations)
    (hroom : e.state.cycle.toNat + cyclesAmong operations < 2 ^ 64) :
    Consistent (e.attemptAll operations) := by
  induction operations generalizing e with
  | nil => exact h
  | cons operation rest ih =>
    have hrest : ∀ event, .request (.handle event) ∉ rest :=
      fun event hmem => hplain event (List.mem_cons_of_mem _ hmem)
    cases operation with
    | step =>
      have hcount : cyclesAmong (.step :: rest) = cyclesAmong rest + 1 :=
        List.countP_cons_of_pos rfl
      obtain ⟨hcycle, hsame⟩ := (step_stepped hhooks.punctual).cycle
      refine ih (h.step hhooks (by omega)) (hsame ▸ hhooks) hrest ?_
      show (left e.step).state.cycle.toNat + _ < _
      rw [hcycle, UInt64.toNat_add]
      show (_ + 1) % 2 ^ 64 + _ < _
      omega
    | request what =>
      have hcount : cyclesAmong (.request what :: rest) = cyclesAmong rest :=
        List.countP_cons_of_neg (by simp)
      have hanswer : Answered e what (e.request what) :=
        request_answered e fun event hwhat => hplain event (hwhat ▸ List.mem_cons_self)
      have hsame := request_unreported e what
      refine ih (h.answered hanswer) (hsame.hooks ▸ hhooks) hrest ?_
      show (e.request what).state.cycle.toNat + _ < _
      rw [hsame.cycle]
      omega

/-- An engine in Stop has nothing to show. -/
theorem ofParts_consistent (name : String) (parameters : EngineParameters α) (tree : Node α)
    (stall : StallSettings α) (arrival : ArrivalSettings α) (pathFollow : Bool)
    (plant : Plant α σ) (actuators : Actuators α σ) (attachments : Attachments α σ) (world : σ) :
    Consistent (ofParts name parameters tree stall arrival pathFollow plant actuators attachments
      world) where
  shown := rfl
  moving _ := rfl
  timeout _ := rfl
  reached hstatus := by cases hstatus
  passed hstatus := by cases hstatus
  intermediate hpassed := by cases hpassed
  running hrunning := by cases hrunning
  runningSpeed hspeed := by cases hspeed
  command := UInt64.le_refl _

/-- An engine begins with a consistent state. -/
theorem Built.consistent (h : Built e) : Consistent e := by
  cases h with
  | platform built =>
    obtain ⟨_, _, -, rfl⟩ := ofPlatform_eq_ok built
    exact ofParts_consistent ..
  | motor built =>
    obtain ⟨_, _, -, rfl⟩ := ofMotor_eq_ok built
    exact ofParts_consistent ..

/-- Whatever is done with an engine, in whatever order, the mode, the status and the flags on
display agree with each other and with the mode of the engine: after every request, accepted or
refused, and after every cycle, finished or given up.  No event is fed by hand, the hooks leave the
state alone, and there are not so many cycles that their number wraps. -/
theorem stays_consistent {operations : List (Operation α)} (hbuilt : Built e)
    (hhooks : e.hooks.Discreet) (hplain : ∀ event, .request (.handle event) ∉ operations)
    (hroom : cyclesAmong operations < 2 ^ 64) : Consistent (e.attemptAll operations) := by
  refine hbuilt.consistent.attemptAll hhooks hplain ?_
  rw [hbuilt.cycle]
  show 0 + _ < _
  omega

/-- An axis stalls and takes its command up again. -/
def secondAttempt : List (Operation Float) := almostStalled ++ [.step, .request .recover]

/-- It shows a command that goes on. -/
theorem secondAttempt_is_consistent :
    ∃ e, stuckLift = .ok e ∧ Consistent (e.attemptAll secondAttempt) ∧
      (e.attemptAll secondAttempt).state.mode = .runningSpeed ∧
      (e.attemptAll secondAttempt).state.status = .moving ∧
      (e.attemptAll secondAttempt).state.reached = false := by
  have hran : (stuckLift.toOption.map fun e => (e.attemptAll secondAttempt).mode)
      = some .runningSpeed := by decide +kernel
  obtain ⟨e, hbuilt, hmode⟩ := Option.map_eq_some_iff.mp hran
  rw [toOption_eq_some_iff] at hbuilt
  have hhooks : e.hooks.Discreet := by
    obtain ⟨_, _, -, rfl⟩ := ofMotor_eq_ok hbuilt
    exact Hooks.idle_discreet
  have hplain : ∀ event, .request (.handle event) ∉ secondAttempt := by
    intro event hmem
    simp [secondAttempt, almostStalled] at hmem
  have hconsistent := stays_consistent (.motor hbuilt) hhooks hplain (by decide)
  obtain ⟨hstatus, hreached⟩ := hconsistent.runningSpeed hmode
  exact ⟨e, hbuilt, hconsistent, hconsistent.shown.trans hmode, hstatus, hreached⟩

end Engine

end MotionControl
