import MotionControl.Proofs.Engine.Consistency
import MotionControl.Proofs.Engine.Refusal
import MotionControl.Proofs.Engine.Supervision

/-!
# Resuming a stalled command

An engine that is blocked remembers the mode that it was blocked in, and leaves its target and its
order alone, however long it is kept waiting: no waypoint is loaded, and no cycle looks at what it
comes to.  A recovery takes up just that command.  It does not matter what the engine did before,
nor which other commands stalled.

- `Engine.EntersBlocked`: how an engine comes to be blocked, and out of which command.
- `Engine.Suspends`: a blocked engine, and the command that it was blocked in.
- `Engine.EntersBlocked.suspends`: that command is kept on the way in.
- `Hooks.Patient`, `Engine.Waits`: what may be done with a blocked engine.
- `Engine.Suspends.step`, `Engine.Suspends.waits`: waiting keeps the command.
- `Engine.recovery_resumes`: a recovery takes it up.
-/

namespace MotionControl

open Outcome

/-- Hooks that leave the state of a blocked engine alone.  They may give a cycle up. -/
structure Hooks.Patient {α σ : Type} (h : Hooks α σ) : Prop where
  before : ∀ {state world state' world'}, state.mode = .blocked →
    h.beforeControl state world = (.ok state', world') → state' = state
  after : ∀ {state world}, state.mode = .blocked → (h.afterControl state world).1 = state

/-- Discreet hooks are patient. -/
theorem Hooks.Discreet.patient {α σ : Type} {h : Hooks α σ} (hhooks : h.Discreet) : h.Patient :=
  ⟨fun _ => hhooks.before, fun _ => hhooks.after ..⟩

/-- A request that has to do with no command. -/
def Request.Incidental {α : Type} : Request α → Prop
  | .setPose _ | .setPathFollow _ | .setParameters .. => True
  | .setStallSettings _ | .setArrivalSettings _ | .setTimeoutSettings _ => True
  | _ => False

/-- Only one event blocks an engine that is not blocked. -/
theorem ModeMachine.next?_eq_blocked {m : ModeMachine} {event : ModeEvent}
    (hawake : m.mode ≠ .blocked) (h : m.next? event = some .blocked) :
    event = .blocked ∧ m.mode.isRegulating = true := by
  revert h hawake
  unfold next?
  cases m.mode with
  | stop | idle | running | runningSpeed | passthrough =>
    cases event <;> simp [Mode.isRegulating]
  | blocked => exact fun hawake => absurd rfl hawake

/-- No request asks for a blocked engine. -/
theorem Request.commands?_ne_blocked {α : Type} (what : Request α) :
    what.commands? ≠ some .blocked := by
  cases what with
  | requestMode mode => cases mode <;> simp [commands?, Mode.isRegulating]
  | _ => simp [commands?]

namespace Engine

variable {α σ : Type} [Scalar α] {e stalled entered waiting resumed : Engine α σ}

/-! ## Coming to be blocked -/

/-- An engine comes to be blocked out of the command of `stalled`: by a request, or at the end of a
cycle, which may have loaded a waypoint first. -/
inductive EntersBlocked (e : Engine α σ) : Engine α σ → Engine α σ → Prop where
  | told {what} (awake : e.mode ≠ .blocked) (blocked : (e.request what).mode = .blocked) :
      EntersBlocked e e (e.request what)
  | tripped {c} (controlled : e.controlled = .ok c) (awake : c.mode ≠ .blocked)
      (blocked : c.supervised.mode = .blocked) : EntersBlocked e c c.supervised

/-- A blocked engine has the command of another one to resume. -/
structure Suspends (stalled e : Engine α σ) : Prop where
  machine : e.machine = ⟨.blocked, stalled.mode⟩
  shown : e.state.mode = .blocked
  target : e.state.target = stalled.state.target
  order : e.state.order = stalled.state.order

/-- The event that blocks an engine keeps the command. -/
theorem suspends_of_accept (h : stalled.accept .blocked = .ok entered)
    (hregulating : stalled.mode.isRegulating = true) : Suspends stalled entered := by
  rw [accept_blocked hregulating] at h
  cases h
  exact ⟨rfl, rfl, rfl, rfl⟩

/-- A request blocks an engine by that event only. -/
theorem accept_of_request_blocked {what : Request α} (hawake : e.mode ≠ .blocked)
    (h : (e.request what).mode = .blocked) :
    e.accept .blocked = .ok (e.request what) ∧ e.mode.isRegulating = true := by
  have hevent {event target} (hnext : e.machine.next? event = some target)
      (hmode : (e.arrive event target).mode = .blocked) :
      e.accept .blocked = .ok (e.arrive event target) ∧ e.mode.isRegulating = true := by
    obtain rfl : target = .blocked := (arrive_mode e event target).symm.trans hmode
    obtain ⟨rfl, hregulating⟩ := ModeMachine.next?_eq_blocked hawake hnext
    exact ⟨accept_eq_ok_iff.mpr ⟨.blocked, hnext, rfl⟩, hregulating⟩
  by_cases hfed : ∃ event, what = .handle event
  · obtain ⟨event, rfl⟩ := hfed
    refine granted_cases (I := fun e' => e'.mode = .blocked →
      e.accept .blocked = .ok e' ∧ e.mode.isRegulating = true) (absurd · hawake)
      (fun e' haccept => ?_) h
    obtain ⟨target, hnext, rfl⟩ := accept_eq_ok_iff.mp haccept
    exact hevent hnext
  · have hanswer := request_answered e fun event hwhat => hfed ⟨event, hwhat⟩
    generalize e.request what = e' at hanswer h ⊢
    cases hanswer with
    | refused | reseated | told => exact absurd h hawake
    | moved next resting plain => exact hevent next h
    | recovered asked next => exact hevent next h
    | @commanded mode commands next goal order =>
      obtain rfl : mode = .blocked := (arrive_mode e (.toward mode) mode).symm.trans h
      exact absurd commands (Request.commands?_ne_blocked what)

/-- A stall blocks an engine by that event only. -/
theorem StallLook.suspends (h : StallLook stalled entered) (hawake : stalled.mode ≠ .blocked)
    (hregulating : stalled.mode.isRegulating = true) (hblocked : entered.mode = .blocked) :
    Suspends stalled entered := by
  cases h with
  | counted stall => exact absurd hblocked hawake
  | tripped accepted =>
    obtain ⟨hmachine, hshown, htarget, horder⟩ := suspends_of_accept accepted hregulating
    exact ⟨hmachine, hshown, htarget, horder⟩

/-- A cycle blocks an engine at the moment that it is looked at for a stall. -/
theorem suspends_supervised (hawake : stalled.mode ≠ .blocked)
    (hblocked : stalled.supervised.mode = .blocked) :
    Suspends stalled stalled.supervised ∧ stalled.mode.isRegulating = true := by
  have htrips : stalled.Trips := by
    refine Classical.byContradiction fun hcalm => ?_
    obtain halike | ⟨-, hidle⟩ := supervised_spec stalled
    · rw [halike.mode, stallChecked_mode hcalm] at hblocked
      exact hawake hblocked
    · rw [hidle] at hblocked
      cases hblocked
  have hregulating : stalled.mode.isRegulating = true := htrips.1.1
  have hchecked : Suspends stalled stalled.stallChecked := by
    have hmode := (stallChecked_of_trips htrips).mode
    rw [stallChecked, if_pos hregulating] at hmode ⊢
    exact (checkStall_spec stalled).suspends hawake hregulating hmode
  obtain ⟨telemetry, hsupervised⟩ := supervised_eq_of_trips htrips
  rw [hsupervised]
  exact ⟨⟨hchecked.machine, hchecked.shown, hchecked.target, hchecked.order⟩, hregulating⟩

/-- However an engine comes to be blocked, it was regulating, and it keeps the command. -/
theorem EntersBlocked.suspends (h : EntersBlocked e stalled entered) :
    Suspends stalled entered ∧ stalled.mode.isRegulating = true := by
  cases h with
  | told awake blocked =>
    obtain ⟨haccept, hregulating⟩ := accept_of_request_blocked awake blocked
    exact ⟨suspends_of_accept haccept hregulating, hregulating⟩
  | tripped controlled awake blocked => exact suspends_supervised awake blocked

/-! ## Waiting -/

namespace Suspends

omit [Scalar α] in
/-- Nothing else matters to the command. -/
theorem of_same {e' : Engine α σ} (h : Suspends stalled e) (hmachine : e'.machine = e.machine)
    (hshown : e'.state.mode = e.state.mode) (htarget : e'.state.target = e.state.target)
    (horder : e'.state.order = e.state.order) : Suspends stalled e' :=
  ⟨hmachine.trans h.machine, hshown.trans h.shown, htarget.trans h.target, horder.trans h.order⟩

omit [Scalar α] in
theorem mode (h : Suspends stalled e) : e.mode = .blocked := congrArg ModeMachine.mode h.machine

end Suspends

/-- A blocked engine does not follow its path. -/
theorem followPath_of_blocked (h : e.mode = .blocked) : e.followPath = e := by
  refine if_neg ?_
  rw [h, show loadsWaypoints .blocked = false from rfl, Bool.and_false]
  exact Bool.false_ne_true

/-- A cycle of a blocked engine, finished or given up, keeps the command. -/
theorem Suspends.step (h : Suspends stalled e) (hhooks : e.hooks.Patient) :
    Suspends stalled (left e.step) ∧ (left e.step).hooks.Patient := by
  have hcontrolled : Suspends stalled (left e.controlled) ∧ (left e.controlled).hooks.Patient := by
    refine left_controlled (I := fun e => Suspends stalled e ∧ e.hooks.Patient) ?_
      (fun hready ⟨he, hpatient⟩ => ?_) (fun hsteered ⟨he, hpatient⟩ => ?_)
      fun driven ⟨he, hpatient⟩ => ?_
    · rw [followPath_of_blocked (e := e.tick) h.mode]
      exact ⟨h.of_same rfl rfl rfl rfl, hhooks⟩
    · cases hready with
      | failed ran => exact ⟨he.of_same rfl rfl rfl rfl, hpatient⟩
      | ready ran =>
        cases hpatient.before he.shown ran
        exact ⟨he.of_same rfl (he.mode.trans he.shown.symm) rfl rfl, hpatient⟩
    · cases hsteered with
      | shown | sent => exact ⟨he.of_same rfl rfl rfl rfl, hpatient⟩
    · have hstate : driven.afterControl.state = driven.state := hpatient.after he.shown
      exact ⟨he.of_same rfl (congrArg _ hstate) (congrArg _ hstate) (congrArg _ hstate), hpatient⟩
  refine left_step (I := fun e => Suspends stalled e ∧ e.hooks.Patient) hcontrolled
    fun c ⟨hc, hpatient⟩ => ?_
  obtain ⟨telemetry, hsupervised⟩ := supervised_of_resting (congrArg Mode.isRegulating hc.mode)
  rw [hsupervised]
  exact ⟨hc.of_same rfl rfl rfl rfl, hpatient⟩

/-- A request that has to do with no command keeps it. -/
theorem Suspends.told {what : Request α} (h : Suspends stalled e) (hhooks : e.hooks.Patient)
    (hwhat : what.Incidental) :
    Suspends stalled (e.request what) ∧ (e.request what).hooks.Patient := by
  cases what with
  | handle | requestMode | enable | disable | dropCommand | recover => exact hwhat.elim
  | setPoseTarget | setSpeedTarget | setPassthrough | setSpeedOrder => exact hwhat.elim
  | setPose | setPathFollow => exact ⟨h.of_same rfl rfl rfl rfl, hhooks⟩
  | setParameters | setArrivalSettings | setTimeoutSettings =>
    refine granted_cases (I := fun e => Suspends stalled e ∧ e.hooks.Patient) ⟨h, hhooks⟩
      fun e' hset => ?_
    obtain ⟨_, -, hset⟩ := bind_eq_ok_iff.mp hset
    cases hset
    exact ⟨h.of_same rfl rfl rfl rfl, hhooks⟩
  | setStallSettings settings =>
    refine granted_cases (I := fun e => Suspends stalled e ∧ e.hooks.Patient) ⟨h, hhooks⟩
      fun e' hset => ?_
    rw [setStallSettings_eq_ok hset]
    by_cases henabled : settings.enabled
    · rw [if_pos henabled]
      exact ⟨h.of_same rfl rfl rfl rfl, hhooks⟩
    · rw [if_neg henabled]
      exact ⟨h.of_same rfl rfl rfl rfl, hhooks⟩

/-- Nothing but waiting: cycles, finished or given up, requests that are refused, and requests that
have to do with no command. -/
def Waits (e : Engine α σ) : List (Operation α) → Prop
  | [] => True
  | .step :: rest => (left e.step).Waits rest
  | .request what :: rest =>
    (what.Incidental ∨ ∃ reason, e.outcome what = .error reason) ∧ (e.request what).Waits rest

/-- However long an engine is kept waiting, it keeps the command. -/
theorem Suspends.waits {operations : List (Operation α)} (h : Suspends stalled e)
    (hhooks : e.hooks.Patient) (hwaits : e.Waits operations) :
    Suspends stalled (e.attemptAll operations) := by
  induction operations generalizing e with
  | nil => exact h
  | cons operation rest ih =>
    cases operation with
    | step =>
      obtain ⟨hkept, hpatient⟩ := h.step hhooks
      exact ih hkept hpatient hwaits
    | request what =>
      obtain ⟨hincidental | ⟨reason, hrefused⟩, hrest⟩ := hwaits
      · obtain ⟨hkept, hpatient⟩ := h.told hhooks hincidental
        exact ih hkept hpatient hrest
      · have hsame : e.request what = e := by
          rw [request_eq_granted, hrefused]
          rfl
        show Suspends stalled ((e.request what).attemptAll rest)
        rw [hsame] at hrest ⊢
        exact ih h hhooks hrest

/-! ## Recovery -/

/-- The command of `stalled` begins anew after the engine waited, and nobody is called for it. -/
structure Resumes (stalled waited resumed : Engine α σ) : Prop where
  mode : resumed.mode = stalled.mode
  shown : resumed.state.mode = stalled.mode
  target : resumed.state.target = stalled.state.target
  order : resumed.state.order = stalled.state.order
  status : resumed.state.status = .moving
  reached : resumed.state.reached = false
  intermediate : resumed.state.intermediate = false
  stalledCycles : resumed.state.stalledCycles = 0
  count : resumed.stall.cycles = 0
  commandCycle : resumed.state.commandCycle = resumed.state.cycle
  latch : resumed.arrival.positionLatched = false
  tree : resumed.tree = waited.tree.reset
  world : resumed.world = waited.world

/-- A recovery that leads to another mode enters it, and begins the command. -/
theorem arrive_recover_of_ne {target : Mode} (h : e.mode ≠ target) :
    e.arrive .recover target
      = (({ e with machine := e.machine.move .recover target } : Engine α σ).enter
          target).beginCommand := by
  have hchanged : (Transition.mk e.machine.mode target).changed = true := decide_eq_true h
  rw [arrive, if_pos rfl, if_pos hchanged]

/-- A recovery resumes what was suspended. -/
theorem Suspends.recover (h : Suspends stalled e) (hregulating : stalled.mode.isRegulating = true) :
    ∃ resumed, e.recover = .ok resumed ∧ Resumes stalled e resumed := by
  have hnext : e.machine.next? .recover = some stalled.mode := by
    rw [h.machine]
    rfl
  have hchanged : e.mode ≠ stalled.mode := by
    rw [h.mode]
    intro hsame
    rw [← hsame] at hregulating
    cases hregulating
  refine ⟨_, accept_eq_ok_iff.mpr ⟨_, hnext, rfl⟩, ?_⟩
  rw [arrive_recover_of_ne hchanged]
  -- Neither of the regulating modes calls anybody when it is entered.
  obtain hmode | hmode : stalled.mode = .running ∨ stalled.mode = .runningSpeed := by
    revert hregulating
    cases stalled.mode <;> simp [Mode.isRegulating]
  · rw [hmode]
    exact ⟨hmode.symm, hmode.symm, h.target, h.order, rfl, rfl, rfl, rfl, rfl, rfl, rfl, rfl, rfl⟩
  · rw [hmode]
    exact ⟨hmode.symm, hmode.symm, h.target, h.order, rfl, rfl, rfl, rfl, rfl, rfl, rfl, rfl, rfl⟩

/-- However an engine comes to be blocked, and however long it is kept waiting, a recovery takes up
the command that it was blocked in, from its beginning and without a call to anybody.  The engine
is any: it may have stalled before, and recovered, in whatever modes. -/
theorem recovery_resumes (hblocked : EntersBlocked e stalled entered)
    (hhooks : entered.hooks.Patient) {operations : List (Operation α)}
    (hwaits : entered.Waits operations) :
    stalled.mode.isRegulating = true ∧
      ∃ resumed, (entered.attemptAll operations).recover = .ok resumed ∧
        Resumes stalled (entered.attemptAll operations) resumed := by
  obtain ⟨hsuspends, hregulating⟩ := hblocked.suspends
  exact ⟨hregulating, (hsuspends.waits hhooks hwaits).recover hregulating⟩

/-- The axis that never turns stalls on its way to a target, takes it up again, and is then told a
speed. -/
def stalledOnce : List (Operation Float) :=
  [.request .enable, .request (.setStallSettings ⟨true, 1, 1, 1⟩),
    .request (.setPoseTarget (.final (.of 100 0 0))), .step, .request .recover,
    .request (.setSpeedTarget (.speed 50 0))]

/-- It is told something and waits for two cycles. -/
def patience : List (Operation Float) := [.step, .request (.setPathFollow true), .step]

/-- What it takes up after the second stall is the speed. -/
theorem stuckLift_resumes :
    ∃ e c resumed, stuckLift = .ok e ∧ (e.attemptAll stalledOnce).controlled = .ok c ∧
      c.mode = .runningSpeed ∧ c.supervised.mode = .blocked ∧
      (c.supervised.attemptAll patience).recover = .ok resumed ∧
      resumed.mode = .runningSpeed ∧ resumed.state.order = c.state.order ∧
      resumed.state.target = c.state.target ∧ resumed.state.status = .moving := by
  have hstalls : (stuckLift.toOption.bind fun e =>
      (e.attemptAll stalledOnce).controlled.toOption.map fun c => (c.mode, c.supervised.mode))
        = some (.runningSpeed, .blocked) := by decide +kernel
  obtain ⟨e, hbuilt, hran⟩ := Option.bind_eq_some_iff.mp hstalls
  obtain ⟨c, hc, hmodes⟩ := Option.map_eq_some_iff.mp hran
  rw [toOption_eq_some_iff] at hbuilt hc
  obtain ⟨hmode, hblocked⟩ := Prod.mk.inj hmodes
  have hawake : c.mode ≠ .blocked := by
    rw [hmode]
    decide
  have hhooks : c.supervised.hooks.Patient := by
    have hoperable := (Built.motor hbuilt).operable
    have hkept := hoperable.attemptAll_maintained stalledOnce
    have hstepped := (hoperable.of_maintained hkept).step_maintained
    rw [step_eq, hc] at hstepped
    have hsame : c.supervised.hooks = e.hooks := hstepped.hooks.trans hkept.hooks
    obtain ⟨_, _, -, rfl⟩ := ofMotor_eq_ok hbuilt
    rw [hsame]
    exact Hooks.idle_discreet.patient
  have hwaits : c.supervised.Waits patience := ⟨.inl trivial, trivial⟩
  obtain ⟨-, resumed, hrecover, hresumes⟩ :=
    recovery_resumes (.tripped hc hawake hblocked) hhooks hwaits
  exact ⟨e, c, resumed, hbuilt, hc, hmode, hblocked, hrecover, hresumes.mode.trans hmode,
    hresumes.order, hresumes.target, hresumes.status⟩

end Engine

end MotionControl
