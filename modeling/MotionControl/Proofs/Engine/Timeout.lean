import MotionControl.Proofs.Engine.Supervision

/-!
# Timeouts

A pose command is given up by the first cycle that is later than the timeout allows, and by no
cycle before it: with a timeout of `limit` cycles, by cycle `limit + 1` after the command.  A
target that was reached by then is never given up.

- `Engine.PoseCommand`: the requests that a pose command begins with.
- `Engine.Pursuit`: what no cycle after the command changes, and how old the command is.
- `Engine.Course`: what may have become of a command that has not timed out.
- `Engine.timeout_is_exact`: what becomes of a command.
-/

namespace MotionControl

open Outcome

namespace Engine

variable {α σ : Type} [Scalar α] {e e' c start : Engine α σ} {n : Nat}

/-! ## Commands -/

/-- A pose command that the engine accepted: a pose target, the way into Running, or the
recovery of a move that stalled. -/
inductive PoseCommand (e : Engine α σ) : Engine α σ → Prop where
  | aimed {target after} (accepted : e.setPoseTarget target = .ok after) : PoseCommand e after
  | resumed {after} (accepted : e.requestMode .running = .ok after) : PoseCommand e after
  | recovered {after} (accepted : e.recover = .ok after) (running : after.mode = .running) :
      PoseCommand e after

/-- A command begins in Running, and nothing has become of it yet. -/
structure Begun (e : Engine α σ) : Prop where
  mode : e.mode = .running
  reached : e.state.reached = false
  status : e.state.status = .moving
  fresh : e.state.commandCycle = e.state.cycle

/-- A pose command has begun when it is accepted. -/
theorem PoseCommand.begun (h : PoseCommand e e') : Begun e' := by
  cases h with
  | aimed accepted =>
    have hmode := setPoseTarget_mode accepted
    obtain ⟨arrived, -, hset⟩ := bind_eq_ok_iff.mp accepted
    cases hset
    exact ⟨hmode, rfl, rfl, rfl⟩
  | resumed accepted =>
    obtain ⟨arrived, haccept, hset⟩ := bind_eq_ok_iff.mp accepted
    cases hset
    have hmode : arrived.mode = .running := accept_poseTarget_mode haccept
    exact ⟨hmode, rfl, rfl, rfl⟩
  | recovered accepted running =>
    obtain ⟨target, -, rfl⟩ := accept_eq_ok_iff.mp accepted
    exact ⟨running, rfl, rfl, rfl⟩

theorem PoseCommand.maintained (h : PoseCommand e e') : Maintained e e' := by
  cases h with
  | aimed accepted => exact setPoseTarget_maintained accepted
  | resumed accepted => exact requestMode_maintained accepted
  | recovered accepted running => exact accept_maintained accepted

/-! ## The age of a command -/

/-- What no cycle after a command changes.  The number of the cycle counts from the command on,
and wraps. -/
structure Pursuit (start : Engine α σ) (n : Nat) (e : Engine α σ) : Prop where
  hooks : e.hooks = start.hooks
  parameters : e.parameters = start.parameters
  pathFollow : e.state.pathFollow = start.state.pathFollow
  commandCycle : e.state.commandCycle = start.state.commandCycle
  cycle : e.state.cycle.toNat = (start.state.cycle.toNat + n) % 2 ^ 64

namespace Pursuit

omit [Scalar α] in
theorem refl (start : Engine α σ) : Pursuit start 0 start where
  hooks := rfl
  parameters := rfl
  pathFollow := rfl
  commandCycle := rfl
  cycle := by
    have hbound := start.state.cycle.toNat_lt
    omega

/-- A cycle goes on with what it finds until it is looked at. -/
theorem controlled (h : Pursuit start n e) (hhooks : start.hooks.Discreet)
    (hpath : start.state.pathFollow = false) (hc : e.controlled = .ok c) :
    Pursuit start (n + 1) c ∧ c.mode = e.mode ∧ c.state.reached = e.state.reached ∧
      c.state.status = e.state.status := by
  have hoff : e.tick.state.pathFollow = false := h.pathFollow.trans hpath
  have hcommanded := controlled_commanded (h.hooks ▸ hhooks) hc
  rw [followPath_of_off hoff] at hcommanded
  obtain ⟨_, _, _, hstate⟩ := hcommanded.state
  refine ⟨⟨hcommanded.hooks.trans h.hooks, hcommanded.parameters.trans h.parameters, ?_, ?_, ?_⟩,
    congrArg ModeMachine.mode hcommanded.machine, ?_, ?_⟩
  · rw [hstate]
    exact h.pathFollow
  · rw [hstate]
    exact h.commandCycle
  · have hcycle := h.cycle
    rw [hstate]
    show (e.state.cycle + 1).toNat = _
    rw [UInt64.toNat_add, hcycle]
    show (_ + 1) % 2 ^ 64 = _
    omega
  · rw [hstate]
    rfl
  · rw [hstate]
    rfl

/-- The looks at the end of a cycle leave a pursuit going. -/
theorem supervised (h : Pursuit start n c) : Pursuit start n c.supervised := by
  have hoverlooked := supervised_overlooked c
  refine ⟨hoverlooked.hooks.trans h.hooks, hoverlooked.parameters.trans h.parameters,
    hoverlooked.pathFollow.trans h.pathFollow, hoverlooked.commandCycle.trans h.commandCycle, ?_⟩
  rw [hoverlooked.cycle]
  exact h.cycle

/-- After so many cycles the pursuit is as old. -/
theorem steps (hhooks : start.hooks.Discreet) (hpath : start.state.pathFollow = false)
    (hsteps : start.steps n = .ok e) : Pursuit start n e := by
  induction n generalizing e with
  | zero =>
    cases hsteps
    exact .refl start
  | succ n ih =>
    obtain ⟨c, hc, rfl⟩ := steps_succ_eq_ok_iff.mp hsteps
    obtain ⟨before, hbefore, hc⟩ := bind_eq_ok_iff.mp hc
    exact ((ih hbefore).controlled hhooks hpath hc).1.supervised

omit [Scalar α] in
/-- A command that is `n` cycles old has timed out when more of them have passed than it may
take. -/
theorem timedOut_iff {limit : UInt32} (h : Pursuit start n e)
    (hfresh : start.state.commandCycle = start.state.cycle)
    (htimeout : start.parameters.timeout = ⟨true, limit⟩)
    (hroom : start.state.cycle.toNat + n < 2 ^ 64) :
    e.parameters.timedOut e.state = true ↔ limit.toNat < n := by
  have hcycle := h.cycle
  have hcommand : e.state.commandCycle.toNat = start.state.cycle.toNat := by
    rw [h.commandCycle, hfresh]
  -- Without a wrap the counter is not behind the command, and the difference is the age.
  have hnow : e.state.commandCycle ≤ e.state.cycle := by
    rw [UInt64.le_iff_toNat_le]
    omega
  have helapsed : e.state.elapsed.toNat = n := by
    rw [ControlState.elapsed, if_pos hnow, UInt64.toNat_sub_of_le _ _ hnow]
    omega
  rw [EngineParameters.timedOut, h.parameters, htimeout, Bool.true_and, decide_eq_true_iff,
    UInt64.lt_iff_toNat_lt, UInt32.toNat_toUInt64, helapsed]

end Pursuit

/-! ## What becomes of a command -/

/-- What may have become of a command that has not timed out. -/
inductive Course (e : Engine α σ) : Prop where
  | pending (on : GoesOn false .moving e)
  | reached {status} (on : GoesOn true status e) (arrived : status.isReached = true)
  | blocked (mode : e.mode = .blocked) (status : e.state.status = .blocked)

namespace Course

omit [Scalar α] in
theorem not_timeout (h : Course e) : e.state.status ≠ .timeout := by
  intro htimeout
  cases h with
  | pending on => cases on.status.symm.trans htimeout
  | reached on arrived =>
    cases on.status.symm.trans htimeout
    cases arrived
  | blocked mode status => cases status.symm.trans htimeout

omit [Scalar α] in
/-- Only the mode and the progress on show matter. -/
theorem of_same (h : Course e) (hmode : e'.mode = e.mode)
    (hreached : e'.state.reached = e.state.reached) (hstatus : e'.state.status = e.state.status) :
    Course e' := by
  cases h with
  | pending on =>
    exact .pending ⟨hmode.trans on.mode, hreached.trans on.reached, hstatus.trans on.status⟩
  | reached on arrived =>
    exact .reached ⟨hmode.trans on.mode, hreached.trans on.reached, hstatus.trans on.status⟩ arrived
  | blocked mode status => exact .blocked (hmode.trans mode) (hstatus.trans status)

end Course

/-- As long as it is not late, a cycle does not give the command up. -/
theorem Course.supervised (h : Course c) (hpending : c.parameters.timedOut c.state = false) :
    Course c.supervised := by
  -- A trip ends the course whatever it was, so it goes first.
  by_cases htrips : c.Trips
  · have hblocked := supervised_of_trips htrips
    exact .blocked hblocked.mode hblocked.status
  cases h with
  | pending on =>
    by_cases harrives : c.Arrives
    · exact .reached (supervised_of_arrives on.mode htrips on.reached harrives) harrives
    · have hon := supervised_of_pending on.mode htrips on.reached harrives hpending
      rw [on.status] at hon
      exact .pending hon
  | reached on arrived =>
    have hon := supervised_of_reached on.mode htrips on.reached
    rw [on.status] at hon
    exact .reached hon arrived
  | blocked mode status =>
    obtain ⟨telemetry, hsupervised⟩ := supervised_of_resting (congrArg Mode.isRegulating mode)
    rw [hsupervised]
    exact .blocked mode status

/-! ## The run after a command -/

section Run

variable {limit : UInt32} (hbegun : Begun start) (hhooks : start.hooks.Discreet)
  (hpath : start.state.pathFollow = false) (htimeout : start.parameters.timeout = ⟨true, limit⟩)
  (hroom : start.state.cycle.toNat + limit.toNat + 1 < 2 ^ 64)

include hhooks hpath

/-- Between two looks, a cycle keeps the mode and the progress on show. -/
theorem midway_eq_ok (hc : start.midway n = .ok c) :
    ∃ e, start.steps n = .ok e ∧ Pursuit start (n + 1) c ∧ c.mode = e.mode ∧
      c.state.reached = e.state.reached ∧ c.state.status = e.state.status := by
  obtain ⟨e, hsteps, hc⟩ := bind_eq_ok_iff.mp hc
  exact ⟨e, hsteps, (Pursuit.steps hhooks hpath hsteps).controlled hhooks hpath hc⟩

include hbegun htimeout hroom

/-- A command is not given up before its time. -/
theorem course_of_early (hn : n ≤ limit.toNat) (hsteps : start.steps n = .ok e) : Course e := by
  induction n generalizing e with
  | zero =>
    cases hsteps
    exact .pending ⟨hbegun.mode, hbegun.reached, hbegun.status⟩
  | succ n ih =>
    obtain ⟨c, hc, rfl⟩ := steps_succ_eq_ok_iff.mp hsteps
    obtain ⟨before, hbefore, hpursuit, hmode, hreached, hstatus⟩ := midway_eq_ok hhooks hpath hc
    have hcourse := (ih (by omega) hbefore).of_same hmode hreached hstatus
    -- The cycle that ends now is number `n + 1`, which is within the limit.
    refine hcourse.supervised (Bool.eq_false_iff.mpr fun hlate => ?_)
    rw [hpursuit.timedOut_iff hbegun.fresh htimeout (by omega)] at hlate
    omega

/-- A command that nothing happens to goes on until its time is up. -/
theorem pending_of_uneventful (hn : n ≤ limit.toNat)
    (hnothing : ∀ k < n, ∀ c, start.midway k = .ok c → ¬ c.Trips ∧ ¬ c.Arrives)
    (hsteps : start.steps n = .ok e) : GoesOn false .moving e := by
  induction n generalizing e with
  | zero =>
    cases hsteps
    exact ⟨hbegun.mode, hbegun.reached, hbegun.status⟩
  | succ n ih =>
    obtain ⟨c, hc, rfl⟩ := steps_succ_eq_ok_iff.mp hsteps
    obtain ⟨before, hbefore, hpursuit, hmode, hreached, hstatus⟩ := midway_eq_ok hhooks hpath hc
    obtain ⟨htrips, harrives⟩ := hnothing n (by omega) c hc
    obtain ⟨hrunning, hmissed, hmoving⟩ :=
      ih (by omega) (fun k hk => hnothing k (by omega)) hbefore
    have hearly : c.parameters.timedOut c.state = false := by
      refine Bool.eq_false_iff.mpr fun hlate => ?_
      rw [hpursuit.timedOut_iff hbegun.fresh htimeout (by omega)] at hlate
      omega
    rw [← hmoving, ← hstatus]
    exact supervised_of_pending (hmode.trans hrunning) htrips (hreached.trans hmissed) harrives
      hearly

/-- Then the next cycle gives it up. -/
theorem givenUp_of_uneventful
    (hnothing : ∀ k ≤ limit.toNat, ∀ c, start.midway k = .ok c → ¬ c.Trips ∧ ¬ c.Arrives)
    (hc : start.midway limit.toNat = .ok c) : GivenUp c c.supervised := by
  obtain ⟨before, hbefore, hpursuit, hmode, hreached, -⟩ := midway_eq_ok hhooks hpath hc
  obtain ⟨hrunning, hmissed, -⟩ := pending_of_uneventful hbegun hhooks hpath htimeout hroom
    le_rfl (fun k hk => hnothing k hk.le) hbefore
  obtain ⟨htrips, harrives⟩ := hnothing _ le_rfl c hc
  refine supervised_of_expired (hmode.trans hrunning) htrips (hreached.trans hmissed) harrives ?_
  rw [hpursuit.timedOut_iff hbegun.fresh htimeout (by omega)]
  omega

omit hbegun htimeout hroom in
/-- A target that was reached stays reached as long as nothing stalls. -/
theorem reached_of_calm {status : MoveStatus} {m : Nat} (hm : m < n)
    (hreached : ∀ e, start.steps (m + 1) = .ok e → GoesOn true status e)
    (hcalm : ∀ k < n, ∀ c, start.midway k = .ok c → ¬ c.Trips)
    (hsteps : start.steps n = .ok e) : GoesOn true status e := by
  induction n generalizing e with
  | zero => omega
  | succ n ih =>
    by_cases hfirst : m = n
    · exact hreached e (hfirst ▸ hsteps)
    · obtain ⟨c, hc, rfl⟩ := steps_succ_eq_ok_iff.mp hsteps
      obtain ⟨before, hbefore, -, hmode, hsame, hstatus⟩ := midway_eq_ok hhooks hpath hc
      obtain ⟨hrunning, hstays, hshown⟩ :=
        ih (by omega) (fun k hk => hcalm k (by omega)) hbefore
      rw [← hshown, ← hstatus]
      exact supervised_of_reached (hmode.trans hrunning) (hcalm n (by omega) c hc)
        (hsame.trans hstays)

/-- Nothing but a stall leads out of Running before the time is up. -/
theorem running_of_calm (hn : n ≤ limit.toNat)
    (hcalm : ∀ k < n, ∀ c, start.midway k = .ok c → ¬ c.Trips)
    (hsteps : start.steps n = .ok e) : e.mode = .running := by
  have hcourse := course_of_early hbegun hhooks hpath htimeout hroom hn hsteps
  induction n generalizing e with
  | zero =>
    cases hsteps
    exact hbegun.mode
  | succ n ih =>
    obtain ⟨c, hc, rfl⟩ := steps_succ_eq_ok_iff.mp hsteps
    obtain ⟨before, hbefore, -, hmode, -, -⟩ := midway_eq_ok hhooks hpath hc
    have hearly : n ≤ limit.toNat := by omega
    have hrunning := ih hearly (fun k hk => hcalm k (by omega)) hbefore
      (course_of_early hbegun hhooks hpath htimeout hroom hearly hbefore)
    obtain halike | ⟨-, hidle⟩ := supervised_spec c
    · rw [halike.mode, stallChecked_mode (hcalm n (by omega) c hc), hmode]
      exact hrunning
    · cases hcourse with
      | pending on => cases on.mode.symm.trans hidle
      | reached on arrived => cases on.mode.symm.trans hidle
      | blocked mode status => cases mode.symm.trans hidle

/-- A target that is found reached within its time is reached. -/
theorem reached_of_arrives (hn : n ≤ limit.toNat) (hc : start.midway n = .ok c)
    (hcalm : ∀ k ≤ n, ∀ c, start.midway k = .ok c → ¬ c.Trips) (harrives : c.Arrives) :
    ∃ status, status.isReached = true ∧ GoesOn true status c.supervised := by
  obtain ⟨before, hbefore, -, hmode, hreached, hstatus⟩ := midway_eq_ok hhooks hpath hc
  have htrips := hcalm n le_rfl c hc
  have hcourse := (course_of_early hbegun hhooks hpath htimeout hroom hn hbefore).of_same
    hmode hreached hstatus
  cases hcourse with
  | pending on => exact ⟨_, harrives, supervised_of_arrives on.mode htrips on.reached harrives⟩
  | reached on arrived =>
    refine ⟨_, arrived, ?_⟩
    rw [← on.status]
    exact supervised_of_reached on.mode htrips on.reached
  | blocked mode status =>
    have hrunning := running_of_calm hbegun hhooks hpath htimeout hroom hn
      (fun k hk => hcalm k hk.le) hbefore
    cases mode.symm.trans (hmode.trans hrunning)

end Run

/-! ## Precedence -/

/-- How a cycle in Running with an unreached target ends.  A stall goes before arrival, and
arrival before a timeout. -/
structure EndsInOrder (c e : Engine α σ) : Prop where
  stall : c.Trips → Blocked c e ∧ e.state.reached = false
  arrival : ¬ c.Trips → c.Arrives →
    GoesOn true (c.arrival.judge c.state.pose c.state.target).1 e
  timeout : ¬ c.Trips → ¬ c.Arrives → c.parameters.timedOut c.state = true → GivenUp c e
  otherwise : ¬ c.Trips → ¬ c.Arrives → c.parameters.timedOut c.state = false →
    GoesOn false c.state.status e

/-- A stall comes before the arrival, and the arrival before the timeout. -/
theorem supervised_endsInOrder (hmode : c.mode = .running) (hreached : c.state.reached = false) :
    EndsInOrder c c.supervised where
  stall htrips := ⟨supervised_of_trips htrips, (supervised_reached_of_trips htrips).trans hreached⟩
  arrival htrips := supervised_of_arrives hmode htrips hreached
  timeout htrips := supervised_of_expired hmode htrips hreached
  otherwise htrips := supervised_of_pending hmode htrips hreached

/-- After any operations, let an engine accept a pose command with its timeout at `limit` cycles
and no path to follow, and let its hooks leave the state alone.  Then, as long as the number of
the cycle does not wrap:

- every cycle comes to its end, unless a hook gives it up or the duties form no band;
- no cycle among the first `limit` gives the command up;
- if none of the first `limit + 1` cycles trips the stall detector or finds the target reached,
  the last of them leads to Idle and gives the target up with a zero command;
- if one of them finds the target reached, the engine is in Running with a reached target from
  then on, as long as no cycle trips;
- a cycle looks for a stall first, then for arrival and then for the timeout. -/
theorem timeout_is_exact [LawfulScalar α] {built : Engine α σ} {operations : List (Operation α)}
    {limit : UInt32} (hbuilt : Built built)
    (hcommand : PoseCommand (built.attemptAll operations) e) (hhooks : e.hooks.Discreet)
    (hpath : e.state.pathFollow = false) (htimeout : e.parameters.timeout = ⟨true, limit⟩)
    (hroom : e.state.cycle.toNat + limit.toNat + 1 < 2 ^ 64) :
    (e.hooks.Willing → e.plant.Banded → ∀ n, ∃ e', e.steps n = .ok e') ∧
    (∀ n ≤ limit.toNat, ∀ e', e.steps n = .ok e' → e'.state.status ≠ .timeout) ∧
    ((∀ n ≤ limit.toNat, ∀ c, e.midway n = .ok c → ¬ c.Trips ∧ ¬ c.Arrives) →
      ∀ e', e.steps (limit.toNat + 1) = .ok e' →
        ∃ c, e.midway limit.toNat = .ok c ∧ GivenUp c e') ∧
    (∀ n ≤ limit.toNat, ∀ c, e.midway n = .ok c → c.Arrives → ∀ m > n,
      (∀ k < m, ∀ c, e.midway k = .ok c → ¬ c.Trips) → ∀ e', e.steps m = .ok e' →
        e'.mode = .running ∧ e'.state.reached = true ∧ e'.state.status.isReached = true) ∧
    (∀ n c e', e.midway n = .ok c → e.steps (n + 1) = .ok e' → c.mode = .running →
      c.state.reached = false → EndsInOrder c e') := by
  have hbegun := hcommand.begun
  refine ⟨?_, ?_, ?_, ?_, ?_⟩
  · have hkept := hbuilt.operable.attemptAll_maintained operations
    exact (hbuilt.operable.of_maintained (hkept.trans hcommand.maintained)).steps_finish
  · intro n hn e' hsteps
    exact (course_of_early hbegun hhooks hpath htimeout hroom hn hsteps).not_timeout
  · intro hnothing e' hsteps
    obtain ⟨c, hc, rfl⟩ := steps_succ_eq_ok_iff.mp hsteps
    exact ⟨c, hc, givenUp_of_uneventful hbegun hhooks hpath htimeout hroom hnothing hc⟩
  · intro n hn c hc harrives m hm hcalm e' hsteps
    obtain ⟨status, hreached, hgoes⟩ := reached_of_arrives hbegun hhooks hpath htimeout hroom hn hc
      (fun k hk => hcalm k (by omega)) harrives
    have hfirst : ∀ e', e.steps (n + 1) = .ok e' → GoesOn true status e' := by
      intro e' hsteps
      obtain ⟨c', hc', rfl⟩ := steps_succ_eq_ok_iff.mp hsteps
      cases hc.symm.trans hc'
      exact hgoes
    obtain ⟨hmode, hstays, rfl⟩ := reached_of_calm hhooks hpath hm hfirst hcalm hsteps
    exact ⟨hmode, hstays, hreached⟩
  · intro n c e' hc hsteps hmode hreached
    obtain ⟨c', hc', rfl⟩ := steps_succ_eq_ok_iff.mp hsteps
    cases hc.symm.trans hc'
    exact supervised_endsInOrder hmode hreached

/-- The axis that never turns, with two cycles to come to another place. -/
def overdueLift : Option (Engine Float Unit) :=
  stuckLift.toOption.bind fun e =>
    ((e.attemptAll [.request .enable, .request (.setTimeoutSettings ⟨true, 2⟩)]).setPoseTarget
      (.final (.of 10 0 0))).toOption

/-- Nothing happens in the cycle that follows `n` others. -/
def uneventful {α σ : Type} [Scalar α] (e : Engine α σ) (n : Nat) : Bool :=
  (e.midway n).toOption.all fun c => decide (¬ c.Trips ∧ ¬ c.Arrives)

/-- It is given up by the third cycle, and not before. -/
theorem overdueLift_is_givenUp :
    ∃ e e', overdueLift = some e ∧ e.steps 3 = .ok e' ∧ e'.mode = .idle ∧
      e'.state.status = .timeout ∧ e'.state.command = .zero ∧ e'.state.reached = false ∧
      ∀ n ≤ 2, ∀ e', e.steps n = .ok e' → e'.state.status ≠ .timeout := by
  have hrun : (overdueLift.map fun e => (e.state.pathFollow, e.parameters.timeout,
      e.state.cycle, (List.range 3).all e.uneventful))
        = some (false, ⟨true, 2⟩, 0, true) := by decide +kernel
  obtain ⟨e, hoverdue, hrun⟩ := Option.map_eq_some_iff.mp hrun
  obtain ⟨built, hbuilt, haccepted⟩ := Option.bind_eq_some_iff.mp hoverdue
  rw [toOption_eq_some_iff] at hbuilt haccepted
  rw [Prod.mk.injEq, Prod.mk.injEq, Prod.mk.injEq, List.all_eq_true] at hrun
  obtain ⟨hpath, htimeout, hcycle, hall⟩ := hrun
  have hbuilt' : Built built := .motor hbuilt
  have hkept := (hbuilt'.operable.attemptAll_maintained _).trans
    (setPoseTarget_maintained haccepted)
  obtain ⟨_, _, -, rfl⟩ := ofMotor_eq_ok hbuilt
  obtain ⟨hfinish, hearly, hlate, -, -⟩ := timeout_is_exact hbuilt' (.aimed haccepted)
    (hkept.hooks ▸ Hooks.idle_discreet) hpath htimeout (by rw [hcycle]; decide)
  obtain ⟨e', hsteps⟩ :=
    hfinish (hkept.hooks ▸ Hooks.idle_willing) (hkept.plant ▸ trivial) 3
  have hnothing : ∀ n ≤ 2, ∀ c, e.midway n = .ok c → ¬ c.Trips ∧ ¬ c.Arrives := by
    intro n hn c hc
    have hnone := hall n (List.mem_range.mpr (by omega))
    rw [uneventful, hc] at hnone
    exact of_decide_eq_true hnone
  obtain ⟨c, -, hidle, hstatus, hcommand, hreached, -⟩ := hlate hnothing e' hsteps
  exact ⟨e, e', hoverdue, hsteps, hidle, hstatus, hcommand, hreached, hearly⟩

end Engine

end MotionControl
