import MotionControl.Proofs.Engine.Operations

/-!
# What the parts of a cycle come to

A cycle is made of small parts: a waypoint is looked for, a hook is called, a command is worked
out and sent, and the outcome is looked at for a stall, for arrival and for a timeout.  Each part
can do a few things only.  They are listed here once, so that whoever has to know what a part
leaves alone goes through the list and need not take the part to pieces again.

- `Engine.left`: the engine that a cycle left behind, finished or given up.
- `Engine.Looked`, `Engine.Followed`: the look for a waypoint, and what becomes of it.
- `Engine.Readied`, `Engine.Steered`: the first hook and the command.
- `Engine.StallLook`, `Engine.ArrivalLook`, `Engine.TimeoutLook`: the three looks at the outcome.
- `Engine.publish_eq`: what is queued for others to see.
-/

namespace MotionControl

open Outcome

namespace Engine

variable {α σ : Type}

/-- The engine that a cycle left behind, finished or given up. -/
def left : Except (Interrupted α σ) (Engine α σ) → Engine α σ
  | .ok e => e
  | .error interrupted => interrupted.engine

variable [Scalar α] {e e' : Engine α σ}

/-! ## Waypoints -/

/-- What a look for a waypoint comes to: nothing to load, the first waypoint, or the one after
a waypoint that is dropped, if there is one. -/
inductive Looked (e : Engine α σ) : Option (PathPose α) × Engine α σ → Prop where
  | nothing : Looked e (none, e)
  | first {source target} (targets : e.plant.targets? = some source)
      (unloaded : e.pathLoaded = false) (current : source.current e.world = some target) :
      Looked e (some target, { e with pathLoaded := true })
  | dropped {source} (targets : e.plant.targets? = some source) (loaded : e.pathLoaded = true)
      (reached : e.state.reached = true) (free : source.mayAdvance e.world = true) :
      Looked e (source.current (source.advance e.world),
        { e with
          world := source.advance e.world
          pathLoaded := (source.current (source.advance e.world)).isSome })

omit [Scalar α] in
/-- What a look at the path may come to. -/
theorem nextWaypoint_spec (e : Engine α σ) : Looked e e.nextWaypoint := by
  unfold nextWaypoint
  cases htargets : e.plant.targets? with
  | none => exact .nothing
  | some source =>
    by_cases hloaded : e.pathLoaded
    · by_cases hadvance : e.state.reached && source.mayAdvance e.world
      · obtain ⟨hreached, hfree⟩ := Bool.and_eq_true_iff.mp hadvance
        simp only [hloaded, hadvance]
        exact .dropped htargets hloaded hreached hfree
      · simp only [hloaded, hadvance]
        exact .nothing
    · cases hcurrent : source.current e.world with
      | none =>
        simp only [hloaded, hcurrent]
        exact .nothing
      | some first =>
        simp only [hloaded, hcurrent]
        exact .first htargets (Bool.not_eq_true _ ▸ hloaded) hcurrent

omit [Scalar α] in
/-- A look leaves the mode alone. -/
theorem Looked.mode {next : Option (PathPose α) × Engine α σ} (h : Looked e next) :
    next.2.mode = e.mode := by
  cases h with
  | nothing | first | dropped => rfl

/-- Wherever waypoints are loaded, a pose target is accepted. -/
theorem setPoseTarget_answers (h : loadsWaypoints e.mode) (target : PathPose α) :
    ∃ e', e.setPoseTarget target = .ok e' := by
  have hnext : e.machine.next? .poseTarget = some .running := by
    unfold ModeMachine.next?
    unfold mode at h
    revert h
    cases e.machine.mode with
    | idle | running | runningSpeed => exact fun _ => rfl
    | stop | blocked | passthrough =>
      rintro ⟨⟩
  have haccept : e.accept .poseTarget = .ok (e.arrive .poseTarget .running) :=
    accept_eq_ok_iff.mpr ⟨.running, hnext, rfl⟩
  unfold setPoseTarget
  rw [haccept]
  exact ⟨_, rfl⟩

/-- What following a path comes to in a cycle.  A waypoint that is loaded is a request for its
pose, which is never refused. -/
inductive Followed (e : Engine α σ) : Engine α σ → Prop where
  | looked {after} (look : Looked e (none, after)) : Followed e after
  | loaded {target found after} (loads : loadsWaypoints e.mode)
      (look : Looked e (some target, found)) (accepted : found.setPoseTarget target = .ok after) :
      Followed e after

/-- What following the path may come to. -/
theorem followPath_spec (e : Engine α σ) : Followed e e.followPath := by
  unfold followPath
  by_cases hfollows : e.state.pathFollow && loadsWaypoints e.mode
  · rw [if_pos hfollows]
    have hloads := (Bool.and_eq_true_iff.mp hfollows).2
    have hlook := nextWaypoint_spec e
    rcases hnext : e.nextWaypoint with ⟨_ | target, found⟩
    · rw [hnext] at hlook
      exact .looked hlook
    · rw [hnext] at hlook
      have hmode : loadsWaypoints found.mode := by
        rw [hlook.mode]
        exact hloads
      obtain ⟨e', haccepted⟩ := setPoseTarget_answers hmode target
      simp only [haccepted]
      exact .loaded hloads hlook haccepted
  · rw [if_neg hfollows]
    exact .looked .nothing

/-! ## The first hook and the command -/

/-- What the first hook comes to: the cycle is given up, or goes on with the state of the hook,
which shows the mode. -/
inductive Readied (e : Engine α σ) : Except (Interrupted α σ) (Engine α σ) → Prop where
  | failed {fault world} (ran : e.hooks.beforeControl e.state e.world = (.error fault, world)) :
      Readied e (.error ⟨fault, { e with world }⟩)
  | ready {state world} (ran : e.hooks.beforeControl e.state e.world = (.ok state, world)) :
      Readied e (.ok { e with world, state := { state with mode := e.mode } })

omit [Scalar α] in
/-- What the hooks before control may come to. -/
theorem beforeControl_spec (e : Engine α σ) : Readied e e.beforeControl := by
  unfold beforeControl
  rcases hran : e.hooks.beforeControl e.state e.world with ⟨fault | state, world⟩
  · exact .failed hran
  · exact .ready hran

/-- What control comes to: a command on display, what the tree remembers, and one call to the
actuators at most. -/
inductive Steered (e : Engine α σ) : Engine α σ → Prop where
  | shown (tree : Node α) (command filtered : Polar α) :
      Steered e { e with tree, state := { e.state with command, filtered } }
  | sent (tree : Node α) (command filtered : Polar α) (commands : List α) :
      Steered e { e with
        tree
        state := { e.state with command, filtered }
        world := e.actuators.apply commands e.world }

/-- What a command may come to, also when it is given up. -/
theorem drive_spec (e : Engine α σ) (tree : Node α) (command filtered : Polar α) :
    Steered e (left
      ({ e with tree, state := { e.state with command, filtered } } : Engine α σ).drive) := by
  unfold drive
  dsimp only
  cases e.plant.actuation command with
  | ok commands => exact .sent tree command filtered commands
  | error fault => exact .shown tree command filtered

/-- What regulation may come to. -/
theorem regulate_spec (e : Engine α σ) (speedMode : Bool) :
    Steered e (left (e.regulate speedMode)) := by
  unfold regulate
  cases hconsult : e.consultTree speedMode with
  -- Where the tree gives no command, the engine is left as it was.
  | error fault => exact .shown e.tree e.state.command e.state.filtered
  | ok consulted =>
    obtain ⟨⟨outputs, tree⟩, -, hconsult⟩ := bind_eq_ok_iff.mp hconsult
    obtain ⟨demand, -, hconsult⟩ := bind_eq_ok_iff.mp hconsult
    cases hconsult
    exact e.drive_spec tree demand.command demand.filtered

/-- What the main part of a cycle may come to. -/
theorem control_spec (e : Engine α σ) : Steered e (left e.control) := by
  unfold control
  cases e.mode with
  | running => exact e.regulate_spec false
  | runningSpeed => exact e.regulate_spec true
  | passthrough => exact e.drive_spec e.tree e.state.order e.state.order
  | idle | blocked => exact .sent e.tree .zero .zero e.plant.stillness
  | stop => exact .shown e.tree .zero .zero

theorem steered_of_control (h : e.control = .ok e') : Steered e e' := by
  have hsteered := e.control_spec
  rw [h] at hsteered
  exact hsteered

/-! ## The looks at the outcome -/

/-- What a look for a stall comes to: the cycle is counted, and a stall blocks the engine by an
event. -/
inductive StallLook (e : Engine α σ) : Engine α σ → Prop where
  | counted (stall : StallDetector α) :
      StallLook e { e with stall, state := { e.state with stalledCycles := stall.cycles } }
  | tripped {stall : StallDetector α} {blocked}
      (accepted : ({ e with stall, state := { e.state with stalledCycles := stall.cycles } } :
        Engine α σ).accept .blocked = .ok blocked) :
      StallLook e { blocked with
        state := { blocked.state with status := .blocked, stalledCycles := stall.cycles } }

/-- What the look at the stall detector may come to. -/
theorem checkStall_spec (e : Engine α σ) : StallLook e e.checkStall := by
  unfold checkStall
  rcases e.stall.update e.state.filtered.distance e.state.speed.distance with ⟨tripped, stall⟩
  cases tripped with
  | false => exact .counted stall
  | true =>
    dsimp only
    rw [if_pos rfl]
    split
    · next blocked haccept => exact .tripped haccept
    · exact .counted stall

/-- What a look for arrival comes to: the target was reached before, is judged to be out of reach
still, or becomes reached, which the hook is told. -/
inductive ArrivalLook (e : Engine α σ) : Engine α σ → Prop where
  | before (reached : e.state.reached = true) : ArrivalLook e e
  | away {status arrival} (unreached : e.state.reached = false)
      (judged : e.arrival.judge e.state.pose e.state.target = (status, arrival))
      (moving : status.isReached = false) : ArrivalLook e { e with arrival }
  | arrived {status arrival state} (unreached : e.state.reached = false)
      (judged : e.arrival.judge e.state.pose e.state.target = (status, arrival))
      (there : status.isReached = true)
      (shown : state = { e.state with
        status
        reached := true
        intermediate := decide (status = .intermediateReached) }) :
      ArrivalLook e { e with arrival, state, world := e.hooks.targetReached state e.world }

/-- What the look at the target may come to. -/
theorem checkArrival_spec (e : Engine α σ) : ArrivalLook e e.checkArrival := by
  unfold checkArrival
  by_cases hreached : e.state.reached
  · rw [if_pos hreached]
    exact .before hreached
  · rw [if_neg hreached]
    have hunreached := Bool.eq_false_iff.mpr hreached
    rcases hjudged : e.arrival.judge e.state.pose e.state.target with ⟨status, arrival⟩
    by_cases hstatus : status.isReached
    · simp only [hstatus, if_true]
      exact .arrived hunreached hjudged hstatus rfl
    · simp only [hstatus]
      exact .away hunreached hjudged (Bool.eq_false_iff.mpr hstatus)

/-- What a look for a timeout comes to: there is time left, or the command is given up, by force
and not by an event. -/
inductive TimeoutLook (e : Engine α σ) : Engine α σ → Prop where
  | pending : TimeoutLook e e
  | expired {idle} (unreached : e.state.reached = false)
      (expired : e.parameters.timedOut e.state = true)
      (entered : idle = ({ e with machine := e.machine.forceIdle } : Engine α σ).enter
        e.machine.forceIdle.mode) :
      TimeoutLook e { idle with state := { idle.state with status := .timeout } }

/-- What the look at the clock may come to. -/
theorem checkTimeout_spec (e : Engine α σ) : TimeoutLook e e.checkTimeout := by
  unfold checkTimeout
  by_cases hexpired : !e.state.reached && e.parameters.timedOut e.state
  · rw [if_pos hexpired]
    obtain ⟨hunreached, htimedOut⟩ := Bool.and_eq_true_iff.mp hexpired
    exact .expired (Bool.not_eq_true' _ ▸ hunreached) htimedOut rfl
  · rw [if_neg hexpired]
    exact .pending

omit [Scalar α] in
/-- Publishing leaves everything alone but what waits to be published. -/
theorem publish_eq (e : Engine α σ) : ∃ telemetry, e.publish = { e with telemetry } := by
  unfold publish
  extract_lets interval
  split
  · exact ⟨e.telemetry, rfl⟩
  · exact ⟨_, rfl⟩

end Engine

end MotionControl
