import MotionControl.Proofs.Engine.Startup
import MotionControl.Proofs.Engine.Supervision
import MotionControl.Proofs.ExactLoops
import MotionControl.Proofs.Tree.Standing
import MotionControl.Simulation.Bench

/-!
# The speed loop, closed

A simulated axis moves with the speed that it was told in the cycle before, so an engine that
regulates its speed measures what it commanded last.  Where the integral is all that the speed loop
goes by, and the ramp lets the order through, every cycle makes up for the same part of what the
speed is short of.

- `approach`: the speeds that come about so.
- `AxisCascade.Approaching`: an axis on its way; `AxisCascade.Approaching.next`: a cycle further.
- `Hooks.Aloof`: hooks that change nothing.
- `Engine.OnBench`, `Engine.Looping`: an engine around a simulated axis, and one in speed mode.
- `Engine.Looping.step`: a cycle of the engine is a cycle of its loops on the last command.
- `Engine.speed_loop_converges`: the commands of a whole run.
-/

namespace MotionControl

open Scalar Outcome Rational

/-! ## Approaching an order -/

/-- The speed after a number of cycles from rest, each of which makes up for a part of what it is
short of. -/
def approach (order part : ℚ) (n : ℕ) : ℚ := order * (1 - (1 - part) ^ n)

section Approach

variable {order part : ℚ}

@[simp] theorem approach_zero : approach order part 0 = 0 := by
  rw [approach, pow_zero, sub_self, mul_zero]

/-- Every cycle closes the same part of the gap. -/
theorem approach_succ (n : ℕ) :
    approach order part (n + 1)
      = approach order part n + part * (order - approach order part n) := by
  unfold approach
  ring

/-- No speed on the way lies beyond the order, or on the other side of rest. -/
theorem approach_mem (order : ℚ) (hpos : 0 < part) (hle : part ≤ 1) (n : ℕ) :
    approach order part n ∈ Set.uIcc 0 order := by
  have hleft : 0 ≤ 1 - part := sub_nonneg.mpr hle
  have hlow : 0 ≤ 1 - (1 - part) ^ n :=
    sub_nonneg.mpr (pow_le_one₀ hleft (sub_le_self 1 hpos.le))
  have hhigh : 1 - (1 - part) ^ n ≤ 1 := sub_le_self 1 (pow_nonneg hleft n)
  rw [Set.mem_uIcc, approach]
  rcases le_total 0 order with horder | horder
  · exact .inl ⟨mul_nonneg horder hlow, mul_le_of_le_one_right horder hhigh⟩
  · exact .inr ⟨le_mul_of_le_one_right horder hhigh, mul_nonpos_of_nonpos_of_nonneg horder hlow⟩

/-- What is missing is never more than the whole order. -/
theorem abs_sub_approach_le (order : ℚ) (hpos : 0 < part) (hle : part ≤ 1) (n : ℕ) :
    |order - approach order part n| ≤ |order| := by
  have hshort := Set.abs_sub_right_of_mem_uIcc (approach_mem order hpos hle n)
  rwa [sub_zero] at hshort

/-- The approach does not overshoot. -/
theorem abs_approach_le (order : ℚ) (hpos : 0 < part) (hle : part ≤ 1) (n : ℕ) :
    |approach order part n| ≤ |order| := by
  have hshort := Set.abs_sub_left_of_mem_uIcc (approach_mem order hpos hle n)
  rwa [sub_zero, sub_zero] at hshort

end Approach

/-- The speed loop goes by its integral, which has room for the order, and the ramp lets the order
through from anywhere between rest and the order itself.  Nothing is taken for a stall. -/
structure MotorSettings.Integrating (s : MotorSettings ℚ) (period order : ℚ) : Prop where
  stall : s.stall.enabled = false
  proportional : s.speed.proportional = 0
  derivative : s.speed.derivative = 0
  part_pos : 0 < s.speed.integral * period
  part_le_one : s.speed.integral * period ≤ 1
  room : |order| / s.speed.integral ≤ s.speed.integralLimit
  least : s.ramp.minSpeed ≤ |order|
  greatest : |order| ≤ s.ramp.maxSpeed
  reach : |order| ≤ s.ramp.maxAcceleration * period

variable [PlaneFunctions]

/-- What an axis is given in speed mode, where the limit is the magnitude of the order. -/
structure AxisSignals.Ordered (i : AxisSignals ℚ) (asked measured : ℚ) : Prop where
  order : i.order = asked
  limit : i.limit = |asked|
  mode : 1 / 2 ≤ i.mode
  speed : i.speed = measured

namespace AxisCascade

variable {a : AxisCascade ℚ} {s : MotorSettings ℚ} {period order : ℚ} {n : ℕ}

/-- An axis after a number of cycles on its way to an order: the integral stands for the speed. -/
structure Approaching (s : MotorSettings ℚ) (period order : ℚ) (n : ℕ) (a : AxisCascade ℚ) :
    Prop where
  checked : a.Checked
  ramp : a.ramp = ⟨s.ramp, period⟩
  speed : ∃ previous, a.speed = ⟨s.speed,
    ⟨approach order (s.speed.integral * period) n / s.speed.integral, previous⟩, period⟩

/-- A new axis begins its approach at rest. -/
theorem approaching_fresh (h : s.Checked) (period order : ℚ) :
    Approaching s period order 0 (fresh s.position s.speed s.ramp period) where
  checked := ⟨h.position, h.ramp, h.speed⟩
  ramp := rfl
  speed := by
    rw [approach_zero, zero_div]
    exact ⟨0, rfl⟩

namespace Approaching

variable {i : AxisSignals ℚ}

/-- The ramp lets the order through. -/
theorem rampedOn (h : Approaching s period order n a) (hloop : s.Integrating period order)
    (hi : i.Ordered order (approach order (s.speed.integral * period) n)) :
    a.rampedOn i = order := by
  have hpicked : a.orderOn i = order := by
    rw [orderOn, if_neg (not_lt.mpr hi.mode), hi.order]
  have hcap : |order| ≤ a.ramp.cap i.limit := by
    rw [h.ramp, SpeedRamp.cap, hi.limit, abs_abs]
    exact le_min hloop.greatest le_rfl
  -- an order that can be reached from rest can be reached from anywhere on the way
  have hreach : |order - i.speed| ≤ s.ramp.maxAcceleration * period := by
    rw [hi.speed]
    exact (abs_sub_approach_le order hloop.part_pos hloop.part_le_one n).trans hloop.reach
  rw [AxisCascade.rampedOn, hpicked]
  refine SpeedRamp.limited_of_near ?_ hcap ?_
  · rw [h.ramp]
    exact hloop.least
  · rw [h.ramp]
    exact hreach

/-- The integral takes in the error, and has room for it. -/
theorem integralOn (h : Approaching s period order n a) (hperiod : 0 < period)
    (hloop : s.Integrating period order) :
    a.speed.integralOn (order - approach order (s.speed.integral * period) n)
      = approach order (s.speed.integral * period) (n + 1) / s.speed.integral := by
  have hgain : 0 < s.speed.integral := pos_of_mul_pos_left hloop.part_pos hperiod.le
  have hshort := abs_approach_le order hloop.part_pos hloop.part_le_one (n + 1)
  have hroom : |approach order (s.speed.integral * period) (n + 1) / s.speed.integral|
      ≤ s.speed.integralLimit := by
    rw [abs_div, abs_of_pos hgain]
    exact (div_le_div_of_nonneg_right hshort hgain.le).trans hloop.room
  -- before it is saturated
  have hsum : approach order (s.speed.integral * period) n / s.speed.integral
        + (order - approach order (s.speed.integral * period) n) * period
      = approach order (s.speed.integral * period) (n + 1) / s.speed.integral := by
    rw [approach_succ]
    field_simp
  obtain ⟨previous, hspeed⟩ := h.speed
  rw [Pid.integralOn, hspeed, hsum]
  exact saturate_of_abs_le hroom

/-- A cycle commands the next speed on the way, and leaves the axis there. -/
theorem next (h : Approaching s period order n a) (hperiod : 0 < period)
    (hloop : s.Integrating period order)
    (hi : i.Ordered order (approach order (s.speed.integral * period) n)) :
    a.commandOn i = approach order (s.speed.integral * period) (n + 1) ∧
      Approaching s period order (n + 1) (a.after i) := by
  have hgain : 0 < s.speed.integral := pos_of_mul_pos_left hloop.part_pos hperiod.le
  have hramped := h.rampedOn hloop hi
  have hintegral := h.integralOn hperiod hloop
  obtain ⟨previous, hspeed⟩ := h.speed
  have hruns : ¬ a.speed.period ≤ 0 := by
    rw [hspeed]
    exact not_le.mpr hperiod
  refine ⟨?_, h.checked.after i, h.ramp,
    order - approach order (s.speed.integral * period) n, ?_⟩
  · rw [commandOn, hramped, hi.speed, Pid.commandOn, if_neg hruns, hintegral, hspeed,
      hloop.proportional, hloop.derivative]
    field_simp
    ring
  · show a.speed.after (a.rampedOn i - i.speed) = _
    rw [hramped, hi.speed, Pid.after, if_neg hruns, hintegral, hspeed]

end Approaching

end AxisCascade

/-! ## An engine around a simulated axis -/

/-- Hooks that never give a cycle up, and leave the state and what stands on the bench alone. -/
structure Hooks.Aloof {α β γ δ : Type} (h : Hooks α (Bench α β γ δ)) : Prop where
  discreet : h.Discreet
  willing : h.Willing
  before : ∀ state bench, (h.beforeControl state bench).2.stand = bench.stand
  after : ∀ state bench, (h.afterControl state bench).2.stand = bench.stand

omit [PlaneFunctions] in
theorem Hooks.idle_aloof {α β γ δ : Type} : (Hooks.idle : Hooks α (Bench α β γ δ)).Aloof :=
  ⟨idle_discreet, idle_willing, fun _ _ => rfl, fun _ _ => rfl⟩

/-- The measurement of a bench is the one of the axis on it, which moves. -/
theorem Bench.sample_stand {bench : AxisBench ℚ} {axis : SimulatedAxis ℚ}
    (h : bench.stand = .simulated axis) :
    bench.sample = (axis.advance.1, { bench with stand := .simulated axis.advance.2 }) := by
  rw [Bench.sample, h]
  rfl

/-- A simulated axis is told a speed through the actuators of its bench. -/
theorem Bench.apply_stand {bench : AxisBench ℚ} {axis : SimulatedAxis ℚ}
    (h : bench.stand = .simulated axis) (commands : List ℚ) :
    (Bench.actuators.apply commands bench).stand = .simulated (axis.apply commands) := by
  show bench.stand.onMachine _ = _
  rw [h]
  rfl

namespace Engine

variable {e e' : Engine ℚ (AxisBench ℚ)} {name : String} {a : AxisCascade ℚ} {commanded : ℚ}

/-- An engine on a bench with a simulated axis, which is switched on and free to move: what the tree
remembers, and what the axis was told last. -/
structure OnBench (name : String) (e : Engine ℚ (AxisBench ℚ)) (a : AxisCascade ℚ)
    (commanded : ℚ) : Prop where
  plant : e.plant = .motor ⟨Bench.sample, Bench.reseat⟩
  actuators : e.actuators = Bench.actuators
  hooks : e.hooks.Aloof
  stall : e.stall.settings.enabled = false
  tree : e.tree.Stands 6 (AxisCascade.motorCircuit name) a
  axis : ∃ axis, e.world.stand = .simulated axis ∧ axis.enabled = true ∧ axis.blocked = false ∧
    axis.commanded = commanded

namespace OnBench

/-- A mode that drives is entered at rest, and without a call to the actuators. -/
theorem enter (h : OnBench name e a commanded) {target : Mode}
    (htarget : target.isRegulating = true) : OnBench name (e.enter target) a.reset commanded := by
  have htree : e.tree.reset.Stands 6 (AxisCascade.motorCircuit name) a.reset :=
    h.tree.reset (AxisCascade.wires name)
  cases target with
  | stop | idle | blocked | passthrough => cases htarget
  | running | runningSpeed => exact ⟨h.plant, h.actuators, h.hooks, h.stall, htree, h.axis⟩

/-- An event that leads to such a mode leaves loops at rest as they are. -/
theorem accept (h : OnBench name e a commanded) (hrest : a.reset = a) {event : ModeEvent}
    (haccept : e.accept event = .ok e') (hmode : e'.mode.isRegulating = true) :
    OnBench name e' a commanded := by
  obtain ⟨target, -, rfl⟩ := accept_eq_ok_iff.mp haccept
  rw [arrive_mode] at hmode
  have hmoved : OnBench name { e with machine := e.machine.move event target } a commanded :=
    ⟨h.plant, h.actuators, h.hooks, h.stall, h.tree, h.axis⟩
  refine arrive_cases (I := (OnBench name · a commanded)) (fun _ => hmoved) (fun _ => ?_)
    fun _ _ hentered => ?_
  · -- the reset finds nothing to forget
    rw [← hrest]
    exact hmoved.enter hmode
  · exact ⟨hentered.plant, hentered.actuators, hentered.hooks, hentered.stall, hentered.tree,
      hentered.axis⟩

/-- A pose target is taken on as it is by loops at rest. -/
theorem setPoseTarget (h : OnBench name e a commanded) (hrest : a.reset = a)
    (hloads : loadsWaypoints e.mode) (target : PathPose ℚ) :
    ∃ e', e.setPoseTarget target = .ok e' ∧ OnBench name e' a commanded ∧
      loadsWaypoints e'.mode := by
  obtain ⟨e', hset⟩ := setPoseTarget_answers hloads target
  have hmode := setPoseTarget_mode hset
  refine ⟨e', hset, ?_, hmode ▸ rfl⟩
  obtain ⟨arrived, haccept, heq⟩ := bind_eq_ok_iff.mp hset
  cases heq
  have harrived := h.accept hrest haccept (hmode ▸ rfl)
  exact ⟨harrived.plant, harrived.actuators, harrived.hooks, harrived.stall, harrived.tree,
    harrived.axis⟩

/-- Pose targets before the order leave the axis at rest. -/
theorem setPoseTargets (h : OnBench name e a commanded) (hrest : a.reset = a)
    (hloads : loadsWaypoints e.mode) (targets : List (PathPose ℚ)) :
    ∃ e', targets.foldlM Engine.setPoseTarget e = .ok e' ∧ OnBench name e' a commanded ∧
      loadsWaypoints e'.mode := by
  induction targets generalizing e with
  | nil => exact ⟨e, rfl, h, hloads⟩
  | cons target rest ih =>
    obtain ⟨aimed, hset, haimed, hloads⟩ := h.setPoseTarget hrest hloads target
    obtain ⟨e', hrest, he'⟩ := ih haimed hloads
    refine ⟨e', ?_, he'⟩
    rw [List.foldlM_cons, hset, ok_bind, hrest]

end OnBench

omit [PlaneFunctions] in
/-- A speed target is accepted in the modes that waypoints are loaded in. -/
theorem accept_speedTarget {α σ : Type} [Scalar α] {e : Engine α σ} (h : loadsWaypoints e.mode) :
    e.accept .speedTarget = .ok (e.arrive .speedTarget .runningSpeed) := by
  refine accept_eq_ok_iff.mpr ⟨.runningSpeed, ?_, rfl⟩
  unfold ModeMachine.next?
  unfold mode at h
  revert h
  cases e.machine.mode with
  | idle | running | runningSpeed => exact fun _ => rfl
  | stop | blocked | passthrough => rintro ⟨⟩

/-- Such an engine in speed mode. -/
structure Looping (name : String) (order : ℚ) (e : Engine ℚ (AxisBench ℚ)) (a : AxisCascade ℚ)
    (commanded : ℚ) : Prop extends OnBench name e a commanded where
  mode : e.mode = .runningSpeed
  order : e.state.order.distance = order

/-- Then the order closes the loop. -/
theorem OnBench.setSpeedTarget (h : OnBench name e a commanded) (hrest : a.reset = a)
    (hloads : loadsWaypoints e.mode) (order : Polar ℚ) :
    ∃ e', e.setSpeedTarget order = .ok e' ∧ Looping name order.distance e' a commanded := by
  have haccept := accept_speedTarget hloads
  have hmode : (e.arrive .speedTarget .runningSpeed).mode = .runningSpeed := arrive_mode ..
  have harrived := h.accept hrest haccept (congrArg Mode.isRegulating hmode)
  unfold Engine.setSpeedTarget
  rw [haccept]
  exact ⟨_, rfl, ⟨harrived.plant, harrived.actuators, harrived.hooks, harrived.stall,
    harrived.tree, harrived.axis⟩, hmode, rfl⟩

namespace Looping

variable {order : ℚ}

/-- The axis moves as it was told, and is measured so. -/
theorem sense (h : Looping name order e a commanded) :
    Looping name order e.tick.followPath.sense a commanded ∧
      e.tick.followPath.sense.state.speed.distance = commanded := by
  have hnone : e.tick.plant.targets? = none := by
    show e.plant.targets? = none
    rw [h.plant]
    rfl
  obtain ⟨axis, hstand, henabled, hfree, hcommanded⟩ := h.axis
  have hsample : e.plant.sample e.world
      = (⟨.of axis.advance.1.position 0 0, .speed axis.advance.1.speed 0⟩,
        { e.world with stand := .simulated axis.advance.2 }) := by
    simp only [h.plant, Plant.sample, Bench.sample_stand hstand]
  have hsensed : e.tick.followPath.sense = { e.tick with
      world := { e.world with stand := .simulated axis.advance.2 }
      state := { e.tick.state with
        pose := .of axis.advance.1.position 0 0
        speed := .speed axis.advance.1.speed 0 } } := by
    rw [followPath_of_no_targets hnone, Engine.sense,
      show e.tick.plant.sample e.tick.world = _ from hsample]
  have hspeed : axis.advance.1.speed = commanded := by
    rw [← hcommanded]
    exact if_neg (by rw [henabled, hfree]; decide)
  rw [hsensed]
  exact ⟨⟨⟨h.plant, h.actuators, h.hooks, h.stall, h.tree, axis.advance.2, rfl, henabled, hfree,
    hcommanded⟩, h.mode, h.order⟩, hspeed⟩

/-- The first hook changes nothing. -/
theorem beforeControl (h : Looping name order e a commanded) :
    ∃ ready, e.beforeControl = .ok ready ∧ Looping name order ready a commanded ∧
      ready.state.speed = e.state.speed := by
  obtain ⟨ready, hok⟩ := beforeControl_finishes h.hooks.willing
  have hcommanded := beforeControl_commanded h.hooks.discreet hok
  obtain ⟨_, _, _, hstate⟩ := hcommanded.state
  have hreadied := beforeControl_spec e
  rw [hok] at hreadied
  cases hreadied with
  | @ready state world ran =>
    have hstand : world.stand = e.world.stand := by
      have hbefore := h.hooks.before e.state e.world
      rwa [ran] at hbefore
    refine ⟨_, hok, ⟨⟨h.plant, h.actuators, h.hooks, h.stall, h.tree, ?_⟩, h.mode, ?_⟩, ?_⟩
    · rw [hstand]
      exact h.axis
    · rw [hstate]
      exact h.order
    · rw [hstate]

/-- The loops answer, and the axis is told what they command. -/
theorem control (h : Looping name order e a commanded) (ha : a.Checked) :
    ∃ driven i, e.control = .ok driven ∧
      i.Ordered order e.state.speed.distance ∧
      Looping name order driven (a.after i) (a.commandOn i) := by
  let i : AxisSignals ℚ := ⟨e.state.pose.x, e.state.target.pose.x, e.state.speed.distance,
    |e.state.order.distance|, flag true, e.state.order.distance⟩
  have hinputs : e.plant.treeInputs e.state true = i.toSignals := by
    rw [h.plant]
    rfl
  obtain ⟨tree, hrespond, htree⟩ := h.tree.answers (AxisCascade.wires name)
    (show i.toSignals.length = 6 from rfl) (AxisCascade.respond_exact ha i)
  have hdemand : e.plant.demand ⟨[a.commandOn i, a.rampedOn i]⟩
      = .ok ⟨.speed (a.commandOn i) 0, .speed (a.rampedOn i) 0⟩ := by
    rw [h.plant]
    rfl
  have hactuation : ∀ command, e.plant.actuation command = .ok [command.distance] := by
    rw [h.plant]
    exact fun _ => rfl
  have hconsult : e.consultTree true = .ok { e with
      tree
      state := { e.state with
        command := .speed (a.commandOn i) 0
        filtered := .speed (a.rampedOn i) 0 } } := by
    rw [consultTree, hinputs, hrespond, ok_bind]
    dsimp only
    rw [hdemand, ok_bind]
  have hcontrol : e.control = .ok { e with
      tree
      state := { e.state with
        command := .speed (a.commandOn i) 0
        filtered := .speed (a.rampedOn i) 0 }
      world := e.actuators.apply [a.commandOn i] e.world } := by
    rw [Engine.control, h.mode]
    show e.regulate true = _
    rw [regulate, hconsult]
    show drive _ = _
    rw [drive, hactuation]
    rfl
  obtain ⟨axis, hstand, -, hfree, -⟩ := h.axis
  refine ⟨_, i, hcontrol, ⟨h.order, congrArg (|·|) h.order, ?_, rfl⟩,
    ⟨⟨h.plant, h.actuators, h.hooks, h.stall, htree, axis.apply [a.commandOn i], ?_, rfl, hfree,
      rfl⟩, h.mode, h.order⟩⟩
  · show (1 : ℚ) / 2 ≤ flag true
    norm_num [flag]
  · rw [h.actuators]
    exact Bench.apply_stand hstand _

/-- Nor does the second hook change anything. -/
theorem afterControl (h : Looping name order e a commanded) :
    Looping name order e.afterControl a commanded := by
  refine ⟨⟨h.plant, h.actuators, h.hooks, h.stall, h.tree, ?_⟩, h.mode, ?_⟩
  · show ∃ axis, (e.hooks.afterControl e.state e.world).2.stand = _ ∧ _
    rw [h.hooks.after]
    exact h.axis
  · show (e.hooks.afterControl e.state e.world).1.order.distance = _
    rw [h.hooks.discreet.after]
    exact h.order

/-- Nothing is found at the end of a cycle. -/
theorem supervised (h : Looping name order e a commanded) :
    Looping name order e.supervised a commanded := by
  have hregulating : e.mode.isRegulating = true := by
    rw [h.mode]
    rfl
  have hchecked : e.stallChecked = e.recounted e.stall.reset e.stall.reset.cycles := by
    rw [stallChecked, if_pos hregulating, checkStall, StallDetector.update, h.stall]
    rfl
  -- a speed is never arrived at, and takes as long as it likes
  have hrunning : e.stallChecked.mode ≠ .running := by
    rw [hchecked]
    show e.mode ≠ _
    rw [h.mode]
    decide
  obtain ⟨telemetry, hsupervised⟩ := supervised_of_ne_running hrunning
  rw [hsupervised, hchecked]
  exact ⟨⟨h.plant, h.actuators, h.hooks, h.stall, h.tree, h.axis⟩, h.mode, h.order⟩

/-- A cycle of the engine is a cycle of its loops, on a measured speed that is the last command. -/
theorem step (h : Looping name order e a commanded) (ha : a.Checked) :
    ∃ e' i, e.step = .ok e' ∧ i.Ordered order commanded ∧
      Looping name order e' (a.after i) (a.commandOn i) := by
  obtain ⟨hsensed, hspeed⟩ := h.sense
  obtain ⟨ready, hbefore, hready, hsame⟩ := hsensed.beforeControl
  obtain ⟨driven, i, hcontrol, hi, hdriven⟩ := hready.control ha
  have hcontrolled : e.controlled = .ok driven.afterControl := by
    rw [controlled, hbefore, ok_bind, hcontrol, ok_bind]
  rw [hsame, hspeed] at hi
  exact ⟨_, i, step_eq_ok_iff.mpr ⟨_, hcontrolled, rfl⟩, hi, hdriven.afterControl.supervised⟩

/-- The commands of a run from rest. -/
theorem steps {s : MotorSettings ℚ} {period : ℚ} (hperiod : 0 < period)
    (hloop : s.Integrating period order) (ha : AxisCascade.Approaching s period order 0 a)
    (h : Looping name order e a 0) (n : ℕ) :
    ∃ e' a', e.steps n = .ok e' ∧ AxisCascade.Approaching s period order n a' ∧
      Looping name order e' a' (approach order (s.speed.integral * period) n) := by
  induction n with
  | zero => exact ⟨e, a, rfl, ha, approach_zero ▸ h⟩
  | succ n ih =>
    obtain ⟨before, last, hsteps, hlast, hbefore⟩ := ih
    obtain ⟨after, i, hstep, hi, hafter⟩ := hbefore.step hlast.checked
    obtain ⟨hcommand, hnext⟩ := hlast.next hperiod hloop hi
    refine ⟨after, last.after i, ?_, hnext, hcommand ▸ hafter⟩
    rw [steps_succ, hsteps, ok_bind, hstep]

end Looping

/-! ## From the start -/

/-- A motor engine that was just built around an axis and switched on holds it still, and its loops
are at rest. -/
theorem onBench_of_enable {settings : MotorSettings ℚ} {period : ℚ}
    {attachments : Attachments ℚ (AxisBench ℚ)} {waypoints : WaypointQueue ℚ}
    {built : Engine ℚ (AxisBench ℚ)} (hsettings : settings.check = .ok ())
    (hstall : settings.stall.enabled = false) (hhooks : attachments.hooks.Aloof)
    (hbuilt : AxisBench.engine settings period attachments
      (.fresh (.simulated (.fresh period)) waypoints) = .ok built) :
    ∃ enabled, built.enable = .ok enabled ∧ loadsWaypoints enabled.mode ∧
      OnBench settings.name enabled
        (.fresh settings.position settings.speed settings.ramp period) 0 := by
  obtain ⟨parameters, tree, htree, rfl⟩ := ofMotor_eq_ok hbuilt
  have hstands := StandardTree.motor_stands (MotorSettings.checked hsettings) htree
  refine ⟨_, accept_eq_ok_iff.mpr ⟨.idle, rfl, rfl⟩, rfl, rfl, rfl, hhooks, hstall,
    hstands.reset (AxisCascade.wires settings.name), ?_⟩
  exact ⟨_, rfl, rfl, rfl, rfl⟩

/-- Let an engine be built around a simulated axis of its own period, with checked settings, hooks
that change nothing and a speed loop that goes by its integral.  Let it be switched on, given any
pose targets and then a speed that the ramp lets through.  No cycle is given up.  Each leaves the
same part of what the speed was short of, so that after `n` of them the axis was last told the order
less its product with the `n`-th power of that part.  It is never told a speed beyond the order, or
on the other side of rest. -/
theorem speed_loop_converges {settings : MotorSettings ℚ} {period : ℚ} {order : Polar ℚ}
    {attachments : Attachments ℚ (AxisBench ℚ)} (hsettings : settings.check = .ok ())
    (hperiod : 0 < period) (hhooks : attachments.hooks.Aloof)
    (hloop : settings.Integrating period order.distance) (waypoints : WaypointQueue ℚ)
    (targets : List (PathPose ℚ)) :
    ∃ built enabled aimed running,
      AxisBench.engine settings period attachments
        (.fresh (.simulated (.fresh period)) waypoints) = .ok built ∧
      built.enable = .ok enabled ∧ targets.foldlM setPoseTarget enabled = .ok aimed ∧
      aimed.setSpeedTarget order = .ok running ∧
      ∀ n, ∃ e axis, running.steps n = .ok e ∧ e.world.stand = .simulated axis ∧
        axis.commanded = order.distance * (1 - (1 - settings.speed.integral * period) ^ n) ∧
        axis.commanded ∈ Set.uIcc 0 order.distance := by
  have hchecked : checkPeriod period = .ok () := by
    rw [checkPeriod, require_eq_ok_iff.mpr (by simpa using hperiod)]
    rfl
  obtain ⟨built, hbuilt⟩ := ofMotor_builds hsettings hchecked ⟨Bench.sample, Bench.reseat⟩
    Bench.actuators attachments (.fresh (.simulated (.fresh period)) waypoints)
  obtain ⟨enabled, henable, hloads, hrest⟩ := onBench_of_enable hsettings hloop.stall hhooks hbuilt
  obtain ⟨aimed, haim, haimed, hloads⟩ := hrest.setPoseTargets rfl hloads targets
  obtain ⟨running, hset, hrunning⟩ := haimed.setSpeedTarget rfl hloads order
  refine ⟨built, enabled, aimed, running, hbuilt, henable, haim, hset, fun n => ?_⟩
  have hfresh := AxisCascade.approaching_fresh (MotorSettings.checked hsettings) period
    order.distance
  obtain ⟨e, a, hsteps, -, hlooping⟩ := hrunning.steps hperiod hloop hfresh n
  obtain ⟨axis, hstand, -, -, hcommanded⟩ := hlooping.axis
  refine ⟨e, axis, hsteps, hstand, hcommanded, ?_⟩
  rw [hcommanded]
  exact approach_mem _ hloop.part_pos hloop.part_le_one n

/-- A lift that nothing is taken for a stall of.  Every fiftieth of a second, its default gains make
up for half of what the speed is short of. -/
def calmLift : MotorSettings ℚ :=
  { MotorSettings.named "lift" with stall := { StallSettings.default with enabled := false } }

omit [PlaneFunctions] in
/-- Sent away and then told a speed, it has seven eighths of the speed after three cycles. -/
theorem calmLift_speeds_up :
    ∃ (_ : PlaneFunctions) (built enabled aimed running e : Engine ℚ (AxisBench ℚ))
      (axis : SimulatedAxis ℚ),
      AxisBench.engine calmLift (1 / 50) .none
        (.fresh (.simulated (.fresh (1 / 50))) .empty) = .ok built ∧
      built.enable = .ok enabled ∧ enabled.setPoseTarget (.final (.of 100 0 0)) = .ok aimed ∧
      aimed.setSpeedTarget (.speed 40 0) = .ok running ∧
      running.steps 3 = .ok e ∧ e.world.stand = .simulated axis ∧ axis.commanded = 35 := by
  let plane := PlaneFunctions.onAbscissa
  have hsettings : calmLift.check = .ok () := toOption_eq_some_iff.mp (by decide +kernel)
  have hloop : calmLift.Integrating (1 / 50) (Polar.speed 40 0 : Polar ℚ).distance :=
    ⟨rfl, rfl, rfl, by decide +kernel, by decide +kernel, by decide +kernel, by decide +kernel,
      by decide +kernel, by decide +kernel⟩
  have hhooks : (Attachments.none : Attachments ℚ (AxisBench ℚ)).hooks.Aloof :=
    Hooks.idle_aloof
  obtain ⟨built, enabled, aimed, running, hbuilt, henable, haim, hset, hrun⟩ :=
    speed_loop_converges hsettings (by norm_num) hhooks hloop .empty [.final (.of 100 0 0)]
  obtain ⟨e, axis, hsteps, hstand, hcommanded, -⟩ := hrun 3
  refine ⟨plane, built, enabled, aimed, running, e, axis, hbuilt, henable, by simpa using haim,
    hset, hsteps, hstand, ?_⟩
  rw [hcommanded]
  decide +kernel

end Engine

end MotionControl
