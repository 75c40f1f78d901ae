import MotionControl.Proofs.Engine.Erasure
import MotionControl.Proofs.Engine.Supervision
import MotionControl.Proofs.Scalar.Ordered
import MotionControl.Proofs.Tree.Standing

/-!
# Regulation stays within the order

A ramp saturates last.  So the speed that it asks for is within its greatest speed and within the
order, whatever the position loop, the acceleration and the least speed made of it before, and it
is zero while the vehicle turns towards its target.  What a ramp asks for is what the state of the
engine shows.

- `RampSettings.Bounds`: a speed within a ramp and an order.
- `SpeedRamp.limit_bounds`, `AxisCascade.step_bounds`: the ramp alone, and on its axis.
- `StraightMove.decide_limits`: what a straight-line move leaves of the orders.
- `Node.ramps`, `Node.Aligning`: the ramps in a tree, and whether its last cycle turned towards the
  target.
- `Plant.Restrained`, `Plant.Looped.respond_restrained`: both axes, and the tree of a plant.
- `Engine.control_restrained`, `Engine.left_step_keptOrZeroed`: control, and what comes after it.
- `Engine.regulation_within_order`: every cycle of every run.
-/

namespace MotionControl

open Scalar Outcome

variable {α : Type} [Scalar α]

/-! ## Ramps -/

namespace RampSettings

/-- A speed that is not a number, or is within the greatest speed of the ramp, and within the
order if that is a number. -/
def Bounds (s : RampSettings α) (order speed : α) : Prop :=
  isNaN speed = true ∨
    abs speed ≤ s.maxSpeed ∧ (isNaN order = false → abs speed ≤ abs order)

variable [OrderedScalar α] {s : RampSettings α} {order speed : α}

namespace Bounds

/-- An order that was taken by its magnitude bounds as itself. -/
theorem of_abs (h : s.Bounds (abs order) speed) : s.Bounds order speed := by
  rcases h with hnan | ⟨hmax, hwithin⟩
  · exact .inl hnan
  · refine .inr ⟨hmax, fun horder => ?_⟩
    have habs := hwithin ((OrderedScalar.isNaN_abs order).trans horder)
    exact OrderedScalar.le_trans habs (OrderedScalar.abs_abs_le horder)

/-- What is within zero is within every order. -/
theorem of_zero (h : s.Bounds 0 speed) : s.Bounds order speed := by
  rcases h with hnan | ⟨hmax, hwithin⟩
  · exact .inl hnan
  · refine .inr ⟨hmax, fun horder => ?_⟩
    exact OrderedScalar.le_trans (hwithin OrderedScalar.isNaN_zero)
      (OrderedScalar.abs_zero_le_abs horder)

/-- Nothing but zero is within zero. -/
theorem eq_zero (h : s.Bounds 0 speed) : isNaN speed = true ∨ (speed == 0) = true := by
  rcases h with hnan | ⟨-, hwithin⟩
  · exact .inl hnan
  · refine .inr (OrderedScalar.beq_zero_of_abs_le ?_)
    exact OrderedScalar.le_trans (hwithin OrderedScalar.isNaN_zero) OrderedScalar.abs_zero_le

/-- No speed is within all bounds. -/
theorem zero (h : s.check = .ok ()) (order : α) : s.Bounds order 0 :=
  .inr ⟨OrderedScalar.abs_zero_le_bound (maxSpeed_isBound h), OrderedScalar.abs_zero_le_abs⟩

end Bounds

end RampSettings

/-- Whatever a ramp does to an order first, it saturates last. -/
theorem SpeedRamp.limit_saturates {f : SpeedRamp α} {order current bound r : α}
    (h : f.limit order current bound = .ok r) :
    ∃ lifted, clamp? (-lesser f.settings.maxSpeed (abs bound))
      (lesser f.settings.maxSpeed (abs bound)) lifted = some r := by
  -- the first saturation and the acceleration can fault, and otherwise only the last one counts
  obtain ⟨capped, -, h⟩ := bind_eq_ok_iff.mp h
  dsimp only at h
  by_cases hperiod : 0 < f.period
  · rw [if_pos hperiod] at h
    obtain ⟨step, -, h⟩ := bind_eq_ok_iff.mp h
    exact ⟨_, orFault_eq_ok_iff.mp h⟩
  · rw [if_neg hperiod] at h
    exact ⟨_, orFault_eq_ok_iff.mp h⟩

section Loops

variable [OrderedScalar α]

/-- So the ramped order is within the greatest speed and within the bound. -/
theorem SpeedRamp.limit_bounds {f : SpeedRamp α} (h : f.settings.check = .ok ())
    {order current bound r : α} (hr : f.limit order current bound = .ok r) :
    f.settings.Bounds bound r := by
  have hmax : IsBound f.settings.maxSpeed := RampSettings.maxSpeed_isBound h
  obtain ⟨lifted, hlifted⟩ := limit_saturates hr
  rcases OrderedScalar.abs_le_of_clamp? (lesser_abs hmax bound) hlifted with hnan | hcap
  · exact .inl hnan
  · refine .inr ⟨?_, fun hbound => ?_⟩
    · exact OrderedScalar.le_trans hcap (OrderedScalar.lesser_le_left hmax.1 _)
    · exact OrderedScalar.le_trans hcap
        (OrderedScalar.lesser_le_right hmax.1 ((OrderedScalar.isNaN_abs bound).trans hbound))

namespace AxisCascade

/-- The ramped order of an axis is within its limit, whichever order the mode picked. -/
theorem step_bounds {a : AxisCascade α} (h : a.ramp.settings.check = .ok ())
    {target position speed limit mode order : α} {r : α × α × AxisCascade α}
    (hr : a.step target position speed limit mode order = .ok r) :
    a.ramp.settings.Bounds limit r.2.1 := by
  obtain ⟨⟨held, loop⟩, -, hdrive⟩ := bind_eq_ok_iff.mp hr
  obtain ⟨ramped, hramped, hdrive⟩ := bind_eq_ok_iff.mp hdrive
  obtain ⟨⟨command, speedLoop⟩, -, hdrive⟩ := bind_eq_ok_iff.mp hdrive
  cases hdrive
  exact a.ramp.limit_bounds h hramped

end AxisCascade

end Loops

/-- A straight-line move hands the magnitudes of the orders on as limits, but for the linear axis
while it aligns. -/
theorem StraightMove.decide_limits (f : StraightMove α) (r : MoveRequest α) :
    (f.decide r).1.angular.limit = abs r.order.angle ∧
      ((f.decide r).1.linear.limit = abs r.order.distance ∧ (f.decide r).2.step ≠ .align ∨
        (f.decide r).1.linear.limit = 0) := by
  have h := f.decided r
  generalize f.decide r = outcome at h ⊢
  cases h with
  | align => exact ⟨rfl, .inr rfl⟩
  | straight | orient | speed => exact ⟨rfl, .inl ⟨rfl, nofun⟩⟩

/-! ## Trees -/

/-- The settings of a ramp. -/
def LawSettings.ramp? : LawSettings α → Option (RampSettings α)
  | speedRamp settings => some settings
  | _ => none

/-- The step that a straight-line move decided on in its last cycle. -/
def Law.moveStep? : Law α → Option MoveStep
  | straightMove f => some f.step
  | _ => none

namespace Node

/-- The settings of the ramps in a tree, from left to right. -/
def ramps (n : Node α) : List (RampSettings α) := n.blocks.filterMap LawSettings.ramp?

/-- In the last cycle of the tree, a straight-line move turned towards its target. -/
def Aligning (n : Node α) : Prop := .align ∈ n.laws.filterMap Law.moveStep?

/-- A sound tree has laws with the property at all of its leaves. -/
theorem Sound.laws {P : Law α → Prop} {n : Node α} (h : Sound P n) : ∀ law ∈ n.laws, P law := by
  induction n using induct with
  | leaf name law inputs outputs => exact List.forall_mem_singleton.mpr h.law
  | sequential name stages ih =>
    rw [laws_sequential]
    intro law hlaw
    obtain ⟨stage, hstage, hlaw⟩ := List.mem_flatMap.mp hlaw
    exact ih stage hstage (h.stages stage hstage) law hlaw
  | parallel name inputs outputs branches ih =>
    rw [laws_parallel]
    intro law hlaw
    obtain ⟨branch, hbranch, hlaw⟩ := List.mem_flatMap.mp hlaw
    exact ih branch hbranch (h.nodes branch hbranch) law hlaw

end Node

namespace AxisCascade

/-- The laws of an axis, from the position loop on. -/
def laws (layout : PidLayout) (a : AxisCascade α) : List (Law α) :=
  [.pid ⟨layout, [a.position]⟩, .forward 4, .select 1, .forward 2, .speedRamp a.ramp,
    .pid ⟨.setpointMeasurement, [a.speed]⟩, .forward 1]

omit [Scalar α] in
theorem laws_motorCircuit (own : String) (a : AxisCascade α) :
    (a.motorCircuit own).laws = a.laws .setpointMeasurement := rfl

end AxisCascade

omit [Scalar α] in
theorem PlatformCascade.laws_circuit (p : PlatformCascade α) :
    p.circuit.laws = .straightMove p.move :: (p.linear.laws .error ++ p.angular.laws .error) := rfl

namespace Node.Stands

variable {n : Node α} {p : PlatformCascade α} {a : AxisCascade α} {own : String}

theorem laws_platform (h : n.Stands 13 PlatformCascade.circuit p) :
    n.laws = .straightMove p.move :: (p.linear.laws .error ++ p.angular.laws .error) := by
  rw [laws, h.circuit, PlatformCascade.laws_circuit]

theorem laws_motor (h : n.Stands 6 (AxisCascade.motorCircuit own) a) :
    n.laws = a.laws .setpointMeasurement := by
  rw [laws, h.circuit, AxisCascade.laws_motorCircuit]

/-- The ramps of a vehicle's tree are those of its two axes, both checked. -/
theorem ramps_platform (h : n.Stands 13 PlatformCascade.circuit p) :
    n.ramps = [p.linear.ramp.settings, p.angular.ramp.settings] ∧
      p.linear.ramp.settings.check = .ok () ∧ p.angular.ramp.settings.check = .ok () := by
  have hchecked := h.sound.laws
  rw [h.laws_platform] at hchecked
  refine ⟨?_, hchecked (.speedRamp p.linear.ramp) ?_, hchecked (.speedRamp p.angular.ramp) ?_⟩
  · rw [ramps, blocks, h.laws_platform]
    rfl
  · simp [AxisCascade.laws]
  · simp [AxisCascade.laws]

/-- The ramp of an axis's tree is its own, and checked. -/
theorem ramps_motor (h : n.Stands 6 (AxisCascade.motorCircuit own) a) :
    n.ramps = [a.ramp.settings] ∧ a.ramp.settings.check = .ok () := by
  have hchecked := h.sound.laws
  rw [h.laws_motor] at hchecked
  refine ⟨?_, hchecked (.speedRamp a.ramp) ?_⟩
  · rw [ramps, blocks, h.laws_motor]
    rfl
  · simp [AxisCascade.laws]

/-- The only move in the tree of a vehicle is the one in front of its axes. -/
theorem step_of_aligning (h : n.Stands 13 PlatformCascade.circuit p) (halign : n.Aligning) :
    p.move.step = .align := by
  rw [Aligning, h.laws_platform] at halign
  simpa [AxisCascade.laws, Law.moveStep?, eq_comm] using halign

/-- A single axis has none. -/
theorem not_aligning (h : n.Stands 6 (AxisCascade.motorCircuit own) a) : ¬ n.Aligning := by
  rw [Aligning, h.laws_motor]
  simp [AxisCascade.laws, Law.moveStep?]

end Node.Stands

namespace Plant

variable {σ : Type}

/-- Both components of a speed are within the ramps and within the order.  A vehicle has a ramp for
each of them, and a single axis one. -/
def Limits (p : Plant α σ) (ramps : List (RampSettings α)) (order speed : Polar α) : Prop :=
  match p with
  | platform .. => ∃ linear angular, ramps = [linear, angular] ∧
      linear.Bounds order.distance speed.distance ∧ angular.Bounds order.angle speed.angle
  | motor _ => ∃ ramp, ramps = [ramp] ∧
      ramp.Bounds order.distance speed.distance ∧ ramp.Bounds order.angle speed.angle

/-- A speed is within the ramps of the tree before a cycle and within the order, and a vehicle whose
move turns towards its target in that cycle is to stand still. -/
structure Restrained (p : Plant α σ) (before after : Node α) (order speed : Polar α) : Prop where
  limits : p.Limits before.ramps order speed
  still : after.Aligning → isNaN speed.distance = true ∨ (speed.distance == 0) = true

/-- The tree is that of the plant. -/
def Looped (p : Plant α σ) (n : Node α) : Prop :=
  match p with
  | platform .. => ∃ c, n.Stands 13 PlatformCascade.circuit c
  | motor _ => ∃ own a, n.Stands 6 (AxisCascade.motorCircuit own) a

namespace Looped

variable {p : Plant α σ} {n n' : Node α}

/-- A tree stays the cascade that it is, whatever is called. -/
theorem calls (h : p.Looped n) {cs : List (TreeCall α)} (hcs : n.calls cs = .ok n') :
    p.Looped n' := by
  cases p with
  | platform odometer drive targets =>
    obtain ⟨c, hc⟩ := h
    exact hc.calls PlatformCascade.wires hcs
  | motor encoder =>
    obtain ⟨own, a, ha⟩ := h
    exact ⟨own, ha.calls (AxisCascade.wires own) hcs⟩

variable [OrderedScalar α]

/-- The ramped order that the tree of a plant shows. -/
theorem respond_restrained (h : p.Looped n) {s : ControlState α} {speedMode : Bool}
    {outputs : Signals α} (hrespond : n.respond (p.treeInputs s speedMode) = .ok (outputs, n'))
    {demand : Demand α} (hdemand : p.demand outputs = .ok demand) :
    p.Restrained n n' s.order demand.filtered := by
  obtain ⟨values⟩ := outputs
  cases p with
  | platform odometer drive targets =>
    obtain ⟨c, hstands⟩ := h
    obtain ⟨hramps, hlinear, hangular⟩ := hstands.ramps_platform
    obtain ⟨c', hloops, hstands'⟩ := hstands.respond PlatformCascade.wires rfl hrespond
    obtain ⟨request, hrequest, hstep⟩ := PlatformCascade.respond_eq_some hloops
    obtain ⟨linear, angular, hlinearStep, hangularStep, heq⟩ := PlatformCascade.step_eq_ok hstep
    obtain ⟨rfl, rfl⟩ := Prod.mk.inj heq
    cases hdemand
    have hdistance : request.order.distance = s.order.distance := by
      cases hrequest
      rfl
    have hangle : request.order.angle = s.order.angle := by
      cases hrequest
      rfl
    have hbound := AxisCascade.step_bounds hlinear hlinearStep
    have hbound' := AxisCascade.step_bounds hangular hangularStep
    -- either the move aligns, with a linear limit of zero, or each limit is its order's magnitude
    obtain ⟨hturn, hdrive⟩ := c.move.decide_limits request
    rw [hturn, hangle] at hbound'
    rcases hdrive with ⟨hlimit, haway⟩ | hlimit
    · rw [hlimit, hdistance] at hbound
      refine ⟨⟨_, _, hramps, hbound.of_abs, hbound'.of_abs⟩, fun halign => ?_⟩
      exact absurd (hstands'.step_of_aligning halign) haway
    · rw [hlimit] at hbound
      exact ⟨⟨_, _, hramps, hbound.of_zero, hbound'.of_abs⟩, fun _ => hbound.eq_zero⟩
  | motor encoder =>
    obtain ⟨own, a, hstands⟩ := h
    obtain ⟨hramps, hchecked⟩ := hstands.ramps_motor
    obtain ⟨a', hloops, hstands'⟩ := hstands.respond (AxisCascade.wires own) rfl hrespond
    obtain ⟨_, _, _, _, _, _, r, hinputs, hstep, hvalues, -⟩ := AxisCascade.respond_eq_some hloops
    cases hinputs
    change values = [r.1, r.2.1] at hvalues
    rw [hvalues] at hdemand
    cases hdemand
    have hbound := AxisCascade.step_bounds hchecked hstep
    -- an axis shows no angle, and it has no move that could align
    exact ⟨⟨_, hramps, hbound.of_abs, .zero hchecked _⟩,
      fun halign => absurd halign hstands'.not_aligning⟩

/-- Standing still is within everything. -/
theorem restrained_zero (h : p.Looped n) (after : Node α) (order : Polar α) :
    p.Restrained n after order .zero := by
  refine ⟨?_, fun _ => .inr (OrderedScalar.beq_zero_of_abs_le OrderedScalar.abs_zero_le)⟩
  cases p with
  | platform odometer drive targets =>
    obtain ⟨c, hstands⟩ := h
    obtain ⟨hramps, hlinear, hangular⟩ := hstands.ramps_platform
    exact ⟨_, _, hramps, .zero hlinear _, .zero hangular _⟩
  | motor encoder =>
    obtain ⟨own, a, hstands⟩ := h
    obtain ⟨hramps, hchecked⟩ := hstands.ramps_motor
    exact ⟨_, hramps, .zero hchecked _, .zero hchecked _⟩

end Looped

end Plant

namespace Engine

variable {σ : Type} {e e' ready : Engine α σ}

/-! ## The tree of an engine -/

/-- An engine begins with the tree of its plant. -/
theorem Built.looped (h : Built e) : e.plant.Looped e.tree := by
  cases h with
  | platform built =>
    have hchecked := PlatformSettings.checked (ofPlatform_checked built)
    obtain ⟨_, _, htree, rfl⟩ := ofPlatform_eq_ok built
    exact ⟨_, StandardTree.platform_stands hchecked htree⟩
  | motor built =>
    have hchecked := MotorSettings.checked (ofMotor_checked built)
    obtain ⟨_, _, htree, rfl⟩ := ofMotor_eq_ok built
    exact ⟨_, _, StandardTree.motor_stands hchecked htree⟩

/-! ## What is shown after control -/

/-- The filtered order is there still, or it is zero. -/
def KeptOrZeroed (e e' : Engine α σ) : Prop :=
  e'.state.filtered = e.state.filtered ∨ e'.state.filtered = .zero

theorem KeptOrZeroed.trans {e'' : Engine α σ} (h : KeptOrZeroed e e') (h' : KeptOrZeroed e' e'') :
    KeptOrZeroed e e'' := by
  rcases h' with hsame | hzero
  · rw [KeptOrZeroed, hsame]
    exact h
  · exact .inr hzero

theorem enter_keptOrZeroed (e : Engine α σ) (target : Mode) : KeptOrZeroed e (e.enter target) := by
  cases target with
  | stop | idle | blocked => exact .inr rfl
  | running | runningSpeed | passthrough => exact .inl rfl

theorem accept_keptOrZeroed {event : ModeEvent} (h : e.accept event = .ok e') :
    KeptOrZeroed e e' := by
  obtain ⟨target, -, rfl⟩ := accept_eq_ok_iff.mp h
  exact arrive_cases (fun _ => .inl rfl) (fun _ => enter_keptOrZeroed _ target) fun _ _ h => h

theorem StallLook.keptOrZeroed (h : StallLook e e') : KeptOrZeroed e e' := by
  cases h with
  | counted stall => exact .inl rfl
  | tripped accepted =>
    have hblocked := accept_keptOrZeroed accepted
    exact hblocked

theorem ArrivalLook.keptOrZeroed (h : ArrivalLook e e') : KeptOrZeroed e e' := by
  cases h with
  | before | away => exact .inl rfl
  | arrived unreached judged there shown =>
    rw [shown]
    exact .inl rfl

/-- A timeout leaves the filtered order or zeroes it. -/
theorem TimeoutLook.keptOrZeroed (h : TimeoutLook e e') : KeptOrZeroed e e' := by
  cases h with
  | pending => exact .inl rfl
  | expired unreached expired entered =>
    rw [entered]
    exact enter_keptOrZeroed _ _

/-- The looks at the outcome of a cycle ask for nothing new. -/
theorem supervised_keptOrZeroed (c : Engine α σ) : KeptOrZeroed c c.supervised :=
  supervised_invariant (fun hlook h => h.trans hlook.keptOrZeroed)
    (fun hlook h => h.trans hlook.keptOrZeroed) (fun hlook h => h.trans hlook.keptOrZeroed)
    (fun h => h) (.inl rfl)

/-- After control, a cycle asks for nothing new, and a cycle that is given up there leaves everything
as it is. -/
theorem left_step_keptOrZeroed (hready : e.tick.followPath.sense.beforeControl = .ok ready)
    (hhooks : (left ready.control).hooks.Discreet) :
    KeptOrZeroed (left ready.control) (left e.step) := by
  rw [step_eq, controlled, hready, ok_bind]
  revert hhooks
  cases ready.control with
  | error interrupted => exact fun _ => .inl rfl
  | ok driven =>
    intro hhooks
    have hafter : driven.afterControl.state = driven.state :=
      hhooks.after driven.state driven.world
    have hsupervised := supervised_keptOrZeroed driven.afterControl
    rw [KeptOrZeroed, hafter] at hsupervised
    exact hsupervised

/-! ## Control -/

section Ordered

variable [OrderedScalar α]

/-- Control in a regulating mode shows what the tree asks for, whether the command could be sent or
not. -/
theorem control_restrained (hlooped : e.plant.Looped e.tree) (hoperable : Operable e)
    (hmode : e.mode.isRegulating = true) :
    e.plant.Restrained e.tree (left e.control).tree e.state.order
      (left e.control).state.filtered := by
  have hregulate (speedMode : Bool) : e.plant.Restrained e.tree (left (e.regulate speedMode)).tree
      e.state.order (left (e.regulate speedMode)).state.filtered := by
    -- the tree never faults, and if the command cannot be sent, what it asked for shows all the same
    obtain ⟨consulted, hconsult, -⟩ := hoperable.consultTree speedMode
    have hdriven : left (e.regulate speedMode) = left consulted.drive := by
      rw [regulate, hconsult]
      rfl
    obtain ⟨hstate, htree⟩ := drive_shown consulted
    rw [hdriven, hstate, htree]
    obtain ⟨⟨outputs, tree⟩, hrespond, hconsult⟩ := bind_eq_ok_iff.mp hconsult
    obtain ⟨demand, hdemand, hconsult⟩ := bind_eq_ok_iff.mp hconsult
    cases hconsult
    exact hlooped.respond_restrained hrespond hdemand
  unfold control
  revert hmode
  cases e.mode with
  | running => exact fun _ => hregulate false
  | runningSpeed => exact fun _ => hregulate true
  | stop | idle | blocked | passthrough => nofun

/-- Whatever was done with an engine, and whatever is measured, a cycle in Running or RunningSpeed
leaves no more than was ordered: each component of the filtered order is not a number, or it is
within the greatest speed of its ramp and within the same component of the order that the cycle was
controlled with, if that is a number.  In a cycle in which the straight-line move of a vehicle turns
towards its target, the linear component is not a number or zero.

The hooks leave the state alone.  A cycle that the first of them gives up regulates nothing.  The
ramps are those that the engine was built with or has accepted since, so that they passed their
check. -/
theorem regulation_within_order {built : Engine α σ} {operations : List (Operation α)}
    (hbuilt : Built built) (hhooks : built.hooks.Discreet)
    (hready : (built.attemptAll operations).tick.followPath.sense.beforeControl = .ok ready)
    (hmode : ready.mode.isRegulating = true) :
    ready.plant.Restrained ready.tree (left ready.control).tree ready.state.order
      (left (built.attemptAll operations).step).state.filtered := by
  have hrun := hbuilt.operable.attemptAll_maintained operations
  have hbefore := (hrun.trans (sensed_maintained _)).trans (beforeControl_spec _).maintained
  rw [hready] at hbefore
  change Maintained built ready at hbefore
  have hoperable := hbuilt.operable.of_maintained hbefore
  -- whatever was done since, the tree is wired like the loops that it was built from
  have hcalled : Called built ready := by
    have hsensed : Called built (built.attemptAll operations).tick.followPath.sense :=
      ((attemptAll_called built operations).trans (tick_followPath_called _)).trans (.of_eq rfl)
    have hbefore := hsensed.trans (beforeControl_spec _).called
    rw [hready] at hbefore
    exact hbefore
  have hlooped : ready.plant.Looped ready.tree := by
    obtain ⟨cs, hcs⟩ := hcalled
    rw [hbefore.plant]
    exact hbuilt.looped.calls hcs
  have hdriven : (left ready.control).hooks.Discreet := by
    rw [hoperable.control.1.hooks, hbefore.hooks]
    exact hhooks
  rcases left_step_keptOrZeroed hready hdriven with hkept | hzero
  · rw [hkept]
    exact control_restrained hlooped hoperable hmode
  · rw [hzero]
    exact hlooped.restrained_zero _ _

end Ordered

/-- A vehicle that slides along and turns, whatever it is told. -/
def slidingVehicle : Except (EngineError Float) (Engine Float Unit) :=
  ofPlatform .default 1 ⟨fun _ => (⟨.of 0 0 0, .speed 200 40⟩, ()), fun _ _ => ()⟩ slackActuators
    none .none ()

/-- It gets a ramp with a least speed, and heads for a target beside it. -/
def sentAside : List (Operation Float) :=
  [.request .enable, .request (.setParameters "linear_speed_ramp" (.speedRamp ⟨5, 100, 30⟩)),
    .request (.setPoseTarget (.final (.of 0 100 0)))]

/-- An axis that turns at 40 gets a ramp with a least speed of 20, and an order of 10. -/
def orderedDown : List (Operation Float) :=
  [.request .enable, .request (.setParameters "speed_ramp" (.speedRamp ⟨20, 50, 1⟩)),
    .request (.setSpeedTarget (.speed 10 0)), .step]

/-- The vehicle is held back in the cycle after that, in Running, and the axis in RunningSpeed. -/
theorem reckless_plants_are_restrained :
    (∃ e ready, slidingVehicle = .ok e ∧
      (e.attemptAll sentAside).tick.followPath.sense.beforeControl = .ok ready ∧
      ready.mode = .running ∧ ready.tree.ramps = [⟨5, 100, 30⟩, .default] ∧
      ready.plant.Restrained ready.tree (left ready.control).tree ready.state.order
        (left (e.attemptAll sentAside).step).state.filtered) ∧
    ∃ e ready, turningLift = .ok e ∧
      (e.attemptAll orderedDown).tick.followPath.sense.beforeControl = .ok ready ∧
      ready.mode = .runningSpeed ∧ ready.tree.ramps = [⟨20, 50, 1⟩] ∧
      ready.plant.Restrained ready.tree (left ready.control).tree ready.state.order
        (left (e.attemptAll orderedDown).step).state.filtered := by
  constructor
  · have hran : (slidingVehicle.toOption.bind fun e =>
        (e.attemptAll sentAside).tick.followPath.sense.beforeControl.toOption.map fun ready =>
          (ready.mode, ready.tree.ramps)) = some (.running, [⟨5, 100, 30⟩, .default]) := by
      decide +kernel
    obtain ⟨e, he, hran⟩ := toOption_bind_eq_some_iff.mp hran
    obtain ⟨ready, hready, hran⟩ := toOption_map_eq_some_iff.mp hran
    obtain ⟨hmode, hramps⟩ := Prod.mk.inj hran
    have hhooks : e.hooks.Discreet := by
      obtain ⟨_, _, -, rfl⟩ := ofPlatform_eq_ok he
      exact Hooks.idle_discreet
    exact ⟨e, ready, he, hready, hmode, hramps,
      regulation_within_order (.platform he) hhooks hready (by rw [hmode]; rfl)⟩
  · have hran : (turningLift.toOption.bind fun e =>
        (e.attemptAll orderedDown).tick.followPath.sense.beforeControl.toOption.map fun ready =>
          (ready.mode, ready.tree.ramps)) = some (.runningSpeed, [⟨20, 50, 1⟩]) := by
      decide +kernel
    obtain ⟨e, he, hran⟩ := toOption_bind_eq_some_iff.mp hran
    obtain ⟨ready, hready, hran⟩ := toOption_map_eq_some_iff.mp hran
    obtain ⟨hmode, hramps⟩ := Prod.mk.inj hran
    have hhooks : e.hooks.Discreet := by
      obtain ⟨_, _, -, rfl⟩ := ofMotor_eq_ok he
      exact Hooks.idle_discreet
    exact ⟨e, ready, he, hready, hmode, hramps,
      regulation_within_order (.motor he) hhooks hready (by rw [hmode]; rfl)⟩

end Engine

end MotionControl
