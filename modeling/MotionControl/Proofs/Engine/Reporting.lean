import MotionControl.Proofs.Engine.Answers
import MotionControl.Proofs.Engine.Supervision

/-!
# What an engine reports

An engine counts its cycles and queues snapshots for others to see.  Both happen once in a cycle, at
its beginning and at its end, and nothing in between has anything to do with them: not the requests,
not the surroundings, and not what the cycle comes to.

- `Hooks.Punctual`: hooks that leave the number of the cycle alone.
- `Engine.Unreported`: nothing was counted and nothing queued.
- `Engine.request_unreported`: this is so after every request.
- `Engine.Stepped`, `Engine.step_stepped`: a cycle counts, and reports if it is not given up.
-/

namespace MotionControl

open Outcome

/-- Hooks that leave the number of the cycle alone. -/
structure Hooks.Punctual {α σ : Type} (h : Hooks α σ) : Prop where
  before : ∀ {state world state' world'},
    h.beforeControl state world = (.ok state', world') → state'.cycle = state.cycle
  after : ∀ state world, (h.afterControl state world).1.cycle = state.cycle

/-- Discreet hooks leave the cycle alone. -/
theorem Hooks.Discreet.punctual {α σ : Type} {h : Hooks α σ} (hdiscreet : h.Discreet) :
    h.Punctual where
  before hran := by rw [hdiscreet.before hran]
  after state world := by rw [hdiscreet.after]

namespace Engine

variable {α σ : Type} [Scalar α] {e e' : Engine α σ}

/-! ## Nothing to report -/

/-- The engine is among the same surroundings. -/
structure SameAround (e e' : Engine α σ) : Prop where
  plant : e'.plant = e.plant
  actuators : e'.actuators = e.actuators
  hooks : e'.hooks = e.hooks

omit [Scalar α] in
theorem SameAround.refl (e : Engine α σ) : SameAround e e := ⟨rfl, rfl, rfl⟩

omit [Scalar α] in
theorem SameAround.trans {e'' : Engine α σ} (h : SameAround e e') (h' : SameAround e' e'') :
    SameAround e e'' where
  plant := h'.plant.trans h.plant
  actuators := h'.actuators.trans h.actuators
  hooks := h'.hooks.trans h.hooks

/-- Nothing was counted and nothing queued, and the surroundings are the same. -/
structure Unreported (e e' : Engine α σ) : Prop extends SameAround e e' where
  cycle : e'.state.cycle = e.state.cycle
  telemetry : e'.telemetry = e.telemetry
  interval : e'.parameters.telemetryInterval = e.parameters.telemetryInterval

namespace Unreported

omit [Scalar α] in
theorem refl (e : Engine α σ) : Unreported e e := ⟨⟨rfl, rfl, rfl⟩, rfl, rfl, rfl⟩

omit [Scalar α] in
theorem trans {e'' : Engine α σ} (h : Unreported e e') (h' : Unreported e' e'') :
    Unreported e e'' where
  toSameAround := h.toSameAround.trans h'.toSameAround
  cycle := h'.cycle.trans h.cycle
  telemetry := h'.telemetry.trans h.telemetry
  interval := h'.interval.trans h.interval

end Unreported

/-! ## Requests -/

/-- Entering a mode queues nothing. -/
theorem enter_unreported (e : Engine α σ) (target : Mode) : Unreported e (e.enter target) := by
  cases target with
  | stop | idle | blocked | running | runningSpeed | passthrough =>
    exact ⟨⟨rfl, rfl, rfl⟩, rfl, rfl, rfl⟩

theorem arrive_unreported (e : Engine α σ) (event : ModeEvent) (target : Mode) :
    Unreported e (e.arrive event target) := by
  have hmoved : Unreported e { e with machine := e.machine.move event target } :=
    ⟨⟨rfl, rfl, rfl⟩, rfl, rfl, rfl⟩
  refine arrive_cases (fun _ => hmoved) (fun _ => ?_) fun _ _ hentered => ?_
  · exact hmoved.trans (enter_unreported _ target)
  · exact hentered.trans ⟨⟨rfl, rfl, rfl⟩, rfl, rfl, rfl⟩

theorem accept_unreported {event : ModeEvent} (h : e.accept event = .ok e') : Unreported e e' := by
  obtain ⟨target, -, rfl⟩ := accept_eq_ok_iff.mp h
  exact arrive_unreported e event target

theorem Answered.unreported {what : Request α} (h : Answered e what e') : Unreported e e' := by
  cases h with
  | refused => exact .refl e
  | moved next resting plain => exact arrive_unreported e _ _
  | recovered asked next => exact arrive_unreported e _ _
  | @commanded mode commands next goal order =>
    exact (arrive_unreported e (.toward mode) mode).trans ⟨⟨rfl, rfl, rfl⟩, rfl, rfl, rfl⟩
  | reseated | told => exact ⟨⟨rfl, rfl, rfl⟩, rfl, rfl, rfl⟩

/-- No request counts as a cycle or reports anything. -/
theorem request_unreported (e : Engine α σ) (what : Request α) : Unreported e (e.request what) := by
  by_cases hraw : ∃ event, what = .handle event
  · obtain ⟨event, rfl⟩ := hraw
    exact granted_cases (.refl e) fun _ => accept_unreported
  · exact (request_answered e fun event h => hraw ⟨event, h⟩).unreported

/-! ## The phases of a cycle -/

/-- Nor does a new target. -/
theorem setPoseTarget_unreported {target : PathPose α} (h : e.setPoseTarget target = .ok e') :
    Unreported e e' := by
  obtain ⟨arrived, haccept, hset⟩ := bind_eq_ok_iff.mp h
  cases hset
  exact (accept_unreported haccept).trans ⟨⟨rfl, rfl, rfl⟩, rfl, rfl, rfl⟩

omit [Scalar α] in
theorem Looked.unreported {next : Option (PathPose α) × Engine α σ} (h : Looked e next) :
    Unreported e next.2 := by
  cases h with
  | nothing | first | dropped => exact ⟨⟨rfl, rfl, rfl⟩, rfl, rfl, rfl⟩

theorem followPath_unreported (e : Engine α σ) : Unreported e e.followPath := by
  cases followPath_spec e with
  | looked look => exact look.unreported
  | loaded loads look accepted => exact look.unreported.trans (setPoseTarget_unreported accepted)

omit [Scalar α] in
theorem Readied.unreported (hhooks : e.hooks.Punctual)
    {outcome : Except (Interrupted α σ) (Engine α σ)} (h : Readied e outcome) :
    Unreported e (left outcome) := by
  cases h with
  | failed ran => exact ⟨⟨rfl, rfl, rfl⟩, rfl, rfl, rfl⟩
  | ready ran =>
    have hcycle := hhooks.before ran
    exact ⟨⟨rfl, rfl, rfl⟩, hcycle, rfl, rfl⟩

omit [Scalar α] in
theorem Steered.unreported (h : Steered e e') : Unreported e e' := by
  cases h with
  | shown | sent => exact ⟨⟨rfl, rfl, rfl⟩, rfl, rfl, rfl⟩

theorem StallLook.unreported (h : StallLook e e') : Unreported e e' := by
  cases h with
  | counted stall => exact ⟨⟨rfl, rfl, rfl⟩, rfl, rfl, rfl⟩
  | tripped accepted =>
    have hblocked := accept_unreported accepted
    exact ⟨⟨hblocked.plant, hblocked.actuators, hblocked.hooks⟩, hblocked.cycle,
      hblocked.telemetry, hblocked.interval⟩

theorem ArrivalLook.unreported (h : ArrivalLook e e') : Unreported e e' := by
  cases h with
  | before reached => exact .refl e
  | away unreached judged moving => exact ⟨⟨rfl, rfl, rfl⟩, rfl, rfl, rfl⟩
  | arrived unreached judged there shown =>
    rw [shown]
    exact ⟨⟨rfl, rfl, rfl⟩, rfl, rfl, rfl⟩

theorem TimeoutLook.unreported (h : TimeoutLook e e') : Unreported e e' := by
  cases h with
  | pending => exact .refl e
  | expired unreached expired entered =>
    have hidle := enter_unreported { e with machine := e.machine.forceIdle }
      e.machine.forceIdle.mode
    rw [← entered] at hidle
    exact ⟨⟨hidle.plant, hidle.actuators, hidle.hooks⟩, hidle.cycle, hidle.telemetry,
      hidle.interval⟩

/-- Before its end, a cycle counts itself and reports nothing. -/
theorem left_controlled_unreported (hhooks : e.hooks.Punctual) :
    Unreported e.tick (left e.controlled) := by
  refine left_controlled ?_ (fun hready h => h.trans (hready.unreported (h.hooks ▸ hhooks)))
    (fun hsteered h => h.trans hsteered.unreported) fun driven h => h.trans ?_
  · exact (followPath_unreported e.tick).trans ⟨⟨rfl, rfl, rfl⟩, rfl, rfl, rfl⟩
  · have hpunctual : driven.hooks.Punctual := h.hooks ▸ hhooks
    exact ⟨⟨rfl, rfl, rfl⟩, hpunctual.after _ _, rfl, rfl⟩

theorem checkTarget_unreported (e : Engine α σ) : Unreported e e.stallChecked.checkTarget :=
  checkTarget_invariant (fun hlook h => h.trans hlook.unreported)
    (fun _ hlook h => h.trans hlook.unreported) (fun _ hlook h => h.trans hlook.unreported)
    (.refl e)

/-! ## Cycles -/

/-- What a cycle has counted and reported: it counts itself, and reports at its end, unless it is
given up before. -/
inductive Stepped (e : Engine α σ) : Except (Interrupted α σ) (Engine α σ) → Prop where
  | finished {ended} (unreported : Unreported e.tick ended) : Stepped e (.ok ended.publish)
  | givenUp {interrupted} (unreported : Unreported e.tick interrupted.engine) :
      Stepped e (.error interrupted)

/-- What a cycle does to the queue, if the hooks leave the cycle alone. -/
theorem step_stepped (hhooks : e.hooks.Punctual) : Stepped e e.step := by
  have hcontrolled := left_controlled_unreported hhooks
  rw [step_eq]
  cases hc : e.controlled with
  | ok c =>
    rw [hc] at hcontrolled
    change Unreported e.tick c at hcontrolled
    exact .finished (hcontrolled.trans (checkTarget_unreported c))
  | error interrupted =>
    rw [hc] at hcontrolled
    exact .givenUp hcontrolled

omit [Scalar α] in
/-- A cycle raises the number of the cycle by one, also if it is given up. -/
theorem Stepped.cycle {outcome : Except (Interrupted α σ) (Engine α σ)} (h : Stepped e outcome) :
    (left outcome).state.cycle = e.state.cycle + 1 ∧ (left outcome).hooks = e.hooks := by
  cases h with
  | givenUp unreported => exact ⟨unreported.cycle, unreported.hooks⟩
  | @finished ended unreported =>
    obtain ⟨telemetry, hpublished⟩ := publish_eq ended
    rw [hpublished]
    exact ⟨unreported.cycle, unreported.hooks⟩

/-- A fresh engine has counted no cycle. -/
theorem Built.cycle (h : Built e) : e.state.cycle = 0 := by
  cases h with
  | platform built =>
    obtain ⟨_, _, -, rfl⟩ := ofPlatform_eq_ok built
    rfl
  | motor built =>
    obtain ⟨_, _, -, rfl⟩ := ofMotor_eq_ok built
    rfl

end Engine

end MotionControl
