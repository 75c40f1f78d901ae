import MotionControl.Engine.Build
import MotionControl.Proofs.Outcome

/-!
# Operations on an engine

Everything that a caller can do with a finished engine, and runs of it.

- `Operation`, `Engine.perform`, `Engine.performAll`: requests and cycles.
- `Engine.performAll_invariant`: what every operation preserves holds after a run.
- `Engine.arrive`, `Engine.accept_eq_ok_iff`: an accepted mode event.
- `Engine.request_spec`: what a request does to the mode and to the world.
-/

namespace MotionControl

open Outcome

/-- A request, or one cycle. -/
inductive Operation (α : Type) where
  | step
  | request (what : Request α)

namespace Engine

variable {α σ : Type} [Scalar α]

/-- The engine after an operation, unless its cycle was given up. -/
def perform (e : Engine α σ) : Operation α → Except (Interrupted α σ) (Engine α σ)
  | .step => e.step
  | .request what => .ok (e.request what)

/-- The engine after operations, one after another. -/
def performAll (e : Engine α σ) (operations : List (Operation α)) :
    Except (Interrupted α σ) (Engine α σ) :=
  operations.foldlM perform e

/-- What every operation preserves holds after a run of them. -/
theorem performAll_invariant {I : Engine α σ → Prop}
    (hrequest : ∀ e what, I e → I (e.request what))
    (hstep : ∀ e e', I e → e.step = .ok e' → I e') {e e' : Engine α σ}
    {operations : List (Operation α)} (h : I e) (hrun : e.performAll operations = .ok e') :
    I e' := by
  induction operations generalizing e with
  | nil =>
    cases hrun
    exact h
  | cons operation rest ih =>
    -- A cycle that is given up ends the run, so that only finished ones are left.
    obtain ⟨e₁, hfirst, hrest⟩ := bind_eq_ok_iff.mp hrun
    cases operation with
    | step => exact ih (hstep e e₁ h hfirst) hrest
    | request what =>
      cases hfirst
      exact ih (hrequest e what h) hrest

omit [Scalar α] in
/-- What a granted request has to do with the engine, if a refused one leaves it alone. -/
theorem granted_cases {I : Engine α σ → Prop} {e : Engine α σ}
    {outcome : Except (EngineError α) (Engine α σ)} (hrefused : I e)
    (hgranted : ∀ e', outcome = .ok e' → I e') : I (e.granted outcome) := by
  cases outcome with
  | ok e' => exact hgranted e' rfl
  | error reason => exact hrefused

/-! ## Accepted mode events -/

/-- The engine after an event that leads to a mode. -/
def arrive (e : Engine α σ) (event : ModeEvent) (target : Mode) : Engine α σ :=
  let moved := { e with machine := e.machine.move event target }
  let entered :=
    if (Transition.mk e.machine.mode target).changed then moved.enter target else moved
  if event = .recover then entered.beginCommand else entered

/-- A mode event is accepted when it leads somewhere from the current mode. -/
theorem accept_eq_ok_iff {e e' : Engine α σ} {event : ModeEvent} :
    e.accept event = .ok e' ↔
      ∃ target, e.machine.next? event = some target ∧ e' = e.arrive event target := by
  unfold accept handle ModeMachine.handle
  cases hnext : e.machine.next? event with
  | none =>
    constructor
    · intro h
      cases h
    · rintro ⟨_, h, _⟩
      cases h
  | some target =>
    constructor
    · intro h
      cases h
      exact ⟨target, rfl, rfl⟩
    · rintro ⟨_, ⟨⟩, rfl⟩
      rfl

/-- An event keeps the mode or enters another one, and a recovery begins its command anew. -/
theorem arrive_cases {I : Engine α σ → Prop} {e : Engine α σ} {event : ModeEvent} {target : Mode}
    (hkept : e.machine.mode = target → I { e with machine := e.machine.move event target })
    (hentered : e.machine.mode ≠ target →
      I (({ e with machine := e.machine.move event target } : Engine α σ).enter target))
    (hbegun : event = .recover → ∀ entered : Engine α σ, I entered → I entered.beginCommand) :
    I (e.arrive event target) := by
  unfold arrive
  extract_lets moved entered
  have hnow : I entered := by
    by_cases hsame : e.machine.mode = target
    · have hmoved : entered = moved := if_neg (by simp [Transition.changed, hsame])
      rw [hmoved]
      exact hkept hsame
    · have hnew : entered = moved.enter target := if_pos (by simp [Transition.changed, hsame])
      rw [hnew]
      exact hentered hsame
  by_cases hrecover : event = .recover
  · rw [if_pos hrecover]
    exact hbegun hrecover entered hnow
  · rw [if_neg hrecover]
    exact hnow

/-- A request for a mode is an accepted event, and begins a command where there is one to begin. -/
theorem requestMode_cases {e e' : Engine α σ} {mode : Mode} (h : e.requestMode mode = .ok e') :
    (∃ event, e.accept event = .ok e') ∨
      ∃ event arrived, e.accept event = .ok arrived ∧ e' = arrived.beginCommand := by
  unfold requestMode at h
  by_cases henable : mode = .idle ∧ e.mode = .stop
  · rw [if_pos henable] at h
    exact .inl ⟨_, h⟩
  · rw [if_neg henable] at h
    obtain ⟨arrived, haccept, hset⟩ := bind_eq_ok_iff.mp h
    cases hset
    by_cases hregulating : mode.isRegulating
    · rw [if_pos hregulating]
      exact .inr ⟨_, arrived, haccept, rfl⟩
    · rw [if_neg hregulating]
      exact .inl ⟨_, haccept⟩

/-- An engine that cannot be disabled stays as it is. -/
theorem disable_cases (e : Engine α σ) :
    e.disable = e ∨ e.accept .disable = .ok e.disable := by
  unfold disable
  cases haccept : e.accept .disable with
  | ok e' => exact .inr rfl
  | error reason => exact .inl rfl

/-! ## What a request does to the mode and to the world -/

/-- The engines differ in nothing that a mode event or the world would show. -/
structure SameOutside (e e' : Engine α σ) : Prop where
  machine : e'.machine = e.machine
  plant : e'.plant = e.plant
  actuators : e'.actuators = e.actuators
  hooks : e'.hooks = e.hooks
  world : e'.world = e.world

omit [Scalar α] in
theorem SameOutside.refl (e : Engine α σ) : SameOutside e e := ⟨rfl, rfl, rfl, rfl, rfl⟩

/-- How a request reaches another mode or another world: by an accepted mode event, or by
telling the measurements where the plant is. -/
inductive Requested (e : Engine α σ) : Engine α σ → Prop where
  | kept {e'} (same : SameOutside e e') : Requested e e'
  | arrived {event target e'} (next : e.machine.next? event = some target)
      (same : SameOutside (e.arrive event target) e') : Requested e e'
  | reseated (pose : Pose α) : Requested e (e.setPose pose)

theorem Requested.refused (e : Engine α σ) : Requested e e := .kept (.refl e)

/-- An accepted event, followed by changes that nothing outside shows. -/
theorem Requested.of_accept {e arrived e' : Engine α σ} {event : ModeEvent}
    (h : e.accept event = .ok arrived) (same : SameOutside arrived e') : Requested e e' := by
  obtain ⟨target, hnext, rfl⟩ := accept_eq_ok_iff.mp h
  exact .arrived hnext same

/-- An event that was accepted is what was requested. -/
theorem Requested.accepted {e e' : Engine α σ} {event : ModeEvent}
    (h : e.accept event = .ok e') : Requested e e' :=
  .of_accept h (.refl e')

/-- An accepted event, and what follows it whatever the engine is then. -/
theorem Requested.of_command {e e' : Engine α σ} {event : ModeEvent}
    {after : Engine α σ → Engine α σ}
    (h : (do
      let e ← e.accept event
      .ok (after e)) = .ok e')
    (same : ∀ e, SameOutside e (after e)) : Requested e e' := by
  obtain ⟨arrived, haccept, hset⟩ := bind_eq_ok_iff.mp h
  cases hset
  exact .of_accept haccept (same arrived)

/-- What a request for a mode may come to. -/
theorem requestMode_spec {e e' : Engine α σ} {mode : Mode} (h : e.requestMode mode = .ok e') :
    Requested e e' := by
  obtain ⟨event, haccept⟩ | ⟨event, arrived, haccept, rfl⟩ := requestMode_cases h
  · exact .accepted haccept
  · exact .of_accept haccept ⟨rfl, rfl, rfl, rfl, rfl⟩

theorem disable_spec (e : Engine α σ) : Requested e e.disable := by
  obtain hrefused | haccept := disable_cases e
  · rw [hrefused]
    exact .refused e
  · exact .accepted haccept

/-- What a new pose target may come to. -/
theorem setPoseTarget_spec {e e' : Engine α σ} {target : PathPose α}
    (h : e.setPoseTarget target = .ok e') : Requested e e' :=
  .of_command h fun _ => ⟨rfl, rfl, rfl, rfl, rfl⟩

theorem setSpeedTarget_spec {e e' : Engine α σ} {order : Polar α}
    (h : e.setSpeedTarget order = .ok e') : Requested e e' :=
  .of_command h fun _ => ⟨rfl, rfl, rfl, rfl, rfl⟩

theorem setPassthrough_spec {e e' : Engine α σ} {order : Polar α}
    (h : e.setPassthrough order = .ok e') : Requested e e' :=
  .of_command h fun _ => ⟨rfl, rfl, rfl, rfl, rfl⟩

/-- Other parameters leave everything around the tree alone. -/
theorem setParameters_spec {e e' : Engine α σ} {leaf : String} {settings : LawSettings α}
    (h : e.setParameters leaf settings = .ok e') : SameOutside e e' := by
  obtain ⟨tree, -, hset⟩ := bind_eq_ok_iff.mp h
  cases hset
  exact ⟨rfl, rfl, rfl, rfl, rfl⟩

theorem setStallSettings_spec {e e' : Engine α σ} {settings : StallSettings α}
    (h : e.setStallSettings settings = .ok e') : SameOutside e e' := by
  obtain ⟨_, -, hset⟩ := bind_eq_ok_iff.mp h
  cases hset
  by_cases henabled : settings.enabled
  · rw [if_pos henabled]
    exact ⟨rfl, rfl, rfl, rfl, rfl⟩
  · rw [if_neg henabled]
    exact ⟨rfl, rfl, rfl, rfl, rfl⟩

theorem setArrivalSettings_spec {e e' : Engine α σ} {settings : ArrivalSettings α}
    (h : e.setArrivalSettings settings = .ok e') : SameOutside e e' := by
  obtain ⟨_, -, hset⟩ := bind_eq_ok_iff.mp h
  cases hset
  exact ⟨rfl, rfl, rfl, rfl, rfl⟩

omit [Scalar α] in
theorem setTimeoutSettings_spec {e e' : Engine α σ} {settings : TimeoutSettings}
    (h : e.setTimeoutSettings settings = .ok e') : SameOutside e e' := by
  obtain ⟨_, -, hset⟩ := bind_eq_ok_iff.mp h
  cases hset
  exact ⟨rfl, rfl, rfl, rfl, rfl⟩

/-- A request is an accepted mode event at most, and nothing else moves the mode or the
world, apart from telling the measurements where the plant is. -/
theorem request_spec (e : Engine α σ) (what : Request α) : Requested e (e.request what) := by
  cases what with
  | handle event => exact granted_cases (.refused e) fun _ => .accepted
  | requestMode mode => exact granted_cases (.refused e) fun _ => requestMode_spec
  | enable => exact granted_cases (.refused e) fun _ => .accepted
  | disable => exact disable_spec e
  | dropCommand => exact granted_cases (.refused e) fun _ => .accepted
  | recover => exact granted_cases (.refused e) fun _ => .accepted
  | setPoseTarget target => exact granted_cases (.refused e) fun _ => setPoseTarget_spec
  | setSpeedTarget order => exact granted_cases (.refused e) fun _ => setSpeedTarget_spec
  | setPassthrough order => exact granted_cases (.refused e) fun _ => setPassthrough_spec
  | setSpeedOrder order => exact .kept ⟨rfl, rfl, rfl, rfl, rfl⟩
  | setPose pose => exact .reseated pose
  | setPathFollow enabled => exact .kept ⟨rfl, rfl, rfl, rfl, rfl⟩
  | setParameters leaf settings =>
    exact granted_cases (.refused e) fun _ h => .kept (setParameters_spec h)
  | setStallSettings settings =>
    exact granted_cases (.refused e) fun _ h => .kept (setStallSettings_spec h)
  | setArrivalSettings settings =>
    exact granted_cases (.refused e) fun _ h => .kept (setArrivalSettings_spec h)
  | setTimeoutSettings settings =>
    exact granted_cases (.refused e) fun _ h => .kept (setTimeoutSettings_spec h)

end Engine

end MotionControl
