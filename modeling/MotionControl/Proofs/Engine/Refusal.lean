import MotionControl.Engine.Procedure
import MotionControl.Proofs.Engine.Arrival
import MotionControl.Proofs.Engine.Watching
import MotionControl.InPlace
import MotionControl.Proofs.Tree.Shape

/-!
# Refused requests

A request is carried out in place, statement by statement.  What is refused is refused before the
first statement that changes anything, at whatever depth of the tree: the engine is left as it was,
and nobody around it hears of the request.

- `ModeMachine.feed_run`, `Node.amend_run`: events and parameter blocks are changes that are made as
  a whole or not at all.
- `Engine.carryOut_run`, `Engine.request_eq_left`: so is every request, and what comes of it is what
  `Engine.request` gives.
- `Engine.refused_alike`: whether an engine refuses has nothing to do with what surrounds it.
- `Engine.refusal_changes_nothing`: a refused request changes nothing and calls nobody.
-/

namespace MotionControl

open Outcome InPlace

/-! ## Mode events -/

/-- Nothing about the machine is noted before the event is known to lead somewhere. -/
theorem ModeMachine.feed_run (m : ModeMachine) (event : ModeEvent) :
    (feed event).run m = conclude m (m.handle event) := by
  unfold feed handle
  rw [run_bind, run_get]
  dsimp only
  cases m.next? event with
  | none => rfl
  | some target =>
    by_cases hblocked : event = .blocked
    · simp only [if_pos hblocked, move]
      rfl
    · simp only [if_neg hblocked, move]
      rfl

/-! ## Parameter blocks -/

namespace Node

variable {α ε : Type} {name : String} {change : Node α → Except ε Unit × Node α}
  {f : Node α → Except ε (Node α)}

/-- A visit to a stage that may refuse is an edit that is made as a whole. -/
theorem visitStage?_settle {stages : List (Node α)}
    (hstages : ∀ n ∈ stages, n.visit? name change = (n.edit? name f).map (settle n)) :
    visitStage? name change stages = (editStage? name f stages).map (settle stages) := by
  induction stages with
  | nil => rfl
  | cons stage rest ih =>
    rw [List.forall_mem_cons] at hstages
    rw [visitStage?, editStage?, hstages.1]
    cases edit? name f stage with
    | some edited => exact congrArg some (map_settle ..)
    | none =>
      show (visitStage? name change rest).map _ = _
      rw [ih hstages.2]
      cases editStage? name f rest with
      | none => rfl
      | some edited => exact congrArg some (map_settle ..)

/-- So is a visit to a branch. -/
theorem visitBranch?_settle {branches : List (Wired (Node α))}
    (hbranches : ∀ b ∈ branches,
      b.node.visit? name change = (b.node.edit? name f).map (settle b.node)) :
    visitBranch? name change branches = (editBranch? name f branches).map (settle branches) := by
  induction branches with
  | nil => rfl
  | cons branch rest ih =>
    rw [List.forall_mem_cons] at hbranches
    rw [visitBranch?, editBranch?, hbranches.1]
    cases edit? name f branch.node with
    | some edited => exact congrArg some (map_settle ..)
    | none =>
      show (visitBranch? name change rest).map _ = _
      rw [ih hbranches.2]
      cases editBranch? name f rest with
      | none => rfl
      | some edited => exact congrArg some (map_settle ..)

/-- The tree is changed as a whole if the node is. -/
theorem visit?_settle (hchange : ∀ n, change n = settle n (f n)) (n : Node α) :
    n.visit? name change = (n.edit? name f).map (settle n) := by
  induction n using induct with
  | leaf own law inputs outputs =>
    rw [visit?, edit?]
    by_cases hname : own = name
    · rw [if_pos hname, if_pos hname, hchange]
      rfl
    · rw [if_neg hname, if_neg hname]
      rfl
  | sequential own stages ih =>
    rw [visit?, edit?]
    by_cases hname : own = name
    · rw [if_pos hname, if_pos hname, hchange]
      rfl
    · rw [if_neg hname, if_neg hname, visitStage?_settle ih]
      cases editStage? name f stages with
      | none => rfl
      | some edited => exact congrArg some (map_settle ..)
  | parallel own inputs outputs branches ih =>
    rw [visit?, edit?]
    by_cases hname : own = name
    · rw [if_pos hname, if_pos hname, hchange]
      rfl
    · rw [if_neg hname, if_neg hname, visitBranch?_settle ih]
      cases editBranch? name f branches with
      | none => rfl
      | some edited => exact congrArg some (map_settle ..)

variable [Scalar α]

/-- The block is checked, and the law asked for it, before the leaf is touched. -/
theorem take_run (settings : LawSettings α) (n : Node α) :
    (take settings).run n = settle n (n.install settings) := by
  unfold take
  rw [run_bind, run_get]
  cases n with
  | sequential name stages => rfl
  | parallel name inputs outputs branches => rfl
  | leaf name law inputs outputs =>
    unfold install
    cases settings.check with
    | error reason => rfl
    | ok _ =>
      dsimp only
      cases law.install settings with
      | some law => rfl
      | none =>
        by_cases hparameterized : law.isParameterized
        · simp only [if_pos hparameterized]
          rfl
        · simp only [if_neg hparameterized]
          rfl

/-- So is another block for a leaf. -/
theorem amend_run (settings : LawSettings α) (n : Node α) :
    (amend name settings).run n = settle n (n.setParameters name settings) := by
  unfold setParameters
  show (n.visit? name (take settings).run).getD (.error (.unknownController name), n) = _
  rw [visit?_settle (take_run settings)]
  cases n.edit? name (install settings) with
  | none => rfl
  | some edited => rfl

end Node

/-! ## Requests -/

namespace Procedure

variable {α σ : Type} {e : Engine α σ}

/-- An event moves the machine of an engine and touches nothing else. -/
theorem feed_within_run (event : ModeEvent) (mode : Mode) :
    InPlace.run (((ModeMachine.feed event).within Engine.machine fun machine (e : Engine α σ) =>
      { e with machine }).reporting (EngineError.rejected mode event)) e =
        conclude e (match e.machine.handle event with
          | .ok (transition, machine) => .ok (transition, { e with machine })
          | .error reason => .error (EngineError.rejected (α := α) mode event reason)) := by
  rw [run_reporting, run_within, ModeMachine.feed_run]
  cases e.machine.handle event with
  | ok moved => rfl
  | error reason => rfl

theorem setTimeoutSettings_run (settings : TimeoutSettings) :
    (setTimeoutSettings settings).run e = settle e (e.setTimeoutSettings settings) := by
  unfold setTimeoutSettings Engine.setTimeoutSettings
  cases Engine.checked (α := α) "timeout" settings.check with
  | error reason => rfl
  | ok _ => rfl

variable [Scalar α]

/-- An event is handled as a whole or not at all. -/
theorem handle_run (event : ModeEvent) : (handle event).run e = conclude e (e.handle event) := by
  unfold handle Engine.handle
  rw [run_bind, run_get]
  dsimp only
  rw [run_bind, feed_within_run]
  cases e.machine.handle event with
  | error reason => rfl
  | ok moved =>
    obtain ⟨transition, machine⟩ := moved
    dsimp only [conclude]
    -- Only here is the engine changed, and no statement from here on can be given up.
    by_cases hchanged : transition.changed
    · by_cases hrecover : event = .recover
      · simp only [if_pos hchanged, if_pos hrecover]
        rfl
      · simp only [if_pos hchanged, if_neg hrecover]
        rfl
    · by_cases hrecover : event = .recover
      · simp only [if_neg hchanged, if_pos hrecover]
        rfl
      · simp only [if_neg hchanged, if_neg hrecover]
        rfl

/-- So it is when nobody asks for the transition. -/
theorem accept_run (event : ModeEvent) : (accept event).run e = settle e (e.accept event) := by
  unfold accept Engine.accept
  rw [run_bind, handle_run]
  cases e.handle event with
  | ok handled => rfl
  | error reason => rfl

/-- So is a request for a mode. -/
theorem requestMode_run (mode : Mode) :
    (requestMode mode).run e = settle e (e.requestMode mode) := by
  unfold requestMode Engine.requestMode
  rw [run_bind, run_get]
  dsimp only
  by_cases henable : mode = .idle ∧ e.mode = .stop
  · rw [if_pos henable, if_pos henable]
    exact accept_run .enable
  · rw [if_neg henable, if_neg henable]
    refine run_bind_of_settle (accept_run _) fun left => ?_
    by_cases hregulating : mode.isRegulating
    · rw [if_pos hregulating, if_pos hregulating]
      rfl
    · rw [if_neg hregulating, if_neg hregulating]
      rfl

/-- An engine that cannot be disabled says nothing about it. -/
theorem disable_run :
    InPlace.run (try accept .disable catch _ => pure () : Procedure α σ Unit) e =
      (.ok (), e.disable) := by
  rw [run_tryCatch, accept_run]
  unfold Engine.disable
  cases e.accept .disable with
  | ok e' => rfl
  | error reason => rfl

/-- So are other parameters. -/
theorem setParameters_run (leaf : String) (settings : LawSettings α) :
    (setParameters leaf settings).run e = settle e (e.setParameters leaf settings) := by
  unfold setParameters Engine.setParameters
  rw [run_reporting, run_within, Node.amend_run]
  cases e.tree.setParameters leaf settings with
  | ok tree => rfl
  | error reason => rfl

theorem setStallSettings_run (settings : StallSettings α) :
    (setStallSettings settings).run e = settle e (e.setStallSettings settings) := by
  unfold setStallSettings Engine.setStallSettings
  cases Engine.checked (α := α) "blocking" settings.check with
  | error reason => rfl
  | ok _ =>
    by_cases henabled : settings.enabled
    · simp only [henabled, Bool.not_true, if_true]
      rfl
    · simp only [henabled]
      rfl

theorem setArrivalSettings_run (settings : ArrivalSettings α) :
    (setArrivalSettings settings).run e = settle e (e.setArrivalSettings settings) := by
  unfold setArrivalSettings Engine.setArrivalSettings
  cases Engine.checked (α := α) "pose_reached" settings.check with
  | error reason => rfl
  | ok _ => rfl

end Procedure

namespace Engine

variable {α σ τ : Type} [Scalar α] {e : Engine α σ} {f : Engine α τ} {reason : EngineError α}

/-- What comes of a request. -/
def outcome (e : Engine α σ) : Request α → Except (EngineError α) (Engine α σ)
  | .handle event => e.accept event
  | .requestMode mode => e.requestMode mode
  | .enable => e.enable
  | .disable => .ok e.disable
  | .dropCommand => e.dropCommand
  | .recover => e.recover
  | .setPoseTarget target => e.setPoseTarget target
  | .setSpeedTarget order => e.setSpeedTarget order
  | .setPassthrough order => e.setPassthrough order
  | .setSpeedOrder order => .ok (e.setSpeedOrder order)
  | .setPose pose => .ok (e.setPose pose)
  | .setPathFollow enabled => .ok (e.setPathFollow enabled)
  | .setParameters leaf settings => e.setParameters leaf settings
  | .setStallSettings settings => e.setStallSettings settings
  | .setArrivalSettings settings => e.setArrivalSettings settings
  | .setTimeoutSettings settings => e.setTimeoutSettings settings

/-- A request is carried out as a whole or not at all. -/
theorem carryOut_run (e : Engine α σ) (what : Request α) :
    (Procedure.carryOut what).run e = settle e (e.outcome what) := by
  cases what with
  | handle event => exact Procedure.accept_run event
  | requestMode mode => exact Procedure.requestMode_run mode
  | enable | dropCommand | recover => exact Procedure.accept_run _
  | disable => exact Procedure.disable_run
  | setPoseTarget target => exact run_bind_of_settle (Procedure.accept_run _) fun _ => rfl
  | setSpeedTarget order => exact run_bind_of_settle (Procedure.accept_run _) fun _ => rfl
  | setPassthrough order => exact run_bind_of_settle (Procedure.accept_run _) fun _ => rfl
  | setSpeedOrder order => rfl
  | setPose pose => rfl
  | setPathFollow enabled => rfl
  | setParameters leaf settings => exact Procedure.setParameters_run leaf settings
  | setStallSettings settings => exact Procedure.setStallSettings_run settings
  | setArrivalSettings settings => exact Procedure.setArrivalSettings_run settings
  | setTimeoutSettings settings => exact Procedure.setTimeoutSettings_run settings

/-- A request grants what comes of it, and keeps the engine otherwise. -/
theorem request_eq_granted (e : Engine α σ) (what : Request α) :
    e.request what = e.granted (e.outcome what) := by
  cases what with
  | handle | requestMode | enable | disable | dropCommand | recover => rfl
  | setPoseTarget | setSpeedTarget | setPassthrough | setSpeedOrder | setPose => rfl
  | setPathFollow | setParameters | setStallSettings | setArrivalSettings => rfl
  | setTimeoutSettings => rfl

/-- The engine that a request leaves, accepted or refused. -/
theorem request_eq_left (e : Engine α σ) (what : Request α) :
    e.request what = ((Procedure.carryOut what).run e).2 := by
  rw [request_eq_granted, carryOut_run]
  cases e.outcome what with
  | ok e' => rfl
  | error reason => rfl

/-! ## What a refusal depends on -/

/-- An event is refused by the mode alone. -/
theorem accept_eq_error_iff {event : ModeEvent} :
    e.accept event = .error reason ↔ e.machine.next? event = none ∧
      reason = .rejected e.mode event (ModeMachine.refusal e.mode event) := by
  unfold accept handle ModeMachine.handle
  cases e.machine.next? event with
  | none =>
    constructor
    · rintro ⟨⟩
      exact ⟨rfl, rfl⟩
    · rintro ⟨-, rfl⟩
      rfl
  | some target =>
    constructor
    · rintro ⟨⟩
    · rintro ⟨h, -⟩
      cases h

/-- So engines in one mode refuse alike. -/
theorem accept_refused_alike (hmachine : f.machine = e.machine) {event : ModeEvent}
    (h : e.accept event = .error reason) : f.accept event = .error reason := by
  rw [accept_eq_error_iff, mode] at h ⊢
  rw [hmachine]
  exact h

theorem requestMode_refused_alike (hmachine : f.machine = e.machine) {target : Mode}
    (h : e.requestMode target = .error reason) : f.requestMode target = .error reason := by
  have hmode : f.mode = e.mode := congrArg ModeMachine.mode hmachine
  unfold requestMode at h ⊢
  rw [hmode]
  by_cases henable : target = .idle ∧ e.mode = .stop
  · rw [if_pos henable] at h ⊢
    exact accept_refused_alike hmachine h
  · rw [if_neg henable] at h ⊢
    rw [bind_ok_eq_error_iff] at h ⊢
    exact accept_refused_alike hmachine h

/-- A command is refused by its event. -/
theorem command_refused_alike (hmachine : f.machine = e.machine) {event : ModeEvent}
    {after : Engine α σ → Engine α σ} {after' : Engine α τ → Engine α τ}
    (h : (do
      let e ← e.accept event
      .ok (after e)) = .error reason) :
    (do
      let f ← f.accept event
      .ok (after' f)) = .error reason :=
  bind_ok_eq_error_iff.mpr (accept_refused_alike hmachine (bind_ok_eq_error_iff.mp h))

/-- An engine refuses what any other engine in the same mode and with the same tree refuses, among
whatever surroundings. -/
theorem refused_alike (hmachine : f.machine = e.machine) (htree : f.tree = e.tree)
    {what : Request α} (h : e.outcome what = .error reason) : f.outcome what = .error reason := by
  cases what with
  | handle event => exact accept_refused_alike hmachine h
  | requestMode target => exact requestMode_refused_alike hmachine h
  | enable | dropCommand | recover => exact accept_refused_alike hmachine h
  | setPoseTarget target => exact command_refused_alike hmachine h
  | setSpeedTarget order => exact command_refused_alike hmachine h
  | setPassthrough order => exact command_refused_alike hmachine h
  | disable | setSpeedOrder | setPose | setPathFollow => cases h
  | setParameters leaf settings =>
    refine bind_ok_eq_error_iff.mpr ?_
    rw [htree]
    exact bind_ok_eq_error_iff.mp h
  -- The other settings are judged by themselves.
  | setStallSettings settings => exact bind_ok_eq_error_iff.mpr (bind_ok_eq_error_iff.mp h)
  | setArrivalSettings settings => exact bind_ok_eq_error_iff.mpr (bind_ok_eq_error_iff.mp h)
  | setTimeoutSettings settings => exact bind_ok_eq_error_iff.mpr (bind_ok_eq_error_iff.mp h)

/-- A request that is carried out in place leaves the engine that it leads to.  One that is refused,
for whatever reason, leaves the engine that was asked exactly as it was: its state, its mode and the
one to resume, its tree down to what every leaf remembers, its settings, and what it queued.  Nothing
around the engine was called on the way: among watched surroundings it refuses as well, and no call
is written down. -/
theorem refusal_changes_nothing (e : Engine α σ) (what : Request α) :
    ((Procedure.carryOut what).run e).2 = e.request what ∧
      ∀ reason left, (Procedure.carryOut what).run e = (.error reason, left) →
        left = e ∧
          ∀ log, (Procedure.carryOut what).run (e.watched log) = (.error reason, e.watched log) := by
  refine ⟨(request_eq_left e what).symm, fun reason left h => ?_⟩
  rw [carryOut_run] at h
  obtain ⟨hrefused, hleft⟩ := settle_eq_error_iff.mp h
  refine ⟨hleft, fun log => ?_⟩
  have hmachine : (e.watched log).machine = e.machine := rfl
  have htree : (e.watched log).tree = e.tree := rfl
  have hwatched := refused_alike hmachine htree hrefused
  rw [carryOut_run]
  exact settle_eq_error_iff.mpr ⟨hwatched, rfl⟩

/-- A ramp is offered to a loop deep in the tree of a vehicle. -/
def misfit : Request Float := .setParameters "linear_speed_pid" (.speedRamp .default)

/-- The vehicle is on its way still, as it was. -/
theorem parked_refuses_misfit :
    ∃ e reason, parked .default (.of 0 0 0) (.of 10 0 0) = some e ∧
      (Procedure.carryOut misfit).run e = (.error reason, e) ∧
      ∀ log, (Procedure.carryOut misfit).run (e.watched log) = (.error reason, e.watched log) := by
  have hrefuses : ((parked .default (.of 0 0 0) (.of 10 0 0)).map fun e =>
      ((Procedure.carryOut misfit).run e).1.toOption.isNone) = some true := by decide +kernel
  obtain ⟨e, hparked, hnone⟩ := Option.map_eq_some_iff.mp hrefuses
  cases hran : (Procedure.carryOut misfit).run e with
  | mk answer left =>
    rw [hran] at hnone
    cases answer with
    | ok _ => cases hnone
    | error reason =>
      obtain ⟨rfl, hwatched⟩ := (refusal_changes_nothing e misfit).2 reason left hran
      exact ⟨left, reason, hparked, hran, hwatched⟩

end Engine

end MotionControl
