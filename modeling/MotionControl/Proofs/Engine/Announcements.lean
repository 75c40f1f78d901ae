import MotionControl.Proofs.Engine.Consistency
import MotionControl.Proofs.Engine.Watching
import MotionControl.Proofs.Engine.Waypoints
import MotionControl.Proofs.History

/-!
# Announcements of targets

The hook for targets is told of a target once it is reached.  It is told once for each time that a
command for the target begins: when the target is accepted, but also when its command is begun anew,
by a recovery or by a request for Running.  Such a target is announced again.

- `TargetEvent`, `Engine.targetJournal`: what becomes of targets in a run.
- `Engine.Silent`, `Engine.Still`: nothing is announced, and nothing is left to announce.
- `Engine.Armed`: the engine is on its way to a target.
- `Engine.Told`: an announcement ends the way.
- `Engine.Paced`: every announcement comes after the beginning of a command of its own.
- `Engine.announced_once_per_command`: so it is in every run.
-/

namespace MotionControl

open Outcome

/-- What can happen to targets. -/
inductive TargetEvent (α : Type) where
  /-- A pose target is accepted, from the caller or from a path. -/
  | accepted (target : PathPose α)
  /-- The command for the target is begun anew. -/
  | renewed
  /-- The hook is told of the target. -/
  | announced (target : PathPose α)
  deriving DecidableEq

namespace TargetEvent

variable {α : Type}

/-- The target that was announced, if one was. -/
def announced? : TargetEvent α → Option (PathPose α)
  | .announced target => some target
  | .accepted _ | .renewed => none

/-- A command for a target begins. -/
def begins : TargetEvent α → Bool
  | .accepted _ | .renewed => true
  | .announced _ => false

end TargetEvent

/-- Hooks that leave the state alone do so while they are watched. -/
theorem Hooks.Discreet.watched {α σ : Type} {h : Hooks α σ} (hdiscreet : h.Discreet) :
    h.watched.Discreet where
  before := by
    rintro state ⟨world, log⟩ state' _ hran
    rcases hbefore : h.beforeControl state world with ⟨outcome, world'⟩
    have hwatched : h.watched.beforeControl state (world, log)
        = (outcome, world', log ++ [.beforeControl]) := by
      show ((h.beforeControl state world).1, _) = _
      rw [hbefore]
    rw [hwatched] at hran
    cases hran
    exact hdiscreet.before hbefore
  after state world := hdiscreet.after state world.1

namespace Engine

variable {α σ : Type} [Scalar α]

/-! ## Journals of targets -/

section Beginnings

variable {e : Engine α σ}

/-- The waypoint that a cycle loads. -/
def pathBeginnings (e : Engine α σ) : List (TargetEvent α) :=
  if e.state.pathFollow && loadsWaypoints e.mode then
    match e.nextWaypoint with
    | (none, _) => []
    | (some target, looked) =>
      if (looked.setPoseTarget target).isOk then [.accepted target] else []
  else []

/-- The command for a target that a request begins. -/
def requestBeginnings (e : Engine α σ) : Request α → List (TargetEvent α)
  | .setPoseTarget target => if (e.setPoseTarget target).isOk then [.accepted target] else []
  | .requestMode .running => if (e.requestMode .running).isOk then [.renewed] else []
  | .recover => if e.recover.toOption.any (·.mode = .running) then [.renewed] else []
  | _ => []

/-- The commands for targets that an operation begins. -/
def beginnings (e : Engine α σ) : Operation α → List (TargetEvent α)
  | .step => e.tick.pathBeginnings
  | .request what => e.requestBeginnings what

end Beginnings

section Journal

variable {e : Engine α (σ × List (Call α))}

/-- What an operation does with targets. -/
def targetEvents (e : Engine α (σ × List (Call α))) (operation : Operation α) :
    List (TargetEvent α) :=
  e.beginnings operation ++
    ((left (e.perform operation)).announced.drop e.announced.length).map .announced

/-- What becomes of targets in a run. -/
def targetJournal (e : Engine α (σ × List (Call α))) : List (Operation α) → List (TargetEvent α)
  | [] => []
  | operation :: rest =>
    e.targetEvents operation ++ (left (e.perform operation)).targetJournal rest

end Journal

/-! ## Silence -/

section Silence

variable {e e' e'' : Engine α (σ × List (Call α))}

/-- Nobody is told of a target. -/
structure Silent (e e' : Engine α (σ × List (Call α))) : Prop where
  same : SameAround e e'
  announced : e.Watched → e'.announced = e.announced

omit [Scalar α] in
/-- An engine stays watched as long as nothing around it is exchanged. -/
theorem Watched.of_same (h : e.Watched) (same : SameAround e e') : e'.Watched where
  plant := by
    rw [same.plant]
    exact h.plant
  actuators := by
    rw [same.actuators]
    exact h.actuators
  hooks := by
    rw [same.hooks]
    exact h.hooks

namespace Silent

omit [Scalar α] in
theorem refl (e : Engine α (σ × List (Call α))) : Silent e e := ⟨.refl e, fun _ => rfl⟩

omit [Scalar α] in
theorem trans (h : Silent e e') (h' : Silent e' e'') : Silent e e'' where
  same := h.same.trans h'.same
  announced hwatched :=
    (h'.announced (hwatched.of_same h.same)).trans (h.announced hwatched)

omit [Scalar α] in
/-- Nobody is called at all. -/
theorem of_world (same : SameAround e e') (hworld : e'.world = e.world) : Silent e e' :=
  ⟨same, fun _ => congrArg announcedIn hworld⟩

end Silent

/-- Entering a mode announces nothing. -/
theorem enter_silent (e : Engine α (σ × List (Call α))) (target : Mode) :
    Silent e (e.enter target) := by
  refine ⟨(enter_unreported e target).toSameAround, fun hwatched => ?_⟩
  cases target with
  | stop => exact hwatched.announced_release
  | idle | blocked => exact hwatched.announced_apply e.plant.stillness
  | running | runningSpeed | passthrough => rfl

theorem arrive_silent (e : Engine α (σ × List (Call α))) (event : ModeEvent) (target : Mode) :
    Silent e (e.arrive event target) := by
  have hmoved : Silent e { e with machine := e.machine.move event target } :=
    .of_world ⟨rfl, rfl, rfl⟩ rfl
  refine arrive_cases (fun _ => hmoved) (fun _ => ?_) fun _ _ hentered => ?_
  · exact hmoved.trans (enter_silent _ target)
  · exact hentered.trans (.of_world ⟨rfl, rfl, rfl⟩ rfl)

/-- Nor does an event. -/
theorem accept_silent {event : ModeEvent} (h : e.accept event = .ok e') : Silent e e' := by
  obtain ⟨target, -, rfl⟩ := accept_eq_ok_iff.mp h
  exact arrive_silent e event target

/-- No request has anybody told of a target. -/
theorem Answered.silent {what : Request α} (h : Answered e what e') : Silent e e' := by
  have hsame := h.unreported.toSameAround
  cases h with
  | refused => exact .refl e
  | moved next resting plain => exact arrive_silent e _ _
  | recovered asked next => exact arrive_silent e _ _
  | @commanded mode commands next goal order =>
    exact (arrive_silent e (.toward mode) mode).trans (.of_world ⟨rfl, rfl, rfl⟩ rfl)
  | reseated pose => exact ⟨hsame, fun hwatched => hwatched.announced_reseat pose⟩
  | told => exact .of_world hsame rfl

/-- Nor does a new target. -/
theorem setPoseTarget_silent {target : PathPose α} (h : e.setPoseTarget target = .ok e') :
    Silent e e' := by
  obtain ⟨arrived, haccept, hset⟩ := bind_eq_ok_iff.mp h
  cases hset
  exact (accept_silent haccept).trans (.of_world ⟨rfl, rfl, rfl⟩ rfl)

omit [Scalar α] in
theorem Looked.silent {next : Option (PathPose α) × Engine α (σ × List (Call α))}
    (h : Looked e next) : Silent e next.2 := by
  have hsame := h.unreported.toSameAround
  cases h with
  | nothing => exact .refl e
  | first targets unloaded current => exact .of_world hsame rfl
  | dropped targets loaded reached free =>
    exact ⟨hsame, fun hwatched => hwatched.announced_advance targets⟩

theorem followPath_silent (e : Engine α (σ × List (Call α))) : Silent e e.followPath := by
  cases followPath_spec e with
  | looked look => exact look.silent
  | loaded loads look accepted => exact look.silent.trans (setPoseTarget_silent accepted)

end Silence

/-! ## On the way to a target -/

section Way

variable {e e' e'' : Engine α (σ × List (Call α))}

/-- The engine is on its way to a target. -/
def Armed (e : Engine α σ) : Prop := e.mode = .running ∧ e.state.reached = false

/-- Nobody is told of a target, and no command for one is begun. -/
structure Still (e e' : Engine α (σ × List (Call α))) : Prop extends Silent e e' where
  armed : e'.Armed → e.Armed

namespace Still

omit [Scalar α] in
theorem refl (e : Engine α (σ × List (Call α))) : Still e e := ⟨.refl e, id⟩

omit [Scalar α] in
theorem trans (h : Still e e') (h' : Still e' e'') : Still e e'' :=
  ⟨h.toSilent.trans h'.toSilent, fun harmed => h.armed (h'.armed harmed)⟩

omit [Scalar α] in
/-- The mode and the flag are the same. -/
theorem of_same (h : Silent e e') (hmode : e'.mode = e.mode)
    (hreached : e'.state.reached = e.state.reached) : Still e e' :=
  ⟨h, fun harmed => ⟨hmode.symm.trans harmed.1, hreached.symm.trans harmed.2⟩⟩

omit [Scalar α] in
/-- The mode is another one. -/
theorem of_mode (h : Silent e e') (hmode : e'.mode ≠ .running) : Still e e' :=
  ⟨h, fun harmed => absurd harmed.1 hmode⟩

end Still

omit [Scalar α] in
/-- The first hook announces nothing, and begins no command. -/
theorem Readied.still (hhooks : e.hooks.Discreet)
    {outcome : Except (Interrupted α (σ × List (Call α))) (Engine α (σ × List (Call α)))}
    (h : Readied e outcome) : Still e (left outcome) := by
  have hsame := (h.unreported hhooks.punctual).toSameAround
  cases h with
  | failed ran => exact .of_same ⟨hsame, fun hwatched => hwatched.announced_before ran⟩ rfl rfl
  | ready ran =>
    refine .of_same ⟨hsame, fun hwatched => hwatched.announced_before ran⟩ rfl ?_
    cases hhooks.before ran
    rfl

omit [Scalar α] in
theorem Steered.still (h : Steered e e') : Still e e' := by
  have hsame := h.unreported.toSameAround
  cases h with
  | shown => exact .of_same (.of_world hsame rfl) rfl rfl
  | sent tree command filtered commands =>
    exact .of_same ⟨hsame, fun hwatched => hwatched.announced_apply commands⟩ rfl rfl

theorem sense_still (e : Engine α (σ × List (Call α))) : Still e e.sense :=
  .of_same ⟨⟨rfl, rfl, rfl⟩, fun hwatched => hwatched.announced_sample⟩ rfl rfl

omit [Scalar α] in
theorem afterControl_still (hhooks : e.hooks.Discreet) : Still e e.afterControl := by
  have hstate : e.afterControl.state = e.state := hhooks.after e.state e.world
  exact .of_same ⟨⟨rfl, rfl, rfl⟩, fun hwatched => hwatched.announced_after⟩ rfl
    (congrArg ControlState.reached hstate)

/-- Between the waypoint and the looks at the outcome, nothing has to do with targets. -/
theorem left_controlled_still (hhooks : e.hooks.Discreet) :
    Still e.tick.followPath (left e.controlled) := by
  have hsame : e.tick.followPath.hooks = e.hooks := (followPath_unreported e.tick).hooks
  have hdiscreet : ∀ {e' : Engine α (σ × List (Call α))}, Still e.tick.followPath e' →
      e'.hooks.Discreet := fun hstill => (hstill.same.hooks.trans hsame) ▸ hhooks
  exact left_controlled (sense_still _) (fun hready h => h.trans (hready.still (hdiscreet h)))
    (fun hsteered h => h.trans hsteered.still)
    fun driven h => h.trans (afterControl_still (hdiscreet h))

/-! ## The looks at the outcome -/

/-- What a stretch has the hook told: nothing, and no command for a target is begun, or the target
of a command that this ends. -/
inductive Told (e : Engine α (σ × List (Call α))) :
    List (PathPose α) → Engine α (σ × List (Call α)) → Prop where
  | nothing {after} (still : Still e after) : Told e [] after
  | target {after t} (same : SameAround e after)
      (announced : e.Watched → after.announced = e.announced ++ [t])
      (armed : e.Armed) (ended : ¬ after.Armed) : Told e [t] after

omit [Scalar α] in
/-- What was told stays told. -/
theorem Told.still {news : List (PathPose α)} (h : Told e news e') (hstill : Still e' e'') :
    Told e news e'' := by
  cases h with
  | nothing still => exact .nothing (still.trans hstill)
  | target same announced armed ended =>
    refine .target (same.trans hstill.same) (fun hwatched => ?_) armed
      fun harmed => ended (hstill.armed harmed)
    rw [hstill.announced (hwatched.of_same same)]
    exact announced hwatched

/-- The look at the stall detector announces nothing. -/
theorem StallLook.still (h : StallLook e e') : Still e e' := by
  have hsame := h.unreported.toSameAround
  cases h with
  | counted stall => exact .of_same (.of_world hsame rfl) rfl rfl
  | @tripped stall blocked accepted =>
    have hcounted : Silent e { e with
        stall, state := { e.state with stalledCycles := stall.cycles } } :=
      .of_world ⟨rfl, rfl, rfl⟩ rfl
    have hblocked := hcounted.trans (accept_silent accepted)
    obtain ⟨target, hnext, rfl⟩ := accept_eq_ok_iff.mp accepted
    have hmode := ModeMachine.next?_toward .blocked hnext
    refine .of_mode ⟨hsame, hblocked.announced⟩ ?_
    show (arrive _ _ target).mode ≠ _
    rw [arrive_mode, hmode]
    decide

/-- Only a target that becomes reached is announced, and only on the way to it. -/
theorem ArrivalLook.told (hmode : e.mode = .running) (h : ArrivalLook e e') :
    ∃ news, Told e news e' := by
  have hsame := h.unreported.toSameAround
  cases h with
  | before reached => exact ⟨[], .nothing (.refl e)⟩
  | away unreached judged moving => exact ⟨[], .nothing (.of_same (.of_world hsame rfl) rfl rfl)⟩
  | @arrived status arrival state unreached judged there shown =>
    refine ⟨[state.target], .target hsame (fun hwatched => hwatched.announced_reached state)
      ⟨hmode, unreached⟩ fun harmed => ?_⟩
    have hreached : state.reached = false := harmed.2
    rw [shown] at hreached
    cases hreached

/-- Nor does the look at the clock of a running command. -/
theorem TimeoutLook.still (hmode : e.mode = .running) (h : TimeoutLook e e') : Still e e' := by
  have hsame := h.unreported.toSameAround
  obtain rfl | ⟨-, hidle⟩ := h.carried hmode
  · exact .refl _
  cases h with
  | pending => exact .refl e
  | @expired idle unreached expired entered =>
    have hforced : Silent e { e with machine := e.machine.forceIdle } :=
      .of_world ⟨rfl, rfl, rfl⟩ rfl
    have hentered : Silent e idle := by
      rw [entered]
      exact hforced.trans (enter_silent _ _)
    refine .of_mode ⟨hsame, hentered.announced⟩ ?_
    rw [hidle]
    decide

omit [Scalar α] in
/-- News of one part of a cycle, and then of the next one. -/
theorem Told.trans {e'' : Engine α (σ × List (Call α))} {news news' : List (PathPose α)}
    (h : Told e news e') (h' : Told e' news' e'') : ∃ news, Told e news e'' := by
  cases h' with
  | nothing still => exact ⟨news, h.still still⟩
  | @target _ t same announced armed ended =>
    cases h with
    | nothing still =>
      refine ⟨[t], .target (still.same.trans same) (fun hwatched => ?_) (still.armed armed) ended⟩
      rw [announced (hwatched.of_same still.same), still.announced hwatched]
    -- Whoever was told of a target on the way is on the way no longer.
    | target _ _ _ ended => exact absurd armed ended

/-- A cycle is looked at for arrival once. -/
theorem supervised_told (e : Engine α (σ × List (Call α))) : ∃ news, Told e news e.supervised := by
  obtain ⟨news, htarget⟩ : ∃ news, Told e news e.stallChecked.checkTarget := by
    refine checkTarget_invariant (I := fun e' => ∃ news, Told e news e') ?_ ?_ ?_
      ⟨[], .nothing (.refl e)⟩
    · rintro e₁ e₂ hlook ⟨news, h⟩
      exact ⟨news, h.still hlook.still⟩
    · rintro e₁ e₂ hmode hlook ⟨news, h⟩
      obtain ⟨news', h'⟩ := hlook.told hmode
      exact h.trans h'
    · rintro e₁ e₂ hmode hlook ⟨news, h⟩
      exact ⟨news, h.still (hlook.still hmode)⟩
  obtain ⟨telemetry, hpublished⟩ := publish_eq e.stallChecked.checkTarget
  rw [supervised, hpublished]
  exact ⟨news, htarget.still (.of_same (.of_world ⟨rfl, rfl, rfl⟩ rfl) rfl rfl)⟩

/-- From its waypoint on, a cycle announces one target at most. -/
theorem step_told (hhooks : e.hooks.Discreet) :
    ∃ news, Told e.tick.followPath news (left e.step) := by
  refine left_step (I := fun e' => ∃ news, Told e.tick.followPath news e')
    ⟨[], .nothing (left_controlled_still hhooks)⟩ ?_
  rintro c ⟨news, h⟩
  obtain ⟨news', h'⟩ := supervised_told c
  exact h.trans h'

/-! ## Beginnings -/

omit [Scalar α] in
theorem Looked.still {next : Option (PathPose α) × Engine α (σ × List (Call α))}
    (h : Looked e next) : Still e next.2 := by
  have hsilent := h.silent
  cases h with
  | nothing => exact .refl e
  | first | dropped => exact .of_same hsilent rfl rfl

/-- A cycle that loads no waypoint begins no command. -/
theorem followPath_still (h : e.pathBeginnings = []) : Still e e.followPath := by
  unfold pathBeginnings at h
  unfold followPath
  by_cases hfollows : e.state.pathFollow && loadsWaypoints e.mode
  · rw [if_pos hfollows] at h ⊢
    have hlook := (nextWaypoint_spec e).still
    rcases hnext : e.nextWaypoint with ⟨_ | target, looked⟩
    · rw [hnext] at hlook
      exact hlook
    · rw [hnext] at h hlook
      dsimp only at h ⊢
      cases hset : looked.setPoseTarget target with
      | ok e' =>
        rw [hset] at h
        cases h
      | error reason => exact hlook
  · rw [if_neg hfollows]
    exact .refl e

/-- A cycle takes one waypoint at most. -/
theorem pathBeginnings_cases (e : Engine α (σ × List (Call α))) :
    e.pathBeginnings = [] ∨ ∃ event, e.pathBeginnings = [event] ∧ event.begins = true := by
  unfold pathBeginnings
  by_cases hfollows : e.state.pathFollow && loadsWaypoints e.mode
  · rw [if_pos hfollows]
    rcases e.nextWaypoint with ⟨_ | target, looked⟩
    · exact .inl rfl
    · by_cases hset : (looked.setPoseTarget target).isOk
      · exact .inr ⟨_, if_pos hset, rfl⟩
      · exact .inl (if_neg hset)
  · exact .inl (if_neg hfollows)

/-- A request begins one command at most. -/
theorem requestBeginnings_cases (e : Engine α σ) (what : Request α) :
    e.requestBeginnings what = [] ∨
      ∃ event, e.requestBeginnings what = [event] ∧ event.begins = true := by
  unfold requestBeginnings
  split
  · next target =>
    by_cases hset : (e.setPoseTarget target).isOk
    · exact .inr ⟨_, if_pos hset, rfl⟩
    · exact .inl (if_neg hset)
  · by_cases hset : (e.requestMode .running).isOk
    · exact .inr ⟨_, if_pos hset, rfl⟩
    · exact .inl (if_neg hset)
  · by_cases hset : e.recover.toOption.any (·.mode = .running)
    · exact .inr ⟨_, if_pos hset, rfl⟩
    · exact .inl (if_neg hset)
  · exact .inl rfl

/-- A command in Running is one of those that begin something. -/
theorem requestBeginnings_of_commands {e : Engine α σ} {what : Request α}
    (hcommands : what.commands? = some .running)
    (hnext : e.machine.next? .poseTarget = some .running) : e.requestBeginnings what ≠ [] := by
  have haccept : e.accept .poseTarget = .ok (e.arrive .poseTarget .running) :=
    accept_eq_ok_iff.mpr ⟨.running, hnext, rfl⟩
  cases what with
  | setPoseTarget target =>
    have hset : (e.setPoseTarget target).isOk = true := by
      rw [setPoseTarget, haccept]
      rfl
    rw [requestBeginnings, if_pos hset]
    exact List.cons_ne_nil _ _
  | requestMode mode =>
    have hmode : mode = .running := by
      by_cases hregulating : mode.isRegulating
      · exact Option.some.inj ((if_pos hregulating).symm.trans hcommands)
      · cases (if_neg hregulating).symm.trans hcommands
    have hset : (e.requestMode .running).isOk = true := by
      have hother : ¬ (Mode.running = .idle ∧ e.mode = .stop) := fun h => by cases h.1
      rw [requestMode, if_neg hother]
      show (do
        let e ← e.accept .poseTarget
        .ok e.beginCommand : Except (EngineError α) (Engine α σ)).isOk = true
      rw [haccept]
      rfl
    rw [hmode, requestBeginnings, if_pos hset]
    exact List.cons_ne_nil _ _
  | _ => cases hcommands

/-- A request that begins no command for a target leaves everything as it was on the way to one. -/
theorem Answered.still {what : Request α} (hanswer : Answered e what e')
    (h : e.requestBeginnings what = []) : Still e e' := by
  have hsilent := hanswer.silent
  cases hanswer with
  | refused => exact .refl e
  | @moved event target next resting plain =>
    refine .of_mode hsilent fun hrunning => ?_
    rw [arrive_mode] at hrunning
    rw [hrunning] at resting
    cases resting
  | @recovered target asked next =>
    refine .of_mode hsilent fun hrunning => ?_
    have haccept : e.recover = .ok (e.arrive .recover target) :=
      accept_eq_ok_iff.mpr ⟨target, next, rfl⟩
    have hany : (Except.ok (e.arrive .recover target) :
        Except (EngineError α) (Engine α (σ × List (Call α)))).toOption.any
          (·.mode = .running) = true := decide_eq_true hrunning
    rw [asked, requestBeginnings, haccept, if_pos hany] at h
    cases h
  | @commanded mode commands next goal order =>
    refine .of_mode hsilent fun hrunning => ?_
    obtain rfl : mode = .running := (arrive_mode ..).symm.trans hrunning
    exact requestBeginnings_of_commands commands next h
  | reseated pose => exact .of_same hsilent rfl rfl
  | told => exact .of_same hsilent rfl rfl

/-- What an operation comes to: what it begins it begins first, and what it announces it announces
from then on. -/
inductive Performed (e : Engine α (σ × List (Call α))) :
    List (TargetEvent α) → Engine α (σ × List (Call α)) → Prop where
  | goesOn {begun news after} (still : Still e begun) (told : Told begun news after) :
      Performed e (news.map .announced) after
  | begins {begun news after event} (silent : Silent e begun) (starts : event.begins = true)
      (told : Told begun news after) : Performed e (event :: news.map .announced) after

omit [Scalar α] in
/-- The journal of calls grows by the news. -/
theorem Told.announced {news : List (PathPose α)} (h : Told e news e') (hwatched : e.Watched) :
    e'.announced = e.announced ++ news := by
  cases h with
  | nothing still =>
    rw [List.append_nil]
    exact still.announced hwatched
  | target same announced armed ended => exact announced hwatched

omit [Scalar α] in
theorem Told.same {news : List (PathPose α)} (h : Told e news e') : SameAround e e' := by
  cases h with
  | nothing still => exact still.same
  | target same announced armed ended => exact same

/-- An operation announces what its events say. -/
theorem perform_performed (hwatched : e.Watched) (hhooks : e.hooks.Discreet)
    {operation : Operation α} (hplain : ∀ event, operation ≠ .request (.handle event)) :
    Performed e (e.targetEvents operation) (left (e.perform operation)) := by
  -- Both cases come down to this one, about the engine once everything is begun.
  have hevents : ∀ {begun news}, Silent e begun → Told begun news (left (e.perform operation)) →
      e.targetEvents operation = e.beginnings operation ++ news.map .announced := by
    intro begun news hsilent htold
    have hbefore := hsilent.announced hwatched
    have hafter := htold.announced (hwatched.of_same hsilent.same)
    rw [targetEvents, hafter, hbefore, List.drop_left]
  cases operation with
  | step =>
    obtain ⟨news, htold⟩ := step_told hhooks
    have hticked : Still e e.tick := .of_same (.of_world ⟨rfl, rfl, rfl⟩ rfl) rfl rfl
    rw [hevents (hticked.toSilent.trans (followPath_silent e.tick)) htold]
    show Performed e (e.tick.pathBeginnings ++ _) (left e.step)
    obtain hnone | ⟨event, hone, hbegins⟩ := e.tick.pathBeginnings_cases
    · rw [hnone]
      exact .goesOn (hticked.trans (followPath_still hnone)) htold
    · rw [hone]
      exact .begins (hticked.toSilent.trans (followPath_silent e.tick)) hbegins htold
  | request what =>
    have hanswer : Answered e what (e.request what) :=
      request_answered e fun event hwhat => hplain event (congrArg Operation.request hwhat)
    have hdone : Told (e.request what) [] (e.request what) := .nothing (.refl _)
    rw [hevents hanswer.silent hdone]
    show Performed e (e.requestBeginnings what ++ _) (e.request what)
    obtain hnone | ⟨event, hone, hbegins⟩ := e.requestBeginnings_cases what
    · rw [hnone]
      exact .goesOn (hanswer.still hnone) hdone
    · rw [hone]
      exact .begins hanswer.silent hbegins hdone

end Way

/-! ## The pace of announcements -/

section Pace

variable {log events : List (TargetEvent α)} {event : TargetEvent α}

/-- A command for a target began, and nothing was announced since then. -/
def Pending (log : List (TargetEvent α)) : Prop :=
  ∃ earlier event, log = earlier ++ [event] ∧ event.begins = true

omit [Scalar α] in
/-- What is pending at the end of a log is so at the end of its last part. -/
theorem Pending.of_append {during : List (TargetEvent α)} (h : Pending (log ++ during)) :
    during = [] ∨ Pending during := by
  obtain ⟨earlier, event, hlast, hbegins⟩ := h
  rcases List.eq_nil_or_concat during with rfl | ⟨during, last, rfl⟩
  · exact .inl rfl
  · rw [List.concat_eq_append] at hlast ⊢
    rw [← List.append_assoc] at hlast
    obtain ⟨-, hsingle⟩ := List.append_inj' hlast rfl
    obtain rfl := (List.cons.inj hsingle).1
    exact .inr ⟨during, last, rfl, hbegins⟩

/-- Every announcement comes after the beginning of a command of its own. -/
def Spaced (log : List (TargetEvent α)) : Prop :=
  EachFollows (fun before event => ∀ t, event = .announced t → Pending before) log

/-- The announcements of a log. -/
def announcements (log : List (TargetEvent α)) : Nat := log.countP (·.announced?.isSome)

/-- How often a command for a target is begun anew. -/
def renewals (log : List (TargetEvent α)) : Nat := log.countP (· matches .renewed)

variable {e e' : Engine α (σ × List (Call α))}

/-- A run so far: the hook was told of the targets in the journal, each of them in its time, and an
engine on its way has the beginning of the way behind it. -/
structure Paced (log : List (TargetEvent α)) (e : Engine α (σ × List (Call α))) : Prop where
  watched : e.Watched
  told : e.announced = log.filterMap TargetEvent.announced?
  spaced : Spaced log
  armed : e.Armed → Pending log

namespace Paced

omit [Scalar α] in
theorem still (h : Paced log e) (hstill : Still e e') : Paced log e' where
  watched := h.watched.of_same hstill.same
  told := (hstill.announced h.watched).trans h.told
  spaced := h.spaced
  armed harmed := h.armed (hstill.armed harmed)

omit [Scalar α] in
/-- A beginning leaves something to announce, whatever the engine is doing. -/
theorem begin (h : Paced log e) (hsilent : Silent e e') (hbegins : event.begins = true) :
    Paced (log ++ [event]) e' where
  watched := h.watched.of_same hsilent.same
  told := by
    have hnone : event.announced? = none := by
      cases event with
      | accepted t | renewed => rfl
      | announced t => cases hbegins
    rw [hsilent.announced h.watched, h.told, List.filterMap_append,
      List.filterMap_cons_none hnone, List.filterMap_nil, List.append_nil]
  spaced := h.spaced.concat fun t hannounced => by
    rw [hannounced] at hbegins
    cases hbegins
  armed _ := ⟨log, event, rfl, hbegins⟩

omit [Scalar α] in
/-- An announcement leaves nothing to announce. -/
theorem tell {news : List (PathPose α)} (h : Paced log e) (htold : Told e news e') :
    Paced (log ++ news.map .announced) e' := by
  cases htold with
  | nothing still =>
    rw [List.map_nil, List.append_nil]
    exact h.still still
  | @target _ t same announced armed ended =>
    refine ⟨h.watched.of_same same, ?_, h.spaced.concat fun _ _ => h.armed armed,
      fun harmed => absurd harmed ended⟩
    rw [announced h.watched, h.told, List.filterMap_append]
    rfl

omit [Scalar α] in
/-- The pace is kept by what an operation announces. -/
theorem performed (h : Paced log e) (hperformed : Performed e events e') :
    Paced (log ++ events) e' := by
  cases hperformed with
  | goesOn still told => exact (h.still still).tell told
  | @begins begun news _ event silent starts told =>
    have hbegun : Paced (log ++ [event]) begun := h.begin silent starts
    have htold := hbegun.tell told
    rw [List.append_assoc] at htold
    exact htold

end Paced

/-! ## Runs -/

omit [Scalar α] in
theorem Performed.same (h : Performed e events e') : SameAround e e' := by
  cases h with
  | goesOn still told => exact still.same.trans told.same
  | begins silent starts told => exact silent.same.trans told.same

/-- It is kept over any operations. -/
theorem Paced.attemptAll (h : Paced log e) (hhooks : e.hooks.Discreet)
    {operations : List (Operation α)} (hplain : ∀ event, .request (.handle event) ∉ operations) :
    Paced (log ++ e.targetJournal operations) (e.attemptAll operations) := by
  -- On the operations, from any engine on: the journal so far is what the invariant is about.
  induction operations generalizing e log with
  | nil =>
    rw [targetJournal, List.append_nil]
    exact h
  | cons operation rest ih =>
    have hfirst : ∀ event, operation ≠ .request (.handle event) :=
      fun event heq => hplain event (heq ▸ List.mem_cons_self)
    have hrest : ∀ event, .request (.handle event) ∉ rest :=
      fun event hmem => hplain event (List.mem_cons_of_mem _ hmem)
    have hperformed := perform_performed h.watched hhooks hfirst
    rw [targetJournal, ← List.append_assoc]
    exact ih (h.performed hperformed) (hperformed.same.hooks ▸ hhooks) hrest

omit [Scalar α] in
@[simp] theorem announcements_append (log log' : List (TargetEvent α)) :
    announcements (log ++ log') = announcements log + announcements log' := List.countP_append

omit [Scalar α] in
@[simp] theorem renewals_append (log log' : List (TargetEvent α)) :
    renewals (log ++ log') = renewals log + renewals log' := List.countP_append

omit [Scalar α] in
/-- Between two acceptances there is one announcement, and one more for each time that the command
is begun anew. -/
theorem Spaced.announcements_le {before during : List (TargetEvent α)}
    (h : Spaced (before ++ during)) (hsame : ∀ t, .accepted t ∉ during) :
    announcements during ≤ renewals during + 1 ∧
      ∀ earlier, during = earlier ++ [.renewed] → announcements during ≤ renewals during := by
  -- Event by event: what was begun anew last has its announcement still to come.
  induction during using List.reverseRecOn with
  | nil =>
    refine ⟨Nat.zero_le _, fun earlier hempty => ?_⟩
    cases List.append_eq_nil_iff.mp hempty.symm |>.2
  | append_singleton during event ih =>
    rw [← List.append_assoc] at h
    obtain ⟨hbound, hrenewed⟩ :=
      ih h.of_append fun t hmem => hsame t (List.mem_append_left _ hmem)
    cases event with
    | accepted t => exact absurd (List.mem_append_right _ (List.mem_singleton_self _)) (hsame t)
    | renewed =>
      have hcount : announcements [.renewed (α := α)] = 0 ∧ renewals [.renewed (α := α)] = 1 :=
        ⟨rfl, rfl⟩
      rw [announcements_append, renewals_append]
      refine ⟨?_, fun _ _ => ?_⟩
      · omega
      · omega
    | announced t =>
      have hcount : announcements [.announced t] = 1 ∧ renewals [.announced t] = 0 := ⟨rfl, rfl⟩
      rw [announcements_append, renewals_append]
      have hroom : announcements during ≤ renewals during := by
        obtain rfl | ⟨earlier, last, rfl, hbegins⟩ := (h.last t rfl).of_append
        · exact le_rfl
        · cases last with
          | accepted u => exact absurd (by simp) (hsame u)
          | renewed => exact hrenewed earlier rfl
          | announced u => cases hbegins
      refine ⟨by omega, fun earlier hsplit => ?_⟩
      obtain ⟨-, hsingle⟩ := List.append_inj' hsplit rfl
      cases hsingle

end Pace

/-! ## Once for each command -/

/-- Whatever is done with a fresh engine, by requests and by cycles:

- the hook is told of the targets in the journal and of no others;
- before each announcement a command for a target begins, and nothing else is announced in between;
- so from the acceptance of a target to that of the next one, the hook is told once, and once more
  for each time that the command is begun anew.

No event is fed by hand, and the hooks leave the state alone. -/
theorem announced_once_per_command {e : Engine α σ} {operations : List (Operation α)}
    (hbuilt : Built e) (hhooks : e.hooks.Discreet)
    (hplain : ∀ event, .request (.handle event) ∉ operations) :
    ((e.watched []).attemptAll operations).announced
        = ((e.watched []).targetJournal operations).filterMap TargetEvent.announced? ∧
      (∀ before t after,
        (e.watched []).targetJournal operations = before ++ .announced t :: after →
          Pending before) ∧
      ∀ before during after,
        (e.watched []).targetJournal operations = before ++ during ++ after →
          (∀ t, .accepted t ∉ during) → announcements during ≤ renewals during + 1 := by
  have hstopped : (e.watched []).mode = .stop := hbuilt.uncounted.1
  have hfresh : Paced [] (e.watched []) := by
    refine ⟨watched_is_watched e [], rfl, .nil, fun harmed => ?_⟩
    cases hstopped.symm.trans harmed.1
  have hpaced := hfresh.attemptAll hhooks.watched hplain
  rw [List.nil_append] at hpaced
  refine ⟨hpaced.told, fun before t after hsplit => hpaced.spaced _ _ _ hsplit t rfl,
    fun before during after hsplit hsame => ?_⟩
  have hspaced := hpaced.spaced
  rw [hsplit] at hspaced
  have hbefore : Spaced (before ++ during) := hspaced.of_append
  exact (hbefore.announcements_le hsame).1

/-- A vehicle that stands where it is told to go. -/
def standing : Except (EngineError Float) (Engine Float Unit) :=
  ofPlatform .default 1 (parkedOdometer (.of 0 0 0)) slackActuators none .none ()

/-- It is told to go there, and then into Running once more. -/
def sentOnce : List (Operation Float) :=
  [.request .enable, .request (.setPoseTarget here), .step, .request (.requestMode .running), .step]

theorem standing_eq_ok {operations : List (Operation Float)} {events : List (TargetEvent Float)}
    (h : (standing.toOption.map fun e => (e.watched []).targetJournal operations) = some events) :
    ∃ e, standing = .ok e ∧ Built e ∧ e.hooks.Discreet ∧
      (e.watched []).targetJournal operations = events := by
  obtain ⟨e, hbuilt, hjournal⟩ := Option.map_eq_some_iff.mp h
  rw [toOption_eq_some_iff] at hbuilt
  have hhooks : e.hooks.Discreet := by
    obtain ⟨_, _, -, rfl⟩ := ofPlatform_eq_ok hbuilt
    exact Hooks.idle_discreet
  exact ⟨e, hbuilt, .platform hbuilt, hhooks, hjournal⟩

/-- Until it is told into Running again, the target is announced once. -/
theorem standing_announces_once :
    ∃ e, standing = .ok e ∧
      (e.watched []).targetJournal (sentOnce.take 3) = [.accepted here, .announced here] ∧
      announcements [.announced here] ≤ renewals [.announced here] + 1 := by
  have hran : (standing.toOption.map fun e => (e.watched []).targetJournal (sentOnce.take 3))
      = some [.accepted here, .announced here] := by decide +kernel
  obtain ⟨e, hbuilt, hfresh, hhooks, hjournal⟩ := standing_eq_ok hran
  have hplain : ∀ event, .request (.handle event) ∉ sentOnce.take 3 := by
    intro event hmem
    simp [sentOnce] at hmem
  obtain ⟨-, -, honce⟩ := announced_once_per_command hfresh hhooks hplain
  have hsame : ∀ t, TargetEvent.accepted t ∉ [.announced here] := by
    intro t hmem
    simp at hmem
  exact ⟨e, hbuilt, hjournal, honce [.accepted here] [.announced here] [] hjournal hsame⟩

/-- The target that it was sent to once is announced twice. -/
theorem standing_announces_twice :
    ∃ e, standing = .ok e ∧
      (e.watched []).targetJournal sentOnce
        = [.accepted here] ++ [.announced here, .renewed, .announced here] ∧
      ¬ announcements [.announced here, .renewed, .announced here] ≤ 1 := by
  have hran : (standing.toOption.map fun e => (e.watched []).targetJournal sentOnce)
      = some [.accepted here, .announced here, .renewed, .announced here] := by decide +kernel
  obtain ⟨e, hbuilt, -, -, hjournal⟩ := standing_eq_ok hran
  exact ⟨e, hbuilt, hjournal, by decide⟩

end Engine

end MotionControl
