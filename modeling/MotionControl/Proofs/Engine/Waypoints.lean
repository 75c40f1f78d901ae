import MotionControl.Proofs.Engine.Journal

/-!
# Waypoints in order

A vehicle loads the waypoints of a queue one after another, none twice and none left out, and it
drops one only after something was reached since it was loaded.  What was reached is the waypoint
itself, unless the caller set a pose target in between.

- `Due`, `Justified`: what happened before a waypoint is dropped.
- `Engine.Ledger`, `Engine.OnPath`: the journal and the queue account for every waypoint.
- `Engine.OnPath.append`, `Engine.OnPath.followPath`: this stays so outside of looks for waypoints,
  and in them.
- `Engine.OnPath.followAll`: this is so after every run.
- `Engine.waypoints_in_order`: runs without pose targets from the caller.
- `Engine.dropped_after_arrival`: all runs.
-/

namespace MotionControl

open Outcome

variable {α σ : Type}

/-! ## When a waypoint may be dropped -/

section Drops

variable {log events : List (PathEvent α)} {t : PathPose α} {loyal : Prop}

/-- What was reached since a waypoint was loaded is the waypoint, or a target of the caller. -/
def Accountable (t : PathPose α) (since : List (PathEvent α)) : Prop :=
  ∀ u, .arrived u ∈ since → u = t ∨ .aimed u ∈ since

/-- A waypoint that is dropped was loaded last, something was reached since then, and there is no
hold on it.  If the hooks are `loyal`, what was reached is accounted for. -/
structure Due (loyal : Prop) (before : List (PathEvent α)) (t : PathPose α) (held : Bool) :
    Prop where
  free : held = false
  since : ∃ since, Headed before t since ∧ (∃ u, .arrived u ∈ since) ∧
    (loyal → Accountable t since)

/-- Every waypoint was dropped when it was due. -/
def Justified (loyal : Prop) (log : List (PathEvent α)) : Prop :=
  ∀ before t held after, log = before ++ .dropped t held :: after → Due loyal before t held

theorem Justified.nil : Justified (α := α) loyal [] := by
  intro before t held after h
  simp at h

/-- Events go on from a justified journal, if the drops among them are due. -/
theorem Justified.extend (h : Justified loyal log)
    (hevents : ∀ middle t held after, events = middle ++ .dropped t held :: after →
      Due loyal (log ++ middle) t held) : Justified loyal (log ++ events) := by
  intro before t held after heq
  -- A drop is among the new events, or it was in the journal before them.
  obtain ⟨middle, rfl, hsplit⟩ | ⟨middle, hlog, hrest⟩ := List.append_eq_append_iff.mp heq
  · exact hevents middle t held after hsplit
  · cases middle with
    | nil =>
      rw [List.append_nil] at hlog
      have hdue := hevents [] t held after hrest.symm
      rw [List.append_nil, hlog] at hdue
      exact hdue
    | cons first middle =>
      obtain ⟨rfl, -⟩ := List.cons.inj hrest
      exact h before t held middle hlog

/-- Drops stay justified by what came before them. -/
theorem Justified.append (h : Justified loyal log) (hdrops : drops events = []) :
    Justified loyal (log ++ events) := by
  refine h.extend fun middle t held after hsplit => ?_
  have hmem : t ∈ drops events := by
    rw [hsplit, drops_append]
    exact List.mem_append_right _ List.mem_cons_self
  rw [hdrops] at hmem
  cases hmem

/-- One more drop that is due. -/
theorem Justified.drop {held : Bool} (h : Justified loyal log) (hdue : Due loyal log t held) :
    Justified loyal (log ++ [.dropped t held]) := by
  refine h.extend fun middle _ _ after hsplit => ?_
  cases middle with
  | nil =>
    cases hsplit
    rw [List.append_nil]
    exact hdue
  | cons first middle => simp at hsplit

end Drops

namespace Engine

variable [Scalar α] {e e' : Engine α (σ × WaypointQueue α)}

/-! ## The invariant -/

/-- Every waypoint that was there or was added is in the queue still or was dropped, when it was
due, and none was refused. -/
structure Ledger (start : Engine α (σ × WaypointQueue α)) (log : List (PathEvent α))
    (e : Engine α (σ × WaypointQueue α)) : Prop where
  following : Following e
  surroundings : SameSurroundings start e
  accounted : start.waypoints.poses ++ pushes log = drops log ++ e.waypoints.poses
  accepted : ∀ t, .refused t ∉ log
  justified : Justified start.hooks.Loyal log

/-- The engine is on its way to the waypoint that it loaded, or to a target that the caller set
since then. -/
structure Underway (since : List (PathEvent α)) (t : PathPose α)
    (e : Engine α (σ × WaypointQueue α)) : Prop where
  arrived : e.state.reached = true → ∃ u, .arrived u ∈ since
  target : e.hooks.Loyal → e.state.target = t ∨ .aimed e.state.target ∈ since
  accountable : e.hooks.Loyal → Accountable t since

/-- Nothing is loaded, or the first waypoint of the queue is, and the engine is underway. -/
inductive Progress (log : List (PathEvent α)) (e : Engine α (σ × WaypointQueue α)) : Prop where
  | unloaded (none : e.pathLoaded = false) (balanced : loads log = drops log)
  | loaded {t rest since} (first : e.pathLoaded = true) (head : e.waypoints.poses = t :: rest)
      (ahead : loads log = drops log ++ [t]) (headed : Headed log t since)
      (underway : Underway since t e)

/-- The journal of a run accounts for the waypoints, and for how far the engine is. -/
structure OnPath (start : Engine α (σ × WaypointQueue α)) (log : List (PathEvent α))
    (e : Engine α (σ × WaypointQueue α)) : Prop extends Ledger start log e where
  progress : Progress log e

variable {start : Engine α (σ × WaypointQueue α)} {log events : List (PathEvent α)}
variable {t : PathPose α}

/-- The account goes on with events that add at the end of the queue and drop at its front. -/
theorem Ledger.append (h : Ledger start log e) (hsame : SameSurroundings e e')
    (hqueue : e.waypoints.poses ++ pushes events = drops events ++ e'.waypoints.poses)
    (haccepted : ∀ t, .refused t ∉ events)
    (hjustified : Justified start.hooks.Loyal (log ++ events)) :
    Ledger start (log ++ events) e' where
  following := h.following.of_same hsame
  surroundings := h.surroundings.trans hsame
  accounted := by
    rw [pushes_append, drops_append, ← List.append_assoc, h.accounted, List.append_assoc, hqueue,
      List.append_assoc]
  accepted t hmem := by
    rcases List.mem_append.mp hmem with hmem | hmem
    · exact h.accepted t hmem
    · exact haccepted t hmem
  justified := hjustified

/-- An engine begins with an empty journal and the queue as it is. -/
theorem OnPath.of_built {queue : WaypointQueue α} (h : BuiltFollowing queue e) :
    OnPath e [] e where
  following := h.following
  surroundings := .refl e
  accounted := List.append_nil _
  accepted _ := List.not_mem_nil
  justified := .nil
  progress := .unloaded h.unloaded.1 rfl

/-! ## Where no waypoint is loaded or dropped -/

/-- Waypoints may be added, and targets may be set and reached; nothing else happens. -/
structure Passed (events : List (PathEvent α)) (e e' : Engine α (σ × WaypointQueue α)) : Prop
    extends SameSurroundings e e' where
  waypoints : e'.waypoints.poses = e.waypoints.poses ++ pushes events
  pathLoaded : e'.pathLoaded = e.pathLoaded
  loads : loads events = []
  drops : drops events = []
  accepted : ∀ t, .refused t ∉ events
  reached : e'.state.reached = true → e.state.reached = true ∨ ∃ u, .arrived u ∈ events
  target : e.hooks.Loyal → e'.state.target = e.state.target ∨ .aimed e'.state.target ∈ events
  arrived : ∀ u, .arrived u ∈ events → u = e'.state.target

omit [Scalar α] in
/-- A waypoint stays under way in what passes. -/
theorem Underway.append {since : List (PathEvent α)} (h : Underway since t e)
    (hpassed : Passed events e e') : Underway (since ++ events) t e' := by
  have htarget : e'.hooks.Loyal →
      e'.state.target = t ∨ .aimed e'.state.target ∈ since ++ events := by
    intro hloyal
    rw [hpassed.hooks] at hloyal
    rcases hpassed.target hloyal with hsame | haimed
    · rw [hsame]
      exact (h.target hloyal).imp_right (List.mem_append_left events)
    · exact .inr (List.mem_append_right since haimed)
  refine ⟨fun hreached => ?_, htarget, fun hloyal u hmem => ?_⟩
  · rcases hpassed.reached hreached with hreached | ⟨u, hu⟩
    · obtain ⟨u, hu⟩ := h.arrived hreached
      exact ⟨u, List.mem_append_left events hu⟩
    · exact ⟨u, List.mem_append_right since hu⟩
  · rcases List.mem_append.mp hmem with hmem | hmem
    · exact (h.accountable (hpassed.hooks ▸ hloyal) u hmem).imp_right (List.mem_append_left events)
    · rw [hpassed.arrived u hmem]
      exact htarget hloyal

/-- What passes without loading or dropping leaves the account as it is. -/
theorem OnPath.append (h : OnPath start log e) (hpassed : Passed events e e') :
    OnPath start (log ++ events) e' where
  toLedger := by
    have hqueue : e.waypoints.poses ++ pushes events
        = MotionControl.drops events ++ e'.waypoints.poses := by
      rw [hpassed.waypoints, hpassed.drops]
      rfl
    exact h.toLedger.append hpassed.toSameSurroundings hqueue hpassed.accepted
      (h.justified.append hpassed.drops)
  progress := by
    have hloads : MotionControl.loads (log ++ events) = MotionControl.loads log := by
      rw [loads_append, hpassed.loads, List.append_nil]
    have hdrops : MotionControl.drops (log ++ events) = MotionControl.drops log := by
      rw [drops_append, hpassed.drops, List.append_nil]
    cases h.progress with
    | unloaded none balanced =>
      refine .unloaded (hpassed.pathLoaded.trans none) ?_
      rw [hloads, hdrops, balanced]
    | @loaded t rest since first head ahead headed underway =>
      have hhead : e'.waypoints.poses = t :: (rest ++ pushes events) := by
        rw [hpassed.waypoints, head, List.cons_append]
      refine .loaded (hpassed.pathLoaded.trans first) hhead ?_
        (headed.append hpassed.loads hpassed.drops) (underway.append hpassed)
      rw [hloads, hdrops, ahead]

/-- Nothing happens. -/
theorem OnPath.of_passed (h : OnPath start log e) (hpassed : Passed [] e e') :
    OnPath start log e' := by
  have happended := h.append hpassed
  rw [List.append_nil] at happended
  exact happended

omit [Scalar α] in
theorem Unmoved.passed (h : Unmoved e e') : Passed [] e e' where
  toSameSurroundings := h.toSameSurroundings
  waypoints := by
    rw [h.waypoints]
    exact (List.append_nil _).symm
  pathLoaded := h.pathLoaded
  loads := rfl
  drops := rfl
  accepted _ := List.not_mem_nil
  reached hreached := .inl (h.reached hreached)
  target hloyal := .inl (h.target hloyal)
  arrived _ hmem := nomatch hmem

/-- A target of the caller is not reached yet. -/
theorem Following.aim_passed (h : Following e) (hset : e.setPoseTarget t = .ok e') :
    Passed [.aimed t] e e' := by
  obtain ⟨hkept, htarget, hreached⟩ := h.setPoseTarget hset
  exact
    { toSameSurroundings := hkept.toSameSurroundings
      waypoints := by
        rw [hkept.waypoints]
        exact (List.append_nil _).symm
      pathLoaded := hkept.pathLoaded
      loads := rfl
      drops := rfl
      accepted := fun _ hmem => by cases List.mem_singleton.mp hmem
      reached := fun h => absurd (h.symm.trans hreached) nofun
      target := fun _ => .inr (htarget ▸ List.mem_singleton_self _)
      arrived := fun _ hmem => by cases List.mem_singleton.mp hmem }

omit [Scalar α] in
/-- What a cycle reaches is the target that it had once the path was followed. -/
theorem AimKept.passed (h : AimKept e e') : Passed (arrivalEvents e e') e e' := by
  by_cases harrives : !e.state.reached && e'.state.reached
  · have hevents : arrivalEvents e e' = [.arrived e'.state.target] := if_pos harrives
    rw [hevents]
    exact
      { toSameSurroundings := h.toSameSurroundings
        waypoints := by
          rw [h.waypoints]
          exact (List.append_nil _).symm
        pathLoaded := h.pathLoaded
        loads := rfl
        drops := rfl
        accepted := fun _ hmem => by cases List.mem_singleton.mp hmem
        reached := fun _ => .inr ⟨_, List.mem_singleton_self _⟩
        target := fun hloyal => .inl (h.target hloyal)
        arrived := fun _ hmem => PathEvent.arrived.inj (List.mem_singleton.mp hmem) }
  · have hevents : arrivalEvents e e' = [] := if_neg harrives
    rw [hevents]
    refine Unmoved.passed ⟨h, fun hreached => ?_⟩
    rw [hreached, Bool.and_true, Bool.not_eq_true', Bool.not_eq_false] at harrives
    exact harrives

/-- More waypoints are added at the end of the queue. -/
theorem push_passed (e : Engine α (σ × WaypointQueue α)) (t : PathPose α) :
    Passed [.pushed t] e (e.follow (.push t)) where
  plant := rfl
  actuators := rfl
  hooks := rfl
  waypoints := rfl
  pathLoaded := rfl
  loads := rfl
  drops := rfl
  accepted _ hmem := by cases List.mem_singleton.mp hmem
  reached hreached := .inl hreached
  target _ := .inl rfl
  arrived _ hmem := by cases List.mem_singleton.mp hmem

theorem hold_passed (e : Engine α (σ × WaypointQueue α)) (on : Bool) :
    Passed [] e (e.follow (.hold on)) where
  plant := rfl
  actuators := rfl
  hooks := rfl
  waypoints := (List.append_nil _).symm
  pathLoaded := rfl
  loads := rfl
  drops := rfl
  accepted _ := List.not_mem_nil
  reached hreached := .inl hreached
  target _ := .inl rfl
  arrived _ hmem := nomatch hmem

/-! ## Where the path is followed -/

/-- What a look for a waypoint finds: either nothing to load, or the first waypoint, when every
waypoint that was loaded before is gone. -/
inductive Found (log : List (PathEvent α)) :
    Option (PathPose α) × Engine α (σ × WaypointQueue α) → Prop where
  | nothing {looked} (progress : Progress log looked) : Found log (none, looked)
  | first {t rest looked} (loaded : looked.pathLoaded = true)
      (head : looked.waypoints.poses = t :: rest) (balanced : loads log = drops log) :
      Found log (some t, looked)

/-- The first waypoint is loaded. -/
theorem Ledger.load {rest : List (PathPose α)} (h : Ledger start log e)
    (hloaded : e.pathLoaded = true) (hhead : e.waypoints.poses = t :: rest)
    (hbalanced : loads log = drops log) (hset : e.setPoseTarget t = .ok e') :
    OnPath start (log ++ [.loaded t]) e' := by
  obtain ⟨hkept, htarget, hreached⟩ := h.following.setPoseTarget hset
  have hdrops : drops (log ++ [.loaded t]) = drops log := by
    rw [drops_append]
    exact List.append_nil _
  refine ⟨h.append hkept.toSameSurroundings ?_ ?_ (h.justified.append rfl), ?_⟩
  · rw [hkept.waypoints]
    exact List.append_nil _
  · intro t' hmem
    cases List.mem_singleton.mp hmem
  · have hheaded : Headed (log ++ [.loaded t]) t [] := ⟨⟨log, rfl⟩, rfl, rfl⟩
    have hunderway : Underway [] t e' :=
      ⟨fun h => absurd (h.symm.trans hreached) nofun, fun _ => .inl htarget,
        fun _ _ hmem => nomatch hmem⟩
    refine .loaded (hkept.pathLoaded.trans hloaded) (hkept.waypoints ▸ hhead) ?_ hheaded hunderway
    rw [hdrops, loads_append, hbalanced]
    rfl

/-- The first waypoint is dropped when it is due. -/
theorem OnPath.drop (h : OnPath start log e) (hloaded : e.pathLoaded = true)
    (hreached : e.state.reached = true) (hfree : e.waypoints.hold = false)
    {looked : Engine α (σ × WaypointQueue α)} (hsame : SameSurroundings e looked)
    (hqueue : looked.waypoints = e.waypoints.advance) :
    Ledger start (log ++ dropEvents e looked) looked ∧
      loads (log ++ dropEvents e looked) = drops (log ++ dropEvents e looked) := by
  cases h.progress with
  | unloaded none => cases none.symm.trans hloaded
  | @loaded t rest since _ head ahead headed underway =>
    have hposes : looked.waypoints.poses = rest := by
      rw [hqueue, WaypointQueue.advance, head]
      rfl
    have hevents : dropEvents e looked = [.dropped t false] := by
      rw [dropEvents, WaypointQueue.length, WaypointQueue.length, hposes, head, hfree,
        List.length_cons, Nat.add_sub_cancel_left]
      rfl
    -- Loading the waypoint cleared the flag, so that something was reached since.
    have hdue : Due start.hooks.Loyal log t false := by
      rw [← h.surroundings.hooks]
      exact ⟨rfl, since, headed, underway.arrived hreached, underway.accountable⟩
    rw [hevents]
    refine ⟨h.toLedger.append hsame ?_ ?_ (h.justified.drop hdue), ?_⟩
    · rw [head, hposes]
      exact List.append_nil _
    · intro t' hmem
      cases List.mem_singleton.mp hmem
    · rw [drops_append, loads_append, ahead]
      exact List.append_nil _

/-- A look finds the first waypoint, and drops the one before only when it is due. -/
theorem OnPath.look {next : Option (PathPose α) × Engine α (σ × WaypointQueue α)}
    (h : OnPath start log e) (hlook : Looked e next) :
    Ledger start (log ++ dropEvents e next.2) next.2 ∧ Found (log ++ dropEvents e next.2) next := by
  have hsame := hlook.surroundings
  cases hlook with
  | nothing =>
    rw [dropEvents_of_same rfl, List.append_nil]
    exact ⟨h.toLedger, .nothing h.progress⟩
  | first targets unloaded current =>
    cases h.following.source_eq targets
    have hnone : dropEvents e { e with pathLoaded := true } = [] := dropEvents_of_same rfl
    dsimp only
    rw [hnone, List.append_nil]
    obtain ⟨rest, hhead⟩ := List.head?_eq_some_iff.mp current
    cases h.progress with
    | unloaded none balanced =>
      exact ⟨⟨h.following.of_same hsame, h.surroundings.trans hsame, h.accounted, h.accepted,
        h.justified⟩, .first rfl hhead balanced⟩
    | loaded first => cases first.symm.trans unloaded
  | dropped targets loaded reached free =>
    cases h.following.source_eq targets
    have hfree : e.waypoints.hold = false := by
      rw [← Bool.not_eq_true']
      exact free
    obtain ⟨hledger, hbalanced⟩ := h.drop loaded reached hfree hsame rfl
    refine ⟨hledger, ?_⟩
    -- The look loads the next waypoint in the cycle that drops the one before it, if there is one.
    generalize hnext : TargetSource.queued.current (TargetSource.queued.advance e.world) = next
      at hbalanced ⊢
    cases next with
    | none => exact .nothing (.unloaded rfl hbalanced)
    | some t =>
      obtain ⟨rest, hhead⟩ := List.head?_eq_some_iff.mp hnext
      exact .first rfl hhead hbalanced

/-- Following the path loads and drops waypoints as it should. -/
theorem OnPath.followPath (h : OnPath start log e) :
    OnPath start (log ++ e.pathEvents) e.followPath := by
  unfold pathEvents Engine.followPath
  by_cases hfollows : e.state.pathFollow && loadsWaypoints e.mode
  · rw [if_pos hfollows, if_pos hfollows]
    have hlook := nextWaypoint_spec e
    have hmode := hlook.mode
    obtain ⟨hledger, hfound⟩ := h.look hlook
    generalize e.nextWaypoint = next at hmode hledger hfound ⊢
    cases hfound with
    | nothing progress =>
      dsimp only [loadEvents]
      rw [List.append_nil]
      exact ⟨hledger, progress⟩
    | first loaded head balanced =>
      obtain ⟨e', haccepted⟩ := setPoseTarget_answers
        (by rw [hmode]; exact (Bool.and_eq_true_iff.mp hfollows).2) _
      dsimp only [loadEvents]
      rw [haccepted, ← List.append_assoc]
      exact hledger.load loaded head balanced haccepted
  · rw [if_neg hfollows, if_neg hfollows, List.append_nil]
    exact h

/-! ## Runs -/

/-- A cycle is accounted for, also when it is given up. -/
theorem OnPath.step (h : OnPath start log e) :
    OnPath start (log ++ e.events (.engine .step)) (left e.step) := by
  have hticked : Unmoved e e.tick := .of_same rfl rfl rfl rfl rfl rfl rfl
  -- The path is followed once and early in the cycle, and what is left of it may arrive.
  have hfollowed := (h.of_passed hticked.passed).followPath
  have hstepped := hfollowed.append hfollowed.following.step.passed
  rw [List.append_assoc] at hstepped
  exact hstepped

/-- So is a request. -/
theorem OnPath.request (h : OnPath start log e) (what : Request α) :
    OnPath start (log ++ e.events (.engine (.request what))) (e.request what) := by
  by_cases haims : ∃ target, what = .setPoseTarget target
  · obtain ⟨target, rfl⟩ := haims
    show OnPath start (log ++ e.aimEvents target) (e.granted (e.setPoseTarget target))
    unfold aimEvents
    cases hset : e.setPoseTarget target with
    | ok e' => exact h.append (h.following.aim_passed hset)
    | error reason =>
      rw [if_neg (by rintro ⟨⟩), List.append_nil]
      exact h
  · have hevents : e.events (.engine (.request what)) = [] := by
      cases what with
      | setPoseTarget target => exact absurd ⟨target, rfl⟩ haims
      | _ => rfl
    rw [hevents, List.append_nil]
    exact h.of_passed (h.following.request fun target heq => haims ⟨target, heq⟩).passed

/-- Whatever an operation does, the journal accounts for it. -/
theorem OnPath.follow (h : OnPath start log e) (operation : PathOperation α) :
    OnPath start (log ++ e.events operation) (e.follow operation) := by
  cases operation with
  | engine operation =>
    cases operation with
    | step => exact h.step
    | request what => exact h.request what
  | push target => exact h.append (push_passed e target)
  | hold on =>
    rw [events, List.append_nil]
    exact h.of_passed (hold_passed e on)

/-- So are any operations. -/
theorem OnPath.followAll (h : OnPath start log e) (operations : List (PathOperation α)) :
    OnPath start (log ++ e.journal operations) (e.followAll operations) := by
  -- On the operations, from any engine on: the journal so far is what the invariant is about.
  induction operations generalizing e log with
  | nil =>
    rw [journal, List.append_nil]
    exact h
  | cons operation rest ih =>
    rw [journal, ← List.append_assoc]
    exact ih (h.follow operation)

/-- The waypoints that were loaded are the first ones of all, in their order. -/
theorem OnPath.loads_prefix (h : OnPath start log e) :
    loads log <+: start.waypoints.poses ++ pushes log := by
  rw [h.accounted]
  cases h.progress with
  | unloaded none balanced =>
    rw [balanced]
    exact List.prefix_append _ _
  | @loaded t rest since first head ahead headed underway =>
    rw [ahead, head]
    exact ⟨rest, by rw [List.append_assoc, List.singleton_append]⟩

/-! ## What becomes of waypoints -/

/-- Waypoints are loaded in the order in which they were added, none twice and none left out, and
loading one is never refused.  Those that are gone from the queue were dropped, in this order, too.
When one is dropped, it is the target that was set last, there is no hold on it, and the target was
reached since it was loaded: the waypoint itself, unless the hooks changed the target.

The journal is true to what an engine does in the cycle after any operations: a waypoint that is
loaded is the target from then on, and the waypoints that are dropped are those that are missing. -/
theorem waypoints_in_order {queue : WaypointQueue α} (hbuilt : BuiltFollowing queue e)
    {operations : List (PathOperation α)}
    (hquiet : ∀ target, .engine (.request (.setPoseTarget target)) ∉ operations) :
    loads (e.journal operations)
        <+: queue.poses ++ operations.filterMap PathOperation.pushed? ∧
      queue.poses ++ operations.filterMap PathOperation.pushed?
        = drops (e.journal operations) ++ (e.followAll operations).waypoints.poses ∧
      (∀ t, .refused t ∉ e.journal operations) ∧
      (∀ before t held after, e.journal operations = before ++ .dropped t held :: after →
        held = false ∧ ∃ since, Headed before t since ∧ (∀ u, .aimed u ∉ since) ∧
          ∃ u, .arrived u ∈ since ∧ (e.hooks.Loyal → u = t)) ∧
      ∀ earlier,
        let next := (e.followAll earlier).tick
        next.followPath.state.target = (loads next.pathEvents).getLast?.getD next.state.target ∧
          next.waypoints.poses = drops next.pathEvents ++ next.followPath.waypoints.poses := by
  have hpath := (OnPath.of_built hbuilt).followAll operations
  have hloads := hpath.loads_prefix
  have haccounted := hpath.accounted
  rw [List.nil_append, pushes_journal, hbuilt.unloaded.2] at hloads haccounted
  refine ⟨hloads, haccounted, hpath.accepted, ?_, ?_⟩
  · intro before t held after hjournal
    obtain ⟨hfree, since, hheaded, ⟨u, hu⟩, haccountable⟩ :=
      hpath.justified before t held after hjournal
    -- Only the caller sets targets besides the path, and no operation of this run does.
    have hnone : ∀ target, .aimed target ∉ since := by
      intro target haimed
      obtain ⟨earlier, hbefore⟩ := hheaded.split
      refine hquiet target (aimed_mem_journal (e := e) ?_)
      rw [hjournal, hbefore]
      exact List.mem_append_left _ (List.mem_append_right _ (List.mem_cons_of_mem _ haimed))
    exact ⟨hfree, since, hheaded, hnone, u, hu, fun hloyal =>
      (haccountable hloyal u hu).resolve_right (hnone u)⟩
  · intro earlier next
    have hearlier := (OnPath.of_built hbuilt).followAll earlier
    have hticked : Unmoved (e.followAll earlier) next := .of_same rfl rfl rfl rfl rfl rfl rfl
    exact pathEvents_faithful (hearlier.of_passed hticked.passed).following

/-- A vehicle that never leaves its place, beside a queue of waypoints. -/
def parkedFollower (waypoints : List (PathPose Float)) :
    Except (EngineError Float) (Engine Float (Unit × WaypointQueue Float)) :=
  ofPlatform .default 1 (parkedOdometer (.of 0 0 0)).beside slackActuators.beside (some .queued)
    Attachments.none.beside ((), ⟨waypoints, false⟩)

theorem parkedFollower_loyal {waypoints : List (PathPose Float)}
    {e : Engine Float (Unit × WaypointQueue Float)} (h : parkedFollower waypoints = .ok e) :
    e.hooks.Loyal := by
  obtain ⟨_, _, -, rfl⟩ := ofPlatform_eq_ok h
  refine ⟨fun hran => ?_, fun _ _ => rfl⟩
  cases hran
  rfl

/-- What a vehicle that never leaves its place does with waypoints and targets. -/
def parkedJournal (waypoints : List (PathPose Float)) (operations : List (PathOperation Float)) :
    Option (List (PathEvent Float)) :=
  (parkedFollower waypoints).toOption.map (·.journal operations)

theorem parkedJournal_eq {waypoints : List (PathPose Float)}
    {operations : List (PathOperation Float)} {events : List (PathEvent Float)}
    (h : parkedJournal waypoints operations = some events) :
    ∃ e, parkedFollower waypoints = .ok e ∧ e.journal operations = events := by
  obtain ⟨e, hbuilt, hjournal⟩ := Option.map_eq_some_iff.mp h
  exact ⟨e, toOption_eq_some_iff.mp hbuilt, hjournal⟩

/-- Where the vehicle is, a place close to it, and one that it never turns to. -/
def here : PathPose Float := .final (.of 0 0 0)

/-- A waypoint within the tolerance of the vehicle. -/
def nearby : PathPose Float := .final (.of 1 0 0)

/-- A waypoint that the vehicle would have to turn for. -/
def turned : PathPose Float := .final (.of 0 0 90)

/-- A hold keeps the vehicle at the first waypoint for a cycle, while another one is added. -/
def heldVisit : List (PathOperation Float) :=
  [.engine (.request .enable), .engine (.request (.setPathFollow true)), .engine .step,
    .push turned, .hold true, .engine .step, .hold false, .engine .step, .engine .step]

/-- Both waypoints within reach are left behind, one after another. -/
theorem heldVisit_in_order :
    ∃ e, parkedFollower [here, nearby] = .ok e ∧
      e.journal heldVisit = [.loaded here, .arrived here, .pushed turned, .dropped here false,
        .loaded nearby, .arrived nearby, .dropped nearby false, .loaded turned] ∧
      loads (e.journal heldVisit) <+: [here, nearby] ++ [turned] ∧
      ∃ since, Headed [.loaded here, .arrived here, .pushed turned] here since ∧
        .arrived here ∈ since := by
  have hrun : parkedJournal [here, nearby] heldVisit
      = some [.loaded here, .arrived here, .pushed turned, .dropped here false,
        .loaded nearby, .arrived nearby, .dropped nearby false, .loaded turned] := by
    decide +kernel
  obtain ⟨e, hbuilt, hjournal⟩ := parkedJournal_eq hrun
  have hquiet : ∀ target, .engine (.request (.setPoseTarget target)) ∉ heldVisit := by
    intro target
    simp [heldVisit]
  obtain ⟨hloads, -, -, hdrops, -⟩ := waypoints_in_order (.platform hbuilt) hquiet
  obtain ⟨-, since, hheaded, -, u, hu, hsame⟩ :=
    hdrops [.loaded here, .arrived here, .pushed turned] here false _ hjournal
  rw [hsame (parkedFollower_loyal hbuilt)] at hu
  exact ⟨e, hbuilt, hjournal, hloads, since, hheaded, hu⟩

/-- Whatever a caller does, a waypoint that is dropped was loaded last, there is no hold on it, and
something was reached since: the waypoint, or a target that the caller set in between, unless the
hooks changed the target. -/
theorem dropped_after_arrival {queue : WaypointQueue α} (hbuilt : BuiltFollowing queue e)
    {operations : List (PathOperation α)} {before after : List (PathEvent α)} {t : PathPose α}
    {held : Bool} (hjournal : e.journal operations = before ++ .dropped t held :: after) :
    held = false ∧ ∃ since, Headed before t since ∧
      ∃ u, .arrived u ∈ since ∧ (e.hooks.Loyal → u = t ∨ .aimed u ∈ since) := by
  have hpath := (OnPath.of_built hbuilt).followAll operations
  obtain ⟨hfree, since, hheaded, ⟨u, hu⟩, haccountable⟩ :=
    hpath.justified before t held after hjournal
  exact ⟨hfree, since, hheaded, u, hu, fun hloyal => haccountable hloyal u hu⟩

/-- The caller sends the vehicle to its own place, when it is on its way to another waypoint. -/
def detour : List (PathOperation Float) :=
  [.engine (.request .enable), .engine (.request (.setPathFollow true)), .engine .step,
    .engine (.request (.setPoseTarget here)), .engine .step, .engine .step]

/-- The journal of the detour. -/
theorem detour_journal :
    ∃ e, parkedFollower [turned] = .ok e ∧ e.journal detour
      = [.loaded turned, .aimed here, .arrived here] ++ [.dropped turned false] :=
  parkedJournal_eq (by decide +kernel)

/-- The waypoint is dropped after the vehicle arrived at either of the two. -/
theorem detour_arrives_somewhere :
    ∃ e, parkedFollower [turned] = .ok e ∧ ∃ since,
      Headed [.loaded turned, .aimed here, .arrived here] turned since ∧
        ∃ u, .arrived u ∈ since ∧ (u = turned ∨ .aimed u ∈ since) := by
  obtain ⟨e, hbuilt, hjournal⟩ := detour_journal
  obtain ⟨-, since, hheaded, u, hu, hloyal⟩ := dropped_after_arrival (.platform hbuilt) hjournal
  exact ⟨e, hbuilt, since, hheaded, u, hu, hloyal (parkedFollower_loyal hbuilt)⟩

/-- It was not reached itself, though. -/
theorem detour_loses_waypoint :
    ∃ e, parkedFollower [turned] = .ok e ∧ .dropped turned false ∈ e.journal detour ∧
      .arrived turned ∉ e.journal detour := by
  obtain ⟨e, hbuilt, hjournal⟩ := detour_journal
  refine ⟨e, hbuilt, ?_, ?_⟩
  · rw [hjournal]
    decide +kernel
  · rw [hjournal]
    decide +kernel

end Engine

end MotionControl
