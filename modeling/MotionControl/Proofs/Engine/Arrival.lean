import MotionControl.Proofs.Engine.Actuation
import MotionControl.Proofs.Engine.Phases
import MotionControl.Proofs.Geometry.Angle
import MotionControl.Proofs.Move.Decision
import MotionControl.Proofs.Settings

/-!
# When a move is over

The straight-line law and the judge of arrival look at the same two poses, each with thresholds
of its own.  Where the law has no error left, the position is within any tolerance that a check
lets through.  The heading is, too, unless the settings leave out the last turn: the law is then
content with any heading, and the judge is not.

- `nothingLeft`: the law asks for no correction.
- `StraightMove.decide_of_settled`: it then compares headings, or leaves them alone.
- `Engine.step_judged`: a cycle that ends in Running without arrival was judged so.
- `Engine.nothing_left_is_arrived`: the law and the judge agree, and an engine that follows them
  does not stay in Running.
- `Engine.bypassed_turn_is_not_arrived`: a move without its last turn on which they do not.
-/

namespace MotionControl

open Scalar Outcome Binary64

deriving instance DecidableEq for Pose, PathPose, ArrivalSettings

/-! ## The judge -/

namespace ArrivalJudge

variable {α : Type} [Scalar α]

/-- A judgement leaves the tolerances alone. -/
theorem judge_settings (j : ArrivalJudge α) (current : Pose α) (target : PathPose α) :
    (j.judge current target).2.settings = j.settings := by
  unfold judge
  extract_lets position heading
  split
  · rfl
  · split <;> rfl

/-- Within the tolerance of the position, the heading decides, whatever was latched. -/
theorem judge_of_positionHolds {j : ArrivalJudge α} {current : Pose α} {target : PathPose α}
    (h : j.positionHolds current target = true) :
    (j.judge current target).1 = if target.intermediate then .intermediateReached
      else if j.headingHolds current target then .reached else .moving := by
  unfold judge
  simp only [h, Bool.or_true, Bool.true_and]
  split
  · rfl
  · split <;> rfl

end ArrivalJudge

/-! ## The law -/

/-- The signals of the law ask for no correction: the error of each axis, its first signal, is
zero. -/
def nothingLeft (outputs : List Float) : Bool :=
  outputs[0]?.any (· == 0) && outputs[4]?.any (· == 0)

/-- Whether anything is left is read off both errors. -/
theorem nothingLeft_toSignals (d : MoveDemand Float) :
    nothingLeft d.toSignals = (d.linear.error == 0 && d.angular.error == 0) := rfl

namespace StraightMove

variable {f : StraightMove Float} {r : MoveRequest Float}

/-- Driving backwards turns an error round and leaves its length. -/
theorem distance_of_directedError {allowReverse : Bool}
    (h : ((directedError r allowReverse).distance == 0) = true) :
    (r.current.distanceTo r.target == 0) = true := by
  unfold directedError at h
  extract_lets error at h
  split at h
  · exact beq_zero_of_neg h
  · exact h

/-- Outside speed mode the linear error is the distance that is left. -/
theorem decide_linear_error (hmode : isSet r.mode = false) :
    (f.decide r).1.linear.error = (f.errorOn r).distance := by
  have h := f.decided r
  generalize f.decide r = outcome at h ⊢
  cases h with
  | align | straight | orient => rfl
  | speed mode => cases hmode.symm.trans mode

/-- Without a linear error the position is that of the target, and the angular error is the one
of the headings unless these do not matter. -/
theorem decide_of_settled (hthreshold : 0 ≤ f.settings.linearThreshold)
    (hmode : isSet r.mode = false) (hlinear : ((f.decide r).1.linear.error == 0) = true) :
    (r.current.distanceTo r.target == 0) = true ∧
      (f.decide r).1.angular.error
        = if r.intermediate || f.settings.bypassFinalOrientation then 0
          else r.current.headingErrorTo r.target := by
  rw [decide_linear_error hmode] at hlinear
  refine ⟨distance_of_directedError hlinear, ?_⟩
  have hclose : ¬ f.settings.linearThreshold < abs (f.errorOn r).distance :=
    not_lt_of_beq_zero (abs_beq_zero hlinear) hthreshold
  have h := f.decided r
  generalize f.decide r = outcome at h ⊢
  cases h with
  | align _ far | straight _ far => exact absurd far hclose
  | orient => rfl
  | speed mode => cases hmode.symm.trans mode

end StraightMove

/-! ## Both -/

/-- A pose keeps its orientation when it is read from signals. -/
theorem Pose.of_of (x y orientation : Float) :
    Pose.of x y (Pose.of x y orientation).orientation = .of x y orientation := by
  show Pose.mk x y (wrapDegrees (wrapDegrees orientation)) = ⟨x, y, wrapDegrees orientation⟩
  rw [wrapDegrees_wrapDegrees]

/-- Flags are read as they are written. -/
theorem isSet_flag (b : Bool) : isSet (flag b : Float) = b := by
  cases b <;> rfl

/-- What the law is asked for in pose mode. -/
def ControlState.moveRequest (s : ControlState Float) : MoveRequest Float where
  current := s.pose
  target := s.target.pose
  speed := s.speed
  order := s.order
  allowReverse := s.target.allowReverse
  intermediate := s.target.intermediate
  mode := flag false

variable {σ : Type} {x y orientation x' y' orientation' : Float} {s : ControlState Float}

/-- The law reads from the inputs of the tree what the engine knows. -/
theorem ofSignals_treeInputs (hpose : s.pose = .of x y orientation)
    (htarget : s.target.pose = .of x' y' orientation') (odometer : Odometer Float σ)
    (drive : DriveSettings Float) (targets : Option (TargetSource Float σ)) :
    MoveRequest.ofSignals? ((Plant.platform odometer drive targets).treeInputs s false)
      = some s.moveRequest := by
  have hcurrent : Pose.of s.pose.x s.pose.y s.pose.orientation = s.pose := by
    rw [hpose]
    exact Pose.of_of ..
  have hgoal : Pose.of s.target.pose.x s.target.pose.y s.target.pose.orientation
      = s.target.pose := by
    rw [htarget]
    exact Pose.of_of ..
  unfold Plant.treeInputs MoveRequest.ofSignals?
  simp only [hcurrent, hgoal, isSet_flag]
  rfl

/-- Where the law asks for no correction, the judge finds the position within its tolerance, and
the heading too unless the law leaves it alone. -/
theorem judge_of_nothing_left {f : StraightMove Float} {j : ArrivalJudge Float}
    (hmove : f.settings.check = .ok ()) (harrival : j.settings.check = .ok ())
    (hleft : nothingLeft (f.decide s.moveRequest).1.toSignals = true) :
    (j.judge s.pose s.target).1 = if s.target.intermediate then .intermediateReached
      else if !f.settings.bypassFinalOrientation || j.headingHolds s.pose s.target then .reached
      else .moving := by
  rw [nothingLeft_toSignals] at hleft
  obtain ⟨hlinear, hangular⟩ := Bool.and_eq_true_iff.mp hleft
  obtain ⟨hdistance, herror⟩ := StraightMove.decide_of_settled (r := s.moveRequest)
    (StraightMoveSettings.linearThreshold_of_check hmove) (isSet_flag false) hlinear
  obtain ⟨hlinearThreshold, hangularThreshold⟩ := ArrivalSettings.thresholds_of_check harrival
  have hposition : j.positionHolds s.pose s.target = true :=
    decide_eq_true (lt_of_beq_zero hdistance hlinearThreshold)
  rw [ArrivalJudge.judge_of_positionHolds hposition]
  -- Only where the law compares headings does its error say anything about them.
  cases hbypass : f.settings.bypassFinalOrientation with
  | true => rfl
  | false =>
    cases hintermediate : s.target.intermediate with
    | true => rfl
    | false =>
      have hcompared : s.moveRequest.intermediate = false := hintermediate
      rw [hcompared, hbypass] at herror
      have hheading : j.headingHolds s.pose s.target = true := by
        rw [herror] at hangular
        exact decide_eq_true (lt_of_beq_zero (abs_beq_zero hangular) hangularThreshold)
      rw [hheading]
      rfl

/-! ## The engine -/

namespace Engine

variable {α : Type} [Scalar α] {e e' : Engine α σ}

/-- A target is reached, or was judged not to be. -/
theorem ArrivalLook.judged (h : ArrivalLook e e') :
    e'.state.reached = true ∨
      (e.arrival.judge e.state.pose e.state.target).1.isReached = false ∧
        e'.state = e.state ∧ e'.arrival.settings = e.arrival.settings := by
  have hsettings := e.arrival.judge_settings e.state.pose e.state.target
  cases h with
  | before reached => exact .inl reached
  | away unreached judged moving =>
    rw [judged] at hsettings ⊢
    exact .inr ⟨moving, rfl, hsettings⟩
  | arrived unreached judged there shown =>
    rw [shown]
    exact .inl rfl

omit [Scalar α] in
theorem publish_arrival (e : Engine α σ) : e.publish.arrival = e.arrival := by
  obtain ⟨telemetry, hpublished⟩ := publish_eq e
  rw [hpublished]

/-- A cycle that ends in Running has reached its target, or has judged the pose and the target
that it leaves behind and found them apart. -/
theorem step_judged (hstep : e.step = .ok e') (hrunning : e'.mode = .running) :
    e'.state.reached = true ∨ ∃ j : ArrivalJudge α, j.settings = e'.arrival.settings ∧
      (j.judge e'.state.pose e'.state.target).1.isReached = false := by
  obtain ⟨c, -, rfl⟩ := step_eq_ok_iff.mp hstep
  obtain ⟨looked, hlooked⟩ : ∃ looked, looked = c.stallChecked := ⟨_, rfl⟩
  have hends : c.supervised = looked.checkTarget.publish := by rw [hlooked, supervised]
  obtain ⟨hpublished, hstate, -⟩ := publish_alike looked.checkTarget
  rw [hends, hpublished.mode] at hrunning
  rw [hends, hstate, publish_arrival]
  -- Nothing that follows the stall check leads into Running, and a timeout leads out of it.
  have hmode : looked.mode = .running := by
    refine Classical.byContradiction fun hmode => hmode ?_
    rw [checkTarget, if_neg hmode] at hrunning
    exact hrunning
  have harrived : looked.checkTarget = looked.checkArrival := by
    rw [checkTarget, if_pos hmode] at hrunning ⊢
    obtain hkept | ⟨-, hidle⟩ :=
      (checkTimeout_spec _).carried ((checkArrival_spec looked).alike.mode.trans hmode)
    · exact hkept
    · cases hrunning.symm.trans hidle
  rw [harrived]
  obtain hreached | ⟨hjudged, hsame, hsettings⟩ := (checkArrival_spec looked).judged
  · exact .inl hreached
  · rw [hsame, hsettings]
    exact .inr ⟨looked.arrival, rfl, hjudged⟩

/-- The law has a demand for every pair of poses, whatever slots it writes to.  Where it asks for no
correction, the judge says that the target is reached, whatever either of them remembers; only where
the last turn is left out does it still look at the heading of a last pose.  No cycle of an engine
ends in Running on such a target that is not reached. -/
theorem nothing_left_is_arrived {settings : PlatformSettings Float}
    (hchecked : settings.check = .ok ()) {f : StraightMove Float}
    (hlaw : f.settings = settings.straightMove) (hpose : s.pose = .of x y orientation)
    (htarget : s.target.pose = .of x' y' orientation') (odometer : Odometer Float σ)
    (targets : Option (TargetSource Float σ)) {slots : List Float} (hslots : slots.length = 9) :
    ∃ outputs f', f.compute ((Plant.platform odometer settings.drive targets).treeInputs s false)
        slots = .ok (outputs, f') ∧
      (nothingLeft outputs = true →
        (∀ j : ArrivalJudge Float, j.settings = settings.arrival →
          (j.judge s.pose s.target).1 = if s.target.intermediate then .intermediateReached
            else if !settings.straightMove.bypassFinalOrientation ||
              j.headingHolds s.pose s.target then .reached
            else .moving) ∧
        ∀ e e' : Engine Float σ, e.step = .ok e' → e'.mode = .running →
          e'.arrival.settings = settings.arrival →
          e'.state.pose = s.pose → e'.state.target = s.target →
          (s.target.intermediate || !settings.straightMove.bypassFinalOrientation ||
            e'.arrival.headingHolds s.pose s.target) = true →
          e'.state.reached = true) := by
  have hvalid := PlatformSettings.checked hchecked
  refine ⟨(f.decide s.moveRequest).1.toSignals, (f.decide s.moveRequest).2, ?_, fun hleft => ?_⟩
  · exact f.compute_eq_ok (ofSignals_treeInputs hpose htarget odometer _ targets) hslots
  · have hjudge : ∀ j : ArrivalJudge Float, j.settings = settings.arrival →
        (j.judge s.pose s.target).1 = if s.target.intermediate then .intermediateReached
          else if !settings.straightMove.bypassFinalOrientation ||
            j.headingHolds s.pose s.target then .reached
          else .moving := by
      intro j hj
      rw [← hlaw]
      exact judge_of_nothing_left (hlaw ▸ hvalid.straightMove) (hj ▸ hvalid.arrival) hleft
    refine ⟨hjudge, fun e e' hstep hrunning hsettings hposed haimed hturned => ?_⟩
    obtain hreached | ⟨j, hj, hjudged⟩ := step_judged hstep hrunning
    · exact hreached
    · have hheading : j.headingHolds s.pose s.target = e'.arrival.headingHolds s.pose s.target := by
        unfold ArrivalJudge.headingHolds
        rw [hj]
      rw [hposed, haimed, hjudge j (hj.trans hsettings), hheading] at hjudged
      rw [Bool.or_assoc] at hturned
      revert hturned hjudged
      cases s.target.intermediate with
      | true => exact fun _ h => nomatch h
      | false =>
        intro hturned hjudged
        rw [Bool.false_or] at hturned
        rw [hturned] at hjudged
        cases hjudged

/-- An odometer that always reads the same pose. -/
def parkedOdometer (place : Pose Float) : Odometer Float Unit where
  sample world := (⟨place, .zero⟩, world)
  reseat _ world := world

/-- A vehicle that never leaves its place, told to go to a pose. -/
def parked (settings : PlatformSettings Float) (place target : Pose Float) :
    Option (Engine Float Unit) :=
  (ofPlatform settings 1 (parkedOdometer place) slackActuators none .none ()).toOption.bind
    fun e => (e.performAll [.request .enable, .request (.setPoseTarget (.final target))]).toOption

/-- How one cycle of such a vehicle ends, and what its law makes of the poses. -/
structure ParkedCycle where
  mode : Mode
  reached : Bool
  judged : MoveStatus
  tolerances : ArrivalSettings Float
  pose : Pose Float
  target : PathPose Float
  nothingLeft : Option Bool
  deriving DecidableEq

/-- What a cycle of a parked vehicle comes to. -/
def parkedCycle (settings : PlatformSettings Float) (place target : Pose Float) :
    Option ParkedCycle :=
  (parked settings place target).bind fun e => e.step.toOption.map fun e' =>
    { mode := e'.mode
      reached := e'.state.reached
      judged := (e'.arrival.judge e'.state.pose e'.state.target).1
      tolerances := e'.arrival.settings
      pose := e'.state.pose
      target := e'.state.target
      nothingLeft := ((StraightMove.fresh settings.straightMove).compute ((Plant.platform
        (parkedOdometer place) settings.drive none).treeInputs e'.state false)
        (List.replicate 9 0)).toOption.map (nothingLeft ·.1) }

theorem parkedCycle_eq {settings : PlatformSettings Float} {place target : Pose Float}
    {cycle : ParkedCycle} (h : parkedCycle settings place target = some cycle)
    (hleft : cycle.nothingLeft = some true) :
    ∃ e e' outputs f', parked settings place target = some e ∧ e.step = .ok e' ∧
      e'.mode = cycle.mode ∧ e'.state.reached = cycle.reached ∧
      (e'.arrival.judge e'.state.pose e'.state.target).1 = cycle.judged ∧
      e'.arrival.settings = cycle.tolerances ∧ e'.state.pose = cycle.pose ∧
      e'.state.target = cycle.target ∧
      (StraightMove.fresh settings.straightMove).compute ((Plant.platform (parkedOdometer place)
        settings.drive none).treeInputs e'.state false) (List.replicate 9 0) = .ok (outputs, f') ∧
      nothingLeft outputs = true := by
  obtain ⟨e, hparked, h⟩ := Option.bind_eq_some_iff.mp h
  obtain ⟨e', hstep, rfl⟩ := Option.map_eq_some_iff.mp h
  dsimp only at hleft
  obtain ⟨⟨outputs, f'⟩, hcompute, hzero⟩ := Option.map_eq_some_iff.mp hleft
  exact ⟨e, e', outputs, f', hparked, toOption_eq_some_iff.mp hstep, rfl, rfl, rfl, rfl, rfl, rfl,
    toOption_eq_some_iff.mp hcompute, hzero⟩

/-- With default settings, one cycle finds the vehicle where it was told to go, though the two
headings were given a turn apart. -/
theorem parked_is_arrived :
    ∃ e e' outputs f', parked .default (.of 3 4 190) (.of 3 4 (-170)) = some e ∧
      e.step = .ok e' ∧ e'.mode = .running ∧ e'.state.pose = .of 3 4 190 ∧
      e'.state.target = .final (.of 3 4 (-170)) ∧
      (StraightMove.fresh .default).compute ((Plant.platform (parkedOdometer (.of 3 4 190))
        .default none).treeInputs e'.state false) (List.replicate 9 0) = .ok (outputs, f') ∧
      nothingLeft outputs = true ∧
      (e'.arrival.judge e'.state.pose e'.state.target).1 = .reached ∧
      e'.state.reached = true := by
  have hcycle : parkedCycle .default (.of 3 4 190) (.of 3 4 (-170))
      = some ⟨.running, true, .reached, .default, .of 3 4 190, .final (.of 3 4 (-170)),
        some true⟩ := by
    decide +kernel
  obtain ⟨e, e', outputs, f', hparked, hstep, hmode, -, -, harrival, hpose, haim, hcompute,
    hleft⟩ := parkedCycle_eq hcycle rfl
  have hchecked : (PlatformSettings.default : PlatformSettings Float).check = .ok () :=
    toOption_eq_some_iff.mp (by decide +kernel)
  obtain ⟨outputs', f'', hcompute', hagree⟩ := nothing_left_is_arrived hchecked
    (f := .fresh _) rfl hpose (congrArg PathPose.pose haim) (parkedOdometer (.of 3 4 190)) none
    List.length_replicate
  cases hcompute.symm.trans hcompute'
  obtain ⟨hjudge, hrun⟩ := hagree hleft
  refine ⟨e, e', outputs, f', hparked, hstep, hmode, hpose, haim, hcompute, hleft, ?_, ?_⟩
  · rw [hjudge e'.arrival harrival, haim]
    rfl
  · refine hrun e e' hstep hmode harrival rfl rfl ?_
    rw [haim]
    rfl

/-- Settings that leave out the last turn. -/
def unturned : PlatformSettings Float :=
  { PlatformSettings.default with straightMove := ⟨2, 5, true⟩ }

/-- Told to turn on the spot, a vehicle that leaves out its last turn is content, and yet it is
left in Running: the judge misses the turn. -/
theorem bypassed_turn_is_not_arrived :
    unturned.check = .ok () ∧
      ∃ e e' outputs f', parked unturned (.of 0 0 0) (.of 0 0 90) = some e ∧ e.step = .ok e' ∧
        e'.mode = .running ∧ e'.arrival.settings = unturned.arrival ∧
        e'.state.pose = .of 0 0 0 ∧ e'.state.target = .final (.of 0 0 90) ∧
        (StraightMove.fresh unturned.straightMove).compute ((Plant.platform
          (parkedOdometer (.of 0 0 0)) unturned.drive none).treeInputs e'.state false)
            (List.replicate 9 0) = .ok (outputs, f') ∧
        nothingLeft outputs = true ∧
        (e'.arrival.judge e'.state.pose e'.state.target).1 = .moving ∧
        e'.state.reached = false := by
  have hcycle : parkedCycle unturned (.of 0 0 0) (.of 0 0 90)
      = some ⟨.running, false, .moving, unturned.arrival, .of 0 0 0, .final (.of 0 0 90),
        some true⟩ := by
    decide +kernel
  have hchecked : unturned.check = .ok () := toOption_eq_some_iff.mp (by decide +kernel)
  obtain ⟨e, e', outputs, f', hparked, hstep, hmode, hreached, hjudged, harrival, hpose, haim,
    hcompute, hleft⟩ := parkedCycle_eq hcycle rfl
  exact ⟨hchecked, e, e', outputs, f', hparked, hstep, hmode, harrival, hpose, haim, hcompute,
    hleft, hjudged, hreached⟩

end Engine

end MotionControl
