import MotionControl.Proofs.Engine.Arrival

/-!
# Arrival policies over many cycles

A judge looks at one pose after another, and what it says of the last one may depend on all of
them: the sequential policy remembers that some pose was near.  What it remembers is no more than
that, so that the answers of a whole run have a closed form.

- `ArrivalSettings.Near`, `ArrivalSettings.Facing`: the two tolerances, at one pose.
- `ArrivalJudge.watch`, `ArrivalJudge.answers`: what poses make of a judge, and its answers.
- `ArrivalJudge.latched_watch`: what the sequential policy remembers of them.
- `ArrivalJudge.answers_simultaneous_sequential`: where the simultaneous policy sees the target
  reached, the sequential one does.
- `ArrivalJudge.policies_over_a_run`: the answers under either policy, and which one is first.
-/

namespace MotionControl

open Scalar

variable {α : Type} [Scalar α]

/-! ## Tolerances -/

namespace ArrivalSettings

variable (s : ArrivalSettings α) (target : PathPose α) (pose : Pose α)

/-- The position is within its tolerance. -/
def Near : Prop := pose.distanceTo target.pose < s.linearThreshold

/-- The heading is within its tolerance. -/
def Facing : Prop := abs (pose.headingErrorTo target.pose) < s.angularThreshold

instance : Decidable (s.Near target pose) := Scalar.decLt ..

instance : Decidable (s.Facing target pose) := Scalar.decLt ..

/-- The same tolerances, combined in another way. -/
def withPolicy (policy : ArrivalPolicy) : ArrivalSettings α := { s with policy }

end ArrivalSettings

namespace ArrivalJudge

variable {j j' : ArrivalJudge α} {target : PathPose α} {pose : Pose α} {poses : List (Pose α)}

/-! ## One pose -/

theorem positionHolds_eq (j : ArrivalJudge α) (pose : Pose α) (target : PathPose α) :
    j.positionHolds pose target = decide (j.settings.Near target pose) := rfl

theorem headingHolds_eq (j : ArrivalJudge α) (pose : Pose α) (target : PathPose α) :
    j.headingHolds pose target = decide (j.settings.Facing target pose) := rfl

/-- On the way, the distance alone decides. -/
theorem judge_intermediate (h : target.intermediate = true) :
    j.judge pose target
      = (if j.settings.Near target pose then .intermediateReached else .moving, j) := by
  simp [judge, h, positionHolds_eq]

/-- At the end, both tolerances have to be met in one cycle. -/
theorem judge_simultaneous (h : target.intermediate = false)
    (hpolicy : j.settings.policy = .simultaneous) :
    j.judge pose target
      = (if j.settings.Near target pose ∧ j.settings.Facing target pose then .reached else .moving,
        j) := by
  simp [judge, h, hpolicy, positionHolds_eq, headingHolds_eq]

/-- Or the place is latched first, and then the heading decides. -/
theorem judge_sequential (h : target.intermediate = false)
    (hpolicy : j.settings.policy = .sequential) :
    j.judge pose target
      = (if (j.positionLatched = true ∨ j.settings.Near target pose) ∧
            j.settings.Facing target pose then .reached else .moving,
        { j with positionLatched := j.positionLatched || decide (j.settings.Near target pose) }) := by
  simp [judge, h, hpolicy, positionHolds_eq, headingHolds_eq]

/-! ## Poses one after another -/

/-- The judge after poses. -/
def watch (j : ArrivalJudge α) (target : PathPose α) (poses : List (Pose α)) : ArrivalJudge α :=
  poses.foldl (fun j pose => (j.judge pose target).2) j

/-- What it says of each of them. -/
def answers (j : ArrivalJudge α) (target : PathPose α) : List (Pose α) → List MoveStatus
  | [] => []
  | pose :: rest => (j.judge pose target).1 :: answers (j.judge pose target).2 target rest

theorem watch_cons (j : ArrivalJudge α) (target : PathPose α) (first : Pose α)
    (rest : List (Pose α)) :
    j.watch target (first :: rest) = (j.judge first target).2.watch target rest := rfl

theorem watch_settings (j : ArrivalJudge α) (target : PathPose α) (poses : List (Pose α)) :
    (j.watch target poses).settings = j.settings := by
  induction poses generalizing j with
  | nil => rfl
  | cons first rest ih => rw [watch_cons, ih, judge_settings]

/-- A pose on the way leaves no trace in the judge, and neither does the simultaneous policy. -/
theorem watch_of_untouched (h : ∀ pose, (j.judge pose target).2 = j) : j.watch target poses = j := by
  induction poses with
  | nil => rfl
  | cons first rest ih => rw [watch_cons, h, ih]

/-- All that the sequential policy remembers is that some pose was near. -/
theorem latched_watch (h : target.intermediate = false)
    (hpolicy : j.settings.policy = .sequential) :
    (j.watch target poses).positionLatched = true ↔
      j.positionLatched = true ∨ ∃ p ∈ poses, j.settings.Near target p := by
  induction poses generalizing j with
  | nil => simp [watch]
  | cons first rest ih =>
    have hsettings := j.judge_settings first target
    rw [watch_cons, ih (hsettings ▸ hpolicy), hsettings, judge_sequential h hpolicy]
    simp [or_assoc]

/-! ## The two policies -/

/-- Judges with the same tolerances, whatever they remember: where both tolerances hold at once,
the sequential policy asks for no more. -/
theorem answers_simultaneous_sequential (hthresholds : j'.settings = j.settings.withPolicy .sequential)
    (hpolicy : j.settings.policy = .simultaneous) :
    List.Forall₂ (fun a a' => a = .reached → a' = .reached)
      (j.answers target poses) (j'.answers target poses) := by
  -- What the second judge remembers is left general: the latch only ever helps it.
  induction poses generalizing j j' with
  | nil => exact .nil
  | cons first rest ih =>
    refine .cons ?_ (ih ?_ ?_)
    · cases hintermediate : target.intermediate with
      | true =>
        rw [judge_intermediate hintermediate]
        intro h
        split at h <;> cases h
      | false =>
        have hsequential : j'.settings.policy = .sequential := by rw [hthresholds]; rfl
        rw [judge_simultaneous hintermediate hpolicy, judge_sequential hintermediate hsequential,
          hthresholds]
        intro h
        by_cases hboth : j.settings.Near target first ∧ j.settings.Facing target first
        · exact if_pos ⟨.inr hboth.1, hboth.2⟩
        · rw [if_neg hboth] at h
          cases h
    · rw [judge_settings, judge_settings, hthresholds]
    · rw [judge_settings, hpolicy]

/-- What happens in one list wherever it happens in another happens there no later. -/
theorem findIdx_reached_le {a a' : List MoveStatus}
    (h : List.Forall₂ (fun s s' => s = .reached → s' = .reached) a a') :
    a'.findIdx (· == .reached) ≤ a.findIdx (· == .reached) := by
  induction h with
  | nil => exact Nat.le_refl _
  | @cons s s' rest rest' hfirst _ ih =>
    rw [List.findIdx_cons, List.findIdx_cons]
    by_cases hreached : s = .reached
    · simp [hfirst hreached]
    · rw [beq_false_of_ne hreached]
      cases s' == .reached with
      | true => exact Nat.zero_le _
      | false => exact Nat.succ_le_succ ih

/-- The closed form of the answers since a reset.  A pose on the way is reached where it is near,
and the judge is left as it was.  The last pose is reached, under the simultaneous policy, where
it is near and faced; under the sequential one, where it is faced and was near at some pose since
the reset.  Everywhere else the answer is that it is not reached yet.  So the sequential policy
never gives its first positive answer on a last pose after the simultaneous one. -/
theorem policies_over_a_run (j : ArrivalJudge α) (target : PathPose α) :
    (∀ (seen : List (Pose α)) (pose : Pose α),
      (target.intermediate = true →
        (j.reset.watch target seen).judge pose target
          = (if j.settings.Near target pose then .intermediateReached else .moving, j.reset)) ∧
      (target.intermediate = false → j.settings.policy = .simultaneous →
        ((j.reset.watch target seen).judge pose target).1
          = if j.settings.Near target pose ∧ j.settings.Facing target pose then .reached
            else .moving) ∧
      (target.intermediate = false → j.settings.policy = .sequential →
        ((j.reset.watch target seen).judge pose target).1
          = if (∃ p ∈ seen ++ [pose], j.settings.Near target p) ∧ j.settings.Facing target pose
            then .reached else .moving)) ∧
    ∀ poses : List (Pose α),
      ((j.withSettings (j.settings.withPolicy .sequential)).reset.answers target poses).findIdx
          (· == .reached)
        ≤ ((j.withSettings (j.settings.withPolicy .simultaneous)).reset.answers target
            poses).findIdx (· == .reached) := by
  refine ⟨fun seen pose => ⟨fun hintermediate => ?_, fun hfinal hpolicy => ?_,
    fun hfinal hpolicy => ?_⟩, fun poses => ?_⟩
  · rw [watch_of_untouched fun _ => by rw [judge_intermediate hintermediate],
      judge_intermediate hintermediate]
    rfl
  · have hpolicy' : j.reset.settings.policy = .simultaneous := hpolicy
    rw [watch_of_untouched fun _ => by rw [judge_simultaneous hfinal hpolicy'],
      judge_simultaneous hfinal hpolicy']
    rfl
  · have hsettings := j.reset.watch_settings target seen
    have hpolicy' : j.reset.settings.policy = .sequential := hpolicy
    rw [judge_sequential hfinal (hsettings ▸ hpolicy'), hsettings]
    have hnear : ((j.reset.watch target seen).positionLatched = true ∨
        j.reset.settings.Near target pose) ↔ ∃ p ∈ seen ++ [pose], j.settings.Near target p := by
      rw [latched_watch hfinal hpolicy']
      simp [reset, or_and_right, exists_or]
    simp only [hnear]
    rfl
  · exact findIdx_reached_le (answers_simultaneous_sequential rfl rfl)

/-- A vehicle comes near, turns, and drifts away while it does: under the sequential policy it
has arrived then, under the simultaneous one it has not. -/
theorem drifting_turn_arrives :
    ((((fresh ⟨5, 2, .sequential⟩ : ArrivalJudge Float).reset.watch (.final (.of 100 0 90))
        [.of 98 0 0]).judge (.of 93 0 89) (.final (.of 100 0 90))).1 = .reached) ∧
      (((fresh ⟨5, 2, .simultaneous⟩ : ArrivalJudge Float).reset.watch (.final (.of 100 0 90))
        [.of 98 0 0]).judge (.of 93 0 89) (.final (.of 100 0 90))).1 = .moving := by
  constructor
  · rw [((policies_over_a_run _ _).1 _ _).2.2 rfl rfl]
    exact if_pos (by decide +kernel)
  · rw [((policies_over_a_run _ _).1 _ _).2.1 rfl rfl]
    exact if_neg (by decide +kernel)

end ArrivalJudge

end MotionControl
