import MotionControl.Engine.Drive
import MotionControl.Proofs.Outcome
import MotionControl.Proofs.Scalar.Rational
import MotionControl.Proofs.Settings

/-!
# Kinematics of a drive in exact numbers

A speed is turned into one duty for each wheel, and a pair of duties into the speed that it
produces.  In exact numbers each of these undoes the other, whatever the two wheels are like, as
long as the band of the motors leaves the duties alone.

- `DriveSettings.Workable`: drives with wheels, a track and a band, as settings that pass their
  check have them; `DriveSettings.Admits`: the duties that the band leaves alone.
- `DriveSettings.surfaceOf_dutyOf`, `DriveSettings.dutyOf_surfaceOf`: one wheel there and back.
- `DriveSettings.bodySpeed_wheelSpeeds`, `DriveSettings.wheelSpeeds_bodySpeed`: the base there and
  back.
- `DriveSettings.shaped_eq_self_iff`: what the band makes of a duty.
- `DriveSettings.kinematics_invert`: a drive there and back.
-/

namespace MotionControl

open Scalar Outcome Rational

namespace DriveSettings

/-- A drive that can move: its wheels, its track and its motors have a size, and its motors a band
of duties. -/
structure Workable (s : DriveSettings ℚ) : Prop where
  track : 0 < s.trackWidth
  leftDiameter : 0 < s.leftDiameter
  rightDiameter : 0 < s.rightDiameter
  leftConstant : 0 < s.leftConstant
  rightConstant : 0 < s.rightConstant
  least : 0 ≤ s.minDuty
  ordered : s.minDuty ≤ s.maxDuty

/-- A duty in the band, or none. -/
def Admits (s : DriveSettings ℚ) (duty : ℚ) : Prop :=
  duty = 0 ∨ s.minDuty ≤ |duty| ∧ |duty| ≤ s.maxDuty

instance (s : DriveSettings ℚ) (duty : ℚ) : Decidable (s.Admits duty) :=
  inferInstanceAs (Decidable (_ ∨ _))

/-- A pair of such duties. -/
def AdmitsBoth (s : DriveSettings ℚ) (duties : Wheels ℚ) : Prop :=
  s.Admits duties.left ∧ s.Admits duties.right

instance (s : DriveSettings ℚ) (duties : Wheels ℚ) : Decidable (s.AdmitsBoth duties) :=
  inferInstanceAs (Decidable (_ ∧ _))

variable [PlaneFunctions] {s : DriveSettings ℚ}

theorem pos_of_requirePositive {what : String} {v : ℚ} (h : requirePositive what v = .ok ()) :
    0 < v := by
  obtain ⟨hpos, -⟩ := Bool.and_eq_true_iff.mp (require_eq_ok_iff.mp h)
  exact of_decide_eq_true hpos

/-- Drives whose settings pass their check can move. -/
theorem workable_of_check (h : s.check = .ok ()) : s.Workable := by
  obtain ⟨_, htrack, h⟩ := bind_eq_ok_iff.mp h
  obtain ⟨_, hleft, h⟩ := bind_eq_ok_iff.mp h
  obtain ⟨_, hright, h⟩ := bind_eq_ok_iff.mp h
  obtain ⟨_, hleftConstant, h⟩ := bind_eq_ok_iff.mp h
  obtain ⟨_, hrightConstant, h⟩ := bind_eq_ok_iff.mp h
  obtain ⟨_, -, hmin⟩ := bind_eq_ok_iff.mp h
  obtain ⟨hmin, hordered⟩ := Bool.and_eq_true_iff.mp (require_eq_ok_iff.mp hmin)
  rw [Bool.not_eq_true', decide_eq_false_iff_not] at hmin hordered
  exact {
    track := pos_of_requirePositive htrack
    leftDiameter := pos_of_requirePositive hleft
    rightDiameter := pos_of_requirePositive hright
    leftConstant := pos_of_requirePositive hleftConstant
    rightConstant := pos_of_requirePositive hrightConstant
    least := not_lt.mp hmin
    ordered := not_lt.mp hordered }

/-! ## One wheel -/

/-- The duty that a surface speed takes. -/
def dutyOf (diameter constant speed : ℚ) : ℚ := speed / (pi * diameter) * constant

/-- The surface speed that a duty gives. -/
def surfaceOf (diameter constant duty : ℚ) : ℚ := duty / constant * pi * diameter

section Wheel

variable {diameter constant : ℚ} (hpi : 0 < (pi : ℚ)) (hdiameter : 0 < diameter)
  (hconstant : 0 < constant)

include hpi hdiameter hconstant

/-- A wheel turns as fast as its duty was computed for. -/
theorem surfaceOf_dutyOf (speed : ℚ) :
    surfaceOf diameter constant (dutyOf diameter constant speed) = speed := by
  have hround := hpi.ne'
  unfold surfaceOf dutyOf
  field_simp

/-- The duty for the speed of a wheel is the one that it has. -/
theorem dutyOf_surfaceOf (duty : ℚ) :
    dutyOf diameter constant (surfaceOf diameter constant duty) = duty := by
  have hround := hpi.ne'
  unfold surfaceOf dutyOf
  field_simp

end Wheel

/-! ## The base between the wheels -/

/-- The speed of a base whose wheels have these surface speeds. -/
def bodySpeed (s : DriveSettings ℚ) (v : Wheels ℚ) : Polar ℚ :=
  ⟨(v.left + v.right) / 2, (v.right - v.left) / s.trackWidth * (180 / pi)⟩

/-- Each wheel turns around the middle of the track, at half its width. -/
theorem wheelSpeeds_eq (speed : Polar ℚ) :
    s.wheelSpeeds speed = ⟨speed.distance - speed.angle * (pi / 180) * s.trackWidth / 2,
      speed.distance + speed.angle * (pi / 180) * s.trackWidth / 2⟩ := rfl

theorem rawDuties_eq (speed : Polar ℚ) :
    s.rawDuties speed = ⟨dutyOf s.leftDiameter s.leftConstant (s.wheelSpeeds speed).left,
      dutyOf s.rightDiameter s.rightConstant (s.wheelSpeeds speed).right⟩ := rfl

theorem speedOf_eq (duties : Wheels ℚ) :
    s.speedOf duties = s.bodySpeed ⟨surfaceOf s.leftDiameter s.leftConstant duties.left,
      surfaceOf s.rightDiameter s.rightConstant duties.right⟩ := rfl

section Base

variable (hpi : 0 < (pi : ℚ)) (h : s.Workable)

include hpi h

/-- A vehicle moves as its wheels were computed for. -/
theorem bodySpeed_wheelSpeeds (speed : Polar ℚ) : s.bodySpeed (s.wheelSpeeds speed) = speed := by
  have hround := hpi.ne'
  have htrack := h.track.ne'
  obtain ⟨distance, angle⟩ := speed
  rw [wheelSpeeds_eq, bodySpeed, Polar.mk.injEq]
  constructor
  · ring
  · field_simp
    ring

/-- The wheels that a movement asks for are those that make it. -/
theorem wheelSpeeds_bodySpeed (v : Wheels ℚ) : s.wheelSpeeds (s.bodySpeed v) = v := by
  have hround := hpi.ne'
  have htrack := h.track.ne'
  obtain ⟨left, right⟩ := v
  rw [wheelSpeeds_eq, bodySpeed, Wheels.mk.injEq]
  constructor
  · field_simp
    ring
  · field_simp
    ring

/-- The duties that a speed takes before the band is applied produce that speed. -/
theorem speedOf_rawDuties (speed : Polar ℚ) : s.speedOf (s.rawDuties speed) = speed := by
  rw [speedOf_eq, rawDuties_eq, surfaceOf_dutyOf hpi h.leftDiameter h.leftConstant,
    surfaceOf_dutyOf hpi h.rightDiameter h.rightConstant]
  exact bodySpeed_wheelSpeeds hpi h speed

/-- The speed that duties produce takes these duties. -/
theorem rawDuties_speedOf (duties : Wheels ℚ) : s.rawDuties (s.speedOf duties) = duties := by
  rw [rawDuties_eq, speedOf_eq, wheelSpeeds_bodySpeed hpi h,
    dutyOf_surfaceOf hpi h.leftDiameter h.leftConstant,
    dutyOf_surfaceOf hpi h.rightDiameter h.rightConstant]

end Base

/-! ## The band -/

/-- What the band makes of a duty: its magnitude is brought between the ends, and its sign kept. -/
def shaped (s : DriveSettings ℚ) (duty : ℚ) : ℚ :=
  SignType.sign duty * max s.minDuty (min s.maxDuty |duty|)

/-- Exact duties are shaped without a fault. -/
theorem shapeDuty_exact (h : s.Workable) (duty : ℚ) : s.shapeDuty duty = .ok (s.shaped duty) := by
  have hidle : (duty == 0 || !Scalar.isFinite duty) = true ↔ duty = 0 := by
    rw [isFinite_eq, Bool.not_true, Bool.or_false, isZero_iff]
  unfold shapeDuty shaped
  by_cases hzero : duty = 0
  · rw [if_pos (hidle.mpr hzero), hzero, sign_zero, SignType.coe_zero, zero_mul]
  · rw [if_neg (mt hidle.mp hzero), clamp?_of_le h.ordered]
    have hlong : 0 ≤ max s.minDuty (min s.maxDuty |duty|) := h.least.trans (le_max_left ..)
    show Except.ok (if duty < 0 then -|max s.minDuty (min s.maxDuty |duty|)|
      else |max s.minDuty (min s.maxDuty |duty|)|) = _
    rw [abs_of_nonneg hlong]
    rcases lt_or_gt_of_ne hzero with hback | hahead
    · rw [if_pos hback, sign_neg hback, SignType.coe_neg_one, neg_one_mul]
    · rw [if_neg hahead.le.not_gt, sign_pos hahead, SignType.coe_one, one_mul]

omit [PlaneFunctions] in
/-- Shaping changes nothing just where a duty is admitted. -/
theorem shaped_eq_self_iff (h : s.Workable) {duty : ℚ} : s.shaped duty = duty ↔ s.Admits duty := by
  have hbetween : max s.minDuty (min s.maxDuty |duty|) = |duty| ↔
      s.minDuty ≤ |duty| ∧ |duty| ≤ s.maxDuty := by
    constructor
    · intro hsame
      rw [← hsame]
      exact ⟨le_max_left .., max_le h.ordered (min_le_left ..)⟩
    · rintro ⟨hleast, hmost⟩
      rw [min_eq_right hmost, max_eq_right hleast]
  rw [Admits, ← hbetween]
  by_cases hzero : duty = 0
  · simp [shaped, hzero]
  · have hsign : (SignType.sign duty : ℚ) ≠ 0 := by
      intro hnone
      apply hzero
      rw [← sign_mul_abs duty, hnone, zero_mul]
    calc s.shaped duty = duty
        ↔ SignType.sign duty * max s.minDuty (min s.maxDuty |duty|)
            = SignType.sign duty * |duty| := by rw [shaped, sign_mul_abs]
      _ ↔ max s.minDuty (min s.maxDuty |duty|) = |duty| := mul_right_inj' hsign
      _ ↔ duty = 0 ∨ max s.minDuty (min s.maxDuty |duty|) = |duty| := (or_iff_right hzero).symm

/-- What the band makes of a pair of duties. -/
def shapedBoth (s : DriveSettings ℚ) (duties : Wheels ℚ) : Wheels ℚ :=
  ⟨s.shaped duties.left, s.shaped duties.right⟩

/-- So are both of them. -/
theorem duties_exact (h : s.Workable) (speed : Polar ℚ) :
    s.duties speed = .ok (s.shapedBoth (s.rawDuties speed)) := by
  rw [duties, shapeDuty_exact h, shapeDuty_exact h]
  rfl

omit [PlaneFunctions] in
/-- It changes neither just where both are admitted. -/
theorem shapedBoth_eq_self_iff (h : s.Workable) {duties : Wheels ℚ} :
    s.shapedBoth duties = duties ↔ s.AdmitsBoth duties := by
  obtain ⟨left, right⟩ := duties
  rw [shapedBoth, Wheels.mk.injEq, shaped_eq_self_iff h, shaped_eq_self_iff h]
  rfl

/-- A speed comes back from its duties, and duties from their speed, exactly when the band leaves
the duties of both wheels alone. -/
theorem kinematics_invert (hpi : 0 < (pi : ℚ)) (h : s.Workable) :
    (∀ speed, s.speedOf <$> s.duties speed = .ok speed ↔ s.AdmitsBoth (s.rawDuties speed)) ∧
    (∀ wheels, s.duties (s.speedOf wheels) = .ok wheels ↔ s.AdmitsBoth wheels) := by
  constructor
  · intro speed
    rw [← shapedBoth_eq_self_iff h, duties_exact h]
    constructor
    · intro hback
      -- Different duties never produce the same speed.
      have hsame : s.speedOf (s.shapedBoth (s.rawDuties speed)) = speed := Except.ok.inj hback
      rw [← rawDuties_speedOf hpi h (s.shapedBoth (s.rawDuties speed)), hsame]
    · intro hkept
      rw [hkept]
      exact congrArg Except.ok (speedOf_rawDuties hpi h speed)
  · intro wheels
    rw [duties_exact h, rawDuties_speedOf hpi h, Except.ok.injEq, shapedBoth_eq_self_iff h]

/-- A drive with a small wheel on its left, a large one on its right, and a band from ten to eighty
percent. -/
def lopsided : DriveSettings ℚ := ⟨250, 60, 80, 30, 20, 10, 80⟩

omit [PlaneFunctions] in
/-- A speed that takes duties in the band comes back, and so does a pair of duties that has one
wheel at rest.  At a fifth of the speed the band lifts the duty of the large wheel, and the speed
does not come back. -/
theorem lopsided_inverts :
    ∃ _ : PlaneFunctions,
      lopsided.speedOf <$> lopsided.duties (.speed 355 6) = .ok (.speed 355 6) ∧
      lopsided.duties (lopsided.speedOf ⟨0, -25⟩) = .ok ⟨0, -25⟩ ∧
      lopsided.speedOf <$> lopsided.duties (.speed 71 0) ≠ .ok (.speed 71 0) := by
  let plane := PlaneFunctions.onAbscissa
  have hpi : 0 < (pi : ℚ) := by decide +kernel
  have hworks : lopsided.Workable :=
    workable_of_check (toOption_eq_some_iff.mp (by decide +kernel))
  obtain ⟨hspeeds, hduties⟩ := kinematics_invert hpi hworks
  exact ⟨plane, (hspeeds _).mpr (by decide +kernel), (hduties _).mpr (by decide +kernel),
    mt (hspeeds _).mp (by decide +kernel)⟩

end DriveSettings

end MotionControl
