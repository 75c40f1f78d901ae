import MotionControl.Engine.Drive
import MotionControl.Proofs.Scalar.Signs
import MotionControl.Proofs.Settings

/-!
# Duties of a checked drive

The duty of a wheel is brought into the band of its motor.  A drive whose settings passed their
check has such a band, with one gap: a lower end that is not a number passes too, since no
comparison refuses it, and then every wheel that is to move faults.

- `Idle`: duties that stop a wheel.
- `DriveSettings.InBand`, `DriveSettings.Shaped`: what is made of a raw duty.
- `DriveSettings.Band`: the ends of the band, as the check has them; `DriveSettings.Band.clamp`.
- `DriveSettings.shapeDuty_shaped`: one wheel of a drive that has a band.
- `DriveSettings.checked_duties`: the duties of a checked drive, at every speed.
-/

namespace MotionControl

open Scalar Outcome Binary64

/-! ## What a wheel is sent -/

/-- A duty of zero, or one that is not finite.  It stops a wheel. -/
def Idle {α : Type} [Scalar α] (raw : α) : Prop := (raw == 0) = true ∨ isFinite raw = false

namespace DriveSettings

section Shapes

variable {α : Type} [Scalar α]

/-- A duty on the side of a raw one, within the band, and the raw one itself if the band has it. -/
structure InBand (s : DriveSettings α) (raw duty : α) : Prop where
  side : 0 < raw ∧ 0 < duty ∨ raw < 0 ∧ duty < 0
  least : s.minDuty ≤ abs duty
  most : abs duty ≤ s.maxDuty
  kept : s.minDuty ≤ abs raw → abs raw ≤ s.maxDuty → duty = raw

/-- What a raw duty becomes. -/
structure Shaped (s : DriveSettings α) (raw duty : α) : Prop where
  idle : Idle raw → duty = 0
  moving : ¬ Idle raw → s.InBand raw duty

/-- A band of duties, from zero or more up to a positive end. -/
structure Band (s : DriveSettings α) : Prop where
  nonneg : 0 ≤ s.minDuty
  ordered : s.minDuty ≤ s.maxDuty
  pos : 0 < s.maxDuty
  bounded : s.maxDuty ≤ 100

variable {s : DriveSettings α} {raw : α}

/-- The test for a duty that is not shaped. -/
theorem idle_iff : (raw == 0 || !isFinite raw) = true ↔ Idle raw := by
  rw [Bool.or_eq_true, Bool.not_eq_true', Idle]

theorem shapeDuty_of_idle (h : Idle raw) : s.shapeDuty raw = .ok 0 := if_pos (idle_iff.mpr h)

/-- Any other duty is brought into the band and keeps its sign. -/
theorem shapeDuty_of_not_idle (h : ¬ Idle raw) :
    s.shapeDuty raw
      = (orFault .clampBounds (clamp? s.minDuty s.maxDuty (abs raw))).bind fun magnitude =>
          .ok (copySign magnitude raw) :=
  if_neg (mt idle_iff.mp h)

/-- Without a band every wheel that is to move faults. -/
theorem shapeDuty_of_no_band (hband : ¬ s.minDuty ≤ s.maxDuty) (h : ¬ Idle raw) :
    s.shapeDuty raw = .error .clampBounds := by
  rw [shapeDuty_of_not_idle h, clamp?, if_neg hband]
  rfl

/-- One wheel that faults makes the drive fault. -/
theorem duties_of_no_band (hband : ¬ s.minDuty ≤ s.maxDuty) {speed : Polar α}
    (h : ¬ (Idle (s.rawDuties speed).left ∧ Idle (s.rawDuties speed).right)) :
    s.duties speed = .error .clampBounds := by
  by_cases hleft : Idle (s.rawDuties speed).left
  · have hright : ¬ Idle (s.rawDuties speed).right := fun hright => h ⟨hleft, hright⟩
    rw [duties, shapeDuty_of_idle hleft, ok_bind, shapeDuty_of_no_band hband hright]
    rfl
  · rw [duties, shapeDuty_of_no_band hband hleft]
    rfl

end Shapes

/-! ## Checked drives -/

variable {s : DriveSettings Float}

/-- A lower end that is a number belongs to a band. -/
theorem band_of_check (h : s.check = .ok ()) (hnumber : isNaN s.minDuty = false) : s.Band := by
  obtain ⟨_, -, h⟩ := bind_eq_ok_iff.mp h
  obtain ⟨_, -, h⟩ := bind_eq_ok_iff.mp h
  obtain ⟨_, -, h⟩ := bind_eq_ok_iff.mp h
  obtain ⟨_, -, h⟩ := bind_eq_ok_iff.mp h
  obtain ⟨_, -, h⟩ := bind_eq_ok_iff.mp h
  obtain ⟨_, hmax, hmin⟩ := bind_eq_ok_iff.mp h
  obtain ⟨hmax, hnonzero⟩ := Bool.and_eq_true_iff.mp (require_eq_ok_iff.mp hmax)
  obtain ⟨hmax, hbounded⟩ := Bool.and_eq_true_iff.mp hmax
  obtain ⟨hmin, hordered⟩ := Bool.and_eq_true_iff.mp (require_eq_ok_iff.mp hmin)
  rw [Bool.not_eq_true', ← Bool.not_eq_true] at hnonzero
  rw [Bool.not_eq_true', decide_eq_false_iff_not] at hmin hordered
  have hmax := of_decide_eq_true hmax
  have hbounded := of_decide_eq_true hbounded
  have hfinite : s.maxDuty.isFinite = true := isFinite_of_between rfl rfl hmax hbounded
  have hpos : 0 < s.maxDuty :=
    (sided hfinite hnonzero).resolve_right (OrderedScalar.not_lt_of_le hmax)
  exact ⟨OrderedScalar.le_of_not_lt hnumber OrderedScalar.isNaN_zero hmin,
    OrderedScalar.le_of_not_lt (isNaN_of_isFinite hfinite) hnumber hordered, hpos, hbounded⟩

/-- What a band makes of the magnitude of a wheel that is to move. -/
theorem Band.clamp (hband : s.Band) {v : Float} (hpos : 0 < v) (hfinite : v.isFinite = true) :
    ∃ m, clamp? s.minDuty s.maxDuty v = some m ∧ 0 < m ∧ m.isFinite = true ∧
      s.minDuty ≤ m ∧ m ≤ s.maxDuty ∧ (s.minDuty ≤ v → v ≤ s.maxDuty → m = v) := by
  obtain ⟨hmin, hmax⟩ := isNaN_of_le hband.ordered
  obtain ⟨m, hclamp, hleast, hmost, hplace, hkept⟩ :=
    OrderedScalar.clamp?_between hmin hmax (isNaN_of_isFinite hfinite) hband.ordered
  have hlong : 0 < m := by
    rcases hplace with hlt | rfl | rfl
    · exact OrderedScalar.lt_trans hpos hlt (isNaN_of_le hmost).1
    · exact hband.pos
    · exact hpos
  have hbetween : m.isFinite = true :=
    isFinite_of_between rfl rfl (OrderedScalar.le_trans hband.nonneg hleast)
      (OrderedScalar.le_trans hmost hband.bounded)
  exact ⟨m, hclamp, hlong, hbetween, hleast, hmost, hkept⟩

theorem shapeDuty_of_band (hband : s.Band) {raw : Float} (hmoving : ¬ Idle raw) :
    ∃ duty, s.shapeDuty raw = .ok duty ∧ s.InBand raw duty := by
  obtain ⟨hnonzero, hfinite⟩ := not_or.mp hmoving
  have hfinite : raw.isFinite = true := Bool.eq_true_of_not_eq_false hfinite
  have hsides := sided hfinite hnonzero
  obtain ⟨m, hclamp, hpos, hbetween, hleast, hmost, hkept⟩ :=
    hband.clamp (zero_lt_abs hfinite hsides) (isFinite_abs hfinite)
  have habs : Scalar.abs (Scalar.copySign m raw) = m := abs_copySign hpos hbetween hfinite
  obtain ⟨hahead, hback⟩ := copySign_side hpos hbetween hfinite
  refine ⟨Scalar.copySign m raw, ?_, ?_, ?_, ?_, fun hlow hhigh => ?_⟩
  · rw [shapeDuty_of_not_idle hmoving, show clamp? s.minDuty s.maxDuty (Scalar.abs raw) = some m
      from hclamp]
    rfl
  · exact hsides.imp (fun hside => ⟨hside, hahead hside⟩) (fun hside => ⟨hside, hback hside⟩)
  · rw [habs]
    exact hleast
  · rw [habs]
    exact hmost
  · rw [hkept hlow hhigh]
    exact copySign_abs hfinite

/-- A duty within a band is always shaped. -/
theorem shapeDuty_shaped (hband : s.Band) (raw : Float) :
    ∃ duty, s.shapeDuty raw = .ok duty ∧ s.Shaped raw duty := by
  by_cases hidle : Idle raw
  · exact ⟨0, shapeDuty_of_idle hidle, fun _ => rfl, fun hmoving => absurd hidle hmoving⟩
  · obtain ⟨duty, hduty, hwithin⟩ := shapeDuty_of_band hband hidle
    exact ⟨duty, hduty, fun hrest => absurd hrest hidle, fun _ => hwithin⟩

/-- The duties of a checked drive at a speed of any kind: each wheel is sent what becomes of its raw
duty.  If the lower end of the band is not a number, all that the drive answers is that both wheels
are idle. -/
theorem checked_duties (h : s.check = .ok ()) (speed : Polar Float) :
    (isNaN s.minDuty = false →
      ∃ wheels, s.duties speed = .ok wheels ∧
        s.Shaped (s.rawDuties speed).left wheels.left ∧
        s.Shaped (s.rawDuties speed).right wheels.right) ∧
    (isNaN s.minDuty = true →
      (Idle (s.rawDuties speed).left ∧ Idle (s.rawDuties speed).right →
        s.duties speed = .ok .zero) ∧
      (¬ (Idle (s.rawDuties speed).left ∧ Idle (s.rawDuties speed).right) →
        s.duties speed = .error .clampBounds)) := by
  refine ⟨fun hnumber => ?_, fun hnan => ⟨fun hidle => ?_, fun hidle => ?_⟩⟩
  · have hband := band_of_check h hnumber
    obtain ⟨left, hleft, hshaped⟩ := shapeDuty_shaped hband (s.rawDuties speed).left
    obtain ⟨right, hright, hshaped'⟩ := shapeDuty_shaped hband (s.rawDuties speed).right
    refine ⟨⟨left, right⟩, ?_, hshaped, hshaped'⟩
    simp only [duties, hleft, hright, ok_bind]
  · rw [duties, shapeDuty_of_idle hidle.1, shapeDuty_of_idle hidle.2]
    rfl
  · have hnone : ¬ s.minDuty ≤ s.maxDuty := by
      intro hle
      rw [show isNaN s.minDuty = false from (isNaN_of_le hle).1] at hnan
      cases hnan
    exact duties_of_no_band hnone hidle

/-- A drive with a band from five to eighty percent. -/
def banded : DriveSettings Float := ⟨250, 60, 60, 30, 30, 5, 80⟩

/-- The same without a lower end. -/
def unbanded : DriveSettings Float := { banded with minDuty := nan }

/-- Ahead at a hundred the band has the raw duty, and a speed that is not a number stops.  Without
a lower end the drive still stands. -/
theorem banded_moves :
    (∃ wheels, banded.duties (.speed 100 0) = .ok wheels ∧ 0 < wheels.left ∧
      5 ≤ Scalar.abs wheels.left ∧ Scalar.abs wheels.left ≤ 80 ∧
      wheels.left = (banded.rawDuties (.speed 100 0)).left) ∧
    (∃ wheels, banded.duties (.speed nan 0) = .ok wheels ∧ wheels.left = 0 ∧ wheels.right = 0) ∧
    unbanded.duties (.speed 0 0) = .ok .zero := by
  have hchecked : banded.check = .ok () := toOption_eq_some_iff.mp (by decide +kernel)
  have hchecked' : unbanded.check = .ok () := toOption_eq_some_iff.mp (by decide +kernel)
  have hmoving : ¬ Idle (banded.rawDuties (.speed 100 0)).left :=
    idle_iff.not.mp (by decide +kernel)
  obtain ⟨wheels, hwheels, hshaped, -⟩ :=
    (checked_duties hchecked (.speed 100 0)).1 (by decide +kernel)
  obtain ⟨stopped, hstopped, hleft, hright⟩ :=
    (checked_duties hchecked (.speed nan 0)).1 (by decide +kernel)
  have hband := hshaped.moving hmoving
  have hahead := hband.side.resolve_right fun hback => absurd hback.1 (by decide +kernel)
  refine ⟨⟨wheels, hwheels, hahead.2, hband.least, hband.most,
    hband.kept (by decide +kernel) (by decide +kernel)⟩, ⟨stopped, hstopped,
    hleft.idle (idle_iff.mp (by decide +kernel)),
    hright.idle (idle_iff.mp (by decide +kernel))⟩, ?_⟩
  exact ((checked_duties hchecked' (.speed 0 0)).2 (by decide +kernel)).1
    ⟨idle_iff.mp (by decide +kernel), idle_iff.mp (by decide +kernel)⟩

/-- Ahead at a hundred it faults, though its settings passed their check. -/
theorem unbanded_faults :
    unbanded.check = .ok () ∧ unbanded.duties (.speed 100 0) = .error .clampBounds := by
  have hmoving : ¬ Idle (unbanded.rawDuties (.speed 100 0)).left :=
    idle_iff.not.mp (by decide +kernel)
  exact ⟨toOption_eq_some_iff.mp (by decide +kernel),
    duties_of_no_band (by decide +kernel) fun hidle => hmoving hidle.1⟩

end DriveSettings

end MotionControl
