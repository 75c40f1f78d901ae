import MotionControl.Geometry.Pose
import MotionControl.Proofs.Scalar.Exact

/-!
# Wrapped angles

A finite angle is wrapped without any rounding: what is left of it after whole turns is a
double, and so is this one turn further.  An angle between the ends stays as it is, bit for
bit, so that wrapping once is enough.

- `Wrapped`: the doubles in `(-180, 180]`.
- `wrapDegrees_wrapped`: every finite angle is brought there.
- `wrapDegrees_of_wrapped`: an angle that is there is left alone.
- `wrapDegrees_wrapDegrees`: both together, for every double.
- `Wrapped.abs_lt_iff`: which of them are shorter than half a turn.
-/

namespace MotionControl

open Binary64

/-! ## Turns as numbers of smallest doubles -/

/-- Half a turn as a number of smallest doubles. -/
def halfTurn : Nat := magnitude 6333186975989760 (-45)

theorem decode_half_turn : decode 180 = .finite false 6333186975989760 (-45) := rfl

theorem decode_half_turn_back : decode (-180) = .finite true 6333186975989760 (-45) := rfl

theorem decode_turn : decode 360 = .finite false 6333186975989760 (-44) := rfl

theorem signedUnits_half_turn : signedUnits false 6333186975989760 (-45) = halfTurn := rfl

theorem signedUnits_half_turn_back :
    signedUnits true 6333186975989760 (-45) = -(halfTurn : Int) := rfl

theorem magnitude_turn : magnitude 6333186975989760 (-44) = 2 * halfTurn := by
  have hexponent : (-44 : Int) = -45 + 1 := rfl
  rw [hexponent, magnitude_succ _ (by decide), halfTurn]

theorem signedUnits_turn : signedUnits false 6333186975989760 (-44) = 2 * (halfTurn : Int) := by
  rw [signedUnits, if_neg Bool.false_ne_true, magnitude_turn]
  exact Int.natCast_mul ..

theorem halfTurn_pos : 0 < halfTurn := magnitude_pos (by decide) _

/-! ## Wrapping -/

/-- The finite doubles in `(-180, 180]`. -/
structure Wrapped (angle : Float) : Prop where
  finite : angle.isFinite = true
  lower : -180 < angle
  upper : angle ≤ 180

variable {angle : Float} {negative : Bool} {m : Nat} {e : Int}

/-- Wrapped doubles as whole numbers of the smallest double. -/
theorem wrapped_iff_units (h : decode angle = .finite negative m e) :
    Wrapped angle ↔ -(halfTurn : Int) < signedUnits negative m e ∧
      signedUnits negative m e ≤ halfTurn := by
  have hlower := lt_iff_units decode_half_turn_back h
  have hupper := le_iff_units h decode_half_turn
  rw [signedUnits_half_turn_back] at hlower
  rw [signedUnits_half_turn] at hupper
  rw [← hlower, ← hupper]
  exact ⟨fun hw => ⟨hw.lower, hw.upper⟩, fun ⟨hl, hu⟩ => ⟨isFinite_of_decode h, hl, hu⟩⟩

/-- The same for doubles beyond half a turn. -/
theorem lt_half_turn_iff (h : decode angle = .finite negative m e) :
    180 < angle ↔ (halfTurn : Int) < signedUnits negative m e := by
  rw [lt_iff_units decode_half_turn h, signedUnits_half_turn]

/-- The same for half a turn back and beyond. -/
theorem le_half_turn_back_iff (h : decode angle = .finite negative m e) :
    angle ≤ -180 ↔ signedUnits negative m e ≤ -(halfTurn : Int) := by
  rw [le_iff_units h decode_half_turn_back, signedUnits_half_turn_back]

/-- One turn back from an angle between half a turn and a whole one.  What comes out is shorter
than what goes in, so that nothing is rounded. -/
theorem wrapped_sub_turn (h : decode angle = .finite negative m e)
    (hbelow : magnitude m e < 2 * halfTurn) (hgreater : 180 < angle) :
    Wrapped (angle - 360) := by
  rw [lt_half_turn_iff h] at hgreater
  have habs : (signedUnits negative m e).natAbs = magnitude m e := natAbs_signedUnits ..
  have hne : m ≠ 0 := by
    rintro rfl
    rw [signedUnits_zero] at hgreater
    omega
  obtain ⟨negative', m', e', hdecode, hunits⟩ := decode_sub h decode_turn hne (by decide)
    (D := signedUnits negative m e - 2 * halfTurn) (by rw [signedUnits_turn]) (by omega)
    (by omega) (by rw [magnitude_turn]; omega)
  rw [wrapped_iff_units hdecode, hunits]
  omega

/-- One turn ahead, likewise. -/
theorem wrapped_add_turn (h : decode angle = .finite negative m e)
    (hbelow : magnitude m e < 2 * halfTurn) (hless : angle ≤ -180) : Wrapped (angle + 360) := by
  rw [le_half_turn_back_iff h] at hless
  have hpos := halfTurn_pos
  have habs : (signedUnits negative m e).natAbs = magnitude m e := natAbs_signedUnits ..
  have hne : m ≠ 0 := by
    rintro rfl
    rw [signedUnits_zero] at hless
    omega
  obtain ⟨negative', m', e', hdecode, hunits⟩ := decode_add h decode_turn hne (by decide)
    (D := signedUnits negative m e + 2 * halfTurn) (by rw [signedUnits_turn]) (by omega)
    (by omega) (by rw [magnitude_turn]; omega)
  rw [wrapped_iff_units hdecode, hunits]
  omega

/-- How a finite angle is wrapped. -/
theorem wrapDegrees_of_finite (h : angle.isFinite = true) :
    wrapDegrees angle = if 180 < remainder angle 360 then remainder angle 360 - 360
      else if remainder angle 360 ≤ -180 then remainder angle 360 + 360
      else remainder angle 360 := if_pos h

/-- A finite angle is brought into `(-180, 180]`. -/
theorem wrapDegrees_wrapped (h : angle.isFinite = true) : Wrapped (wrapDegrees angle) := by
  obtain ⟨negative, m, e, hangle⟩ := decode_of_isFinite h
  obtain ⟨m', e', hrest, hmagnitude⟩ := decode_remainder hangle decode_turn (by decide)
  have hpos := halfTurn_pos
  have hbelow : magnitude m' e' < 2 * halfTurn := by
    rw [hmagnitude, magnitude_turn]
    exact Nat.mod_lt _ (by omega)
  rw [wrapDegrees_of_finite h]
  by_cases hgreater : 180 < remainder angle 360
  · rw [if_pos hgreater]
    exact wrapped_sub_turn hrest hbelow hgreater
  · rw [if_neg hgreater]
    by_cases hless : remainder angle 360 ≤ -180
    · rw [if_pos hless]
      exact wrapped_add_turn hrest hbelow hless
    · rw [if_neg hless, wrapped_iff_units hrest]
      rw [lt_half_turn_iff hrest] at hgreater
      rw [le_half_turn_back_iff hrest] at hless
      omega

/-- An angle in `(-180, 180]` is left as it is. -/
theorem wrapDegrees_of_wrapped (h : Wrapped angle) : wrapDegrees angle = angle := by
  obtain ⟨negative, m, e, hangle⟩ := decode_of_isFinite h.finite
  obtain ⟨m', e', hrest, hmagnitude⟩ := decode_remainder hangle decode_turn (by decide)
  obtain ⟨hlower, hupper⟩ := (wrapped_iff_units hangle).mp h
  have hpos := halfTurn_pos
  have habs : (signedUnits negative m e).natAbs = magnitude m e := natAbs_signedUnits ..
  have hshort : magnitude m' e' = magnitude m e := by
    rw [hmagnitude, magnitude_turn]
    exact Nat.mod_eq_of_lt (by omega)
  -- Shorter than a turn, the angle is its own remainder, bit for bit.
  obtain ⟨rfl, rfl⟩ :=
    (canonical_of_decode hrest).eq_of_magnitude (canonical_of_decode hangle) hshort
  rw [wrapDegrees_of_finite h.finite, eq_of_decode hrest hangle, if_neg, if_neg]
  · rw [le_half_turn_back_iff hangle]
    omega
  · rw [lt_half_turn_iff hangle]
    omega

/-- Wrapping an angle again changes nothing, not even its bits. -/
theorem wrapDegrees_wrapDegrees (angle : Float) :
    wrapDegrees (wrapDegrees angle) = wrapDegrees angle := by
  cases hfinite : angle.isFinite with
  | true => exact wrapDegrees_of_wrapped (wrapDegrees_wrapped hfinite)
  | false =>
    have hsame : wrapDegrees angle = angle := by
      refine if_neg ?_
      show ¬ angle.isFinite = true
      rw [hfinite]
      exact Bool.false_ne_true
    rw [hsame, hsame]

/-- The only wrapped angle as long as half a turn is half a turn ahead. -/
theorem Wrapped.abs_lt_iff {w : Float} (h : Wrapped w) : w.abs < 180 ↔ w ≠ 180 := by
  obtain ⟨negative, m, e, hw⟩ := decode_of_isFinite h.finite
  obtain ⟨hlower, hupper⟩ := (wrapped_iff_units hw).mp h
  have hpos := halfTurn_pos
  have habs := natAbs_signedUnits negative m e
  rw [lt_iff_units (decode_abs hw) decode_half_turn, signedUnits_half_turn]
  constructor
  · rintro hlt rfl
    obtain ⟨rfl, rfl, rfl⟩ := Decoded.finite.inj (hw.symm.trans decode_half_turn)
    rw [signedUnits_half_turn] at hlt
    omega
  · intro hne
    rw [signedUnits, if_neg Bool.false_ne_true]
    refine lt_of_le_of_ne (by omega) fun heq => hne ?_
    have hsign : negative = false := by
      cases negative with
      | false => rfl
      | true =>
        rw [signedUnits, if_pos rfl] at hlower
        omega
    obtain ⟨rfl, rfl⟩ := (canonical_of_decode hw).eq_of_magnitude
      (canonical_of_decode decode_half_turn) (Int.ofNat.inj heq)
    rw [hsign] at hw
    exact eq_of_decode hw decode_half_turn

end MotionControl
