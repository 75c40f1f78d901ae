import MotionControl.Proofs.Geometry.Turns

/-!
# Displacements driven backwards

A displacement is reversed by hand: its bearing is moved by half a turn to one side or the other,
and not wrapped.  That is the wrapped half turn for every bearing but one.  What lies straight ahead
comes to lie at `-180`, which no wrapped angle is, and what lies straight behind ends there when it
is reversed twice.

- `Polar.reverse_eq_displacement`: away from straight ahead, reversing is the wrapped half turn.
- `Polar.reverse_angle_mem_iff`, `Polar.reverse_reverse_eq_iff`: the two exceptions.
- `Polar.reverse_turns_half`: what reversing does to every displacement.
-/

namespace MotionControl

open Scalar Rational

namespace Polar

variable [PlaneFunctions] {v : Polar ℚ}

/-- Forwards and backwards, the bearing is half a turn away. -/
theorem reverse_angle_sub_mem (v : Polar ℚ) : v.reverse.angle - (v.angle + 180) ∈ wholeTurns := by
  rw [reverse_angle]
  split
  · rw [sub_self]
    exact zero_mem wholeTurns
  · exact mem_wholeTurns_iff.mpr ⟨-1, by push_cast; ring⟩

/-- The bearing stays in the range, unless it was straight ahead. -/
theorem reverse_angle_mem_iff (h : v.angle ∈ Set.Ioc (-180) 180) :
    v.reverse.angle ∈ Set.Ioc (-180) 180 ↔ v.angle ≠ 0 := by
  obtain ⟨hlow, hhigh⟩ := h
  rw [reverse_angle, Set.mem_Ioc]
  split
  case isTrue hback =>
    constructor
    · intro _
      exact hback.ne
    · intro _
      constructor <;> linarith
  case isFalse hahead =>
    constructor
    · rintro ⟨hmost, -⟩ hzero
      linarith
    · intro hne
      have hpos : 0 < v.angle := lt_of_le_of_ne (not_lt.mp hahead) (Ne.symm hne)
      constructor <;> linarith

/-- Away from straight ahead, reversing is the half turn that is wrapped like any angle. -/
theorem reverse_eq_displacement (h : v.angle ∈ Set.Ioc (-180) 180) (hne : v.angle ≠ 0) :
    v.reverse = displacement (-v.distance) (v.angle + 180) := by
  have hwrap : wrapDegrees (v.angle + 180) = v.reverse.angle := by
    rw [wrapDegrees_eq_iff]
    refine ⟨(reverse_angle_mem_iff h).mpr hne, ?_⟩
    rw [← neg_sub]
    exact neg_mem (reverse_angle_sub_mem v)
  rw [displacement, hwrap]
  rfl

/-- Straight ahead becomes half a turn back, which is outside the range. -/
theorem reverse_angle_of_ahead (h : v.angle = 0) : v.reverse.angle = -180 := by
  rw [reverse_angle, h, if_neg (lt_irrefl 0), zero_sub]

/-! ## Reversing twice -/

theorem reverse_reverse_distance (v : Polar ℚ) : v.reverse.reverse.distance = v.distance :=
  neg_neg v.distance

/-- Turning twice restores the bearing, unless it was half a turn. -/
theorem reverse_reverse_angle (h : v.angle ∈ Set.Ioc (-180) 180) :
    v.reverse.reverse.angle = if v.angle = 180 then -180 else v.angle := by
  obtain ⟨hlow, hhigh⟩ := h
  rw [reverse_angle, reverse_angle]
  rcases lt_or_ge v.angle 0 with hside | hside
  · have hahead : ¬ v.angle + 180 < 0 := by linarith
    have hne : v.angle ≠ 180 := by linarith
    rw [if_pos hside, if_neg hahead, if_neg hne, add_sub_cancel_right]
  · rw [if_neg hside.not_gt]
    rcases hhigh.eq_or_lt with heq | hlt
    · rw [heq, sub_self, if_neg (lt_irrefl 0), if_pos rfl, zero_sub]
    · have hback : v.angle - 180 < 0 := by linarith
      rw [if_pos hback, if_neg hlt.ne, sub_add_cancel]

/-- So it does with the whole displacement. -/
theorem reverse_reverse_eq_iff (h : v.angle ∈ Set.Ioc (-180) 180) :
    v.reverse.reverse = v ↔ v.angle ≠ 180 := by
  have hangle := reverse_reverse_angle h
  constructor
  · intro hsame heq
    rw [hsame, if_pos heq, heq] at hangle
    norm_num at hangle
  · intro hne
    rw [if_neg hne] at hangle
    exact congrArg₂ Polar.mk (reverse_reverse_distance v) hangle

/-- Reversing negates the distance and moves the bearing by half a turn.  The outcome is wrapped,
except that straight ahead becomes `-180` instead of `180`.  Reversing twice undoes it, except that
straight behind comes back as `-180`, which is the same heading and another displacement. -/
theorem reverse_turns_half (h : v.angle ∈ Set.Ioc (-180) 180) :
    v.reverse.distance = -v.distance ∧
    v.reverse.angle - (v.angle + 180) ∈ wholeTurns ∧
    (v.reverse.angle ∈ Set.Ioc (-180) 180 ↔ v.angle ≠ 0) ∧
    (v.angle ≠ 0 → v.reverse = displacement (-v.distance) (v.angle + 180)) ∧
    (v.angle = 0 → v.reverse.angle = -180) ∧
    (v.reverse.reverse = v ↔ v.angle ≠ 180) ∧
    (v.angle = 180 → v.reverse.reverse = ⟨v.distance, -180⟩) := by
  refine ⟨rfl, reverse_angle_sub_mem v, reverse_angle_mem_iff h, reverse_eq_displacement h,
    reverse_angle_of_ahead, reverse_reverse_eq_iff h, ?_⟩
  intro hbehind
  have hangle := reverse_reverse_angle h
  rw [if_pos hbehind] at hangle
  exact congrArg₂ Polar.mk (reverse_reverse_distance v) hangle

omit [PlaneFunctions] in
/-- A bearing to the left is reversed to one on the right, and back. -/
theorem sideways_is_reversed :
    ∃ _ : PlaneFunctions,
      (⟨50, 120⟩ : Polar ℚ).angle ∈ Set.Ioc (-180) 180 ∧
      (⟨50, 120⟩ : Polar ℚ).reverse = displacement (-50) 300 ∧
      (⟨50, 120⟩ : Polar ℚ).reverse.angle ∈ Set.Ioc (-180) 180 ∧
      (⟨50, 120⟩ : Polar ℚ).reverse.reverse = ⟨50, 120⟩ := by
  let plane := PlaneFunctions.onAbscissa
  have hside : (⟨50, 120⟩ : Polar ℚ).angle ∈ Set.Ioc (-180) 180 := by
    constructor <;> norm_num
  obtain ⟨-, -, hrange, hwrapped, -, htwice, -⟩ := reverse_turns_half hside
  have hbearing : (120 : ℚ) + 180 = 300 := by norm_num
  have hahead : (120 : ℚ) ≠ 0 := by norm_num
  have hbehind : (120 : ℚ) ≠ 180 := by norm_num
  refine ⟨plane, hside, ?_, hrange.mpr hahead, htwice.mpr hbehind⟩
  rw [← hbearing]
  exact hwrapped hahead

omit [PlaneFunctions] in
/-- Straight ahead is not reversed into `(-180, 180]`, and straight behind does not come back. -/
theorem straight_is_not_reversed :
    ∃ _ : PlaneFunctions,
      (⟨100, 0⟩ : Polar ℚ).angle ∈ Set.Ioc (-180) 180 ∧
      (⟨100, 0⟩ : Polar ℚ).reverse.angle ∉ Set.Ioc (-180) 180 ∧
      (⟨100, 180⟩ : Polar ℚ).angle ∈ Set.Ioc (-180) 180 ∧
      (⟨100, 180⟩ : Polar ℚ).reverse.reverse ≠ ⟨100, 180⟩ := by
  let plane := PlaneFunctions.onAbscissa
  have hahead : (⟨100, 0⟩ : Polar ℚ).angle ∈ Set.Ioc (-180) 180 := by
    constructor <;> norm_num
  have hbehind : (⟨100, 180⟩ : Polar ℚ).angle ∈ Set.Ioc (-180) 180 := by
    constructor <;> norm_num
  refine ⟨plane, hahead, ?_, hbehind, ?_⟩
  · rw [reverse_angle_mem_iff hahead]
    exact not_not.mpr rfl
  · rw [Ne, reverse_reverse_eq_iff hbehind]
    exact not_not.mpr rfl

end Polar

end MotionControl
