import MotionControl.Proofs.ExactLoops

/-!
# The shape of a speed ramp

In exact numbers a ramp is odd, and an order or a measured speed that grows never lets it shrink.
The jump at rest, where a least speed sets in, goes the same way.  A ramp without a least speed
leads from the measured speed toward the order, by no more than the acceleration allows.

- `SpeedRamp.reached_eq`: the order, held within reach of the measured speed.
- `SpeedRamp.limited_neg`: a ramp is odd.
- `SpeedRamp.limited_mono`: it is non-decreasing in both.
- `SpeedRamp.limited_mem_uIcc`, `SpeedRamp.abs_limited_sub_le`: a ramp without a least speed.
- `SpeedRamp.limit_is_odd_and_monotone`: all of it, of the ramp that runs.
-/

namespace MotionControl

open Scalar Rational

variable [PlaneFunctions]

namespace SpeedRamp

variable {f : SpeedRamp ℚ}

/-! ## Within reach -/

/-- How far the order may be from the measured speed. -/
def reach (f : SpeedRamp ℚ) : ℚ := f.settings.maxAcceleration * f.period

/-- In a cycle of positive length the speed can change. -/
theorem reach_pos (h : f.settings.check = .ok ()) (hperiod : 0 < f.period) : 0 < f.reach :=
  mul_pos (RampSettings.exact_of_check h).2.2.2 hperiod

omit [PlaneFunctions] in
/-- What the acceleration allows is within reach of the current speed. -/
theorem reached_eq (hperiod : 0 < f.period) (order current bound : ℚ) :
    f.reached order current bound
      = max (current - f.reach) (min (current + f.reach) (saturate (f.cap bound) order)) := by
  calc f.reached order current bound
      = current + max (-f.reach) (min f.reach (saturate (f.cap bound) order - current)) :=
        if_pos hperiod
    _ = _ := by
      rw [← max_add_add_left, ← min_add_add_left, add_sub_cancel, ← sub_eq_add_neg]

/-! ## Both directions -/

/-- It is odd in orders and speeds together. -/
theorem reached_neg (h : f.settings.check = .ok ()) (order current bound : ℚ) :
    f.reached (-order) (-current) bound = -f.reached order current bound := by
  unfold reached
  rw [saturate_neg (cap_nonneg h bound)]
  by_cases hperiod : 0 < f.period
  · have hreach : 0 ≤ f.settings.maxAcceleration * f.period := (reach_pos h hperiod).le
    rw [if_pos hperiod, if_pos hperiod, neg_sub_neg, neg_add, ← saturate_neg hreach, neg_sub]
  · rw [if_neg hperiod, if_neg hperiod]

/-- A ramp does the same in both directions. -/
theorem limited_neg (h : f.settings.check = .ok ()) (order current bound : ℚ) :
    f.limited (-order) (-current) bound = -f.limited order current bound := by
  rw [limited, limited, reached_neg h, raise_neg, saturate_neg (cap_nonneg h bound)]

/-! ## Order -/

omit [PlaneFunctions] in
/-- It grows with the order and with the current speed. -/
theorem reached_mono {order order' current current' : ℚ} (horder : order ≤ order')
    (hcurrent : current ≤ current') (bound : ℚ) :
    f.reached order current bound ≤ f.reached order' current' bound := by
  have hcapped := saturate_mono (f.cap bound) horder
  by_cases hperiod : 0 < f.period
  · rw [reached_eq hperiod, reached_eq hperiod]
    exact max_le_max (sub_le_sub_right hcurrent _)
      (min_le_min (add_le_add_left hcurrent _) hcapped)
  · rw [reached, reached, if_neg hperiod, if_neg hperiod]
    exact hcapped

/-- So does what is let through in the end. -/
theorem limited_mono (h : f.settings.check = .ok ()) {order order' current current' : ℚ}
    (horder : order ≤ order') (hcurrent : current ≤ current') (bound : ℚ) :
    f.limited order current bound ≤ f.limited order' current' bound :=
  saturate_mono _ (raise_mono (RampSettings.exact_of_check h).1
    (reached_mono horder hcurrent bound))

/-! ## Without a least speed -/

section Unraised

variable (h : f.settings.check = .ok ()) (hleast : f.settings.minSpeed = 0) (hperiod : 0 < f.period)

include h hperiod

/-- Between the measured speed and the capped order. -/
theorem reached_mem_uIcc (order current bound : ℚ) :
    f.reached order current bound ∈ Set.uIcc current (saturate (f.cap bound) order) := by
  have hreach := (reach_pos h hperiod).le
  rw [reached_eq hperiod]
  rcases le_total current (saturate (f.cap bound) order) with hle | hle
  · refine Set.mem_uIcc_of_le ?_ ?_
    · exact (le_min (le_add_of_nonneg_right hreach) hle).trans (le_max_right ..)
    · exact max_le ((sub_le_self _ hreach).trans hle) (min_le_right ..)
  · refine Set.mem_uIcc_of_ge ?_ ?_
    · rw [min_eq_right (hle.trans (le_add_of_nonneg_right hreach))]
      exact le_max_right ..
    · exact max_le (sub_le_self _ hreach) ((min_le_right ..).trans hle)

variable (order : ℚ) {current bound : ℚ} (hcurrent : |current| ≤ f.cap bound)

include hleast hcurrent

/-- The cap holds for all between two speeds that it holds for. -/
theorem limited_eq_reached :
    f.limited order current bound = f.reached order current bound := by
  have horder := abs_saturate_le (cap_nonneg h bound) order
  have hwithin : |f.reached order current bound| ≤ f.cap bound := by
    rw [abs_le] at hcurrent horder ⊢
    obtain ⟨hlow, hhigh⟩ := reached_mem_uIcc h hperiod order current bound
    exact ⟨(le_min hcurrent.1 horder.1).trans hlow, hhigh.trans (max_le hcurrent.2 horder.2)⟩
  rw [limited, raise_of_le_abs (hleast.trans_le (abs_nonneg _)), saturate_of_abs_le hwithin]

/-- Without a least speed the result lies between the current speed and the saturated order. -/
theorem limited_mem_uIcc :
    f.limited order current bound ∈ Set.uIcc current (saturate (f.cap bound) order) := by
  rw [limited_eq_reached h hleast hperiod order hcurrent]
  exact reached_mem_uIcc h hperiod order current bound

/-- Without a least speed the change stays within reach. -/
theorem abs_limited_sub_le :
    |f.limited order current bound - current| ≤ f.reach := by
  rw [limited_eq_reached h hleast hperiod order hcurrent, reached, if_pos hperiod,
    add_sub_cancel_left]
  exact abs_saturate_le (reach_pos h hperiod).le _

end Unraised

/-- The ramp never faults, is odd, and is non-decreasing in the order and in the measured speed.
Without a least speed, and from a measured speed within the cap, it lets through a speed between
the measured one and the capped order, and no further away than the acceleration allows. -/
theorem limit_is_odd_and_monotone (h : f.settings.check = .ok ()) (bound : ℚ) :
    ∃ limited : ℚ → ℚ → ℚ,
      (∀ order current, f.limit order current bound = .ok (limited order current)) ∧
      (∀ order current, limited (-order) (-current) = -limited order current) ∧
      (∀ current, Monotone fun order => limited order current) ∧
      (∀ order, Monotone fun current => limited order current) ∧
      (f.settings.minSpeed = 0 → 0 < f.period →
        ∀ order current, |current| ≤ min f.settings.maxSpeed |bound| →
          limited order current
            ∈ Set.uIcc current (saturate (min f.settings.maxSpeed |bound|) order) ∧
          |limited order current - current| ≤ f.settings.maxAcceleration * f.period) := by
  refine ⟨fun order current => f.limited order current bound, ?_, ?_, ?_, ?_, ?_⟩
  · exact fun order current => limit_exact h order current bound
  · exact fun order current => limited_neg h order current bound
  · exact fun current _ _ horder => limited_mono h horder le_rfl bound
  · exact fun order _ _ hcurrent => limited_mono h le_rfl hcurrent bound
  · intro hleast hperiod order current hcurrent
    exact ⟨limited_mem_uIcc h hleast hperiod order hcurrent,
      abs_limited_sub_le h hleast hperiod order hcurrent⟩

/-- A ramp without a least speed that gains five a cycle. -/
def gentle : SpeedRamp ℚ := ⟨⟨0, 100, 50⟩, 1 / 10⟩

omit [PlaneFunctions] in
/-- An order of a hundred, under a bound of forty and from a measured speed of twelve. -/
theorem gentle_is_odd_and_monotone :
    ∃ (_ : PlaneFunctions) (limited : ℚ → ℚ → ℚ),
      gentle.limit 100 12 (-40) = .ok (limited 100 12) ∧
      gentle.limit (-100) (-12) (-40) = .ok (-limited 100 12) ∧
      limited 20 12 ≤ limited 100 12 ∧ limited 100 11 ≤ limited 100 12 ∧
      limited 100 12 ∈ Set.uIcc 12 40 ∧ |limited 100 12 - 12| ≤ 5 := by
  let plane := PlaneFunctions.onAbscissa
  have hchecked : gentle.settings.check = .ok () :=
    Outcome.toOption_eq_some_iff.mp (by decide +kernel)
  have hcapped : saturate (min gentle.settings.maxSpeed |-40|) 100 = 40 := by decide +kernel
  have hgain : gentle.settings.maxAcceleration * gentle.period = 5 := by decide +kernel
  obtain ⟨limited, hlimit, hodd, horder, hcurrent, hplain⟩ :=
    limit_is_odd_and_monotone hchecked (-40)
  obtain ⟨hbetween, hnear⟩ := hplain rfl (by decide +kernel) 100 12 (by decide +kernel)
  rw [hcapped] at hbetween
  rw [hgain] at hnear
  refine ⟨plane, limited, hlimit 100 12, ?_, horder 12 (by decide +kernel),
    hcurrent 100 (by decide +kernel), hbetween, hnear⟩
  rw [hlimit, hodd]

end SpeedRamp

end MotionControl
