import MotionControl.Proofs.Ramp.Shape

/-!
# Where a speed ramp leads

An axis that tracks what its ramp lets through has that speed in the next cycle.  In exact numbers
such an axis settles.  Each cycle brings it nearer to its order by what the acceleration allows,
and a least speed sets in after that.  So an axis that has to pass through rest, and whose
acceleration in one cycle is short of the least speed, is lifted back in every cycle and never
comes to rest.

- `SpeedRamp.tracked`: the speeds of the axis; `SpeedRamp.Settles`: they come to one, and stay.
- `SpeedRamp.goal`: the speed that an order asks for; `SpeedRamp.least`: the slowest but rest.
- `Nears`: a cycle nearer to a speed, or all the way; `Nears.trans`: and several cycles.
- `SpeedRamp.HeldUp`: the axis cannot pass through rest.
- `SpeedRamp.tracked_settles`: where the axis settles.
-/

namespace MotionControl

open Scalar Outcome Rational

/-! ## Speeds that come nearer -/

/-- A speed follows another one nearer to a goal by a gain, or all the way. -/
structure Nears (gain goal v w : ℚ) : Prop where
  above : min (v + gain) goal ≤ w
  below : w ≤ max (v - gain) goal

namespace Nears

variable {gain gain' goal u v w : ℚ}

theorem refl (goal v : ℚ) : Nears 0 goal v v where
  above := by
    rw [add_zero]
    exact min_le_left ..
  below := by
    rw [sub_zero]
    exact le_max_left ..

/-- The gains of cycles one after another add up. -/
theorem trans (h : Nears gain goal u v) (h' : Nears gain' goal v w) (hgain : 0 ≤ gain') :
    Nears (gain + gain') goal u w where
  above :=
    calc min (u + (gain + gain')) goal
        ≤ min (u + gain + gain') (min (goal + gain') goal) :=
          le_min (add_assoc u gain gain' ▸ min_le_left ..)
            (min_le_of_right_le (le_min (le_add_of_nonneg_right hgain) le_rfl))
      _ = min (min (u + gain) goal + gain') goal := by rw [← min_assoc, min_add_add_right]
      _ ≤ min (v + gain') goal := min_le_min (add_le_add_left h.above _) le_rfl
      _ ≤ w := h'.above
  below :=
    calc w ≤ max (v - gain') goal := h'.below
      _ ≤ max (max (u - gain) goal - gain') goal := max_le_max (sub_le_sub_right h.below _) le_rfl
      _ = max (u - gain - gain') (max (goal - gain') goal) := by
          rw [← max_assoc, max_sub_sub_right]
      _ ≤ max (u - (gain + gain')) goal :=
          max_le (sub_sub u gain gain' ▸ le_max_left ..)
            (le_max_of_le_right (max_le (sub_le_self _ hgain) le_rfl))

/-- A gain that covers the whole distance leads to the goal. -/
theorem eq_goal (h : Nears gain goal v w) (hfar : |goal - v| ≤ gain) : w = goal := by
  obtain ⟨hlow, hhigh⟩ := abs_le.mp hfar
  refine le_antisymm (h.below.trans_eq (max_eq_right ?_))
    ((min_eq_right ?_).symm.trans_le h.above)
  · linarith
  · linarith

end Nears

namespace SpeedRamp

/-! ## Tracking -/

/-- The speeds of an axis that tracks the ramp, cycle after cycle. -/
def tracked {α : Type} [Scalar α] (f : SpeedRamp α) (order bound start : α) :
    ℕ → Except Fault α
  | 0 => .ok start
  | n + 1 => (f.tracked order bound start n).bind fun current => f.limit order current bound

/-- From some cycle on the axis has one speed. -/
def Settles {α : Type} [Scalar α] (f : SpeedRamp α) (order bound start speed : α) : Prop :=
  ∃ first, ∀ n, first ≤ n → f.tracked order bound start n = .ok speed

section Fixed

variable {α : Type} [Scalar α] {f : SpeedRamp α} {order bound start speed : α}

/-- A speed that a cycle does not change stays for ever. -/
theorem tracked_of_fixed (h : f.limit order start bound = .ok start) (n : ℕ) :
    f.tracked order bound start n = .ok start := by
  induction n with
  | zero => rfl
  | succ n ih =>
    rw [tracked, ih]
    exact h

/-- So the axis does not settle at another one. -/
theorem not_settles_of_fixed (h : f.limit order start bound = .ok start) (hne : start ≠ speed) :
    ¬ f.Settles order bound start speed := by
  rintro ⟨first, hfirst⟩
  have hlast := hfirst first le_rfl
  rw [tracked_of_fixed h, Except.ok.injEq] at hlast
  exact hne hlast

end Fixed

/-- The slowest speed that the ramp lets through, but rest. -/
def least (f : SpeedRamp ℚ) (bound : ℚ) : ℚ := min (f.cap bound) f.settings.minSpeed

/-- The speed that an order asks for: within the cap, and no slower than the least speed. -/
def goal (f : SpeedRamp ℚ) (order bound : ℚ) : ℚ :=
  SignType.sign (saturate (f.cap bound) order)
    * min (f.cap bound) (max |saturate (f.cap bound) order| f.settings.minSpeed)

/-- The axis would have to pass through rest, but in one cycle it can neither reach it nor come
below the least speed. -/
structure HeldUp (f : SpeedRamp ℚ) (order bound start : ℚ) : Prop where
  slow : f.reach < f.least bound
  away : f.reach < |start|
  against : start * saturate (f.cap bound) order ≤ 0

/-- The speeds in exact numbers. -/
def speeds (f : SpeedRamp ℚ) (order bound start : ℚ) : ℕ → ℚ
  | 0 => start
  | n + 1 => f.limited order (f.speeds order bound start n) bound

section Runs

variable {f : SpeedRamp ℚ} {order bound start goal : ℚ}

/-- Cycles after cycles begin where these have led. -/
theorem speeds_add (m n : ℕ) :
    f.speeds order bound start (m + n) = f.speeds order bound (f.speeds order bound start m) n := by
  induction n with
  | zero => rfl
  | succ n ih => exact congrArg (f.limited order · bound) ih

/-- What every cycle gains adds up. -/
theorem nears_speeds (hreach : 0 ≤ f.reach)
    (h : ∀ n, Nears f.reach goal (f.speeds order bound start n)
      (f.speeds order bound start (n + 1)))
    (n : ℕ) : Nears (n * f.reach) goal start (f.speeds order bound start n) := by
  induction n with
  | zero =>
    rw [Nat.cast_zero, zero_mul]
    exact .refl goal start
  | succ n ih =>
    rw [Nat.cast_succ, add_one_mul]
    exact ih.trans (h n) hreach

/-- Speeds that come nearer in every cycle arrive. -/
theorem exists_speeds_eq (hreach : 0 < f.reach)
    (h : ∀ n, Nears f.reach goal (f.speeds order bound start n)
      (f.speeds order bound start (n + 1))) :
    ∃ first, ∀ n, first ≤ n → f.speeds order bound start n = goal := by
  obtain ⟨first, hfirst⟩ := exists_nat_ge (|goal - start| / f.reach)
  refine ⟨first, fun n hn => (nears_speeds hreach.le h n).eq_goal ?_⟩
  calc |goal - start| ≤ first * f.reach := (div_le_iff₀ hreach).mp hfirst
    _ ≤ n * f.reach := mul_le_mul_of_nonneg_right (Nat.cast_le.mpr hn) hreach.le

end Runs

variable [PlaneFunctions] {f : SpeedRamp ℚ} {order bound start v : ℚ}

/-- A checked ramp answers in every cycle. -/
theorem tracked_exact (h : f.settings.check = .ok ()) (order bound start : ℚ) (n : ℕ) :
    f.tracked order bound start n = .ok (f.speeds order bound start n) := by
  induction n with
  | zero => rfl
  | succ n ih =>
    rw [tracked, ih]
    exact limit_exact h ..

/-- Settling is a matter of the speeds alone. -/
theorem settles_of_speeds (h : f.settings.check = .ok ())
    (hspeeds : ∃ first, ∀ n, first ≤ n → f.speeds order bound start n = v) :
    f.Settles order bound start v := by
  obtain ⟨first, hfirst⟩ := hspeeds
  refine ⟨first, fun n hn => ?_⟩
  rw [tracked_exact h, hfirst n hn]

/-- An axis settles where it would settle from a later cycle. -/
theorem settles_of_later (h : f.settings.check = .ok ()) (m : ℕ)
    (hlater : f.Settles order bound (f.speeds order bound start m) v) :
    f.Settles order bound start v := by
  obtain ⟨first, hfirst⟩ := hlater
  refine ⟨m + first, fun n hn => ?_⟩
  obtain ⟨rest, rfl⟩ := Nat.exists_eq_add_of_le (Nat.le_of_add_right_le hn)
  rw [tracked_exact h, speeds_add, ← tracked_exact h]
  exact hfirst rest (Nat.le_of_add_le_add_left hn)

/-! ## The other direction -/

/-- Orders and speeds in the other direction lead to the opposite speeds. -/
theorem speeds_neg (h : f.settings.check = .ok ()) (order bound start : ℚ) (n : ℕ) :
    f.speeds (-order) bound (-start) n = -f.speeds order bound start n := by
  induction n with
  | zero => rfl
  | succ n ih => rw [speeds, ih, limited_neg h, speeds]

/-- So it is enough to know where the opposite axis settles. -/
theorem Settles.of_neg (h : f.settings.check = .ok ())
    (hmirrored : f.Settles (-order) bound (-start) (-v)) : f.Settles order bound start v := by
  obtain ⟨first, hfirst⟩ := hmirrored
  refine ⟨first, fun n hn => ?_⟩
  have hn := hfirst n hn
  rw [tracked_exact h, speeds_neg h, Except.ok.injEq, neg_inj] at hn
  rw [tracked_exact h, hn]

/-- The goal of the opposite order is the opposite goal. -/
theorem goal_neg (h : f.settings.check = .ok ()) (order bound : ℚ) :
    f.goal (-order) bound = -f.goal order bound := by
  rw [goal, saturate_neg (cap_nonneg h bound), Left.sign_neg, abs_neg, SignType.coe_neg, neg_mul,
    goal]

/-- The opposite axis is held up as well. -/
theorem HeldUp.neg (h : f.settings.check = .ok ()) (hheld : f.HeldUp order bound start) :
    f.HeldUp (-order) bound (-start) where
  slow := hheld.slow
  away := by
    rw [abs_neg]
    exact hheld.away
  against := by
    rw [saturate_neg (cap_nonneg h bound), neg_mul_neg]
    exact hheld.against

/-! ## One cycle -/

omit [PlaneFunctions] in
/-- The goal of an order ahead: at least the least speed, and never above the cap. -/
theorem goal_of_pos (h : 0 < saturate (f.cap bound) order) :
    f.goal order bound
      = min (f.cap bound) (max (saturate (f.cap bound) order) f.settings.minSpeed) := by
  rw [goal, sign_pos h, abs_of_pos h]
  exact one_mul _

/-- What is let through when the acceleration leads ahead. -/
theorem limited_of_reached_pos (h : f.settings.check = .ok ()) {current : ℚ}
    (hpos : 0 < f.reached order current bound) :
    f.limited order current bound
      = min (f.cap bound) (max (f.reached order current bound) f.settings.minSpeed) := by
  have hleast := (RampSettings.exact_of_check h).1
  rw [limited, raise_of_pos hpos,
    saturate_of_nonneg (cap_nonneg h bound) (hleast.trans (le_max_left ..)), max_comm]

/-- What can be reached is lifted, and so leads nearer to a target that is lifted as well. -/
theorem nears_of_reached (h : f.settings.check = .ok ()) {current target : ℚ}
    (hpos : 0 < f.reached order current bound)
    (hlow : min (current + f.reach) target ≤ f.reached order current bound)
    (hhigh : f.reached order current bound ≤ max (current - f.reach) target) :
    Nears f.reach (min (f.cap bound) (max target f.settings.minSpeed)) current
      (f.limited order current bound) := by
  rw [limited_of_reached_pos h hpos]
  constructor
  · refine le_min (min_le_of_right_le (min_le_left ..)) ?_
    calc min (current + f.reach) (min (f.cap bound) (max target f.settings.minSpeed))
        ≤ min (current + f.reach) (max target f.settings.minSpeed) :=
          min_le_min le_rfl (min_le_right ..)
      _ = max (min (current + f.reach) target) (min (current + f.reach) f.settings.minSpeed) :=
          min_max_distrib_left ..
      _ ≤ max (f.reached order current bound) f.settings.minSpeed :=
          max_le_max hlow (min_le_right ..)
  · calc min (f.cap bound) (max (f.reached order current bound) f.settings.minSpeed)
        ≤ min (f.cap bound) (max (current - f.reach) (max target f.settings.minSpeed)) :=
          min_le_min le_rfl ((max_le_max hhigh le_rfl).trans_eq (max_assoc ..))
      _ = max (min (f.cap bound) (current - f.reach))
            (min (f.cap bound) (max target f.settings.minSpeed)) := min_max_distrib_left ..
      _ ≤ max (current - f.reach) (min (f.cap bound) (max target f.settings.minSpeed)) :=
          max_le_max (min_le_right ..) le_rfl

omit [PlaneFunctions] in
/-- Toward rest or beyond, from further than one cycle away. -/
theorem reached_of_away (hperiod : 0 < f.period) {current : ℚ}
    (hback : saturate (f.cap bound) order ≤ 0) (haway : f.reach < current) :
    f.reached order current bound = current - f.reach := by
  rw [reached_eq hperiod]
  exact max_eq_left ((min_le_right ..).trans (hback.trans (sub_pos.mpr haway).le))

section Cycles

variable (h : f.settings.check = .ok ()) (hperiod : 0 < f.period) {current : ℚ}

include h hperiod

/-- Toward an order of the same direction. -/
theorem nears_goal (hforward : 0 < saturate (f.cap bound) order) (hcurrent : 0 ≤ current) :
    Nears f.reach (f.goal order bound) current (f.limited order current bound) := by
  have hreach := reach_pos h hperiod
  have hlow : min (current + f.reach) (saturate (f.cap bound) order)
      ≤ f.reached order current bound := by
    rw [reached_eq hperiod]
    exact le_max_right ..
  have hpos : 0 < f.reached order current bound :=
    (lt_min (add_pos_of_nonneg_of_pos hcurrent hreach) hforward).trans_le hlow
  rw [goal_of_pos hforward]
  refine nears_of_reached h hpos hlow ?_
  rw [reached_eq hperiod]
  exact max_le_max le_rfl (min_le_right ..)

/-- On the way back an axis comes nearer to the least speed, as long as rest is out of reach. -/
theorem nears_least (hback : saturate (f.cap bound) order ≤ 0) (haway : f.reach < current) :
    Nears f.reach (f.least bound) current (f.limited order current bound) := by
  have hreached := reached_of_away hperiod hback haway
  have hleft : 0 < current - f.reach := sub_pos.mpr haway
  have hleast : f.least bound = min (f.cap bound) (max 0 f.settings.minSpeed) := by
    rw [max_eq_right (RampSettings.exact_of_check h).1, least]
  rw [hleast]
  refine nears_of_reached h ?_ ?_ ?_
  · rw [hreached]
    exact hleft
  · rw [hreached]
    exact (min_le_right ..).trans hleft.le
  · rw [hreached]
    exact le_max_left ..

/-- The axis is not let below the least speed. -/
theorem least_le_limited (hback : saturate (f.cap bound) order ≤ 0) (haway : f.reach < current) :
    f.least bound ≤ f.limited order current bound := by
  have hpos : 0 < f.reached order current bound := by
    rw [reached_of_away hperiod hback haway]
    exact sub_pos.mpr haway
  rw [limited_of_reached_pos h hpos]
  exact min_le_min le_rfl (le_max_right ..)

/-- Toward rest or beyond, from where rest can be reached: not ahead of it any longer. -/
theorem limited_nonpos (hback : saturate (f.cap bound) order ≤ 0) (hnear : current ≤ f.reach) :
    f.limited order current bound ≤ 0 := by
  have hreached : f.reached order current bound ≤ 0 := by
    rw [reached_eq hperiod]
    exact max_le (sub_nonpos.mpr hnear) ((min_le_right ..).trans hback)
  calc f.limited order current bound
      ≤ saturate (f.cap bound) (raise f.settings.minSpeed 0) :=
        saturate_mono _ (raise_mono (RampSettings.exact_of_check h).1 hreached)
    _ = 0 := by rw [raise_zero, saturate_zero (cap_nonneg h bound)]

/-- An axis that can be stopped within a cycle is. -/
theorem limited_eq_zero (hrest : saturate (f.cap bound) order = 0) (hcurrent : 0 ≤ current)
    (hnear : current ≤ f.reach) : f.limited order current bound = 0 := by
  have hreached : f.reached order current bound = 0 := by
    rw [reached_eq hperiod, hrest, min_eq_right (hcurrent.trans
      (le_add_of_nonneg_right (reach_pos h hperiod).le)), max_eq_right (sub_nonpos.mpr hnear)]
  rw [limited, hreached, raise_zero, saturate_zero (cap_nonneg h bound)]

/-! ## Whole runs -/

/-- From rest or ahead, an order ahead is reached. -/
theorem settles_forward (hforward : 0 < saturate (f.cap bound) order) (hstart : 0 ≤ start) :
    f.Settles order bound start (f.goal order bound) := by
  have hreach := reach_pos h hperiod
  have hgoal : 0 ≤ f.goal order bound := by
    rw [goal_of_pos hforward]
    exact le_min (cap_nonneg h bound) (hforward.le.trans (le_max_left ..))
  have hnonneg : ∀ n, 0 ≤ f.speeds order bound start n := by
    intro n
    induction n with
    | zero => exact hstart
    | succ n ih =>
      exact (le_min (add_nonneg ih hreach.le) hgoal).trans
        (nears_goal h hperiod hforward ih).above
  exact settles_of_speeds h
    (exists_speeds_eq hreach fun n => nears_goal h hperiod hforward (hnonneg n))

/-- From where rest can be reached in one cycle. -/
theorem settles_near (hback : saturate (f.cap bound) order ≤ 0) (hstart : 0 ≤ start)
    (hnear : start ≤ f.reach) : f.Settles order bound start (f.goal order bound) := by
  rcases hback.eq_or_lt with hrest | hreverse
  · have hgoal : f.goal order bound = 0 := by
      rw [goal, hrest, sign_zero]
      exact zero_mul _
    have hzero : ∀ n, f.speeds order bound start (n + 1) = 0 := by
      intro n
      induction n with
      | zero => exact limited_eq_zero h hperiod hrest hstart hnear
      | succ n ih =>
        rw [speeds, ih]
        exact limited_eq_zero h hperiod hrest le_rfl (reach_pos h hperiod).le
    rw [hgoal]
    refine settles_of_speeds h ⟨1, fun n hn => ?_⟩
    obtain ⟨m, rfl⟩ := Nat.exists_eq_add_of_le' hn
    exact hzero m
  · -- one cycle leads to the other side of rest, or to rest
    have hover : f.speeds order bound start 1 ≤ 0 := limited_nonpos h hperiod hback hnear
    refine settles_of_later h 1 (.of_neg h ?_)
    rw [← goal_neg h]
    refine settles_forward h hperiod ?_ (neg_nonneg.mpr hover)
    rw [saturate_neg (cap_nonneg h bound)]
    exact neg_pos.mpr hreverse

/-- As long as an axis is too far from rest, it comes nearer to the least speed. -/
theorem exists_speeds_eq_least (hback : saturate (f.cap bound) order ≤ 0)
    (haway : ∀ n, f.reach < f.speeds order bound start n) :
    ∃ first, ∀ n, first ≤ n → f.speeds order bound start n = f.least bound :=
  exists_speeds_eq (reach_pos h hperiod) fun n => nears_least h hperiod hback (haway n)

/-- A least speed within reach of rest lets the axis through. -/
theorem settles_through (hback : saturate (f.cap bound) order ≤ 0) (haway : f.reach < start)
    (hleast : f.least bound ≤ f.reach) : f.Settles order bound start (f.goal order bound) := by
  have hnear : ∃ m, 0 ≤ f.speeds order bound start m ∧ f.speeds order bound start m ≤ f.reach := by
    by_contra hnever
    have hnonneg : 0 ≤ f.least bound :=
      le_min (cap_nonneg h bound) (RampSettings.exact_of_check h).1
    have haways : ∀ n, f.reach < f.speeds order bound start n := by
      intro n
      induction n with
      | zero => exact haway
      | succ n ih =>
        have hside := hnonneg.trans (least_le_limited h hperiod hback ih)
        exact not_le.mp fun hle => hnever ⟨n + 1, hside, hle⟩
    obtain ⟨first, hfirst⟩ := exists_speeds_eq_least h hperiod hback haways
    exact absurd (hfirst first le_rfl ▸ haways first) (not_lt.mpr hleast)
  obtain ⟨m, hside, hle⟩ := hnear
  exact settles_of_later h m (settles_near h hperiod hback hside hle)

/-- A least speed out of reach of rest holds the axis up. -/
theorem settles_held (hback : saturate (f.cap bound) order ≤ 0) (haway : f.reach < start)
    (hleast : f.reach < f.least bound) : f.Settles order bound start (f.least bound) := by
  have haways : ∀ n, f.reach < f.speeds order bound start n := by
    intro n
    induction n with
    | zero => exact haway
    | succ n ih => exact hleast.trans_le (least_le_limited h hperiod hback ih)
  exact settles_of_speeds h (exists_speeds_eq_least h hperiod hback haways)

/-- An axis that is held up settles at the least speed. -/
theorem HeldUp.settles (hheld : f.HeldUp order bound start) (hstart : 0 ≤ start) :
    f.Settles order bound start (f.least bound) := by
  have haway : f.reach < start := by
    have := hheld.away
    rwa [abs_of_nonneg hstart] at this
  have hpos : 0 < start := (reach_pos h hperiod).trans haway
  exact settles_held h hperiod (nonpos_of_mul_nonpos_right hheld.against hpos) haway hheld.slow

/-- Any other axis settles where its order wants it. -/
theorem settles_of_not_heldUp (hheld : ¬ f.HeldUp order bound start) (hstart : 0 ≤ start) :
    f.Settles order bound start (f.goal order bound) := by
  rcases lt_or_ge 0 (saturate (f.cap bound) order) with hforward | hback
  · exact settles_forward h hperiod hforward hstart
  rcases le_or_gt start f.reach with hnear | haway
  · exact settles_near h hperiod hback hstart hnear
  refine settles_through h hperiod hback haway (not_lt.mp fun hslow => hheld ⟨hslow, ?_, ?_⟩)
  · rwa [abs_of_nonneg hstart]
  · exact mul_nonpos_of_nonneg_of_nonpos hstart hback

/-- An axis that tracks its ramp settles after finitely many cycles, from every speed and at every
order and bound: at what the order asks for, or, if it is held up, at the least speed in its own
direction. -/
theorem tracked_settles (order bound start : ℚ) :
    (¬ f.HeldUp order bound start → f.Settles order bound start (f.goal order bound)) ∧
    (f.HeldUp order bound start →
      f.Settles order bound start (SignType.sign start * f.least bound)) := by
  have hback : f.HeldUp (-order) bound (-start) → f.HeldUp order bound start := by
    intro hmirrored
    have := hmirrored.neg h
    rwa [neg_neg, neg_neg] at this
  rcases le_total 0 start with hstart | hstart
  · refine ⟨fun hheld => settles_of_not_heldUp h hperiod hheld hstart, fun hheld => ?_⟩
    have hpos : 0 < start :=
      (abs_pos.mp ((reach_pos h hperiod).trans hheld.away)).lt_of_le' hstart
    rw [sign_pos hpos, SignType.coe_one, one_mul]
    exact hheld.settles h hperiod hstart
  · have hside : 0 ≤ -start := neg_nonneg.mpr hstart
    refine ⟨fun hheld => .of_neg h ?_, fun hheld => .of_neg h ?_⟩
    · rw [← goal_neg h]
      exact settles_of_not_heldUp h hperiod (mt hback hheld) hside
    · have hneg : start < 0 :=
        (abs_pos.mp ((reach_pos h hperiod).trans hheld.away)).lt_of_le hstart
      rw [sign_neg hneg, SignType.coe_neg_one, neg_one_mul, neg_neg]
      exact (hheld.neg h).settles h hperiod hside

end Cycles

/-! ## An axis that is held up -/

/-- A ramp that gains one a cycle, and has a least speed of five. -/
def sluggish : SpeedRamp ℚ := ⟨⟨5, 100, 1⟩, 1⟩

omit [PlaneFunctions] in
/-- Ordered backward at fifty it stays at five ahead, unless it starts from next to rest. -/
theorem sluggish_settles :
    ∃ _ : PlaneFunctions,
      sluggish.Settles (-50) 100 40 5 ∧ sluggish.Settles (-50) 100 1 (-50) := by
  let plane := PlaneFunctions.onAbscissa
  have hchecked : sluggish.settings.check = .ok () := toOption_eq_some_iff.mp (by decide +kernel)
  have hperiod : 0 < sluggish.period := by decide +kernel
  have hheld : sluggish.HeldUp (-50) 100 40 :=
    ⟨by decide +kernel, by decide +kernel, by decide +kernel⟩
  have hfree : ¬ sluggish.HeldUp (-50) 100 1 :=
    fun hheld => absurd hheld.away (by decide +kernel)
  have hleast : SignType.sign (40 : ℚ) * sluggish.least 100 = 5 := by decide +kernel
  have hgoal : sluggish.goal (-50) 100 = -50 := by decide +kernel
  have hstays := (tracked_settles hchecked hperiod (-50) 100 40).2 hheld
  have hturns := (tracked_settles hchecked hperiod (-50) 100 1).1 hfree
  rw [hleast] at hstays
  rw [hgoal] at hturns
  exact ⟨plane, hstays, hturns⟩

omit [PlaneFunctions] in
/-- At five ahead it is neither stopped nor reversed, whatever is asked for. -/
theorem sluggish_never_stops :
    ∃ _ : PlaneFunctions,
      sluggish.settings.check = .ok () ∧ 0 < sluggish.period ∧
      sluggish.goal 0 100 = 0 ∧ ¬ sluggish.Settles 0 100 5 (sluggish.goal 0 100) ∧
      sluggish.goal (-50) 100 = -50 ∧
      ¬ sluggish.Settles (-50) 100 5 (sluggish.goal (-50) 100) := by
  let plane := PlaneFunctions.onAbscissa
  have hrest : sluggish.limit 0 5 100 = .ok 5 := toOption_eq_some_iff.mp (by decide +kernel)
  have hback : sluggish.limit (-50) 5 100 = .ok 5 := toOption_eq_some_iff.mp (by decide +kernel)
  exact ⟨plane, toOption_eq_some_iff.mp (by decide +kernel), by decide +kernel, by decide +kernel,
    not_settles_of_fixed hrest (by decide +kernel), by decide +kernel,
    not_settles_of_fixed hback (by decide +kernel)⟩

end SpeedRamp

end MotionControl
