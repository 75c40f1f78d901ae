import MotionControl.Proofs.Geometry.Angle
import MotionControl.Proofs.Geometry.ExactPose
import MotionControl.Proofs.Outcome
import MotionControl.Settings.Document

/-!
# Headings and whole turns

Angles that differ by whole turns are one heading, and each heading has one representative in
`(-180, 180]`.  So poses with the same heading are equal, however they were written, and the
shortest turn from one heading to another is the representative of their difference.

- `wholeTurns`: the angles that lead back to the same heading.
- `Rational.wrapDegrees_eq_iff`: the representative of a heading is the only one.
- `Rational.abs_wrapDegrees_le_abs`: it is the shortest of all angles of its heading.
- `Pose.Written`: every way in which a pose comes about; `Pose.Written.holds_orientation`: what
  every one of them makes sure of.
- `Pose.ShortestTurn`: the turn from one pose to the heading of another.
- `Pose.headings_have_one_representative`: all of this together.
-/

namespace MotionControl

open Scalar Document Rational

/-- Whole turns, in degrees. -/
def wholeTurns : AddSubgroup ℚ := .zmultiples 360

theorem mem_wholeTurns_iff {angle : ℚ} : angle ∈ wholeTurns ↔ ∃ turns : ℤ, angle = turns * 360 := by
  rw [wholeTurns, AddSubgroup.mem_zmultiples_iff]
  constructor
  · rintro ⟨turns, rfl⟩
    exact ⟨turns, zsmul_eq_mul ..⟩
  · rintro ⟨turns, rfl⟩
    exact ⟨turns, zsmul_eq_mul ..⟩

theorem turn_mem_wholeTurns : (360 : ℚ) ∈ wholeTurns := AddSubgroup.mem_zmultiples 360

namespace Rational

variable [PlaneFunctions] {a b r turn : ℚ}

/-! ## Representatives -/

/-- Truncation and one turn more or less are whole turns. -/
theorem sub_wrapDegrees_mem (a : ℚ) : a - wrapDegrees a ∈ wholeTurns := by
  have hrest : a - remainder a 360 ∈ wholeTurns := by
    rw [mem_wholeTurns_iff]
    refine ⟨truncate (a / 360), ?_⟩
    rw [remainder_eq]
    ring
  rw [wrapDegrees_eq]
  split
  · rw [← sub_add]
    exact add_mem hrest turn_mem_wholeTurns
  · split
    · rw [← sub_sub]
      exact sub_mem hrest turn_mem_wholeTurns
    · exact hrest

/-- The remainder and its corrections are the reduction to the turn above `-180`. -/
theorem wrapDegrees_eq_toIocMod (hturn : (0 : ℚ) < 360) (a : ℚ) :
    wrapDegrees a = toIocMod hturn (-180) a := by
  obtain ⟨turns, hturns⟩ := mem_wholeTurns_iff.mp (sub_wrapDegrees_mem a)
  symm
  rw [toIocMod_eq_iff]
  refine ⟨?_, turns, ?_⟩
  · have hend : (-180 : ℚ) + 360 = 180 := by norm_num
    rw [hend]
    exact wrapDegrees_mem a
  · rw [zsmul_eq_mul, ← hturns, add_sub_cancel]

/-- The representative of a heading is the only angle of it in the range. -/
theorem wrapDegrees_eq_iff :
    wrapDegrees a = r ↔ r ∈ Set.Ioc (-180) 180 ∧ a - r ∈ wholeTurns := by
  have hturn : (0 : ℚ) < 360 := by norm_num
  have hend : (-180 : ℚ) + 360 = 180 := by norm_num
  rw [wrapDegrees_eq_toIocMod hturn, toIocMod_eq_iff, hend, mem_wholeTurns_iff]
  simp only [zsmul_eq_mul, sub_eq_iff_eq_add']

/-- Angles in the range represent themselves. -/
theorem wrapDegrees_of_mem (h : a ∈ Set.Ioc (-180) 180) : wrapDegrees a = a := by
  rw [wrapDegrees_eq_iff, sub_self]
  exact ⟨h, zero_mem wholeTurns⟩

/-- Angles have one representative if whole turns lie between them, and only then. -/
theorem wrapDegrees_eq_wrapDegrees_iff : wrapDegrees a = wrapDegrees b ↔ a - b ∈ wholeTurns := by
  have hsplit : a - wrapDegrees b = (a - b) + (b - wrapDegrees b) := by ring
  rw [wrapDegrees_eq_iff, hsplit, add_mem_cancel_right (sub_wrapDegrees_mem b)]
  exact and_iff_right (wrapDegrees_mem b)

/-! ## The shortest angle of a heading -/

theorem abs_wrapDegrees_le (a : ℚ) : |wrapDegrees a| ≤ 180 := by
  obtain ⟨hlow, hhigh⟩ := wrapDegrees_mem a
  exact abs_le.mpr ⟨hlow.le, hhigh⟩

/-- An angle of the heading that is short enough is the representative. -/
theorem wrapDegrees_eq_of_abs_lt (hsame : a - turn ∈ wholeTurns) (hshort : |turn| < 180) :
    wrapDegrees a = turn := by
  obtain ⟨hlow, hhigh⟩ := abs_lt.mp hshort
  exact wrapDegrees_eq_iff.mpr ⟨⟨hlow, hhigh.le⟩, hsame⟩

/-- No turn to the same heading is shorter. -/
theorem abs_wrapDegrees_le_abs (hsame : a - turn ∈ wholeTurns) : |wrapDegrees a| ≤ |turn| := by
  rcases lt_or_ge |turn| 180 with hshort | hlong
  · rw [wrapDegrees_eq_of_abs_lt hsame hshort]
  · exact (abs_wrapDegrees_le a).trans hlong

/-- Only half a turn is as short in both directions. -/
theorem eq_wrapDegrees_of_abs_eq (hsame : a - turn ∈ wholeTurns) (heq : |turn| = |wrapDegrees a|) :
    turn = wrapDegrees a ∨ wrapDegrees a = 180 ∧ turn = -180 := by
  rcases abs_eq_abs.mp heq with hturn | hback
  · exact .inl hturn
  · rcases lt_or_ge |turn| 180 with hshort | hlong
    · exact .inl (wrapDegrees_eq_of_abs_lt hsame hshort).symm
    · right
      obtain ⟨hlow, hhigh⟩ := wrapDegrees_mem a
      rw [heq, le_abs] at hlong
      have hhalf : wrapDegrees a = 180 := by
        rcases hlong with hright | hleft
        · exact le_antisymm hhigh hright
        · linarith
      exact ⟨hhalf, by rw [hback, hhalf]⟩

/-- Turning back is turning the other way, unless it is half a turn. -/
theorem wrapDegrees_neg (h : wrapDegrees a ≠ 180) : wrapDegrees (-a) = -wrapDegrees a := by
  obtain ⟨hlow, hhigh⟩ := wrapDegrees_mem a
  have hbelow : wrapDegrees a < 180 := lt_of_le_of_ne hhigh h
  rw [wrapDegrees_eq_iff]
  constructor
  · constructor <;> linarith
  · rw [← neg_sub']
    exact neg_mem (sub_wrapDegrees_mem a)

/-- Half a turn ahead is half a turn back. -/
theorem wrapDegrees_neg_of_half (h : wrapDegrees a = 180) : wrapDegrees (-a) = 180 := by
  have hrest := sub_wrapDegrees_mem a
  rw [h] at hrest
  have hsplit : -a - 180 = -(a - 180) - 360 := by ring
  rw [wrapDegrees_eq_iff, hsplit]
  exact ⟨⟨by norm_num, le_rfl⟩, sub_mem (neg_mem hrest) turn_mem_wholeTurns⟩

end Rational

/-! ## Ways to write a pose -/

namespace Document

/-- A record that was read is what its fields made, whatever was left over. -/
theorem Record.exists_of_ofValue? {β : Type} {record : Record β} {surplus : Surplus} {v : Value}
    {result : β} (h : Record.ofValue? record surplus v = some result) :
    ∃ fields rest, record surplus fields = some (result, rest) := by
  obtain ⟨fields, -, h⟩ := Option.bind_eq_some_iff.mp h
  obtain ⟨⟨made, rest⟩, hrecord, h⟩ := Option.bind_eq_some_iff.mp h
  obtain ⟨-, ⟨⟩⟩ := Option.ite_none_right_eq_some.mp h
  exact ⟨fields, rest, hrecord⟩

end Document

namespace Pose

section Writing

variable {α : Type} [Scalar α] [Readable α] {p : Pose α}

/-- The poses that any sequence of writes makes, as long as the orientations are finite. -/
inductive Written : Pose α → Prop where
  | origin : Written .origin
  | of (x y : α) {orientation : α} (hfinite : Scalar.isFinite orientation = true) :
      Written (.of x y orientation)
  | read {surplus : Surplus} {v : Value} {p : Pose α} (h : read? surplus v = some p)
      (hfinite : Scalar.isFinite p.orientation = true) : Written p
  | withX {p : Pose α} (h : Written p) (x : α) : Written (p.withX x)
  | withY {p : Pose α} (h : Written p) (y : α) : Written (p.withY y)
  | withOrientation {p : Pose α} (h : Written p) {orientation : α}
      (hfinite : Scalar.isFinite orientation = true) : Written (p.withOrientation orientation)

/-- A document gives a pose no other way than its three numbers do. -/
theorem exists_of_read {surplus : Surplus} {v : Value} (h : read? surplus v = some p) :
    ∃ x y orientation, p = .of x y orientation := by
  obtain ⟨fields, rest, h⟩ := Record.exists_of_ofValue? h
  obtain ⟨⟨x, _⟩, -, h⟩ := Option.bind_eq_some_iff.mp h
  obtain ⟨⟨y, _⟩, -, h⟩ := Option.bind_eq_some_iff.mp h
  obtain ⟨⟨orientation, _⟩, -, h⟩ := Option.bind_eq_some_iff.mp h
  cases h
  exact ⟨x, y, orientation, rfl⟩

omit [Readable α] in
/-- An angle whose representative is finite was finite. -/
theorem isFinite_of_wrapDegrees {angle : α} (h : Scalar.isFinite (wrapDegrees angle) = true) :
    Scalar.isFinite angle = true := by
  cases hangle : Scalar.isFinite angle with
  | true => rfl
  | false =>
    have hsame : wrapDegrees angle = angle := if_neg (by rw [hangle]; exact Bool.false_ne_true)
    rw [hsame, hangle] at h
    exact h

/-- What holds of zero and of every wrapped angle holds of the orientation of a pose, however it was
written: no way around the wrapping exists. -/
theorem Written.holds_orientation {P : α → Prop} (hzero : P 0)
    (hwrap : ∀ angle : α, Scalar.isFinite angle = true → P (wrapDegrees angle)) (h : p.Written) :
    P p.orientation := by
  induction h with
  | origin => exact hzero
  | of x y hfinite => exact hwrap _ hfinite
  | read h hfinite =>
    obtain ⟨x, y, orientation, rfl⟩ := exists_of_read h
    exact hwrap orientation (isFinite_of_wrapDegrees hfinite)
  | withX _ _ ih => exact ih
  | withY _ _ ih => exact ih
  | withOrientation _ hfinite _ => exact hwrap _ hfinite

end Writing

/-- Doubles are no exception. -/
theorem Written.wrapped {p : Pose Float} (h : p.Written) : Wrapped p.orientation :=
  h.holds_orientation ⟨by decide, by decide, by decide⟩ fun _ => wrapDegrees_wrapped

/-! ## Turns from one pose to another -/

/-- A turn that leads from the heading of one pose to that of another. -/
def LeadsTo (p q : Pose ℚ) (turn : ℚ) : Prop := p.orientation + turn - q.orientation ∈ wholeTurns

/-- The shortest such turn.  A turn by half a turn is as short in the other direction. -/
structure ShortestTurn (p q : Pose ℚ) (turn : ℚ) : Prop where
  leads : p.LeadsTo q turn
  least {other : ℚ} : p.LeadsTo q other → |turn| ≤ |other|
  tie {other : ℚ} : p.LeadsTo q other → |other| = |turn| → other = turn ∨ turn = 180 ∧ other = -180

/-- A turn leads from pose to pose if whole turns are left of the difference. -/
theorem leadsTo_iff {p q : Pose ℚ} {turn : ℚ} :
    p.LeadsTo q turn ↔ q.orientation - p.orientation - turn ∈ wholeTurns := by
  have hback : q.orientation - p.orientation - turn = -(p.orientation + turn - q.orientation) := by
    ring
  rw [hback, neg_mem_iff]
  rfl

variable [PlaneFunctions]

/-- The heading error is the shortest turn. -/
theorem shortestTurn_headingErrorTo (p q : Pose ℚ) : p.ShortestTurn q (p.headingErrorTo q) where
  leads := leadsTo_iff.mpr (sub_wrapDegrees_mem _)
  least h := abs_wrapDegrees_le_abs (leadsTo_iff.mp h)
  tie h := eq_wrapDegrees_of_abs_eq (leadsTo_iff.mp h)

/-- The way back is the same turn in the other direction, unless it is half a turn. -/
theorem headingErrorTo_swap (p q : Pose ℚ) :
    (p.headingErrorTo q ≠ 180 → q.headingErrorTo p = -p.headingErrorTo q) ∧
      (p.headingErrorTo q = 180 → q.headingErrorTo p = 180) := by
  have hswap : q.headingErrorTo p = wrapDegrees (-(q.orientation - p.orientation)) := by
    rw [neg_sub]
    rfl
  rw [hswap]
  exact ⟨wrapDegrees_neg, wrapDegrees_neg_of_half⟩

/-- Every angle has one representative in `(-180, 180]`, which is its own representative.  Every
pose that was written holds one, whatever way numbers are read out of documents, so that poses at
one position are equal exactly when whole turns lie between their headings.  The heading error is
the shortest turn from one pose to another.  Poses of doubles stay in the range as well. -/
theorem headings_have_one_representative [Readable ℚ] :
    (∀ a r : ℚ, wrapDegrees a = r ↔ r ∈ Set.Ioc (-180) 180 ∧ a - r ∈ wholeTurns) ∧
    (∀ a : ℚ, wrapDegrees (wrapDegrees a) = wrapDegrees a) ∧
    (∀ p : Pose ℚ, p.Written → p.orientation ∈ Set.Ioc (-180) 180) ∧
    (∀ x y a b : ℚ, (of x y a == of x y b) = true ↔ a - b ∈ wholeTurns) ∧
    (∀ p q : Pose ℚ, p.ShortestTurn q (p.headingErrorTo q) ∧
      (p.headingErrorTo q ≠ 180 → q.headingErrorTo p = -p.headingErrorTo q) ∧
      (p.headingErrorTo q = 180 → q.headingErrorTo p = 180)) ∧
    (∀ p : Pose Float, p.Written → Wrapped p.orientation) := by
  refine ⟨fun a r => wrapDegrees_eq_iff, fun a => wrapDegrees_of_mem (wrapDegrees_mem a), ?_, ?_,
    ?_, fun _ => Written.wrapped⟩
  · intro p h
    refine h.holds_orientation (P := fun angle => angle ∈ Set.Ioc (-180) 180) ?_ ?_
    · rw [zero_eq, Set.mem_Ioc]
      norm_num
    · intro a _
      exact wrapDegrees_mem a
  · intro x y a b
    rw [beq_iff, of, of, Pose.mk.injEq, wrapDegrees_eq_wrapDegrees_iff]
    simp
  · intro p q
    exact ⟨shortestTurn_headingErrorTo p q, headingErrorTo_swap p q⟩

/-- Numbers that are read out of integers alone. -/
abbrev integersOnly : Readable ℚ where
  read?
    | _, .integer n => some n
    | _, _ => none

omit [PlaneFunctions] in
/-- One and a half turns back is half a turn ahead.  A pose at 350 degrees, which a document may
say, keeps its orientation in the range and equals one at -370 degrees.  From 170 to -170 degrees
it is a turn by twenty. -/
theorem laps_are_one_heading :
    ∃ (_ : PlaneFunctions) (_ : Readable ℚ) (p : Pose ℚ),
      wrapDegrees (-540 : ℚ) = 180 ∧
      read? .refused (.table [("orientation", .integer 350)]) = some p ∧
      p.orientation ∈ Set.Ioc (-180) 180 ∧
      (of 0 0 350 == (of 0 0 (-370) : Pose ℚ)) = true ∧
      (of 0 0 170).headingErrorTo (of 0 0 (-170) : Pose ℚ) = 20 ∧
      (of 0 0 170).ShortestTurn (of 0 0 (-170)) 20 := by
  let plane := PlaneFunctions.onAbscissa
  let reader := integersOnly
  obtain ⟨hunique, -, hwritten, hequal, hturn, -⟩ := headings_have_one_representative
  have hread : read? .refused (.table [("orientation", .integer 350)])
      = some (of 0 0 350 : Pose ℚ) := rfl
  have herror : (of 0 0 170).headingErrorTo (of 0 0 (-170) : Pose ℚ) = 20 := by decide +kernel
  refine ⟨plane, reader, of 0 0 350, ?_, hread, hwritten _ (.read hread rfl), ?_, herror, ?_⟩
  · exact (hunique _ _).mpr ⟨by norm_num, mem_wholeTurns_iff.mpr ⟨-2, by norm_num⟩⟩
  · exact (hequal 0 0 350 (-370)).mpr (mem_wholeTurns_iff.mpr ⟨2, by norm_num⟩)
  · rw [← herror]
    exact (hturn _ _).1

end Pose

end MotionControl
