import MotionControl.Proofs.Geometry.ExactPose
import MotionControl.Proofs.Move.Decision
import MotionControl.Proofs.Outcome

/-!
# When a straight-line move reverses

A vehicle may be driven backwards where its target allows it, and to correct an overshoot: once the
move has started to drive towards a target, it does not turn round for it any more.  That start is
remembered from cycle to cycle, and what is remembered is shown here to be what happened: no start
for another target, and none before a reset or a cycle in speed mode, counts.

- `MoveSignals`, `MoveEvent`, `StraightMove.performAll`: what a law goes through, over any history.
- `StraightMove.Committed`: driving towards a target has started, and nothing called it off.
- `StraightMove.alignedOn_eq_some_iff`: that is what the law remembers.
- `StraightMove.reverses_only_when_permitted`: no reversing unless it is permitted, and no turn of
  more than a quarter where it is.
-/

namespace MotionControl

open Scalar Outcome

/-! ## Histories -/

/-- The values that a straight-line move reads in a cycle. -/
structure MoveSignals (α : Type) where
  x : α
  y : α
  angle : α
  goalX : α
  goalY : α
  goalAngle : α
  linearSpeed : α
  angularSpeed : α
  linearOrder : α
  angularOrder : α
  allowReverse : α
  intermediate : α
  mode : α

namespace MoveSignals

variable {α : Type}

/-- The inputs of a leaf, in their order. -/
def toSignals (i : MoveSignals α) : List α :=
  [i.x, i.y, i.angle, i.goalX, i.goalY, i.goalAngle, i.linearSpeed, i.angularSpeed, i.linearOrder,
    i.angularOrder, i.allowReverse, i.intermediate, i.mode]

variable [Scalar α]

/-- The pose to reach. -/
def target (i : MoveSignals α) : Pose α := .of i.goalX i.goalY i.goalAngle

/-- What the values ask for. -/
def request (i : MoveSignals α) : MoveRequest α where
  current := .of i.x i.y i.angle
  target := i.target
  speed := ⟨i.linearSpeed, i.angularSpeed⟩
  order := ⟨i.linearOrder, i.angularOrder⟩
  allowReverse := isSet i.allowReverse
  intermediate := isSet i.intermediate
  mode := i.mode

/-- Inputs that are written out are read back. -/
theorem ofSignals?_toSignals (i : MoveSignals α) :
    MoveRequest.ofSignals? i.toSignals = some i.request := rfl

end MoveSignals

/-- What can happen to a straight-line move.  The slots that a cycle writes to may hold anything. -/
inductive MoveEvent (α : Type) where
  | cycle (i : MoveSignals α) (slots : Vector α 9)
  | reset
  | configure (settings : StraightMoveSettings α)

/-- The event calls off no driving towards this target: it is no reset, no cycle in speed mode and
no cycle with another target. -/
def MoveEvent.Keeps {α : Type} [Scalar α] (target : Pose α) : MoveEvent α → Prop
  | cycle i _ => i.mode < half ∧ i.target = target
  | reset => False
  | configure _ => True

namespace StraightMove

section Histories

variable {α : Type} [Scalar α]

/-- What an event makes of the law. -/
def perform (f : StraightMove α) : MoveEvent α → Except Fault (StraightMove α)
  | .cycle i slots => do
    let (_, f) ← f.compute i.toSignals slots.toList
    .ok f
  | .reset => .ok f.reset
  | .configure settings => .ok { f with settings }

/-- What events make of the law, one after another. -/
def performAll (f : StraightMove α) (events : List (MoveEvent α)) : Except Fault (StraightMove α) :=
  events.foldlM perform f

/-- In some cycle of the past the law decided to drive towards the target, and nothing that
happened since called that off. -/
def Committed (settings : StraightMoveSettings α) (past : List (MoveEvent α)) (target : Pose α) :
    Prop :=
  ∃ before i slots after f, past = before ++ .cycle i slots :: after ∧
    (fresh settings).performAll (before ++ [.cycle i slots]) = .ok f ∧ f.step = .straight ∧
    i.target = target ∧ ∀ e ∈ after, e.Keeps target

/-- In a cycle that comes after the past, the vehicle may be driven backwards. -/
def MayReverse (settings : StraightMoveSettings α) (past : List (MoveEvent α)) (i : MoveSignals α) :
    Prop :=
  half ≤ i.allowReverse ∨ Committed settings past i.target

variable {f : StraightMove α} {settings : StraightMoveSettings α} {past : List (MoveEvent α)}
  {target : Pose α}

/-- A cycle on thirteen inputs and nine slots always answers. -/
theorem compute_toSignals (f : StraightMove α) (i : MoveSignals α) (slots : Vector α 9) :
    f.compute i.toSignals slots.toList
      = .ok ((f.decide i.request).1.toSignals, (f.decide i.request).2) :=
  f.compute_eq_ok i.ofSignals?_toSignals slots.length_toList

theorem perform_cycle (f : StraightMove α) (i : MoveSignals α) (slots : Vector α 9) :
    f.perform (.cycle i slots) = .ok (f.decide i.request).2 := by
  rw [perform, compute_toSignals, ok_bind]

/-- The last event comes after the others. -/
theorem performAll_concat (f : StraightMove α) (past : List (MoveEvent α)) (e : MoveEvent α) :
    f.performAll (past ++ [e]) = f.performAll past >>= fun f => f.perform e := by
  simp [performAll]

/-- No history makes the law fault. -/
theorem exists_performAll (f : StraightMove α) (events : List (MoveEvent α)) :
    ∃ f', f.performAll events = .ok f' := by
  induction events generalizing f with
  | nil => exact ⟨f, rfl⟩
  | cons e rest ih =>
    have hfirst : ∃ f', f.perform e = .ok f' := by
      cases e with
      | cycle i slots => exact ⟨_, f.perform_cycle i slots⟩
      | reset => exact ⟨_, rfl⟩
      | configure settings => exact ⟨_, rfl⟩
    obtain ⟨next, hnext⟩ := hfirst
    obtain ⟨last, hlast⟩ := ih next
    exact ⟨last, bind_eq_ok_iff.mpr ⟨next, hnext, hlast⟩⟩

/-- Nothing is committed before the first cycle. -/
theorem not_committed_nil : ¬ Committed settings [] target := by
  rintro ⟨before, i, slots, after, f, hpast, -⟩
  simp at hpast

/-- Driving has started in the last cycle, or before it and the last event does not call it off. -/
theorem committed_concat (hpast : (fresh settings).performAll past = .ok f) {e : MoveEvent α} :
    Committed settings (past ++ [e]) target ↔
      (∃ i slots, e = .cycle i slots ∧ (f.decide i.request).2.step = .straight ∧
        i.target = target) ∨
        e.Keeps target ∧ Committed settings past target := by
  constructor
  · rintro ⟨before, i, slots, after, g, hsplit, hg, hstep, htarget, hkeeps⟩
    -- Nothing came after the start, or the last event did, and then the start was in the past.
    induction after using List.reverseRecOn with
    | nil =>
      obtain ⟨rfl, hlast⟩ := List.append_inj' hsplit rfl
      cases hlast
      rw [performAll_concat, hpast, ok_bind, perform_cycle] at hg
      cases hg
      exact .inl ⟨i, slots, rfl, hstep, htarget⟩
    | append_singleton after last _ =>
      rw [← List.cons_append, ← List.append_assoc] at hsplit
      obtain ⟨rfl, hlast⟩ := List.append_inj' hsplit rfl
      cases hlast
      refine .inr ⟨hkeeps e (by simp), before, i, slots, after, g, rfl, hg, hstep, htarget, ?_⟩
      intro e' he'
      exact hkeeps e' (List.mem_append_left _ he')
  · rintro (⟨i, slots, rfl, hstep, htarget⟩ |
      ⟨hlast, before, i, slots, after, g, rfl, hg, hstep, htarget, hkeeps⟩)
    · refine ⟨past, i, slots, [], _, rfl, ?_, hstep, htarget, by simp⟩
      rw [performAll_concat, hpast, ok_bind, perform_cycle]
    · refine ⟨before, i, slots, after ++ [e], g, by simp, hg, hstep, htarget, ?_⟩
      intro e' he'
      rcases List.mem_append.mp he' with he' | he'
      · exact hkeeps e' he'
      · rw [List.mem_singleton.mp he']
        exact hlast

end Histories

/-! ## What is remembered -/

section Exact

variable [PlaneFunctions] {f f' : StraightMove ℚ} {settings : StraightMoveSettings ℚ}
  {past : List (MoveEvent ℚ)} {target : Pose ℚ}

/-- An alignment counts for the target that it was made for. -/
theorem alignmentFor_eq_some_iff {p : Pose ℚ} :
    f.alignmentFor target = some p ↔ target = p ∧ f.alignedOn = some p := by
  rw [alignmentFor, Option.filter_eq_some_iff, Pose.beq_iff, and_comm, eq_comm]

theorem isSet_iff (v : ℚ) : isSet v = true ↔ half ≤ v := decide_eq_true_iff

theorem isSet_eq_false_iff (v : ℚ) : isSet v = false ↔ v < half := by
  rw [← Bool.not_eq_true, isSet_iff, not_le]

/-- What a cycle remembers: the target when it decides to drive towards it, or what was remembered
before when that is still the target and there is a pose to reach. -/
theorem alignedOn_decide (f : StraightMove ℚ) (i : MoveSignals ℚ) (slots : Vector ℚ 9) :
    (f.decide i.request).2.alignedOn = some target ↔
      ((f.decide i.request).2.step = .straight ∧ i.target = target) ∨
        (MoveEvent.cycle i slots).Keeps target ∧ f.alignedOn = some target := by
  have h := f.decided i.request
  generalize f.decide i.request = outcome at h ⊢
  cases h with
  | align mode =>
    have hpose : i.mode < half := (isSet_eq_false_iff _).mp mode
    simp [alignmentFor_eq_some_iff, MoveEvent.Keeps, hpose, MoveSignals.request]
  | straight mode =>
    have htarget : i.request.target = i.target := rfl
    simp +contextual [MoveEvent.Keeps, htarget]
  | orient mode =>
    have hpose : i.mode < half := (isSet_eq_false_iff _).mp mode
    simp [alignmentFor_eq_some_iff, MoveEvent.Keeps, hpose, MoveSignals.request]
  | speed mode =>
    have hspeed : half ≤ i.mode := (isSet_iff _).mp mode
    simp [MoveEvent.Keeps, hspeed]

/-- The pose that a law is aligned on is one that it committed itself to in its past. -/
theorem alignedOn_eq_some_iff (h : (fresh settings).performAll past = .ok f) :
    f.alignedOn = some target ↔ Committed settings past target := by
  induction past using List.reverseRecOn generalizing f with
  | nil =>
    cases h
    simp [fresh, not_committed_nil]
  | append_singleton past e ih =>
    rw [performAll_concat] at h
    obtain ⟨f₀, hpast, hlast⟩ := bind_eq_ok_iff.mp h
    rw [committed_concat hpast, ← ih hpast]
    cases e with
    | cycle i slots =>
      rw [perform_cycle] at hlast
      obtain rfl := Except.ok.inj hlast
      simp [alignedOn_decide _ _ slots]
    | reset =>
      cases hlast
      simp [reset, fresh, MoveEvent.Keeps]
    | configure settings =>
      cases hlast
      simp [MoveEvent.Keeps]

/-- Whether a cycle may drive backwards, as the law sees it and as the past has it. -/
theorem mayReverse_iff (h : (fresh settings).performAll past = .ok f) (i : MoveSignals ℚ) :
    (i.request.allowReverse || (f.alignmentFor i.request.target).isSome) = true ↔
      MayReverse settings past i := by
  have haligned : (f.alignmentFor i.request.target).isSome = true ↔
      f.alignedOn = some i.request.target := by
    simp [Option.isSome_iff_exists, alignmentFor_eq_some_iff]
  rw [Bool.or_eq_true, haligned, alignedOn_eq_some_iff h]
  exact or_congr_left (isSet_iff i.allowReverse)

/-! ## Errors -/

variable {r : MoveRequest ℚ} {allowReverse : Bool}

/-- Bearings are wrapped. -/
theorem polarErrorTo_angle_mem (p q : Pose ℚ) : (p.polarErrorTo q).angle ∈ Set.Ioc (-180) 180 :=
  Rational.wrapDegrees_mem _

/-- A length is negative only where it is driven backwards. -/
theorem allowReverse_of_distance_neg (hlength : ∀ x y, 0 ≤ PlaneFunctions.hypotenuse x y)
    (h : (directedError r allowReverse).distance < 0) : allowReverse = true := by
  have hforward : 0 ≤ (r.current.polarErrorTo r.target).distance := hlength _ _
  cases allowReverse with
  | true => rfl
  | false => exact absurd h (not_lt.mpr hforward)

/-- Nothing lies behind a vehicle that may be driven backwards. -/
theorem abs_directedError_angle_le (r : MoveRequest ℚ) : |(directedError r true).angle| ≤ 90 := by
  let error := r.current.polarErrorTo r.target
  have hdirected : directedError r true = if 90 < |error.angle| then error.reverse else error := by
    simp only [directedError, Bool.true_and, decide_eq_true_eq]
    rfl
  rw [hdirected]
  by_cases hbehind : 90 < |error.angle|
  · rw [if_pos hbehind]
    exact (Polar.abs_reverse_angle_lt (polarErrorTo_angle_mem _ _) hbehind).le
  · rw [if_neg hbehind]
    exact not_lt.mp hbehind

/-- The linear error of a decision is that of the directed error, or there is none. -/
theorem distance_neg_of_linear_error (h : (f.decide r).1.linear.error < 0) :
    (f.errorOn r).distance < 0 := by
  have hd := f.decided r
  generalize f.decide r = outcome at hd h
  cases hd with
  | align | straight | orient => exact h
  | speed => exact absurd h (lt_irrefl 0)

/-- While it aligns or goes straight, the law turns by the bearing. -/
theorem angular_error_eq (h : (f.decide r).2.step = .align ∨ (f.decide r).2.step = .straight) :
    (f.decide r).1.angular.error = (f.errorOn r).angle := by
  have hd := f.decided r
  generalize f.decide r = outcome at hd h
  cases hd with
  | align | straight => rfl
  | orient | speed => simp at h

/-- After any history of a new law, whatever the poses are: an error that asks for driving
backwards was permitted, by its cycle or because the move had started to drive towards this
target; and where it is permitted the vehicle turns by a quarter at most before it drives. -/
theorem reverses_only_when_permitted (hlength : ∀ x y, 0 ≤ PlaneFunctions.hypotenuse x y)
    (settings : StraightMoveSettings ℚ) (past : List (MoveEvent ℚ)) (i : MoveSignals ℚ)
    (slots : Vector ℚ 9) :
    ∃ f d f', (fresh settings).performAll past = .ok f ∧
      f.compute i.toSignals slots.toList = .ok (MoveDemand.toSignals d, f') ∧
      (d.linear.error < 0 → MayReverse settings past i) ∧
      (MayReverse settings past i → f'.step = .align ∨ f'.step = .straight →
        |d.angular.error| ≤ 90) := by
  obtain ⟨f, hpast⟩ := (fresh settings).exists_performAll past
  refine ⟨f, _, _, hpast, f.compute_toSignals i slots, ?_, ?_⟩
  · intro hbackwards
    rw [← mayReverse_iff hpast]
    exact allowReverse_of_distance_neg hlength (distance_neg_of_linear_error hbackwards)
  · intro hpermitted hstep
    rw [← mayReverse_iff hpast] at hpermitted
    rw [angular_error_eq hstep, errorOn, hpermitted]
    exact abs_directedError_angle_le _

/-- On the way along the abscissa to a target at a hundred, not to be driven backwards. -/
def headingForward (x : ℚ) : MoveSignals ℚ :=
  ⟨x, 0, 0, 100, 0, 0, 0, 0, 10, 10, 0, 0, 0⟩

/-- The cycle that drives off, with slots that were never written to. -/
def drivenOff : MoveEvent ℚ := .cycle (headingForward 0) (.replicate 9 0)

omit [PlaneFunctions] in
/-- A vehicle that has driven past its target comes straight back. -/
theorem overshoot_is_driven_back :
    ∃ (_ : PlaneFunctions) (f : StraightMove ℚ) (d : MoveDemand ℚ) (f' : StraightMove ℚ),
      (fresh .default).performAll [drivenOff] = .ok f ∧
      f.compute (headingForward 150).toSignals (List.replicate 9 7) = .ok (d.toSignals, f') ∧
      d.linear.error = -50 ∧ MayReverse .default [drivenOff] (headingForward 150) ∧
      f'.step = .straight ∧ |d.angular.error| ≤ 90 := by
  let plane := PlaneFunctions.onAbscissa
  have hlength : ∀ x y, 0 ≤ PlaneFunctions.hypotenuse x y := by
    intro x y
    exact (abs_nonneg x).trans (le_max_left _ _)
  have hrun : ((fresh .default).performAll [drivenOff] >>= fun f =>
      f.compute (headingForward 150).toSignals (List.replicate 9 7)).toOption.map
        (fun r => (r.1.head?, r.2.step)) = some (some (-50), .straight) := by decide +kernel
  obtain ⟨f, d, f', hpast, hcycle, hbackwards, hturn⟩ :=
    reverses_only_when_permitted hlength .default [drivenOff] (headingForward 150) (.replicate 9 7)
  change f.compute _ (List.replicate 9 7) = _ at hcycle
  rw [hpast, ok_bind, hcycle] at hrun
  obtain ⟨herror, hstep⟩ := Prod.mk.inj (Option.some.inj hrun)
  have hlinear : d.linear.error = -50 := Option.some.inj herror
  have hpermitted := hbackwards (by rw [hlinear]; norm_num)
  exact ⟨plane, f, d, f', hpast, hcycle, hlinear, hpermitted, hstep,
    hturn hpermitted (.inr hstep)⟩

end Exact

end StraightMove

end MotionControl
