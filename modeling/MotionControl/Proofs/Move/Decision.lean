import MotionControl.Control.StraightMove
import MotionControl.Proofs.Outcome

/-!
# What a straight-line move decides

A cycle of a straight-line move ends in one of four steps.  Everything else that is shown about such
moves is a case analysis over them.

- `AxisDemand`, `MoveDemand`: the outputs by their names.
- `StraightMove.decide`: a cycle without the slots that it writes, and `StraightMove.compute_eq_ok`:
  it writes every one of them.
- `StraightMove.errorOn`: the pose error that a cycle works on.
- `StraightMove.Decided`, `StraightMove.decided`: the demand and the law after a cycle, step by
  step, with what led to the step.
-/

namespace MotionControl

open Scalar Outcome

/-- What is asked of one axis. -/
structure AxisDemand (α : Type) where
  error : α
  speed : α
  limit : α
  order : α
  deriving Repr, BEq

/-- What is asked of both axes. -/
structure MoveDemand (α : Type) where
  linear : AxisDemand α
  angular : AxisDemand α
  mode : α
  deriving Repr, BEq

namespace MoveDemand

/-- The outputs that belong to one axis. -/
def axisSignals {α : Type} (a : AxisDemand α) : List α := [a.error, a.speed, a.limit, a.order]

/-- The linear axis, the angular axis, the mode. -/
def toSignals {α : Type} (d : MoveDemand α) : List α :=
  axisSignals d.linear ++ axisSignals d.angular ++ [d.mode]

end MoveDemand

variable {α : Type} [Scalar α]

namespace StraightMove

/-! ## The slots of the outputs -/

/-- The demand when the errors and limits of both axes are known. -/
def demand (r : MoveRequest α) (linearError linearLimit angularError angularLimit : α) :
    MoveDemand α where
  linear := ⟨linearError, r.speed.distance, linearLimit, r.order.distance⟩
  angular := ⟨angularError, r.speed.angle, angularLimit, r.order.angle⟩
  mode := r.mode

/-- One cycle: the demand on both axes and the law after it. -/
def decide (f : StraightMove α) (r : MoveRequest α) : MoveDemand α × StraightMove α :=
  if isSet r.mode then
    (demand r 0 (abs r.order.distance) 0 (abs r.order.angle),
      { f with alignedOn := none, step := .speed })
  else
    let (error, linearLimit, f) := f.steer r
    (demand r error.distance linearLimit error.angle (abs r.order.angle), f)

/-- What a cycle writes is what it decides: no slot keeps what it held. -/
theorem compute_eq_ok (f : StraightMove α) {inputs outputs : List α} {r : MoveRequest α}
    (hr : MoveRequest.ofSignals? inputs = some r) (h : outputs.length = 9) :
    f.compute inputs outputs = .ok ((f.decide r).1.toSignals, (f.decide r).2) := by
  match outputs, h with
  | [_, _, _, _, _, _, _, _, _], _ =>
    rw [compute, hr, decide]
    by_cases hmode : isSet r.mode = true
    · simp only [orFault, ok_bind, if_pos hmode]
      rfl
    · simp only [orFault, ok_bind, if_neg hmode]
      rfl

/-- Whatever a cycle is given and writes to, it has read a request. -/
theorem of_compute_eq_ok {f f' : StraightMove α} {inputs outputs outputs' : List α}
    (h : f.compute inputs outputs = .ok (outputs', f')) :
    ∃ r, MoveRequest.ofSignals? inputs = some r ∧ outputs'.length = outputs.length ∧
      f' = (f.decide r).2 := by
  obtain ⟨r, hr, h⟩ := bind_eq_ok_iff.mp h
  obtain ⟨common, hcommon, h⟩ := bind_eq_ok_iff.mp h
  refine ⟨r, orFault_eq_ok_iff.mp hr, ?_⟩
  rw [decide]
  by_cases hmode : isSet r.mode = true
  · rw [if_pos hmode] at h ⊢
    obtain ⟨written, hwritten, h⟩ := bind_eq_ok_iff.mp h
    cases h
    exact ⟨(Slice.length_setAll hwritten).trans (Slice.length_setAll hcommon), rfl⟩
  · rw [if_neg hmode] at h ⊢
    obtain ⟨written, hwritten, h⟩ := bind_eq_ok_iff.mp h
    cases h
    exact ⟨(Slice.length_setAll hwritten).trans (Slice.length_setAll hcommon), rfl⟩

/-! ## The four steps -/

/-- The pose error of a cycle, driven backwards where the request or an alignment allows it. -/
def errorOn (f : StraightMove α) (r : MoveRequest α) : Polar α :=
  directedError r (r.allowReverse || (f.alignmentFor r.target).isSome)

/-- What a cycle comes to, one case for each step. -/
inductive Decided (f : StraightMove α) (r : MoveRequest α) :
    MoveDemand α × StraightMove α → Prop where
  | align (mode : isSet r.mode = false)
      (far : f.settings.linearThreshold < abs (f.errorOn r).distance)
      (turned : f.settings.angularThreshold < abs (f.errorOn r).angle) :
      Decided f r (demand r (f.errorOn r).distance 0 (f.errorOn r).angle (abs r.order.angle),
        { f with alignedOn := f.alignmentFor r.target, step := .align })
  | straight (mode : isSet r.mode = false)
      (far : f.settings.linearThreshold < abs (f.errorOn r).distance)
      (facing : ¬ f.settings.angularThreshold < abs (f.errorOn r).angle) :
      Decided f r (demand r (f.errorOn r).distance (abs r.order.distance) (f.errorOn r).angle
          (abs r.order.angle),
        { f with alignedOn := some r.target, step := .straight })
  | orient (mode : isSet r.mode = false)
      (near : ¬ f.settings.linearThreshold < abs (f.errorOn r).distance) :
      Decided f r (demand r (f.errorOn r).distance (abs r.order.distance)
          (if r.intermediate || f.settings.bypassFinalOrientation then 0
            else r.current.headingErrorTo r.target) (abs r.order.angle),
        { f with alignedOn := f.alignmentFor r.target, step := .orient })
  | speed (mode : isSet r.mode = true) :
      Decided f r (demand r 0 (abs r.order.distance) 0 (abs r.order.angle),
        { f with alignedOn := none, step := .speed })

/-- Every decision is one of the four. -/
theorem decided (f : StraightMove α) (r : MoveRequest α) : Decided f r (f.decide r) := by
  unfold decide
  by_cases hmode : isSet r.mode = true
  · rw [if_pos hmode]
    exact .speed hmode
  · rw [if_neg hmode]
    have hpose : isSet r.mode = false := Bool.not_eq_true _ ▸ hmode
    by_cases hfar : f.settings.linearThreshold < abs (f.errorOn r).distance
    · by_cases hturned : f.settings.angularThreshold < abs (f.errorOn r).angle
      · have hsteer : f.steer r = (f.errorOn r, 0,
            { f with alignedOn := f.alignmentFor r.target, step := .align }) :=
          (if_pos hfar).trans (if_pos hturned)
        rw [hsteer]
        exact .align hpose hfar hturned
      · have hsteer : f.steer r = (f.errorOn r, abs r.order.distance,
            { f with alignedOn := some r.target, step := .straight }) :=
          (if_pos hfar).trans (if_neg hturned)
        rw [hsteer]
        exact .straight hpose hfar hturned
    · have hsteer : f.steer r = ({ f.errorOn r with
              angle := if r.intermediate || f.settings.bypassFinalOrientation then 0
                else r.current.headingErrorTo r.target },
            abs r.order.distance,
            { f with alignedOn := f.alignmentFor r.target, step := .orient }) := if_neg hfar
      rw [hsteer]
      exact .orient hpose hfar

/-- A decision leaves the settings alone. -/
theorem decide_settings (f : StraightMove α) (r : MoveRequest α) :
    (f.decide r).2.settings = f.settings := by
  have h := f.decided r
  generalize f.decide r = outcome at h ⊢
  cases h with
  | _ => rfl

end StraightMove

end MotionControl
