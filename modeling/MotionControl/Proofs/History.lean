import Mathlib.Data.List.Basic

/-!
# Histories

The events of a run, the latest one last.  What may happen depends on what happened before.

- `EachFollows`: every event of a history is one that may follow its past.
- `EachFollows.concat`, `EachFollows.of_append`: so it is with one more event, and was at any time
  before.
-/

namespace MotionControl

variable {ε : Type} {P : List ε → ε → Prop} {log rest : List ε} {event : ε}

/-- Every event of a history is one that may follow what was before it. -/
def EachFollows (P : List ε → ε → Prop) (log : List ε) : Prop :=
  ∀ before event after, log = before ++ event :: after → P before event

namespace EachFollows

theorem nil : EachFollows P [] := by
  intro before event after hempty
  cases (List.append_eq_nil_iff.mp hempty.symm).2

/-- The new event follows everything, and no other event has another past than before. -/
theorem concat (h : EachFollows P log) (hevent : P log event) : EachFollows P (log ++ [event]) := by
  intro before event' after hsplit
  rcases List.eq_nil_or_concat after with rfl | ⟨after, last, rfl⟩
  · obtain ⟨rfl, hlast⟩ := List.append_inj' hsplit rfl
    rw [← (List.cons.inj hlast).1]
    exact hevent
  · rw [List.concat_eq_append, ← List.cons_append, ← List.append_assoc] at hsplit
    obtain ⟨hlog, -⟩ := List.append_inj' hsplit rfl
    exact h before event' after hlog

/-- What holds of a history holds of each of its beginnings. -/
theorem of_append (h : EachFollows P (log ++ rest)) : EachFollows P log := by
  intro before event after hsplit
  refine h before event (after ++ rest) ?_
  rw [hsplit, List.append_assoc, List.cons_append]

/-- The last event follows all the others. -/
theorem last (h : EachFollows P (log ++ [event])) : P log event := h log event [] rfl

end EachFollows

end MotionControl
