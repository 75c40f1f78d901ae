/-!
# Changes in place

A caller who holds on to something and has it changed piece by piece sees every piece, also when
the change is given up halfway.

- `InPlace`: a change of a state that may be given up, and that leaves the state as it is by then.
- `InPlace.run`: its outcome, and the state that it leaves.
- `InPlace.within`: a change of one part of a larger state.
- `InPlace.settle`, `InPlace.conclude`: a change that is made as a whole or not at all.
- `InPlace.run_bind`, `InPlace.run_within` and so on: what a change comes to, statement by
  statement.
- `InPlace.run_bind_of_settle`: a change as a whole, followed by one that cannot be given up.
-/

namespace MotionControl

/-- A change of a state of type `s`, statement by statement.  A change that is given up leaves
the state as the statements before made it. -/
abbrev InPlace (ε s β : Type) := ExceptT ε (StateM s) β

namespace InPlace

variable {ε ε' s t β γ : Type}

/-- The outcome of a change, and the state that it leaves. -/
def run (change : InPlace ε s β) (state : s) : Except ε β × s := change state

/-- A change of one part of a larger state. -/
def within (part : t → s) (replace : s → t → t) (change : InPlace ε s β) : InPlace ε t β :=
  fun whole =>
    let (outcome, left) := change.run (part whole)
    (outcome, replace left whole)

/-- The same change, its failures told in other words. -/
def reporting (report : ε → ε') (change : InPlace ε s β) : InPlace ε' s β := fun state =>
  let (outcome, left) := change.run state
  (outcome.mapError report, left)

/-! ## Changes as a whole

Most changes that can be given up are given up before they have changed anything. -/

/-- The outcome of a change that is made as a whole or not at all, and the state that it leaves. -/
def conclude (state : s) : Except ε (β × s) → Except ε β × s
  | .ok (b, left) => (.ok b, left)
  | .error reason => (.error reason, state)

/-- The same for a change without a result of its own. -/
def settle (state : s) : Except ε s → Except ε Unit × s
  | .ok left => (.ok (), left)
  | .error reason => (.error reason, state)

/-- A change as a whole that is given up leaves the state as it was. -/
theorem settle_eq_error_iff {state left : s} {outcome : Except ε s} {reason : ε} :
    settle state outcome = (.error reason, left) ↔ outcome = .error reason ∧ left = state := by
  cases outcome with
  | ok b =>
    constructor
    · intro h
      cases h
    · rintro ⟨h, -⟩
      cases h
  | error reason' =>
    constructor
    · rintro ⟨⟩
      exact ⟨rfl, rfl⟩
    · rintro ⟨⟨⟩, rfl⟩
      rfl

/-- A part that is changed as a whole is a whole that is. -/
theorem map_settle (f : s → t) (state : s) (outcome : Except ε s) :
    Prod.map id f (settle state outcome) = settle (f state) (outcome.map f) := by
  cases outcome with
  | ok left => rfl
  | error reason => rfl

theorem run_get (state : s) : (get : InPlace ε s s).run state = (.ok state, state) := rfl

/-- Whatever a change that is given up did until then is still there. -/
theorem run_bind (change : InPlace ε s β) (next : β → InPlace ε s γ) (state : s) :
    (change >>= next).run state = match change.run state with
      | (.ok b, left) => (next b).run left
      | (.error reason, left) => (.error reason, left) := by
  have hbind : (change >>= next).run state =
      (ExceptT.bindCont next (change.run state).1) (change.run state).2 := rfl
  rw [hbind]
  rcases change.run state with ⟨reason | b, left⟩
  · rfl
  · rfl

/-- What takes the place of a change that was given up begins where that one ended. -/
theorem run_tryCatch (change : InPlace ε s β) (instead : ε → InPlace ε s β) (state : s) :
    (tryCatch change instead).run state = match change.run state with
      | (.ok b, left) => (.ok b, left)
      | (.error reason, left) => (instead reason).run left := by
  show ExceptT.tryCatch change instead state = _
  simp only [ExceptT.tryCatch, ExceptT.mk, bind, StateT.bind, InPlace.run]
  rcases change state with ⟨reason | b, left⟩
  · rfl
  · rfl

/-- A change of a part leaves the rest of the whole alone. -/
theorem run_within (change : InPlace ε s β) (part : t → s) (replace : s → t → t) (whole : t) :
    (change.within part replace).run whole =
      ((change.run (part whole)).1, replace (change.run (part whole)).2 whole) := rfl

/-- Another reason is reported, and the same is left. -/
theorem run_reporting (change : InPlace ε s β) (report : ε → ε') (state : s) :
    (change.reporting report).run state =
      ((change.run state).1.mapError report, (change.run state).2) := rfl

/-- A change as a whole stays one if nothing that follows it can be given up. -/
theorem run_bind_of_settle {change : InPlace ε s Unit} {next : Unit → InPlace ε s Unit}
    {outcome : Except ε s} {after : s → s} {state : s}
    (hchange : change.run state = settle state outcome)
    (hnext : ∀ left, (next ()).run left = (.ok (), after left)) :
    (change >>= next).run state = settle state (do
      let left ← outcome
      .ok (after left)) := by
  rw [run_bind, hchange]
  cases outcome with
  | ok left => exact hnext left
  | error reason => rfl

end InPlace

end MotionControl
