import MotionControl.Control.Fault

/-!
# Outcomes of computations

A computation that may fail is a chain of steps, and it has a result exactly when
every step has one.

- `Outcome.bind_eq_ok_iff`, `Outcome.map_eq_ok_iff`: a chain with a result, taken apart.
- `Outcome.bind_ok_eq_error_iff`: a chain without one.
- `Outcome.mapError_eq_ok_iff`, `Outcome.toOption_eq_some_iff`, `Outcome.orFault_eq_ok_iff`: the
  same result under another failure or none.
-/

namespace MotionControl

namespace Outcome

variable {ε β γ : Type}

@[simp] theorem ok_bind (b : β) (f : β → Except ε γ) : (.ok b >>= f) = f b := rfl

@[simp] theorem error_bind (e : ε) (f : β → Except ε γ) : (.error e >>= f) = .error e := rfl

/-- Two steps succeed if and only if the first does, and the second on what it gives. -/
theorem bind_eq_ok_iff {x : Except ε β} {f : β → Except ε γ} {c : γ} :
    (x >>= f) = .ok c ↔ ∃ b, x = .ok b ∧ f b = .ok c := by
  cases x with
  | ok b =>
    constructor
    · intro h
      exact ⟨b, rfl, h⟩
    · rintro ⟨_, ⟨⟩, h⟩
      exact h
  | error e =>
    constructor
    · intro h
      cases h
    · rintro ⟨_, h, _⟩
      cases h

/-- Nothing fails after a step that only goes on. -/
theorem bind_ok_eq_error_iff {x : Except ε β} {f : β → γ} {e : ε} :
    (do
      let b ← x
      .ok (f b)) = .error e ↔ x = .error e := by
  cases x with
  | ok b =>
    constructor
    · intro h
      cases h
    · intro h
      cases h
  | error e' =>
    constructor
    · rintro ⟨⟩
      rfl
    · rintro ⟨⟩
      rfl

theorem map_eq_ok_iff {x : Except ε β} {f : β → γ} {c : γ} :
    x.map f = .ok c ↔ ∃ b, x = .ok b ∧ f b = c := by
  cases x with
  | ok b =>
    constructor
    · intro h
      cases h
      exact ⟨b, rfl, rfl⟩
    · rintro ⟨_, ⟨⟩, rfl⟩
      rfl
  | error e =>
    constructor
    · intro h
      cases h
    · rintro ⟨_, h, _⟩
      cases h

/-- Another reason for failures is no matter when there is none. -/
theorem mapError_eq_ok_iff {ε' : Type} {x : Except ε β} {f : ε → ε'} {b : β} :
    x.mapError f = .ok b ↔ x = .ok b := by
  cases x with
  | ok a =>
    constructor
    · rintro ⟨⟩
      rfl
    · rintro ⟨⟩
      rfl
  | error e =>
    constructor
    · intro h
      cases h
    · intro h
      cases h

/-- Forgetting the reason keeps the result. -/
theorem toOption_eq_some_iff {x : Except ε β} {b : β} : x.toOption = some b ↔ x = .ok b := by
  cases x with
  | ok a =>
    constructor
    · rintro ⟨⟩
      rfl
    · rintro ⟨⟩
      rfl
  | error e =>
    constructor
    · intro h
      cases h
    · intro h
      cases h

theorem toOption_map_eq_some_iff {x : Except ε β} {f : β → γ} {c : γ} :
    x.toOption.map f = some c ↔ ∃ b, x = .ok b ∧ f b = c := by
  simp only [Option.map_eq_some_iff, toOption_eq_some_iff]

theorem toOption_bind_eq_some_iff {x : Except ε β} {f : β → Option γ} {c : γ} :
    x.toOption.bind f = some c ↔ ∃ b, x = .ok b ∧ f b = some c := by
  simp only [Option.bind_eq_some_iff, toOption_eq_some_iff]

/-- A value that may be missing is there. -/
theorem orFault_eq_ok_iff {fault : Fault} {x : Option β} {b : β} :
    orFault fault x = .ok b ↔ x = some b := by
  cases x with
  | none =>
    constructor
    · intro h
      cases h
    · intro h
      cases h
  | some c =>
    constructor
    · intro h
      cases h
      rfl
    · intro h
      cases h
      rfl

end Outcome

end MotionControl
