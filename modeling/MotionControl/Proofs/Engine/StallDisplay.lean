import MotionControl.Proofs.Engine.Stalling

/-!
# The count of stalled cycles on display

The state of an engine shows how many cycles in a row were stalled.  It follows the detector
with every cycle.  In between, a command that is accepted in a regulating mode takes the count
off the display and leaves it with the detector, so that the next cycle shows all of it again.

- `Engine.Mirrors`: what the state shows between two cycles.
- `Engine.supervised_mirrors`: after a cycle it shows what the detector holds.
- `Engine.display_follows_count`: both over whole runs.
- `Engine.retarget_hides_count`: a target given anew, and the count back at once.
-/

namespace MotionControl

open Outcome

namespace Engine

variable {α σ : Type} [Scalar α] {e e' : Engine α σ}

/-- In a regulating mode, the state shows the count of the detector, or no stalled cycle if a
command was accepted since the last cycle. -/
def Mirrors (e : Engine α σ) : Prop :=
  e.mode.isRegulating → e.state.stalledCycles = e.stall.cycles ∨
    e.state.stalledCycles = 0 ∧ e.state.commandCycle = e.state.cycle

omit [Scalar α] in
/-- What is carried is shown. -/
theorem Mirrors.carried (h : e.Mirrors) (hcarried : Carried e e') : e'.Mirrors := by
  intro hregulating
  have hstall := hcarried.stall
  obtain ⟨hshown, hmode | hcommand⟩ | ⟨hmode, hshown, hcommand, hcycle⟩ := hcarried.shown
  · -- Another mode starts with no count at all.
    rw [if_neg hmode] at hstall
    left
    rw [hshown, hstall]
    rfl
  · exact .inr ⟨hshown, hcommand⟩
  · rw [if_pos hmode] at hstall
    rw [hshown, hcommand, hcycle, hstall]
    exact h (hmode ▸ hregulating)

theorem request_mirrors (h : e.Mirrors) (what : Request α) : (e.request what).Mirrors := by
  cases what with
  | setStallSettings settings =>
    refine granted_cases h fun e' hset => ?_
    rw [setStallSettings_eq_ok hset]
    by_cases henabled : settings.enabled
    · rw [if_pos henabled]
      exact h
    · rw [if_neg henabled]
      exact fun _ => .inl rfl
  | _ => exact h.carried (request_carried e (by rintro _ ⟨⟩))

/-- Whatever was on display, and whatever the hooks made of it: after a cycle that ends in a
regulating mode, it is the count of the detector. -/
theorem supervised_mirrors {c : Engine α σ} (h : c.supervised.mode.isRegulating) :
    c.supervised.state.stalledCycles = c.supervised.stall.cycles := by
  obtain halike | ⟨-, hidle⟩ := supervised_spec c
  · rw [halike.mode] at h
    rw [halike.shown, halike.stall]
    have htrips : ¬ c.Trips := by
      intro htrips
      rw [(stallChecked_of_trips htrips).mode] at h
      cases h
    rw [stallChecked_mode htrips] at h
    by_cases hstalled : c.Stalled
    · obtain ⟨-, hcycles, hshown⟩ :=
        stallChecked_of_below hstalled fun hfull => htrips ⟨hstalled, hfull⟩
      rw [hcycles, hshown]
    · obtain ⟨hcycles, hshown⟩ | ⟨hidle, -⟩ := (stallChecked_of_not_stalled hstalled).2
      · rw [hcycles, hshown]
      · rw [h] at hidle
        cases hidle
  · rw [hidle] at h
    cases h

/-- After a cycle that regulates, the count that is shown is the count. -/
theorem step_mirrors (hstep : e.step = .ok e') (h : e'.mode.isRegulating) :
    e'.state.stalledCycles = e'.stall.cycles := by
  obtain ⟨c, -, rfl⟩ := step_eq_ok_iff.mp hstep
  exact supervised_mirrors h

theorem Built.mirrors (h : Built e) : e.Mirrors := by
  intro _
  left
  rw [h.uncounted.2.2, h.uncounted.2.1]

/-- The detector counts one cycle at a time. -/
theorem stallChecked_cycles_le (c : Engine α σ) :
    c.stallChecked.stall.cycles.toNat ≤ c.stall.cycles.toNat + 1 := by
  by_cases htrips : c.Trips
  · rw [(stallChecked_of_trips htrips).restarted]
    exact Nat.zero_le _
  · by_cases hstalled : c.Stalled
    · obtain ⟨-, hcycles, -⟩ :=
        stallChecked_of_below hstalled fun hfull => htrips ⟨hstalled, hfull⟩
      rw [hcycles, counted, toNat_countUp]
      exact Nat.min_le_left _ _
    · obtain ⟨hcycles, -⟩ | ⟨-, hkept⟩ := (stallChecked_of_not_stalled hstalled).2
      · rw [hcycles]
        exact Nat.zero_le _
      · rw [hkept]
        exact Nat.le_succ _

omit [Scalar α] in
theorem cycles_le_of_carried (h : e'.stall = if e'.mode = e.mode then e.stall else e.stall.reset) :
    e'.stall.cycles.toNat ≤ e.stall.cycles.toNat := by
  rw [h]
  by_cases hmode : e'.mode = e.mode
  · exact Nat.le_of_eq (by rw [if_pos hmode])
  · rw [if_neg hmode]
    exact Nat.zero_le _

/-- A cycle counts up by one at most. -/
theorem step_cycles_le (hstep : e.step = .ok e') :
    e'.stall.cycles.toNat ≤ e.stall.cycles.toNat + 1 := by
  obtain ⟨c, hc, rfl⟩ := step_eq_ok_iff.mp hstep
  calc c.supervised.stall.cycles.toNat
      ≤ c.stallChecked.stall.cycles.toNat := cycles_le_of_carried (supervised_carried c).stall
    _ ≤ c.stall.cycles.toNat + 1 := stallChecked_cycles_le c
    _ ≤ e.stall.cycles.toNat + 1 :=
      Nat.add_le_add_right (cycles_le_of_carried (controlled_stall hc)) 1

/-- After any operations on a fresh engine that leave it in a regulating mode, the state shows
the count of the detector, or no stalled cycle if a command was accepted since the last cycle.
One more cycle that ends in a regulating mode shows the count of the detector in any case, and
this has grown by one at most. -/
theorem display_follows_count {operations : List (Operation α)} (hbuilt : Built e)
    (hrun : e.performAll operations = .ok e') :
    (e'.mode.isRegulating → e'.state.stalledCycles = e'.stall.cycles ∨
      e'.state.stalledCycles = 0 ∧ e'.state.commandCycle = e'.state.cycle) ∧
    ∀ e'', e'.step = .ok e'' → e''.mode.isRegulating →
      e''.state.stalledCycles = e''.stall.cycles ∧
        e''.stall.cycles.toNat ≤ e'.stall.cycles.toNat + 1 := by
  have hmirrors : e'.Mirrors := by
    refine performAll_invariant (I := Mirrors) (fun _ what h => request_mirrors h what) ?_
      hbuilt.mirrors hrun
    exact fun _ _ _ hstep hregulating => .inl (step_mirrors hstep hregulating)
  exact ⟨hmirrors, fun e'' hstep hregulating =>
    ⟨step_mirrors hstep hregulating, step_cycles_le hstep⟩⟩

/-- Two stalled cycles of the axis that never turns. -/
def twiceStalled : List (Operation Float) :=
  [.request .enable, .request (.setStallSettings ⟨true, 1, 1, 9⟩),
    .request (.setSpeedTarget (.speed 100 0)), .step, .step]

/-- After two stalled cycles the state shows two. -/
theorem twiceStalled_shows :
    ∃ e e' e'', stuckLift = .ok e ∧ e.performAll twiceStalled = .ok e' ∧ e'.step = .ok e'' ∧
      e'.state.stalledCycles = 2 ∧ e''.state.stalledCycles = e''.stall.cycles ∧
      e''.stall.cycles.toNat ≤ e'.stall.cycles.toNat + 1 := by
  have hruns : (stuckLift.toOption.bind fun e => (e.performAll twiceStalled).toOption.bind
      fun e' => e'.step.toOption.map fun e'' => (e'.state.stalledCycles, e''.mode))
        = some (2, .runningSpeed) := by decide +kernel
  obtain ⟨e, hbuilt, hran⟩ := Option.bind_eq_some_iff.mp hruns
  obtain ⟨e', hrun, hran⟩ := Option.bind_eq_some_iff.mp hran
  obtain ⟨e'', hstep, hends⟩ := Option.map_eq_some_iff.mp hran
  rw [toOption_eq_some_iff] at hbuilt hrun hstep
  rw [Prod.mk.injEq] at hends
  have hregulating : e''.mode.isRegulating := by
    rw [hends.2]
    rfl
  obtain ⟨hshown, hcount⟩ := (display_follows_count (.motor hbuilt) hrun).2 e'' hstep hregulating
  exact ⟨e, e', e'', hbuilt, hrun, hstep, hends.1, hshown, hcount⟩

/-- The same target once more takes the two cycles off the display, though the detector still
holds them: the next cycle shows three. -/
theorem retarget_hides_count :
    ∃ e e' e'', stuckLift = .ok e ∧
      e.performAll (twiceStalled ++ [.request (.setSpeedTarget (.speed 100 0))]) = .ok e' ∧
      e'.step = .ok e'' ∧ e'.mode = .runningSpeed ∧ e'.state.stalledCycles = 0 ∧
      e'.stall.cycles = 2 ∧ e''.mode = .runningSpeed ∧ e''.state.stalledCycles = 3 := by
  have hruns : (stuckLift.toOption.bind fun e =>
      (e.performAll (twiceStalled ++ [.request (.setSpeedTarget (.speed 100 0))])).toOption.bind
        fun e' => e'.step.toOption.map fun e'' =>
          (e'.mode, e'.state.stalledCycles, e'.stall.cycles, e''.mode, e''.state.stalledCycles))
      = some (.runningSpeed, 0, 2, .runningSpeed, 3) := by decide +kernel
  obtain ⟨e, hbuilt, hran⟩ := Option.bind_eq_some_iff.mp hruns
  obtain ⟨e', hrun, hran⟩ := Option.bind_eq_some_iff.mp hran
  obtain ⟨e'', hstep, hends⟩ := Option.map_eq_some_iff.mp hran
  rw [toOption_eq_some_iff] at hbuilt hrun hstep
  simp only [Prod.mk.injEq] at hends
  obtain ⟨hmode, hshown, hheld, hmode', hshown'⟩ := hends
  exact ⟨e, e', e'', hbuilt, hrun, hstep, hmode, hshown, hheld, hmode', hshown'⟩

end Engine

end MotionControl
