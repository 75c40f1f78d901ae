import MotionControl.Proofs.Scalar.Double
import MotionControl.Proofs.Tree.Assembly
import MotionControl.Proofs.Tree.Vectors

/-!
# Validated trees do not fault

A tree of typed leaves that passes `validate` works without a fault, whatever values it is
given and whatever parameter blocks it accepts on the way.

- `TreeCall`, `Node.call`, `Node.calls`: what can be done with a finished tree.
- `Node.Sound.call`: one call to a sound tree whose laws answer.
- `Node.validated_tree_never_faults`: any sequence of calls to a validated tree.
-/

namespace MotionControl

open Outcome

/-- A call to a finished tree. -/
inductive TreeCall (α : Type) where
  | setInputs (values : List α)
  | compute
  | reset
  | setParameters (name : String) (settings : LawSettings α)

/-- The caller may overwrite the inputs with as many values as there are. -/
def TreeCall.Fits {α : Type} (width : Nat) : TreeCall α → Prop
  | setInputs values => values.length = width
  | compute | reset | setParameters .. => True

namespace Node

variable {α : Type} [Scalar α]

/-- The tree after a call.  A parameter block that is refused leaves it as it is. -/
def call (n : Node α) : TreeCall α → Except Fault (Node α)
  | .setInputs values => n.setInputs values
  | .compute => n.compute
  | .reset => .ok n.reset
  | .setParameters name settings => .ok ((n.setParameters name settings).toOption.getD n)

/-- The tree after calls, one after another. -/
def calls (n : Node α) (cs : List (TreeCall α)) : Except Fault (Node α) := cs.foldlM call n

/-! ## Sound trees -/

section Sound

variable {P : Law α → Prop}

/-- A cycle of a sound tree does not fault when its laws answer. -/
theorem Sound.compute (hP : LawInvariant P) (hanswer : Answering P) {n : Node α}
    (h : Sound P n) : ∃ n', n.compute = .ok n' ∧ Kept P n n' := by
  obtain ⟨v, hv, hlength, _⟩ := h.inputs
  have hcycle := h.cycle hP v.values hlength
  rw [← run_none hv] at hcycle
  obtain ⟨n', r, hrun, _, hr⟩ := hcycle.answers hanswer
  exact ⟨n', hrun, hr.toKept⟩

/-- Nor does a response to as many inputs as it takes. -/
theorem Sound.machine_respond (hP : LawInvariant P) (hanswer : Answering P) {n : Node α}
    (h : Sound P n) {values : List α} (hvalues : values.length = n.inputCount) :
    ∃ r, (machine α).respond n values = some r ∧ Kept P n r.2 := by
  obtain ⟨⟨s, n'⟩, r, hrespond, _, _, hkept, _⟩ := (h.respond hP hvalues).answers hanswer
  refine ⟨(s.values, n'), ?_, hkept⟩
  show (n.respond values).toOption.map _ = _
  rw [hrespond]
  rfl

/-- A call to a sound tree whose laws answer leaves a sound tree with the same ends. -/
theorem Sound.call (hP : LawInvariant P) (hanswer : Answering P) {n : Node α} (h : Sound P n)
    {c : TreeCall α} (hc : c.Fits n.inputCount) : ∃ n', n.call c = .ok n' ∧ Kept P n n' := by
  cases c with
  | setInputs values => exact h.setInputs hc
  | compute => exact h.compute hP hanswer
  | reset => exact ⟨n.reset, rfl, h.reset hP⟩
  | setParameters name settings =>
    refine ⟨_, rfl, ?_⟩
    cases hs : n.setParameters name settings with
    | ok n' => exact h.setParameters hP hs
    | error e => exact .refl h

theorem Sound.calls (hP : LawInvariant P) (hanswer : Answering P) {n : Node α} (h : Sound P n)
    {cs : List (TreeCall α)} (hcs : ∀ c ∈ cs, c.Fits n.inputCount) :
    ∃ n', n.calls cs = .ok n' ∧ Kept P n n' := by
  induction cs generalizing n with
  | nil => exact ⟨n, rfl, .refl h⟩
  | cons c rest ih =>
    rw [List.forall_mem_cons] at hcs
    obtain ⟨n₁, hcall, hkept⟩ := h.call hP hanswer hcs.1
    have hrest : ∀ c ∈ rest, c.Fits n₁.inputCount := by
      rw [hkept.ends.inputCount]
      exact hcs.2
    obtain ⟨n', hcalls, hkept'⟩ := ih hkept.sound hrest
    refine ⟨n', ?_, hkept'.sound, hkept.ends.trans hkept'.ends⟩
    rw [Node.calls, List.foldlM_cons, hcall, ok_bind]
    exact hcalls

end Sound

/-! ## Typed leaves -/

/-- The settings of a typed leaf passed their check. -/
theorem TypedLeaf.checked {name : String} {law : Law α} {inputs outputs : Signals α}
    (h : TypedLeaf (.leaf name law inputs outputs)) : law.Checked := by
  cases h with
  | pid made =>
    obtain ⟨hcheck, hlaw⟩ := ofSettings_eq_ok made
    cases (ofLaw_eq_ok hlaw).1
    intro channel hmem
    rw [List.eq_of_mem_replicate hmem]
    exact hcheck
  | straightMove made =>
    obtain ⟨hcheck, hlaw⟩ := ofSettings_eq_ok made
    cases (ofLaw_eq_ok hlaw).1
    exact hcheck
  | speedRamp made =>
    obtain ⟨hcheck, hlaw⟩ := ofSettings_eq_ok made
    cases (ofLaw_eq_ok hlaw).1
    exact hcheck
  | select made =>
    cases (ofLaw_eq_ok made).1
    trivial
  | forward made =>
    cases (ofLaw_eq_ok made).1
    trivial

/-- A validated tree of typed leaves is sound, and its settings passed their checks. -/
theorem Assembled.sound_checked {n : Node α} (h : Assembled TypedLeaf n)
    (hv : n.validate = .ok ()) : Sound Law.Checked n :=
  h.sound (fun _ hleaf => hleaf.isLeaf) (fun _ _ _ _ hleaf => hleaf.checked) hv

/-- No sequence of calls to a validated tree of typed leaves faults: not the writing of any
values, infinities and values that are not numbers included, no cycle, no reset and no
parameter block, accepted or refused.  After every call, the tree takes and gives as many
signals as before and still passes `validate`. -/
theorem validated_tree_never_faults {n : Node Float} (h : Assembled TypedLeaf n)
    (hv : n.validate = .ok ()) {cs : List (TreeCall Float)}
    (hcs : ∀ c ∈ cs, c.Fits n.inputCount) :
    ∃ n', n.calls cs = .ok n' ∧ n'.inputCount = n.inputCount ∧
      n'.outputCount = n.outputCount ∧ n'.validate = .ok () := by
  obtain ⟨n', hcalls, hkept⟩ := (h.sound_checked hv).calls Law.Checked.invariant
    Law.Checked.answering hcs
  exact ⟨n', hcalls, hkept.ends.inputCount, hkept.ends.outputCount, hkept.sound.validate⟩

/-- A ramp with the default settings over a period of one second. -/
def defaultRamp : Node Float := .leaf "ramp" (.speedRamp ⟨.default, 1⟩) ⟨[0, 0, 0]⟩ ⟨[0, 0]⟩

/-- The ramp, followed by a relay of both its outputs. -/
def rampCascade : Node Float :=
  .sequential "speed" [defaultRamp, .leaf "relay" (.forward 2) ⟨[0, 0]⟩ ⟨[0, 0]⟩]

theorem rampCascade_assembled : Assembled TypedLeaf rampCascade := by
  have hramp : TypedLeaf defaultRamp :=
    .speedRamp (rfl : Node.speedRamp "ramp" .default (1 : Float) = .ok defaultRamp)
  have hfirst : Assembled TypedLeaf (.sequential "speed" [defaultRamp]) :=
    .stage .cascade (.leaf hramp) rfl
  exact .stage hfirst (.leaf (.forward (rfl : Node.forward "relay" 2 = _))) rfl

theorem rampCascade_never_faults :
    rampCascade.validate = .ok () ∧
      ∃ n', rampCascade.calls [.setInputs [0 / 0, 1 / 0, 1], .compute,
        .setParameters "ramp" (.speedRamp ⟨2, 1, 1⟩), .reset, .compute] = .ok n' ∧
        n'.inputCount = 3 ∧ n'.outputCount = 2 ∧ n'.validate = .ok () := by
  refine ⟨rfl, validated_tree_never_faults rampCascade_assembled rfl ?_⟩
  simp [TreeCall.Fits, rampCascade, defaultRamp, Signals.length]

/-- The maps have to be checked: a relay of one signal, of which the parent wants two. -/
example : (parallel "axes" ⟨[0]⟩ ⟨[0, 0]⟩
    [⟨[0], [0, 1], .leaf "relay" (.forward 1) ⟨[0]⟩ ⟨[0]⟩⟩] : Node Float).compute =
      .error (.signalIndex 1 1) := rfl

end Node

end MotionControl
