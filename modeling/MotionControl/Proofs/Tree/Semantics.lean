import MotionControl.Proofs.Tree.Assembly
import MotionControl.Proofs.Tree.Inlining
import MotionControl.Proofs.Tree.Vectors
import MotionControl.Scalar

/-!
# What a validated tree computes

The vectors of a tree are no part of what it computes.  Over a whole run, a validated tree
gives the outputs of its circuit, whatever its vectors held before.

- `Node.compute_refines_circuit`: runs against runs of the circuit, trees that differ in
  their vectors, and cascades within cascades.
-/

namespace MotionControl

namespace Node

variable {α : Type} [Scalar α]

/-- An assembled tree that passes `validate` is sound, whatever its vectors hold. -/
theorem sound_of_assembled {m n : Node α} (hm : Assembled IsLeaf m) (hv : m.validate = .ok ())
    (hn : n.blank = m.blank) : Kept (fun _ => True) m n :=
  (hm.sound (fun _ h => h) (fun _ _ _ _ _ => trivial) hv).sameBlank hn

theorem play_inlined {P : Law α → Prop} (hP : LawInvariant P) {n n' m : Node α}
    (hn : Sound P n) (h : Inlined n m) {rounds : List (Round α (String × LawSettings α))}
    (hrounds : ∀ r ∈ rounds, r.Fits n.inputCount) {outputs : List (List α)}
    (hplay : (machine α).play n rounds = some (outputs, n')) :
    ∃ m', (machine α).play m rounds = some (outputs, m') := by
  have hkept := h.kept hn
  have hcircuit : (Circuit.machine α).play n.circuit rounds = some (outputs, n'.circuit) := by
    rw [← hn.play hP hrounds, hplay, Option.map_some]
  obtain ⟨c', hc', _⟩ := Cyclic.play_of_follows (Circuit.inlined_follows n.inputCount)
    h.circuit hrounds hcircuit
  have hrounds' : ∀ r ∈ rounds, r.Fits m.inputCount := by
    rw [hkept.ends.inputCount]
    exact hrounds
  rw [← hkept.sound.play hP hrounds'] at hc'
  obtain ⟨⟨_, m'⟩, hm', heq⟩ := Option.map_eq_some_iff.mp hc'
  cases heq
  exact ⟨m', hm'⟩

/-- A tree `n` that is a validated tree `m` up to the contents of its vectors computes what
the circuit of `m` does.  Over every run of cycles on as many inputs as the tree takes, of
resets and of parameter blocks, the outputs and the laws are those of the circuit.  After one
cycle, nothing is left of what the vectors held.  And when a nested cascade is replaced by
its stages, the tree still passes `validate` and gives the same outputs. -/
theorem compute_refines_circuit {m n : Node α} (hm : Assembled IsLeaf m)
    (hv : m.validate = .ok ()) (hn : n.blank = m.blank) :
    (∀ rounds : List (Round α (String × LawSettings α)), (∀ r ∈ rounds, r.Fits m.inputCount) →
      ((machine α).play n rounds).map (fun r => (r.1, r.2.circuit))
        = (Circuit.machine α).play m.circuit rounds) ∧
    (∀ values : List α, values.length = m.inputCount → n.respond values = m.respond values) ∧
    (∀ n' : Node α, Inlined n n' → n'.validate = .ok () ∧
      ∀ rounds : List (Round α (String × LawSettings α)), (∀ r ∈ rounds, r.Fits m.inputCount) →
        ∀ outputs after, (machine α).play n rounds = some (outputs, after) →
          ∃ after', (machine α).play n' rounds = some (outputs, after')) := by
  have hkept := sound_of_assembled hm hv hn
  have hsound := hm.sound (P := fun _ => True) (fun _ h => h) (fun _ _ _ _ _ => trivial) hv
  refine ⟨fun rounds hrounds => ?_, fun values hvalues => ?_, fun n' h => ⟨?_, ?_⟩⟩
  · rw [← hkept.ends.inputCount] at hrounds
    rw [hkept.sound.play Law.invariant_true hrounds, ← circuit_blank n, hn, circuit_blank]
  · exact hsound.respond_sameBlank Law.invariant_true hn hvalues
  · exact (h.kept hkept.sound).sound.validate
  · intro rounds hrounds outputs after hplay
    rw [← hkept.ends.inputCount] at hrounds
    exact play_inlined Law.invariant_true hkept.sound h hrounds hplay

/-- A cascade that holds another one, with a relay of one signal in it and this signal in
the vectors. -/
def nestedRelay (v : Float) : Node Float :=
  .sequential "outer" [.sequential "inner" [.leaf "relay" (.forward 1) ⟨[v]⟩ ⟨[v]⟩]]

theorem nestedRelay_refines_circuit :
    Assembled IsLeaf (nestedRelay 0) ∧ (nestedRelay 0).validate = .ok () ∧
      (nestedRelay 5).blank = (nestedRelay 0).blank ∧
      ((machine Float).play (nestedRelay 5) [.cycle [1], .reset, .cycle [2]]).map (·.1)
        = some [[1], [2]] := by
  have hm : Assembled IsLeaf (nestedRelay 0) :=
    .stage .cascade (.stage .cascade (.leaf ⟨"relay", .forward 1, rfl⟩) rfl) rfl
  refine ⟨hm, rfl, rfl, ?_⟩
  have hrun := (compute_refines_circuit hm rfl (rfl : (nestedRelay 5).blank = _)).1
    [.cycle [1], .reset, .cycle [2]] (by simp [Round.Fits, nestedRelay, Signals.length])
  have houtputs := congrArg (Option.map (·.1)) hrun
  rw [Option.map_map] at houtputs
  exact houtputs.trans rfl

end Node

end MotionControl
