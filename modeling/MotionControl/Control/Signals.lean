import MotionControl.Control.Fault
import MotionControl.Control.WiringError
import MotionControl.Scalar

/-!
# Signal vectors

The inputs and the outputs of a controller.  A vector has the length it was made
with; reading or writing past its end is a fault.

- `Signals.zeroed`: a vector of zeros, within `Signals.capacity`.
- `Signals.get`, `Signals.set`, `Signals.copy`: the checked accesses.
- `Slice.get`, `Slice.setAll`, `Slice.copy`, `Slice.range`: what a law does to the bare
  values of vectors, whose faults have no message.
-/

namespace MotionControl

/-! ## The values of a vector -/

namespace Slice

variable {α : Type}

/-- Reads one value. -/
def get (values : List α) (index : Nat) : Except Fault α := orFault .signalCount values[index]?

/-- Writes one value. -/
def set (values : List α) (index : Nat) (v : α) : Except Fault (List α) :=
  if index < values.length then .ok (values.set index v) else .error .signalCount

/-- Writes values to their places, one after another. -/
def setAll (values : List α) (writes : List (Nat × α)) : Except Fault (List α) :=
  writes.foldlM (fun values w => set values w.1 w.2) values

/-- Overwrites all values with as many others. -/
def copy (values source : List α) : Except Fault (List α) :=
  if source.length = values.length then .ok source else .error .signalCount

/-- The values from one place on, as many as asked for. -/
def range (values : List α) (start width : Nat) : Except Fault (List α) :=
  if start + width ≤ values.length then .ok ((values.drop start).take width)
  else .error .signalCount

/-! ## Lengths of slices never change -/

theorem copy_of_length {values source : List α} (h : source.length = values.length) :
    copy values source = .ok source := if_pos h

theorem length_copy {values source copied : List α} (h : copy values source = .ok copied) :
    copied.length = values.length := by
  unfold copy at h
  split at h
  · cases h
    assumption
  · cases h

theorem length_set {values written : List α} {index : Nat} {v : α}
    (h : set values index v = .ok written) : written.length = values.length := by
  unfold set at h
  split at h
  · cases h
    exact List.length_set
  · cases h

/-- However many places are written, a slice keeps its length. -/
theorem length_setAll {writes : List (Nat × α)} {values written : List α}
    (h : setAll values writes = .ok written) : written.length = values.length := by
  unfold setAll at h
  induction writes generalizing values with
  | nil =>
    cases h
    rfl
  | cons first rest ih =>
    rw [List.foldlM_cons] at h
    cases hfirst : set values first.1 first.2 with
    | ok next =>
      rw [hfirst] at h
      exact (ih h).trans (length_set hfirst)
    | error fault =>
      rw [hfirst] at h
      cases h

end Slice

/-- A vector of signals. -/
structure Signals (α : Type) where
  values : List α
  deriving Repr, BEq

namespace Signals

variable {α : Type}

/-- The most signals that one vector carries. -/
def capacity : Nat := 32

/-- The length that the vector was made with. -/
def length (s : Signals α) : Nat := s.values.length

/-- It carries no signals. -/
def isEmpty (s : Signals α) : Bool := s.values.isEmpty

/-- Reads one signal. -/
def get (s : Signals α) (index : Nat) : Except Fault α :=
  match s.values[index]? with
  | some v => .ok v
  | none => .error (.signalIndex index s.length)

/-- Writes one signal. -/
def set (s : Signals α) (index : Nat) (v : α) : Except Fault (Signals α) :=
  if index < s.length then .ok ⟨s.values.set index v⟩
  else .error (.signalIndex index s.length)

/-- Overwrites the whole vector. -/
def copy (s : Signals α) (source : List α) : Except Fault (Signals α) :=
  if source.length = s.length then .ok ⟨source⟩
  else .error (.signalLength source.length s.length)

/-- The same value everywhere. -/
def fill (s : Signals α) (v : α) : Signals α := ⟨s.values.map fun _ => v⟩

variable [Scalar α]

/-- A vector of zeros. -/
def zeroed (length : Nat) : Except (WiringError α) (Signals α) :=
  if length ≤ capacity then .ok ⟨List.replicate length 0⟩
  else .error (.capacity length capacity)

/-- Sets every signal to zero. -/
def clear (s : Signals α) : Signals α := s.fill 0

/-! ## Lengths never change -/

omit [Scalar α] in
theorem length_set {s t : Signals α} {index : Nat} {v : α} (h : s.set index v = .ok t) :
    t.length = s.length := by
  unfold set at h
  split at h
  · cases h
    simp [length]
  · cases h

omit [Scalar α] in
theorem length_copy {s t : Signals α} {source : List α} (h : s.copy source = .ok t) :
    t.length = s.length := by
  unfold copy at h
  split at h
  · cases h
    assumption
  · cases h

@[simp] theorem length_clear (s : Signals α) : s.clear.length = s.length := by
  simp [clear, fill, length]

end Signals

end MotionControl
