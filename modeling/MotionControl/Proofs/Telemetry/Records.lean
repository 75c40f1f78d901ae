import Mathlib.Data.Char
import Mathlib.Data.List.Basic
import MotionControl.Telemetry.Snapshot

/-!
# The text of a record

A record is a single line of printable ASCII, whatever the numbers in it are.  So its characters
are its bytes, and a line end in a text that records are written to is never one of their own.

- `Printable`: no control character and nothing outside ASCII.
- `Layout.printable_render`: a number in a layout whose marks are printable.
- `Snapshot.printable_record`, `Snapshot.newline_notMem_record`.
-/

namespace MotionControl

/-! ## Printable text -/

/-- The characters of a text are printable ASCII. -/
def Printable (text : List Char) : Prop := ∀ c ∈ text, ' ' ≤ c ∧ c ≤ '~'

instance (text : List Char) : Decidable (Printable text) :=
  List.decidableBAll (fun c => ' ' ≤ c ∧ c ≤ '~') text

namespace Printable

variable {c : Char} {text text' : List Char}

@[simp] theorem nil : Printable [] := List.forall_mem_nil _

@[simp] theorem cons_iff : Printable (c :: text) ↔ (' ' ≤ c ∧ c ≤ '~') ∧ Printable text :=
  List.forall_mem_cons

@[simp] theorem append_iff : Printable (text ++ text') ↔ Printable text ∧ Printable text' :=
  List.forall_mem_append

/-- Characters of a printable text are printable. -/
theorem mono (h : Printable text') (hsub : text ⊆ text') : Printable text :=
  fun c hc => h c (hsub hc)

@[simp] theorem replicate_zero (n : Nat) : Printable (List.replicate n '0') := by
  intro c hmem
  rw [List.eq_of_mem_replicate hmem]
  decide

/-- A line end is not printable. -/
theorem newline_notMem (h : Printable text) : '\n' ∉ text :=
  fun hmem => absurd (h '\n' hmem) (by decide)

/-- Decimal digits are printable. -/
@[simp] theorem toDigits (n : Nat) : Printable (Nat.toDigits 10 n) := by
  intro c hc
  have hdigit := Nat.isDigit_of_mem_toDigits (by decide) (by decide) hc
  rw [Char.isDigit, Bool.and_eq_true, decide_eq_true_eq, decide_eq_true_eq] at hdigit
  constructor
  · exact le_trans (by decide : ' ' ≤ '0') hdigit.1
  · exact le_trans hdigit.2 (by decide : '9' ≤ '~')

/-- Printable pieces with printable text between them. -/
theorem intercalate {pieces : List (List Char)} (h : Printable text)
    (hpieces : ∀ piece ∈ pieces, Printable piece) : Printable (text.intercalate pieces) := by
  induction pieces with
  | nil => exact .nil
  | cons piece rest ih =>
    obtain ⟨hpiece, hrest⟩ := List.forall_mem_cons.mp hpieces
    cases rest with
    | nil => simpa using hpiece
    | cons next rest =>
      rw [List.intercalate_cons_cons, append_iff, append_iff]
      exact ⟨⟨hpiece, h⟩, ih hrest⟩

end Printable

/-! ## Numbers -/

/-- A point between digits. -/
theorem printable_placePoint {digits : List Char} {wholeMark : String} (hdigits : Printable digits)
    (hmark : Printable wholeMark.toList) (whole : Int) :
    Printable (placePoint digits whole wholeMark).toList := by
  unfold placePoint
  split
  · simp [hdigits]
  · split
    · simp [hdigits, hmark]
    · have hfront := hdigits.mono (List.take_subset whole.toNat digits)
      have hback := hdigits.mono (List.drop_subset whole.toNat digits)
      simp [hfront, hback]

/-- A point after the first digit. -/
theorem printable_pointAfterFirst {digits : List Char} (h : Printable digits) :
    Printable (pointAfterFirst digits).toList := by
  unfold pointAfterFirst
  split
  · exact .nil
  · simpa using h
  · simpa using h

/-- An exponent with its sign. -/
theorem printable_exponentText {plus : String} (h : Printable plus.toList) (e : Int) :
    Printable (exponentText plus e).toList := by
  unfold exponentText
  split
  · simp
  · simp [h]

namespace Layout

/-- The marks of a layout are printable. -/
structure PrintableMarks (l : Layout) : Prop where
  wholeMark : Printable l.wholeMark.toList
  exponentPlus : Printable l.exponentPlus.toList
  nan : Printable l.nan.toList
  infinity : Printable l.infinity.toList
  negativeInfinity : Printable l.negativeInfinity.toList

variable {l : Layout}

/-- Digits with a point or an exponent, as a layout has them. -/
theorem printable_ofDecimal (h : l.PrintableMarks) (d : Decimal) :
    Printable (l.ofDecimal d).toList := by
  have hdigits : Printable d.digits := .toDigits d.coefficient
  unfold ofDecimal
  split
  · simp [h.wholeMark]
  · split
    · exact printable_placePoint hdigits h.wholeMark _
    · simp [printable_pointAfterFirst hdigits, printable_exponentText h.exponentPlus]

/-- Any double in such a layout, also one that is not finite. -/
theorem printable_render (h : l.PrintableMarks) (x : Float) : Printable (l.render x).toList := by
  unfold render
  split
  · exact h.nan
  · split
    · exact h.negativeInfinity
    · exact h.infinity
  · split
    · simp [printable_ofDecimal h]
    · simp [printable_ofDecimal h]

/-- Records are laid out with printable marks. -/
theorem printableMarks_record : record.PrintableMarks where
  wholeMark := by decide
  exponentPlus := by decide
  nan := by decide
  infinity := by decide
  negativeInfinity := by decide

end Layout

/-! ## Records -/

namespace Snapshot

/-- A name in quotation marks, and what it stands for. -/
theorem printable_fieldText {name shown : String} (hname : Printable name.toList)
    (hshown : Printable shown.toList) : Printable (fieldText name shown).toList := by
  simp [fieldText, hname, hshown]

variable (s : Snapshot Float)

/-- The names of the whole numbers. -/
theorem printable_counters : ∀ counter ∈ s.counters, Printable counter.1.toList := by
  simp [counters]

/-- The names of the other numbers. -/
theorem printable_quantities : ∀ quantity ∈ s.quantities, Printable quantity.1.toList := by
  simp [quantities]

/-- Whatever is in a snapshot, its record is printable. -/
theorem printable_record : Printable s.record.toList := by
  have hcounter : ∀ counter ∈ s.counters,
      Printable (fieldText counter.1 (toString counter.2)).toList := by
    intro counter hmem
    exact printable_fieldText (s.printable_counters counter hmem) (by simp)
  have hquantity : ∀ quantity ∈ s.quantities,
      Printable (fieldText quantity.1 (Layout.record.render quantity.2)).toList := by
    intro quantity hmem
    exact printable_fieldText (s.printable_quantities quantity hmem)
      (Layout.printable_render Layout.printableMarks_record quantity.2)
  unfold record
  simp only [String.toList_append, String.toList_intercalate, Printable.append_iff]
  refine ⟨⟨by decide, .intercalate (by decide) ?_⟩, by decide⟩
  simp only [List.map_append, List.forall_mem_append, List.forall_mem_map]
  exact ⟨hcounter, hquantity⟩

/-- A record stands in braces. -/
theorem record_eq_braces : ∃ fields, s.record.toList = '{' :: (fields ++ ['}']) := by
  unfold record
  rw [String.toList_append, String.toList_append]
  exact ⟨_, rfl⟩

/-- A record is a single line. -/
theorem newline_notMem_record : '\n' ∉ s.record.toList := s.printable_record.newline_notMem

end Snapshot

end MotionControl
