import Mathlib
import MotionControl.Proofs.Scalar.Lawful
import MotionControl.Scalar

/-!
# Doubles are lawful scalars

A double is decided by its bit pattern, and arithmetic on it unpacks the pattern,
computes and packs again.  Packing may round, but it never changes a sign and never
makes a number of what is not one, which is all that the laws of scalars need.

- `Binary64.sign?`: the sign of an unpacked double, nothing for not a number.
- `Binary64.sign?_unpack_pack`: packing keeps it.
- `LawfulScalar Float`: the laws.
-/

namespace MotionControl

namespace Binary64

open Float.Model (UnpackedFloat Format)
open Float.Model.UnpackedFloat (Sign)

/-- The sign of an unpacked double, if it is a number. -/
def sign? : UnpackedFloat → Option Sign
  | .notANumber => none
  | .infinity s | .zero s | .finite s .. => some s

/-! ## Packing keeps signs -/

/-- The sign that was packed is the sign that is read, unless the pattern is that of
not a number. -/
theorem sign?_unpack_packComponents (s : Sign) (e : BitVec 11) (m : BitVec 52)
    (h : e = -1#11 → m = 0#52) :
    sign? (UnpackedFloat.unpack Format.binary64
      (UnpackedFloat.packComponents Format.binary64 s e m)) = some s := by
  unfold UnpackedFloat.unpack
  simp only [UnpackedFloat.unpackMantissa_packComponents,
    UnpackedFloat.unpackExponent_packComponents, UnpackedFloat.unpackSign_packComponents,
    Sign.ofBitVec_toBitVec]
  split
  · rw [if_pos (h ‹_›)]
    rfl
  · split
    · split <;> rfl
    · rfl

/-- Rounding keeps the sign. -/
theorem sign?_unpack_pack (u : UnpackedFloat) :
    sign? (UnpackedFloat.unpack Format.binary64 (UnpackedFloat.pack Format.binary64 u))
      = sign? u := by
  cases u with
  | notANumber => rfl
  | infinity s => exact sign?_unpack_packComponents s _ _ fun _ => rfl
  | zero s => exact sign?_unpack_packComponents s _ _ fun h => absurd h (by decide)
  | finite s m e hm =>
    unfold UnpackedFloat.pack
    dsimp only
    split
    · -- too large: packed as an infinity
      exact sign?_unpack_packComponents s _ _ fun _ => rfl
    · rename_i hfits
      split
      · -- normal: the exponent field is below the one of infinities
        refine sign?_unpack_packComponents s _ _ fun h => ?_
        have hfield := congrArg BitVec.toNat h
        rw [BitVec.toNat_ofNat, Nat.mod_eq_of_lt (by omega)] at hfield
        have hmax : (-1#11).toNat = 2047 := rfl
        exact absurd (hfield.trans hmax) (by simp only [Format.binary64] at hfits ⊢; omega)
      · exact sign?_unpack_packComponents s _ _ fun h => absurd h (by decide)

/-! ## Operations on doubles through their unpacked forms -/

/-- What is not a number has no sign. -/
theorem isNaN_eq (x : Float) : x.isNaN = (sign? x.toModel.unpack).isNone := by
  show x.toModel.unpack.isNaN = _
  cases x.toModel.unpack <;> rfl

/-- Doubles compare as their unpacked forms do. -/
theorem lt_iff (x y : Float) : x < y ↔ x.toModel.unpack.lt y.toModel.unpack = true := by
  show decide (x.toModel.unpack.lt y.toModel.unpack = true) = true ↔ _
  exact decide_eq_true_iff

theorem le_iff (x y : Float) : x ≤ y ↔ x.toModel.unpack.le y.toModel.unpack = true := by
  show decide (x.toModel.unpack.le y.toModel.unpack = true) = true ↔ _
  exact decide_eq_true_iff

theorem unpack_zero : (0 : Float).toModel.unpack = .zero .positive := rfl

/-- A magnitude has the positive sign, if it has one. -/
theorem sign?_abs (x : Float) :
    sign? x.abs.toModel.unpack = (sign? x.toModel.unpack).map fun _ => .positive := by
  show sign? (UnpackedFloat.unpack _ (UnpackedFloat.pack _ x.toModel.unpack.abs)) = _
  rw [sign?_unpack_pack]
  cases x.toModel.unpack <;> rfl

/-- Rounding keeps the sign, also where the value vanishes. -/
theorem sign?_roundWithAccuracy (f : Format) (s : Sign) (m : Nat) (e : Int)
    (a : UnpackedFloat.Accuracy) :
    sign? (UnpackedFloat.roundWithAccuracy f s m e a) = some s := by
  unfold UnpackedFloat.roundWithAccuracy
  dsimp only
  split <;> rfl

/-! ## Comparisons by signs -/

/-- The negative sign is on the left of the positive one. -/
theorem le_of_signs {u v : UnpackedFloat} (hu : sign? u = some .negative)
    (hv : sign? v = some .positive) : u.le v = true := by
  cases u <;> cases v <;> simp_all [sign?] <;> rfl

/-- What has the positive sign is not below zero. -/
theorem not_lt_zero_of_sign {u : UnpackedFloat} (h : sign? u = some .positive) :
    u.lt (.zero .positive) = false := by
  cases u <;> simp_all [sign?] <;> rfl

/-- An infinity or a finite value, with a positive sign. -/
def IsPositive (u : UnpackedFloat) : Prop :=
  u = .infinity .positive ∨ ∃ m e hm, u = .finite .positive m e hm

/-- A number that is not zero or below is positive. -/
theorem isPositive_of_not_le_zero {u : UnpackedFloat} (hn : (sign? u).isNone = false)
    (h : ¬ u.le (.zero .positive) = true) : IsPositive u := by
  cases u with
  | notANumber => cases hn
  | zero s => exact absurd rfl h
  | infinity s =>
    cases s with
    | negative => exact absurd rfl h
    | positive => exact .inl rfl
  | finite s m e hm =>
    cases s with
    | negative => exact absurd rfl h
    | positive => exact .inr ⟨m, e, hm, rfl⟩

/-- What is above zero is positive. -/
theorem isPositive_of_zero_lt {u : UnpackedFloat}
    (h : UnpackedFloat.lt (.zero .positive) u = true) : IsPositive u := by
  cases u with
  | notANumber => exact absurd h Bool.false_ne_true
  | zero s => exact absurd h Bool.false_ne_true
  | infinity s =>
    cases s with
    | negative => exact absurd h Bool.false_ne_true
    | positive => exact .inl rfl
  | finite s m e hm =>
    cases s with
    | negative => exact absurd h Bool.false_ne_true
    | positive => exact .inr ⟨m, e, hm, rfl⟩

/-! ## The laws -/

/-- What is not below zero is not below its opposite. -/
theorem neg_le_self {x : Float} (hn : x.isNaN = false) (hx : ¬ x < 0) : -x ≤ x := by
  rw [lt_iff, unpack_zero] at hx
  rw [isNaN_eq] at hn
  rw [le_iff]
  show (UnpackedFloat.unpack Format.binary64
    (UnpackedFloat.pack Format.binary64 x.toModel.unpack.neg)).le x.toModel.unpack = true
  cases hu : x.toModel.unpack with
  | notANumber => rw [hu] at hn; cases hn
  | zero s => cases s <;> rfl
  | infinity s =>
    cases s with
    | negative => rw [hu] at hx; exact absurd rfl hx
    | positive => rfl
  | finite s m e hm =>
    cases s with
    | negative => rw [hu] at hx; exact absurd rfl hx
    | positive => exact le_of_signs (sign?_unpack_pack _) rfl

/-- A product of positive numbers has the positive sign. -/
theorem sign?_mul {x y : Float} (hn : x.isNaN = false) (hx : ¬ x ≤ 0) (hy : 0 < y) :
    sign? (x * y).toModel.unpack = some .positive := by
  rw [le_iff, unpack_zero] at hx
  rw [lt_iff, unpack_zero] at hy
  rw [isNaN_eq] at hn
  show sign? (UnpackedFloat.unpack _ (UnpackedFloat.pack _
    (UnpackedFloat.mul _ x.toModel.unpack y.toModel.unpack))) = _
  rw [sign?_unpack_pack]
  rcases isPositive_of_not_le_zero hn hx with hu | ⟨m, e, hm, hu⟩ <;>
    rcases isPositive_of_zero_lt hy with hv | ⟨m', e', hm', hv⟩ <;> rw [hu, hv]
  · rfl
  · rfl
  · rfl
  · exact sign?_roundWithAccuracy ..

end Binary64

instance : LawfulScalar Float where
  isNaN_of_lt {a b} h := by
    rw [Binary64.lt_iff] at h
    show a.isNaN = false
    rw [Binary64.isNaN_eq]
    cases hu : a.toModel.unpack <;> first | rfl | (rw [hu] at h; cases h)
  le_of_lt {a b} h := by
    rw [Binary64.lt_iff] at h
    rw [Binary64.le_iff]
    have hlt := eq_of_beq h
    show (a.toModel.unpack.compare b.toModel.unpack).any (·.isLE) = true
    rw [hlt]
    rfl
  neg_le_self := Binary64.neg_le_self
  not_abs_lt_zero a := by
    intro h
    have h' := (Binary64.lt_iff a.abs 0).mp h
    rw [Binary64.unpack_zero] at h'
    cases hu : Binary64.sign? a.toModel.unpack with
    | none =>
      have hs := Binary64.sign?_abs a
      rw [hu] at hs
      cases hv : a.abs.toModel.unpack <;> rw [hv] at h' hs <;> first | cases h' | cases hs
    | some s =>
      have hs := Binary64.sign?_abs a
      rw [hu] at hs
      rw [Binary64.not_lt_zero_of_sign hs] at h'
      cases h'
  mul_pos {a b} hn ha hb := by
    have hs := Binary64.sign?_mul hn ha hb
    refine ⟨?_, fun h => ?_⟩
    · show (a * b).isNaN = false
      rw [Binary64.isNaN_eq, hs]
      rfl
    · have h' := (Binary64.lt_iff (a * b) 0).mp h
      rw [Binary64.unpack_zero, Binary64.not_lt_zero_of_sign hs] at h'
      cases h'

end MotionControl
