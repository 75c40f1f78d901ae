import Mathlib
import MotionControl.Proofs.Scalar.Exact

/-!
# The order of doubles

Apart from what is not a number, doubles are ordered like the numbers that they stand for, with an
infinity at either end.  What a saturation leaves is bounded by that order alone, whatever was
rounded on the way.

- `OrderedScalar`: the order laws of scalars that are numbers.
- `OrderedScalar.abs_zero_le`, `OrderedScalar.abs_abs_le`: what they say about magnitudes.
- `OrderedScalar.between_of_clamp?`, `OrderedScalar.clamp?_between`: what they say about a
  saturation.
- `Binary64.level?`: a double among the numbers and both infinities.
- `Binary64.lt_iff_level`, `Binary64.le_iff_level`: comparisons go by that.
- `OrderedScalar Float`: the laws.
-/

namespace MotionControl

open Scalar

/-- The order of scalars that are numbers.  Nothing is said about sums and products. -/
class OrderedScalar (α : Type) [Scalar α] : Prop extends LawfulScalar α where
  isNaN_zero : isNaN (0 : α) = false
  isNaN_neg (a : α) : isNaN (-a) = isNaN a
  isNaN_abs (a : α) : isNaN (abs a) = isNaN a
  le_trans {a b c : α} : a ≤ b → b ≤ c → a ≤ c
  le_of_not_lt {a b : α} : isNaN a = false → isNaN b = false → ¬ a < b → b ≤ a
  not_lt_of_le {a b : α} : a ≤ b → ¬ b < a
  abs_le {a b : α} : -b ≤ a → a ≤ b → abs a ≤ b
  beq_zero_of_abs_le {a : α} : abs a ≤ 0 → (a == 0) = true

namespace OrderedScalar

variable {α : Type} [Scalar α] [OrderedScalar α]

/-- Every number is at most itself. -/
theorem le_refl {a : α} (h : isNaN a = false) : a ≤ a := by
  by_cases hlt : a < a
  · exact LawfulScalar.le_of_lt hlt
  · exact le_of_not_lt h h hlt

/-- A bound bounds its own magnitude. -/
theorem abs_le_self {a : α} (h : IsBound a) : abs a ≤ a :=
  abs_le (LawfulScalar.neg_le_self h.1 h.2) (le_refl h.1)

theorem abs_zero_le : abs (0 : α) ≤ 0 :=
  abs_le_self ⟨isNaN_zero, not_lt_of_le (le_refl isNaN_zero)⟩

/-- A magnitude is its own magnitude. -/
theorem abs_abs_le {a : α} (h : isNaN a = false) : abs (abs a) ≤ abs a :=
  abs_le_self ⟨(isNaN_abs a).trans h, LawfulScalar.not_abs_lt_zero a⟩

/-- Zero is within every bound. -/
theorem abs_zero_le_bound {a : α} (h : IsBound a) : abs (0 : α) ≤ a :=
  le_trans abs_zero_le (le_of_not_lt h.1 isNaN_zero h.2)

theorem abs_zero_le_abs {a : α} (h : isNaN a = false) : abs (0 : α) ≤ abs a :=
  abs_zero_le_bound ⟨(isNaN_abs a).trans h, LawfulScalar.not_abs_lt_zero a⟩

/-- What a saturation leaves is not a number, or is between its ends. -/
theorem between_of_clamp? {a v w : α} (h : IsBound a) (hw : clamp? (-a) a v = some w) :
    isNaN w = true ∨ -a ≤ w ∧ w ≤ a := by
  have hlow : -a ≤ a := LawfulScalar.neg_le_self h.1 h.2
  have hneg : isNaN (-a) = false := (isNaN_neg a).trans h.1
  rw [clamp?, if_pos hlow] at hw
  cases hw
  by_cases hbelow : v < -a
  · rw [if_pos hbelow]
    exact .inr ⟨le_refl hneg, hlow⟩
  · rw [if_neg hbelow]
    by_cases habove : a < v
    · rw [if_pos habove]
      exact .inr ⟨hlow, le_refl h.1⟩
    · rw [if_neg habove]
      cases hv : isNaN v with
      | true => exact .inl rfl
      | false => exact .inr ⟨le_of_not_lt hv hneg hbelow, le_of_not_lt h.1 hv habove⟩

/-- So its magnitude is within the bound. -/
theorem abs_le_of_clamp? {a v w : α} (h : IsBound a) (hw : clamp? (-a) a v = some w) :
    isNaN w = true ∨ abs w ≤ a :=
  (between_of_clamp? h hw).imp_right fun hbetween => abs_le hbetween.1 hbetween.2

/-- The order is transitive among numbers. -/
theorem lt_trans {a b c : α} (hab : a < b) (hbc : b < c) (hc : isNaN c = false) : a < c := by
  by_contra hac
  have hca := le_of_not_lt (LawfulScalar.isNaN_of_lt hab) hc hac
  exact not_lt_of_le (le_trans hca (LawfulScalar.le_of_lt hab)) hbc

/-- A value between two bounds is left alone, and every other one moves to an end. -/
theorem clamp?_between {lo hi v : α} (hlo : isNaN lo = false) (hhi : isNaN hi = false)
    (hv : isNaN v = false) (hle : lo ≤ hi) :
    ∃ w, clamp? lo hi v = some w ∧ lo ≤ w ∧ w ≤ hi ∧ (v < w ∨ w = hi ∨ w = v) ∧
      (lo ≤ v → v ≤ hi → w = v) := by
  refine ⟨_, if_pos hle, ?_⟩
  by_cases hbelow : v < lo
  · rw [if_pos hbelow]
    exact ⟨le_refl hlo, hle, .inl hbelow, fun hge _ => absurd hbelow (not_lt_of_le hge)⟩
  · rw [if_neg hbelow]
    by_cases habove : hi < v
    · rw [if_pos habove]
      exact ⟨hle, le_refl hhi, .inr (.inl rfl), fun _ hge => absurd habove (not_lt_of_le hge)⟩
    · rw [if_neg habove]
      exact ⟨le_of_not_lt hv hlo hbelow, le_of_not_lt hhi hv habove, .inr (.inr rfl),
        fun _ _ => rfl⟩

/-- The lesser of two is below the first one, if that is a number. -/
theorem lesser_le_left {a : α} (h : isNaN a = false) (b : α) : lesser a b ≤ a := by
  rw [lesser, if_neg (by rw [h]; exact Bool.false_ne_true)]
  by_cases hlt : b < a
  · rw [if_pos hlt]
    exact LawfulScalar.le_of_lt hlt
  · rw [if_neg hlt]
    exact le_refl h

/-- It is below the second one if both are numbers. -/
theorem lesser_le_right {a b : α} (h : isNaN a = false) (hb : isNaN b = false) :
    lesser a b ≤ b := by
  rw [lesser, if_neg (by rw [h]; exact Bool.false_ne_true)]
  by_cases hlt : b < a
  · rw [if_pos hlt]
    exact le_refl hb
  · rw [if_neg hlt]
    exact le_of_not_lt hb h hlt

end OrderedScalar

namespace Binary64

open Float.Model (UnpackedFloat Format)
open Float.Model.UnpackedFloat (Sign)

/-! ## Levels -/

/-- Where a double stands: its number in smallest units between the two infinities, and nowhere if
it is not a number. -/
def level? : UnpackedFloat → Option (ℤ ×ₗ ℤ)
  | .notANumber => none
  | .infinity s => some (toLex (s.apply 1, 0))
  | .zero _ => some 0
  | .finite s m e _ => some (toLex (0, s.apply (magnitude m e)))

/-- Numbers are what has a level. -/
theorem isNaN_iff_level (x : Float) : x.isNaN = false ↔ ∃ a, level? x.toModel.unpack = some a := by
  rw [isNaN_eq]
  cases x.toModel.unpack with
  | notANumber =>
    refine ⟨nofun, ?_⟩
    rintro ⟨_, h⟩
    cases h
  | infinity s => exact ⟨fun _ => ⟨_, rfl⟩, fun _ => rfl⟩
  | zero s => exact ⟨fun _ => ⟨_, rfl⟩, fun _ => rfl⟩
  | finite s m e hm => exact ⟨fun _ => ⟨_, rfl⟩, fun _ => rfl⟩

/-- A finite double stands at its number. -/
theorem level_of_finite {x : Float} {negative : Bool} {m : Nat} {e : Int}
    (h : decode x = .finite negative m e) :
    level? x.toModel.unpack = some (toLex (0, signedUnits negative m e)) := by
  rw [← unpacked_decode, h]
  by_cases hm : m = 0
  · rw [hm, unpacked_zero, signedUnits_zero]
    rfl
  · rw [unpacked_finite _ hm]
    cases negative with
    | false => rfl
    | true => rfl

theorem level_of_nan {x : Float} (h : decode x = .nan) : level? x.toModel.unpack = none := by
  rw [← unpacked_decode, h]
  rfl

/-- Only the zeros stand at zero. -/
theorem zero_of_level {u : UnpackedFloat} (h : level? u = some 0) : ∃ s, u = .zero s := by
  cases u with
  | notANumber => cases h
  | zero s => exact ⟨s, rfl⟩
  | infinity s =>
    have hone := congrArg (fun a : ℤ ×ₗ ℤ => (ofLex a).1) (Option.some.inj h)
    cases s <;> cases hone
  | finite s m e hm =>
    have hunits : s.apply (magnitude m e) = 0 :=
      congrArg (fun a : ℤ ×ₗ ℤ => (ofLex a).2) (Option.some.inj h)
    have hpos := magnitude_pos (Nat.ne_of_gt hm) e
    cases s with
    | positive =>
      change (magnitude m e : ℤ) = 0 at hunits
      omega
    | negative =>
      change -(magnitude m e : ℤ) = 0 at hunits
      omega

/-! ## Negation and magnitude -/

/-- Whatever has the magnitude of a double is a double, so that packing it rounds nothing. -/
theorem unpack_pack_of_abs {x : Float} {u : UnpackedFloat} (h : u.abs = x.toModel.unpack.abs) :
    UnpackedFloat.unpack Format.binary64 (UnpackedFloat.pack Format.binary64 u) = u := by
  rw [← unpacked_decode] at h
  cases hx : decode x with
  | nan =>
    rw [hx] at h
    cases u with
    | notANumber => rfl
    | infinity | zero | finite => cases h
  | infinite negative =>
    rw [hx] at h
    cases u with
    | infinity s => cases s <;> rfl
    | notANumber | zero | finite => cases h
  | finite negative m e =>
    by_cases hm : m = 0
    · rw [hx, hm, unpacked_zero] at h
      cases u with
      | zero s => cases s <;> rfl
      | notANumber | infinity | finite => cases h
    · rw [hx, unpacked_finite _ hm] at h
      -- a double with the same mantissa and the other sign is one too
      have hpacked := unpack_pack_finite (canonical_of_decode hx)
      simp only [unpacked_finite _ hm] at hpacked
      cases u with
      | finite s m' e' hm' =>
        cases h
        cases s with
        | negative => exact hpacked true
        | positive => exact hpacked false
      | notANumber | infinity | zero => cases h

/-- Negation rounds nothing. -/
theorem unpack_neg (x : Float) : (-x).toModel.unpack = x.toModel.unpack.neg := by
  refine unpack_pack_of_abs (x := x) ?_
  cases x.toModel.unpack <;> rfl

/-- Nor does taking the magnitude. -/
theorem unpack_abs (x : Float) : x.abs.toModel.unpack = x.toModel.unpack.abs := by
  refine unpack_pack_of_abs (x := x) ?_
  cases x.toModel.unpack <;> rfl

/-- The opposite has the opposite level. -/
theorem level_neg (u : UnpackedFloat) : level? u.neg = (level? u).map (- ·) := by
  cases u with
  | notANumber => rfl
  | zero s => rfl
  | infinity s => cases s <;> rfl
  | finite s m e hm =>
    cases s with
    | positive => rfl
    | negative =>
      show some (toLex (0, (magnitude m e : ℤ))) = some (-toLex (0, -(magnitude m e : ℤ)))
      rw [← toLex_neg, Prod.neg_mk, neg_neg, neg_zero]

/-- The magnitude has the level without its sign. -/
theorem level_abs (u : UnpackedFloat) : level? u.abs = (level? u).map (|·|) := by
  have hunits (n : Nat) : (0 : ℤ ×ₗ ℤ) ≤ toLex (0, (n : ℤ)) :=
    Prod.Lex.toLex_le_toLex.mpr (.inr ⟨rfl, Int.natCast_nonneg n⟩)
  have hone : (0 : ℤ ×ₗ ℤ) ≤ toLex (1, 0) :=
    Prod.Lex.toLex_le_toLex.mpr (.inl Int.one_pos)
  cases u with
  | notANumber => rfl
  | zero s => exact congrArg some abs_zero.symm
  | infinity s =>
    cases s with
    | positive => exact congrArg some (abs_of_nonneg hone).symm
    | negative => exact congrArg some ((abs_neg _).trans (abs_of_nonneg hone)).symm
  | finite s m e hm =>
    cases s with
    | positive => exact congrArg some (abs_of_nonneg (hunits (magnitude m e))).symm
    | negative =>
      have hopposite : (toLex (0, -(magnitude m e : ℤ)) : ℤ ×ₗ ℤ)
          = -toLex (0, (magnitude m e : ℤ)) := by
        rw [← toLex_neg, Prod.neg_mk, neg_zero]
      show _ = some |toLex (0, -(magnitude m e : ℤ))|
      rw [hopposite, abs_neg, abs_of_nonneg (hunits (magnitude m e))]
      rfl

/-! ## Comparisons -/

/-- The first value is below the second, or not above it, as their levels are. -/
structure Level (u v : UnpackedFloat) (a b : ℤ ×ₗ ℤ) : Prop where
  lt_iff : u.lt v = true ↔ a < b
  le_iff : u.le v = true ↔ a ≤ b

namespace Level

variable {u v : UnpackedFloat} {a b : ℤ ×ₗ ℤ}

theorem below (h : u.compare v = some .lt) (hab : a < b) : Level u v a b := by
  constructor
  · rw [UnpackedFloat.lt, h]
    exact iff_of_true rfl hab
  · rw [UnpackedFloat.le, h]
    exact iff_of_true rfl (le_of_lt hab)

theorem same (h : u.compare v = some .eq) (hab : a = b) : Level u v a b := by
  constructor
  · rw [UnpackedFloat.lt, h]
    exact iff_of_false Bool.false_ne_true (not_lt_of_ge (ge_of_eq hab))
  · rw [UnpackedFloat.le, h]
    exact iff_of_true rfl (le_of_eq hab)

theorem above (h : u.compare v = some .gt) (hab : b < a) : Level u v a b := by
  constructor
  · rw [UnpackedFloat.lt, h]
    exact iff_of_false Bool.false_ne_true (not_lt_of_gt hab)
  · rw [UnpackedFloat.le, h]
    exact iff_of_false Bool.false_ne_true (not_le_of_gt hab)

end Level

/-- A number of units lies between the infinities. -/
theorem between_infinities (k : ℤ) :
    (toLex (-1, 0) : ℤ ×ₗ ℤ) < toLex (0, k) ∧ (toLex (0, k) : ℤ ×ₗ ℤ) < toLex (1, 0) :=
  ⟨Prod.Lex.toLex_lt_toLex.mpr (.inl (show (-1 : ℤ) < 0 by decide)),
    Prod.Lex.toLex_lt_toLex.mpr (.inl Int.one_pos)⟩

/-- An infinity is above everything else, or below it. -/
theorem level_infinity {s : Sign} {v : UnpackedFloat} {b : ℤ ×ₗ ℤ} (hv : level? v = some b) :
    Level (.infinity s) v (toLex (s.apply 1, 0)) b ∧
      Level v (.infinity s) b (toLex (s.apply 1, 0)) := by
  have hends : (toLex (-1, 0) : ℤ ×ₗ ℤ) < toLex (1, 0) :=
    Prod.Lex.toLex_lt_toLex.mpr (.inl (by decide))
  cases v with
  | notANumber => cases hv
  | infinity s' =>
    cases hv
    cases s with
    | negative =>
      cases s' with
      | negative => exact ⟨.same rfl rfl, .same rfl rfl⟩
      | positive => exact ⟨.below rfl hends, .above rfl hends⟩
    | positive =>
      cases s' with
      | negative => exact ⟨.above rfl hends, .below rfl hends⟩
      | positive => exact ⟨.same rfl rfl, .same rfl rfl⟩
  | zero s' =>
    cases hv
    obtain ⟨hlow, hhigh⟩ := between_infinities 0
    cases s with
    | negative => exact ⟨.below rfl hlow, .above rfl hlow⟩
    | positive => exact ⟨.above rfl hhigh, .below rfl hhigh⟩
  | finite s' m e hm =>
    cases hv
    obtain ⟨hlow, hhigh⟩ := between_infinities (s'.apply (magnitude m e))
    cases s with
    | negative => exact ⟨.below rfl hlow, .above rfl hlow⟩
    | positive => exact ⟨.above rfl hhigh, .below rfl hhigh⟩

section Comparisons

variable {x y : Float} {a b : ℤ ×ₗ ℤ}

/-- Among finite doubles the level is the whole number of the smallest double. -/
theorem level_finite {negative negative' : Bool} {m m' : Nat} {e e' : Int}
    (hx : decode x = .finite negative m e) (hy : decode y = .finite negative' m' e') :
    Level x.toModel.unpack y.toModel.unpack (toLex (0, signedUnits negative m e))
      (toLex (0, signedUnits negative' m' e')) := by
  constructor
  · rw [← lt_iff, lt_iff_units hx hy, Prod.Lex.toLex_lt_toLex]
    simp
  · rw [← le_iff, le_iff_units hx hy, Prod.Lex.toLex_le_toLex]
    simp

/-- Doubles that are numbers compare as their levels do. -/
theorem level_of_numbers (hx : level? x.toModel.unpack = some a)
    (hy : level? y.toModel.unpack = some b) :
    Level x.toModel.unpack y.toModel.unpack a b := by
  have infinite {z : Float} {negative : Bool} (hz : decode z = .infinite negative) :
      z.toModel.unpack = .infinity (signOf negative) := by
    rw [← unpacked_decode, hz]
    rfl
  cases hdx : decode x with
  | nan =>
    rw [level_of_nan hdx] at hx
    cases hx
  | infinite negative =>
    rw [infinite hdx] at hx ⊢
    cases hx
    exact (level_infinity hy).1
  | finite negative m e =>
    cases hdy : decode y with
    | nan =>
      rw [level_of_nan hdy] at hy
      cases hy
    | infinite negative' =>
      rw [infinite hdy] at hy ⊢
      cases hy
      exact (level_infinity hx).2
    | finite negative' m' e' =>
      rw [level_of_finite hdx] at hx
      rw [level_of_finite hdy] at hy
      cases hx
      cases hy
      exact level_finite hdx hdy

/-- Doubles compare as their levels do. -/
theorem lt_iff_level (hx : level? x.toModel.unpack = some a)
    (hy : level? y.toModel.unpack = some b) : x < y ↔ a < b := by
  rw [lt_iff]
  exact (level_of_numbers hx hy).lt_iff

theorem le_iff_level (hx : level? x.toModel.unpack = some a)
    (hy : level? y.toModel.unpack = some b) : x ≤ y ↔ a ≤ b := by
  rw [le_iff]
  exact (level_of_numbers hx hy).le_iff

/-- What compares is a number. -/
theorem levels_of_le (h : x ≤ y) :
    ∃ a b, level? x.toModel.unpack = some a ∧ level? y.toModel.unpack = some b ∧ a ≤ b := by
  have hle := (le_iff x y).mp h
  have hx : x.isNaN = false := by
    rw [isNaN_eq]
    cases hu : x.toModel.unpack with
    | notANumber => rw [hu] at hle; cases hle
    | infinity | zero | finite => rfl
  have hy : y.isNaN = false := by
    rw [isNaN_eq]
    cases hv : y.toModel.unpack with
    | notANumber =>
      rw [hv] at hle
      cases hu : x.toModel.unpack <;> rw [hu] at hle <;> cases hle
    | infinity | zero | finite => rfl
  obtain ⟨a, ha⟩ := (isNaN_iff_level x).mp hx
  obtain ⟨b, hb⟩ := (isNaN_iff_level y).mp hy
  exact ⟨a, b, ha, hb, (le_iff_level ha hb).mp h⟩

end Comparisons

end Binary64

/-! ## The laws -/

open Binary64 in
instance : OrderedScalar Float where
  isNaN_zero := rfl
  isNaN_neg a := by
    show (-a).isNaN = a.isNaN
    rw [isNaN_eq, isNaN_eq, unpack_neg]
    cases a.toModel.unpack <;> rfl
  isNaN_abs a := by
    show a.abs.isNaN = a.isNaN
    rw [isNaN_eq, isNaN_eq, unpack_abs]
    cases a.toModel.unpack <;> rfl
  le_trans {a b c} hab hbc := by
    obtain ⟨la, lb, ha, hb, hle⟩ := levels_of_le hab
    obtain ⟨lb', lc, hb', hc, hle'⟩ := levels_of_le hbc
    rw [hb] at hb'
    cases hb'
    exact (le_iff_level ha hc).mpr (hle.trans hle')
  le_of_not_lt {a b} ha hb h := by
    obtain ⟨la, ha⟩ := (isNaN_iff_level a).mp ha
    obtain ⟨lb, hb⟩ := (isNaN_iff_level b).mp hb
    rw [lt_iff_level ha hb] at h
    exact (le_iff_level hb ha).mpr (not_lt.mp h)
  not_lt_of_le {a b} h := by
    obtain ⟨la, lb, ha, hb, hle⟩ := levels_of_le h
    rw [lt_iff_level hb ha]
    exact not_lt_of_ge hle
  abs_le {a b} hlow hhigh := by
    obtain ⟨la, lb, ha, hb, hle⟩ := levels_of_le hhigh
    obtain ⟨lneg, la', hneg, ha', hge⟩ := levels_of_le hlow
    rw [ha] at ha'
    cases ha'
    rw [unpack_neg, level_neg, hb] at hneg
    cases hneg
    have habs : level? a.abs.toModel.unpack = some |la| := by
      rw [unpack_abs, level_abs, ha]
      rfl
    exact (le_iff_level habs hb).mpr (abs_le.mpr ⟨hge, hle⟩)
  beq_zero_of_abs_le {a} h := by
    obtain ⟨labs, lzero, habs, hzero, hle⟩ := levels_of_le h
    rw [unpack_zero] at hzero
    cases hzero
    rw [show (Scalar.abs a).toModel.unpack = _ from unpack_abs a, level_abs] at habs
    obtain ⟨la, ha, rfl⟩ := Option.map_eq_some_iff.mp habs
    rw [abs_nonpos_iff.mp hle] at ha
    exact (beq_zero_iff a).mpr (zero_of_level ha)

end MotionControl
