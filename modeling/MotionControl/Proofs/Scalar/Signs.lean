import MotionControl.Binary64.Arithmetic
import MotionControl.Proofs.Scalar.Ordered

/-!
# Signs of doubles

The sign of a double is a bit of its own, above the bits of the magnitude.  So a sign is put on a
magnitude exactly, whatever sign it had before.

- `Binary64.decode_copySign`: one double's magnitude with another's sign.
- `Binary64.zero_lt_iff`, `Binary64.lt_zero_iff`: what the sign and the mantissa say about the
  order.
- `Binary64.sided`: a finite double that is not zero lies on one side of it.
- `Binary64.copySign_abs`, `Binary64.abs_copySign`: a magnitude and its sign.
- `Binary64.isFinite_of_between`: a double between finite ones is finite.
-/

namespace MotionControl

namespace Binary64

/-! ## The bits -/

section Bits

variable {x y : Float} {negative negative' : Bool} {m m' : Nat} {e e' : Int}

/-- The bits of a finite double are those of its form. -/
theorem toNat_toBits (h : decode x = .finite negative m e) :
    x.toBits.toNat
      = if negative then magnitudeBits m e + signBit else magnitudeBits m e := by
  have hcanonical := canonical_of_decode h
  have hlt := magnitudeBits_lt hcanonical
  rw [eq_of_decode h (decode_ofBits hcanonical negative)]
  refine toBits_ofBits ?_ ?_
  · rw [signBit_eq]
    split <;> omega
  · rw [signBit_eq]
    split <;> omega

/-- The bits below the sign. -/
theorem toNat_and_magnitude (h : decode x = .finite negative m e) :
    (x.toBits &&& 0x7fffffffffffffff).toNat = magnitudeBits m e := by
  have hlt := magnitudeBits_lt (canonical_of_decode h)
  calc (x.toBits &&& 0x7fffffffffffffff).toNat
      = x.toBits.toNat &&& (2 ^ 63 - 1) := UInt64.toNat_and ..
    _ = x.toBits.toNat % 2 ^ 63 := Nat.and_two_pow_sub_one_eq_mod ..
    _ = magnitudeBits m e := by
      rw [toNat_toBits h, signBit_eq]
      split <;> omega

/-- The sign alone. -/
theorem toNat_and_sign (h : decode x = .finite negative m e) :
    (x.toBits &&& 0x8000000000000000).toNat = if negative then signBit else 0 := by
  have hlt := magnitudeBits_lt (canonical_of_decode h)
  calc (x.toBits &&& 0x8000000000000000).toNat
      = x.toBits.toNat &&& 2 ^ 63 := UInt64.toNat_and ..
    _ = (x.toBits.toNat.testBit 63).toNat * 2 ^ 63 := Nat.and_two_pow ..
    _ = if negative then signBit else 0 := by
      rw [Nat.testBit_eq_decide_div_mod_eq, toNat_toBits h, signBit_eq]
      cases negative with
      | false =>
        rw [if_neg Bool.false_ne_true, if_neg Bool.false_ne_true, decide_eq_false (by omega)]
        rfl
      | true =>
        rw [if_pos rfl, if_pos rfl, decide_eq_true (by omega)]
        rfl

/-- The magnitude of one double and the sign of another. -/
theorem decode_copySign (hx : decode x = .finite negative m e)
    (hy : decode y = .finite negative' m' e') : decode (copySign x y) = .finite negative' m e := by
  have hcanonical := canonical_of_decode hx
  have hlt := magnitudeBits_lt hcanonical
  have hbits : ((x.toBits &&& 0x7fffffffffffffff) ||| (y.toBits &&& 0x8000000000000000)).toNat
      = if negative' then magnitudeBits m e + signBit else magnitudeBits m e := by
    rw [UInt64.toNat_or, toNat_and_magnitude hx, toNat_and_sign hy]
    cases negative' with
    | false => exact Nat.or_zero _
    | true =>
      rw [if_pos rfl, if_pos rfl, signBit_eq, Nat.or_comm, Nat.add_comm]
      exact (Nat.two_pow_add_eq_or_of_lt (i := 63) (by omega) 1).symm
  rw [copySign, ← decode_ofBits hcanonical negative', ← hbits, UInt64.ofNat_toNat]

end Bits

/-! ## The order -/

section Order

variable {x : Float} {negative : Bool} {m : Nat} {e : Int}

theorem decode_zero : decode 0 = .finite false 0 minExponent := decode_nearest_zero 0 false

/-- Above zero are the positive forms, with zero left out. -/
theorem zero_lt_iff (h : decode x = .finite negative m e) :
    0 < x ↔ negative = false ∧ m ≠ 0 := by
  rw [lt_iff_units decode_zero h, signedUnits_zero]
  by_cases hm : m = 0
  · rw [hm, signedUnits_zero]
    exact ⟨fun hlt => absurd hlt (Int.lt_irrefl 0), fun hne => absurd rfl hne.2⟩
  · cases negative with
    | false => exact ⟨fun _ => ⟨rfl, hm⟩, fun _ => signedUnits_pos hm e⟩
    | true => exact ⟨fun hlt => absurd (hlt.trans (signedUnits_neg hm e)) (Int.lt_irrefl 0),
        fun hne => Bool.noConfusion hne.1⟩

/-- Below zero are the negative ones, with zero left out. -/
theorem lt_zero_iff (h : decode x = .finite negative m e) :
    x < 0 ↔ negative = true ∧ m ≠ 0 := by
  rw [lt_iff_units h decode_zero, signedUnits_zero]
  by_cases hm : m = 0
  · rw [hm, signedUnits_zero]
    exact ⟨fun hlt => absurd hlt (Int.lt_irrefl 0), fun hne => absurd rfl hne.2⟩
  · cases negative with
    | false => exact ⟨fun hlt => absurd (hlt.trans (signedUnits_pos hm e)) (Int.lt_irrefl _),
        fun hne => Bool.noConfusion hne.1⟩
    | true => exact ⟨fun _ => ⟨rfl, hm⟩, fun _ => signedUnits_neg hm e⟩

/-- A finite double that is not zero lies on one side of it. -/
theorem sided (hfinite : x.isFinite = true) (hne : ¬ (x == 0) = true) : 0 < x ∨ x < 0 := by
  obtain ⟨negative, m, e, h⟩ := decode_of_isFinite hfinite
  have hm : m ≠ 0 := by
    rintro rfl
    exact hne ((beq_zero_iff x).mpr ⟨signOf negative, by rw [← unpacked_decode, h, unpacked_zero]⟩)
  cases negative with
  | false => exact .inl ((zero_lt_iff h).mpr ⟨rfl, hm⟩)
  | true => exact .inr ((lt_zero_iff h).mpr ⟨rfl, hm⟩)

end Order

/-! ## Magnitudes and signs -/

section Signs

variable {x y : Float}

/-- The magnitude of a finite double is finite. -/
theorem isFinite_abs (h : x.isFinite = true) : x.abs.isFinite = true := by
  obtain ⟨negative, m, e, hx⟩ := decode_of_isFinite h
  exact isFinite_of_decode (decode_abs hx)

/-- The magnitude of what is not zero is positive. -/
theorem zero_lt_abs (h : x.isFinite = true) (hside : 0 < x ∨ x < 0) : 0 < x.abs := by
  obtain ⟨negative, m, e, hx⟩ := decode_of_isFinite h
  have hm : m ≠ 0 := by
    rcases hside with hpos | hneg
    · exact ((zero_lt_iff hx).mp hpos).2
    · exact ((lt_zero_iff hx).mp hneg).2
  exact (zero_lt_iff (decode_abs hx)).mpr ⟨rfl, hm⟩

/-- A double is its magnitude with its own sign. -/
theorem copySign_abs (h : x.isFinite = true) : copySign x.abs x = x := by
  obtain ⟨negative, m, e, hx⟩ := decode_of_isFinite h
  exact eq_of_decode (decode_copySign (decode_abs hx) hx) hx

/-- A sign leaves a magnitude as it is. -/
theorem abs_copySign (hpos : 0 < x) (hx : x.isFinite = true) (hy : y.isFinite = true) :
    (copySign x y).abs = x := by
  obtain ⟨negative, m, e, hx⟩ := decode_of_isFinite hx
  obtain ⟨negative', m', e', hy⟩ := decode_of_isFinite hy
  obtain ⟨rfl, -⟩ := (zero_lt_iff hx).mp hpos
  exact eq_of_decode (decode_abs (decode_copySign hx hy)) hx

/-- A magnitude lies on the side of its sign. -/
theorem copySign_side (hpos : 0 < x) (hx : x.isFinite = true) (hy : y.isFinite = true) :
    (0 < y → 0 < copySign x y) ∧ (y < 0 → copySign x y < 0) := by
  obtain ⟨negative, m, e, hx⟩ := decode_of_isFinite hx
  obtain ⟨negative', m', e', hy⟩ := decode_of_isFinite hy
  have hm := ((zero_lt_iff hx).mp hpos).2
  have hsigned := decode_copySign hx hy
  exact ⟨fun hside => (zero_lt_iff hsigned).mpr ⟨((zero_lt_iff hy).mp hside).1, hm⟩,
    fun hside => (lt_zero_iff hsigned).mpr ⟨((lt_zero_iff hy).mp hside).1, hm⟩⟩

end Signs

/-! ## Between finite doubles -/

/-- What compares with something is a number. -/
theorem isNaN_of_le {x y : Float} (h : x ≤ y) : x.isNaN = false ∧ y.isNaN = false := by
  obtain ⟨a, b, ha, hb, -⟩ := levels_of_le h
  exact ⟨(isNaN_iff_level x).mpr ⟨a, ha⟩, (isNaN_iff_level y).mpr ⟨b, hb⟩⟩

/-- What is finite is a number. -/
theorem isNaN_of_isFinite {x : Float} (h : x.isFinite = true) : x.isNaN = false := by
  obtain ⟨negative, m, e, hx⟩ := decode_of_isFinite h
  exact (isNaN_iff_level x).mpr ⟨_, level_of_finite hx⟩

/-- What lies between finite doubles is finite. -/
theorem isFinite_of_between {x lo hi : Float} (hlo : lo.isFinite = true)
    (hhi : hi.isFinite = true) (hlow : lo ≤ x) (hhigh : x ≤ hi) : x.isFinite = true := by
  obtain ⟨_, m, e, hlo⟩ := decode_of_isFinite hlo
  obtain ⟨_, m', e', hhi⟩ := decode_of_isFinite hhi
  cases hx : decode x with
  | finite => exact isFinite_of_decode hx
  | nan =>
    obtain ⟨a, ha⟩ := (isNaN_iff_level x).mp (isNaN_of_le hlow).2
    rw [level_of_nan hx] at ha
    cases ha
  | infinite negative =>
    have hlevel : level? x.toModel.unpack = some (toLex ((signOf negative).apply 1, 0)) := by
      rw [← unpacked_decode, hx]
      rfl
    rw [le_iff_level (level_of_finite hlo) hlevel] at hlow
    rw [le_iff_level hlevel (level_of_finite hhi)] at hhigh
    cases negative with
    | false => exact absurd hhigh (not_le.mpr (between_infinities _).2)
    | true => exact absurd hlow (not_le.mpr (between_infinities _).1)

end Binary64

end MotionControl
