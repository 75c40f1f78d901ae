import MotionControl.Proofs.Scalar.Double

/-!
# What doubles stand for

Every finite double is an integer number of the smallest ones.  Comparisons compare these
numbers, and an operation with a result that is a double again gives exactly this one.

- `Binary64.unpacked_decode`: decoding and unpacking see the same.
- `Binary64.Canonical`: the mantissas and exponents of finite doubles.
- `Binary64.signedUnits`: a finite value as a number of smallest doubles.
- `Binary64.lt_iff_units`, `Binary64.le_iff_units`: comparisons of doubles.
- `Binary64.decode_nearest`, `Binary64.round_exact`: nothing is rounded where nothing needs to be.
- `Binary64.decode_sub`, `Binary64.decode_add`, `Binary64.decode_remainder`: results that are
  doubles themselves.
- `Binary64.sub_zero`, `Binary64.decode_abs`: operations that never round.
- `Binary64.beq_zero_iff`: what is equal to zero.
-/

namespace MotionControl

namespace Binary64

open Float.Model (UnpackedFloat Format)
open Float.Model.UnpackedFloat (Sign)

/-! ## Two readings of a bit pattern -/

/-- The mantissa is in the lowest 52 bits. -/
theorem toNat_unpackMantissa (b : BitVec 64) :
    (@UnpackedFloat.unpackMantissa Format.binary64 b).toNat = b.toNat % 2 ^ 52 := by
  rw [UnpackedFloat.unpackMantissa_def, BitVec.extractLsb'_toNat, Nat.shiftRight_zero]

/-- The exponent is in the next eleven bits. -/
theorem toNat_unpackExponent (b : BitVec 64) :
    (@UnpackedFloat.unpackExponent Format.binary64 b).toNat
      = b.toNat / 2 ^ 52 % 2 ^ 11 := by
  rw [UnpackedFloat.unpackExponent_def, BitVec.extractLsb'_toNat, Nat.shiftRight_eq_div_pow]

/-- The sign is in the highest bit. -/
theorem toNat_unpackSign (b : BitVec 64) :
    (@UnpackedFloat.unpackSign Format.binary64 b).toNat = b.toNat / 2 ^ 63 := by
  have hlt := b.isLt
  have hbit : b.toNat / 2 ^ 63 < 2 ^ 1 := by omega
  rw [UnpackedFloat.unpackSign_def, BitVec.extractLsb'_toNat, Nat.shiftRight_eq_div_pow]
  exact Nat.mod_eq_of_lt hbit

/-- The sign that a truth value stands for. -/
def signOf (negative : Bool) : Sign := if negative then .negative else .positive

/-- What was decoded, in the form that arithmetic works on. -/
def Decoded.unpacked : Decoded → UnpackedFloat
  | .nan => .notANumber
  | .infinite negative => .infinity (signOf negative)
  | .finite negative m e =>
    if h : m = 0 then .zero (signOf negative)
    else .finite (signOf negative) m e (Nat.pos_of_ne_zero h)

theorem unpacked_zero (negative : Bool) (e : Int) :
    (Decoded.finite negative 0 e).unpacked = .zero (signOf negative) := rfl

theorem unpacked_finite (negative : Bool) {m : Nat} (hm : m ≠ 0) (e : Int) :
    (Decoded.finite negative m e).unpacked
      = .finite (signOf negative) m e (Nat.pos_of_ne_zero hm) := dif_neg hm

/-- The sign as the decoded form has it. -/
theorem ofBitVec_unpackSign (b : BitVec 64) :
    Sign.ofBitVec (@UnpackedFloat.unpackSign Format.binary64 b)
      = signOf (b.toNat / signBit == 1) := by
  have hsign := toNat_unpackSign b
  have hlt := b.isLt
  have hbit : signBit = 2 ^ 63 := rfl
  unfold Sign.ofBitVec signOf
  rw [hbit]
  by_cases hzero : @UnpackedFloat.unpackSign Format.binary64 b = 0#1
  · rw [hzero] at hsign
    rw [if_pos hzero, if_neg]
    rw [beq_iff_eq, ← hsign]
    decide
  · have hne : b.toNat / 2 ^ 63 ≠ 0 := by
      intro h
      refine hzero (BitVec.eq_of_toNat_eq ?_)
      rw [hsign, h]
      rfl
    rw [if_neg hzero, if_pos]
    rw [beq_iff_eq]
    omega

/-- A mantissa with its hidden bit. -/
theorem toNat_append_one (m : BitVec 52) : (1#1 ++ m).toNat = m.toNat + hiddenBit := by
  rw [BitVec.toNat_append, ← Nat.shiftLeft_add_eq_or_of_lt m.isLt, Nat.add_comm]
  rfl

theorem unpackExponent_eq_ones_iff (b : BitVec 64) :
    @UnpackedFloat.unpackExponent Format.binary64 b = -1#11 ↔
      b.toNat / hiddenBit % 2048 = 2047 := by
  rw [← BitVec.toNat_inj, toNat_unpackExponent]
  rfl

theorem unpackExponent_eq_zero_iff (b : BitVec 64) :
    @UnpackedFloat.unpackExponent Format.binary64 b = 0#11 ↔
      b.toNat / hiddenBit % 2048 = 0 := by
  rw [← BitVec.toNat_inj, toNat_unpackExponent]
  rfl

theorem unpackMantissa_eq_zero_iff (b : BitVec 64) :
    @UnpackedFloat.unpackMantissa Format.binary64 b = 0#52 ↔ b.toNat % hiddenBit = 0 := by
  rw [← BitVec.toNat_inj, toNat_unpackMantissa]
  rfl

/-- Decoding a double and unpacking it see the same. -/
theorem unpacked_decode (x : Float) : (decode x).unpacked = x.toModel.unpack := by
  obtain ⟨⟨⟨b⟩, valid⟩⟩ := x
  have hmantissa : (@UnpackedFloat.unpackMantissa Format.binary64 b).toNat
      = b.toNat % hiddenBit := toNat_unpackMantissa b
  have hexponent : (@UnpackedFloat.unpackExponent Format.binary64 b).toNat
      = b.toNat / hiddenBit % 2048 := toNat_unpackExponent b
  have hones := unpackExponent_eq_ones_iff b
  have hzeros := unpackExponent_eq_zero_iff b
  have hfraction := unpackMantissa_eq_zero_iff b
  show (decode ⟨⟨⟨b⟩, valid⟩⟩).unpacked = UnpackedFloat.unpack Format.binary64 b
  have hbits : (⟨⟨⟨b⟩, valid⟩⟩ : Float).toBits.toNat = b.toNat := rfl
  unfold decode UnpackedFloat.unpack
  simp only [hbits, ofBitVec_unpackSign b]
  -- Both look at the exponent field first: all ones, all zeros, anything else.
  by_cases hmax : b.toNat / hiddenBit % 2048 = 2047
  · rw [if_pos hmax, if_pos (hones.mpr hmax)]
    by_cases hf : b.toNat % hiddenBit = 0
    · rw [if_pos hf, if_pos (hfraction.mpr hf)]
      rfl
    · rw [if_neg hf, if_neg (mt hfraction.mp hf)]
      rfl
  · rw [if_neg hmax, if_neg (mt hones.mp hmax)]
    by_cases hmin : b.toNat / hiddenBit % 2048 = 0
    · rw [if_pos hmin, if_pos (hzeros.mpr hmin)]
      by_cases hf : b.toNat % hiddenBit = 0
      · rw [hf, unpacked_zero, dif_pos (hfraction.mpr hf)]
      · rw [unpacked_finite _ hf, dif_neg (mt hfraction.mp hf)]
        simp only [hmantissa, hexponent, hmin]
        rfl
    · rw [if_neg hmin, if_neg (mt hzeros.mp hmin)]
      have hne : b.toNat % hiddenBit + hiddenBit ≠ 0 :=
        Nat.ne_of_gt (Nat.add_pos_right _ (by decide))
      rw [unpacked_finite _ hne]
      congr 1
      · rw [toNat_append_one, hmantissa]
      · rw [hexponent]
        show _ = ((b.toNat / hiddenBit % 2048 : Nat) : Int) - (1023 + 52)
        unfold minExponent
        omega

/-! ## Finite doubles -/

/-- The mantissas and exponents of finite doubles. -/
structure Canonical (m : Nat) (e : Int) : Prop where
  small : m < 2 ^ 53
  lowest : minExponent ≤ e
  highest : e ≤ 971
  normal : e ≠ minExponent → hiddenBit ≤ m

theorem hiddenBit_eq : hiddenBit = 2 ^ 52 := rfl

theorem signBit_eq : signBit = 2 ^ 63 := rfl

theorem minExponent_eq : minExponent = -1074 := rfl

/-- A zero has the lowest exponent. -/
theorem exponent_of_zero {e : Int} (h : Canonical 0 e) : e = minExponent := by
  refine Classical.byContradiction fun hne => ?_
  have hnormal := h.normal hne
  rw [hiddenBit_eq] at hnormal
  omega

/-- Decoding gives one form for each double. -/
theorem canonical_of_decode {x : Float} {negative : Bool} {m : Nat} {e : Int}
    (h : decode x = .finite negative m e) : Canonical m e := by
  unfold decode at h
  extract_lets bits negative' field fraction at h
  have hfield : field < 2048 := Nat.mod_lt _ (by decide)
  have hfraction : fraction < 2 ^ 52 := Nat.mod_lt _ (by decide)
  by_cases hmax : field = 2047
  · rw [if_pos hmax] at h
    by_cases hf : fraction = 0
    · rw [if_pos hf] at h
      cases h
    · rw [if_neg hf] at h
      cases h
  · rw [if_neg hmax] at h
    by_cases hmin : field = 0
    · rw [if_pos hmin] at h
      obtain ⟨-, rfl, rfl⟩ := Decoded.finite.inj h
      exact ⟨by omega, Int.le_refl _, by decide, fun hne => absurd rfl hne⟩
    · rw [if_neg hmin] at h
      obtain ⟨-, rfl, rfl⟩ := Decoded.finite.inj h
      rw [minExponent_eq, hiddenBit_eq]
      exact ⟨by omega, by rw [minExponent_eq]; omega, by omega, fun _ => Nat.le_add_left _ _⟩

/-- The bits of the magnitude of a finite double: the exponent field and the mantissa overlap
in the hidden bit. -/
def magnitudeBits (m : Nat) (e : Int) : Nat := (e - minExponent).toNat * hiddenBit + m

/-- The bits of a finite magnitude are below those of the infinite one. -/
theorem magnitudeBits_lt {m : Nat} {e : Int} (h : Canonical m e) :
    magnitudeBits m e < 2047 * 2 ^ 52 := by
  have hsmall := h.small
  have hhighest := h.highest
  rw [magnitudeBits, minExponent_eq, hiddenBit_eq]
  omega

/-- A pattern whose exponent field is not the one of infinities stays as it is. -/
theorem toBits_ofBits {bits : Nat} (hlt : bits < 2 ^ 64) (h : bits / 2 ^ 52 % 2 ^ 11 ≠ 2047) :
    (Float.ofBits (UInt64.ofNat bits)).toBits.toNat = bits := by
  have hbits : (UInt64.ofNat bits).toBitVec.toNat = bits := UInt64.toNat_ofNat_of_lt hlt
  have hnumber : @UnpackedFloat.isNaNBits Format.binary64
      (UInt64.ofNat bits).toBitVec = false := by
    have hexponent := toNat_unpackExponent (UInt64.ofNat bits).toBitVec
    rw [hbits] at hexponent
    refine decide_eq_false fun hones => h ?_
    rw [← hexponent, hones.1]
    rfl
  show (UnpackedFloat.pack Format.binary64
    (UnpackedFloat.unpack Format.binary64 (UInt64.ofNat bits).toBitVec)).toNat = bits
  rw [UnpackedFloat.pack_unpack, hnumber]
  exact UInt64.toNat_ofNat_of_lt hlt

/-- How the bits of a finite double are decoded. -/
theorem decode_of_bits {bits : Nat} (hlt : bits < 2 ^ 64) (h : bits / 2 ^ 52 % 2 ^ 11 ≠ 2047) :
    decode (Float.ofBits (UInt64.ofNat bits))
      = if bits / 2 ^ 52 % 2 ^ 11 = 0 then .finite (bits / 2 ^ 63 == 1) (bits % 2 ^ 52) minExponent
        else .finite (bits / 2 ^ 63 == 1) (bits % 2 ^ 52 + 2 ^ 52)
          ((bits / 2 ^ 52 % 2 ^ 11 : Nat) + minExponent - 1) := by
  rw [decode]
  simp only [toBits_ofBits hlt h, hiddenBit_eq, signBit_eq]
  exact if_neg h

/-- A mantissa without the hidden bit has a field of zero; the others add the hidden bit to
their field. -/
theorem magnitudeBits_fields {m : Nat} {e : Int} (h : Canonical m e) :
    magnitudeBits m e / 2 ^ 52 = 0 ∧ magnitudeBits m e % 2 ^ 52 = m ∧ minExponent = e ∨
      magnitudeBits m e / 2 ^ 52 ≠ 0 ∧ magnitudeBits m e % 2 ^ 52 + 2 ^ 52 = m ∧
        ((magnitudeBits m e / 2 ^ 52 : Nat) : Int) + minExponent - 1 = e := by
  have hsmall := h.small
  have hlowest := h.lowest
  have hnormal := h.normal
  rw [hiddenBit_eq] at hnormal
  rw [magnitudeBits, hiddenBit_eq]
  rw [minExponent_eq] at hlowest hnormal ⊢
  by_cases hm : m < 2 ^ 52
  · left
    have he : e = -1074 := by omega
    omega
  · right
    omega

/-- Decoding takes back what the bits were made of. -/
theorem decode_ofBits {m : Nat} {e : Int} (h : Canonical m e) (negative : Bool) :
    decode (Float.ofBits (UInt64.ofNat
      (if negative then magnitudeBits m e + signBit else magnitudeBits m e)))
      = .finite negative m e := by
  have hlt := magnitudeBits_lt h
  obtain ⟨bits, hbits⟩ : ∃ bits, bits
      = if negative then magnitudeBits m e + signBit else magnitudeBits m e := ⟨_, rfl⟩
  have hword : bits < 2 ^ 64 := by
    rw [hbits, signBit_eq]
    split <;> omega
  -- The sign bit is above the magnitude and changes none of its fields.
  obtain ⟨hsign, hfield, hfraction⟩ : (bits / 2 ^ 63 == 1) = negative ∧
      bits / 2 ^ 52 % 2 ^ 11 = magnitudeBits m e / 2 ^ 52 ∧
      bits % 2 ^ 52 = magnitudeBits m e % 2 ^ 52 := by
    rw [hbits, signBit_eq]
    cases negative with
    | false =>
      rw [if_neg Bool.false_ne_true, beq_eq_false_iff_ne]
      omega
    | true =>
      rw [if_pos rfl, beq_iff_eq]
      omega
  rw [← hbits, decode_of_bits hword (by omega), hsign, hfield, hfraction]
  obtain ⟨hzero, hm, he⟩ | ⟨hone, hm, he⟩ := magnitudeBits_fields h
  · rw [if_pos hzero, hm, he]
  · rw [if_neg hone, hm, he]

/-- A double is what it is unpacked to. -/
theorem eq_of_unpack {x y : Float} (h : x.toModel.unpack = y.toModel.unpack) : x = y := by
  obtain ⟨⟨⟨b⟩, valid⟩⟩ := x
  obtain ⟨⟨⟨b'⟩, valid'⟩⟩ := y
  have hbits : b = b' := (UnpackedFloat.unpack_inj_of_valid valid valid').mp h
  cases hbits
  rfl

/-- A finite double is its mantissa and exponent, with a sign. -/
theorem eq_of_decode {x y : Float} {negative : Bool} {m : Nat} {e : Int}
    (hx : decode x = .finite negative m e) (hy : decode y = .finite negative m e) : x = y := by
  refine eq_of_unpack ?_
  rw [← unpacked_decode, ← unpacked_decode, hx, hy]

/-! ## Numbers of smallest doubles -/

/-- The magnitude `m * 2 ^ e` as a number of smallest doubles. -/
def magnitude (m : Nat) (e : Int) : Nat := m * 2 ^ (e - minExponent).toNat

/-- A finite value as a number of smallest doubles. -/
def signedUnits (negative : Bool) (m : Nat) (e : Int) : Int :=
  if negative then -(magnitude m e : Int) else magnitude m e

/-- A magnitude may be written with a lower last place. -/
theorem magnitude_shiftLeft {m : Nat} {e c : Int} (hle : c ≤ e) (hlowest : minExponent ≤ c) :
    magnitude (m <<< (e - c).toNat) c = magnitude m e := by
  rw [magnitude, magnitude, Nat.shiftLeft_eq, Nat.mul_assoc, ← Nat.pow_add]
  congr 2
  omega

/-- One more in the exponent is twice the magnitude. -/
theorem magnitude_succ (m : Nat) {e : Int} (hlowest : minExponent ≤ e) :
    magnitude m (e + 1) = 2 * magnitude m e := by
  have hexponent : (e + 1 - minExponent).toNat = (e - minExponent).toNat + 1 := by omega
  rw [magnitude, magnitude, hexponent, Nat.pow_succ, Nat.mul_comm _ 2, Nat.mul_left_comm]

/-- Of two forms, the one with the greater exponent is greater. -/
theorem Canonical.magnitude_lt {m m' : Nat} {e e' : Int} (h : Canonical m e)
    (h' : Canonical m' e') (he : e < e') : magnitude m e < magnitude m' e' := by
  have hlowest := h.lowest
  have hnormal : 2 ^ 52 ≤ m' := h'.normal (by omega)
  have hscale : 2 ^ (e - minExponent).toNat * 2 ≤ 2 ^ (e' - minExponent).toNat := by
    rw [← Nat.pow_succ]
    exact Nat.pow_le_pow_right (by decide) (by omega)
  have hpos := Nat.two_pow_pos (e - minExponent).toNat
  calc magnitude m e < 2 ^ 53 * 2 ^ (e - minExponent).toNat :=
        Nat.mul_lt_mul_of_pos_right h.small hpos
    _ = 2 ^ 52 * (2 ^ (e - minExponent).toNat * 2) := by omega
    _ ≤ m' * 2 ^ (e' - minExponent).toNat := Nat.mul_le_mul hnormal hscale

/-- Magnitudes compare like exponents, and like mantissas where these are the same. -/
theorem Canonical.compare_magnitude {m m' : Nat} {e e' : Int} (h : Canonical m e)
    (h' : Canonical m' e') :
    compare (magnitude m e) (magnitude m' e') = (compare e e').then (compare m m') := by
  rcases Int.lt_trichotomy e e' with hlt | rfl | hlt
  · rw [Int.compare_eq_lt.mpr hlt]
    exact Nat.compare_eq_lt.mpr (h.magnitude_lt h' hlt)
  · rw [Int.compare_eq_eq.mpr rfl]
    have hpos := Nat.two_pow_pos (e - minExponent).toNat
    rcases Nat.lt_trichotomy m m' with hlt | rfl | hlt
    · rw [Nat.compare_eq_lt.mpr hlt]
      exact Nat.compare_eq_lt.mpr (Nat.mul_lt_mul_of_pos_right hlt hpos)
    · rw [Nat.compare_eq_eq.mpr rfl, Nat.compare_eq_eq.mpr rfl]
      rfl
    · rw [Nat.compare_eq_gt.mpr hlt]
      exact Nat.compare_eq_gt.mpr (Nat.mul_lt_mul_of_pos_right hlt hpos)
  · rw [Int.compare_eq_gt.mpr hlt]
    exact Nat.compare_eq_gt.mpr (h'.magnitude_lt h hlt)

/-- A magnitude has one mantissa and one exponent. -/
theorem Canonical.eq_of_magnitude {m m' : Nat} {e e' : Int} (h : Canonical m e)
    (h' : Canonical m' e') (heq : magnitude m e = magnitude m' e') : m = m' ∧ e = e' := by
  have hcompare := h.compare_magnitude h'
  rw [Nat.compare_eq_eq.mpr heq] at hcompare
  obtain ⟨he, hm⟩ := Ordering.then_eq_eq.mp hcompare.symm
  exact ⟨Nat.compare_eq_eq.mp hm, Int.compare_eq_eq.mp he⟩

theorem magnitude_zero (e : Int) : magnitude 0 e = 0 := Nat.zero_mul _

theorem magnitude_pos {m : Nat} (hm : m ≠ 0) (e : Int) : 0 < magnitude m e :=
  Nat.mul_pos (Nat.pos_of_ne_zero hm) (Nat.two_pow_pos _)

theorem signedUnits_zero (negative : Bool) (e : Int) : signedUnits negative 0 e = 0 := by
  cases negative <;> simp [signedUnits, magnitude_zero]

theorem signedUnits_neg {m : Nat} (hm : m ≠ 0) (e : Int) : signedUnits true m e < 0 := by
  have hpos := magnitude_pos hm e
  rw [signedUnits, if_pos rfl]
  omega

theorem signedUnits_pos {m : Nat} (hm : m ≠ 0) (e : Int) : 0 < signedUnits false m e := by
  have hpos := magnitude_pos hm e
  rw [signedUnits, if_neg Bool.false_ne_true]
  omega

/-- The magnitude does not depend on the sign. -/
theorem natAbs_signedUnits (negative : Bool) (m : Nat) (e : Int) :
    (signedUnits negative m e).natAbs = magnitude m e := by
  cases negative with
  | false => rfl
  | true => exact Int.natAbs_neg _

/-- Positive doubles compare as their magnitudes. -/
theorem compare_positive (m m' : Nat) (e e' : Int) :
    compare (signedUnits false m e) (signedUnits false m' e')
      = compare (magnitude m e) (magnitude m' e') := by
  rw [signedUnits, signedUnits, if_neg Bool.false_ne_true, if_neg Bool.false_ne_true]
  rcases Nat.lt_trichotomy (magnitude m e) (magnitude m' e') with hlt | heq | hlt
  · rw [Nat.compare_eq_lt.mpr hlt, Int.compare_eq_lt.mpr (Int.ofNat_lt.mpr hlt)]
  · rw [Nat.compare_eq_eq.mpr heq, Int.compare_eq_eq.mpr (congrArg _ heq)]
  · rw [Nat.compare_eq_gt.mpr hlt, Int.compare_eq_gt.mpr (Int.ofNat_lt.mpr hlt)]

/-- Negative ones compare the other way round. -/
theorem compare_negative (m m' : Nat) (e e' : Int) :
    compare (signedUnits true m e) (signedUnits true m' e')
      = (compare (magnitude m e) (magnitude m' e')).swap := by
  rw [signedUnits, signedUnits, if_pos rfl, if_pos rfl]
  rcases Nat.lt_trichotomy (magnitude m e) (magnitude m' e') with hlt | heq | hlt
  · rw [Nat.compare_eq_lt.mpr hlt, Int.compare_eq_gt.mpr (by omega)]
    rfl
  · rw [Nat.compare_eq_eq.mpr heq, Int.compare_eq_eq.mpr (by omega)]
    rfl
  · rw [Nat.compare_eq_gt.mpr hlt, Int.compare_eq_lt.mpr (by omega)]
    rfl

/-- Finite doubles compare like the numbers that they stand for. -/
theorem compare_unpack {x y : Float} {negative negative' : Bool} {m m' : Nat} {e e' : Int}
    (hx : decode x = .finite negative m e) (hy : decode y = .finite negative' m' e') :
    x.toModel.unpack.compare y.toModel.unpack
      = some (compare (signedUnits negative m e) (signedUnits negative' m' e')) := by
  have hcompare := (canonical_of_decode hx).compare_magnitude (canonical_of_decode hy)
  rw [← unpacked_decode, ← unpacked_decode, hx, hy]
  by_cases hm : m = 0
  · rw [hm, unpacked_zero, signedUnits_zero]
    by_cases hm' : m' = 0
    · rw [hm', unpacked_zero, signedUnits_zero]
      rfl
    · rw [unpacked_finite _ hm']
      cases negative' with
      | true => rw [Int.compare_eq_gt.mpr (signedUnits_neg hm' e')]; rfl
      | false => rw [Int.compare_eq_lt.mpr (signedUnits_pos hm' e')]; rfl
  · rw [unpacked_finite _ hm]
    by_cases hm' : m' = 0
    · rw [hm', unpacked_zero, signedUnits_zero]
      cases negative with
      | true => rw [Int.compare_eq_lt.mpr (signedUnits_neg hm e)]; rfl
      | false => rw [Int.compare_eq_gt.mpr (signedUnits_pos hm e)]; rfl
    · rw [unpacked_finite _ hm']
      cases negative with
      | true =>
        cases negative' with
        | true => rw [compare_negative, hcompare]; rfl
        | false =>
          have hneg := signedUnits_neg hm e
          rw [Int.compare_eq_lt.mpr (hneg.trans (signedUnits_pos hm' e'))]
          rfl
      | false =>
        cases negative' with
        | true =>
          have hneg := signedUnits_neg hm' e'
          rw [Int.compare_eq_gt.mpr (hneg.trans (signedUnits_pos hm e))]
          rfl
        | false => rw [compare_positive, hcompare]; rfl

/-- Finite doubles compare as whole numbers of the smallest double. -/
theorem lt_iff_units {x y : Float} {negative negative' : Bool} {m m' : Nat} {e e' : Int}
    (hx : decode x = .finite negative m e) (hy : decode y = .finite negative' m' e') :
    x < y ↔ signedUnits negative m e < signedUnits negative' m' e' := by
  rw [lt_iff, UnpackedFloat.lt, compare_unpack hx hy, beq_iff_eq, Option.some_inj,
    Int.compare_eq_lt]

theorem le_iff_units {x y : Float} {negative negative' : Bool} {m m' : Nat} {e e' : Int}
    (hx : decode x = .finite negative m e) (hy : decode y = .finite negative' m' e') :
    x ≤ y ↔ signedUnits negative m e ≤ signedUnits negative' m' e' := by
  rw [le_iff, UnpackedFloat.le, compare_unpack hx hy, Option.any_some, Ordering.isLE_iff_ne_gt]
  exact (not_congr Int.compare_eq_gt).trans Int.not_lt

/-! ## Exact results -/

/-- The last place that the mantissa of a double nearest to `n * 2 ^ e` has. -/
def place (n : Nat) (e : Int) : Int := max (e + n.log2 - 52) minExponent

/-- The same magnitude with its last place. -/
structure Placed (n : Nat) (e : Int) (m : Nat) (e' : Int) : Prop where
  canonical : Canonical m e'
  ne : m ≠ 0
  magnitude : magnitude m e' = magnitude n e

/-- A mantissa that fits is shifted to its last place without a loss. -/
theorem placed {n : Nat} {e : Int} (hne : n ≠ 0) (hn : n < 2 ^ 53) (hlowest : minExponent ≤ e)
    (hhighest : e ≤ 971) :
    place n e ≤ e ∧ Placed n e (n <<< (e - place n e).toNat) (place n e) := by
  have hlog : n.log2 < 53 := (Nat.log2_lt hne).mpr hn
  have hle : place n e ≤ e := Int.max_le.mpr ⟨by omega, hlowest⟩
  have hleft : e + n.log2 - 52 ≤ place n e := Int.le_max_left _ _
  have hright : minExponent ≤ place n e := Int.le_max_right _ _
  refine ⟨hle, ?_, ?_, magnitude_shiftLeft hle hright⟩
  all_goals
    rw [Nat.shiftLeft_eq]
    obtain ⟨k, hk⟩ : ∃ k, k = (e - place n e).toNat := ⟨_, rfl⟩
    rw [← hk]
  refine ⟨?_, hright, by omega, fun hnormal => ?_⟩
  · calc n * 2 ^ k < 2 ^ (n.log2 + 1) * 2 ^ k :=
          Nat.mul_lt_mul_of_pos_right Nat.lt_log2_self (Nat.two_pow_pos k)
      _ = 2 ^ (n.log2 + 1 + k) := (Nat.pow_add ..).symm
      _ ≤ 2 ^ 53 := Nat.pow_le_pow_right (by decide) (by omega)
  · have hplace : place n e = e + n.log2 - 52 := by
      unfold place at hnormal ⊢
      omega
    have hexponent : n.log2 + k = 52 := by omega
    calc hiddenBit = 2 ^ (n.log2 + k) := by rw [hexponent]; rfl
      _ = 2 ^ n.log2 * 2 ^ k := Nat.pow_add ..
      _ ≤ n * 2 ^ k := Nat.mul_le_mul_right _ (Nat.log2_self_le hne)
  · exact Nat.ne_of_gt (Nat.mul_pos (Nat.pos_of_ne_zero hne) (Nat.two_pow_pos k))

/-- The double nearest to one is this one. -/
theorem decode_nearest {n : Nat} {e : Int} (hne : n ≠ 0) (hn : n < 2 ^ 53)
    (hlowest : minExponent ≤ e) (hhighest : e ≤ 971) (negative : Bool) :
    ∃ m e', decode (nearest negative n e) = .finite negative m e' ∧ Placed n e m e' := by
  obtain ⟨hle, hplaced⟩ := placed hne hn hlowest hhighest
  refine ⟨_, _, ?_, hplaced⟩
  have hbits : nearestBits n e = magnitudeBits (n <<< (e - place n e).toNat) (place n e) := by
    unfold nearestBits
    rw [if_neg hne]
    show min (magnitudeBits (if place n e ≤ e then _ else _) (place n e)) infinityBits = _
    rw [if_pos hle]
    exact Nat.min_eq_left (Nat.le_of_lt (magnitudeBits_lt hplaced.canonical))
  rw [nearest, hbits]
  exact decode_ofBits hplaced.canonical negative

/-- Zero is rounded to itself. -/
theorem decode_nearest_zero (e : Int) (negative : Bool) :
    decode (nearest negative 0 e) = .finite negative 0 minExponent := by
  have hbits : nearestBits 0 e = magnitudeBits 0 minExponent := rfl
  rw [nearest, hbits]
  exact decode_ofBits ⟨by decide, Int.le_refl _, by decide, fun hne => absurd rfl hne⟩ negative

theorem targetExponent_eq (n : Nat) (e : Int) :
    Format.binary64.targetExponent (Float.Model.totalExponent n e) = place n e := by
  have hlowest : Format.binary64.minExponent = minExponent := rfl
  have hbits : (Format.binary64.mantissaBits : Int) = 53 := rfl
  unfold Format.targetExponent Float.Model.totalExponent place
  rw [hlowest, hbits]
  congr 1
  omega

/-- A mantissa that fits is not shifted any further. -/
theorem shiftToTargetExponent_exact {m : Nat} {e : Int} (hne : m ≠ 0) (hm : m < 2 ^ 53)
    (hlowest : minExponent ≤ e) :
    UnpackedFloat.shiftToTargetExponent Format.binary64 m e .exact = (⟨m, false, false⟩, e) := by
  have hlog : m.log2 < 53 := (Nat.log2_lt hne).mpr hm
  have hle : place m e ≤ e := Int.max_le.mpr ⟨by omega, hlowest⟩
  have hnone : (place m e - e).toNat = 0 := by omega
  unfold UnpackedFloat.shiftToTargetExponent UnpackedFloat.shiftToExponent
  simp only [targetExponent_eq, hnone]
  rw [Int.ofNat_zero, Int.add_zero]
  rfl

/-- Rounding leaves a mantissa that fits what it is. -/
theorem round_exact {n : Nat} {e : Int} (hne : n ≠ 0) (hn : n < 2 ^ 53)
    (hlowest : minExponent ≤ e) (hhighest : e ≤ 971) (s : Sign) :
    ∃ m e' hm, UnpackedFloat.round Format.binary64 s n e = .finite s m e' hm ∧
      Placed n e m e' := by
  obtain ⟨hle, hplaced⟩ := placed hne hn hlowest hhighest
  refine ⟨_, _, Nat.pos_of_ne_zero hplaced.ne, ?_, hplaced⟩
  have hshift : e - ((e - place n e).toNat : Int) = place n e := by omega
  have hexact := shiftToTargetExponent_exact hplaced.ne hplaced.canonical.small
    hplaced.canonical.lowest
  unfold UnpackedFloat.round UnpackedFloat.decreaseExponent UnpackedFloat.roundWithAccuracy
  simp only [targetExponent_eq, hshift, hexact]
  have hrounded : UnpackedFloat.ExtendedMantissa.roundedMantissa
      ⟨n <<< (e - place n e).toNat, false, false⟩ = n <<< (e - place n e).toNat := rfl
  simp only [hrounded, hexact]
  exact dif_neg hplaced.ne

/-- Packing what was unpacked gives it back. -/
theorem unpack_pack_unpack (x : Float) :
    UnpackedFloat.unpack Format.binary64
      (UnpackedFloat.pack Format.binary64 x.toModel.unpack) = x.toModel.unpack := by
  obtain ⟨⟨⟨b⟩, valid⟩⟩ := x
  show UnpackedFloat.unpack Format.binary64
    (UnpackedFloat.pack Format.binary64 (UnpackedFloat.unpack Format.binary64 b))
      = UnpackedFloat.unpack Format.binary64 b
  rw [UnpackedFloat.pack_unpack_of_valid valid]

/-- Packing keeps the mantissa and the exponent of a double. -/
theorem unpack_pack_finite {m : Nat} {e : Int} (h : Canonical m e) (negative : Bool) :
    UnpackedFloat.unpack Format.binary64
        (UnpackedFloat.pack Format.binary64 (Decoded.finite negative m e).unpacked)
      = (Decoded.finite negative m e).unpacked := by
  obtain ⟨x, hx⟩ : ∃ x, decode x = .finite negative m e := ⟨_, decode_ofBits h negative⟩
  rw [← hx, unpacked_decode, unpack_pack_unpack]

/-- The unpacked form determines the decoded one. -/
theorem decode_of_unpack {x : Float} {negative : Bool} {m : Nat} {e : Int} (hne : m ≠ 0)
    (h : x.toModel.unpack = (Decoded.finite negative m e).unpacked) :
    decode x = .finite negative m e := by
  rw [← unpacked_decode, unpacked_finite _ hne] at h
  cases hx : decode x with
  | nan => rw [hx] at h; cases h
  | infinite negative' => rw [hx] at h; cases h
  | finite negative' m' e' =>
    rw [hx] at h
    by_cases hm' : m' = 0
    · rw [hm', unpacked_zero] at h
      cases h
    · rw [unpacked_finite _ hm'] at h
      obtain ⟨hsign, rfl, rfl⟩ := UnpackedFloat.finite.inj h
      cases negative <;> cases negative' <;> first | rfl | cases hsign

/-- A sum whose mantissa fits is not rounded. -/
theorem normalize_exact {M : Int} {e : Int} (hne : M ≠ 0) (hM : M.natAbs < 2 ^ 53)
    (hlowest : minExponent ≤ e) (hhighest : e ≤ 971) :
    ∃ negative m e', m ≠ 0 ∧ Canonical m e' ∧
      UnpackedFloat.normalize Format.binary64 M e .positive
        = (Decoded.finite negative m e').unpacked ∧
      signedUnits negative m e' = M * 2 ^ (e - minExponent).toNat := by
  unfold UnpackedFloat.normalize
  rcases Int.lt_trichotomy M 0 with hneg | hzero | hpos
  · obtain ⟨m, e', hm, hround, hplaced⟩ := round_exact (n := (-M).toNat) (by omega) (by omega)
      hlowest hhighest .negative
    refine ⟨true, m, e', hplaced.ne, hplaced.canonical, ?_, ?_⟩
    · rw [Int.compare_eq_lt.mpr hneg, unpacked_finite _ hplaced.ne]
      exact hround
    · rw [signedUnits, if_pos rfl, hplaced.magnitude, magnitude]
      push_cast [Int.toNat_of_nonneg (Int.neg_nonneg.mpr (Int.le_of_lt hneg))]
      ring
  · exact absurd hzero hne
  · obtain ⟨m, e', hm, hround, hplaced⟩ := round_exact (n := M.toNat) (by omega) (by omega)
      hlowest hhighest .positive
    refine ⟨false, m, e', hplaced.ne, hplaced.canonical, ?_, ?_⟩
    · rw [Int.compare_eq_gt.mpr hpos, unpacked_finite _ hplaced.ne]
      exact hround
    · rw [signedUnits, if_neg Bool.false_ne_true, hplaced.magnitude, magnitude]
      push_cast [Int.toNat_of_nonneg (Int.le_of_lt hpos)]
      rfl

/-- Operands brought to a common last place keep their values. -/
theorem apply_shiftLeft {m : Nat} {e c : Int} (hle : c ≤ e) (hlowest : minExponent ≤ c)
    (negative : Bool) :
    (signOf negative).apply (m <<< (e - c).toNat : Nat) * 2 ^ (c - minExponent).toNat
      = signedUnits negative m e := by
  have hcast : ((m <<< (e - c).toNat : Nat) : Int) * 2 ^ (c - minExponent).toNat
      = magnitude m e := by
    rw [← magnitude_shiftLeft hle hlowest, magnitude]
    push_cast
    rfl
  cases negative with
  | false => exact hcast
  | true =>
    rw [signedUnits, if_pos rfl, ← hcast]
    exact Int.neg_mul _ _

/-- A sum of two doubles, their difference among them, is a double when it is no longer than
either of them: it has the last place of one of them, and its mantissa fits. -/
theorem decode_sum {x y z : Float} {negative negative' : Bool} {m m' : Nat} {e e' M : Int}
    (hx : decode x = .finite negative m e) (hy : decode y = .finite negative' m' e')
    (hz : z.toModel.unpack = UnpackedFloat.unpack Format.binary64 (UnpackedFloat.pack
      Format.binary64 (UnpackedFloat.normalize Format.binary64 M (min e e') .positive)))
    {D : Int} (hD : M * 2 ^ (min e e' - minExponent).toNat = D) (hne : D ≠ 0)
    (hleft : D.natAbs ≤ magnitude m e) (hright : D.natAbs ≤ magnitude m' e') :
    ∃ negative'' m'' e'', decode z = .finite negative'' m'' e'' ∧
      signedUnits negative'' m'' e'' = D := by
  have hcanonical := canonical_of_decode hx
  have hcanonical' := canonical_of_decode hy
  have hpos := Nat.two_pow_pos (min e e' - minExponent).toNat
  have habs : M.natAbs * 2 ^ (min e e' - minExponent).toNat = D.natAbs := by
    rw [← hD, Int.natAbs_mul, Int.natAbs_pow]
    rfl
  -- The result is no longer than the operand that has its last place.
  have hM : M.natAbs < 2 ^ 53 := by
    rcases Int.le_total e e' with hle | hle
    · rw [Int.min_eq_left hle] at habs hpos
      rw [← habs] at hleft
      exact Nat.lt_of_le_of_lt (Nat.le_of_mul_le_mul_right hleft hpos) hcanonical.small
    · rw [Int.min_eq_right hle] at habs hpos
      rw [← habs] at hright
      exact Nat.lt_of_le_of_lt (Nat.le_of_mul_le_mul_right hright hpos) hcanonical'.small
  have hMne : M ≠ 0 := by
    rintro rfl
    exact hne (hD.symm.trans (Int.zero_mul _))
  have hlowest : minExponent ≤ min e e' :=
    Int.le_min.mpr ⟨hcanonical.lowest, hcanonical'.lowest⟩
  have hhighest : min e e' ≤ 971 := Int.le_trans (Int.min_le_left _ _) hcanonical.highest
  obtain ⟨negative'', m'', e'', hne'', hcanonical'', hnormalize, hunits⟩ :=
    normalize_exact hMne hM hlowest hhighest
  refine ⟨negative'', m'', e'', decode_of_unpack hne'' ?_, hunits.trans hD⟩
  rw [hz, hnormalize, unpack_pack_finite hcanonical'']

/-- A difference that is no greater than either of its terms is exact. -/
theorem decode_sub {x y : Float} {negative negative' : Bool} {m m' : Nat} {e e' : Int}
    (hx : decode x = .finite negative m e) (hy : decode y = .finite negative' m' e')
    (hm : m ≠ 0) (hm' : m' ≠ 0) {D : Int}
    (hD : signedUnits negative m e - signedUnits negative' m' e' = D) (hne : D ≠ 0)
    (hleft : D.natAbs ≤ magnitude m e) (hright : D.natAbs ≤ magnitude m' e') :
    ∃ negative'' m'' e'', decode (x - y) = .finite negative'' m'' e'' ∧
      signedUnits negative'' m'' e'' = D := by
  have hlowest : minExponent ≤ min e e' :=
    Int.le_min.mpr ⟨(canonical_of_decode hx).lowest, (canonical_of_decode hy).lowest⟩
  refine decode_sum (M := (signOf negative).apply (m <<< (e - min e e').toNat : Nat)
    - (signOf negative').apply (m' <<< (e' - min e e').toNat : Nat)) hx hy ?_ ?_ hne hleft hright
  · show UnpackedFloat.unpack _ (UnpackedFloat.pack _
      (UnpackedFloat.sub _ x.toModel.unpack y.toModel.unpack)) = _
    rw [← unpacked_decode, ← unpacked_decode, hx, hy, unpacked_finite _ hm, unpacked_finite _ hm']
    rfl
  · rw [Int.sub_mul, apply_shiftLeft (Int.min_le_left _ _) hlowest,
      apply_shiftLeft (Int.min_le_right _ _) hlowest, hD]

/-- So is a sum that is no greater than either of its terms. -/
theorem decode_add {x y : Float} {negative negative' : Bool} {m m' : Nat} {e e' : Int}
    (hx : decode x = .finite negative m e) (hy : decode y = .finite negative' m' e')
    (hm : m ≠ 0) (hm' : m' ≠ 0) {D : Int}
    (hD : signedUnits negative m e + signedUnits negative' m' e' = D) (hne : D ≠ 0)
    (hleft : D.natAbs ≤ magnitude m e) (hright : D.natAbs ≤ magnitude m' e') :
    ∃ negative'' m'' e'', decode (x + y) = .finite negative'' m'' e'' ∧
      signedUnits negative'' m'' e'' = D := by
  have hlowest : minExponent ≤ min e e' :=
    Int.le_min.mpr ⟨(canonical_of_decode hx).lowest, (canonical_of_decode hy).lowest⟩
  refine decode_sum (M := (signOf negative).apply (m <<< (e - min e e').toNat : Nat)
    + (signOf negative').apply (m' <<< (e' - min e e').toNat : Nat)) hx hy ?_ ?_ hne hleft hright
  · show UnpackedFloat.unpack _ (UnpackedFloat.pack _
      (UnpackedFloat.add _ x.toModel.unpack y.toModel.unpack)) = _
    rw [← unpacked_decode, ← unpacked_decode, hx, hy, unpacked_finite _ hm, unpacked_finite _ hm']
    rfl
  · rw [Int.add_mul, apply_shiftLeft (Int.min_le_left _ _) hlowest,
      apply_shiftLeft (Int.min_le_right _ _) hlowest, hD]

/-- What is left of a division is a double: it is shorter than both operands. -/
theorem decode_remainder {x y : Float} {negative negative' : Bool} {m m' : Nat} {e e' : Int}
    (hx : decode x = .finite negative m e) (hy : decode y = .finite negative' m' e')
    (hm' : m' ≠ 0) :
    ∃ m'' e'', decode (remainder x y) = .finite negative m'' e'' ∧
      magnitude m'' e'' = magnitude m e % magnitude m' e' := by
  have hcanonical := canonical_of_decode hx
  have hcanonical' := canonical_of_decode hy
  have hlowest : minExponent ≤ min e e' :=
    Int.le_min.mpr ⟨hcanonical.lowest, hcanonical'.lowest⟩
  have hhighest : min e e' ≤ 971 := Int.le_trans (Int.min_le_left _ _) hcanonical.highest
  obtain ⟨r, hr⟩ : ∃ r, r = m <<< (e - min e e').toNat % m' <<< (e' - min e e').toNat := ⟨_, rfl⟩
  have hremainder : remainder x y = nearest negative r (min e e') := by
    rw [remainder, hx, hy, hr]
    exact if_neg hm'
  have hmagnitude : magnitude r (min e e') = magnitude m e % magnitude m' e' := by
    rw [← magnitude_shiftLeft (Int.min_le_left e e') hlowest,
      ← magnitude_shiftLeft (Int.min_le_right e e') hlowest, hr]
    exact (Nat.mul_mod_mul_right _ _ _).symm
  -- What is left is no longer than the dividend and shorter than the divisor.
  have hfits : r < 2 ^ 53 := by
    rcases Int.le_total e e' with hle | hle
    · have hshift : (e - min e e').toNat = 0 := by omega
      rw [hr, hshift, Nat.shiftLeft_zero]
      exact Nat.lt_of_le_of_lt (Nat.mod_le _ _) hcanonical.small
    · have hshift : (e' - min e e').toNat = 0 := by omega
      rw [hr, hshift, Nat.shiftLeft_zero]
      exact Nat.lt_trans (Nat.mod_lt _ (Nat.pos_of_ne_zero hm')) hcanonical'.small
  rw [hremainder, ← hmagnitude]
  by_cases hzero : r = 0
  · rw [hzero]
    refine ⟨0, minExponent, decode_nearest_zero _ _, ?_⟩
    rw [magnitude_zero, magnitude_zero]
  · obtain ⟨m'', e'', hnearest, hplaced⟩ :=
      decode_nearest hzero hfits hlowest hhighest negative
    exact ⟨m'', e'', hnearest, hplaced.magnitude⟩

/-! ## Operations that round nothing -/

/-- Taking away zero changes nothing, not even the sign of a zero. -/
theorem sub_zero (x : Float) : x - 0 = x := by
  refine eq_of_unpack ?_
  have hsame : UnpackedFloat.sub Format.binary64 x.toModel.unpack (.zero .positive)
      = x.toModel.unpack := by
    cases x.toModel.unpack with
    | notANumber | infinity | finite => rfl
    | zero s => cases s <;> rfl
  calc (x - 0).toModel.unpack
      = UnpackedFloat.unpack Format.binary64 (UnpackedFloat.pack Format.binary64
          (UnpackedFloat.sub Format.binary64 x.toModel.unpack (.zero .positive))) := rfl
    _ = x.toModel.unpack := by rw [hsame, unpack_pack_unpack]

/-- A magnitude is the same number with the positive sign. -/
theorem decode_abs {x : Float} {negative : Bool} {m : Nat} {e : Int}
    (h : decode x = .finite negative m e) : decode x.abs = .finite false m e := by
  have hcanonical := canonical_of_decode h
  by_cases hm : m = 0
  · -- There are two zeros, one of either sign.
    rw [hm] at h hcanonical ⊢
    rw [exponent_of_zero hcanonical] at h ⊢
    cases negative with
    | false =>
      rw [eq_of_decode h (decode_nearest_zero 0 false)]
      rfl
    | true =>
      rw [eq_of_decode h (decode_nearest_zero 0 true)]
      rfl
  · refine decode_of_unpack hm ?_
    have habs : x.toModel.unpack.abs = (Decoded.finite false m e).unpacked := by
      rw [← unpacked_decode, h, unpacked_finite _ hm, unpacked_finite _ hm]
      rfl
    calc x.abs.toModel.unpack
        = UnpackedFloat.unpack Format.binary64
            (UnpackedFloat.pack Format.binary64 x.toModel.unpack.abs) := rfl
      _ = (Decoded.finite false m e).unpacked := by rw [habs, unpack_pack_finite hcanonical]

/-- What has a finite form is finite. -/
theorem isFinite_of_decode {x : Float} {negative : Bool} {m : Nat} {e : Int}
    (h : decode x = .finite negative m e) : x.isFinite = true := by
  show x.toModel.unpack.isFinite = true
  rw [← unpacked_decode, h]
  by_cases hm : m = 0
  · rw [hm]
    rfl
  · rw [unpacked_finite _ hm]
    rfl

/-- What is finite has a finite form. -/
theorem decode_of_isFinite {x : Float} (h : x.isFinite = true) :
    ∃ negative m e, decode x = .finite negative m e := by
  change x.toModel.unpack.isFinite = true at h
  rw [← unpacked_decode] at h
  cases hx : decode x with
  | nan => rw [hx] at h; cases h
  | infinite negative => rw [hx] at h; cases h
  | finite negative m e => exact ⟨negative, m, e, rfl⟩

/-! ## Zeros -/

/-- The zeros of either sign are equal to zero, and nothing else is. -/
theorem beq_zero_iff (x : Float) : (x == 0) = true ↔ ∃ s, x.toModel.unpack = .zero s := by
  have hbeq : (x == 0) = x.toModel.unpack.beq (.zero .positive) := rfl
  rw [hbeq]
  constructor
  · intro h
    cases hu : x.toModel.unpack with
    | zero s => exact ⟨s, rfl⟩
    | notANumber => rw [hu] at h; cases h
    | infinity s => rw [hu] at h; cases s <;> cases h
    | finite s m e hm => rw [hu] at h; cases s <;> cases h
  · rintro ⟨s, hs⟩
    rw [hs]
    rfl

theorem abs_beq_zero {x : Float} (h : (x == 0) = true) : (x.abs == 0) = true := by
  rw [beq_zero_iff] at h ⊢
  obtain ⟨s, hs⟩ := h
  refine ⟨.positive, ?_⟩
  show UnpackedFloat.unpack Format.binary64
    (UnpackedFloat.pack Format.binary64 x.toModel.unpack.abs) = _
  rw [hs]
  cases s <;> rfl

theorem lt_of_beq_zero {x t : Float} (h : (x == 0) = true) (ht : 0 < t) : x < t := by
  obtain ⟨s, hs⟩ := (beq_zero_iff x).mp h
  rw [lt_iff, unpack_zero] at ht
  rw [lt_iff, hs]
  obtain hu | ⟨m, e, hm, hu⟩ := isPositive_of_zero_lt ht <;> rw [hu] <;> rfl

theorem not_lt_of_beq_zero {x t : Float} (h : (x == 0) = true) (ht : 0 ≤ t) : ¬ t < x := by
  obtain ⟨s, hs⟩ := (beq_zero_iff x).mp h
  rw [le_iff, unpack_zero] at ht
  rw [lt_iff, hs]
  intro hlt
  cases hu : t.toModel.unpack with
  | notANumber => rw [hu] at ht; cases ht
  | zero s' => rw [hu] at hlt; cases hlt
  | infinity s' =>
    rw [hu] at ht hlt
    cases s' with
    | negative => cases ht
    | positive => cases hlt
  | finite s' m e hm =>
    rw [hu] at ht hlt
    cases s' with
    | negative => cases ht
    | positive => cases hlt

theorem beq_zero_of_neg {x : Float} (h : (-x == 0) = true) : (x == 0) = true := by
  rw [beq_zero_iff] at h ⊢
  obtain ⟨s, hneg⟩ := h
  have hpacked : UnpackedFloat.unpack Format.binary64
    (UnpackedFloat.pack Format.binary64 x.toModel.unpack.neg) = .zero s := hneg
  rw [← unpacked_decode] at hpacked ⊢
  cases hx : decode x with
  | nan => rw [hx] at hpacked; cases hpacked
  | infinite negative => rw [hx] at hpacked; cases negative <;> cases hpacked
  | finite negative m e =>
    by_cases hm : m = 0
    · exact ⟨signOf negative, by rw [hm, unpacked_zero]⟩
    · have hopposite : (Decoded.finite negative m e).unpacked.neg
          = (Decoded.finite (!negative) m e).unpacked := by
        rw [unpacked_finite _ hm, unpacked_finite _ hm]
        cases negative <;> rfl
      rw [hx, hopposite, unpack_pack_finite (canonical_of_decode hx), unpacked_finite _ hm]
        at hpacked
      cases hpacked

end Binary64

end MotionControl
