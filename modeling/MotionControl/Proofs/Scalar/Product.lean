import MotionControl.Proofs.Scalar.Exact

/-!
# Products

A product of two doubles with full mantissas has one too, as long as its last place is one that
doubles have: rounding moves the last place by one at most.  So a period in seconds is a positive
number, whatever number of microseconds it is.

- `Binary64.roundWithAccuracy_full`: what a long mantissa is rounded to.
- `Binary64.Full`: positive doubles with a full mantissa, and the range of their last places.
- `Binary64.Full.mul`: their products.
- `Binary64.full_ofNat`, `Binary64.full_seconds`: natural numbers as doubles, and as numbers of
  microseconds.
-/

namespace MotionControl

namespace Binary64

open Float.Model (UnpackedFloat Format)
open Float.Model.UnpackedFloat (Sign ExtendedMantissa)

/-! ## Rounding a long mantissa -/

/-- A shift drops the last bits of a mantissa. -/
theorem mantissa_shiftRight (k : Nat) (em : ExtendedMantissa) :
    (em >>> k).mantissa = em.mantissa / 2 ^ k := by
  induction k with
  | zero => exact (Nat.div_one _).symm
  | succ k ih =>
    show (em >>> k).mantissa / 2 = _
    rw [ih, Nat.div_div_eq_div_mul, Nat.pow_succ]

/-- Rounding adds one to a mantissa, or nothing. -/
theorem roundedMantissa_bounds (em : ExtendedMantissa) :
    em.mantissa ≤ em.roundedMantissa ∧ em.roundedMantissa ≤ em.mantissa + 1 := by
  obtain ⟨m, roundBit, stickyBit⟩ := em
  cases roundBit with
  | false => cases stickyBit <;> exact ⟨Nat.le_refl m, Nat.le_succ m⟩
  | true =>
    cases stickyBit with
    | true => exact ⟨Nat.le_succ m, Nat.le_refl _⟩
    | false =>
      show m ≤ m + m % 2 ∧ m + m % 2 ≤ m + 1
      omega

/-- A mantissa that rounding made one bit too long loses that bit. -/
theorem shiftToTargetExponent_carry {e : Int} (hlowest : minExponent ≤ e) :
    UnpackedFloat.shiftToTargetExponent Format.binary64 (2 ^ 53) e .exact
      = (⟨2 ^ 52, false, false⟩, e + 1) := by
  have hplace : (place (2 ^ 53) e - e).toNat = 1 := by
    rw [place, Nat.log2_two_pow]
    omega
  unfold UnpackedFloat.shiftToTargetExponent UnpackedFloat.shiftToExponent
  simp only [targetExponent_eq, hplace]
  rfl

/-- A mantissa of at least 53 bits is rounded to a full one.  The last place is where the bits that
fit end, or one above. -/
theorem roundWithAccuracy_full {n : Nat} {e : Int} (hn : 52 ≤ n.log2)
    (hlowest : minExponent ≤ e + n.log2 - 52) (s : Sign) :
    ∃ m e' hm, UnpackedFloat.roundWithAccuracy Format.binary64 s n e .exact = .finite s m e' hm ∧
      hiddenBit ≤ m ∧ m < 2 ^ 53 ∧ e + n.log2 - 52 ≤ e' ∧ e' ≤ e + n.log2 - 51 := by
  have hne : n ≠ 0 := by
    rintro rfl
    simp at hn
  have hplace : place n e = e + n.log2 - 52 := Int.max_eq_left hlowest
  obtain ⟨k, hk⟩ : ∃ k, k = n.log2 - 52 := ⟨_, rfl⟩
  have hshift : (place n e - e).toNat = k := by omega
  obtain ⟨em, hem⟩ : ∃ em : ExtendedMantissa, em = (⟨n, false, false⟩ : ExtendedMantissa) >>> k :=
    ⟨_, rfl⟩
  -- the bits that fit are a full mantissa, and rounding may add one to it
  have hbits : 2 ^ 52 ≤ em.mantissa ∧ em.mantissa < 2 ^ 53 := by
    have hlog : n.log2 = 52 + k := by omega
    rw [hem, mantissa_shiftRight]
    constructor
    · rw [Nat.le_div_iff_mul_le (Nat.two_pow_pos k), ← Nat.pow_add, ← hlog]
      exact Nat.log2_self_le hne
    · rw [Nat.div_lt_iff_lt_mul (Nat.two_pow_pos k), ← Nat.pow_add]
      have hlt := @Nat.lt_log2_self n
      rwa [hlog, Nat.add_right_comm] at hlt
  obtain ⟨hleft, hright⟩ := roundedMantissa_bounds em
  have hfirst : UnpackedFloat.shiftToTargetExponent Format.binary64 n e .exact
      = (em, e + (k : Int)) := by
    unfold UnpackedFloat.shiftToTargetExponent UnpackedFloat.shiftToExponent
    simp only [targetExponent_eq, hshift, hem]
    rfl
  unfold UnpackedFloat.roundWithAccuracy
  simp only [hfirst]
  by_cases hcarry : em.roundedMantissa = 2 ^ 53
  · simp only [hcarry, shiftToTargetExponent_carry (show minExponent ≤ e + (k : Int) by omega)]
    exact ⟨2 ^ 52, e + k + 1, by decide, dif_neg (by decide), by decide, by decide, by omega,
      by omega⟩
  · have hfits : em.roundedMantissa < 2 ^ 53 := by omega
    have hpos : em.roundedMantissa ≠ 0 := by omega
    simp only [shiftToTargetExponent_exact hpos hfits
      (show minExponent ≤ e + (k : Int) by omega)]
    exact ⟨em.roundedMantissa, e + k, Nat.pos_of_ne_zero hpos, dif_neg hpos,
      Nat.le_trans hbits.1 hleft, hfits, by omega, by omega⟩

/-! ## Full mantissas -/

/-- A positive double with a full mantissa and a last place between two. -/
def Full (lowest highest : Int) (x : Float) : Prop :=
  ∃ m e, decode x = .finite false m e ∧ hiddenBit ≤ m ∧ lowest ≤ e ∧ e ≤ highest

namespace Full

variable {lowest highest lowest' highest' : Int} {x y : Float}

/-- Such a double is finite. -/
theorem isFinite (h : Full lowest highest x) : x.isFinite = true := by
  obtain ⟨m, e, hx, -⟩ := h
  exact isFinite_of_decode hx

/-- It is positive. -/
theorem pos (h : Full lowest highest x) : 0 < x := by
  obtain ⟨m, e, hx, hm, -⟩ := h
  have hzero : decode 0 = .finite false 0 minExponent := rfl
  have hne : m ≠ 0 := Nat.ne_of_gt (Nat.lt_of_lt_of_le (by decide) hm)
  rw [lt_iff_units hzero hx, signedUnits_zero]
  exact signedUnits_pos hne e

/-- The product of two full mantissas has 105 or 106 bits, of which 53 are left. -/
theorem mul (h : Full lowest highest x) (h' : Full lowest' highest' y)
    (hlowest : minExponent ≤ lowest + lowest' + 52) (hhighest : highest + highest' + 54 ≤ 971) :
    Full (lowest + lowest' + 52) (highest + highest' + 54) (x * y) := by
  obtain ⟨m, e, hx, hm, hle, hge⟩ := h
  obtain ⟨m', e', hy, hm', hle', hge'⟩ := h'
  have hsmall := (canonical_of_decode hx).small
  have hsmall' := (canonical_of_decode hy).small
  rw [hiddenBit_eq] at hm hm'
  have hpos : m ≠ 0 := by omega
  have hpos' : m' ≠ 0 := by omega
  have hbits : 2 ^ 104 ≤ m * m' ∧ m * m' < 2 ^ 106 := by
    constructor
    · calc 2 ^ 104 = 2 ^ 52 * 2 ^ 52 := by decide
        _ ≤ m * m' := Nat.mul_le_mul hm hm'
    · calc m * m' < 2 ^ 53 * 2 ^ 53 := Nat.mul_lt_mul'' hsmall hsmall'
        _ = 2 ^ 106 := by decide
  have hne : m * m' ≠ 0 := Nat.mul_ne_zero hpos hpos'
  have hlog : 104 ≤ (m * m').log2 := (Nat.le_log2 hne).mpr hbits.1
  have hlog' : (m * m').log2 < 106 := (Nat.log2_lt hne).mpr hbits.2
  obtain ⟨m'', e'', hm'', hround, hfull, hsmall'', hleast, hmost⟩ :=
    roundWithAccuracy_full (n := m * m') (e := e + e') (by omega) (by omega) .positive
  have hcanonical : Canonical m'' e'' := ⟨hsmall'', by omega, by omega, fun _ => hfull⟩
  have hne'' : m'' ≠ 0 := Nat.ne_of_gt hm''
  have hproduct : UnpackedFloat.mul Format.binary64 x.toModel.unpack y.toModel.unpack
      = (Decoded.finite false m'' e'').unpacked := by
    rw [← unpacked_decode, ← unpacked_decode, hx, hy, unpacked_finite _ hpos,
      unpacked_finite _ hpos', unpacked_finite _ hne'']
    exact hround
  refine ⟨m'', e'', decode_of_unpack hne'' ?_, hfull, by omega, by omega⟩
  calc (x * y).toModel.unpack
      = UnpackedFloat.unpack Format.binary64 (UnpackedFloat.pack Format.binary64
          (UnpackedFloat.mul Format.binary64 x.toModel.unpack y.toModel.unpack)) := rfl
    _ = (Decoded.finite false m'' e'').unpacked := by rw [hproduct, unpack_pack_finite hcanonical]

end Full

/-! ## Natural numbers -/

/-- A positive natural number that doubles represent exactly has a full mantissa. -/
theorem full_toFloat {n : UInt64} (hpos : n.toNat ≠ 0) (hn : n.toNat < 2 ^ 53) :
    Full (-52) 0 n.toFloat := by
  have hlog : n.toNat.log2 < 53 := (Nat.log2_lt hpos).mpr hn
  obtain ⟨-, hplaced⟩ := placed (e := 0) hpos hn (by decide) (by decide)
  obtain ⟨m, e, hm, hround, hplaced'⟩ :=
    round_exact (e := 0) hpos hn (by decide) (by decide) .positive
  -- there is one way to write a magnitude, so its last place is known
  have heq := hplaced'.magnitude.trans hplaced.magnitude.symm
  obtain ⟨-, he⟩ := hplaced'.canonical.eq_of_magnitude hplaced.canonical heq
  have hplace : e = (n.toNat.log2 : Int) - 52 := by
    rw [he, place, minExponent_eq]
    omega
  have hfull : hiddenBit ≤ m := hplaced'.canonical.normal (by rw [minExponent_eq]; omega)
  have hnormalize : UnpackedFloat.normalize Format.binary64 n.toNat 0 .positive
      = (Decoded.finite false m e).unpacked := by
    unfold UnpackedFloat.normalize
    rw [Int.compare_eq_gt.mpr (by omega), unpacked_finite _ hplaced'.ne]
    exact hround
  refine ⟨m, e, decode_of_unpack hplaced'.ne ?_, hfull, by omega, by omega⟩
  calc n.toFloat.toModel.unpack
      = UnpackedFloat.unpack Format.binary64 (UnpackedFloat.pack Format.binary64
          (UnpackedFloat.normalize Format.binary64 n.toNat 0 .positive)) := rfl
    _ = (Decoded.finite false m e).unpacked := by
      rw [hnormalize, unpack_pack_finite hplaced'.canonical]

/-- So has its product with one, which is how it is written as a double. -/
theorem full_ofNat {n : Nat} (hpos : n ≠ 0) (hn : n < 2 ^ 53) : Full (-52) 2 (Float.ofNat n) := by
  have hword : n.toUInt64.toNat = n := UInt64.toNat_ofNat_of_lt (Nat.lt_trans hn (by decide))
  have hone : Full (-52) (-52) (.ofBits 0x3FF0000000000000) :=
    ⟨2 ^ 52, -52, rfl, by decide, by decide, by decide⟩
  have hproduct : Float.ofNat n = n.toUInt64.toFloat * .ofBits 0x3FF0000000000000 :=
    dif_pos ⟨hn, by decide⟩
  rw [hproduct]
  exact (full_toFloat (by rwa [hword]) (by rwa [hword])).mul hone (by decide) (by decide)

/-- A millionth has a full mantissa. -/
theorem full_millionth : Full (-72) (-72) Scalar.millionth :=
  ⟨0x10C6F7A0B5ED8D, -72, by decide +kernel, by decide, by decide, by decide⟩

/-- A number of microseconds, in seconds. -/
theorem full_seconds {n : Nat} (hpos : n ≠ 0) (hn : n < 2 ^ 53) :
    Full (-72) (-16) (Scalar.ofNat n * Scalar.millionth : Float) :=
  (full_ofNat hpos hn).mul full_millionth (by decide) (by decide)

end Binary64

end MotionControl
