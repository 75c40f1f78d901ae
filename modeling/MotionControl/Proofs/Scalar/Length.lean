import MotionControl.Proofs.Scalar.Exact

/-!
# Lengths

The length of a vector is the double nearest to a root.  Where the vector lies along the
abscissa, the root is a double itself, and nothing is rounded.

- `Binary64.decode_nearest_canonical`: the double nearest to one, written with more places.
- `Binary64.nearestRoot_square`: the root of a square.
- `Binary64.hypotenuse_zero`: a vector along the abscissa.
-/

namespace MotionControl

namespace Binary64

open Float.Model (UnpackedFloat Format)

/-- Shifting adds to the length. -/
theorem log2_shiftLeft {n : Nat} (hne : n ≠ 0) (k : Nat) : (n <<< k).log2 = n.log2 + k := by
  induction k with
  | zero => rw [Nat.shiftLeft_zero, Nat.add_zero]
  | succ k ih =>
    have hne' : n <<< k ≠ 0 := by
      rw [Nat.shiftLeft_eq]
      exact Nat.mul_ne_zero hne (Nat.two_pow_pos k).ne'
    rw [Nat.shiftLeft_succ, Nat.log2_two_mul hne', ih, Nat.add_assoc]

/-- A multiple is divided without rounding. -/
theorem divNearestEven_mul {n d : Nat} (hd : 0 < d) : divNearestEven (n * d) d = n := by
  unfold divNearestEven
  rw [Nat.mul_div_cancel _ hd, Nat.mul_mod_left, if_pos (by omega)]

/-- A mantissa that is not rounded may be written with more places. -/
theorem nearestBits_shiftLeft {n : Nat} {e : Int} (hne : n ≠ 0) (hle : place n e ≤ e) (k : Nat) :
    nearestBits (n <<< k) (e - k) = nearestBits n e := by
  have hne' : n <<< k ≠ 0 := by
    rw [Nat.shiftLeft_eq]
    exact Nat.mul_ne_zero hne (Nat.two_pow_pos k).ne'
  have hplace : place (n <<< k) (e - k) = place n e := by
    rw [place, place, log2_shiftLeft hne]
    congr 1
    push_cast
    omega
  have hrounded : (if place n e ≤ e - k then n <<< k <<< (e - k - place n e).toNat
      else divNearestEven (n <<< k) (1 <<< (place n e - (e - k)).toNat))
        = n <<< (e - place n e).toNat := by
    -- The places that the shift added are either kept, or divided away without a rest.
    by_cases hfits : place n e ≤ e - k
    · rw [if_pos hfits, ← Nat.shiftLeft_add]
      congr 1
      omega
    · have hsplit : k = (e - place n e).toNat + (place n e - (e - k)).toNat := by omega
      rw [if_neg hfits]
      obtain ⟨d, hd⟩ : ∃ d, d = (place n e - (e - k)).toNat := ⟨_, rfl⟩
      rw [← hd] at hsplit ⊢
      rw [hsplit, Nat.shiftLeft_add, Nat.shiftLeft_eq _ d, Nat.one_shiftLeft,
        divNearestEven_mul (Nat.two_pow_pos d)]
  unfold nearestBits
  rw [if_neg hne', if_neg hne]
  show min (((place (n <<< k) (e - k)) - minExponent).toNat * hiddenBit
      + if place (n <<< k) (e - k) ≤ e - k then n <<< k <<< (e - k - place (n <<< k) (e - k)).toNat
        else divNearestEven (n <<< k) (1 <<< (place (n <<< k) (e - k) - (e - k)).toNat))
      infinityBits
    = min ((place n e - minExponent).toNat * hiddenBit
      + if place n e ≤ e then n <<< (e - place n e).toNat
        else divNearestEven n (1 <<< (place n e - e).toNat)) infinityBits
  rw [hplace, hrounded, if_pos hle]

/-- The double nearest to a double is this one, however many places it is written with. -/
theorem decode_nearest_canonical {m : Nat} {e : Int} (h : Canonical m e) (hm : m ≠ 0) (k : Nat)
    (negative : Bool) : decode (nearest negative (m <<< k) (e - k)) = .finite negative m e := by
  obtain ⟨hle, -⟩ := placed hm h.small h.lowest h.highest
  obtain ⟨m', e', hnearest, hplaced⟩ := decode_nearest hm h.small h.lowest h.highest negative
  obtain ⟨rfl, rfl⟩ := hplaced.canonical.eq_of_magnitude h hplaced.magnitude
  rw [← hnearest, nearest, nearest, nearestBits_shiftLeft hm hle]

/-- The root of a square is not rounded. -/
theorem nearestRoot_square (n : Nat) (e : Int) :
    ∃ k, nearestRoot (n * n) e = nearest false (n <<< k) (e - k) := by
  obtain ⟨extra, hextra⟩ : ∃ extra, extra = 56 - (n * n).log2 / 2 := ⟨_, rfl⟩
  -- The scale is even, so that the number under the root stays a square.
  have hscaled : (n * n) <<< (2 * extra) = (n <<< extra) * (n <<< extra) := by
    rw [Nat.shiftLeft_eq, Nat.shiftLeft_eq, Nat.two_mul, Nat.pow_add]
    exact Nat.mul_mul_mul_comm ..
  refine ⟨extra + 1, ?_⟩
  unfold nearestRoot
  rw [← hextra]
  dsimp only
  rw [hscaled, Nat.sqrt_eq, if_pos rfl, Nat.shiftLeft_succ, Nat.add_zero]
  congr 1
  push_cast
  omega

/-- A vector along the abscissa is as long as its abscissa. -/
theorem hypotenuse_zero (x : Float) : hypotenuse x 0 = x.abs := by
  have hzero : decode 0 = .finite false 0 minExponent := rfl
  have hunpack : x.abs.toModel.unpack
      = UnpackedFloat.unpack Format.binary64
        (UnpackedFloat.pack Format.binary64 (decode x).unpacked.abs) := by
    rw [unpacked_decode]
    rfl
  cases hx : decode x with
  | nan =>
    refine eq_of_unpack ?_
    rw [hunpack, hypotenuse, hx, hzero]
    rfl
  | infinite negative =>
    refine eq_of_unpack ?_
    rw [hunpack, hypotenuse, hx, hzero]
    rfl
  | finite negative m e =>
    have hcanonical := canonical_of_decode hx
    obtain ⟨a, ha⟩ : ∃ a, a = (e - minExponent).toNat := ⟨_, rfl⟩
    obtain ⟨k, hroot⟩ := nearestRoot_square (m <<< a) minExponent
    -- The ordinate zero has the lowest exponent, so that the sum of squares is taken there.
    have hexponent : minExponent - (k : Int) = e - ((a + k : Nat) : Int) := by
      have hlowest := hcanonical.lowest
      omega
    have hlength : hypotenuse x 0 = nearest false (m <<< (a + k)) (e - (a + k : Nat)) := by
      unfold hypotenuse
      rw [hx, hzero]
      dsimp only
      rw [Int.min_eq_right hcanonical.lowest, Nat.zero_shiftLeft, Nat.zero_mul, Nat.add_zero, ← ha,
        hroot, hexponent, Nat.shiftLeft_add]
    rw [hlength]
    refine eq_of_decode ?_ (decode_abs hx)
    by_cases hm : m = 0
    · rw [hm] at hcanonical ⊢
      rw [Nat.zero_shiftLeft, decode_nearest_zero, exponent_of_zero hcanonical]
    · exact decode_nearest_canonical hcanonical hm (a + k) false

end Binary64

end MotionControl
