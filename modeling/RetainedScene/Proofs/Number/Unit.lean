import Mathlib
import RetainedScene.Number.Single

/-!
# Products with one

A product with one is rounded exactly: the mantissa of one is a power of two, so the bits that the
rounding drops are those that the product has gained (`Binary32.roundWithAccuracy_shifted`).  It
follows that a product with one is the number itself, where all that are not a number count as one
(`Single.mul_one_alike`), and that a product which was rounded before stays the same bit by bit
(`Single.mul_mul_one`).
-/

namespace RetainedScene

namespace Binary32

open Float.Model
open Float.Model.UnpackedFloat (Sign ExtendedMantissa roundWithAccuracy shiftToTargetExponent
  shiftToExponent)

/-! ### Rounding -/

/-- Zeros that were shifted in are shifted out again and leave nothing to round. -/
theorem shiftRight_shifted (m j k : Nat) :
    (⟨m * 2 ^ (k + j), false, false⟩ : ExtendedMantissa) >>> k = ⟨m * 2 ^ j, false, false⟩ := by
  show Nat.repeat ExtendedMantissa.shiftRightOne k _ = _
  induction k generalizing j with
  | zero => rw [Nat.zero_add]; rfl
  | succ k ih =>
    rw [Nat.repeat, Nat.add_right_comm, Nat.add_assoc, ih, ExtendedMantissa.shiftRightOne, pow_succ,
      ← Nat.mul_assoc]
    simp

theorem log2_mul_two_pow {m : Nat} (hm : 0 < m) (k : Nat) : (m * 2 ^ k).log2 = m.log2 + k := by
  have hne : m ≠ 0 := by omega
  have hpos : 0 < 2 ^ k := Nat.two_pow_pos k
  rw [Nat.log2_eq_iff (by positivity), pow_add, Nat.add_right_comm, pow_add]
  refine ⟨Nat.mul_le_mul_right _ (Nat.log2_self_le hne), ?_⟩
  exact Nat.mul_lt_mul_of_pos_right Nat.lt_log2_self hpos

/-- The exponent of a finite number is the one that rounding aims at. -/
def IsCanonical : UnpackedFloat → Prop
  | .finite _ m e _ => Format.binary32.targetExponent (totalExponent m e) = e
  | _ => True

/-- Nothing is to be shifted where the exponent is the one aimed at. -/
theorem shiftToTargetExponent_shifted {m : Nat} {e : Int} (hm : 0 < m)
    (h : Format.binary32.targetExponent (totalExponent m e) = e) (k : Nat) :
    shiftToTargetExponent Format.binary32 (m * 2 ^ k) (e - k) .exact = (⟨m, false, false⟩, e) := by
  have htotal : totalExponent (m * 2 ^ k) (e - k) = totalExponent m e := by
    unfold totalExponent
    rw [log2_mul_two_pow hm]
    omega
  have hshift : (e - (e - k)).toNat = k := by omega
  have hexponent : e - k + k = e := by omega
  have hmantissa := shiftRight_shifted m 0 k
  rw [Nat.add_zero, pow_zero, Nat.mul_one] at hmantissa
  rw [shiftToTargetExponent, htotal, h, shiftToExponent, hshift, hexponent,
    ExtendedMantissa.ofMantissaAndAccuracy, hmantissa]

/-- A mantissa that was made longer by zeros is rounded to what it was. -/
theorem roundWithAccuracy_shifted {s : Sign} {m : Nat} {e : Int} (hm : 0 < m)
    (h : IsCanonical (.finite s m e hm)) (k : Nat) :
    roundWithAccuracy Format.binary32 s (m * 2 ^ k) (e - k) .exact = .finite s m e hm := by
  have hagain := shiftToTargetExponent_shifted hm h 0
  rw [pow_zero, Nat.mul_one, Nat.cast_zero, Int.sub_zero] at hagain
  have hrounded : (⟨m, false, false⟩ : ExtendedMantissa).roundedMantissa = m := rfl
  simp only [roundWithAccuracy, shiftToTargetExponent_shifted hm h k, hrounded, hagain]
  exact dif_neg hm.ne'

/-! ### Machine numbers -/

/-- The leading digit that the bits of a number leave out. -/
theorem toNat_one_append (mantissa : BitVec 23) :
    (1#1 ++ mantissa).toNat = 2 ^ 23 + mantissa.toNat := by
  rw [BitVec.toNat_append, ← Nat.shiftLeft_add_eq_or_of_lt mantissa.isLt]
  rfl

theorem isCanonical_unpack (b : BitVec 32) :
    IsCanonical (UnpackedFloat.unpack Format.binary32 b) := by
  unfold UnpackedFloat.unpack
  extract_lets mantissa exponent e sign s
  split_ifs with hinf hinf' hzero hzero'
  · trivial
  · trivial
  · trivial
  · -- the exponent is the least one, and the mantissa is short
    have hlog : mantissa.toNat.log2 < 23 := by
      rw [Nat.log2_lt (by simpa [BitVec.toNat_eq] using hzero')]
      exact mantissa.isLt
    have he : e = -150 := by
      show (exponent.toNat : Int) - (127 + 23) = -150
      rw [hzero]
      rfl
    show max ((mantissa.toNat.log2 : Int) + 1 + (e + 1) - 24) (-149) = e + 1
    omega
  · have hlog : (1#1 ++ mantissa).toNat.log2 = 23 := by
      have hbits : mantissa.toNat < 2 ^ 23 := mantissa.isLt
      rw [toNat_one_append, Nat.log2_eq_iff (by omega)]
      omega
    have he : -149 ≤ e := by
      show -149 ≤ (exponent.toNat : Int) - (127 + 23)
      have hpos : exponent.toNat ≠ 0 := by simpa [BitVec.toNat_eq] using hzero
      omega
    show max (((1#1 ++ mantissa).toNat.log2 : Int) + 1 + e - 24) (-149) = e
    omega

theorem sign_mul_positive (s : Sign) : s * .positive = s := by cases s <;> rfl

theorem unpack_one : (Float32.ofBits 0x3f800000).toModel.unpack =
    .finite .positive (2 ^ 23) (-23) (by decide) := by rfl

theorem mul_one_eq (f : Float32) : f * .ofBits 0x3f800000 = f := by
  have hmul : UnpackedFloat.mul Format.binary32 f.toModel.unpack
      (.finite .positive (2 ^ 23) (-23) (by decide)) = f.toModel.unpack := by
    have hcanonical := isCanonical_unpack f.toModel.toBits.toBitVec
    unfold Float32.Model.unpack
    revert hcanonical
    generalize UnpackedFloat.unpack Format.binary32 f.toModel.toBits.toBitVec = x
    intro hcanonical
    cases x with
    | notANumber => rfl
    | infinity s => exact congrArg _ (sign_mul_positive s)
    | zero s => exact congrArg _ (sign_mul_positive s)
    | finite s m e hm =>
      show roundWithAccuracy Format.binary32 (s * .positive) (m * 2 ^ 23) (e + -23) .exact = _
      rw [sign_mul_positive]
      exact roundWithAccuracy_shifted hm hcanonical 23
  refine Float32.toBits_inj.mp (UInt32.toBitVec_inj.mp ?_)
  show UnpackedFloat.pack Format.binary32 (UnpackedFloat.mul Format.binary32 f.toModel.unpack
    (Float32.ofBits 0x3f800000).toModel.unpack) = f.toModel.toBits.toBitVec
  rw [unpack_one, hmul]
  exact UnpackedFloat.pack_unpack_of_valid f.toModel.valid

end Binary32

/-! ### Numbers -/

namespace Single

open Float.Model

theorem toFloat_ofFloat (f : Float32) : (ofFloat f).toFloat = f := Float32.ofBits_toBits f

/-- A product that was rounded is not changed by one. -/
theorem mul_mul_one (x y : Single) : x * y * 1 = x * y := by
  show ofFloat ((ofFloat (x.toFloat * y.toFloat)).toFloat * Float32.ofBits 0x3f800000) = _
  rw [toFloat_ofFloat, Binary32.mul_one_eq]
  rfl

/-- The numbers are the same, or neither is a number. -/
def Alike (x y : Single) : Prop := x = y ∨ x.isNaN = true ∧ y.isNaN = true

theorem isNaN_of_isNaNBits {x : Single}
    (h : @UnpackedFloat.isNaNBits Format.binary32 x.bits.toBitVec = true) :
    x.isNaN = true := by
  simp only [UnpackedFloat.isNaNBits, decide_eq_true_eq] at h
  obtain ⟨hexponent, hmantissa⟩ := h
  have hexponent : x.bits.toNat / 2 ^ 23 % 2 ^ 8 = 255 := by
    rw [UnpackedFloat.unpackExponent_def] at hexponent
    have htoNat := congrArg BitVec.toNat hexponent
    rwa [BitVec.extractLsb'_toNat, Nat.shiftRight_eq_div_pow] at htoNat
  have hmantissa : x.bits.toNat % 2 ^ 23 ≠ 0 := by
    rw [UnpackedFloat.unpackMantissa_def] at hmantissa
    intro hzero
    refine hmantissa (BitVec.eq_of_toNat_eq ?_)
    rw [BitVec.extractLsb'_toNat]
    exact hzero
  unfold isNaN magnitude
  rw [decide_eq_true_eq]
  omega

theorem ofFloat_toFloat_alike (x : Single) : (ofFloat x.toFloat).Alike x := by
  have hbits := @UnpackedFloat.pack_unpack Format.binary32 x.bits.toBitVec (by decide)
  cases hnan : @UnpackedFloat.isNaNBits Format.binary32 x.bits.toBitVec with
  | false =>
    rw [hnan, if_neg Bool.false_ne_true] at hbits
    exact .inl (congrArg mk (UInt32.toBitVec_inj.mp hbits))
  | true =>
    rw [hnan, if_pos rfl] at hbits
    have hpacked : ofFloat x.toFloat =
        ⟨.ofBitVec (UnpackedFloat.packedNaN Format.binary32)⟩ :=
      congrArg mk (UInt32.toBitVec_inj.mp hbits)
    refine .inr ⟨?_, isNaN_of_isNaNBits hnan⟩
    rw [hpacked]
    decide

/-- A number is not changed by one. -/
theorem mul_one_alike (x : Single) : (x * 1).Alike x := by
  have hone : x * 1 = ofFloat x.toFloat := congrArg ofFloat (Binary32.mul_one_eq x.toFloat)
  rw [hone]
  exact ofFloat_toFloat_alike x

end Single

end RetainedScene
