import RetainedScene.Proofs.Number.Unit

/-!
# Signs of differences

A difference is rounded, yet it is zero only between numbers of one rank: all numbers are multiples
of the least positive one, so their exact difference is one as well, and rounding leaves such a
multiple its sign (`Binary32.signed_round`).  Nor does it matter that a difference may be too large
for a number, as it is infinite then, with its sign.  So the sign of a difference tells how the
numbers compare (`Binary32.differ_sub`), and a difference that is at most zero is one of numbers in
order (`Single.sub_le_zero_iff`).  The exception are two equal infinities: they have no difference.
-/

namespace RetainedScene

/-! ### Ranks -/

namespace Single

theorem natAbs_rank (x : Single) : x.rank.natAbs = x.magnitude := by
  unfold rank
  split <;> omega

theorem isNaN_iff {x : Single} : x.isNaN = true ↔ 0x7f800000 < x.rank.natAbs := by
  rw [isNaN, natAbs_rank, decide_eq_true_eq]

theorem isNaN_eq_false_iff {x : Single} : x.isNaN = false ↔ x.rank.natAbs ≤ 0x7f800000 := by
  rw [isNaN, natAbs_rank, decide_eq_false_iff_not, not_lt]

theorem isInfinite_iff {x : Single} : x.isInfinite = true ↔ x.rank.natAbs = 0x7f800000 := by
  rw [isInfinite, natAbs_rank, decide_eq_true_eq]

/-- Only the two zeros share a rank. -/
theorem eq_of_rank_eq {x y : Single} (h : x.rank = y.rank) (hne : x.rank ≠ 0) : x = y := by
  have hmagnitude : x.magnitude = y.magnitude := by rw [← natAbs_rank, ← natAbs_rank, h]
  refine eq_of_magnitude_eq ?_ hmagnitude
  unfold rank at h hne
  split at h <;> split at h <;> simp_all

theorem le_zero_iff {x : Single} : x ≤ 0 ↔ x.isNaN = false ∧ x.rank ≤ 0 :=
  ⟨fun h => ⟨h.1, h.2.2⟩, fun h => ⟨h.1, rfl, h.2⟩⟩

end Single

namespace Binary32

open Float.Model
open Float.Model.UnpackedFloat (Sign Accuracy ExtendedMantissa roundWithAccuracy
  shiftToTargetExponent shiftToExponent decreaseExponent normalize packComponents unpackSign
  unpackExponent unpackMantissa)

/-! ### Signs -/

theorem apply_negative (n : Int) : Sign.negative.apply n = -n := rfl

theorem apply_positive (n : Int) : Sign.positive.apply n = n := rfl

theorem neg_apply (s : Sign) (n : Int) : (-s).apply n = -s.apply n := by
  cases s with
  | negative => exact (Int.neg_neg n).symm
  | positive => rfl

theorem natAbs_apply (s : Sign) (n : Int) : (s.apply n).natAbs = n.natAbs := by
  cases s with
  | negative => exact Int.natAbs_neg n
  | positive => rfl

/-! ### Rounding keeps the sign -/

/-- A number of a sign that is not zero and that the bits have room for: all of its mantissa, and
its exponent unless it is so large that the number is infinite. -/
inductive Signed (s : Sign) : UnpackedFloat → Prop
  | finite {m : Nat} {e : Int} (hm : 0 < m) (hroom : m < 2 ^ 24) (he : -149 ≤ e) :
    Signed s (.finite s m e hm)
  | infinity : Signed s (.infinity s)

theorem mantissa_shiftRight (em : ExtendedMantissa) (k : Nat) :
    (em >>> k).mantissa = em.mantissa / 2 ^ k := by
  show (Nat.repeat ExtendedMantissa.shiftRightOne k em).mantissa = em.mantissa / 2 ^ k
  induction k with
  | zero => rw [pow_zero, Nat.div_one]; rfl
  | succ k ih =>
    rw [Nat.repeat, ExtendedMantissa.shiftRightOne, ih, Nat.div_div_eq_div_mul, pow_succ]

theorem mantissa_ofMantissaAndAccuracy (m : Nat) (a : Accuracy) :
    (ExtendedMantissa.ofMantissaAndAccuracy m a).mantissa = m := by
  rcases a with _ | _ | _ | _ <;> rfl

theorem le_roundedMantissa (em : ExtendedMantissa) : em.mantissa ≤ em.roundedMantissa := by
  rcases em with ⟨m, _ | _, _ | _⟩
  · exact Nat.le_refl m
  · exact Nat.le_refl m
  · exact Nat.le_add_right m (m % 2)
  · exact Nat.le_succ m

theorem targetExponent_eq (t : Int) : Format.binary32.targetExponent t = max (t - 24) (-149) := rfl

/-- A mantissa that is cut down to the room for it keeps its leading digit. -/
theorem shiftToTargetExponent_bounds {m : Nat} {e : Int} (hm : 0 < m) (he : -149 ≤ e)
    (a : Accuracy) :
    0 < (shiftToTargetExponent Format.binary32 m e a).1.mantissa ∧
      (shiftToTargetExponent Format.binary32 m e a).1.mantissa < 2 ^ 24 ∧
      -149 ≤ (shiftToTargetExponent Format.binary32 m e a).2 := by
  have hfirst : 2 ^ m.log2 ≤ m := Nat.log2_self_le hm.ne'
  have hlast : m < 2 ^ (m.log2 + 1) := Nat.lt_log2_self
  simp only [shiftToTargetExponent, shiftToExponent, mantissa_shiftRight,
    mantissa_ofMantissaAndAccuracy]
  rw [targetExponent_eq, totalExponent]
  generalize m.log2 = l at hfirst hlast
  have hshift : (max ((l : Int) + 1 + e - 24) (-149) - e).toNat = l - 23 := by omega
  rw [hshift]
  refine ⟨?_, ?_, by omega⟩
  · refine Nat.div_pos (le_trans ?_ hfirst) (Nat.two_pow_pos _)
    exact Nat.pow_le_pow_right two_pos (Nat.sub_le l 23)
  · rw [Nat.div_lt_iff_lt_mul (Nat.two_pow_pos _), ← pow_add]
    exact lt_of_lt_of_le hlast (Nat.pow_le_pow_right two_pos (by omega))

theorem signed_roundWithAccuracy (s : Sign) {m : Nat} {e : Int} (hm : 0 < m) (he : -149 ≤ e)
    (a : Accuracy) : Signed s (roundWithAccuracy Format.binary32 s m e a) := by
  obtain ⟨hpos, -, hleast⟩ := shiftToTargetExponent_bounds hm he a
  -- rounding up may have made the mantissa too long, so that it is cut once more
  have hrounded := lt_of_lt_of_le hpos (le_roundedMantissa _)
  obtain ⟨hpos', hroom', hleast'⟩ := shiftToTargetExponent_bounds hrounded hleast .exact
  rw [roundWithAccuracy]
  dsimp only
  rw [dif_neg hpos'.ne']
  exact .finite hpos' hroom' hleast'

theorem decreaseExponent_pos {m : Nat} (hm : 0 < m) (e target : Int) :
    0 < (decreaseExponent m e target).1 := by
  rw [decreaseExponent, Nat.shiftLeft_eq]
  exact Nat.mul_pos hm (Nat.two_pow_pos _)

/-- A multiple of the least positive number keeps its sign when it is rounded. -/
theorem signed_round (s : Sign) {m : Nat} {e : Int} (hm : 0 < m) (he : -149 ≤ e) :
    Signed s (UnpackedFloat.round Format.binary32 s m e) := by
  rw [UnpackedFloat.round]
  refine signed_roundWithAccuracy s (decreaseExponent_pos hm e _) ?_ .exact
  show -149 ≤ e - _
  rw [targetExponent_eq]
  omega

theorem signed_normalize {s zeroSign : Sign} {n : Int} {e : Int} (hn : 0 < s.apply n)
    (he : -149 ≤ e) : Signed s (normalize Format.binary32 n e zeroSign) := by
  rw [UnpackedFloat.normalize]
  cases s with
  | negative =>
    rw [apply_negative] at hn
    rw [Int.compare_eq_lt.mpr (by omega)]
    exact signed_round .negative (by omega) he
  | positive =>
    rw [apply_positive] at hn
    rw [Int.compare_eq_gt.mpr (by omega)]
    exact signed_round .positive (by omega) he

/-! ### Numbers from bits -/

/-- The number whose bits have the given parts. -/
def ofComponents (s : Sign) (exponent : BitVec 8) (mantissa : BitVec 23) : Single :=
  ⟨.ofBitVec (packComponents Format.binary32 s exponent mantissa)⟩

theorem toNat_packComponents (s : Sign) (exponent : BitVec 8) (mantissa : BitVec 23) :
    (packComponents Format.binary32 s exponent mantissa).toNat =
      s.toBitVec.toNat * 2 ^ 31 + exponent.toNat * 2 ^ 23 + mantissa.toNat := by
  show (s.toBitVec ++ exponent ++ mantissa).toNat = _
  rw [BitVec.toNat_append, ← Nat.shiftLeft_add_eq_or_of_lt mantissa.isLt, BitVec.toNat_append,
    ← Nat.shiftLeft_add_eq_or_of_lt exponent.isLt, Nat.shiftLeft_eq, Nat.shiftLeft_eq]
  omega

theorem rank_ofComponents (s : Sign) (exponent : BitVec 8) (mantissa : BitVec 23) :
    (ofComponents s exponent mantissa).rank =
      s.apply (exponent.toNat * 2 ^ 23 + mantissa.toNat) := by
  have hbits : (ofComponents s exponent mantissa).bits.toNat =
      s.toBitVec.toNat * 2 ^ 31 + exponent.toNat * 2 ^ 23 + mantissa.toNat :=
    toNat_packComponents s exponent mantissa
  have hexponent : exponent.toNat < 2 ^ 8 := exponent.isLt
  have hmantissa : mantissa.toNat < 2 ^ 23 := mantissa.isLt
  unfold Single.rank Single.isNegative Single.magnitude
  rw [hbits]
  cases s with
  | negative =>
    have hsign : Sign.negative.toBitVec.toNat = 1 := rfl
    rw [hsign, if_pos (decide_eq_true (by omega)), apply_negative]
    omega
  | positive =>
    have hsign : Sign.positive.toBitVec.toNat = 0 := rfl
    rw [hsign, if_neg (by rw [decide_eq_true_eq]; omega), apply_positive]
    omega

theorem exists_components {s : Sign} {w : UnpackedFloat} (h : Signed s w) :
    ∃ (exponent : BitVec 8) (mantissa : BitVec 23),
      w.pack Format.binary32 = packComponents Format.binary32 s exponent mantissa ∧
      0 < exponent.toNat * 2 ^ 23 + mantissa.toNat ∧
      exponent.toNat * 2 ^ 23 + mantissa.toNat ≤ 0x7f800000 := by
  cases h with
  | infinity => exact ⟨-1#8, 0, rfl, by decide, by decide⟩
  | @finite m e hm hroom he =>
    have hlog : m.log2 < 24 := (Nat.log2_lt hm.ne').mpr hroom
    have hbias : e + Format.binary32.exponentBias + Format.binary32.mantissaBitsWithoutImplicit =
        e + 150 := by rw [Int.add_assoc]; rfl
    have hbits : Format.binary32.mantissaBits = 24 := rfl
    rw [UnpackedFloat.pack]
    dsimp only
    rw [hbias, hbits]
    split_ifs with hlarge hnormal
    · exact ⟨-1#8, 0, rfl, by decide, by decide⟩
    · -- the leading digit is left out, but the exponent says that there is one
      refine ⟨_, _, rfl, ?_, ?_⟩
      · rw [BitVec.toNat_ofNat, BitVec.toNat_ofNat]
        omega
      · rw [BitVec.toNat_ofNat, BitVec.toNat_ofNat]
        omega
    · have hshort : m < 2 ^ 23 := (Nat.log2_lt hm.ne').mp (by omega)
      refine ⟨_, _, rfl, ?_, ?_⟩
      · rw [BitVec.toNat_ofNat, BitVec.toNat_ofNat, Nat.mod_eq_of_lt hshort]
        omega
      · rw [BitVec.toNat_ofNat, BitVec.toNat_ofNat]
        omega

/-- The bits keep the sign of a number that is not zero. -/
theorem pack_le_zero_iff {s : Sign} {w : UnpackedFloat} (h : Signed s w) :
    (⟨.ofBitVec (w.pack Format.binary32)⟩ : Single) ≤ 0 ↔ s = .negative := by
  obtain ⟨exponent, mantissa, hw, hpos, hmax⟩ := exists_components h
  have hrank := rank_ofComponents s exponent mantissa
  rw [hw]
  change ofComponents s exponent mantissa ≤ 0 ↔ s = .negative
  rw [Single.le_zero_iff, Single.isNaN_eq_false_iff, hrank]
  cases s with
  | negative =>
    rw [apply_negative]
    exact iff_of_true ⟨by omega, by omega⟩ rfl
  | positive =>
    rw [apply_positive]
    exact iff_of_false (by omega) Sign.noConfusion

/-! ### Bits of numbers -/

/-- The bits of a finite number without its sign: its exponent, counted from the least one, and its
mantissa. -/
def place (m : Nat) (e : Int) : Int := (e + 149) * 2 ^ 23 + m

/-- What is unpacked from the bits of a number, with its rank. -/
inductive Reads (x : Single) : UnpackedFloat → Prop
  | notANumber (hnan : x.isNaN = true) : Reads x .notANumber
  | infinity {s : Sign} (hrank : x.rank = s.apply 0x7f800000) : Reads x (.infinity s)
  | zero (s : Sign) (hrank : x.rank = 0) : Reads x (.zero s)
  | finite {s : Sign} {m : Nat} {e : Int} {hm : 0 < m}
    (hcanonical : IsCanonical (.finite s m e hm)) (hmax : e ≤ 104)
    (hrank : x.rank = s.apply (place m e)) : Reads x (.finite s m e hm)

theorem rank_eq_apply (x : Single) :
    x.rank = (Sign.ofBitVec (@unpackSign Format.binary32 x.bits.toBitVec)).apply
      ((@unpackExponent Format.binary32 x.bits.toBitVec).toNat * 2 ^ 23 +
        (@unpackMantissa Format.binary32 x.bits.toBitVec).toNat) := by
  rw [← rank_ofComponents]
  have hparts := @UnpackedFloat.packComponents_unpackSign_unpackExponent_unpackMantissa
    Format.binary32 x.bits.toBitVec
  exact congrArg (fun b => (Single.mk (UInt32.ofBitVec b)).rank) hparts.symm

theorem reads_unpack (x : Single) :
    Reads x (UnpackedFloat.unpack Format.binary32 x.bits.toBitVec) := by
  have hrank := rank_eq_apply x
  have hcanonical := isCanonical_unpack x.bits.toBitVec
  revert hcanonical
  unfold UnpackedFloat.unpack
  extract_lets mantissa exponent e sign s
  change x.rank = s.apply (exponent.toNat * 2 ^ 23 + mantissa.toNat) at hrank
  have he : e = exponent.toNat - 150 := rfl
  split_ifs with hlast hzero hleast hzero <;> intro hcanonical
  · rw [hlast, hzero] at hrank
    exact .infinity hrank
  · refine .notANumber (Single.isNaN_iff.mpr ?_)
    have hpos : 0 < mantissa.toNat := Nat.pos_of_ne_zero fun h => hzero (BitVec.eq_of_toNat_eq h)
    have hexponent : exponent.toNat = 255 := congrArg BitVec.toNat hlast
    rw [hrank, natAbs_apply]
    omega
  · have hexponent : exponent.toNat = 0 := congrArg BitVec.toNat hleast
    have hmantissa : mantissa.toNat = 0 := congrArg BitVec.toNat hzero
    refine .zero s ?_
    rw [hrank, hexponent, hmantissa]
    cases s <;> rfl
  · have hexponent : exponent.toNat = 0 := congrArg BitVec.toNat hleast
    refine .finite hcanonical (by omega) ?_
    rw [hrank, place]
    congr 1
    omega
  · have hexponent : exponent.toNat ≠ 255 := fun h => hlast (BitVec.eq_of_toNat_eq h)
    have hmax : exponent.toNat < 256 := exponent.isLt
    refine .finite hcanonical (by omega) ?_
    rw [hrank, place, toNat_one_append]
    congr 1
    push_cast
    omega

/-! ### Differences of unpacked numbers -/

/-- What the difference of two numbers is, and when. -/
inductive Differ (x y : Single) : UnpackedFloat → Prop
  | undefined (h : x.isNaN = true ∨ y.isNaN = true ∨ x.isInfinite = true ∧ x = y) :
    Differ x y .notANumber
  | equal (s : Sign) (hx : x.rank.natAbs < 0x7f800000) (h : x.rank = y.rank) : Differ x y (.zero s)
  | signed {s : Sign} {w : UnpackedFloat} (hx : x.rank.natAbs ≤ 0x7f800000)
    (hy : y.rank.natAbs ≤ 0x7f800000) (h : 0 < s.apply (x.rank - y.rank)) (hw : Signed s w) :
    Differ x y w

section

variable {x y : Single} {s s₁ s₂ : Sign} {m m₁ m₂ : Nat} {e e₁ e₂ : Int} {hm : 0 < m} {hm₁ : 0 < m₁}
  {hm₂ : 0 < m₂}

/-- The mantissa takes all the room for it, or the exponent is the least one. -/
theorem IsCanonical.bounds (h : IsCanonical (.finite s m e hm)) :
    m < 2 ^ 24 ∧ -149 ≤ e ∧ (-149 < e → 2 ^ 23 ≤ m) := by
  have htarget : max ((m.log2 : Int) + 1 + e - 24) (-149) = e := h
  refine ⟨(Nat.log2_lt hm.ne').mp (by omega), by omega, fun he => ?_⟩
  exact (Nat.le_log2 hm.ne').mp (by omega)

theorem IsCanonical.place_bounds (h : IsCanonical (.finite s m e hm)) (hmax : e ≤ 104) :
    0 < place m e ∧ place m e < 0x7f800000 := by
  obtain ⟨hroom, he, -⟩ := h.bounds
  unfold place
  omega

theorem IsCanonical.natAbs_rank_lt (h : IsCanonical (.finite s m e hm)) (hmax : e ≤ 104)
    (hx : x.rank = s.apply (place m e)) : x.rank.natAbs < 0x7f800000 := by
  obtain ⟨hpos, hsmall⟩ := h.place_bounds hmax
  rw [hx, natAbs_apply]
  omega

theorem IsCanonical.signed (h : IsCanonical (.finite s m e hm)) (s' : Sign) :
    Signed s' (.finite s' m e hm) :=
  .finite hm h.bounds.1 h.bounds.2.1

theorem mul_two_pow_lt (h₁ : IsCanonical (.finite s₁ m₁ e₁ hm₁))
    (h₂ : IsCanonical (.finite s₂ m₂ e₂ hm₂)) (he : e₁ < e₂) :
    m₁ < m₂ * 2 ^ (e₂ - e₁).toNat := by
  obtain ⟨hroom₁, he₁, -⟩ := h₁.bounds
  obtain ⟨-, -, hlong₂⟩ := h₂.bounds
  calc m₁ < 2 ^ 23 * 2 ^ 1 := hroom₁
    _ ≤ m₂ * 2 ^ (e₂ - e₁).toNat :=
      Nat.mul_le_mul (hlong₂ (by omega)) (Nat.pow_le_pow_right two_pos (by omega))

/-- Two numbers over one exponent compare as their places do. -/
theorem decreaseExponent_lt_iff (h₁ : IsCanonical (.finite s₁ m₁ e₁ hm₁))
    (h₂ : IsCanonical (.finite s₂ m₂ e₂ hm₂)) :
    (decreaseExponent m₁ e₁ (min e₁ e₂)).1 < (decreaseExponent m₂ e₂ (min e₁ e₂)).1 ↔
      place m₁ e₁ < place m₂ e₂ := by
  obtain ⟨hroom₁, he₁, hlong₁⟩ := h₁.bounds
  obtain ⟨hroom₂, he₂, hlong₂⟩ := h₂.bounds
  unfold place
  simp only [decreaseExponent, Nat.shiftLeft_eq]
  rcases lt_trichotomy e₁ e₂ with he | rfl | he
  · have hlt := mul_two_pow_lt h₁ h₂ he
    rw [min_eq_left he.le, Int.sub_self, Int.toNat_zero, pow_zero, Nat.mul_one]
    exact iff_of_true hlt (by omega)
  · rw [min_self, Int.sub_self, Int.toNat_zero, pow_zero, Nat.mul_one, Nat.mul_one]
    omega
  · have hlt := mul_two_pow_lt h₂ h₁ he
    rw [min_eq_right he.le, Int.sub_self, Int.toNat_zero, pow_zero, Nat.mul_one]
    exact iff_of_false hlt.not_gt (by omega)

/-- What has the sign of the difference of the ranks may be rounded for the difference. -/
theorem differ_normalize {n : Int} (hx : x.rank.natAbs < 0x7f800000)
    (hy : y.rank.natAbs < 0x7f800000) (he : -149 ≤ e)
    (hsign : ∀ s : Sign, 0 < s.apply n ↔ 0 < s.apply (x.rank - y.rank)) :
    Differ x y (normalize Format.binary32 n e .positive) := by
  have hnegative := hsign .negative
  have hpositive := hsign .positive
  rw [apply_negative, apply_negative] at hnegative
  rw [apply_positive, apply_positive] at hpositive
  rcases lt_trichotomy n 0 with hless | rfl | hgreater
  · have hneg : 0 < Sign.negative.apply n := Int.neg_pos_of_neg hless
    exact .signed hx.le hy.le ((hsign _).mp hneg) (signed_normalize hneg he)
  · exact .equal .positive hx (by omega)
  · have hpos : 0 < Sign.positive.apply n := hgreater
    exact .signed hx.le hy.le ((hsign _).mp hpos) (signed_normalize hpos he)

/-- The difference of finite numbers has the sign of that of their ranks. -/
theorem differ_sub_finite (h₁ : IsCanonical (.finite s₁ m₁ e₁ hm₁))
    (h₂ : IsCanonical (.finite s₂ m₂ e₂ hm₂)) (hmax₁ : e₁ ≤ 104) (hmax₂ : e₂ ≤ 104)
    (hx : x.rank = s₁.apply (place m₁ e₁)) (hy : y.rank = s₂.apply (place m₂ e₂)) :
    Differ x y (UnpackedFloat.sub Format.binary32 (.finite s₁ m₁ e₁ hm₁)
      (.finite s₂ m₂ e₂ hm₂)) := by
  have hlt := decreaseExponent_lt_iff h₁ h₂
  have hgt := decreaseExponent_lt_iff h₂ h₁
  rw [min_comm] at hgt
  have hpos₁ := decreaseExponent_pos hm₁ e₁ (min e₁ e₂)
  have hpos₂ := decreaseExponent_pos hm₂ e₂ (min e₁ e₂)
  show Differ x y (normalize Format.binary32 (s₁.apply (decreaseExponent m₁ e₁ (min e₁ e₂)).1 -
    s₂.apply (decreaseExponent m₂ e₂ (min e₁ e₂)).1) (min e₁ e₂) .positive)
  refine differ_normalize (h₁.natAbs_rank_lt hmax₁ hx) (h₂.natAbs_rank_lt hmax₂ hy)
    (le_min h₁.bounds.2.1 h₂.bounds.2.1) fun s => ?_
  have hplace₁ := (h₁.place_bounds hmax₁).1
  have hplace₂ := (h₂.place_bounds hmax₂).1
  rw [hx, hy]
  generalize (decreaseExponent m₁ e₁ (min e₁ e₂)).1 = n₁ at *
  generalize (decreaseExponent m₂ e₂ (min e₁ e₂)).1 = n₂ at *
  cases s <;> cases s₁ <;> cases s₂ <;> simp only [apply_negative, apply_positive] <;> omega

theorem differ_infinity (hx : x.rank = s.apply 0x7f800000) (hy : y.rank.natAbs < 0x7f800000) :
    Differ x y (.infinity s) := by
  refine .signed ?_ hy.le ?_ .infinity
  · rw [hx, natAbs_apply]
    rfl
  · rw [hx]
    cases s <;> simp only [apply_negative, apply_positive] <;> omega

theorem differ_neg_infinity (hx : x.rank.natAbs < 0x7f800000) (hy : y.rank = s.apply 0x7f800000) :
    Differ x y (.infinity (-s)) := by
  refine .signed hx.le ?_ ?_ .infinity
  · rw [hy, natAbs_apply]
    rfl
  · rw [hy, neg_apply]
    cases s <;> simp only [apply_negative, apply_positive] <;> omega

theorem differ_sub_infinities (hx : x.rank = s₁.apply 0x7f800000)
    (hy : y.rank = s₂.apply 0x7f800000) :
    Differ x y (UnpackedFloat.sub Format.binary32 (.infinity s₁) (.infinity s₂)) := by
  have hinfinite : x.rank.natAbs = 0x7f800000 := by rw [hx, natAbs_apply]; rfl
  have hinfinite' : y.rank.natAbs = 0x7f800000 := by rw [hy, natAbs_apply]; rfl
  have hundefined : x.rank = y.rank → Differ x y .notANumber := fun h =>
    .undefined (.inr (.inr ⟨Single.isInfinite_iff.mpr hinfinite,
      Single.eq_of_rank_eq h (by omega)⟩))
  cases s₁ <;> cases s₂
  · exact hundefined (hx.trans hy.symm)
  · exact .signed hinfinite.le hinfinite'.le (by rw [hx, hy]; decide) .infinity
  · exact .signed hinfinite.le hinfinite'.le (by rw [hx, hy]; decide) .infinity
  · exact hundefined (hx.trans hy.symm)

/-- A difference has the sign of that of the ranks, and is zero where the ranks are equal.  It is
not a number where one of the two is none, and between equal infinities. -/
theorem differ_sub {u v : UnpackedFloat} (hx : Reads x u) (hy : Reads y v) :
    Differ x y (UnpackedFloat.sub Format.binary32 u v) := by
  cases hx with
  | notANumber hnan => exact .undefined (.inl hnan)
  | infinity hrank =>
    cases hy with
    | notANumber hnan => exact .undefined (.inr (.inl hnan))
    | infinity hrank' => exact differ_sub_infinities hrank hrank'
    | zero s' hrank' => exact differ_infinity hrank (by omega)
    | finite h' hmax' hrank' => exact differ_infinity hrank (h'.natAbs_rank_lt hmax' hrank')
  | zero s hrank =>
    cases hy with
    | notANumber hnan => exact .undefined (.inr (.inl hnan))
    | infinity hrank' => exact differ_neg_infinity (by omega) hrank'
    | zero s' hrank' =>
      rw [UnpackedFloat.sub]
      split
      · exact .equal s (by omega) (by omega)
      · exact .equal .positive (by omega) (by omega)
    | @finite s' m e hm h' hmax' hrank' =>
      refine .signed (by omega) (h'.natAbs_rank_lt hmax' hrank').le ?_ (h'.signed (-s'))
      have hpos := (h'.place_bounds hmax').1
      rw [hrank, hrank', neg_apply]
      cases s' <;> simp only [apply_negative, apply_positive] <;> omega
  | @finite s m e hm h hmax hrank =>
    cases hy with
    | notANumber hnan => exact .undefined (.inr (.inl hnan))
    | infinity hrank' => exact differ_neg_infinity (h.natAbs_rank_lt hmax hrank) hrank'
    | zero s' hrank' =>
      refine .signed (h.natAbs_rank_lt hmax hrank).le (by omega) ?_ (h.signed s)
      have hpos := (h.place_bounds hmax).1
      rw [hrank, hrank']
      cases s <;> simp only [apply_negative, apply_positive] <;> omega
    | finite h' hmax' hrank' => exact differ_sub_finite h h' hmax hmax' hrank hrank'

end

/-- The payload of what is not a number is lost on the way, all else is kept. -/
theorem unpack_toModel (x : Single) : x.toFloat.toModel.unpack =
    UnpackedFloat.unpack Format.binary32 x.bits.toBitVec := by
  show UnpackedFloat.unpack Format.binary32 ((UnpackedFloat.unpack Format.binary32
    x.bits.toBitVec).pack Format.binary32) = _
  rw [UnpackedFloat.pack_unpack]
  split_ifs with hnan
  · simp only [UnpackedFloat.isNaNBits, decide_eq_true_eq] at hnan
    rw [UnpackedFloat.unpack_packedNaN, UnpackedFloat.unpack]
    simp [hnan]
  · rfl

end Binary32

namespace Single

open Float.Model

theorem sub_eq (x y : Single) : x - y = ⟨.ofBitVec ((UnpackedFloat.sub Format.binary32
    (UnpackedFloat.unpack Format.binary32 x.bits.toBitVec)
    (UnpackedFloat.unpack Format.binary32 y.bits.toBitVec)).pack Format.binary32)⟩ := by
  rw [← Binary32.unpack_toModel, ← Binary32.unpack_toModel]
  rfl

/-- A difference is at most zero just if the numbers are in order, and it is one. -/
theorem sub_le_zero_iff {x y : Single} : x - y ≤ 0 ↔ x ≤ y ∧ ¬(x.isInfinite = true ∧ x = y) := by
  have hdiffer := Binary32.differ_sub (Binary32.reads_unpack x) (Binary32.reads_unpack y)
  rw [sub_eq]
  generalize UnpackedFloat.sub Format.binary32 _ _ = w at hdiffer
  cases hdiffer with
  | undefined h =>
    have hnan : ¬(⟨.ofBitVec (UnpackedFloat.notANumber.pack Format.binary32)⟩ : Single) ≤ 0 := by
      decide
    refine iff_of_false hnan fun ⟨hle, hdefined⟩ => ?_
    rcases h with h | h | h
    · exact absurd hle.1 (by rw [h]; decide)
    · exact absurd hle.2.1 (by rw [h]; decide)
    · exact hdefined h
  | equal s hx h =>
    have hzero : (⟨.ofBitVec ((UnpackedFloat.zero s).pack Format.binary32)⟩ : Single) ≤ 0 := by
      cases s <;> decide
    refine iff_of_true hzero ⟨⟨?_, ?_, h.le⟩, fun hinfinite => ?_⟩
    · exact isNaN_eq_false_iff.mpr hx.le
    · exact isNaN_eq_false_iff.mpr (h ▸ hx.le)
    · have hrank := isInfinite_iff.mp hinfinite.1
      omega
  | @signed s _ hx hy h hw =>
    rw [Binary32.pack_le_zero_iff hw]
    cases s with
    | negative =>
      rw [Binary32.apply_negative] at h
      refine iff_of_true rfl ⟨⟨isNaN_eq_false_iff.mpr hx, isNaN_eq_false_iff.mpr hy, by omega⟩, ?_⟩
      rintro ⟨-, rfl⟩
      omega
    | positive =>
      rw [Binary32.apply_positive] at h
      refine iff_of_false UnpackedFloat.Sign.noConfusion fun hle => ?_
      have hrank := hle.1.2.2
      omega

end Single

end RetainedScene
