/-!
# Single-precision numbers

A `Single` is a binary32 number held as its bit pattern.  Two of them are equal exactly when
their bits are, so a NaN keeps its sign and payload and the two zeros stay apart.

The order is read off the bits.  `rank` is the signed magnitude, which is monotone in the value
and sends both zeros to `0`; `x < y` and `x ≤ y` compare ranks and fail on a NaN.  `totalRank`
separates every pair of bit patterns (`totalRank_injective`): negative NaNs come first, `-0`
before `0`, positive NaNs last.

Sums, products and quotients are rounded to nearest, ties to even.
-/

namespace RetainedScene

/-- A binary32 number, given by its bits. -/
structure Single where
  bits : UInt32
  deriving DecidableEq, Inhabited

namespace Single

/-! ### Constants and arithmetic -/

/-- The number as a machine value. -/
def toFloat (x : Single) : Float32 := Float32.ofBits x.bits

def ofFloat (x : Float32) : Single := ⟨x.toBits⟩

def ofNat (n : Nat) : Single := ofFloat (Float32.ofNat n)

instance instOfNat (n : Nat) : OfNat Single n := ⟨ofNat n⟩

instance : OfScientific Single := ⟨fun m s e => ofFloat (OfScientific.ofScientific m s e)⟩

def infinity : Single := ⟨0x7f800000⟩

def negInfinity : Single := ⟨0xff800000⟩

/-- The positive quiet NaN without payload. -/
def nan : Single := ⟨0x7fc00000⟩

instance : Add Single := ⟨fun x y => ofFloat (x.toFloat + y.toFloat)⟩
instance : Sub Single := ⟨fun x y => ofFloat (x.toFloat - y.toFloat)⟩
instance : Mul Single := ⟨fun x y => ofFloat (x.toFloat * y.toFloat)⟩
instance : Div Single := ⟨fun x y => ofFloat (x.toFloat / y.toFloat)⟩

/-- Negation turns the sign bit over, on a NaN as well. -/
instance : Neg Single := ⟨fun x => ⟨x.bits ^^^ 0x80000000⟩⟩

/-! ### Classification and order -/

/-- The sign bit is set. -/
def isNegative (x : Single) : Bool := 0x80000000 ≤ x.bits.toNat

/-- The bits without the sign. -/
def magnitude (x : Single) : Nat := x.bits.toNat % 0x80000000

def isNaN (x : Single) : Bool := 0x7f800000 < x.magnitude

def isInfinite (x : Single) : Bool := x.magnitude = 0x7f800000

/-- Either zero. -/
def isZero (x : Single) : Bool := x.magnitude = 0

/-- The signed magnitude, monotone in the value. -/
def rank (x : Single) : Int := if x.isNegative then -(x.magnitude : Int) else x.magnitude

/-- The place of a bit pattern in the total order of all of them. -/
def totalRank (x : Single) : Int := if x.isNegative then -(x.magnitude : Int) - 1 else x.magnitude

instance : LT Single := ⟨fun x y => x.isNaN = false ∧ y.isNaN = false ∧ x.rank < y.rank⟩
instance : LE Single := ⟨fun x y => x.isNaN = false ∧ y.isNaN = false ∧ x.rank ≤ y.rank⟩

instance (x y : Single) : Decidable (x < y) :=
  inferInstanceAs (Decidable (x.isNaN = false ∧ y.isNaN = false ∧ x.rank < y.rank))

instance (x y : Single) : Decidable (x ≤ y) :=
  inferInstanceAs (Decidable (x.isNaN = false ∧ y.isNaN = false ∧ x.rank ≤ y.rank))

theorem lt_iff {x y : Single} : x < y ↔ x.isNaN = false ∧ y.isNaN = false ∧ x.rank < y.rank :=
  Iff.rfl

theorem le_iff {x y : Single} : x ≤ y ↔ x.isNaN = false ∧ y.isNaN = false ∧ x.rank ≤ y.rank :=
  Iff.rfl

/-- The first number if it is the smaller, else the second: a NaN on either side gives the
second. -/
def min (x y : Single) : Single := if x < y then x else y

/-- The first number if it is the larger, else the second. -/
def max (x y : Single) : Single := if y < x then x else y

/-- The number brought into `[lo, hi]`; a NaN stays. -/
def clamp (x lo hi : Single) : Single :=
  if x < lo then lo else if hi < x then hi else x

/-! ### Bytes and angles -/

/-- The number cut to a whole byte: below the range `0`, above it `255`, and `0` for a NaN. -/
def toByte (x : Single) : UInt8 := x.toFloat.toUInt8

def ofByte (b : UInt8) : Single := ofNat b.toNat

/-- One degree in radians, rounded from the rounded half turn. -/
def degree : Single := ⟨0x40490fdb⟩ / 180

def radians (degrees : Single) : Single := degrees * degree

def sin (x : Single) : Single := ofFloat x.toFloat.sin

def cos (x : Single) : Single := ofFloat x.toFloat.cos

/-! ### Laws of the bit pattern -/

theorem eq_of_magnitude_eq {x y : Single} (hs : x.isNegative = y.isNegative)
    (hm : x.magnitude = y.magnitude) : x = y := by
  have hb : x.bits.toNat = y.bits.toNat := by
    have hx := x.bits.toNat_lt
    have hy := y.bits.toNat_lt
    simp only [isNegative, decide_eq_decide] at hs
    simp only [magnitude] at hm
    omega
  cases x
  cases y
  exact congrArg mk (UInt32.toNat_inj.1 hb)

/-- Distinct bit patterns have distinct places in the total order. -/
theorem totalRank_injective {x y : Single} (h : x.totalRank = y.totalRank) : x = y := by
  unfold totalRank at h
  split at h <;> split at h
  · exact eq_of_magnitude_eq (by simp_all) (by omega)
  · omega
  · omega
  · exact eq_of_magnitude_eq (by simp_all) (by omega)

end Single

end RetainedScene
