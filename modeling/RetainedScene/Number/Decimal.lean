import RetainedScene.Number.Single

/-!
# Decimals near a single-precision number

A finite number is `significand * 2 ^ exponent`.  The reals that round to it form an interval,
whose ends belong to it exactly when the significand is even; `readsBack x n t` says that the
decimal `n * 10 ^ t` lies in it.

`shortest x` is the decimal that reads back on the coarsest grid of powers of ten; of two
neighbours that both read back it takes the nearer, and the upper one in a tie.  `scaled x p`
is `x * 10 ^ p` rounded to a whole number, a half going to the even neighbour.

All arithmetic is exact, on natural numbers.
-/

namespace RetainedScene

/-- The number `digits * 10 ^ exponent`. -/
structure Decimal where
  digits : Nat
  exponent : Int
  deriving DecidableEq

namespace Single

/-! ### Powers -/

def twoPow (n : Nat) : Nat := Nat.pow 2 n

def tenPow (n : Nat) : Nat := Nat.pow 10 n

/-! ### The value of the bits -/

def exponentField (x : Single) : Nat := x.magnitude / 0x800000

def fractionField (x : Single) : Nat := x.magnitude % 0x800000

/-- The whole number that is scaled by `2 ^ exponent`. -/
def significand (x : Single) : Nat :=
  if x.exponentField = 0 then x.fractionField else 0x800000 + x.fractionField

def exponent (x : Single) : Int :=
  if x.exponentField = 0 then -149 else (x.exponentField : Int) - 150

/-- `a * 2 ^ e ≤ b * 10 ^ t`, over natural numbers. -/
def twosLeTens (a : Nat) (e : Int) (b : Nat) (t : Int) : Bool :=
  a * twoPow e.toNat * tenPow (-t).toNat ≤ b * tenPow t.toNat * twoPow (-e).toNat

/-- `b * 10 ^ t ≤ a * 2 ^ e`, over natural numbers. -/
def tensLeTwos (b : Nat) (t : Int) (a : Nat) (e : Int) : Bool :=
  b * tenPow t.toNat * twoPow (-e).toNat ≤ a * twoPow e.toNat * tenPow (-t).toNat

/-! ### Decimals that read back -/

/-- The lower end of the interval that rounds to the number, in quarters of its last place: a
power of two has a closer neighbour below it. -/
def lowerQuarters (x : Single) : Nat :=
  if x.fractionField = 0 ∧ 1 < x.exponentField then 4 * x.significand - 1
  else 4 * x.significand - 2

def upperQuarters (x : Single) : Nat := 4 * x.significand + 2

/-- The decimal `n * 10 ^ t` rounds to the magnitude of `x`. -/
def readsBack (x : Single) (n : Nat) (t : Int) : Bool :=
  let e := x.exponent - 2
  if x.significand % 2 = 0 then
    twosLeTens x.lowerQuarters e n t && tensLeTwos n t x.upperQuarters e
  else
    !tensLeTwos n t x.lowerQuarters e && !twosLeTens x.upperQuarters e n t

/-- The magnitude of `x` in units of `10 ^ t`, as a quotient. -/
def ratio (x : Single) (t : Int) : Nat × Nat :=
  (x.significand * twoPow x.exponent.toNat * tenPow (-t).toNat,
    twoPow (-x.exponent).toNat * tenPow t.toNat)

/-- The point of the grid `10 ^ t` that reads back as `x`, the nearer one if both neighbours do,
the upper one in a tie. -/
def onGrid (x : Single) (t : Int) : Option Nat :=
  let (num, den) := x.ratio t
  let below := num / den
  match x.readsBack below t, x.readsBack (below + 1) t with
  | false, false => none
  | true, false => some below
  | false, true => some (below + 1)
  | true, true => some (if 2 * (num % den) < den then below else below + 1)

/-- The search for the coarsest grid, from `10 ^ (k - 46)` down to `10 ^ (-45)`, where every
finite number other than zero has a point. -/
def coarsest (x : Single) : Nat → Decimal
  | 0 => ⟨0, 0⟩
  | k + 1 => match x.onGrid ((k : Int) - 45) with
    | some n => ⟨n, (k : Int) - 45⟩
    | none => x.coarsest k

/-- The magnitude of a finite number as the shortest decimal that reads back. -/
def shortest (x : Single) : Decimal := if x.isZero then ⟨0, 0⟩ else x.coarsest 84

/-! ### Fixed places -/

/-- A quotient rounded to the nearest whole number, a half to the even one. -/
def roundHalfEven (num den : Nat) : Nat :=
  let q := num / den
  let r := num % den
  if 2 * r < den then q
  else if den < 2 * r then q + 1
  else q + q % 2

/-- The magnitude of `x` in units of `10 ^ (-places)`. -/
def scaled (x : Single) (places : Nat) : Nat :=
  let (num, den) := x.ratio (-(places : Int))
  roundHalfEven num den

end Single

end RetainedScene
