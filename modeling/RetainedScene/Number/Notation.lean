import RetainedScene.Number.Decimal

/-!
# The written forms of a number

Three forms of a `Single` appear in reports and in the journal:

* `plain`: the shortest decimal that reads back, always positional, without a point when whole;
* `general`: the same digits with at least one decimal, and with an exponent from `1e16` up and
  below `1e-4`;
* `fixed`: a fixed count of decimals, the exact value rounded half to even.

The sign of a zero is written.  A NaN is `NaN` whatever its sign.
-/

namespace RetainedScene

namespace Decimal

/-- The digits as a whole number without trailing zeros, and the power of ten they carry. -/
def strip (d : Decimal) : Nat → Decimal
  | 0 => d
  | fuel + 1 =>
    if d.digits % 10 = 0 ∧ d.digits ≠ 0 then strip ⟨d.digits / 10, d.exponent + 1⟩ fuel else d

/-- The decimal without trailing zeros; a coarsest grid leaves at most one. -/
def reduced (d : Decimal) : Decimal := d.strip 10

/-- The digits before the point and those after it. -/
def split (d : Decimal) : String × String :=
  let digits := (toString d.digits).toList
  if 0 ≤ d.exponent then
    if d.digits = 0 then ("0", "")
    else (String.ofList (digits ++ List.replicate d.exponent.toNat '0'), "")
  else
    let places := (-d.exponent).toNat
    let padded := List.replicate (places + 1 - digits.length) '0' ++ digits
    (String.ofList (padded.take (padded.length - places)),
      String.ofList (padded.drop (padded.length - places)))

/-- Positional notation, without a point when there are no decimals. -/
def positional (d : Decimal) : String :=
  match d.split with
  | (whole, "") => whole
  | (whole, decimals) => whole ++ "." ++ decimals

/-- Positional notation with at least one decimal. -/
def pointed (d : Decimal) : String :=
  match d.split with
  | (whole, "") => whole ++ ".0"
  | (whole, decimals) => whole ++ "." ++ decimals

/-- One digit before the point and an exponent, such as `1.5e-7`. -/
def scientific (d : Decimal) : String :=
  match (toString d.digits).toList with
  | [] => ""
  | lead :: rest =>
    let exponent := toString (d.exponent + rest.length)
    if rest.isEmpty then lead.toString ++ "e" ++ exponent
    else lead.toString ++ "." ++ String.ofList rest ++ "e" ++ exponent

end Decimal

namespace Single

/-- The text of a number whose magnitude, when finite, `body` writes. -/
def written (x : Single) (body : String) : String :=
  if x.isNaN then "NaN"
  else (if x.isNegative then "-" else "") ++ (if x.isInfinite then "inf" else body)

/-- The shortest decimal, positional. -/
def plain (x : Single) : String := x.written x.shortest.reduced.positional

/-- The magnitude is one that `general` writes with an exponent. -/
def needsExponent (x : Single) : Bool :=
  let m : Single := ⟨x.bits &&& 0x7fffffff⟩
  !x.isZero && ((1e16 : Single) ≤ m || m < (1e-4 : Single))

/-- The shortest decimal with at least one decimal, or with an exponent when it is very large or
very small. -/
def general (x : Single) : String :=
  x.written
    (if x.needsExponent then x.shortest.reduced.scientific else x.shortest.reduced.pointed)

/-- The number with `places` decimals. -/
def fixed (places : Nat) (x : Single) : String :=
  x.written (Decimal.positional ⟨x.scaled places, -(places : Int)⟩)

end Single

end RetainedScene
