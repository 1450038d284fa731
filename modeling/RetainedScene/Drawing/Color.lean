import RetainedScene.Number.Single

/-!
# Colors

A color holds its red, green and blue already multiplied by its alpha.
-/

namespace RetainedScene

/-- A premultiplied color. -/
structure Color where
  red : Single
  green : Single
  blue : Single
  alpha : Single
  deriving DecidableEq, Inhabited

namespace Color

def black : Color := ⟨0, 0, 0, 1⟩

def white : Color := ⟨1, 1, 1, 1⟩

def transparent : Color := ⟨0, 0, 0, 0⟩

/-- The color of straight components, each first brought into `[0, 1]`. -/
def ofStraight (red green blue alpha : Single) : Color :=
  let a := alpha.clamp 0 1
  ⟨red.clamp 0 1 * a, green.clamp 0 1 * a, blue.clamp 0 1 * a, a⟩

/-- The color of straight components in steps of `1 / 255`. -/
def ofBytes (red green blue alpha : UInt8) : Color :=
  let unit (b : UInt8) : Single := Single.ofByte b / 255
  ofStraight (unit red) (unit green) (unit blue) (unit alpha)

end Color

end RetainedScene
