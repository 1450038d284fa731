import RetainedScene.Geometry.Outline
import RetainedScene.Text.Flags

/-!
# Properties of a node

What a scene says about a node besides its content: where it stands, how it is turned and scaled,
how it is blended and clipped, and where it is drawn.

Bounds are in the coordinates of the parent; the node's own content spans from `(0, 0)` to
`(width, height)`.  Rotations are in degrees.

`apply` multiplies all transforms of a node onto a matrix, in the one order in which they act:
the corner of the bounds, a fixed matrix, and then translation, rotation and scale about the
pivot.
-/

namespace RetainedScene

/-! ### Which transforms act -/

/-- The parts of the pivoted transform that are in use. -/
structure MatrixFlags where
  bits : UInt32
  deriving DecidableEq, Inhabited

namespace MatrixFlags

def none : MatrixFlags := ⟨0⟩
def translation : MatrixFlags := ⟨1⟩

def text (f : MatrixFlags) : String :=
  Text.flags "MatrixFlags"
    [(1, "TRANSLATION"), (2, "ROTATION"), (4, "ROTATION_3D"), (8, "SCALE")] f.bits

end MatrixFlags

/-! ### Properties -/

structure Properties where
  left : Single := 0
  top : Single := 0
  right : Single := 0
  bottom : Single := 0
  translationX : Single := 0
  translationY : Single := 0
  /-- The height above the parent.  A node at another height than zero is drawn before or after
  its parent's content. -/
  elevation : Single := 0
  rotation : Single := 0
  rotationX : Single := 0
  rotationY : Single := 0
  scaleX : Single := 1
  scaleY : Single := 1
  /-- The fixed point of rotation and scale; the center of the bounds when not given. -/
  pivot : Option Point := none
  alpha : Single := 1
  /-- Parts of the content may cover each other, so that alpha needs a layer. -/
  overlaps : Bool := true
  /-- The content is drawn into a layer that the caller keeps. -/
  caching : Bool := false
  clipToBounds : Bool := true
  clipToOutline : Bool := false
  outline : Outline := .empty
  castsShadow : Bool := false
  /-- The node is drawn at a receiving ancestor and not in place. -/
  projects : Bool := false
  staticMatrix : Option Matrix := none
  /-- Used when there is no static matrix. -/
  animationMatrix : Option Matrix := none
  deriving DecidableEq, Inhabited

namespace Properties

/-- The properties of a node with the given edges and nothing else. -/
def ofBounds (left top right bottom : Single) : Properties := { left, top, right, bottom }

def width (p : Properties) : Single := p.right - p.left

def height (p : Properties) : Single := p.bottom - p.top

/-- The bounds in the node's own coordinates. -/
def bounds (p : Properties) : Rect := .ofSize p.width p.height

def pivotPoint (p : Properties) : Point := p.pivot.getD ⟨p.width / 2, p.height / 2⟩

/-- No property differs from its default; the two zeros count as one. -/
def isDefault (p : Properties) : Bool :=
  p.left.isZero && p.top.isZero && p.right.isZero && p.bottom.isZero
    && p.translationX.isZero && p.translationY.isZero && p.elevation.isZero
    && p.rotation.isZero && p.rotationX.isZero && p.rotationY.isZero
    && p.scaleX = 1 && p.scaleY = 1 && p.pivot.isNone
    && p.alpha = 1 && p.overlaps && !p.caching && p.clipToBounds && !p.clipToOutline
    && p.outline = .empty && !p.castsShadow && !p.projects
    && p.staticMatrix.isNone && p.animationMatrix.isNone

/-! ### Transforms -/

/-- The corner of the bounds is not the parent's origin. -/
def hasOffset (p : Properties) : Bool := !p.left.isZero || !p.top.isZero

/-- The fixed matrix that acts after the corner of the bounds. -/
def fixedMatrix? (p : Properties) : Option Matrix := p.staticMatrix <|> p.animationMatrix

def matrixFlags (p : Properties) : MatrixFlags :=
  let bit (used : Bool) (flag : UInt32) : UInt32 := if used then flag else 0
  ⟨bit (!p.translationX.isZero || !p.translationY.isZero || !p.elevation.isZero) 1
    ||| bit (!p.rotation.isZero) 2
    ||| bit (!p.rotationX.isZero || !p.rotationY.isZero) 4
    ||| bit (p.scaleX ≠ 1 || p.scaleY ≠ 1) 8⟩

/-- Translation, rotation and scale about the pivot, with depth. -/
def pivotedMatrix (p : Properties) : Matrix :=
  let pivot := p.pivotPoint
  Matrix.translation (pivot.x + p.translationX) (pivot.y + p.translationY) p.elevation
    * Matrix.rotationX p.rotationX.radians
    * Matrix.rotationY p.rotationY.radians
    * Matrix.rotationZ p.rotation.radians
    * Matrix.scaling p.scaleX p.scaleY 1
    * Matrix.translation (-pivot.x) (-pivot.y) 0

/-- The pivoted matrix, with its depth or flattened onto the plane. -/
def transformMatrix (p : Properties) (depth : Bool) : Matrix :=
  if depth then p.pivotedMatrix else p.pivotedMatrix.flatten

/-- All transforms of a node, multiplied onto a matrix. -/
def apply (p : Properties) (depth : Bool) (m : Matrix) : Matrix :=
  let m := if p.hasOffset then m * Matrix.translation p.left p.top 0 else m
  let m := match p.fixedMatrix? with
    | some fixed => m * fixed
    | none => m
  let flags := p.matrixFlags
  if flags = .none then m
  else if flags = .translation then
    m * Matrix.translation p.translationX p.translationY (if depth then p.elevation else 0)
  else m * p.transformMatrix depth

end Properties

end RetainedScene
