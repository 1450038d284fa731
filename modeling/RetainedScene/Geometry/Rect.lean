import RetainedScene.Geometry.Matrix

/-!
# Rectangles

Axis-aligned rectangles with their origin at the top left.  A size may be negative or not a
number; `normalized` makes it non-negative where it can.  Two rectangles that only touch do not
intersect.  `mapBounds` is the smallest upright rectangle around the image of the four corners.
-/

namespace RetainedScene

structure Rect where
  origin : Point
  size : Point
  deriving DecidableEq, Inhabited

namespace Rect

/-! ### Building -/

def zero : Rect := ⟨.zero, .zero⟩

/-- The rectangle of a given size with its corner at the origin of the plane. -/
def ofSize (width height : Single) : Rect := ⟨.zero, ⟨width, height⟩⟩

/-- The rectangle between two corners. -/
def ofCorners (lo hi : Point) : Rect := ⟨lo, ⟨hi.x - lo.x, hi.y - lo.y⟩⟩

/-! ### Edges and size -/

def lower (r : Rect) : Point := r.origin

def upper (r : Rect) : Point := r.origin + r.size

def isEmpty (r : Rect) : Bool := r.size.x ≤ 0 || r.size.y ≤ 0

/-- The same rectangle with its corners in order. -/
def normalized (r : Rect) : Rect := ofCorners (r.lower.min r.upper) (r.lower.max r.upper)

/-! ### Combining -/

/-- The common part, when it has an area. -/
def intersect (r s : Rect) : Option Rect :=
  let a := r.normalized
  let b := s.normalized
  let lo := a.lower.max b.lower
  let hi := a.upper.min b.upper
  if hi.x - lo.x ≤ 0 ∨ hi.y - lo.y ≤ 0 then none else some (ofCorners lo hi)

/-- The corners in turn, from the top left. -/
def corners (r : Rect) : List Point :=
  [r.lower, ⟨r.upper.x, r.lower.y⟩, r.upper, ⟨r.lower.x, r.upper.y⟩]

/-- The upright bounds of points, starting from nothing. -/
def bounding (ps : List Point) : Rect :=
  let (lo, hi) := Point.extremes (.both .infinity, .both .negInfinity) ps
  ofCorners lo hi

def mapBounds (r : Rect) (m : Matrix) : Rect := bounding (r.normalized.corners.map m.project)

/-- The text of a rectangle in reports. -/
def text (r : Rect) : String :=
  s!"Rect \x7b origin: {r.origin.text}, size: {r.size.text} \x7d"

end Rect

end RetainedScene
