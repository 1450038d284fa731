import RetainedScene.Geometry.Rect

/-!
# Paths and regions

Shapes that recorded content is clipped to or drawn with.  Only their upright bounds take part
in drawing.
-/

namespace RetainedScene

/-- A line through points, closed to a polygon or open. -/
structure Path where
  points : List Point
  closed : Bool
  deriving DecidableEq, Inhabited

namespace Path

def polygon (points : List Point) : Path := ⟨points, true⟩

def bounds (p : Path) : Rect :=
  match p.points with
  | [] => .zero
  | first :: rest =>
    let (lo, hi) := Point.extremes (first, first) (first :: rest)
    .ofCorners lo hi

end Path

/-- A union of rectangles. -/
structure Region where
  rects : List Rect
  deriving DecidableEq, Inhabited

namespace Region

def bounds (r : Region) : Rect :=
  match r.rects.map Rect.normalized with
  | [] => .zero
  | first :: rest =>
    let (lo, hi) := rest.foldl (fun (lo, hi) s => (lo.min s.lower, hi.max s.upper))
      (first.lower, first.upper)
    .ofCorners lo hi

end Region

end RetainedScene
