import RetainedScene.Number.Notation

/-!
# Points

Pairs of numbers, used as places and as extents.  The least and the greatest of points are taken
axis by axis, with the receiver given up when a comparison fails on a NaN.
-/

namespace RetainedScene

structure Point where
  x : Single
  y : Single
  deriving DecidableEq, Inhabited

namespace Point

def zero : Point := ⟨0, 0⟩

/-- Both coordinates are `v`. -/
def both (v : Single) : Point := ⟨v, v⟩

instance : Add Point := ⟨fun p q => ⟨p.x + q.x, p.y + q.y⟩⟩

def min (p q : Point) : Point := ⟨p.x.min q.x, p.y.min q.y⟩

def max (p q : Point) : Point := ⟨p.x.max q.x, p.y.max q.y⟩

/-- The least and the greatest coordinates of points, from given extremes on. -/
def extremes (start : Point × Point) (ps : List Point) : Point × Point :=
  ps.foldl (fun (lo, hi) p => (lo.min p, hi.max p)) start

/-- The text of a point in reports. -/
def text (p : Point) : String := s!"Vec2({p.x.general}, {p.y.general})"

end Point

end RetainedScene
