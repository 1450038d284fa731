import RetainedScene.Geometry.Rect

/-!
# Outlines

The shape that a node clips its content to and casts a shadow with.  An outline without area is
empty and has no bounds.
-/

namespace RetainedScene

inductive Outline where
  | empty
  | roundRect (rect : Rect) (radius : Single)
  /-- A convex polygon in the node's own coordinates. -/
  | convex (points : List Point)
  deriving DecidableEq, Inhabited

namespace Outline

def isEmpty : Outline → Bool
  | empty => true
  | roundRect rect _ => rect.isEmpty
  | convex points => points.length < 3

/-- The upright bounds of an outline that is not empty. -/
def bounds (o : Outline) : Option Rect :=
  if o.isEmpty then none
  else match o with
    | empty => none
    | roundRect rect _ => some rect.normalized
    | convex points => some (.bounding points)

/-- The text of an outline in reports. -/
def text : Outline → String
  | empty => "Empty"
  | roundRect rect radius => s!"RoundRect \x7b rect: {rect.text}, radius: {radius.general} \x7d"
  | convex points => "ConvexPath([" ++ ", ".intercalate (points.map Point.text) ++ "])"

end Outline

end RetainedScene
