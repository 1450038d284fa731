import RetainedScene.Drawing.Color
import RetainedScene.Cache.Resource

/-!
# Paints

How geometry is colored.  Recorded content keeps its own paints; a paint may refer to a shared
shader, for which the recording then holds a reference.
-/

namespace RetainedScene

inductive PaintStyle where
  | fill
  | stroke (width : Single)
  deriving DecidableEq, Inhabited

structure Paint where
  color : Color := .black
  style : PaintStyle := .fill
  shader : Option ResourceId := none
  deriving DecidableEq, Inhabited

namespace Paint

def fill (color : Color) : Paint := { color }

def stroke (color : Color) (width : Single) : Paint := { color, style := .stroke width }

end Paint

end RetainedScene
