import RetainedScene.Geometry.Point

/-!
# Transforms

A `Matrix` is a transform of homogeneous coordinates, given by its four columns.  `a * b` applies
`b` first.  Every sum of four products is taken from left to right without fusing, so products of
the same factors in the same order agree bit for bit; products are not associative.
-/

namespace RetainedScene

structure Column where
  x : Single
  y : Single
  z : Single
  w : Single
  deriving DecidableEq, Inhabited

namespace Column

instance : Add Column := ⟨fun a b => ⟨a.x + b.x, a.y + b.y, a.z + b.z, a.w + b.w⟩⟩

def scale (c : Column) (s : Single) : Column := ⟨c.x * s, c.y * s, c.z * s, c.w * s⟩

def cells (c : Column) : List Single := [c.x, c.y, c.z, c.w]

end Column

structure Matrix where
  x : Column
  y : Column
  z : Column
  w : Column
  deriving DecidableEq, Inhabited

namespace Matrix

/-! ### Building -/

def identity : Matrix := ⟨⟨1, 0, 0, 0⟩, ⟨0, 1, 0, 0⟩, ⟨0, 0, 1, 0⟩, ⟨0, 0, 0, 1⟩⟩

def translation (dx dy dz : Single) : Matrix := { identity with w := ⟨dx, dy, dz, 1⟩ }

def scaling (sx sy sz : Single) : Matrix :=
  ⟨⟨sx, 0, 0, 0⟩, ⟨0, sy, 0, 0⟩, ⟨0, 0, sz, 0⟩, ⟨0, 0, 0, 1⟩⟩

/-- The turn about the first axis by an angle in radians. -/
def rotationX (angle : Single) : Matrix :=
  let (s, c) := (angle.sin, angle.cos)
  { identity with y := ⟨0, c, s, 0⟩, z := ⟨0, -s, c, 0⟩ }

def rotationY (angle : Single) : Matrix :=
  let (s, c) := (angle.sin, angle.cos)
  { identity with x := ⟨c, 0, -s, 0⟩, z := ⟨s, 0, c, 0⟩ }

def rotationZ (angle : Single) : Matrix :=
  let (s, c) := (angle.sin, angle.cos)
  { identity with x := ⟨c, s, 0, 0⟩, y := ⟨-s, c, 0, 0⟩ }

/-! ### Applying -/

def apply (m : Matrix) (c : Column) : Column :=
  m.x.scale c.x + m.y.scale c.y + m.z.scale c.z + m.w.scale c.w

def mul (a b : Matrix) : Matrix := ⟨a.apply b.x, a.apply b.y, a.apply b.z, a.apply b.w⟩

instance : Mul Matrix := ⟨mul⟩

/-- The image of a point of the plane, divided by its last coordinate. -/
def project (m : Matrix) (p : Point) : Point :=
  let image := m.x.scale p.x + m.y.scale p.y + m.z.scale 0 + m.w
  ⟨image.x / image.w, image.y / image.w⟩

/-- The transform without its depth row and column, so that it maps the plane to itself. -/
def flatten (m : Matrix) : Matrix :=
  let strip (c : Column) : Column := { c with z := 0 }
  ⟨strip m.x, strip m.y, ⟨0, 0, 1, 0⟩, strip m.w⟩

/-! ### Reading -/

/-- The cells, column by column. -/
def cells (m : Matrix) : List Single := m.x.cells ++ m.y.cells ++ m.z.cells ++ m.w.cells

/-- The text of a transform in reports, column by column. -/
def text (m : Matrix) : String :=
  let column (c : Column) : String := "[" ++ ", ".intercalate (c.cells.map Single.plain) ++ "]"
  "[" ++ ", ".intercalate ([m.x, m.y, m.z, m.w].map column) ++ "]"

end Matrix

end RetainedScene
