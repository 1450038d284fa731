import RetainedScene.Drawing.Op
import RetainedScene.Geometry.Path
import RetainedScene.Node.Key

/-!
# Display lists

The recorded content of a node: its operations, the tables they index, the links to child nodes
and the references to shared resources that the content holds.

Content holds a reference for each recorded use of a resource until it is spent.  A spent list
keeps its operations and children, and has empty tables.
-/

namespace RetainedScene

/-- A link to a child node, under the transform from the parent's content. -/
structure Edge where
  child : Key
  transform : Matrix
  deriving DecidableEq, Inhabited

/-- The shared resources that content refers to, in the order of recording, one entry a use. -/
structure References where
  bitmaps : Array ResourceId := #[]
  /-- Bitmaps that go with the content. -/
  ownedBitmaps : Array ResourceId := #[]
  patches : Array ResourceId := #[]
  /-- The shaders of paints, which go with the content. -/
  shaders : Array ResourceId := #[]
  sourcePaths : Array ResourceId := #[]
  layers : Array ResourceId := #[]
  deriving DecidableEq, Inhabited

namespace References

/-- The references that are only given back, in that order. -/
def borrowed (r : References) : List ResourceId :=
  r.bitmaps.toList ++ r.patches.toList ++ r.sourcePaths.toList ++ r.layers.toList

/-- The references that are given back and whose resource is destroyed. -/
def owned (r : References) : List ResourceId := r.ownedBitmaps.toList ++ r.shaders.toList

def all (r : References) : List ResourceId := r.borrowed ++ r.owned

end References

structure DisplayList where
  ops : Array DrawOp := #[]
  children : Array Edge := #[]
  /-- The operation after which projected nodes are drawn. -/
  receiveIndex : Option Nat := none
  functors : Nat := 0
  references : References := {}
  paints : Array Paint := #[]
  paths : Array Path := #[]
  regions : Array Region := #[]
  matrices : Array Matrix := #[]
  spent : Bool := false
  deriving DecidableEq, Inhabited

namespace DisplayList

def isEmpty (l : DisplayList) : Bool := l.ops.isEmpty

/-- The links of a list that is the content of `parent`, with their names. -/
def edgesOf (l : DisplayList) (parent : Key) : List (EdgeRef × Edge) :=
  l.children.toList.zipIdx.map fun (edge, index) => (⟨parent, index⟩, edge)

/-- The list without its references and tables. -/
def toSpent (l : DisplayList) : DisplayList :=
  { l with references := {}, paints := #[], paths := #[], regions := #[], matrices := #[],
           spent := true }

/-- The count of references that the list still holds. -/
def held (l : DisplayList) : Nat := if l.spent then 0 else l.references.all.length

end DisplayList

end RetainedScene
