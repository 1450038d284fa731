import RetainedScene.Canvas.Basic
import RetainedScene.DisplayList.Basic

/-!
# Operations of a walk

A walk over the nodes of a scene hands out operations of three kinds: those recorded in a node's
content, those that a node's properties and the order of its children ask for, and draws of child
nodes.  `issue` carries an operation out on a canvas; a draw of a child is not carried out but
descended into.

Recorded restores count from the save count at the start of the content, which is given as an
offset.  The two are added without a bound, although save counts have 32 bits: the sum is right
while it stays below 2^31.  Restores of a node's properties are given with the offset 0, and add
nothing.
-/

namespace RetainedScene

/-- The shadow of an elevated child. -/
structure Shadow where
  caster : Key
  /-- The caster's transform, flat on the plane of its parent. -/
  flat : Matrix
  /-- The caster's transform with its height. -/
  deep : Matrix
  alpha : Single
  outline : Outline
  width : Single
  height : Single
  deriving DecidableEq

/-- An operation that the properties of a node ask for. -/
inductive PropertyOp where
  | save (flags : SaveFlags)
  | restoreTo (count : Int)
  | saveLayer (bounds : Rect) (alpha : UInt8) (flags : SaveFlags)
  | clipRect (rect : Rect) (mode : ClipMode)
  | clipOutline (outline : Outline)
  | shadow (shadow : Shadow)
  deriving DecidableEq

def PropertyOp.name : PropertyOp → String
  | save _ => "Save"
  | restoreTo _ => "RestoreToCount"
  | saveLayer .. => "SaveLayerAlpha"
  | clipRect .. => "ClipRect"
  | clipOutline _ => "ClipOutline"
  | shadow _ => "DrawShadow"

inductive Operation where
  | recorded (op : DrawOp) (list : DisplayList)
  | property (op : PropertyOp)
  | child (ref : EdgeRef) (edge : Edge)
  deriving DecidableEq

namespace Operation

def name : Operation → String
  | recorded op _ => op.name
  | property op => op.name
  | child .. => "DrawRenderNode"

/-- The operation changes the state of a canvas and draws nothing. -/
def changesState : Operation → Bool
  | recorded op _ => op.changesState
  | property (.shadow _) => false
  | property _ => true
  | child .. => false

def batchKind? : Operation → Option BatchKind
  | recorded op _ => op.batchKind?
  | property (.shadow _) => some .shadow
  | _ => none

end Operation

namespace Canvas

/-- Carries out a recorded operation; one whose table entry is missing does nothing. -/
def issueRecorded (c : Canvas) (list : DisplayList) (offset : Int) : DrawOp → Canvas
  | .save flags => c.save flags
  | .restore => c.restore
  | .restoreTo count => c.restoreTo (offset + count)
  | .translate dx dy => c.translate dx dy
  | .concat i => list.matrices[i]?.elim c c.concat
  | .clipRect rect mode => c.clipRect rect mode
  | .clipPath i mode => list.paths[i]?.elim c fun path => c.clipRect path.bounds mode
  | .clipRegion i mode => list.regions[i]?.elim c fun region => c.clipRect region.bounds mode
  | .child _ => c
  | op => c.draw op

def issueProperty (c : Canvas) (offset : Int) : PropertyOp → Canvas
  | .save flags => c.save flags
  | .restoreTo count => c.restoreTo (offset + count)
  | .saveLayer bounds alpha flags => c.saveLayer bounds alpha flags
  | .clipRect rect mode => c.clipRect rect mode
  | .clipOutline outline => c.clipOutline outline
  | .shadow s => c.drawShadow s.caster s.flat s.alpha

def issue (c : Canvas) (offset : Int) : Operation → Canvas
  | .recorded op list => c.issueRecorded list offset op
  | .property op => c.issueProperty offset op
  | .child .. => c

end Canvas

end RetainedScene
