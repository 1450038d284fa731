import RetainedScene.Drawing.Paint
import RetainedScene.Geometry.Rect
import RetainedScene.Text.Flags

/-!
# Drawing operations

The operations of recorded content.  Paints, paths, regions, matrices and children are named by
their index in the tables of the display list that holds the operation.

An operation either changes the state of the canvas (`changesState`), draws something that may
be batched with its neighbours (`batchKind?`), or draws a child node; no operation is two of
these.
-/

namespace RetainedScene

/-! ### Saves and clips -/

/-- What a save of the canvas state captures. -/
structure SaveFlags where
  bits : UInt32
  deriving DecidableEq, Inhabited

namespace SaveFlags

def matrix : SaveFlags := ⟨1⟩
def clip : SaveFlags := ⟨2⟩
def alphaLayer : SaveFlags := ⟨4⟩
def clipToLayer : SaveFlags := ⟨8⟩
def matrixClip : SaveFlags := ⟨3⟩

def union (a b : SaveFlags) : SaveFlags := ⟨a.bits ||| b.bits⟩

/-- Every bit of `b` is set in `a`. -/
def contains (a b : SaveFlags) : Bool := a.bits &&& b.bits = b.bits

def text (f : SaveFlags) : String :=
  Text.flags "SaveFlags"
    [(1, "MATRIX"), (2, "CLIP"), (4, "HAS_ALPHA_LAYER"), (8, "CLIP_TO_LAYER")] f.bits

end SaveFlags

/-- How a clip combines with the clip in force. -/
inductive ClipMode where
  | intersect
  | replace
  deriving DecidableEq, Inhabited

def ClipMode.text : ClipMode → String
  | intersect => "Intersect"
  | replace => "Replace"

/-! ### Operations -/

/-- Draws of one kind that follow each other may share a batch. -/
inductive BatchKind where
  | color
  | shape
  | path
  | bitmap
  | patch
  | text
  | layer
  | functor
  | shadow
  deriving DecidableEq, Inhabited

def BatchKind.name : BatchKind → String
  | color => "Color"
  | shape => "Shape"
  | path => "Path"
  | bitmap => "Bitmap"
  | patch => "Patch"
  | text => "Text"
  | layer => "Layer"
  | functor => "Functor"
  | shadow => "Shadow"

inductive DrawOp where
  | save (flags : SaveFlags)
  | restore
  /-- Restores to a save count that is relative to the one at the start of the list. -/
  | restoreTo (count : Int)
  | translate (dx dy : Single)
  | concat (matrix : Nat)
  | clipRect (rect : Rect) (mode : ClipMode)
  | clipPath (path : Nat) (mode : ClipMode)
  | clipRegion (region : Nat) (mode : ClipMode)
  | color (color : Color)
  | rect (rect : Rect) (paint : Nat)
  | roundRect (rect : Rect) (rx ry : Single) (paint : Nat)
  | circle (center : Point) (radius : Single) (paint : Nat)
  | path (path : Nat) (paint : Nat)
  | bitmap (id : ResourceId) (target : Rect) (paint : Option Nat)
  | patch (id : ResourceId) (target : Rect) (paint : Option Nat)
  | text (text : String) (origin : Point) (paint : Nat)
  | layer (id : ResourceId) (x y : Single)
  | functor (handle : UInt32)
  | child (index : Nat)
  deriving DecidableEq, Inhabited

namespace DrawOp

def name : DrawOp → String
  | save _ => "Save"
  | restore => "Restore"
  | restoreTo _ => "RestoreToCount"
  | translate .. => "Translate"
  | concat _ => "ConcatMatrix"
  | clipRect .. => "ClipRect"
  | clipPath .. => "ClipPath"
  | clipRegion .. => "ClipRegion"
  | color _ => "DrawColor"
  | rect .. => "DrawRect"
  | roundRect .. => "DrawRoundRect"
  | circle .. => "DrawCircle"
  | path .. => "DrawPath"
  | bitmap .. => "DrawBitmap"
  | patch .. => "DrawPatch"
  | text .. => "DrawText"
  | layer .. => "DrawLayer"
  | functor _ => "DrawFunctor"
  | child _ => "DrawRenderNode"

/-- The operation saves, restores, transforms or clips. -/
def changesState : DrawOp → Bool
  | save _ | restore | restoreTo _ | translate .. | concat _ => true
  | clipRect .. | clipPath .. | clipRegion .. => true
  | _ => false

def batchKind? : DrawOp → Option BatchKind
  | color _ => some .color
  | rect .. | roundRect .. | circle .. => some .shape
  | path .. => some .path
  | bitmap .. => some .bitmap
  | patch .. => some .patch
  | text .. => some .text
  | layer .. => some .layer
  | functor _ => some .functor
  | _ => none

/-- What a draw writes, for operations that write text. -/
def label? : DrawOp → Option String
  | text s _ _ => some s
  | _ => none

theorem batchKind?_eq_none_iff (op : DrawOp) :
    op.batchKind? = none ↔ op.changesState = true ∨ ∃ i, op = child i := by
  cases op <;> simp [batchKind?, changesState]

end DrawOp

end RetainedScene
