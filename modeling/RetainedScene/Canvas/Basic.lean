import RetainedScene.Drawing.Op
import RetainedScene.Geometry.Outline
import RetainedScene.Node.Key
import RetainedScene.SaveStack

/-!
# Canvases

A `Canvas` follows the transform, the clip and the alpha in force through saves and restores, and
keeps a record of the calls made on it.  It has no pixels.  Transforms are not recorded as calls
of their own: they show in the draws that follow.

The clip is in device coordinates; without one nothing is clipped.  `rejects` says that a
rectangle is certainly outside the clip, which is so of every empty rectangle.

The alpha of a layer that the caller keeps is not part of the saved state.
-/

namespace RetainedScene

/-! ### State -/

/-- The state that is saved and restored. -/
structure Snapshot where
  transform : Matrix := .identity
  /-- The device clip; none clips nothing. -/
  clip : Option Rect := none
  alpha : Single := 1
  deriving DecidableEq, Inhabited

/-- All state that a draw depends on. -/
structure DisplayState where
  snapshot : Snapshot := {}
  /-- The alpha of a layer kept by the caller. -/
  layerAlpha : Single := 1
  deriving DecidableEq, Inhabited

/-! ### Calls -/

/-- A recorded call. -/
inductive Call where
  | save (flags : SaveFlags) (count : Nat)
  | restore
  | restoreTo (count : Int)
  | saveLayer (bounds : Rect) (alpha : UInt8) (flags : SaveFlags)
  /-- The clip is the one that results. -/
  | clipRect (clip : Rect) (mode : ClipMode)
  | clipOutline (clip : Rect)
  | draw (name : String) (label : Option String) (transform : Matrix) (alpha : Single)
  | shadow (caster : Key) (transform : Matrix) (alpha : Single)
  | startMark (name : String)
  | endMark
  deriving DecidableEq

namespace Call

/-- The call draws an operation or a shadow. -/
def isDraw : Call → Bool
  | draw .. | shadow .. => true
  | _ => false

/-- The text that the call draws. -/
def label? : Call → Option String
  | draw _ label _ _ => label
  | _ => none

end Call

structure Canvas where
  stack : SaveStack Snapshot := .ofTop {}
  layerAlpha : Single := 1
  calls : Array Call := #[]
  deriving DecidableEq, Inhabited

namespace Canvas

/-! ### Building and reading -/

/-- A canvas that is clipped to a viewport. -/
def ofSize (width height : Single) : Canvas :=
  { stack := .ofTop { clip := some (.ofSize width height) } }

/-- A canvas that clips nothing. -/
def unbounded : Canvas := {}

def top (c : Canvas) : Snapshot := c.stack.top

def transform (c : Canvas) : Matrix := c.top.transform

def clip (c : Canvas) : Option Rect := c.top.clip

def saveCount (c : Canvas) : Nat := c.stack.saveCount

def displayState (c : Canvas) : DisplayState := ⟨c.top, c.layerAlpha⟩

/-- The draws among the calls. -/
def draws (c : Canvas) : List Call := c.calls.toList.filter Call.isDraw

/-- The texts drawn, in order. -/
def labels (c : Canvas) : List String := c.calls.toList.filterMap Call.label?

/-! ### Calls -/

def call (c : Canvas) (k : Call) : Canvas := { c with calls := c.calls.push k }

def forgetCalls (c : Canvas) : Canvas := { c with calls := #[] }

/-- Changes the state in force. -/
def modify (c : Canvas) (f : Snapshot → Snapshot) : Canvas := { c with stack := c.stack.modify f }

def startMark (c : Canvas) (name : String) : Canvas := c.call (.startMark name)

def endMark (c : Canvas) : Canvas := c.call .endMark

/-! ### Saves -/

def save (c : Canvas) (flags : SaveFlags) : Canvas :=
  let count := c.saveCount
  { c with stack := c.stack.save }.call (.save flags count)

def restore (c : Canvas) : Canvas := { c with stack := c.stack.restore }.call .restore

/-- Restores until no more than `count` states are left; the last state stays. -/
def restoreTo (c : Canvas) (count : Int) : Canvas :=
  { c with stack := c.stack.restoreTo count }.call (.restoreTo count)

/-! ### Transform and alpha -/

def concat (c : Canvas) (m : Matrix) : Canvas :=
  c.modify fun s => { s with transform := s.transform * m }

def translate (c : Canvas) (dx dy : Single) : Canvas := c.concat (.translation dx dy 0)

def scaleAlpha (c : Canvas) (alpha : Single) : Canvas :=
  c.modify fun s => { s with alpha := s.alpha * alpha }

def setLayerAlpha (c : Canvas) (alpha : Single) : Canvas := { c with layerAlpha := alpha }

def setDisplayState (c : Canvas) (s : DisplayState) : Canvas :=
  { c.modify fun _ => s.snapshot with layerAlpha := s.layerAlpha }

end Canvas

/-! ### Clips -/

namespace Snapshot

/-- The clip narrowed to a rectangle in local coordinates; where nothing is left it shrinks to
its own corner. -/
def narrowed (s : Snapshot) (rect : Rect) : Rect :=
  let mapped := rect.mapBounds s.transform
  match s.clip with
  | none => mapped
  | some clip => (clip.intersect mapped).getD ⟨clip.origin, .zero⟩

/-- The clip that a rectangle in local coordinates makes. -/
def clipTo (s : Snapshot) (rect : Rect) : ClipMode → Rect
  | .intersect => s.narrowed rect
  | .replace => rect.mapBounds s.transform

/-- A rectangle in local coordinates is certainly outside the clip. -/
def rejects (s : Snapshot) (rect : Rect) : Bool :=
  rect.isEmpty || s.clip.any fun clip => (clip.intersect (rect.mapBounds s.transform)).isNone

end Snapshot

namespace Canvas

def setClip (c : Canvas) (clip : Rect) : Canvas := c.modify ({ · with clip := some clip })

def clipRect (c : Canvas) (rect : Rect) (mode : ClipMode) : Canvas :=
  let clip := c.top.clipTo rect mode
  (c.setClip clip).call (.clipRect clip mode)

/-- The clip in force leaves something to draw on. -/
def hasRoom (c : Canvas) : Bool := c.clip.all fun clip => !clip.isEmpty

def clipOutline (c : Canvas) (outline : Outline) : Canvas :=
  match outline.bounds with
  | none => c
  | some bounds =>
    let clip := c.top.narrowed bounds
    (c.setClip clip).call (.clipOutline clip)

/-- A rectangle in local coordinates is certainly outside the clip in force. -/
def rejects (c : Canvas) (rect : Rect) : Bool := c.top.rejects rect

/-- Saves the state and makes what follows fainter, in steps of `1 / 255`. -/
def saveLayer (c : Canvas) (bounds : Rect) (alpha : UInt8) (flags : SaveFlags) : Canvas :=
  let c := { c with stack := c.stack.save }.scaleAlpha (Single.ofByte alpha / 255)
  let c := if flags.contains .clipToLayer then c.setClip (c.top.narrowed bounds) else c
  c.call (.saveLayer bounds alpha flags)

/-! ### Drawing -/

def draw (c : Canvas) (op : DrawOp) : Canvas :=
  c.call (.draw op.name op.label? c.transform (c.top.alpha * c.layerAlpha))

/-- Draws a shadow of the given alpha, under a transform within the one in force. -/
def drawShadow (c : Canvas) (caster : Key) (transform : Matrix) (alpha : Single) : Canvas :=
  c.call (.shadow caster (c.transform * transform) (c.top.alpha * alpha))

end Canvas

end RetainedScene
