import RetainedScene.Scene.Basic
import RetainedScene.Walk.Operation

/-!
# The state of a walk

A walk reads a `Frame`, which it cannot change, and changes a `Stage`: the canvas, the links that
are held back from being drawn in place, the recent operations and the journal, and whatever its
handler gathers.  It ends in a fatal error at a node or a link that is gone, and at an event that
the journal refuses.

A `Handler` decides what becomes of an operation.  It is told of a child draw like of any other
operation, but whether the child is descended into is not up to it: that is so exactly when the
link is not held back.
-/

namespace RetainedScene

/-- The count of levels that a node can be walked at; they are numbered from zero in a word. -/
def levelCount : Nat := 0x100000000

/-- What a walk reads. -/
structure Frame where
  nodes : NodeStore
  projected : KeyMap (Array EdgeRef)
  compositing : EdgeMap Matrix
  /-- Each operation is entered in the journal. -/
  reportOps : Bool

namespace Frame

def projectedAt (f : Frame) (key : Key) : List EdgeRef := (f.projected.getD key #[]).toList

def compositingOf (f : Frame) (edge : EdgeRef) : Matrix := f.compositing.getD edge .identity

end Frame

/-- What a walk changes; `gathered` is the handler's own. -/
structure Stage (ω : Type) where
  canvas : Canvas
  held : EdgeSet
  recent : RecentOps
  journal : Journal
  gathered : ω

/-- A walk, or a part of one. -/
abbrev Walk (ω : Type) := EStateM Fatal (Stage ω)

namespace Stage

variable {ω : Type}

def onCanvas (f : Canvas → Canvas) (s : Stage ω) : Stage ω := { s with canvas := f s.canvas }

/-- Changes what the handler gathers. -/
def gather (f : ω → ω) (s : Stage ω) : Stage ω := { s with gathered := f s.gathered }

/-- Enters an event that stands at the left margin. -/
def log (e : Event) (s : Stage ω) : Stage ω := { s with journal := s.journal.enter e }

def logOp (level : Nat) (name : String) (s : Stage ω) : Stage ω :=
  { s with recent := s.recent.write level name }

def hold (e : EdgeRef) (s : Stage ω) : Stage ω := { s with held := s.held.insert e }

def letGo (e : EdgeRef) (s : Stage ω) : Stage ω := { s with held := s.held.erase e }

end Stage

namespace Walk

variable {ω : Type}

/-- A result that may be a fatal error, as a part of a walk. -/
def lift {α : Type} : Except Fatal α → Walk ω α
  | .ok a => pure a
  | .error fatal => throw fatal

def onCanvas (f : Canvas → Canvas) : Walk ω Unit := modify (·.onCanvas f)

/-- Enters an event in the journal, unless the journal refuses it. -/
def log (e : Event) : Walk ω Unit := do
  if (← get).journal.refuses e then throw .marginTooWide
  modify (·.log e)

def saveCount : Walk ω Nat := return (← get).canvas.saveCount

end Walk

/-- What becomes of the operations of a walk. -/
structure Handler (ω : Type) where
  /-- Takes an operation of a node at a level, with its save-count offset and whether the node
  clips to its bounds. -/
  accept : Nat → Key → Operation → Int → Bool → Stage ω → Stage ω
  /-- Acts before a node is walked. -/
  enter : Nat → Key → Node → Walk ω Unit := fun _ _ _ => pure ()
  /-- Acts when the bounds of a node have been rejected. -/
  reject : Nat → Key → Node → Walk ω Unit := fun _ _ _ => pure ()
  /-- Acts after a node has been walked. -/
  leave : Nat → Key → Node → Walk ω Unit := fun _ _ _ => pure ()

end RetainedScene
