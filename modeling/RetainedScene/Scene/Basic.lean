import RetainedScene.Shared
import RetainedScene.Node.Arena
import RetainedScene.Node.Properties

/-!
# Scenes

A `Scene` is a store of nodes together with the routing of the current frame.  A node has a name,
properties and, once recorded, content; its children are the links of its content.

The routing is derived from the nodes for one frame: which links are drawn at which receiver,
under which transform, and which are held back from being drawn in place.  Routing is kept apart
from the nodes, so that drawing cannot change them.  A link without an entry is not held back and
has the identity as its transform.

A `World` is a scene together with what its nodes share.  Its operations are `Action`s, which end
in a fatal error or go on; the journal tells of an error that is a mistake as well.
-/

namespace RetainedScene

/-! ### Nodes -/

structure Node where
  name : String
  properties : Properties := {}
  content : Option DisplayList := none
  deriving DecidableEq, Inhabited

namespace Node

/-- The content, if there is anything in it to draw. -/
def drawable? (n : Node) : Option DisplayList := n.content.filter fun l => !l.isEmpty

/-- The content, if it is drawn at all: a node that is fully transparent is not. -/
def shown? (n : Node) : Option DisplayList := if 0 < n.properties.alpha then n.drawable? else none

def isDrawable (n : Node) : Bool := n.drawable?.isSome

/-- The content marks a point at which projected nodes are drawn. -/
def isReceiver (n : Node) : Bool := (n.content.bind (·.receiveIndex)).isSome

end Node

/-! ### Routing -/

structure Routing where
  /-- The links drawn at a node's receive point, in order. -/
  projected : KeyMap (Array EdgeRef) := ∅
  /-- The transform from the receiver's content to the content of the link's parent. -/
  compositing : EdgeMap Matrix := ∅
  /-- The links that are not drawn in place. -/
  held : EdgeSet := ∅
  deriving Inhabited

namespace Routing

def projectedAt (r : Routing) (key : Key) : Array EdgeRef := r.projected.getD key #[]

def compositingOf (r : Routing) (edge : EdgeRef) : Matrix := r.compositing.getD edge .identity

/-- Nothing is drawn at the receive point of a node. -/
def clearProjected (r : Routing) (key : Key) : Routing :=
  { r with projected := r.projected.erase key }

/-- Draws a link at a receiver, under a transform, and not in place. -/
def project (r : Routing) (edge : EdgeRef) (receiver : Key) (transform : Matrix) : Routing where
  projected := r.projected.insert receiver ((r.projectedAt receiver).push edge)
  compositing := r.compositing.insert edge transform
  held := r.held.insert edge

/-- Draws a link in place. -/
def drawInPlace (r : Routing) (edge : EdgeRef) : Routing := { r with held := r.held.erase edge }

/-- Forgets the routing of a node's own links and what is drawn at it. -/
def forget (r : Routing) (key : Key) : Routing where
  projected := r.projected.erase key
  compositing := r.compositing.filter fun edge _ => edge.parent ≠ key
  held := r.held.filter fun edge => edge.parent ≠ key

end Routing

/-! ### Scenes -/

abbrev NodeStore := Arena Node

namespace NodeStore

/-- The node of a key that is to be drawn or read. -/
def node (nodes : NodeStore) (key : Key) : Except Fatal Node :=
  match nodes.get? key with
  | some node => .ok node
  | none => .error (.drawnAfterDestruction key)

/-- The link that an edge names. -/
def edge (nodes : NodeStore) (e : EdgeRef) : Except Fatal Edge := do
  let parent ← nodes.node e.parent
  match parent.content.bind (·.children[e.index]?) with
  | some edge => .ok edge
  | none => .error (.staleEdge e parent.name)

end NodeStore

structure Scene where
  nodes : NodeStore := {}
  routing : Routing := {}
  deriving Inhabited

/-! ### Worlds -/

structure World where
  scene : Scene := {}
  shared : Shared := {}
  deriving Inhabited

/-- An operation on a world that may end in a fatal error. -/
abbrev Action := EStateM Fatal World

namespace World

theorem get_apply (w : World) : (get : Action World) w = .ok w w := rfl

/-- An empty world with settings, and a reader of its journal. -/
def ofSettings (settings : Settings) (asked : Option Level) : Except Fatal World := do
  let recent ← RecentOps.ofCapacity settings.recentCapacity
  return { shared := { settings, recent, journal := { asked } } }

/-- Changes what the nodes share. -/
def onShared (f : Shared → Shared) (w : World) : World := { w with shared := f w.shared }

/-- Changes the scene. -/
def onScene (f : Scene → Scene) (w : World) : World := { w with scene := f w.scene }

def log (e : Event) : World → World := onShared (·.log e)

/-- Ends in a fatal error, which the journal tells of if it is a mistake. -/
def fail {α : Type} (fatal : Fatal) : Action α := do
  if fatal.isMistake then modify (log (.failed fatal))
  throw fatal

/-- A result that may be a fatal error, as an operation. -/
def lift {α : Type} (result : Except Fatal α) : Action α :=
  match result with
  | .ok a => pure a
  | .error fatal => fail fatal

end World

end RetainedScene
