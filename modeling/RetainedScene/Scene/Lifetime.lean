import RetainedScene.Scene.Basic

/-!
# The life of a node

Nodes are created, changed, given content and destroyed.  Content that is replaced, or goes with
its node, is torn down: its references go back to the cache and its functors off the count.

A destroyed node must not be used: changing it or destroying it again is fatal.  Destruction may
be queued, which changes nothing until the queue is flushed.
-/

namespace RetainedScene

namespace World

/-! ### Creating and changing -/

def createNode (name : String) (w : World) : Key × World :=
  let (key, nodes) := w.scene.nodes.insert { name }
  (key, (w.onScene ({ · with nodes })).log (.nodeCreated key))

/-- The node of a key that is to be changed. -/
def nodeToChange (key : Key) : Action Node := do
  match (← get).scene.nodes.get? key with
  | some node => pure node
  | none => fail (.usedAfterDestruction key)

/-- Changes a node that is there. -/
def updateNode (key : Key) (f : Node → Node) : World → World :=
  onScene fun s => { s with nodes := s.nodes.update key f }

def editProperties (key : Key) (f : Properties → Properties) : Action Unit := do
  let _ ← nodeToChange key
  modify (updateNode key fun node => { node with properties := f node.properties })

def setProperties (key : Key) (properties : Properties) : Action Unit :=
  editProperties key fun _ => properties

/-! ### Content -/

/-- Puts content in place of what a node has, whose routing is forgotten. -/
def install (key : Key) (content : Option DisplayList) (w : World) : World :=
  let w := w.updateNode key ({ · with content })
  w.onScene fun s => { s with routing := s.routing.forget key }

/-- Replaces the content of a node.  Content for a node that is not there is lost. -/
def setContent (key : Key) (content : Option DisplayList) : Action Unit := do
  match (← get).scene.nodes.get? key with
  | none =>
    modify (log (.failed (.usedAfterDestruction key)))
    modify (onShared fun c => content.elim c c.lose)
    throw (.usedAfterDestruction key)
  | some node =>
    modify (onShared fun c => node.content.elim c c.tearDown)
    modify (onShared fun c => content.elim c fun l => c.addFunctors l.functors)
    modify (install key content)

/-! ### Destroying -/

def destroy (key : Key) : Action Unit := do
  match (← get).scene.nodes.remove? key with
  | none => fail (.destroyedTwice key)
  | some (node, nodes) =>
    modify (onScene fun s => { nodes, routing := s.routing.forget key })
    modify (onShared fun c => node.content.elim c c.tearDown)
    modify (log (.nodeDestroyed key node.name))

def destroyLater (key : Key) : World → World := onShared (·.queue key)

/-- Destroys the queued nodes, the first queued first, and returns their number. -/
def flushDestruction : Action Nat := do
  let queued := (← get).shared.pending
  modify (onShared fun c => { c with pending := #[] })
  queued.toList.forM destroy
  pure queued.size

end World

end RetainedScene
