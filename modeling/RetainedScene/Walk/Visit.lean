import RetainedScene.Walk.Elevation

/-!
# Walking a node

A `Visit` is the walk of one node with content.  The node's properties are applied to the canvas,
and unless its bounds are rejected its children and operations follow: elevated children below
zero, the recorded operations with the projected nodes right after the receive point, and the
remaining elevated children with their shadows.  The walk ends by restoring the save count it
began with.

A child that is drawn out of place is let go for the time of its draw and held back again after
it.

`visit` closes the recursion over the nesting of nodes.  What is nested in a node is walked a level
further in, so the levels that are left bound the recursion, also where a link that was routed
in an earlier frame leads back to a node around it.
-/

namespace RetainedScene

/-- The walk of a node with content. -/
structure Visit (ω : Type) where
  handler : Handler ω
  frame : Frame
  /-- Walks a node at a level. -/
  descend : Nat → Key → Walk ω Unit
  level : Nat
  key : Key
  node : Node
  list : DisplayList

namespace Visit

variable {ω : Type}

def properties (v : Visit ω) : Properties := v.node.properties

/-! ### Handing out operations -/

def accept (v : Visit ω) (op : Operation) (offset : Int) : Walk ω Unit :=
  modify (v.handler.accept v.level v.key op offset v.properties.clipToBounds)

/-- Hands out an operation of the node's own properties. -/
def give (v : Visit ω) (op : PropertyOp) : Walk ω Unit := v.accept (.property op) 0

/-- Enters an event in the journal if operations are reported. -/
def report (v : Visit ω) (e : Event) : Walk ω Unit :=
  if v.frame.reportOps then Walk.log e else pure ()

/-- The level of what is nested in the node. -/
def innerLevel (v : Visit ω) : Walk ω Nat :=
  if v.level + 1 < levelCount then pure (v.level + 1) else throw .overflow

/-- Hands out an operation, and descends into a child unless it is held back. -/
def offer (v : Visit ω) (op : Operation) (offset : Int) : Walk ω Unit := do
  v.accept op offset
  match op with
  | .child ref edge =>
    unless (← get).held.contains ref do
      v.descend (← v.innerLevel) edge.child
  | _ => pure ()

/-- Draws a child out of place, under a transform. -/
def place (v : Visit ω) (ref : EdgeRef) (edge : Edge) (transform : Matrix) : Walk ω Unit := do
  let count ← Walk.saveCount
  Walk.onCanvas fun c => (c.save .matrix).concat transform
  modify (·.letGo ref)
  v.offer (.child ref edge) ((← Walk.saveCount) - 1)
  modify (·.hold ref)
  Walk.onCanvas (·.restoreTo count)

/-- Draws something under a clip to the node's bounds. -/
def clipped (v : Visit ω) (mode : ClipMode) (body : Walk ω Unit) : Walk ω Unit := do
  let count ← Walk.saveCount
  Walk.onCanvas (·.save .matrixClip)
  v.give (.clipRect v.properties.bounds mode)
  body
  v.give (.restoreTo count)

/-! ### Properties -/

/-- Applies the transforms of a node to a canvas. -/
def transformed (p : Properties) (c : Canvas) : Canvas :=
  let c := if p.hasOffset then c.translate p.left p.top else c
  let c := match p.fixedMatrix? with
    | some fixed => c.concat fixed
    | none => c
  let flags := p.matrixFlags
  if flags = .none then c
  else if flags = .translation then c.translate p.translationX p.translationY
  else c.concat (p.transformMatrix false)

/-- Applies the alpha of a node, and says whether its bounds are still to be clipped to: a layer
clips by itself. -/
def applyAlpha (v : Visit ω) (inner : Nat) : Walk ω Bool := do
  let p := v.properties
  let clips := !p.caching && p.clipToBounds
  if p.alpha < 1 then
    if p.caching then
      Walk.onCanvas (·.setLayerAlpha p.alpha)
      return clips
    else if !p.overlaps then
      Walk.onCanvas (·.scaleAlpha p.alpha)
      return clips
    else
      Walk.log (.layerSaved inner p.alpha)
      let flags := if clips then SaveFlags.alphaLayer.union .clipToLayer else .alphaLayer
      v.give (.saveLayer p.bounds (p.alpha * 255).toByte flags)
      return false
  else return clips

/-- Applies transforms, alpha and clips of the node. -/
def applyProperties (v : Visit ω) : Walk ω Unit := do
  let p := v.properties
  let inner ← v.innerLevel
  Walk.onCanvas (transformed p)
  let clips ← v.applyAlpha inner
  if clips then v.give (.clipRect p.bounds .intersect)
  if p.clipToOutline && !p.outline.isEmpty then v.give (.clipOutline p.outline)

/-! ### Children out of place -/

/-- Draws an elevated child in its turn. -/
def placeSibling (v : Visit ω) (c : Sibling) : Walk ω Unit := v.place c.ref c.edge c.edge.transform

def take (v : Visit ω) : Sibling.Turn → Walk ω Unit
  | .shadow c => match c.shadow? with
    | some s => v.give (.shadow s)
    | none => pure ()
  | .content c => v.placeSibling c

/-- Draws the elevated children below zero. -/
def drawBelow (v : Visit ω) (sorted : List Sibling) : Walk ω Unit :=
  if Sibling.reachesBelow sorted then
    v.clipped .intersect ((Sibling.below sorted).forM v.placeSibling)
  else pure ()

/-- Draws the elevated children from zero on, with their shadows. -/
def drawAbove (v : Visit ω) (sorted : List Sibling) : Walk ω Unit :=
  if Sibling.reachesAbove sorted then
    v.clipped .intersect ((Sibling.schedule [] 0 (Sibling.above sorted)).forM v.take)
  else pure ()

/-- Draws a link at the node's receive point. -/
def placeProjected (v : Visit ω) (ref : EdgeRef) : Walk ω Unit := do
  let edge ← Walk.lift (v.frame.nodes.edge ref)
  v.place ref edge (v.frame.compositingOf ref)

/-- Draws the links that are projected to the node. -/
def drawProjected (v : Visit ω) : Walk ω Unit := do
  let projected := v.frame.projectedAt v.key
  v.clipped .replace do
    Walk.log (.projectedReached v.level v.node.name projected.length)
    projected.forM v.placeProjected

/-! ### Content -/

/-- The operation that a recorded one stands for, or the index of the link that it lacks. -/
def operation (v : Visit ω) (op : DrawOp) : Except Nat Operation :=
  match op with
  | .child i => match v.list.children[i]? with
    | some edge => .ok (.child ⟨v.key, i⟩ edge)
    | none => .error i
  | _ => .ok (.recorded op v.list)

/-- Draws what is projected to the node, if an operation is the receive point. -/
def receive (v : Visit ω) (index : Nat) : Walk ω Unit :=
  if v.list.receiveIndex = some index ∧ v.frame.projectedAt v.key ≠ [] then v.drawProjected
  else pure ()

/-- Walks a recorded operation, and what is projected to the node right after it. -/
def playOp (v : Visit ω) (offset : Int) (op : DrawOp) (index : Nat) : Walk ω Unit := do
  v.report (.opReached v.level op.name)
  modify (·.logOp v.level op.name)
  match v.operation op with
  | .error i => Walk.log (.childMissing v.node.name i)
  | .ok operation =>
    v.offer operation offset
    v.receive index

/-- Draws the node's children and operations. -/
def drawContent (v : Visit ω) : Walk ω Unit := do
  let siblings ← Walk.lift (v.frame.nodes.siblings v.key v.list)
  modify fun s => { s with held := Sibling.holdElevated siblings s.held }
  let sorted := Sibling.elevated siblings
  v.drawBelow sorted
  let offset : Int := (← Walk.saveCount) - 1
  v.list.ops.toList.zipIdx.forM fun (op, index) => v.playOp offset op index
  v.drawAbove sorted

/-- The node's bounds are certainly outside the clip, as far as it clips to them. -/
def isRejected (v : Visit ω) : Walk ω Bool :=
  return v.properties.clipToBounds && (← get).canvas.rejects v.properties.bounds

/-- Draws the node's children and operations, unless its bounds are rejected. -/
def drawUnlessRejected (v : Visit ω) : Walk ω Unit := do
  if ← v.isRejected then
    v.report (.nodeRejected v.level v.node.name)
    v.handler.reject v.level v.key v.node
  else v.drawContent

def run (v : Visit ω) : Walk ω Unit := do
  v.report (.nodeStarted v.level v.node.name (← get).canvas.clip)
  let count ← Walk.saveCount
  v.give (.save .matrixClip)
  Walk.log (.nodeSaved v.level v.node.name count)
  v.applyProperties
  v.drawUnlessRejected
  Walk.log (.nodeRestored v.level count)
  v.give (.restoreTo count)
  Walk.onCanvas (·.setLayerAlpha 1)

end Visit

/-- Walks a node and what is nested in it, in so many levels.  A node with nothing to show is only
entered and left. -/
def visit {ω : Type} (h : Handler ω) (frame : Frame) : Nat → Nat → Key → Walk ω Unit
  | 0, _, _ => throw .overflow
  | levels + 1, level, key => do
    let node ← Walk.lift (frame.nodes.node key)
    h.enter level key node
    match node.shown? with
    | some list => Visit.run ⟨h, frame, visit h frame levels, level, key, node, list⟩
    | none => Walk.log (.nothingToDraw level node.name)
    h.leave level key node

end RetainedScene
