import RetainedScene.Scene.Basic

/-!
# Routing projected nodes

Before a frame is drawn, `route` sends every projecting link below a root to its receiver, which
is the nearest node above it whose content marks a receive point, or else the root.  A node that
projects and is a direct child of a receiver goes past that receiver, which would draw it where
it already is.

A routed link gets the transform from the receiver's content to the content of its own parent:
the product, from the receiver down, of each link's transform and of the properties of every node
in between.  Links to nodes without content are left alone.
-/

namespace RetainedScene

namespace Scene

/-- Routes a link and everything below it.  `receiver` takes what projects, and `ambient` is the
transform from its content to the content of the link's parent. -/
def routeEdge (nodes : NodeStore) :
    Nat → EdgeRef × Edge → Key → Matrix → Routing → Except Fatal Routing
  | 0, (_, edge), _, _, _ => .error (.nestedTooDeep edge.child)
  | depth + 1, (ref, edge), receiver, ambient, routing =>
    match nodes.get? edge.child with
    | none => .error (.usedAfterDestruction edge.child)
    | some node =>
      let routing := routing.clearProjected edge.child
      match node.drawable? with
      | none => .ok routing
      | some list =>
        let transform := ambient * edge.transform
        let routing :=
          if node.properties.projects then routing.project ref receiver transform
          else routing.drawInPlace ref
        let inner := node.properties.apply false transform
        (list.edgesOf edge.child).foldlM (fun routing below => do
          let child ← nodes.node below.2.child
          if node.isReceiver && !child.properties.projects then
            routeEdge nodes depth below edge.child .identity routing
          else routeEdge nodes depth below receiver inner routing) routing

/-- Nodes cannot be nested deeper than there are nodes. -/
def depthBound (s : Scene) : Nat := s.nodes.slots.size + 1

/-- The routing of the frame below a root. -/
def route (s : Scene) (root : Key) : Except Fatal Routing :=
  match s.nodes.get? root with
  | none => .error (.usedAfterDestruction root)
  | some node =>
    let routing := s.routing.clearProjected root
    match node.content with
    | none => .ok routing
    | some list => (list.edgesOf root).foldlM
        (fun routing below => routeEdge s.nodes s.depthBound below root .identity routing) routing

end Scene

/-- Routes the frame below a root. -/
def World.route (root : Key) : Action Unit := do
  let routing ← World.lift ((← get).scene.route root)
  modify (World.onScene ({ · with routing }))

end RetainedScene
