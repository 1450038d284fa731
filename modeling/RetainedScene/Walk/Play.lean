import RetainedScene.Walk.Immediate
import RetainedScene.Walk.Plan
import RetainedScene.Walk.Probe

/-!
# Drawing a scene

The ways to draw a node of a world and what is nested in it: at once (`replay`), into a plan
(`planNode`, and `plan` for a whole frame), or under observation (`observe`).  Drawing changes
nothing in a scene but which links are held back.
-/

namespace RetainedScene

namespace World

variable {ω : Type}

/-- What a walk reads of a world. -/
def frame (w : World) : Frame where
  nodes := w.scene.nodes
  projected := w.scene.routing.projected
  compositing := w.scene.routing.compositing
  reportOps := w.shared.settings.reportOps

/-- The state in which a walk begins. -/
def stage (w : World) (canvas : Canvas) (gathered : ω) : Stage ω where
  canvas
  held := w.scene.routing.held
  recent := w.shared.recent
  journal := w.shared.journal
  gathered

/-- The world after a walk. -/
def afterWalk (w : World) (s : Stage ω) : World where
  scene := { w.scene with routing := { w.scene.routing with held := s.held } }
  shared := { w.shared with recent := s.recent, journal := s.journal }

/-- Holds back a node's elevated children, as a walk of the node would.  Returns all children and
the elevated ones by height; a node without content has none to speak of. -/
def sortChildren (key : Key) : Action (Option (List Sibling × List Sibling)) := do
  let nodes := (← get).scene.nodes
  let node ← lift (nodes.node key)
  match node.content with
  | none => pure none
  | some list =>
    let siblings ← lift (nodes.siblings key list)
    modify (onScene fun s =>
      let held := Sibling.holdElevated siblings s.routing.held
      { s with routing := { s.routing with held } })
    pure (some (siblings, Sibling.elevated siblings))

/-- Carries out a walk in a world and returns the canvas and what was gathered. -/
def run (walk : Walk ω Unit) (canvas : Canvas) (start : ω) : Action (Canvas × ω) := do
  let w ← get
  match walk (w.stage canvas start) with
  | .ok _ s =>
    set (w.afterWalk s)
    pure (s.canvas, s.gathered)
  | .error fatal s =>
    set (w.afterWalk s)
    fail fatal

/-- Walks a node of a world. -/
def walk (h : Handler ω) (start : ω) (canvas : Canvas) (level : Nat) (key : Key) :
    Action (Canvas × ω) := do
  let w ← get
  run (visit h w.frame (levelCount - level) level key) canvas start

/-- Draws a node at once. -/
def replay (canvas : Canvas) (level : Nat) (key : Key) : Action Canvas :=
  (·.1) <$> walk .immediate () canvas level key

/-- Draws a node under observation. -/
def observe (canvas : Canvas) (level : Nat) (key : Key) : Action (Canvas × Array Observation) :=
  walk .observed #[] canvas level key

/-- Adds the draws of a node to an empty plan, following state on a canvas. -/
def planNode (canvas : Canvas) (level : Nat) (key : Key) : Action (Canvas × Plan) :=
  walk .deferred {} canvas level key

/-- The plan of the frame below a root. -/
def plan (canvas : Canvas) (root : Key) : Action (Canvas × Plan) := do
  let (canvas, plan) ← planNode canvas 0 root
  modify (log (.planned plan.drawCount plan.batches.length))
  pure (canvas, plan)

/-- Carries out a plan on a canvas. -/
def flush (canvas : Canvas) (plan : Plan) : Action Canvas := do
  modify (log (.flushing plan.entries.size plan.batches.length))
  pure (canvas.flush plan)

/-- Hands all operations of a node's content to a handler, draws of children as well, and then
each child: nothing of the node itself is applied. -/
def feed (h : Handler ω) (start : ω) (canvas : Canvas) (level : Nat) (key : Key)
    (list : DisplayList) (offset : Int) (clipToBounds : Bool) : Action (Canvas × ω) := do
  let w ← get
  let node : Node := ⟨"", { clipToBounds }, some list⟩
  let v : Visit ω := ⟨h, w.frame, visit h w.frame (levelCount - level), level, key, node, list⟩
  let walk : Walk ω Unit := do
    list.ops.toList.forM fun op => v.offer (.recorded op list) offset
    (list.edgesOf key).forM fun (ref, edge) => v.offer (.child ref edge) offset
  run walk canvas start

end World

end RetainedScene
