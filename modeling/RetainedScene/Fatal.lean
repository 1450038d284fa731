import RetainedScene.Node.Key

/-!
# Fatal errors

Errors after which a scene is not used any more.  Most are mistakes in the handling of nodes; the
others are limits that a number or a line of text can go beyond.
-/

namespace RetainedScene

inductive Fatal where
  /-- A node that is to be drawn or read was destroyed. -/
  | drawnAfterDestruction (key : Key)
  /-- A node that is to be changed was destroyed. -/
  | usedAfterDestruction (key : Key)
  | destroyedTwice (key : Key)
  /-- The content of a node has no link at this index. -/
  | staleEdge (edge : EdgeRef) (name : String)
  /-- Nodes are nested in each other deeper than any tree of the scene. -/
  | nestedTooDeep (key : Key)
  /-- A line was to be indented further than any line can be. -/
  | marginTooWide
  /-- A sum does not fit the word that holds it. -/
  | overflow
  /-- Room was asked for that no memory has. -/
  | capacityTooLarge
  deriving DecidableEq

namespace Fatal

def message : Fatal → String
  | drawnAfterDestruction key => s!"{key.text} is drawing after destruction"
  | usedAfterDestruction key => s!"{key.text} used after destruction"
  | destroyedTwice key => s!"double destroyed node {key.text}"
  | staleEdge edge name => s!"stale edge {edge.index} of {edge.parent.text} ({name})"
  | nestedTooDeep key => s!"{key.text} is nested too deep"
  | marginTooWide => "Formatting argument out of range"
  | overflow => "attempt to add with overflow"
  | capacityTooLarge => "capacity overflow"

/-- The error is a mistake in the handling of nodes, and not a limit. -/
def isMistake : Fatal → Bool
  | marginTooWide | overflow | capacityTooLarge => false
  | _ => true

end Fatal

end RetainedScene
