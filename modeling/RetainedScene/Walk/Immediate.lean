import RetainedScene.Walk.Visit

/-!
# Immediate drawing

Every operation is carried out on the canvas as soon as it is handed out.  A node is marked on
the canvas by its name, from before its walk to after it.
-/

namespace RetainedScene

/-- Carries out each operation at once. -/
def Handler.immediate : Handler Unit where
  accept _ _ op offset _ s := s.onCanvas (·.issue offset op)
  enter _ _ node := Walk.onCanvas (·.startMark node.name)
  leave level _ node := do
    Walk.onCanvas (·.endMark)
    Walk.log (.nodeReplayed level node.name)

end RetainedScene
