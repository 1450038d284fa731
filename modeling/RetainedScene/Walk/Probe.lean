import RetainedScene.Walk.Visit

/-!
# Observed drawing

Every operation is noted down as it is handed out, and carried out on the canvas at once.
-/

namespace RetainedScene

/-- An operation as it was handed out. -/
structure Observation where
  level : Nat
  op : Operation
  offset : Int
  clipToBounds : Bool
  /-- The save count of the canvas at that time. -/
  saveCount : Nat
  /-- For a child: its link was held back. -/
  held : Bool
  deriving DecidableEq

/-- Notes down each operation and carries it out. -/
def Handler.observed : Handler (Array Observation) where
  accept level _ op offset clipToBounds s :=
    let held := match op with
      | .child ref _ => s.held.contains ref
      | _ => false
    let seen : Observation := ⟨level, op, offset, clipToBounds, s.canvas.saveCount, held⟩
    (s.onCanvas (·.issue offset op)).gather (·.push seen)

end RetainedScene
