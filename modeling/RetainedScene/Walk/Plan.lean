import RetainedScene.Walk.Visit

/-!
# Deferred drawing

A `Plan` holds the draws of a walk for later, each with the display state that it had, and
between them the operations that change state.  Draws of one kind that follow each other share a
batch; a change of state ends the batch.

While a plan is made, changes of state are carried out on a canvas as well, so that clips and
rejects come out as in immediate drawing.  `flush` carries out the plan on another canvas, where
each draw sets the display state it was recorded with.
-/

namespace RetainedScene

inductive PlanEntry where
  | draw (op : Operation) (state : DisplayState) (clipToBounds : Bool)
  | barrier (op : Operation) (offset : Int)
  deriving DecidableEq

/-- A run of draws of one kind, by the positions of its entries. -/
structure Batch where
  kind : BatchKind
  start : Nat
  length : Nat
  deriving DecidableEq, Inhabited

structure Plan where
  entries : Array PlanEntry := #[]
  /-- The batches, the last one first. -/
  batches : List Batch := []
  /-- The last entry is a draw. -/
  isOpen : Bool := false
  deriving DecidableEq, Inhabited

namespace Plan

def isEmpty (p : Plan) : Bool := p.entries.isEmpty

/-- The draws of all batches. -/
def drawCount (p : Plan) : Nat := p.batches.foldr (fun batch count => batch.length + count) 0

/-- The batches after a draw of a kind at a position. -/
def extend (kind : BatchKind) (index : Nat) (isOpen : Bool) : List Batch → List Batch
  | batch :: rest =>
    if isOpen = true ∧ batch.kind = kind then { batch with length := batch.length + 1 } :: rest
    else ⟨kind, index, 1⟩ :: batch :: rest
  | [] => [⟨kind, index, 1⟩]

/-- Adds a draw; an operation that draws nothing of its own is left out. -/
def addDraw (p : Plan) (op : Operation) (state : DisplayState) (clipToBounds : Bool) : Plan :=
  match op.batchKind? with
  | none => p
  | some kind =>
    let index := p.entries.size
    { entries := p.entries.push (.draw op state clipToBounds)
      batches := extend kind index p.isOpen p.batches
      isOpen := true }

def addBarrier (p : Plan) (op : Operation) (offset : Int) : Plan :=
  { p with entries := p.entries.push (.barrier op offset), isOpen := false }

end Plan

namespace Canvas

/-- Carries out an entry of a plan. -/
def play (c : Canvas) : PlanEntry → Canvas
  | .draw op state _ => (c.setDisplayState state).issue 0 op
  | .barrier op offset => c.issue offset op

/-- Carries out a plan. -/
def flush (c : Canvas) (p : Plan) : Canvas := p.entries.foldl play c

end Canvas

/-- Carries out changes of state and keeps them and the draws for later. -/
def Handler.deferred : Handler Plan where
  accept _ _ op offset clipToBounds s :=
    match op with
    | .child .. => s
    | _ =>
      if op.changesState then
        (s.onCanvas (·.issue offset op)).gather (·.addBarrier op offset)
      else if op.batchKind?.isSome then
        let state := s.canvas.displayState
        s.gather (·.addDraw op state clipToBounds)
      else s.log (.notDeferred op.name)

end RetainedScene
