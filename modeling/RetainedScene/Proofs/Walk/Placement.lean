import RetainedScene.Proofs.Canvas.Stack
import RetainedScene.Proofs.Walk.Agenda

/-!
# Where children are placed

The walk of a node hands out the links of its children, and those that are projected to it, each
under a transform.  `Frame.placements` is the list of these links with their transforms.  It depends
on nothing but the nodes, the routing and the transform that the node's content begins under:

* an elevated child below zero comes before the content, and is placed from where the content
  begins;
* a link in its place is handed out under what the operations before it have come to;
* what is projected to the node is placed from what the operations up to the receive point have
  come to;
* an elevated child from zero on comes after the content, and is placed from what all operations
  have come to.

`Places` says of what is seen of a walk that every node in it places its links so.  A handler
`Carries` if it carries out on the canvas what changes its states, and nothing else: immediate and
deferred drawing do.
-/

namespace RetainedScene

variable {ω : Type}

/-! ### Placements -/

/-- The link that a part hands out, with the transform in force at that moment. -/
def Part.placement? : Part → Option (EdgeRef × Matrix)
  | own (.child ref _) state _ | descent ref _ state _ => some (ref, state.snapshot.transform)
  | own .. => none

namespace Frame

/-- The links placed by a node as the receiver of what is projected to it, under a transform. -/
def receivedUnder (f : Frame) (key : Key) (transform : Matrix) : List (EdgeRef × Matrix) :=
  (f.projectedAt key).map fun ref => (ref, transform * f.compositingOf ref)

/-- The links that are handed out at a recorded operation: its own, and at the receive point those
that are projected to the node. -/
def placementsAt (f : Frame) (key : Key) (list : DisplayList) (start : Matrix) (op : DrawOp)
    (index : Nat) : List (EdgeRef × Matrix) :=
  (op.child?.map fun i => (⟨key, i⟩, list.transformAfter start index)).toList ++
    if list.receiveIndex = some index then
      f.receivedUnder key (list.transformAfter start (index + 1))
    else []

/-- The links that the walk of a node's content hands out, in order, each with the transform in
force at that moment, when the content begins under a transform. -/
def placements (f : Frame) (key : Key) (list : DisplayList) (start : Matrix) :
    List (EdgeRef × Matrix) :=
  let elevated := Sibling.byHeight (f.nodes.children key)
  let placed (transform : Matrix) (c : Sibling) := (c.ref, transform * c.edge.transform)
  (Sibling.below elevated).map (placed start) ++
    (list.ops.toList.zipIdx.flatMap fun (op, index) => f.placementsAt key list start op index) ++
    (Sibling.above elevated).map (placed (list.transformAfter start list.ops.size))

end Frame

/-- What is seen of the walk of a node at a level, begun under a transform, in which every node
hands out its links as it places them. -/
inductive Places (f : Frame) : Nat → Key → Matrix → List Sight → Prop
  | blank {level : Nat} {key : Key} {transform : Matrix} {node : Node}
    (hnode : f.nodes.get? key = some node) (hblank : node.shown? = none) :
    Places f level key transform [.entered level key, .left level key]
  /-- A node whose bounds are rejected hands out no link. -/
  | rejected {level : Nat} {key : Key} {transform : Matrix} {node : Node} {state : DisplayState}
    {before after : List Part} (hnode : f.nodes.get? key = some node)
    (hshown : node.shown?.isSome) (hrejected : node.isRejectedIn state)
    (hbefore : before.filterMap Part.placement? = [])
    (hafter : after.filterMap Part.placement? = []) :
    Places f level key transform (.entered level key :: (before.flatMap (Part.sights level key) ++
      .rejected level key state :: (after.flatMap (Part.sights level key) ++ [.left level key])))
  /-- The content of a node begins under the transforms of the node's properties, and a child that
  is descended into is begun where it was handed out. -/
  | drawn {level : Nat} {key : Key} {transform : Matrix} {node : Node} {list : DisplayList}
    {parts : List Part} (hnode : f.nodes.get? key = some node) (hlist : node.shown? = some list)
    (hparts : parts.filterMap Part.placement? =
      f.placements key list (node.properties.apply false transform))
    (hdescent : ∀ ref edge state log, .descent ref edge state log ∈ parts →
      Places f (level + 1) edge.child state.snapshot.transform log) :
    Places f level key transform
      (.entered level key :: (parts.flatMap (Part.sights level key) ++ [.left level key]))

/-! ### Handlers -/

/-- If a part of a walk comes to its end, the states of the canvas are as they were. -/
def Walk.KeepsStates (m : Walk ω Unit) : Prop :=
  ∀ s, m.Ends s (fun _ t => t.canvas.stack = s.canvas.stack) fun _ _ => True

/-- The handler carries out on the canvas what changes its states, and nothing else. -/
structure Handler.Carries (h : Handler ω) : Prop where
  accept : ∀ level key op offset clip s,
    (h.accept level key op offset clip s).canvas.stack = (s.canvas.issue offset op).stack
  enter : ∀ level key node, (h.enter level key node).KeepsStates
  reject : ∀ level key node, (h.reject level key node).KeepsStates
  leave : ∀ level key node, (h.leave level key node).KeepsStates

theorem Walk.KeepsStates.pure : (Pure.pure () : Walk ω Unit).KeepsStates := fun _ => rfl

theorem Handler.immediate_carries : Handler.immediate.Carries where
  accept _ _ _ _ _ _ := rfl
  enter _ _ _ _ := rfl
  reject _ _ _ := .pure
  leave _ _ _ _ := Walk.Ends.onCanvas_bind (Walk.Ends.log rfl fun _ => trivial)

theorem Canvas.stack_issue_of_not_changesState {op : Operation} (hop : op.changesState = false)
    (offset : Int) (c : Canvas) : (c.issue offset op).stack = c.stack := by
  rw [issue_of_not_changesState hop, stack_foldl_call]

theorem Handler.deferred_carries : Handler.deferred.Carries where
  accept _ _ op offset _ s := by
    -- what is not carried out would change no state
    have hkept (hop : ¬ op.changesState = true) :
        s.canvas.stack = (s.canvas.issue offset op).stack :=
      (Canvas.stack_issue_of_not_changesState (Bool.not_eq_true _ ▸ hop) offset _).symm
    cases op with
    | child ref edge => rfl
    | recorded op list =>
      simp only [Handler.deferred]
      split_ifs with hop <;> first | rfl | exact hkept hop
    | property op =>
      simp only [Handler.deferred]
      split_ifs with hop <;> first | rfl | exact hkept hop
  enter _ _ _ := .pure
  reject _ _ _ := .pure
  leave _ _ _ := .pure

end RetainedScene
