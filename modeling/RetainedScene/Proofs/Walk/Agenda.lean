import RetainedScene.Proofs.Scene.Projection
import RetainedScene.Proofs.Walk.Elevated
import RetainedScene.Proofs.Walk.Watched

/-!
# The order in which a node is drawn

`Frame.agenda` says, without a word of which links are held back, what is drawn of a node and in
which order: the elevated children below zero, the recorded operations with the children of height
zero at theirs and the projected links right after the receive point, and the elevated children
from zero on.  `Follows` says of what is seen of a walk that every node in it is drawn in that
order.

`Frame.Sound` is what a frame is like after it was routed below a root; it is inherited by all that
the root reaches.  `World.routed_sound` and `World.routed_settled` are what routing sees to.
-/

namespace RetainedScene

/-! ### Steps -/

/-- The node that a link leads to. -/
def NodeStore.child? (nodes : NodeStore) (ref : EdgeRef) : Option Node :=
  match nodes.edge ref with
  | .ok edge => nodes.get? edge.child
  | .error _ => none

/-- What is drawn of a node: an operation of its content, or a link. -/
inductive Step where
  | op (op : DrawOp)
  | descend (ref : EdgeRef)
  deriving DecidableEq

/-- The step draws something: links to nodes without content are left out. -/
def Step.isDrawn (nodes : NodeStore) : Step → Bool
  | op _ => true
  | descend ref => (nodes.child? ref).any Node.isDrawable

namespace Frame

/-- What a recorded operation draws by itself: a child is drawn at its operation if it does not
project and is of height zero. -/
def atOp (f : Frame) (key : Key) : DrawOp → List Step
  | .child i =>
    if (f.nodes.child? ⟨key, i⟩).any fun child =>
        !child.properties.projects && child.properties.elevation.isZero then [.descend ⟨key, i⟩]
    else []
  | op => [.op op]

/-- What is drawn after a recorded operation: at the receive point all that is projected to the
node. -/
def afterOp (f : Frame) (key : Key) (list : DisplayList) (index : Nat) : List Step :=
  if list.receiveIndex = some index then (f.projectedAt key).map .descend else []

/-- All that is drawn of a node with content, in order. -/
def agenda (f : Frame) (key : Key) (list : DisplayList) : List Step :=
  let elevated := Sibling.byHeight (f.nodes.children key)
  let below := (Sibling.below elevated).map fun c => Step.descend c.ref
  let inOrder := list.ops.toList.zipIdx.flatMap fun (op, index) =>
    f.atOp key op ++ f.afterOp key list index
  let above := (Sibling.above elevated).map fun c => Step.descend c.ref
  (below ++ inOrder ++ above).filter (Step.isDrawn f.nodes)

end Frame

/-! ### Logs -/

/-- A part of what is seen between entering and leaving a node: an operation that was only handed
out, or a child that was descended into, with what was seen of it. -/
inductive Part where
  | own (op : Operation) (state : DisplayState) (held : Bool)
  | descent (ref : EdgeRef) (edge : Edge) (state : DisplayState) (log : List Sight)

namespace Part

/-- What is seen of the part. -/
def sights (level : Nat) (key : Key) : Part → List Sight
  | own op state held => [.handed level key op state held]
  | descent ref edge state log => .handed level key (.child ref edge) state false :: log

/-- What the part draws. -/
def steps (nodes : NodeStore) : Part → List Step
  | own (.recorded op _) _ _ => [.op op]
  | own _ _ _ => []
  | descent ref _ _ _ => [Step.descend ref].filter (Step.isDrawn nodes)

/-- The part is an operation of the node's properties. -/
def isProperty : Part → Bool
  | own (.property _) _ _ => true
  | _ => false

/-- An operation of a node's properties draws nothing of its content. -/
theorem steps_of_isProperty {part : Part} (h : part.isProperty) (nodes : NodeStore) :
    part.steps nodes = [] := by
  cases part with
  | own op state held =>
    cases op with
    | property op => rfl
    | recorded op list => cases h
    | child ref edge => cases h
  | descent ref edge state log => cases h

end Part

def Operation.isChild : Operation → Bool
  | child .. => true
  | _ => false

/-- What is seen of the walk of a node at a level in which every node that is neither blank nor
rejected is drawn as its agenda says.  A child that is only handed out is one that is held back. -/
inductive Follows (f : Frame) : Nat → Key → List Sight → Prop
  /-- A node with nothing to show is entered and left. -/
  | blank {level : Nat} {key : Key} {node : Node} (hnode : f.nodes.get? key = some node)
    (hblank : node.shown? = none) : Follows f level key [.entered level key, .left level key]
  /-- A node is rejected where its bounds are outside the clip.  Then nothing but operations of its
  properties is seen. -/
  | rejected {level : Nat} {key : Key} {node : Node} {state : DisplayState}
    {before after : List Part} (hnode : f.nodes.get? key = some node) (hshown : node.shown?.isSome)
    (hrejected : node.isRejectedIn state)
    (hbefore : ∀ part ∈ before, part.isProperty) (hafter : ∀ part ∈ after, part.isProperty) :
    Follows f level key (.entered level key :: (before.flatMap (Part.sights level key) ++
      .rejected level key state :: (after.flatMap (Part.sights level key) ++ [.left level key])))
  | drawn {level : Nat} {key : Key} {node : Node} {list : DisplayList} {parts : List Part}
    (hnode : f.nodes.get? key = some node) (hlist : node.shown? = some list)
    (hown : ∀ op state held, .own op state held ∈ parts → held = op.isChild)
    (hedge : ∀ ref edge state log, .descent ref edge state log ∈ parts →
      f.nodes.Reaches key ref.parent ∧ f.nodes.edge ref = .ok edge)
    (hdescent : ∀ ref edge state log, .descent ref edge state log ∈ parts →
      Follows f (level + 1) edge.child log)
    (hsteps : parts.flatMap (Part.steps f.nodes) = f.agenda key list) :
    Follows f level key
      (.entered level key :: (parts.flatMap (Part.sights level key) ++ [.left level key]))

/-! ### Frames after routing -/

/-- A frame that was routed below a node. -/
structure Frame.Sound (f : Frame) (root : Key) : Prop where
  live : f.nodes.Live root
  acyclic : f.nodes.Acyclic root
  recorded : f.nodes.Recorded root
  /-- What is projected to a node comes from below it, projects, and has something to draw. -/
  listed : ∀ key, f.nodes.Reaches root key → ∀ ref ∈ f.projectedAt key,
    f.nodes.Reaches key ref.parent ∧ ∃ edge child, f.nodes.edge ref = .ok edge ∧
      f.nodes.get? edge.child = some child ∧ child.isDrawable ∧ child.properties.projects

/-- Below a node all links that project are held back, if they have something to draw. -/
def Frame.Settled (f : Frame) (root : Key) (held : EdgeSet) : Prop :=
  ∀ ref child, f.nodes.Reaches root ref.parent → f.nodes.child? ref = some child →
    child.isDrawable → child.properties.projects → ref ∈ held

namespace NodeStore

variable {nodes : NodeStore} {root key : Key} {ref : EdgeRef} {edge : Edge} {node : Node}

theorem child?_eq (hedge : nodes.edge ref = .ok edge) :
    nodes.child? ref = nodes.get? edge.child := by
  rw [child?, hedge]

theorem child?_eq_some_iff : nodes.child? ref = some node ↔
    ∃ edge, nodes.edge ref = .ok edge ∧ nodes.get? edge.child = some node := by
  unfold child?
  cases nodes.edge ref <;> simp

theorem properties_of_mem_children {c : Sibling} (hc : c ∈ nodes.children key)
    (hchild : nodes.child? c.ref = some node) : c.properties = node.properties := by
  obtain ⟨-, hedge, child, hget, hproperties⟩ := mem_children.mp hc
  rw [child?_eq hedge, hget] at hchild
  rw [← hproperties, Option.some.inj hchild]

/-- A node of recorded content with a link has something to draw. -/
theorem Recorded.isDrawable (hrecorded : nodes.Recorded root)
    (hreach : nodes.Reaches root ref.parent) (hedge : nodes.edge ref = .ok edge)
    (hnode : nodes.get? ref.parent = some node) :
    node.isDrawable := by
  obtain ⟨parent, list, hget, hlist, hlink⟩ := edge_eq_ok_iff.mp hedge
  obtain rfl := Option.some.inj (hnode.symm.trans hget)
  have hlinked := (hrecorded _ _ list hreach hget hlist).wellLinked
  refine Option.isSome_iff_exists.mpr ⟨list, Node.drawable?_eq_some_iff.mpr ⟨hlist, ?_⟩⟩
  rw [← Bool.not_eq_true]
  intro hempty
  rw [hlinked.children_of_isEmpty hempty] at hlink
  cases hlink

/-- In a scene of recorded contents a trail goes on to each link of its last node. -/
theorem IsTrail.down_of_recorded {above : List Link} (habove : nodes.IsTrail root above)
    (hrecorded : nodes.Recorded root) (hparent : ref.parent = Link.tip root above)
    (hedge : nodes.edge ref = .ok edge) (hnode : nodes.get? edge.child = some node) :
    nodes.IsTrail root (⟨ref, edge, node⟩ :: above) := by
  refine .down habove (fun last hlast => ?_) hparent hedge hnode
  cases habove with
  | top => cases hlast
  | @down link above habove _ hparent' hedge' hnode' =>
    obtain rfl := Option.some.inj hlast
    have hreach := habove.reaches.tail (hparent' ▸ leads_of_edge hedge')
    exact hrecorded.isDrawable (hparent ▸ hreach) hedge (hparent ▸ hnode')

theorem Recorded.exists_trail (hrecorded : nodes.Recorded root) (hlive : nodes.Live root)
    (h : nodes.Reaches root key) :
    ∃ trail, nodes.IsTrail root trail ∧ Link.tip root trail = key := by
  induction h with
  | refl => exact ⟨[], .top, rfl⟩
  | @tail a b ha hab ih =>
    obtain ⟨above, habove, rfl⟩ := ih
    obtain ⟨child, hchild⟩ := hlive _ (ha.tail hab)
    obtain ⟨ref, edge, hedge, hparent, rfl⟩ := hab
    exact ⟨_, habove.down_of_recorded hrecorded hparent hedge hchild, rfl⟩

/-- A trail leads on from each node on it. -/
theorem IsTrail.reaches_of_append {lower upper : List Link}
    (h : nodes.IsTrail root (lower ++ upper)) :
    nodes.Reaches (Link.tip root upper) (Link.tip root (lower ++ upper)) := by
  induction lower with
  | nil => exact .refl
  | cons link lower ih =>
    cases h with
    | down habove _ hparent hedge _ => exact (ih habove).tail ⟨_, _, hedge, hparent, rfl⟩

/-- A link that is sent comes from below its receiver. -/
theorem IsTrail.reaches_of_isSent {link : Link} {above : List Link}
    (h : nodes.IsTrail root (link :: above)) (hsent : Link.isSent (link :: above)) :
    nodes.Reaches (Link.receiver root (link :: above)) link.ref.parent ∧
      nodes.edge link.ref = .ok link.edge ∧ nodes.get? link.edge.child = some link.node := by
  obtain ⟨-, hprojects⟩ := Bool.and_eq_true_iff.mp hsent
  obtain ⟨lower, upper, hnearest, hreceiver, -⟩ := Link.exists_nearestReceiver root above hprojects
  have habove : above = lower ++ upper := (List.cons.inj hnearest.split.symm).2
  cases h with
  | down htrail _ hparent hedge hnode =>
    rw [hreceiver, hparent, habove]
    exact ⟨(habove ▸ htrail).reaches_of_append, hedge, hnode⟩

end NodeStore

theorem Frame.atOp_child {f : Frame} {key : Key} {i : Nat} {child : Node}
    (hchild : f.nodes.child? ⟨key, i⟩ = some child) : f.atOp key (.child i) =
      if !child.properties.projects && child.properties.elevation.isZero then [.descend ⟨key, i⟩]
      else [] := by
  simp [atOp, hchild]

theorem Frame.Sound.of_reaches {f : Frame} {root key : Key} (h : f.Sound root)
    (hkey : f.nodes.Reaches root key) : f.Sound key where
  live := h.live.of_reaches hkey
  acyclic := h.acyclic.of_reaches hkey
  recorded k node list hk := h.recorded k node list (hkey.trans hk)
  listed k hk := h.listed k (hkey.trans hk)

namespace World

variable {w : World} {root : Key}

theorem routed_sound (hlive : w.scene.nodes.Live root) (hacyclic : w.scene.nodes.Acyclic root)
    (hrecorded : w.scene.nodes.Recorded root) : (w.routed root).frame.Sound root where
  live := hlive
  acyclic := hacyclic
  recorded := hrecorded
  listed := by
    intro key hkey ref href
    have htour := w.scene.mem_tour_depthBound hlive hacyclic
    have hmem : ref ∈ ((w.scene.settled root).projectedAt key) := Array.mem_toList_iff.mp href
    rcases Routing.mem_projectedAt_foldl_settle hmem with
      ⟨hmem, hends⟩ | ⟨link, above, htrail, hsent⟩
    · obtain ⟨trail, htrail, rfl⟩ := hrecorded.exists_trail hlive hkey
      cases trail with
      | nil => simp [Link.tip, Routing.projectedAt, Routing.clearProjected] at hmem
      | cons link above =>
        exact absurd rfl (hends link above ((htour _).mpr ⟨List.cons_ne_nil _ _, htrail⟩))
    · obtain ⟨hsent, rfl, rfl⟩ := hsent
      obtain ⟨hdraws, hprojects⟩ := Bool.and_eq_true_iff.mp hsent
      obtain ⟨hparent, hedge, hnode⟩ := ((htour _).mp htrail).2.reaches_of_isSent hsent
      exact ⟨hparent, link.edge, link.node, hedge, hnode, hdraws, hprojects⟩

theorem routed_settled (hlive : w.scene.nodes.Live root) (hacyclic : w.scene.nodes.Acyclic root)
    (hrecorded : w.scene.nodes.Recorded root) :
    (w.routed root).frame.Settled root (w.routed root).scene.routing.held := by
  intro ref child hreach hchild hdraws hprojects
  obtain ⟨edge, hedge, hget⟩ := NodeStore.child?_eq_some_iff.mp hchild
  obtain ⟨above, habove, htip⟩ := hrecorded.exists_trail hlive hreach
  have htrail := habove.down_of_recorded hrecorded htip.symm hedge hget
  exact (Scene.mem_held_settled hlive hacyclic htrail hdraws).mpr hprojects

end World

end RetainedScene
