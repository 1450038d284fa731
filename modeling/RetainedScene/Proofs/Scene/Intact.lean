import RetainedScene.Proofs.Scene.Projection
import RetainedScene.Proofs.Walk.Agenda

/-!
# When routing goes well

Routing fails at a link whose child is gone, wherever it meets one: it goes well only if the scene
is intact below the root, that is, if the root is there and the child of every link that is reached
through nodes with something to draw (`Scene.intact_of_route`).  Where contents are recorded that
is all that the root reaches (`NodeStore.Intact.live`), so that in an acyclic scene routing goes
well exactly when the scene is intact (`World.route_isOk_iff`).
-/

namespace RetainedScene

/-- The root is there, and so is the child of every link that is reached through nodes with
something to draw. -/
structure NodeStore.Intact (nodes : NodeStore) (root : Key) : Prop where
  top : ∃ node, nodes.get? root = some node
  child : ∀ trail, nodes.IsTrail root trail → (∀ last ∈ trail.head?, last.node.isDrawable) →
    ∀ e ∈ nodes.linksOf (Link.tip root trail), ∃ node, nodes.get? e.2.child = some node

/-! ### Intact scenes are live -/

namespace NodeStore

variable {nodes : NodeStore} {root key : Key}

theorem Live.intact (h : nodes.Live root) : nodes.Intact root where
  top := h root .refl
  child _ htrail _ _ he := h _ (htrail.reaches.tail (leads_of_mem_linksOf he))

/-- Every node that is reached is at the end of a trail. -/
theorem Intact.exists_trail (h : nodes.Intact root) (hrecorded : nodes.Recorded root)
    (hkey : nodes.Reaches root key) : ∃ trail node, nodes.IsTrail root trail ∧
      Link.tip root trail = key ∧ nodes.get? key = some node ∧
      ∀ last ∈ trail.head?, last.node = node := by
  induction hkey with
  | refl =>
    obtain ⟨node, hnode⟩ := h.top
    exact ⟨[], node, .top, rfl, hnode, fun _ hlast => nomatch hlast⟩
  | @tail a b ha hab ih =>
    obtain ⟨trail, node, htrail, rfl, hnode, hlast⟩ := ih
    obtain ⟨ref, edge, hedge, hparent, rfl⟩ := hab
    -- a node with a link has something to draw
    have hdraws : node.isDrawable := hrecorded.isDrawable (hparent ▸ ha) hedge (hparent ▸ hnode)
    have hdrawable (last : Link) (hmem : last ∈ trail.head?) : last.node.isDrawable :=
      hlast last hmem ▸ hdraws
    obtain ⟨child, hchild⟩ := h.child trail htrail hdrawable (ref, edge)
      (mem_linksOf.mpr ⟨hparent, hedge⟩)
    refine ⟨⟨ref, edge, child⟩ :: trail, child, .down htrail hdrawable hparent hedge hchild, rfl,
      hchild, fun last hmem => ?_⟩
    rw [← Option.some.inj hmem]

theorem Intact.live (h : nodes.Intact root) (hrecorded : nodes.Recorded root) :
    nodes.Live root := by
  intro key hkey
  obtain ⟨-, node, -, -, hnode, -⟩ := h.exists_trail hrecorded hkey
  exact ⟨node, hnode⟩

end NodeStore

/-! ### Routing that goes well -/

theorem exists_of_foldlM_eq_ok {α β ε : Type} {f : β → α → Except ε β} {l : List α} {b b' : β}
    (h : l.foldlM f b = .ok b') {a : α} (ha : a ∈ l) : ∃ c c', f c a = .ok c' := by
  induction l generalizing b with
  | nil => cases ha
  | cons first l ih =>
    rw [List.foldlM_cons] at h
    cases hfirst : f b first with
    | error e => rw [hfirst] at h; cases h
    | ok c =>
      rw [hfirst] at h
      rcases List.mem_cons.mp ha with rfl | ha
      · exact ⟨b, c, hfirst⟩
      · exact ih h ha

namespace Scene

variable {nodes : NodeStore} {root : Key} {depth : Nat} {e : EdgeRef × Edge}

/-- The link is routed without an error, whatever is handed down to it. -/
def Routable (nodes : NodeStore) (depth : Nat) (e : EdgeRef × Edge) : Prop :=
  ∃ receiver ambient routing routed, routeEdge nodes depth e receiver ambient routing = .ok routed

/-- Where a link is routed, its child is there, and if that has something to draw the links of the
child are routed too. -/
theorem Routable.step (h : Routable nodes depth e) :
    ∃ node, nodes.get? e.2.child = some node ∧ (node.isDrawable →
      ∀ below ∈ nodes.linksOf e.2.child, ∃ depth', Routable nodes depth' below) := by
  obtain ⟨receiver, ambient, routing, routed, h⟩ := h
  obtain ⟨ref, edge⟩ := e
  cases depth with
  | zero => cases h
  | succ depth =>
    rw [routeEdge] at h
    cases hnode : nodes.get? edge.child with
    | none => simp only [hnode] at h; cases h
    | some node =>
      refine ⟨node, rfl, fun hdraws below hbelow => ⟨depth, ?_⟩⟩
      obtain ⟨list, hlist⟩ := Option.isSome_iff_exists.mp hdraws
      rw [NodeStore.linksOf_eq hnode (Node.drawable?_eq_some_iff.mp hlist).1] at hbelow
      simp only [hnode, hlist] at h
      obtain ⟨c, c', hstep⟩ := exists_of_foldlM_eq_ok h hbelow
      cases hchild : nodes.node below.2.child with
      | error e => rw [hchild] at hstep; cases hstep
      | ok child =>
        rw [hchild] at hstep
        change (if _ then _ else _ : Except Fatal Routing) = _ at hstep
        split at hstep
        · exact ⟨_, _, _, _, hstep⟩
        · exact ⟨_, _, _, _, hstep⟩

/-- Where a root is routed, it is there, and its links are routed. -/
theorem exists_of_route_eq_ok {s : Scene} {routed : Routing} (h : s.route root = .ok routed) :
    (∃ node, s.nodes.get? root = some node) ∧
      ∀ e ∈ s.nodes.linksOf root, ∃ depth, Routable s.nodes depth e := by
  unfold route at h
  cases hnode : s.nodes.get? root with
  | none => rw [hnode] at h; cases h
  | some node =>
    rw [hnode] at h
    refine ⟨⟨node, rfl⟩, fun e he => ?_⟩
    cases hcontent : node.content with
    | none => simp [NodeStore.linksOf, hnode, hcontent] at he
    | some list =>
      simp only [hcontent] at h
      rw [NodeStore.linksOf_eq hnode hcontent] at he
      obtain ⟨c, c', hstep⟩ := exists_of_foldlM_eq_ok h he
      exact ⟨s.depthBound, _, _, _, _, hstep⟩

/-- Routing goes well only where the scene is intact. -/
theorem intact_of_route {s : Scene} {routed : Routing} (h : s.route root = .ok routed) :
    s.nodes.Intact root := by
  obtain ⟨hroot, hlinks⟩ := exists_of_route_eq_ok h
  have hroutable (trail : List Link) (htrail : s.nodes.IsTrail root trail)
      (hdrawable : ∀ last ∈ trail.head?, last.node.isDrawable) (e : EdgeRef × Edge)
      (he : e ∈ s.nodes.linksOf (Link.tip root trail)) : ∃ depth, Routable s.nodes depth e := by
    induction htrail generalizing e with
    | top => exact hlinks e he
    | @down link above habove habove' hparent hedge hnode ih =>
      have hlink : (link.ref, link.edge) ∈ s.nodes.linksOf (Link.tip root above) :=
        NodeStore.mem_linksOf.mpr ⟨hparent, hedge⟩
      obtain ⟨depth, hrouted⟩ := ih habove' _ hlink
      obtain ⟨node, hget, hbelow⟩ := hrouted.step
      obtain rfl := Option.some.inj (hnode.symm.trans hget)
      exact hbelow (hdrawable link rfl) e he
  refine ⟨hroot, fun trail htrail hdrawable e he => ?_⟩
  obtain ⟨depth, hrouted⟩ := hroutable trail htrail hdrawable e he
  obtain ⟨node, hnode, -⟩ := hrouted.step
  exact ⟨node, hnode⟩

end Scene

namespace World

variable {w w' : World} {root : Key}

theorem route_eq_ok_iff : World.route root w = .ok () w' ↔
    ∃ routing, w.scene.route root = .ok routing ∧ w' = w.onScene ({ · with routing }) := by
  show EStateM.bind (World.lift (w.scene.route root)) _ w = _ ↔ _
  unfold EStateM.bind World.lift
  cases w.scene.route root with
  | error e =>
    constructor
    · intro h
      simp only [fail_apply] at h
      cases h
    · rintro ⟨routing, h, -⟩
      cases h
  | ok routing =>
    constructor
    · intro h
      cases h
      exact ⟨routing, rfl, rfl⟩
    · rintro ⟨routing', h, rfl⟩
      cases h
      rfl

/-- In an acyclic scene of recorded contents routing goes well exactly when the scene is intact. -/
theorem route_isOk_iff (hacyclic : w.scene.nodes.Acyclic root)
    (hrecorded : w.scene.nodes.Recorded root) :
    (∃ w', World.route root w = .ok () w') ↔ w.scene.nodes.Intact root := by
  constructor
  · rintro ⟨w', h⟩
    obtain ⟨routing, hroute, -⟩ := route_eq_ok_iff.mp h
    exact Scene.intact_of_route hroute
  · intro h
    exact ⟨w.routed root, World.route_eq (h.live hrecorded) hacyclic⟩

end World

end RetainedScene
