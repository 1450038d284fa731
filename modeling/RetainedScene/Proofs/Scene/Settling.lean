import Mathlib.Data.List.Induction
import Mathlib.Tactic.SplitIfs
import RetainedScene.Proofs.Scene.Tour
import RetainedScene.Scene.Routing

/-!
# Routing along a tour

Routing a scene settles the links at the ends of its trails, in the order of the tour
(`Scene.route_eq`): `Routing.settle` clears what is projected to the node there, and if there is
something to draw sends the link to its receiver or has it drawn in place.  `Link.carry` is what
the routing hands down a trail.

With that the routing of an acyclic scene never fails, and what it leaves is read off the tour: a
link that is settled is held back exactly when its node projects (`held_foldl_settle`), and what is
projected to a node was either projected to it before or is sent to it on the tour
(`mem_projectedAt_foldl_settle`).
-/

namespace RetainedScene

/-- What takes a link that goes on from a trail, by whether the link's node projects, and the
transform from its content to the content of the node that the trail ends in. -/
def Link.carry (root : Key) : List Link → Bool → Key × Matrix
  | [], _ => (root, .identity)
  | link :: above, projects =>
    if link.node.isReceiver && !projects then (link.edge.child, .identity)
    else
      let outer := carry root above link.node.properties.projects
      (outer.1, link.node.properties.apply false (outer.2 * link.edge.transform))

/-- The link at the end of the trail goes to a receiver. -/
def Link.isSent : List Link → Bool
  | [] => false
  | link :: _ => link.node.isDrawable && link.node.properties.projects

/-- The receiver of the link at the end of a trail, if it is sent to one. -/
def Link.receiver (root : Key) : List Link → Key
  | [] => root
  | _ :: above => (carry root above true).1

/-- Routes the link at the end of a trail. -/
def Routing.settle (root : Key) (routing : Routing) : List Link → Routing
  | [] => routing
  | link :: above =>
    let routing := routing.clearProjected link.edge.child
    if link.node.isDrawable then
      if link.node.properties.projects then
        let outer := Link.carry root above true
        routing.project link.ref outer.1 (outer.2 * link.edge.transform)
      else routing.drawInPlace link.ref
    else routing

/-! ### Following the tour -/

theorem foldlM_eq_ok {α β ε : Type} {f : β → α → Except ε β} {g : β → α → β} {l : List α}
    (h : ∀ b, ∀ a ∈ l, f b a = .ok (g b a)) (b : β) : l.foldlM f b = .ok (l.foldl g b) := by
  induction l generalizing b with
  | nil => rfl
  | cons a l ih =>
    rw [List.foldlM_cons, h b a List.mem_cons_self]
    exact ih (fun b a' ha' => h b a' (List.mem_cons_of_mem _ ha')) _

namespace Scene

variable {nodes : NodeStore} {root : Key} {depth : Nat} {above : List Link} {node : Node}
  {e : EdgeRef × Edge}

/-- One level of routing: the link is settled, and what is below it is handed what the trail
carries. -/
theorem routeEdge_succ (hnode : nodes.get? e.2.child = some node) (routing : Routing) :
    routeEdge nodes (depth + 1) e (Link.carry root above node.properties.projects).1
        (Link.carry root above node.properties.projects).2 routing
      = if node.isDrawable then
          (nodes.linksOf e.2.child).foldlM (fun routing below => do
            let child ← nodes.node below.2.child
            let carried :=
              Link.carry root (⟨e.1, e.2, node⟩ :: above) child.properties.projects
            routeEdge nodes depth below carried.1 carried.2 routing)
            (routing.settle root (⟨e.1, e.2, node⟩ :: above))
        else .ok (routing.settle root (⟨e.1, e.2, node⟩ :: above)) := by
  obtain ⟨ref, edge⟩ := e
  simp only at hnode ⊢
  rw [routeEdge]
  simp only [hnode]
  cases hlist : node.drawable? with
  | none =>
    have hdraws : node.isDrawable = false := by simp [Node.isDrawable, hlist]
    simp [Routing.settle, hdraws]
  | some list =>
    have hdraws : node.isDrawable = true := by simp [Node.isDrawable, hlist]
    rw [if_pos hdraws, NodeStore.linksOf_eq hnode (Node.drawable?_eq_some_iff.mp hlist).1]
    dsimp only
    congr 1
    · funext routing below
      congr 1
      funext child
      rw [Link.carry]
      split <;> rfl
    · simp only [Routing.settle, hdraws, if_true]
      cases node.properties.projects <;> simp only [if_true, Bool.false_eq_true, if_false]

/-- Routing a link and all below it settles the trails that begin with it. -/
theorem routeEdge_eq (above : List Link) (hlive : nodes.Live root) (hacyclic : nodes.Acyclic root)
    (hreach : nodes.Reaches root e.2.child) (hdepth : nodes.height e.2.child < depth)
    (hnode : nodes.get? e.2.child = some node) (routing : Routing) :
    routeEdge nodes depth e (Link.carry root above node.properties.projects).1
        (Link.carry root above node.properties.projects).2 routing
      = .ok ((nodes.tourFrom depth above e).foldl (Routing.settle root) routing) := by
  induction depth generalizing above e node routing with
  | zero => omega
  | succ depth ih =>
    rw [routeEdge_succ hnode, NodeStore.tourFrom_eq hnode, List.foldl_cons]
    cases node.isDrawable with
    | false => rfl
    | true =>
      rw [if_pos rfl, if_pos rfl, List.foldl_flatMap]
      refine foldlM_eq_ok (fun routing below hbelow => ?_) _
      obtain ⟨hreach', hlt, child, hchild⟩ :=
        NodeStore.exists_child hlive hacyclic hreach hbelow
      rw [NodeStore.node_eq_ok_iff.mpr hchild]
      exact ih _ hreach' (by omega) hchild routing

/-- The routing that settles the trails of a tour below a root. -/
def settled (s : Scene) (root : Key) : Routing :=
  (s.nodes.tour s.depthBound root).foldl (Routing.settle root) (s.routing.clearProjected root)

/-- In an acyclic scene routing does not fail, and settles the trails of the tour. -/
theorem route_eq {s : Scene} (hlive : s.nodes.Live root) (hacyclic : s.nodes.Acyclic root) :
    s.route root = .ok (s.settled root) := by
  obtain ⟨top, htop⟩ := hlive root .refl
  unfold route settled NodeStore.tour
  rw [htop]
  cases hcontent : top.content with
  | none =>
    have hlinks : s.nodes.linksOf root = [] := by simp [NodeStore.linksOf, htop, hcontent]
    rw [hlinks]
    simp only [hcontent]
    rfl
  | some list =>
    rw [NodeStore.linksOf_eq htop hcontent, List.foldl_flatMap]
    simp only [hcontent]
    refine foldlM_eq_ok (fun routing e he => ?_) _
    rw [← NodeStore.linksOf_eq htop hcontent] at he
    obtain ⟨hreach, hlt, node, hnode⟩ := NodeStore.exists_child hlive hacyclic .refl he
    have hroom := NodeStore.height_lt_size hlive hacyclic
    exact routeEdge_eq [] hlive hacyclic hreach
      (by unfold depthBound; omega) hnode routing

theorem mem_tour_depthBound {s : Scene} (hlive : s.nodes.Live root)
    (hacyclic : s.nodes.Acyclic root) (trail : List Link) :
    trail ∈ s.nodes.tour s.depthBound root ↔ trail ≠ [] ∧ s.nodes.IsTrail root trail := by
  have hroom := NodeStore.height_lt_size hlive hacyclic
  exact NodeStore.mem_tour hlive hacyclic (by unfold depthBound; omega)

end Scene

/-- The world after its frame below a root was routed. -/
def World.routed (w : World) (root : Key) : World :=
  w.onScene fun s => { s with routing := s.settled root }

theorem World.route_eq {w : World} {root : Key} (hlive : w.scene.nodes.Live root)
    (hacyclic : w.scene.nodes.Acyclic root) : World.route root w = .ok () (w.routed root) := by
  show EStateM.bind (World.lift (w.scene.route root)) _ w = _
  rw [Scene.route_eq hlive hacyclic]
  rfl

/-! ### What settling leaves -/

namespace Routing

variable {root key : Key} {r : Routing} {link : Link} {above : List Link} {e : EdgeRef}

theorem mem_held_settle (hdraws : link.node.isDrawable) :
    e ∈ (r.settle root (link :: above)).held ↔
      if e = link.ref then link.node.properties.projects = true else e ∈ r.held := by
  simp only [settle, if_pos hdraws]
  by_cases he : e = link.ref
  · cases link.node.properties.projects <;> simp [project, drawInPlace, he]
  · cases link.node.properties.projects <;>
      simp [project, drawInPlace, clearProjected, he, Ne.symm he]

theorem held_settle_of_not_isDrawable (hdraws : ¬ link.node.isDrawable) :
    (r.settle root (link :: above)).held = r.held := by
  simp only [settle, if_neg hdraws]
  rfl

theorem getElem?_clearProjected (r : Routing) (key other : Key) :
    (r.clearProjected other).projected[key]? =
      if key = other then none else r.projected[key]? := by
  unfold clearProjected
  rw [Std.ExtTreeMap.getElem?_erase]
  simp only [Key.order_eq_eq_iff, @eq_comm _ key]

/-- Settling a link clears what is projected to its node, and puts a link that is sent at the end
of the receiver's list. -/
theorem getElem?_projected_settle (r : Routing) (key : Key) :
    (r.settle root (link :: above)).projected[key]? =
      let cleared := if key = link.edge.child then none else r.projected[key]?
      if Link.isSent (link :: above) ∧ Link.receiver root (link :: above) = key then
        some ((cleared.getD #[]).push link.ref)
      else cleared := by
  have hcleared := getElem?_clearProjected r key link.edge.child
  have hproject (receiver : Key) (m : Matrix) (r : Routing) :
      (r.project link.ref receiver m).projected[key]? =
        if receiver = key then some ((r.projected[key]?.getD #[]).push link.ref)
        else r.projected[key]? := by
    unfold project projectedAt
    rw [Std.ExtTreeMap.getElem?_insert, Std.ExtTreeMap.getD_eq_getD_getElem?]
    simp only [Key.order_eq_eq_iff]
    split
    · next h => rw [h]
    · rfl
  unfold settle
  simp only [Link.isSent, Link.receiver, Bool.and_eq_true]
  cases link.node.isDrawable with
  | false => simpa using hcleared
  | true =>
    cases link.node.properties.projects with
    | false => simpa [drawInPlace] using hcleared
    | true => simp [hproject, hcleared]

theorem getElem?_compositing_settle (r : Routing) (edge : EdgeRef) :
    (r.settle root (link :: above)).compositing[edge]? =
      if Link.isSent (link :: above) ∧ link.ref = edge then
        some ((Link.carry root above true).2 * link.edge.transform)
      else r.compositing[edge]? := by
  unfold settle
  simp only [Link.isSent, Bool.and_eq_true]
  cases link.node.isDrawable with
  | false => simp [clearProjected]
  | true =>
    cases link.node.properties.projects with
    | false => simp [clearProjected, drawInPlace]
    | true => simp [clearProjected, project, Std.ExtTreeMap.getElem?_insert]

theorem projectedAt_settle (key : Key) : (r.settle root (link :: above)).projectedAt key =
    let cleared := if key = link.edge.child then #[] else r.projectedAt key
    if Link.isSent (link :: above) ∧ Link.receiver root (link :: above) = key then
      cleared.push link.ref
    else cleared := by
  unfold projectedAt
  simp only [Std.ExtTreeMap.getD_eq_getD_getElem?, getElem?_projected_settle]
  split_ifs <;> rfl

theorem mem_projectedAt_settle (h : e ∈ (r.settle root (link :: above)).projectedAt key) :
    e ∈ r.projectedAt key ∧ link.edge.child ≠ key ∨
      Link.isSent (link :: above) ∧ Link.receiver root (link :: above) = key ∧ link.ref = e := by
  have hcleared (h : e ∈ if key = link.edge.child then #[] else r.projectedAt key) :
      e ∈ r.projectedAt key ∧ link.edge.child ≠ key := by
    split at h
    · simp at h
    · next hkey => exact ⟨h, Ne.symm hkey⟩
  rw [projectedAt_settle] at h
  by_cases hsent : Link.isSent (link :: above) ∧ Link.receiver root (link :: above) = key
  · rw [if_pos hsent, Array.mem_push] at h
    rcases h with h | rfl
    · exact .inl (hcleared h)
    · exact .inr ⟨hsent.1, hsent.2, rfl⟩
  · rw [if_neg hsent] at h
    exact .inl (hcleared h)

theorem compositingOf_settle (e : EdgeRef) : (r.settle root (link :: above)).compositingOf e =
    if Link.isSent (link :: above) ∧ link.ref = e then
      (Link.carry root above true).2 * link.edge.transform
    else r.compositingOf e := by
  unfold compositingOf
  rw [Std.ExtTreeMap.getD_eq_getD_getElem?, getElem?_compositing_settle]
  split_ifs
  · rfl
  · exact Std.ExtTreeMap.getD_eq_getD_getElem?.symm

/-! #### A list of trails -/

variable {trails : List (List Link)}

/-- A link that is settled is held back exactly when it projects. -/
theorem mem_held_foldl_settle (hmem : link :: above ∈ trails) (hdraws : link.node.isDrawable)
    (hsame : ∀ other rest, other :: rest ∈ trails → other.ref = link.ref →
      other.node = link.node) :
    link.ref ∈ (trails.foldl (settle root) r).held ↔ link.node.properties.projects := by
  induction trails using List.reverseRecOn with
  | nil => cases hmem
  | append_singleton trails trail ih =>
    rw [List.foldl_append, List.foldl_cons, List.foldl_nil]
    have hsame' (other : Link) (rest : List Link) (h : other :: rest ∈ trails) :=
      hsame other rest (List.mem_append_left _ h)
    cases trail with
    | nil =>
      refine ih ?_ hsame'
      simpa using hmem
    | cons last rest =>
      -- the last trail that ends in the link decides
      by_cases hlast : last.ref = link.ref
      · have hnode : last.node = link.node :=
          hsame last rest (List.mem_append_right _ List.mem_cons_self) hlast
        rw [mem_held_settle (hnode ▸ hdraws), if_pos hlast.symm, hnode]
      · have hmem' : link :: above ∈ trails := by
          rcases List.mem_append.mp hmem with h | h
          · exact h
          · cases List.mem_singleton.mp h
            exact absurd rfl hlast
        by_cases hdraws' : last.node.isDrawable = true
        · rw [mem_held_settle hdraws', if_neg (Ne.symm hlast)]
          exact ih hmem' hsame'
        · rw [held_settle_of_not_isDrawable hdraws']
          exact ih hmem' hsame'

/-- What is projected to a node either was so before, and no trail ends in the node, or it is sent
there. -/
theorem mem_projectedAt_foldl_settle
    (h : e ∈ (trails.foldl (settle root) r).projectedAt key) :
    (e ∈ r.projectedAt key ∧ ∀ link above, link :: above ∈ trails → link.edge.child ≠ key) ∨
      ∃ link above, link :: above ∈ trails ∧ Link.isSent (link :: above) ∧
        Link.receiver root (link :: above) = key ∧ link.ref = e := by
  induction trails generalizing r with
  | nil => exact .inl ⟨h, fun _ _ h => nomatch h⟩
  | cons trail trails ih =>
    rcases ih h with ⟨he, hends⟩ | ⟨link, above, hmem, hsent⟩
    · cases trail with
      -- the empty trail settles nothing
      | nil => exact .inl ⟨he, fun link above hmem => hends link above (by simpa using hmem)⟩
      | cons link above =>
        rcases mem_projectedAt_settle he with ⟨he, hkey⟩ | hsent
        · refine .inl ⟨he, fun other rest hmem => ?_⟩
          rcases List.mem_cons.mp hmem with heq | hmem
          · rw [(List.cons.inj heq).1]
            exact hkey
          · exact hends other rest hmem
        · exact .inr ⟨link, above, List.mem_cons_self, hsent⟩
    · exact .inr ⟨link, above, List.mem_cons_of_mem _ hmem, hsent⟩

end Routing

end RetainedScene
