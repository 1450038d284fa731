import RetainedScene.Proofs.Scene.Projection

/-!
# Routing over what is left of earlier frames

A routing has a `Place` for what is projected to each node, for the transform of each link, and for
whether the link is held back.  Routing a frame writes the places that the frame reaches
(`Routing.Place.IsReached`), and whatever stood there before is lost, because of all trails that
write a place it is the last one that counts (`Routing.same_foldl_settle`).  The other places are
left alone.

So in an acyclic scene the routing of a frame is the same whatever was routed, drawn or recorded
before, and routing a frame again changes nothing (`World.route_forgets`).
-/

namespace RetainedScene

namespace Routing

/-- A place in a routing. -/
inductive Place where
  /-- What is projected to a node. -/
  | projected (key : Key)
  /-- The transform of a link. -/
  | compositing (edge : EdgeRef)
  /-- Whether a link is held back. -/
  | held (edge : EdgeRef)

/-- Two routings are the same at a place. -/
def Same (r r' : Routing) : Place → Prop
  | .projected key => r.projected[key]? = r'.projected[key]?
  | .compositing edge => r.compositing[edge]? = r'.compositing[edge]?
  | .held edge => edge ∈ r.held ↔ edge ∈ r'.held

/-- The link at the end of a trail writes the place anew. -/
def Place.IsWritten : Place → List Link → Prop
  | _, [] => False
  | projected key, link :: _ => link.edge.child = key
  | compositing edge, link :: above => Link.isSent (link :: above) ∧ link.ref = edge
  | held edge, link :: _ => link.node.isDrawable ∧ link.ref = edge

/-- The frame below a root reaches the place: the node is the root or is reached through nodes with
something to draw, or the link is and has something to draw, and for a transform projects. -/
def Place.IsReached (nodes : NodeStore) (root : Key) : Place → Prop
  | projected key => ∃ trail, nodes.IsTrail root trail ∧ Link.tip root trail = key
  | compositing edge => ∃ link above, nodes.IsTrail root (link :: above) ∧ link.ref = edge ∧
    link.node.isDrawable ∧ link.node.properties.projects
  | held edge => ∃ link above, nodes.IsTrail root (link :: above) ∧ link.ref = edge ∧
    link.node.isDrawable

variable {r r' r'' : Routing} {root : Key} {place : Place} {link : Link} {above trail : List Link}
  {trails : List (List Link)}

theorem Same.refl (r : Routing) (place : Place) : r.Same r place := by
  cases place with
  | projected key => exact Eq.refl _
  | compositing edge => exact Eq.refl _
  | held edge => exact Iff.rfl

theorem Same.symm (h : r.Same r' place) : r'.Same r place := by
  cases place with
  | projected key => exact Eq.symm h
  | compositing edge => exact Eq.symm h
  | held edge => exact Iff.symm h

theorem Same.trans (h : r.Same r' place) (h' : r'.Same r'' place) : r.Same r'' place := by
  cases place with
  | projected key => exact Eq.trans h h'
  | compositing edge => exact Eq.trans h h'
  | held edge => exact Iff.trans h h'

/-- A routing is what it is at its places. -/
theorem eq_of_same (h : ∀ place, r.Same r' place) : r = r' := by
  have hprojected : r.projected = r'.projected :=
    Std.ExtTreeMap.ext_getElem? fun key => h (.projected key)
  have hcompositing : r.compositing = r'.compositing :=
    Std.ExtTreeMap.ext_getElem? fun edge => h (.compositing edge)
  have hheld : r.held = r'.held := Std.ExtTreeSet.ext_mem fun edge => h (.held edge)
  cases r
  cases r'
  subst hprojected hcompositing hheld
  rfl

/-! ### What trails write -/

/-- What a trail leaves at a place is the same wherever that place was the same before. -/
theorem Same.settle (h : r.Same r' place) (root : Key) (trail : List Link) :
    (r.settle root trail).Same (r'.settle root trail) place := by
  cases trail with
  | nil => exact h
  | cons link above =>
    cases place with
    | projected key =>
      have h : r.projected[key]? = r'.projected[key]? := h
      show (r.settle root _).projected[key]? = (r'.settle root _).projected[key]?
      rw [getElem?_projected_settle, getElem?_projected_settle, h]
    | compositing edge =>
      have h : r.compositing[edge]? = r'.compositing[edge]? := h
      show (r.settle root _).compositing[edge]? = (r'.settle root _).compositing[edge]?
      rw [getElem?_compositing_settle, getElem?_compositing_settle, h]
    | held edge =>
      have h : edge ∈ r.held ↔ edge ∈ r'.held := h
      show edge ∈ (r.settle root _).held ↔ edge ∈ (r'.settle root _).held
      by_cases hdraws : link.node.isDrawable
      · rw [mem_held_settle hdraws, mem_held_settle hdraws, h]
      · rw [held_settle_of_not_isDrawable hdraws, held_settle_of_not_isDrawable hdraws, h]

/-- What a trail leaves at a place that it writes does not depend on what was there. -/
theorem same_settle (h : place.IsWritten trail) (r r' : Routing) (root : Key) :
    (r.settle root trail).Same (r'.settle root trail) place := by
  cases trail with
  | nil => cases place <;> cases h
  | cons link above =>
    cases place with
    | projected key =>
      have h : link.edge.child = key := h
      show (r.settle root _).projected[key]? = (r'.settle root _).projected[key]?
      rw [getElem?_projected_settle, getElem?_projected_settle]
      simp only [if_pos h.symm]
    | compositing edge =>
      have h : Link.isSent (link :: above) ∧ link.ref = edge := h
      show (r.settle root _).compositing[edge]? = (r'.settle root _).compositing[edge]?
      rw [getElem?_compositing_settle, getElem?_compositing_settle, if_pos h, if_pos h]
    | held edge =>
      show edge ∈ (r.settle root _).held ↔ edge ∈ (r'.settle root _).held
      rw [mem_held_settle h.1, mem_held_settle h.1, if_pos h.2.symm, if_pos h.2.symm]

/-- What trails leave at a place is the same if it was so before, or if one of them writes it. -/
theorem same_foldl_settle (h : r.Same r' place ∨ ∃ trail ∈ trails, place.IsWritten trail) :
    (trails.foldl (settle root) r).Same (trails.foldl (settle root) r') place := by
  induction trails generalizing r r' with
  | nil => exact h.resolve_right fun ⟨_, hmem, _⟩ => nomatch hmem
  | cons trail trails ih =>
    refine ih ?_
    rcases h with hsame | ⟨other, hmem, hwritten⟩
    · exact .inl (hsame.settle root trail)
    · rcases List.mem_cons.mp hmem with rfl | hlater
      · exact .inl (same_settle hwritten r r' root)
      · exact .inr ⟨other, hlater, hwritten⟩

/-- A place that no trail writes is left alone, unless it is that of a node that one is sent to. -/
theorem same_foldl_settle_self (hwritten : ∀ trail ∈ trails, ¬ place.IsWritten trail)
    (hreceiver : ∀ trail ∈ trails, Link.isSent trail →
      place ≠ .projected (Link.receiver root trail)) (r : Routing) :
    r.Same (trails.foldl (settle root) r) place := by
  induction trails generalizing r with
  | nil => exact .refl r place
  | cons trail trails ih =>
    have hfirst : r.Same (r.settle root trail) place := by
      have hnot := hwritten trail List.mem_cons_self
      have hsent := hreceiver trail List.mem_cons_self
      cases trail with
      | nil => exact .refl r place
      | cons link above =>
        cases place with
        | projected key =>
          have hchild : key ≠ link.edge.child := fun h => hnot h.symm
          show r.projected[key]? = (r.settle root _).projected[key]?
          rw [getElem?_projected_settle]
          simp only [if_neg hchild]
          rw [if_neg fun h => hsent h.1 (congrArg Place.projected h.2.symm)]
        | compositing edge =>
          have hnot : ¬ (Link.isSent (link :: above) ∧ link.ref = edge) := hnot
          show r.compositing[edge]? = (r.settle root _).compositing[edge]?
          rw [getElem?_compositing_settle, if_neg hnot]
        | held edge =>
          show edge ∈ r.held ↔ edge ∈ (r.settle root _).held
          by_cases hdraws : link.node.isDrawable
          · have hedge : edge ≠ link.ref := fun h => hnot ⟨hdraws, h.symm⟩
            rw [mem_held_settle hdraws, if_neg hedge]
          · rw [held_settle_of_not_isDrawable hdraws]
    exact hfirst.trans (ih (fun t ht => hwritten t (List.mem_cons_of_mem _ ht))
      (fun t ht => hreceiver t (List.mem_cons_of_mem _ ht)) _)

end Routing

/-! ### What a frame reaches -/

namespace Routing.Place

variable {nodes : NodeStore} {root : Key} {place : Place} {link : Link} {above trail : List Link}

/-- What a trail of the frame writes is reached. -/
theorem isReached_of_isWritten (h : place.IsWritten trail) (htrail : nodes.IsTrail root trail) :
    place.IsReached nodes root := by
  cases trail with
  | nil => cases place <;> cases h
  | cons link above =>
    cases place with
    | projected key => exact ⟨link :: above, htrail, h⟩
    | compositing edge =>
      obtain ⟨hdraws, hprojects⟩ := Bool.and_eq_true_iff.mp h.1
      exact ⟨link, above, htrail, h.2, hdraws, hprojects⟩
    | held edge => exact ⟨link, above, htrail, h.2, h.1⟩

/-- The receiver of a link that is sent is reached. -/
theorem isReached_receiver (htrail : nodes.IsTrail root trail) (hsent : Link.isSent trail) :
    (projected (Link.receiver root trail)).IsReached nodes root := by
  cases trail with
  | nil => cases hsent
  | cons link above =>
    have hprojects := (Bool.and_eq_true_iff.mp hsent).2
    obtain ⟨lower, upper, hnearest, hreceiver, -⟩ :=
      Link.exists_nearestReceiver root above hprojects
    have hupper : nodes.IsTrail root upper :=
      (hnearest.split ▸ htrail : nodes.IsTrail root (_ ++ upper)).of_append
    exact ⟨upper, hupper, hreceiver.symm⟩

end Routing.Place

namespace Scene

variable {s s' : Scene} {root : Key} {place : Routing.Place}

theorem isWritten_of_isReached (hlive : s.nodes.Live root) (hacyclic : s.nodes.Acyclic root)
    (h : place.IsReached s.nodes root) : place = .projected root ∨
      ∃ trail ∈ s.nodes.tour s.depthBound root, place.IsWritten trail := by
  have hmem {link : Link} {above : List Link} (htrail : s.nodes.IsTrail root (link :: above)) :
      link :: above ∈ s.nodes.tour s.depthBound root :=
    (s.mem_tour_depthBound hlive hacyclic _).mpr ⟨List.cons_ne_nil _ _, htrail⟩
  cases place with
  | projected key =>
    obtain ⟨trail, htrail, rfl⟩ := h
    cases trail with
    | nil => exact .inl rfl
    | cons link above => exact .inr ⟨_, hmem htrail, rfl⟩
  | compositing edge =>
    obtain ⟨link, above, htrail, hedge, hdraws, hprojects⟩ := h
    exact .inr ⟨_, hmem htrail, Bool.and_eq_true_iff.mpr ⟨hdraws, hprojects⟩, hedge⟩
  | held edge =>
    obtain ⟨link, above, htrail, hedge, hdraws⟩ := h
    exact .inr ⟨_, hmem htrail, hdraws, hedge⟩

/-- Routing leaves the same at every place that the frame reaches, whatever stood there. -/
theorem same_settled (hnodes : s'.nodes = s.nodes) (hlive : s.nodes.Live root)
    (hacyclic : s.nodes.Acyclic root) (h : place.IsReached s.nodes root) :
    (s.settled root).Same (s'.settled root) place := by
  unfold settled depthBound
  rw [hnodes]
  refine Routing.same_foldl_settle ?_
  rcases isWritten_of_isReached hlive hacyclic h with rfl | hwritten
  · refine .inl ?_
    show (s.routing.clearProjected root).projected[root]? =
      (s'.routing.clearProjected root).projected[root]?
    rw [Routing.getElem?_clearProjected, Routing.getElem?_clearProjected, if_pos rfl, if_pos rfl]
  · exact .inr hwritten

/-- Routing leaves alone what the frame does not reach. -/
theorem same_settled_self (s : Scene) (h : ¬ place.IsReached s.nodes root) :
    s.routing.Same (s.settled root) place := by
  have hcleared : s.routing.Same (s.routing.clearProjected root) place := by
    cases place with
    | projected key =>
      have hroot : key ≠ root := by
        rintro rfl
        exact h ⟨[], .top, rfl⟩
      show s.routing.projected[key]? = (s.routing.clearProjected root).projected[key]?
      rw [Routing.getElem?_clearProjected, if_neg hroot]
    | compositing edge => exact Eq.refl _
    | held edge => exact Iff.rfl
  refine hcleared.trans (Routing.same_foldl_settle_self (fun trail hmem hwritten => ?_)
    (fun trail hmem hsent => ?_) _)
  · exact h (Routing.Place.isReached_of_isWritten hwritten (NodeStore.isTrail_of_mem_tour hmem).2)
  · rintro rfl
    exact h (Routing.Place.isReached_receiver (NodeStore.isTrail_of_mem_tour hmem).2 hsent)

/-- Routing a frame that is routed changes nothing. -/
theorem settled_settled (hlive : s.nodes.Live root) (hacyclic : s.nodes.Acyclic root) :
    { s with routing := s.settled root }.settled root = s.settled root := by
  apply Routing.eq_of_same
  intro place
  by_cases hreached : place.IsReached s.nodes root
  · exact same_settled (s := { s with routing := s.settled root }) rfl hlive hacyclic hreached
  · exact (same_settled_self { s with routing := s.settled root } hreached).symm

end Scene

/-- In an acyclic scene routing the frame below a root leaves the same at every place that the frame
reaches, whatever was left there by earlier frames, draws and recordings.  It changes nothing else,
and done again it changes nothing. -/
theorem World.route_forgets {w w' : World} {root : Key} (hlive : w.scene.nodes.Live root)
    (hacyclic : w.scene.nodes.Acyclic root) (hnodes : w'.scene.nodes = w.scene.nodes) :
    ∃ routing routing',
      World.route root w = .ok () (w.onScene ({ · with routing })) ∧
      World.route root w' = .ok () (w'.onScene ({ · with routing := routing' })) ∧
      (∀ place : Routing.Place, place.IsReached w.scene.nodes root →
        routing.Same routing' place) ∧
      (∀ place : Routing.Place, ¬ place.IsReached w.scene.nodes root →
        w.scene.routing.Same routing place) ∧
      World.route root (w.onScene ({ · with routing })) =
        .ok () (w.onScene ({ · with routing })) := by
  have hroute : World.route root w = .ok () (w.routed root) := route_eq hlive hacyclic
  have hroute' : World.route root w' = .ok () (w'.routed root) :=
    route_eq (hnodes.symm ▸ hlive) (hnodes.symm ▸ hacyclic)
  refine ⟨w.scene.settled root, w'.scene.settled root, hroute, hroute', ?_, ?_, ?_⟩
  · intro place hplace
    exact Scene.same_settled hnodes hlive hacyclic hplace
  · intro place hplace
    exact Scene.same_settled_self w.scene hplace
  · have hagain : World.route root (w.routed root) = .ok () ((w.routed root).routed root) :=
      route_eq hlive hacyclic
    have hsame : (w.routed root).scene.settled root = w.scene.settled root :=
      Scene.settled_settled hlive hacyclic
    change World.route root (w.routed root) = .ok () (w.routed root)
    rw [hagain]
    unfold World.routed at hsame ⊢
    simp only [World.onScene] at hsame ⊢
    rw [hsame]

namespace Ripple

/-- An earlier frame has left the ripple to the card, to be drawn in place. -/
def stale : World where
  scene := { nodes, routing := { projected := (∅ : KeyMap _).insert card #[rippleLink.ref] } }

theorem route_forgets_card : ∃ routing routing',
    World.route list world = .ok () (world.onScene ({ · with routing })) ∧
      World.route list stale = .ok () (stale.onScene ({ · with routing := routing' })) ∧
      routing.projected[card]? = routing'.projected[card]? ∧
      (rippleLink.ref ∈ routing.held ↔ rippleLink.ref ∈ routing'.held) := by
  obtain ⟨routing, routing', hroute, hroute', hsame, -, -⟩ :=
    World.route_forgets live isTree.acyclic (rfl : stale.scene.nodes = world.scene.nodes)
  have htrail : nodes.IsTrail list ([rippleLink] ++ [cardLink]) := isTrail
  refine ⟨routing, routing', hroute, hroute', ?_, ?_⟩
  · exact hsame (.projected card) ⟨[cardLink], htrail.of_append, rfl⟩
  · exact hsame (.held rippleLink.ref) ⟨rippleLink, [cardLink], isTrail, rfl, by decide⟩

end Ripple

end RetainedScene
