import RetainedScene.Proofs.Scene.Checks
import RetainedScene.Proofs.Scene.Settling

/-!
# Where projecting links go

Below a root whose nodes form a tree, a link is sent to the nearest node above it whose content
marks a receive point and whose child on the way down does not project, and with none to the
root (`Link.NearestReceiver`).  It gets the product of the transforms on the way from there
(`Link.transform`), it is listed there once and nowhere else, and what is listed at one node is in
the order of the tour (`World.route_projects`).
-/

namespace RetainedScene

namespace Link

/-! ### The nearest receiver -/

/-- The node that the links of `upper` lead to takes what projects at the end of the links of
`lower`, which go on from there: its content marks a receive point, and its child on the way down
does not project. -/
def Receives (lower upper : List Link) : Prop :=
  ∃ receiver above first, upper = receiver :: above ∧ lower.getLast? = some first ∧
    receiver.node.isReceiver ∧ ¬ first.node.properties.projects

/-- A trail splits at the nearest node above its end that takes what projects there, or else at the
root. -/
structure NearestReceiver (trail lower upper : List Link) : Prop where
  split : lower ++ upper = trail
  receives : upper = [] ∨ Receives lower upper
  nearest : ∀ lower' upper', lower' ++ upper' = trail → lower'.length < lower.length →
    ¬ Receives lower' upper'

/-- From the content of the node that the links go on from to the content of the parent of the last
one, and on to its child: each link's transform, and after it the properties of a node between. -/
def transform : List Link → Matrix
  | [] => .identity
  | link :: between =>
    between.foldr (fun l m => l.node.properties.apply false (m * l.edge.transform)) .identity
      * link.edge.transform

/-- What a trail carries below links that have been passed. -/
theorem exists_split_carry (root : Key) (above passed : List Link) {first : Link}
    (hfirst : passed.getLast? = some first) : ∃ lower upper, lower ++ upper = above ∧
      (upper = [] ∨ Receives (passed ++ lower) upper) ∧
      (∀ lower' upper', lower' ++ upper' = above → lower'.length < lower.length →
        ¬ Receives (passed ++ lower') upper') ∧
      carry root above first.node.properties.projects = (tip root upper,
        lower.foldr (fun l m => l.node.properties.apply false (m * l.edge.transform))
          .identity) := by
  induction above generalizing passed first with
  | nil => exact ⟨[], [], rfl, .inl rfl, fun _ _ _ h => absurd h (Nat.not_lt_zero _), rfl⟩
  | cons link above ih =>
    -- the search ends here or goes on above, with one more link passed
    by_cases hreceives : link.node.isReceiver && !first.node.properties.projects
    · refine ⟨[], link :: above, rfl, .inr ?_, fun _ _ _ h => absurd h (Nat.not_lt_zero _), ?_⟩
      · rw [Bool.and_eq_true, Bool.not_eq_true'] at hreceives
        exact ⟨link, above, first, rfl, by rw [List.append_nil, hfirst], hreceives.1,
          by rw [hreceives.2]; exact Bool.false_ne_true⟩
      · rw [carry, if_pos hreceives]
        rfl
    · obtain ⟨lower, upper, hsplit, hupper, hnearest, hcarry⟩ :=
        ih (passed ++ [link]) (List.getLast?_concat)
      refine ⟨link :: lower, upper, congrArg (link :: ·) hsplit, ?_, ?_, ?_⟩
      · rwa [List.append_assoc] at hupper
      · intro lower' upper' hsplit' hlength hother
        cases lower' with
        | nil =>
          obtain ⟨_, _, first', rfl, hfirst', hmarks, hprojects⟩ := hother
          rw [List.append_nil, hfirst] at hfirst'
          obtain rfl := Option.some.inj hfirst'
          obtain ⟨rfl, -⟩ := List.cons.inj hsplit'
          exact hreceives (by simp [hmarks, hprojects])
        | cons link' lower' =>
          obtain ⟨rfl, htail⟩ := List.cons.inj hsplit'
          refine hnearest lower' upper' htail (Nat.lt_of_succ_lt_succ hlength) ?_
          rwa [List.append_assoc]
      · rw [carry, if_neg hreceives, hcarry]
        rfl

/-- A link that projects is sent to the nearest receiver, with the transform from there. -/
theorem exists_nearestReceiver (root : Key) {link : Link} (above : List Link)
    (hprojects : link.node.properties.projects) : ∃ lower upper,
      NearestReceiver (link :: above) (link :: lower) upper ∧
      receiver root (link :: above) = tip root upper ∧
      (carry root above true).2 * link.edge.transform = transform (link :: lower) := by
  have hlast : [link].getLast? = some link := rfl
  obtain ⟨lower, upper, hsplit, hupper, hnearest, hcarry⟩ :=
    exists_split_carry root above [link] hlast
  rw [hprojects] at hcarry
  refine ⟨lower, upper, ⟨congrArg (link :: ·) hsplit, hupper, ?_⟩, ?_, ?_⟩
  · intro lower' upper' hsplit' hlength hother
    cases lower' with
    | nil =>
      obtain ⟨_, _, _, _, hfirst, _⟩ := hother
      cases hfirst
    | cons link' lower' =>
      obtain ⟨rfl, htail⟩ := List.cons.inj hsplit'
      exact hnearest lower' upper' htail (Nat.lt_of_succ_lt_succ hlength) hother
  · rw [receiver, hcarry]
  · rw [hcarry]
    rfl

end Link

/-! ### What is listed at a node -/

namespace Link

/-- The trails whose link is sent to a node. -/
def sentTo (root key : Key) (trails : List (List Link)) : List (List Link) :=
  trails.filter fun trail => isSent trail && receiver root trail = key

/-- The links at the ends of trails. -/
def refs (trails : List (List Link)) : List EdgeRef :=
  trails.filterMap fun trail => trail.head?.map (·.ref)

theorem mem_sentTo {root key : Key} {trails : List (List Link)} {trail : List Link} :
    trail ∈ sentTo root key trails ↔
      trail ∈ trails ∧ isSent trail ∧ receiver root trail = key := by
  simp [sentTo]

theorem mem_refs {trails : List (List Link)} {ref : EdgeRef} :
    ref ∈ refs trails ↔ ∃ link above, link :: above ∈ trails ∧ link.ref = ref := by
  unfold refs
  rw [List.mem_filterMap]
  constructor
  · rintro ⟨trail, hmem, hhead⟩
    cases trail with
    | nil => cases hhead
    | cons link above => exact ⟨link, above, hmem, Option.some.inj hhead⟩
  · rintro ⟨link, above, hmem, rfl⟩
    exact ⟨_, hmem, rfl⟩

theorem indices_lt_append {lower : List Link} (upper : List Link) (h : lower ≠ []) :
    indices upper < indices (lower ++ upper) := by
  have hne : (lower.map (·.ref.index)).reverse ≠ [] := by simpa using h
  obtain ⟨i, rest, hrest⟩ := List.exists_cons_of_ne_nil hne
  unfold indices
  rw [List.map_append, List.reverse_append, hrest]
  conv_lhs => rw [← List.append_nil (List.reverse _)]
  exact List.append_left_lt (List.nil_lt_cons _ _)

end Link

/-- What is listed at a node that no trail of a list ends in. -/
theorem Routing.toList_projectedAt_foldl_settle {root key : Key} {trails : List (List Link)}
    (h : ∀ link above, link :: above ∈ trails → link.edge.child ≠ key) (r : Routing) :
    ((trails.foldl (settle root) r).projectedAt key).toList
      = (r.projectedAt key).toList ++ Link.refs (Link.sentTo root key trails) := by
  induction trails generalizing r with
  | nil => simp [Link.refs, Link.sentTo]
  | cons trail trails ih =>
    rw [List.foldl_cons, ih fun link above hmem => h link above (List.mem_cons_of_mem _ hmem)]
    cases trail with
    | nil => simp [Link.sentTo, Link.isSent, settle]
    | cons link above =>
      have hkey : key ≠ link.edge.child := Ne.symm (h link above List.mem_cons_self)
      rw [projectedAt_settle]
      simp only [if_neg hkey, Link.sentTo, List.filter_cons, Bool.and_eq_true, decide_eq_true_eq]
      split <;> simp [Link.refs]

/-- What is listed at a node is what is sent there, when all that is sent there comes after the last
trail that ends in the node. -/
theorem Routing.toList_projectedAt_foldl_settle_append {root : Key} {last : Link}
    {rest : List Link} {before after : List (List Link)}
    (hbefore : ∀ t ∈ before ++ [last :: rest],
      ¬ (Link.isSent t ∧ Link.receiver root t = last.edge.child))
    (hafter : ∀ link above, link :: above ∈ after → link.edge.child ≠ last.edge.child)
    (r : Routing) :
    (((before ++ (last :: rest) :: after).foldl (settle root) r).projectedAt
        last.edge.child).toList
      = Link.refs (Link.sentTo root last.edge.child (before ++ (last :: rest) :: after)) := by
  have hnone : Link.sentTo root last.edge.child (before ++ [last :: rest]) = [] :=
    List.filter_eq_nil_iff.mpr fun t ht => by simpa using fun h => not_and.mp (hbefore t ht) h
  -- what was listed before is cleared at the node's own trail
  have hlast := hbefore (last :: rest) (List.mem_append_right _ List.mem_cons_self)
  rw [List.foldl_append, List.foldl_cons, toList_projectedAt_foldl_settle hafter,
    projectedAt_settle, if_neg hlast, List.append_cons]
  unfold Link.sentTo at hnone ⊢
  rw [List.filter_append, hnone]
  simp

namespace NodeStore

variable {nodes : NodeStore} {root : Key} {trail lower upper above above' : List Link}
  {link link' : Link}

theorem IsTrail.of_append (h : nodes.IsTrail root (lower ++ upper)) : nodes.IsTrail root upper := by
  induction lower with
  | nil => exact h
  | cons link lower ih =>
    cases h with
    | down habove => exact ih habove

theorem IsTree.eq_of_ref (htree : nodes.IsTree root) (h : nodes.IsTrail root (link :: above))
    (h' : nodes.IsTrail root (link' :: above')) (href : link.ref = link'.ref) :
    link :: above = link' :: above' := by
  refine htree.trail_unique h h' ?_
  cases h with
  | down _ _ _ hedge _ =>
    cases h' with
    | down _ _ _ hedge' _ =>
      exact congrArg Edge.child (Except.ok.inj (hedge.symm.trans (href ▸ hedge')))

/-- In a tree the trail of a link that is sent to a node goes on from the trail to that node. -/
theorem IsTree.exists_lower (htree : nodes.IsTree root) (h : nodes.IsTrail root (link :: above))
    (hsent : Link.isSent (link :: above)) (htrail : nodes.IsTrail root trail)
    (hreceiver : Link.receiver root (link :: above) = Link.tip root trail) :
    ∃ lower, link :: above = link :: lower ++ trail := by
  have hprojects : link.node.properties.projects := (Bool.and_eq_true_iff.mp hsent).2
  obtain ⟨lower, upper, hnearest, hupper, -⟩ := Link.exists_nearestReceiver root above hprojects
  have hsplit := hnearest.split
  have htip : Link.tip root upper = Link.tip root trail := hupper.symm.trans hreceiver
  obtain rfl := htree.trail_unique (hsplit ▸ h : nodes.IsTrail root (_ ++ upper)).of_append htrail
    htip
  exact ⟨lower, hsplit.symm⟩

end NodeStore

namespace Scene

variable {s : Scene} {root : Key}

/-- In a tree the links that are listed at a node are those that the tour sends there. -/
theorem projectedAt_settled (hlive : s.nodes.Live root) (htree : s.nodes.IsTree root)
    {trail : List Link} (htrail : s.nodes.IsTrail root trail) :
    ((s.settled root).projectedAt (Link.tip root trail)).toList
      = Link.refs (Link.sentTo root (Link.tip root trail) (s.nodes.tour s.depthBound root)) := by
  have htour := s.mem_tour_depthBound hlive htree.acyclic
  have hsorted := NodeStore.pairwise_tour s.nodes s.depthBound root
  have hends {link : Link} {above : List Link}
      (hmem : link :: above ∈ s.nodes.tour s.depthBound root)
      (htip : link.edge.child = Link.tip root trail) : link :: above = trail :=
    htree.trail_unique ((htour _).mp hmem).2 htrail htip
  -- what a node takes goes on from the trail to the node, and so comes after it
  have hsends {t : List Link} (hmem : t ∈ s.nodes.tour s.depthBound root)
      (ht : Link.isSent t ∧ Link.receiver root t = Link.tip root trail) :
      Link.indices trail < Link.indices t := by
    cases t with
    | nil => cases ht.1
    | cons link above =>
      obtain ⟨lower, hsplit⟩ := htree.exists_lower ((htour _).mp hmem).2 ht.1 htrail ht.2
      rw [hsplit]
      exact Link.indices_lt_append trail (List.cons_ne_nil link lower)
  unfold settled
  cases trail with
  | nil =>
    rw [Routing.toList_projectedAt_foldl_settle fun link above hmem htip =>
      List.cons_ne_nil _ _ (hends hmem htip)]
    simp [Link.tip, Routing.projectedAt, Routing.clearProjected]
  | cons last rest =>
    obtain ⟨before, after, heq⟩ :=
      List.append_of_mem ((htour _).mpr ⟨List.cons_ne_nil _ _, htrail⟩)
    rw [heq] at hsorted hends hsends ⊢
    obtain ⟨-, hafter, hlt⟩ := List.pairwise_append.mp hsorted
    refine Routing.toList_projectedAt_foldl_settle_append (fun t hmem ht => ?_)
      (fun link above hmem htip => ?_) _
    · rcases List.mem_append.mp hmem with h | h
      · have hback := hsends (List.mem_append_left _ h) ht
        exact List.lt_irrefl _ (List.lt_trans (hlt _ h _ List.mem_cons_self) hback)
      · rw [List.mem_singleton.mp h] at ht
        exact List.lt_irrefl _ (hsends (List.mem_append_right _ List.mem_cons_self) ht)
    · have hsame := hends (List.mem_append_right _ (List.mem_cons_of_mem _ hmem)) htip
      exact List.lt_irrefl _ (hsame ▸ (List.pairwise_cons.mp hafter).1 _ hmem)

/-- In a tree a link that is sent gets the product of the transforms on the way from its
receiver. -/
theorem compositingOf_settled (hlive : s.nodes.Live root) (htree : s.nodes.IsTree root)
    {link : Link} {above : List Link} (htrail : s.nodes.IsTrail root (link :: above))
    (hsent : Link.isSent (link :: above)) : (s.settled root).compositingOf link.ref
      = (Link.carry root above true).2 * link.edge.transform := by
  have hmem := (s.mem_tour_depthBound hlive htree.acyclic _).mpr ⟨List.cons_ne_nil _ _, htrail⟩
  have hsame {other : Link} {rest : List Link}
      (h : other :: rest ∈ s.nodes.tour s.depthBound root) (href : other.ref = link.ref) :
      other :: rest = link :: above :=
    htree.eq_of_ref (NodeStore.isTrail_of_mem_tour h).2 htrail href
  unfold settled
  revert hmem hsame
  generalize s.nodes.tour s.depthBound root = trails
  intro hmem hsame
  induction trails using List.reverseRecOn with
  | nil => cases hmem
  | append_singleton trails trail ih =>
    rw [List.foldl_append, List.foldl_cons, List.foldl_nil]
    cases trail with
    | nil => exact ih (by simpa using hmem) fun h => hsame (List.mem_append_left _ h)
    | cons other rest =>
      rw [Routing.compositingOf_settle]
      by_cases href : other.ref = link.ref
      · obtain ⟨rfl, rfl⟩ :=
          List.cons.inj (hsame (List.mem_append_right _ List.mem_cons_self) href)
        rw [if_pos ⟨hsent, rfl⟩]
      · rw [if_neg fun h => href h.2]
        refine ih ?_ fun h => hsame (List.mem_append_left _ h)
        rcases List.mem_append.mp hmem with h | h
        · exact h
        · cases List.mem_singleton.mp h
          exact absurd rfl href

/-- A link that has something to draw is held back after routing exactly when it projects. -/
theorem mem_held_settled (hlive : s.nodes.Live root) (hacyclic : s.nodes.Acyclic root)
    {link : Link} {above : List Link} (htrail : s.nodes.IsTrail root (link :: above))
    (hdraws : link.node.isDrawable) :
    link.ref ∈ (s.settled root).held ↔ link.node.properties.projects := by
  refine Routing.mem_held_foldl_settle
    ((s.mem_tour_depthBound hlive hacyclic _).mpr ⟨List.cons_ne_nil _ _, htrail⟩) hdraws ?_
  intro other rest hmem href
  cases htrail with
  | down _ _ _ hedge hnode =>
    cases (NodeStore.isTrail_of_mem_tour hmem).2 with
    | down _ _ _ hedge' hnode' =>
      have hedges : link.edge = other.edge := Except.ok.inj (hedge.symm.trans (href ▸ hedge'))
      exact Option.some.inj (hnode'.symm.trans (hedges ▸ hnode))

end Scene

/-! ### Routing a tree -/

/-- What becomes of the link at the end of a trail. -/
structure Routing.Routes (r : Routing) (nodes : NodeStore) (root : Key) (link : Link)
    (above : List Link) : Prop where
  /-- The link is not drawn in place exactly when its node projects. -/
  held : link.ref ∈ r.held ↔ link.node.properties.projects
  listed : (∃ trail, nodes.IsTrail root trail ∧ link.ref ∈ r.projectedAt (Link.tip root trail)) ↔
    link.node.properties.projects
  /-- The nearest receiver lists it once, no other node does, and it has the transform from
  there. -/
  received : link.node.properties.projects → ∃ lower upper,
    Link.NearestReceiver (link :: above) lower upper ∧
    (∀ trail, nodes.IsTrail root trail →
      (r.projectedAt (Link.tip root trail)).toList.count link.ref =
        if trail = upper then 1 else 0) ∧
    r.compositingOf link.ref = Link.transform lower

namespace Scene

variable {s : Scene} {root : Key}

/-- In a tree different trails end in different links. -/
theorem nodup_refs {nodes : NodeStore} (htree : nodes.IsTree root) {trails : List (List Link)}
    (hsorted : trails.Pairwise fun t u => Link.indices t < Link.indices u)
    (h : ∀ trail ∈ trails, nodes.IsTrail root trail) : (Link.refs trails).Nodup := by
  unfold Link.refs
  rw [List.nodup_iff_pairwise_ne, List.pairwise_filterMap]
  refine hsorted.imp_of_mem fun {t u} ht hu hlt ref href ref' href' heq => ?_
  cases t with
  | nil => cases href
  | cons link above =>
    cases u with
    | nil => cases href'
    | cons link' above' =>
      have hrefs : link.ref = link'.ref :=
        (Option.some.inj href).trans (heq.trans (Option.some.inj href').symm)
      have hsame := htree.eq_of_ref (h _ ht) (h _ hu) hrefs
      exact List.lt_irrefl _ (hsame ▸ hlt)

/-- A link is listed at a node exactly when it is sent there. -/
theorem mem_projectedAt_settled (hlive : s.nodes.Live root) (htree : s.nodes.IsTree root)
    {trail : List Link} (htrail : s.nodes.IsTrail root trail) {link : Link} {above : List Link}
    (hlink : s.nodes.IsTrail root (link :: above)) :
    link.ref ∈ ((s.settled root).projectedAt (Link.tip root trail)).toList ↔
      Link.isSent (link :: above) ∧ Link.receiver root (link :: above) = Link.tip root trail := by
  rw [projectedAt_settled hlive htree htrail, Link.mem_refs]
  constructor
  · rintro ⟨other, rest, hmem, href⟩
    obtain ⟨htour, hsent⟩ := Link.mem_sentTo.mp hmem
    rw [← htree.eq_of_ref (NodeStore.isTrail_of_mem_tour htour).2 hlink href]
    exact hsent
  · intro hsent
    have htour := (s.mem_tour_depthBound hlive htree.acyclic _).mpr ⟨List.cons_ne_nil _ _, hlink⟩
    exact ⟨link, above, Link.mem_sentTo.mpr ⟨htour, hsent⟩, rfl⟩

theorem nodup_projectedAt_settled (hlive : s.nodes.Live root) (htree : s.nodes.IsTree root)
    {trail : List Link} (htrail : s.nodes.IsTrail root trail) :
    ((s.settled root).projectedAt (Link.tip root trail)).toList.Nodup := by
  rw [projectedAt_settled hlive htree htrail]
  exact nodup_refs htree ((NodeStore.pairwise_tour s.nodes s.depthBound root).filter _)
    fun t ht => (NodeStore.isTrail_of_mem_tour (Link.mem_sentTo.mp ht).1).2

theorem routes_settled (hlive : s.nodes.Live root) (htree : s.nodes.IsTree root) {link : Link}
    {above : List Link} (htrail : s.nodes.IsTrail root (link :: above))
    (hdraws : link.node.isDrawable) : (s.settled root).Routes s.nodes root link above where
  held := mem_held_settled hlive htree.acyclic htrail hdraws
  listed := by
    constructor
    · rintro ⟨trail, htrail', hmem⟩
      have hsent := ((mem_projectedAt_settled hlive htree htrail' htrail).mp
        (Array.mem_toList_iff.mpr hmem)).1
      exact (Bool.and_eq_true_iff.mp hsent).2
    · intro hprojects
      obtain ⟨lower, upper, hnearest, hreceiver, -⟩ :=
        Link.exists_nearestReceiver root above hprojects
      have hupper : s.nodes.IsTrail root upper :=
        (hnearest.split ▸ htrail : s.nodes.IsTrail root (_ ++ upper)).of_append
      have hsent : Link.isSent (link :: above) := Bool.and_eq_true_iff.mpr ⟨hdraws, hprojects⟩
      exact ⟨upper, hupper, Array.mem_toList_iff.mp
        ((mem_projectedAt_settled hlive htree hupper htrail).mpr ⟨hsent, hreceiver⟩)⟩
  received hprojects := by
    have hsent : Link.isSent (link :: above) := Bool.and_eq_true_iff.mpr ⟨hdraws, hprojects⟩
    obtain ⟨lower, upper, hnearest, hreceiver, htransform⟩ :=
      Link.exists_nearestReceiver root above hprojects
    refine ⟨link :: lower, upper, hnearest, fun trail htrail' => ?_, ?_⟩
    · have hupper : s.nodes.IsTrail root upper :=
        (hnearest.split ▸ htrail : s.nodes.IsTrail root (_ ++ upper)).of_append
      have hiff : link.ref ∈ ((s.settled root).projectedAt (Link.tip root trail)).toList ↔
          trail = upper := by
        rw [mem_projectedAt_settled hlive htree htrail' htrail, hreceiver]
        exact ⟨fun h => (htree.trail_unique hupper htrail' h.2).symm, fun h => ⟨hsent, h ▸ rfl⟩⟩
      rw [(nodup_projectedAt_settled hlive htree htrail').count]
      simp only [hiff]
    · rw [compositingOf_settled hlive htree htrail hsent, htransform]

end Scene

/-- In a tree whose nodes are live, routing the frame below the root sends every link that projects
and has something to draw to its nearest receiver, under the product of the transforms on the way,
and what is listed at a node is in pre-order. -/
theorem World.route_projects {w : World} {root : Key} (hlive : w.scene.nodes.Live root)
    (htree : w.scene.nodes.IsTree root) :
    ∃ w', World.route root w = .ok () w' ∧ w'.scene.nodes = w.scene.nodes ∧
      (∀ link above, w.scene.nodes.IsTrail root (link :: above) → link.node.isDrawable →
        w'.scene.routing.Routes w.scene.nodes root link above) ∧
      ∀ trail, w.scene.nodes.IsTrail root trail → ∃ trails : List (List Link),
        (trails.Pairwise fun t u => Link.indices t < Link.indices u) ∧
        (∀ t ∈ trails, w.scene.nodes.IsTrail root t) ∧
        (w'.scene.routing.projectedAt (Link.tip root trail)).toList = Link.refs trails := by
  refine ⟨w.routed root, World.route_eq hlive htree.acyclic, rfl, ?_, ?_⟩
  · intro link above htrail hdraws
    exact Scene.routes_settled hlive htree htrail hdraws
  · intro trail htrail
    refine ⟨_, (NodeStore.pairwise_tour _ _ _).filter _, fun t ht => ?_,
      Scene.projectedAt_settled hlive htree htrail⟩
    exact (NodeStore.isTrail_of_mem_tour (Link.mem_sentTo.mp ht).1).2

/-- The ripple in the card is not drawn in place. -/
theorem Ripple.route_projects_ripple : ∃ w', World.route list world = .ok () w' ∧
    rippleLink.ref ∈ w'.scene.routing.held := by
  obtain ⟨w', hroute, -, hroutes, -⟩ :=
    World.route_projects (w := world) live isTree
  have hripple := hroutes rippleLink [cardLink] isTrail (by decide)
  exact ⟨w', hroute, hripple.held.mpr (by decide)⟩

end RetainedScene
