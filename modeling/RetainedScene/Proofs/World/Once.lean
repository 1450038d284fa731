import RetainedScene.Proofs.Walk.Census
import RetainedScene.Proofs.World.SameFrame

/-!
# No content twice, none lost

In a tree every node but the root has one node that descends into it: its parent, or its nearest
receiver if it projects (`Frame.IsRoutedTree.exists_descender`).  So a draw of the root walks no
node with something to draw twice.  If moreover the root takes what projects, every node has some
alpha and no bounds are rejected, it walks each such node once and draws its content once, whether
the node is drawn in place, out of place for its height, or at its receiver
(`World.draws_each_once`).
-/

namespace RetainedScene

/-- What is seen of a draw of a root covers the nodes below it once. -/
structure Sight.Covers (nodes : NodeStore) (root : Key) (log : List Sight) : Prop where
  /-- A node is rejected only where its bounds are outside the clip. -/
  rejected : ∀ level key state, .rejected level key state ∈ log →
    ∃ node, nodes.get? key = some node ∧ node.isRejectedIn state
  once : ∀ key node, nodes.get? key = some node → node.isDrawable → (walked log).count key ≤ 1
  all : ∀ top, nodes.get? root = some top → top.isReceiver →
    (∀ key node, nodes.Reaches root key → nodes.get? key = some node → 0 < node.properties.alpha) →
    rejects log = [] → ∀ trail node list, nodes.IsTrail root trail →
      nodes.get? (Link.tip root trail) = some node → node.drawable? = some list →
      (walked log).count (Link.tip root trail) = 1 ∧
      drawnOf (Link.tip root trail) log = list.ops.toList.filter (·.batchKind?.isSome)

/-! ### Nodes that descend -/

namespace NodeStore

variable {nodes : NodeStore} {root key : Key} {ref : EdgeRef} {edge : Edge} {node : Node}
  {lower upper : List Link}

/-- A node that a trail goes on from has something to draw. -/
theorem Recorded.isDrawable_of_append (hrecorded : nodes.Recorded root)
    (h : nodes.IsTrail root (lower ++ upper)) (hne : lower ≠ [])
    (hnode : nodes.get? (Link.tip root upper) = some node) : node.isDrawable := by
  obtain ⟨lower, last, rfl⟩ := List.eq_nil_or_concat lower |>.resolve_left hne
  rw [List.concat_append] at h
  cases h.of_append with
  | down habove _ hparent hedge _ =>
    exact hrecorded.isDrawable (hparent ▸ habove.reaches) hedge (hparent ▸ hnode)

end NodeStore

/-- A receiver is above the link that is sent to it. -/
theorem Link.NearestReceiver.ne_nil {link : Link} {above lower upper : List Link}
    (h : Link.NearestReceiver (link :: above) lower upper) : lower ≠ [] := by
  rintro rfl
  rcases h.receives with rfl | ⟨_, _, _, _, hfirst, _⟩
  · cases h.split
  · cases hfirst

namespace Frame

variable {f : Frame} {root x k : Key} {link : Link} {above upper : List Link}

/-- A frame that was routed below the root of a tree. -/
structure IsRoutedTree (f : Frame) (root : Key) : Prop where
  sound : f.Sound root
  tree : f.nodes.IsTree root
  received : ∀ link above, f.nodes.IsTrail root (link :: above) → link.node.isDrawable →
    link.node.properties.projects → ∃ lower upper,
      Link.NearestReceiver (link :: above) lower upper ∧ ∀ trail, f.nodes.IsTrail root trail →
        (f.projectedAt (Link.tip root trail)).count link.ref = if trail = upper then 1 else 0

/-- The node at the end of a trail descends into a node, and no other one does. -/
structure Descends (f : Frame) (root x : Key) (upper : List Link) : Prop where
  only : ∀ k, f.nodes.Reaches root k → k ≠ Link.tip root upper → f.descents x k = 0
  le_one : f.descents x (Link.tip root upper) ≤ 1
  eq_one : ∀ node, f.nodes.get? (Link.tip root upper) = some node → 0 < node.properties.alpha →
    (upper = [] → node.isReceiver) → f.descents x (Link.tip root upper) = 1

theorem descents_of_shown {node : Node} {list : DisplayList} (hnode : f.nodes.get? k = some node)
    (hlist : node.shown? = some list) :
    f.descents x k = (f.agenda k list).countP (Step.leadsTo f.nodes x) := by
  rw [descents, hnode, Option.bind_some, hlist]
  rfl

/-- No node descends into the root of a tree. -/
theorem IsRoutedTree.descents_root (h : f.IsRoutedTree root) (hk : f.nodes.Reaches root k) :
    f.descents root k = 0 := by
  unfold descents
  cases (f.nodes.get? k).bind Node.shown? with
  | none => rfl
  | some list =>
    refine List.countP_eq_zero.mpr fun step hstep hleads => ?_
    cases step with
    | op op => cases hleads
    | descend ref =>
      obtain ⟨edge, hedge, hchild⟩ := Step.leadsTo_descend.mp hleads
      have hbelow := (h.sound.of_reaches hk).of_mem_agenda hstep
      exact h.tree.root_apart (hk.trans hbelow) hedge hchild

/-- A node descends into a child that does not project, and into what is listed at it. -/
theorem IsRoutedTree.descents_eq (h : f.IsRoutedTree root)
    (htrail : f.nodes.IsTrail root (link :: above)) (hdraws : link.node.isDrawable)
    (hk : f.nodes.Reaches root k) {node : Node} {list : DisplayList}
    (hnode : f.nodes.get? k = some node) (hlist : node.shown? = some list) :
    f.descents link.edge.child k =
      (if link.ref.parent = k ∧ link.node.properties.projects = false then 1 else 0) +
        if list.receiveIndex.isSome then (f.projectedAt k).count link.ref else 0 := by
  cases htrail with
  | down habove hdrawable hparent hedge hchild =>
    have hcontent := Node.content_of_shown? hlist
    have hlinked := (h.sound.recorded _ _ _ hk hnode hcontent).wellLinked
    rw [descents_of_shown hnode hlist, ← count_agenda hlinked ?_
      ((NodeStore.child?_eq hedge).trans hchild) hdraws]
    · refine List.countP_congr fun step hstep => ?_
      cases step with
      | op op => simp [Step.leadsTo]
      | descend ref =>
        rw [Step.leadsTo_descend, beq_iff_eq, Step.descend.injEq]
        constructor
        · rintro ⟨edge, hedge', hchild'⟩
          have hbelow := (h.sound.of_reaches hk).of_mem_agenda hstep
          exact h.tree.unique (hk.trans hbelow) (hparent ▸ habove.reaches) hedge' hedge hchild'
        · rintro rfl
          exact ⟨link.edge, hedge, rfl⟩
    · rintro rfl
      obtain ⟨node', list', hnode', hlist', hlink⟩ := NodeStore.edge_eq_ok_iff.mp hedge
      obtain rfl := Option.some.inj (hnode.symm.trans hnode')
      obtain rfl := Option.some.inj (hcontent.symm.trans hlist')
      exact (Array.getElem?_eq_some_iff.mp hlink).1

/-- A node that is not shown descends into nothing. -/
theorem descents_eq_zero {node : Node} (hnode : f.nodes.get? k = some node)
    (hlist : node.shown? = none) : f.descents x k = 0 := by
  rw [descents, hnode, Option.bind_some, hlist]
  rfl

/-- A link that does not project is listed nowhere. -/
theorem Sound.count_projectedAt (h : f.Sound root) (hk : f.nodes.Reaches root k)
    (htrail : f.nodes.IsTrail root (link :: above))
    (hprojects : link.node.properties.projects = false) :
    (f.projectedAt k).count link.ref = 0 := by
  refine List.count_eq_zero.mpr fun hmem => ?_
  obtain ⟨-, edge, child, hedge, hchild, -, hchild'⟩ := h.listed k hk _ hmem
  cases htrail with
  | down _ _ _ hedge' hnode =>
    obtain rfl := Except.ok.inj (hedge.symm.trans hedge')
    obtain rfl := Option.some.inj (hchild.symm.trans hnode)
    rw [hprojects] at hchild'
    cases hchild'

/-- The node at the end of a trail is the only one to descend into a node, if its content is one
that takes it. -/
theorem IsRoutedTree.descends (h : f.IsRoutedTree root) (takes : DisplayList → Prop)
    [DecidablePred takes] (hupper : f.nodes.IsTrail root upper)
    (heq : ∀ k node list, f.nodes.Reaches root k → f.nodes.get? k = some node →
      node.shown? = some list →
      f.descents x k = if k = Link.tip root upper ∧ takes list then 1 else 0)
    (htakes : ∀ node, f.nodes.get? (Link.tip root upper) = some node →
      (upper = [] → node.isReceiver) →
      node.isDrawable ∧ ∀ list, node.content = some list → takes list) :
    f.Descends root x upper where
  only k hk hne := by
    obtain ⟨node, hnode⟩ := h.sound.live k hk
    cases hlist : node.shown? with
    | none => exact descents_eq_zero hnode hlist
    | some list => rw [heq k node list hk hnode hlist, if_neg fun hpos => hne hpos.1]
  le_one := by
    obtain ⟨node, hnode⟩ := h.sound.live _ hupper.reaches
    cases hlist : node.shown? with
    | none => rw [descents_eq_zero hnode hlist]; exact Nat.zero_le 1
    | some list =>
      rw [heq _ node list hupper.reaches hnode hlist]
      split <;> omega
  eq_one node hnode halpha hreceiver := by
    obtain ⟨hdraws, htakes⟩ := htakes node hnode hreceiver
    obtain ⟨list, hlist⟩ := Node.exists_shown hdraws halpha
    rw [heq _ node list hupper.reaches hnode hlist,
      if_pos ⟨rfl, htakes list (Node.content_of_shown? hlist)⟩]

/-- The parent of a node that does not project descends into it. -/
theorem IsRoutedTree.parent_descends (h : f.IsRoutedTree root)
    (htrail : f.nodes.IsTrail root (link :: above)) (hdraws : link.node.isDrawable)
    (hprojects : link.node.properties.projects = false) :
    f.Descends root link.edge.child above := by
  have hparent : link.ref.parent = Link.tip root above := by
    cases htrail with
    | down _ _ hparent _ _ => exact hparent
  have habove : f.nodes.IsTrail root ([link] ++ above) := htrail
  refine h.descends (fun _ => True) habove.of_append
    (fun k node list hk hnode hlist => ?_) fun node hnode _ => ⟨?_, fun _ _ => trivial⟩
  · rw [h.descents_eq htrail hdraws hk hnode hlist, h.sound.count_projectedAt hk htrail hprojects,
      ite_self, Nat.add_zero, hparent]
    refine if_congr ⟨fun hpos => ?_, fun hpos => ?_⟩ rfl rfl
    · exact ⟨hpos.1.symm, trivial⟩
    · exact ⟨hpos.1.symm, hprojects⟩
  · exact h.sound.recorded.isDrawable_of_append habove (List.cons_ne_nil _ _) hnode

/-- The nearest receiver of a node that projects descends into it. -/
theorem IsRoutedTree.receiver_descends (h : f.IsRoutedTree root)
    (htrail : f.nodes.IsTrail root (link :: above)) (hdraws : link.node.isDrawable)
    (hprojects : link.node.properties.projects) : ∃ lower, lower ≠ [] ∧
      ∃ upper, lower ++ upper = link :: above ∧ f.Descends root link.edge.child upper := by
  obtain ⟨lower, upper, hnearest, hcount⟩ := h.received link above htrail hdraws hprojects
  have hsplit : f.nodes.IsTrail root (lower ++ upper) := hnearest.split ▸ htrail
  have hupper := hsplit.of_append
  refine ⟨lower, hnearest.ne_nil, upper, hnearest.split, ?_⟩
  refine h.descends (fun list => list.receiveIndex.isSome) hupper
    (fun k node list hk hnode hlist => ?_) fun node hnode hroot => ⟨?_, fun list hlist => ?_⟩
  · obtain ⟨trail, htrail', rfl⟩ := h.sound.recorded.exists_trail h.sound.live hk
    have hsame : Link.tip root trail = Link.tip root upper ↔ trail = upper :=
      ⟨h.tree.trail_unique htrail' hupper, fun heq => heq ▸ rfl⟩
    rw [h.descents_eq htrail hdraws hk hnode hlist, hcount trail htrail',
      if_neg (by simp [hprojects]), Nat.zero_add]
    simp only [hsame, and_comm (a := trail = upper), ite_and]
  · exact h.sound.recorded.isDrawable_of_append hsplit hnearest.ne_nil hnode
  · have hreceiver : node.isReceiver := by
      rcases hnearest.receives with hnil | ⟨receiver, rest, first, rfl, -, hmarks, -⟩
      · exact hroot hnil
      · cases hupper with
        | down _ _ _ _ hnode' => rwa [Option.some.inj (hnode.symm.trans hnode')]
    unfold Node.isReceiver at hreceiver
    rwa [hlist, Option.bind_some] at hreceiver

/-- In a tree every node but the root has one that descends into it, above it on the way from the
root. -/
theorem IsRoutedTree.exists_descender (h : f.IsRoutedTree root)
    (htrail : f.nodes.IsTrail root (link :: above)) (hdraws : link.node.isDrawable) :
    ∃ lower, lower ≠ [] ∧ ∃ upper, lower ++ upper = link :: above ∧
      f.Descends root link.edge.child upper := by
  cases hprojects : link.node.properties.projects with
  | true => exact h.receiver_descends htrail hdraws hprojects
  | false =>
    exact ⟨[link], List.cons_ne_nil _ _, above, rfl, h.parent_descends htrail hdraws hprojects⟩

/-! ### Counting down the tree -/

/-- What the walks of a node come to, by the walks of the node that descends into it. -/
theorem Descends.count_add (hd : f.Descends root x upper) {child : Node}
    (hx : f.nodes.get? x = some child) (hdraws : child.isDrawable) (hne : root ≠ x) {level : Nat}
    {log : List Sight} (hlog : Follows f level root log) :
    (Sight.walked log).count x + ((Sight.rejects log).map (f.descents x)).sum =
      (Sight.walked log).count (Link.tip root upper) * f.descents x (Link.tip root upper) := by
  have hbalanced := hlog.balanced hx hdraws
  unfold Frame.Balanced at hbalanced
  rw [if_neg hne, Nat.zero_add, List.sum_map_eq_nsmul_single (Link.tip root upper) _
    fun k hk hmem => hd.only k (hlog.reaches k hmem) hk] at hbalanced
  exact hbalanced

/-- A node with something to draw is walked at most once, and once if nothing stands in the way. -/
theorem IsRoutedTree.count_walked (h : f.IsRoutedTree root) {level : Nat} {log : List Sight}
    (hlog : Follows f level root log) {trail : List Link} (htrail : f.nodes.IsTrail root trail)
    {node : Node} (hnode : f.nodes.get? (Link.tip root trail) = some node)
    (hdraws : node.isDrawable) : (Sight.walked log).count (Link.tip root trail) ≤ 1 ∧
      ((∀ top, f.nodes.get? root = some top → top.isReceiver) →
        (∀ key node, f.nodes.Reaches root key → f.nodes.get? key = some node →
          0 < node.properties.alpha) →
        Sight.rejects log = [] → (Sight.walked log).count (Link.tip root trail) = 1) := by
  induction hlength : trail.length using Nat.strong_induction_on generalizing trail node with
  | _ length ih =>
    cases trail with
    | nil =>
      have hbalanced := hlog.balanced hnode hdraws
      have hnone : ((Sight.walked log).map (f.descents root)).sum = 0 := by
        refine List.sum_eq_zero fun n hn => ?_
        obtain ⟨k, hk, rfl⟩ := List.mem_map.mp hn
        exact h.descents_root (hlog.reaches k hk)
      unfold Frame.Balanced Link.tip at *
      rw [hnone, if_pos rfl] at hbalanced
      refine ⟨by omega, fun _ _ hrejects => ?_⟩
      rw [hrejects] at hbalanced
      exact hbalanced
    | cons link above =>
      have hlink : link.node = node ∧ root ≠ link.edge.child := by
        cases htrail with
        | down habove _ hparent hedge hnode' =>
          exact ⟨Option.some.inj (hnode'.symm.trans hnode),
            (h.tree.root_apart (hparent ▸ habove.reaches) hedge).symm⟩
      obtain ⟨rfl, hroot⟩ := hlink
      obtain ⟨lower, hlower, upper, hsplit, hd⟩ := h.exists_descender htrail hdraws
      have hcount := hd.count_add hnode hdraws hroot hlog
      have hsplit' : f.nodes.IsTrail root (lower ++ upper) := hsplit ▸ htrail
      obtain ⟨parent, hparent⟩ := h.sound.live _ hsplit'.of_append.reaches
      -- the node that descends is above, where walks have been counted before
      have hshorter : upper.length < length := by
        have := congrArg List.length hsplit
        have := List.length_pos_iff.mpr hlower
        rw [List.length_append] at *
        omega
      obtain ⟨hle, heq⟩ := ih upper.length hshorter hsplit'.of_append hparent
        (h.sound.recorded.isDrawable_of_append hsplit' hlower hparent) rfl
      show (Sight.walked log).count link.edge.child ≤ 1 ∧ _
      constructor
      -- where the node that descends is rejected, the count is only smaller
      · have := Nat.mul_le_mul hle hd.le_one
        omega
      · intro hreceiver halpha hrejects
        have hone := hd.eq_one parent hparent (halpha _ _ hsplit'.of_append.reaches hparent)
          fun hnil => hreceiver parent (by rwa [hnil] at hparent)
        rw [heq hreceiver halpha hrejects, hone, hrejects] at hcount
        exact hcount

/-- What is seen of a draw of the root of a tree covers the tree once. -/
theorem IsRoutedTree.covers (h : f.IsRoutedTree root) {level : Nat} {log : List Sight}
    (hlog : Follows f level root log) : Sight.Covers f.nodes root log where
  rejected _ _ _ hmem := hlog.isRejectedIn_of_mem hmem
  once key node hnode hdraws := by
    by_cases hkey : key ∈ Sight.walked log
    · obtain ⟨trail, htrail, rfl⟩ :=
        h.sound.recorded.exists_trail h.sound.live (hlog.reaches key hkey)
      exact (h.count_walked hlog htrail hnode hdraws).1
    · rw [List.count_eq_zero.mpr hkey]
      exact Nat.zero_le 1
  all top htop hreceiver halpha hrejects trail node list htrail hnode hlist := by
    have hdraws : node.isDrawable := Option.isSome_iff_exists.mpr ⟨list, hlist⟩
    have hcount := (h.count_walked hlog htrail hnode hdraws).2
      (fun top' htop' => Option.some.inj (htop.symm.trans htop') ▸ hreceiver) halpha hrejects
    have hshown : (f.nodes.get? (Link.tip root trail)).bind Node.shown? = some list := by
      rw [hnode, Option.bind_some, Node.shown?, if_pos (halpha _ _ htrail.reaches hnode), hlist]
    refine ⟨hcount, ?_⟩
    rw [hlog.drawnOf_eq hshown h.sound.acyclic hrejects, hcount]
    exact List.append_nil _

end Frame

/-! ### Worlds -/

namespace World

variable {w : World} {root : Key}

theorem routed_isRoutedTree (hlive : w.scene.nodes.Live root) (htree : w.scene.nodes.IsTree root)
    (hrecorded : w.scene.nodes.Recorded root) : (w.routed root).frame.IsRoutedTree root where
  sound := routed_sound hlive htree.acyclic hrecorded
  tree := htree
  received link above htrail hdraws hprojects := by
    obtain ⟨lower, upper, hnearest, hcount, -⟩ :=
      (Scene.routes_settled hlive htree htrail hdraws).received hprojects
    exact ⟨lower, upper, hnearest, hcount⟩

/-- Once the frame below the root of a tree is routed, a draw of the root, at once or into a plan,
covers the tree once, and each draw in it makes a call on the canvas or an entry of the plan. -/
theorem draws_each_once (hlive : w.scene.nodes.Live root) (htree : w.scene.nodes.IsTree root)
    (hrecorded : w.scene.nodes.Recorded root) :
    ∃ w₁, World.route root w = .ok () w₁ ∧ w₁.scene.nodes = w.scene.nodes ∧
      ∀ w₂, Draws w₁ w₂ → ∀ (canvas : Canvas) (level : Nat),
        Completes (level + w.scene.nodes.height root + 1) (replay canvas level root) w₂
          (fun played _ =>
            Sight.Covers w.scene.nodes root (w₂.sights .immediate () canvas level root) ∧
            played.draws = canvas.draws ++
              (Sight.draws (w₂.sights .immediate () canvas level root)).map Draw.call) ∧
        Completes (level + w.scene.nodes.height root + 1) (planNode canvas level root) w₂
          (fun result _ =>
            Sight.Covers w.scene.nodes root (w₂.sights .deferred {} canvas level root) ∧
            result.2.draws = (Sight.draws (w₂.sights .deferred {} canvas level root)).map
              fun d => (d.ink, d.state)) := by
  refine ⟨w.routed root, World.route_eq hlive htree.acyclic, rfl, fun w₂ hw canvas level => ?_⟩
  have htree := routed_isRoutedTree hlive htree hrecorded
  have hr := hw.isRouted (routed_isRouted hlive htree.tree.acyclic hrecorded)
  have hnodes : w₂.scene.nodes = w.scene.nodes := congrArg Frame.nodes hw.frame_eq
  obtain ⟨hreplay, hplan⟩ := hr.draws_follow canvas level
  rw [hw.frame_eq, hnodes] at hreplay hplan
  constructor
  · refine hreplay.mono fun played w' hplayed hfollows => ?_
    exact ⟨htree.covers hfollows, draws_of_replay hplayed⟩
  · refine hplan.mono fun result w' hplanned hfollows => ?_
    exact ⟨htree.covers hfollows, draws_of_planNode hplanned⟩

end World

theorem Ripple.draws_list_once : ∃ w₁, World.route list world = .ok () w₁ ∧
    World.Completes 3 (World.replay {} 0 list) w₁ fun _ _ =>
      Sight.Covers nodes list (w₁.sights .immediate () {} 0 list) := by
  obtain ⟨w₁, hroute, -, hdraws⟩ := World.draws_each_once (w := world) live isTree recorded
  have hroom : 0 + nodes.height list < 3 := NodeStore.add_height_lt live isTree.acyclic (by decide)
  exact ⟨w₁, hroute, ((hdraws w₁ (.none w₁) {} 0).1.mono fun _ _ _ hcovers => hcovers.1).weaken
    hroom⟩

end RetainedScene
