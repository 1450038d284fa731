import RetainedScene.Proofs.Scene.Reach

/-!
# Trails and the tour

A trail is a way down from a root through nodes that have something to draw, written with its last
link first.  The `tour` lists all trails in the order in which a walk down the scene meets them:
a trail comes before those that go on from it, and siblings come in their order.  In other words
trails come in the lexicographic order of their indices (`pairwise_tour`).

In an acyclic scene the tour has every trail (`mem_tour`).  In a tree no two trails end in one node
(`IsTree.trail_unique`).
-/

namespace RetainedScene

open Relation

/-- A link together with the node that it leads to. -/
structure Link where
  ref : EdgeRef
  edge : Edge
  node : Node
  deriving DecidableEq

namespace Link

/-- The node that a way down from a root ends in. -/
def tip (root : Key) : List Link → Key
  | [] => root
  | link :: _ => link.edge.child

/-- The places of the links among their siblings, from the first link to the last. -/
def indices (trail : List Link) : List Nat := (trail.map (·.ref.index)).reverse

@[simp] theorem indices_cons (link : Link) (trail : List Link) :
    indices (link :: trail) = indices trail ++ [link.ref.index] := by
  simp [indices]

end Link

namespace NodeStore

/-- The links lead down from the root, one after the other, and every node between the root and the
last one has something to draw. -/
inductive IsTrail (nodes : NodeStore) (root : Key) : List Link → Prop
  | top : IsTrail nodes root []
  | down {link : Link} {above : List Link} (habove : IsTrail nodes root above)
    (hdrawable : ∀ last ∈ above.head?, last.node.isDrawable)
    (hparent : link.ref.parent = Link.tip root above) (hedge : nodes.edge link.ref = .ok link.edge)
    (hnode : nodes.get? link.edge.child = some link.node) : IsTrail nodes root (link :: above)

/-- The links of a node. -/
def linksOf (nodes : NodeStore) (key : Key) : List (EdgeRef × Edge) :=
  ((nodes.get? key).bind (·.content)).elim [] (·.edgesOf key)

/-- The trails that begin with a trail and a link, down to a depth. -/
def tourFrom (nodes : NodeStore) : Nat → List Link → EdgeRef × Edge → List (List Link)
  | 0, _, _ => []
  | depth + 1, above, (ref, edge) =>
    match nodes.get? edge.child with
    | none => []
    | some node =>
      let trail := ⟨ref, edge, node⟩ :: above
      trail :: if node.isDrawable then
          (nodes.linksOf edge.child).flatMap (tourFrom nodes depth trail)
        else []

/-- The trails below a root with at least one link, down to a depth. -/
def tour (nodes : NodeStore) (depth : Nat) (root : Key) : List (List Link) :=
  (nodes.linksOf root).flatMap (nodes.tourFrom depth [])

variable {nodes : NodeStore} {root : Key} {depth : Nat} {above trail : List Link}
  {ref : EdgeRef} {edge : Edge} {node : Node} {e : EdgeRef × Edge}

theorem linksOf_eq {key : Key} {list : DisplayList} (hnode : nodes.get? key = some node)
    (hlist : node.content = some list) : nodes.linksOf key = list.edgesOf key := by
  rw [linksOf, hnode, Option.bind_some, hlist, Option.elim_some]

theorem mem_linksOf {key : Key} :
    e ∈ nodes.linksOf key ↔ e.1.parent = key ∧ nodes.edge e.1 = .ok e.2 := by
  constructor
  · intro h
    obtain ⟨list, hlist⟩ : ∃ list, (nodes.get? key).bind (·.content) = some list := by
      refine Option.ne_none_iff_exists'.mp fun hnone => ?_
      rw [linksOf, hnone] at h
      cases h
    obtain ⟨node, hnode, hcontent⟩ := Option.bind_eq_some_iff.mp hlist
    rw [linksOf_eq hnode hcontent] at h
    exact (mem_edgesOf_iff hnode hcontent).mp h
  · rintro ⟨rfl, hedge⟩
    obtain ⟨node, list, hnode, hcontent, -⟩ := edge_eq_ok_iff.mp hedge
    rw [linksOf_eq hnode hcontent]
    exact (mem_edgesOf_iff hnode hcontent).mpr ⟨rfl, hedge⟩

theorem leads_of_mem_linksOf {key : Key} (h : e ∈ nodes.linksOf key) :
    nodes.Leads key e.2.child :=
  ⟨_, _, (mem_linksOf.mp h).2, (mem_linksOf.mp h).1, rfl⟩

theorem tourFrom_eq (hnode : nodes.get? e.2.child = some node) :
    nodes.tourFrom (depth + 1) above e = (⟨e.1, e.2, node⟩ :: above) ::
      if node.isDrawable then
        (nodes.linksOf e.2.child).flatMap (nodes.tourFrom depth (⟨e.1, e.2, node⟩ :: above))
      else [] := by
  conv_lhs => unfold tourFrom
  rw [hnode]

/-- A trail that begins with a trail and a link is just that, or it goes on to a link of the node
there. -/
theorem mem_tourFrom_succ : trail ∈ nodes.tourFrom (depth + 1) above e ↔
    ∃ node, nodes.get? e.2.child = some node ∧ (trail = ⟨e.1, e.2, node⟩ :: above ∨
      node.isDrawable ∧ ∃ below ∈ nodes.linksOf e.2.child,
        trail ∈ nodes.tourFrom depth (⟨e.1, e.2, node⟩ :: above) below) := by
  cases hnode : nodes.get? e.2.child with
  | none => simp [tourFrom, hnode]
  | some node =>
    rw [tourFrom_eq hnode]
    cases hdraws : node.isDrawable <;> simp [hdraws]

theorem IsTrail.reaches (h : nodes.IsTrail root trail) :
    nodes.Reaches root (Link.tip root trail) := by
  induction h with
  | top => exact .refl
  | down habove hdrawable hparent hedge hnode ih =>
    exact ih.tail ⟨_, _, hedge, hparent, rfl⟩

/-! ### The trails of a tour -/

/-- The links of a trail come first in the trails that begin with it. -/
theorem exists_of_mem_tourFrom (h : trail ∈ nodes.tourFrom depth above e) :
    ∃ rest, Link.indices trail = Link.indices above ++ e.1.index :: rest := by
  induction depth generalizing above e with
  | zero => cases h
  | succ depth ih =>
    obtain ⟨node, -, rfl | ⟨-, below, -, hmem⟩⟩ := mem_tourFrom_succ.mp h
    · exact ⟨[], Link.indices_cons _ _⟩
    · obtain ⟨rest, hrest⟩ := ih hmem
      exact ⟨below.1.index :: rest, by rw [hrest, Link.indices_cons, List.append_assoc]; rfl⟩

/-- What begins with a trail and a link of its last node is a trail. -/
theorem isTrail_of_mem_tourFrom (habove : nodes.IsTrail root above)
    (hdrawable : ∀ last ∈ above.head?, last.node.isDrawable)
    (he : e ∈ nodes.linksOf (Link.tip root above)) (h : trail ∈ nodes.tourFrom depth above e) :
    nodes.IsTrail root trail := by
  induction depth generalizing above e with
  | zero => cases h
  | succ depth ih =>
    obtain ⟨node, hnode, hmem⟩ := mem_tourFrom_succ.mp h
    obtain ⟨hparent, hedge⟩ := mem_linksOf.mp he
    have htrail : nodes.IsTrail root (⟨e.1, e.2, node⟩ :: above) :=
      .down habove hdrawable hparent hedge hnode
    rcases hmem with rfl | ⟨hdraws, below, hbelow, hmem⟩
    · exact htrail
    · refine ih htrail (fun last hlast => ?_) hbelow hmem
      obtain rfl := Option.some.inj hlast
      exact hdraws

/-- A child of a node that is reached is there, and lower. -/
theorem exists_child (hlive : nodes.Live root) (hacyclic : nodes.Acyclic root) {key : Key}
    (hkey : nodes.Reaches root key) (he : e ∈ nodes.linksOf key) :
    nodes.Reaches root e.2.child ∧ nodes.height e.2.child < nodes.height key ∧
      ∃ node, nodes.get? e.2.child = some node := by
  have hleads := leads_of_mem_linksOf he
  obtain ⟨node, hnode⟩ := hlive _ (hkey.tail hleads)
  have hlower := height_lt (hlive.of_reaches hkey) (hacyclic.of_reaches hkey) (.single hleads)
  exact ⟨hkey.tail hleads, hlower, node, hnode⟩

theorem mem_tourFrom_self (hnode : nodes.get? e.2.child = some node) (hdepth : 0 < depth) :
    ⟨e.1, e.2, node⟩ :: above ∈ nodes.tourFrom depth above e := by
  obtain ⟨rest, rfl⟩ := Nat.exists_eq_add_one.mpr hdepth
  rw [tourFrom_eq hnode]
  exact List.mem_cons_self

/-- A trail that the tour has, and that has something to draw at its end, goes on to every link of
the node there. -/
theorem mem_tourFrom_of_mem (hlive : nodes.Live root) (hacyclic : nodes.Acyclic root) {link : Link}
    (hreach : nodes.Reaches root e.2.child) (hdepth : nodes.height e.2.child < depth)
    (h : link :: trail ∈ nodes.tourFrom depth above e) (hdraws : link.node.isDrawable)
    {e' : EdgeRef × Edge} (he' : e' ∈ nodes.linksOf link.edge.child)
    (hnode' : nodes.get? e'.2.child = some node) :
    ⟨e'.1, e'.2, node⟩ :: link :: trail ∈ nodes.tourFrom depth above e := by
  induction depth generalizing above e with
  | zero => cases h
  | succ depth ih =>
    obtain ⟨node, hnode, hmem⟩ := mem_tourFrom_succ.mp h
    refine mem_tourFrom_succ.mpr ⟨node, hnode, .inr ?_⟩
    rcases hmem with heq | ⟨hdraws', below, hbelow, hmem⟩
    · obtain ⟨rfl, rfl⟩ := List.cons.inj heq
      obtain ⟨-, hlt, -⟩ := exists_child hlive hacyclic hreach he'
      exact ⟨hdraws, e', he', mem_tourFrom_self hnode' (by omega)⟩
    · obtain ⟨hreach', hlt, -⟩ := exists_child hlive hacyclic hreach hbelow
      exact ⟨hdraws', below, hbelow, ih hreach' (by omega) hmem⟩

theorem isTrail_of_mem_tour (h : trail ∈ nodes.tour depth root) :
    trail ≠ [] ∧ nodes.IsTrail root trail := by
  obtain ⟨e, he, hmem⟩ := List.mem_flatMap.mp h
  refine ⟨?_, isTrail_of_mem_tourFrom .top (fun _ h => nomatch h) he hmem⟩
  rintro rfl
  obtain ⟨rest, hrest⟩ := exists_of_mem_tourFrom hmem
  cases hrest

/-- In an acyclic scene the tour has every trail. -/
theorem mem_tour (hlive : nodes.Live root) (hacyclic : nodes.Acyclic root)
    (hdepth : nodes.height root ≤ depth) :
    trail ∈ nodes.tour depth root ↔ trail ≠ [] ∧ nodes.IsTrail root trail := by
  refine ⟨isTrail_of_mem_tour, ?_⟩
  rintro ⟨hne, h⟩
  induction h with
  | top => exact absurd rfl hne
  | @down link above habove hdrawable hparent hedge hnode ih =>
    have he : (link.ref, link.edge) ∈ nodes.linksOf (Link.tip root above) :=
      mem_linksOf.mpr ⟨hparent, hedge⟩
    cases above with
    | nil =>
      obtain ⟨-, hlt, -⟩ := exists_child hlive hacyclic .refl he
      exact List.mem_flatMap.mpr ⟨_, he, mem_tourFrom_self hnode (by omega)⟩
    | cons last above =>
      obtain ⟨e, htop, hmem⟩ := List.mem_flatMap.mp (ih (List.cons_ne_nil _ _))
      obtain ⟨hreach, hlt, -⟩ := exists_child hlive hacyclic .refl htop
      exact List.mem_flatMap.mpr ⟨e, htop, mem_tourFrom_of_mem hlive hacyclic hreach (by omega) hmem
        (hdrawable last rfl) he hnode⟩

/-! ### Trees -/

/-- In a tree there is one trail to each node. -/
theorem IsTree.trail_unique (htree : nodes.IsTree root) {trail' : List Link}
    (h : nodes.IsTrail root trail) (h' : nodes.IsTrail root trail')
    (htip : Link.tip root trail = Link.tip root trail') : trail = trail' := by
  induction h generalizing trail' with
  | top =>
    cases h' with
    | top => rfl
    | down habove _ hparent hedge _ =>
      exact absurd htip.symm (htree.root_apart (hparent ▸ habove.reaches) hedge)
  | @down link above habove _ hparent hedge hnode ih =>
    cases h' with
    | top => exact absurd htip (htree.root_apart (hparent ▸ habove.reaches) hedge)
    | @down link' above' habove' _ hparent' hedge' hnode' =>
      -- the last links are the same, and then so are the trails above them
      have href : link.ref = link'.ref := htree.unique (hparent ▸ habove.reaches)
        (hparent' ▸ habove'.reaches) hedge hedge' htip
      have hedges : link.edge = link'.edge := Except.ok.inj (hedge.symm.trans (href ▸ hedge'))
      have hnodes : link.node = link'.node :=
        Option.some.inj (hnode.symm.trans (hedges ▸ hnode'))
      have hlink : link = link' := by
        cases link
        cases link'
        exact Link.mk.injEq .. ▸ ⟨href, hedges, hnodes⟩
      rw [hlink, ih habove' (by rw [← hparent, ← hparent', href])]

/-! ### Pre-order -/

theorem pairwise_linksOf (nodes : NodeStore) (key : Key) :
    (nodes.linksOf key).Pairwise fun e f => e.1.index < f.1.index := by
  unfold linksOf
  cases (nodes.get? key).bind (·.content) with
  | none => exact .nil
  | some list =>
    rw [Option.elim_some, DisplayList.edgesOf, List.pairwise_map]
    exact List.pairwise_iff_getElem.mpr fun i j hi hj hij => by simpa using hij

/-- What is in pre-order below each of a node's links is so below all of them. -/
theorem pairwise_flatMap_linksOf (key : Key)
    (h : ∀ e, (nodes.tourFrom depth above e).Pairwise fun t u => Link.indices t < Link.indices u) :
    ((nodes.linksOf key).flatMap (nodes.tourFrom depth above)).Pairwise
      fun t u => Link.indices t < Link.indices u := by
  rw [List.pairwise_flatMap]
  refine ⟨fun e _ => h e, (pairwise_linksOf nodes key).imp ?_⟩
  intro e f hlt t ht u hu
  obtain ⟨rest, hrest⟩ := exists_of_mem_tourFrom ht
  obtain ⟨rest', hrest'⟩ := exists_of_mem_tourFrom hu
  rw [hrest, hrest']
  exact List.append_left_lt (List.cons_lt_cons_iff.mpr (.inl hlt))

theorem pairwise_tourFrom (e : EdgeRef × Edge) :
    (nodes.tourFrom depth above e).Pairwise fun t u => Link.indices t < Link.indices u := by
  induction depth generalizing above e with
  | zero => exact .nil
  | succ depth ih =>
    cases hnode : nodes.get? e.2.child with
    | none => simp [tourFrom, hnode]
    | some node =>
      rw [tourFrom_eq hnode]
      cases node.isDrawable with
      | false => exact List.pairwise_singleton _ _
      | true =>
        -- what goes on from a trail has more indices than it, and so comes after it
        refine .cons (fun u hu => ?_) (pairwise_flatMap_linksOf e.2.child fun e => ih e)
        obtain ⟨below, -, hbelow⟩ := List.mem_flatMap.mp hu
        obtain ⟨rest, hrest⟩ := exists_of_mem_tourFrom hbelow
        rw [hrest]
        conv_lhs => rw [← List.append_nil (Link.indices _)]
        exact List.append_left_lt (List.nil_lt_cons _ _)

/-- The tour is in pre-order. -/
theorem pairwise_tour (nodes : NodeStore) (depth : Nat) (root : Key) :
    (nodes.tour depth root).Pairwise fun t u => Link.indices t < Link.indices u :=
  pairwise_flatMap_linksOf root fun e => pairwise_tourFrom e

end NodeStore

end RetainedScene
