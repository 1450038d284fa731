import RetainedScene.Proofs.Walk.Passes
import RetainedScene.Proofs.Walk.Sorting

/-!
# Elevated children in two passes

Sorting the children of a node gives each elevated child once, by height and then in the order of
siblings, and settles which links are held back (`World.sortChildren_divides`).  The pass below zero
draws the children that come first in that order and the pass from zero on all others, so each of
them is drawn in one of the two passes, also where a pass is left out and whatever the heights are:
the order places every bit pattern, while the passes compare numbers, and nothing at or above zero
comes before something that is not, unless that is a NaN.
-/

namespace RetainedScene

variable {ω : Type}

/-! ### Draws of links -/

/-- The link that the operation draws. -/
def Operation.link? : Operation → Option (EdgeRef × Edge)
  | child ref edge => some (ref, edge)
  | _ => none

namespace Sibling

def link (c : Sibling) : EdgeRef × Edge := (c.ref, c.edge)

theorem link?_shadowOp? {c : Sibling} {op : Operation} (h : c.shadowOp? = some op) :
    op.link? = none := by
  obtain ⟨shadow, -, rfl⟩ := Option.map_eq_some_iff.mp h
  rfl

theorem filterMap_link?_drawOps (cs : List Sibling) :
    (cs.map drawOp).filterMap Operation.link? = cs.map link := by
  rw [List.filterMap_map]
  exact congrFun (List.filterMap_eq_map' (f := link)) cs

/-- A run draws each of its children once. -/
theorem filterMap_link?_runOps (run : List Sibling) :
    (runOps run).filterMap Operation.link? = run.map link := by
  have hshadows : (run.filterMap shadowOp?).filterMap Operation.link? = [] := by
    rw [List.filterMap_eq_nil_iff]
    intro op hop
    obtain ⟨c, -, hc⟩ := List.mem_filterMap.mp hop
    exact link?_shadowOp? hc
  rw [runOps, List.filterMap_append, hshadows, List.nil_append, filterMap_link?_drawOps]

theorem filterMap_link?_runs (cs : List Sibling) :
    ((runs cs).flatMap runOps).filterMap Operation.link? = cs.map link := by
  rw [List.filterMap_flatMap]
  simp only [filterMap_link?_runOps]
  rw [List.flatMap_def, ← List.map_flatten, runs, List.flatten_splitBy]

/-! ### Order -/

/-- The child is lower than the other in the order of all bit patterns, or of the same height and
before it among the siblings. -/
def Precedes (a b : Sibling) : Prop :=
  a.height.totalRank < b.height.totalRank ∨
    a.height.totalRank = b.height.totalRank ∧ a.ref.index < b.ref.index

theorem Precedes.totalRank_le {a b : Sibling} (h : a.Precedes b) :
    a.height.totalRank ≤ b.height.totalRank := by
  unfold Precedes at h
  omega

theorem pairwise_index_elevated {cs : List Sibling}
    (hcs : cs.Pairwise fun a b => a.ref.index < b.ref.index) :
    (elevated cs).Pairwise fun a b => a.ref.index ≠ b.ref.index :=
  (perm_sortByHeight _).symm.pairwise ((hcs.filter isElevated).imp Nat.ne_of_lt) fun h => h.symm

/-- Children in the order of siblings are put in order. -/
theorem pairwise_elevated {cs : List Sibling}
    (hcs : cs.Pairwise fun a b => a.ref.index < b.ref.index) :
    (elevated cs).Pairwise Precedes := by
  have hne := pairwise_index_elevated hcs
  rw [elevated_eq hcs] at hne ⊢
  refine ((pairwise_byHeight cs).and hne).imp fun {a b} ⟨hbefore, hne⟩ => ?_
  simp only [comesBefore, decide_eq_true_eq] at hbefore
  unfold Precedes
  omega

end Sibling

/-! ### Passes -/

namespace Visit

variable {v : Visit (ω × List Sight)} {m : Walk (ω × List Sight) Unit} {ops : List Operation}
  {links links' : List (EdgeRef × Edge)} {s : Stage (ω × List Sight)}

/-- The part of a walk draws the links one after another, or ends at one of them, and draws no
other. -/
structure Draws (v : Visit (ω × List Sight)) (m : Walk (ω × List Sight) Unit)
    (links : List (EdgeRef × Edge)) (s : Stage (ω × List Sight)) : Prop where
  ends : m.Ends s
    (fun _ t => ∃ ops, v.Yields ops s.seen t.seen ∧ ops.filterMap Operation.link? = links)
    fun e t => ∃ ops, v.Breaks ops s.seen e t ∧ ops.filterMap Operation.link? = links

theorem Emits.draws (h : v.Emits m ops s) : v.Draws m (ops.filterMap Operation.link?) s :=
  ⟨h.ends.mono (fun _ _ hyields => ⟨ops, hyields, rfl⟩) fun _ _ hbreaks => ⟨ops, hbreaks, rfl⟩⟩

theorem Draws.bind {k : Unit → Walk (ω × List Sight) Unit} (h : v.Draws m links s)
    (hk : ∀ t, v.Draws (k ()) links' t) : v.Draws (m >>= k) (links ++ links') s where
  ends := by
    refine Walk.Ends.bind (h.ends.mono (fun _ _ h => h) ?_) ?_
    · rintro e t ⟨ops, hbreaks, rfl⟩
      -- the links that were to come stand for the operations that were
      refine ⟨_, hbreaks.append (links'.map fun l => .child l.1 l.2), ?_⟩
      rw [List.filterMap_append, List.filterMap_map]
      exact congrArg _ List.filterMap_some
    · rintro _ t ⟨ops, hyields, rfl⟩
      refine (hk t).ends.mono ?_ ?_
      · rintro _ u ⟨ops', hyields', rfl⟩
        exact ⟨ops ++ ops', hyields.trans hyields', List.filterMap_append⟩
      · rintro e u ⟨ops', hbreaks', rfl⟩
        exact ⟨ops ++ ops', .of_yields hyields hbreaks', List.filterMap_append⟩

/-- A pass draws what is drawn between its clip and its restore. -/
theorem filterMap_link?_passOps (v : Visit ω) (s : Stage ω) {reached : Bool}
    (hops : reached = false → ops.filterMap Operation.link? = []) :
    (v.passOps s reached ops).filterMap Operation.link? = ops.filterMap Operation.link? := by
  cases reached with
  | false => exact (hops rfl).symm
  | true =>
    rw [passOps, if_pos rfl, List.filterMap_cons_none rfl, List.filterMap_append,
      List.filterMap_cons_none rfl, List.filterMap_nil, List.append_nil]

section

variable {h : Handler ω} (hheld : ∀ level key op offset clip s,
  (h.accept level key op offset clip s).held = s.held) (f : Frame) (levels level : Nat) (key : Key)
  (node : Node) (list : DisplayList) (sorted : List Sibling)

include hheld

theorem draws_drawBelow (s : Stage (ω × List Sight)) :
    (watching h f levels level key node list).Draws
      ((watching h f levels level key node list).drawBelow sorted)
      ((Sibling.below sorted).map Sibling.link) s := by
  have hemits := emits_drawBelow (v := watching h f levels level key node list) hheld rfl
    (visit_adds_seen h f levels (level + 1)) sorted s
  have hdraws := hemits.draws
  rwa [filterMap_link?_passOps, Sibling.filterMap_link?_drawOps] at hdraws
  intro hreached
  rw [Sibling.below_eq_nil hreached]
  rfl

theorem draws_drawAbove
    (hsorted : sorted.Pairwise fun a b => a.height.totalRank ≤ b.height.totalRank)
    (s : Stage (ω × List Sight)) :
    (watching h f levels level key node list).Draws
      ((watching h f levels level key node list).drawAbove sorted)
      ((Sibling.above sorted).map Sibling.link) s := by
  have hemits := emits_drawAbove (v := watching h f levels level key node list) hheld rfl
    (visit_adds_seen h f levels (level + 1)) sorted s
  have hdraws := hemits.draws
  rwa [filterMap_link?_passOps, Sibling.filterMap_link?_runs] at hdraws
  intro hreached
  rw [Sibling.above_eq_nil_of_ranks hsorted hreached]
  rfl

end

end Visit

/-! ### Sorting -/

/-- The elevated children of a node with content, each once and in order. -/
structure NodeStore.Elevates (nodes : NodeStore) (key : Key) (list : DisplayList)
    (sorted : List Sibling) : Prop where
  mem_iff : ∀ c, c ∈ sorted ↔ c.ref.parent = key ∧ list.children[c.ref.index]? = some c.edge ∧
    (∃ child, nodes.get? c.edge.child = some child ∧ child.properties = c.properties) ∧
    c.properties.projects = false ∧ c.height.isZero = false
  nodup : (sorted.map (·.ref)).Nodup
  order : sorted.Pairwise Sibling.Precedes

namespace World

variable {w : World} {key : Key} {node : Node} {list : DisplayList}

/-- The world with other links held back. -/
def withHeld (w : World) (held : EdgeSet) : World :=
  w.onScene fun s => { s with routing := { s.routing with held } }

/-- The links that are in the content of a node. -/
theorem edge_eq_ok_iff_of_content (hnode : w.scene.nodes.get? key = some node)
    (hlist : node.content = some list) {ref : EdgeRef} {edge : Edge} (hparent : ref.parent = key) :
    w.scene.nodes.edge ref = .ok edge ↔ list.children[ref.index]? = some edge := by
  subst hparent
  rw [NodeStore.edge_eq_ok_iff]
  constructor
  · rintro ⟨node', list', hnode', hlist', hedge⟩
    rw [hnode] at hnode'
    obtain rfl := Option.some.inj hnode'
    rw [hlist] at hlist'
    obtain rfl := Option.some.inj hlist'
    exact hedge
  · intro hedge
    exact ⟨node, list, hnode, hlist, hedge⟩

/-- What sorting the children of a node returns, and the links that it holds back. -/
theorem sortChildren_eq (hnode : w.scene.nodes.get? key = some node)
    (hlist : node.content = some list)
    (hlive : ∀ edge ∈ list.children, (w.scene.nodes.get? edge.child).isSome) :
    sortChildren key w = .ok
      (some (w.scene.nodes.children key, Sibling.elevated (w.scene.nodes.children key)))
      (w.withHeld (Sibling.holdElevated (w.scene.nodes.children key) w.scene.routing.held)) := by
  have hsiblings : w.scene.nodes.siblings key list = .ok (w.scene.nodes.children key) := by
    refine NodeStore.siblings_eq hnode hlist fun e he => Option.isSome_iff_exists.mp ?_
    obtain ⟨hparent, hedge⟩ := NodeStore.mem_linksOf.mp he
    rw [edge_eq_ok_iff_of_content hnode hlist hparent] at hedge
    exact hlive e.2 (Array.mem_of_getElem? hedge)
  have hlift {α β : Type} {result : Except Fatal α} {a : α} {k : α → Action β}
      (hresult : result = .ok a) : (lift result >>= k) w = k a w := by
    rw [hresult]
    rfl
  unfold sortChildren
  show (lift (w.scene.nodes.node key) >>= _) w = _
  rw [hlift (NodeStore.node_eq_ok_iff.mpr hnode)]
  dsimp only
  rw [hlist]
  dsimp only
  rw [hlift hsiblings]
  rfl

/-- The children that are found to be elevated are those of the content that do not project and are
of another height than zero. -/
theorem elevates_elevated (hnode : w.scene.nodes.get? key = some node)
    (hlist : node.content = some list) :
    w.scene.nodes.Elevates key list (Sibling.elevated (w.scene.nodes.children key)) where
  mem_iff c := by
    have hsorted := NodeStore.pairwise_children w.scene.nodes key
    rw [Sibling.elevated_eq hsorted, Sibling.mem_byHeight, NodeStore.mem_children]
    simp only [Sibling.isElevated, Bool.and_eq_true, Bool.not_eq_true']
    constructor
    · rintro ⟨⟨hparent, hedge, hchild⟩, helevated⟩
      rw [edge_eq_ok_iff_of_content hnode hlist hparent] at hedge
      exact ⟨hparent, hedge, hchild, helevated⟩
    · rintro ⟨hparent, hedge, hchild, helevated⟩
      rw [← edge_eq_ok_iff_of_content hnode hlist hparent] at hedge
      exact ⟨⟨hparent, hedge, hchild⟩, helevated⟩
  nodup := by
    rw [List.nodup_iff_pairwise_ne, List.pairwise_map]
    have hne := Sibling.pairwise_index_elevated (NodeStore.pairwise_children w.scene.nodes key)
    exact hne.imp fun hne heq => hne (congrArg EdgeRef.index heq)
  order := Sibling.pairwise_elevated (NodeStore.pairwise_children w.scene.nodes key)

/-- Sorting the children of a node returns each elevated child once and in order.  It holds back the
links to the elevated ones of the children that do not project and no other link to one of these,
and leaves alone what is held back of all other links.  The passes that are given the sorted
children then draw the first of them and the others, so that each is drawn once. -/
theorem sortChildren_divides (hnode : w.scene.nodes.get? key = some node)
    (hlist : node.content = some list)
    (hlive : ∀ edge ∈ list.children, (w.scene.nodes.get? edge.child).isSome)
    {h : Handler ω} (hheld : ∀ level key op offset clip s,
      (h.accept level key op offset clip s).held = s.held) (f : Frame) (levels level : Nat) :
    ∃ siblings sorted held, sortChildren key w = .ok (some (siblings, sorted)) (w.withHeld held) ∧
      w.scene.nodes.Elevates key list sorted ∧
      w.frame.Sorts (· = key) w.scene.routing.held held ∧
      let v := Visit.watching h f levels level key node list
      let first := sorted.findIdx fun c => 0 ≤ c.height
      ∀ s, v.Draws (v.drawBelow sorted) ((sorted.take first).map Sibling.link) s ∧
        v.Draws (v.drawAbove sorted) ((sorted.drop first).map Sibling.link) s ∧
        v.Draws (do v.drawBelow sorted; v.drawAbove sorted) (sorted.map Sibling.link) s := by
  have helevates := elevates_elevated hnode hlist
  refine ⟨_, _, _, sortChildren_eq hnode hlist hlive, helevates,
    Frame.Sorts.holdElevated w.frame key _, ?_⟩
  generalize Sibling.elevated (w.scene.nodes.children key) = sorted at helevates ⊢
  intro v first s
  have hranks := helevates.order.imp Sibling.Precedes.totalRank_le
  have hbelow := Visit.draws_drawBelow hheld f levels level key node list sorted
  have habove := Visit.draws_drawAbove hheld f levels level key node list sorted hranks
  have hboth := (hbelow s).bind (k := fun _ => v.drawAbove sorted) habove
  rw [← List.map_append, Sibling.below, Sibling.above, List.takeWhile_append_dropWhile] at hboth
  simp only [Sibling.below_eq_take, Sibling.above_eq_drop] at hbelow habove
  exact ⟨hbelow s, habove s, hboth⟩

end World

/-! ### Plots of a terrace -/

namespace Terrace

def terrace : Key := ⟨1, 1⟩

def content : DisplayList :=
  Ripple.content ((List.range 8).map fun i => .child ⟨i + 2, 1⟩)

def node : Node := ⟨"terrace", {}, some content⟩

/-- A plot without content. -/
def plot (properties : Properties) : Slot Node := ⟨1, some ⟨"plot", properties, none⟩⟩

/-- Two plots are as high as each other, two are of no height that is a number, one is of height
minus zero, and one projects. -/
def world : World where
  scene := {
    nodes := {
      slots := #[⟨1, some node⟩, plot { elevation := .nan }, plot { elevation := 1 },
        plot { elevation := -1 }, plot { elevation := 1 }, plot { elevation := -.nan },
        plot { elevation := -0 }, plot { elevation := .infinity },
        plot { elevation := 2, projects := true }] } }

theorem sortChildren_divides_plots :
    world.scene.nodes.get? terrace = some node ∧ Handler.immediate.Neutral ∧
    ∃ siblings sorted held,
      World.sortChildren terrace world = .ok (some (siblings, sorted)) (world.withHeld held) ∧
      world.scene.nodes.Elevates terrace content sorted ∧
      world.frame.Sorts (· = terrace) world.scene.routing.held held ∧
      let v := Visit.watching .immediate world.frame 1 0 terrace node content
      let first := sorted.findIdx fun c => 0 ≤ c.height
      ∀ s, v.Draws (v.drawBelow sorted) ((sorted.take first).map Sibling.link) s ∧
        v.Draws (v.drawAbove sorted) ((sorted.drop first).map Sibling.link) s ∧
        v.Draws (do v.drawBelow sorted; v.drawAbove sorted) (sorted.map Sibling.link) s := by
  have hnode : world.scene.nodes.get? terrace = some node := by decide +kernel
  have hlive : ∀ edge ∈ content.children, (world.scene.nodes.get? edge.child).isSome := by
    decide +kernel
  exact ⟨hnode, Handler.immediate_neutral, World.sortChildren_divides hnode rfl hlive
    Handler.immediate_neutral.held world.frame 1 0⟩

/-- The NaN with a sign comes first and the one without comes last. -/
example : ((Sibling.elevated (world.scene.nodes.children terrace)).map (·.ref.index),
    (Sibling.below (Sibling.elevated (world.scene.nodes.children terrace))).map (·.ref.index)) =
      ([4, 2, 1, 3, 6, 0], [4, 2]) := by
  decide +kernel

end Terrace

end RetainedScene
