import RetainedScene.Proofs.Walk.Drift
import RetainedScene.Proofs.Walk.Marks
import RetainedScene.Proofs.World.Fading
import RetainedScene.Proofs.World.Placement
import RetainedScene.Proofs.World.Safety

/-!
# Draws leave the canvas as they found it

A draw of recorded contents leaves all states of the canvas as they were, at every depth, and resets
the alpha of the layer if the node is shown (`World.draws_restore`).  The calls of a draw at once
mark its nodes one within the other, and between the marks of a node as many states are restored as
were saved.

A plan leaves the states as they were too, on any canvas with as many of them as the one that it was
made with.  But the resets of the alpha of the layer are not in the plan, so that it stays as the
last draw has set it (`World.routed_flush_restores`): `Card.flushed_faint` shows a canvas that is
left half transparent.
-/

namespace RetainedScene

/-- After a draw of a node the states of the canvas are as they were, and the alpha of the layer is
one if the node is shown. -/
structure World.Restores (w : World) (key : Key) (before after : Canvas) : Prop where
  stack : after.stack = before.stack
  layerAlpha : ∀ node, w.scene.nodes.get? key = some node → after.layerAlpha =
    if node.isDrawable = true ∧ 0 < node.properties.alpha then 1 else before.layerAlpha

theorem NodeStore.shows_iff {nodes : NodeStore} {key : Key} {node : Node}
    (hnode : nodes.get? key = some node) :
    nodes.shows key = true ↔ node.isDrawable = true ∧ 0 < node.properties.alpha := by
  unfold shows Node.shown? Node.isDrawable
  rw [hnode, Option.any_some]
  split
  · next halpha => exact ⟨fun h => ⟨h, halpha⟩, And.left⟩
  · next halpha => exact ⟨nofun, fun h => absurd h.2 halpha⟩

namespace World

variable {w w' : World} {canvas played tracked : Canvas} {level : Nat} {key root : Key} {p : Plan}

theorem restores_of_replay (hrecorded : w.scene.nodes.AllRecorded)
    (hreplay : replay canvas level key w = .ok played w') : w.Restores key canvas played where
  stack := (places_of_replay hrecorded hreplay).1
  layerAlpha node hnode := by
    rw [(layered_of_replay hreplay).2]
    exact if_congr (NodeStore.shows_iff hnode) rfl rfl

theorem restores_of_planNode (hrecorded : w.scene.nodes.AllRecorded)
    (hplan : planNode canvas level key w = .ok (tracked, p) w') :
    w.Restores key canvas tracked where
  stack := (places_of_planNode hrecorded hplan).1
  layerAlpha node hnode := by
    refine (layered_of_planNode hplan).2.trans ?_
    exact if_congr (NodeStore.shows_iff hnode) rfl rfl

theorem logs_of_replay (hrecorded : w.scene.nodes.AllRecorded)
    (hreplay : replay canvas level key w = .ok played w') : canvas.Logs played := by
  obtain ⟨result, hwalk, rfl⟩ := walk_of_replay hreplay
  obtain ⟨s, hvisit, -, rfl⟩ := exists_watched_of_walk Handler.immediate_neutral hwalk
  exact visit_logs hrecorded hvisit

/-- A draw of recorded contents, at once or into a plan, leaves the states of the canvas as they
were, whatever they were and whether or not the scene was routed, and resets the alpha of the layer
if the node is shown.  In a draw at once the marks of the nodes are properly nested, and between
those of a node as many states are restored as were saved.  Where a walk finds all that it goes on
to, the draws come to their end. -/
theorem draws_restore (hrecorded : w.scene.nodes.AllRecorded) (canvas : Canvas) (level : Nat)
    (key : Key) :
    (∀ played w', replay canvas level key w = .ok played w' →
      w.Restores key canvas played ∧ canvas.Logs played) ∧
    (∀ tracked p w', planNode canvas level key w = .ok (tracked, p) w' →
      w.Restores key canvas tracked) ∧
    (w.frame.Walkable key →
      Completes (level + w.frame.depth key + 1) (replay canvas level key) w (fun _ _ => True) ∧
      Completes (level + w.frame.depth key + 1) (planNode canvas level key) w fun _ _ => True) :=
  ⟨fun _ _ h => ⟨restores_of_replay hrecorded h, logs_of_replay hrecorded h⟩,
    fun _ _ _ h => restores_of_planNode hrecorded h, fun hw => draws_complete hw canvas level⟩

end World

namespace Shelf

/-- Nothing was routed yet. -/
theorem walkable : world.frame.Walkable shelf :=
  Frame.walkable_of_unprojected live isTree.acyclic fun key _ => by
    simp [Frame.projectedAt, World.frame, world]

theorem draws_restore_shelf : ∃ played w', World.replay {} 0 shelf world = .ok played w' ∧
    world.Restores shelf {} played ∧ Canvas.Logs {} played := by
  have hdraw (w : World) (hrecorded : w.scene.nodes.AllRecorded) (hw : w.frame.Walkable shelf)
      (hsize : 0 + w.scene.nodes.slots.size ≤ 32767) :
      ∃ played w', World.replay {} 0 shelf w = .ok played w' ∧
        w.Restores shelf {} played ∧ Canvas.Logs {} played := by
    obtain ⟨hreplay, -, hcompletes⟩ := World.draws_restore hrecorded {} 0 shelf
    obtain ⟨played, w', hplayed, -⟩ := (hcompletes hw).1.exists_of_le
      (hw.add_depth_lt hsize)
    exact ⟨played, w', hplayed, hreplay played w' hplayed⟩
  exact hdraw world allRecorded walkable (by decide)

end Shelf

/-! ### Plans -/

namespace World

variable {w w' : World} {canvas tracked : Canvas} {level : Nat} {key root : Key} {p : Plan}

theorem returns_of_planNode (hrecorded : w.scene.nodes.AllRecorded)
    (hplan : planNode canvas level key w = .ok (tracked, p) w') :
    (∀ entry ∈ p.entries.toList, entry.IsApt) ∧ ∀ target : Canvas,
      target.saveCount = canvas.saveCount → (target.flush p).stack = target.stack := by
  obtain ⟨s, hvisit, -, hresult⟩ := exists_watched_of_walk Handler.deferred_neutral hplan
  cases hresult
  obtain ⟨-, entries, hplans, -, hreturns⟩ := visit_returns hrecorded hvisit
  -- a plan begins without entries
  have hentries : s.gathered.1.entries.toList = entries := hplans.entries_eq
  refine ⟨hentries ▸ hplans.apt, fun target htarget => ?_⟩
  unfold Canvas.flush
  rw [← Array.foldl_toList, hentries]
  exact hreturns target htarget

/-- A plan leaves the alpha of the layer as it was in the last draw. -/
theorem layerAlpha_flush_of_planNode (hrecorded : w.scene.nodes.AllRecorded)
    (hplan : planNode canvas level key w = .ok (tracked, p) w') (target : Canvas) :
    (target.flush p).layerAlpha =
      ((Sight.draws (w.sights .deferred {} canvas level key)).getLast?.map
        (·.state.layerAlpha)).getD target.layerAlpha := by
  have hdraws := draws_of_planNode hplan
  unfold Canvas.flush
  rw [← Array.foldl_toList]
  refine (Canvas.layerAlpha_playAll target (returns_of_planNode hrecorded hplan).1).trans ?_
  unfold Plan.draws at hdraws
  rw [hdraws, List.getLast?_map, Option.map_map]
  rfl

/-- Once the frame below an acyclic root is routed, the plan of the root leaves the states of every
canvas that it is carried out on as they were, if there are as many of them as on the canvas that
the plan was made with.  It leaves the alpha of the layer as it was in the last draw. -/
theorem routed_flush_restores (hlive : w.scene.nodes.Live root)
    (hacyclic : w.scene.nodes.Acyclic root) (hrecorded : w.scene.nodes.AllRecorded) :
    ∃ w₁, World.route root w = .ok () w₁ ∧ w₁.scene.nodes = w.scene.nodes ∧
      ∀ w₂, Draws w₁ w₂ → ∀ canvas : Canvas,
        Completes (w.scene.nodes.height root + 1) (plan canvas root) w₂ fun result w₃ =>
          ∀ target : Canvas, target.saveCount = canvas.saveCount →
            ∃ flushed w₄, flush target result.2 w₃ = .ok flushed w₄ ∧
              flushed.stack = target.stack ∧ flushed.layerAlpha =
                ((Sight.draws (w₂.sights .deferred {} canvas 0 root)).getLast?.map
                  (·.state.layerAlpha)).getD target.layerAlpha := by
  refine ⟨w.routed root, World.route_eq hlive hacyclic, rfl, fun w₂ hw canvas => ?_⟩
  have hr := hw.isRouted (routed_isRouted hlive hacyclic (hrecorded.recorded root))
  have hnodes : w₂.scene.nodes = w.scene.nodes := congrArg Frame.nodes hw.frame_eq
  have hrecorded : w₂.scene.nodes.AllRecorded := hnodes ▸ hrecorded
  have hcompletes := (ready_draws_complete hr.sound.ready canvas 0).2
  rw [hnodes, Nat.zero_add] at hcompletes
  refine .of_planNode hcompletes fun result w₃ hplan target htarget => ?_
  obtain ⟨w₁, e, hplan, -⟩ := planNode_of_plan hplan
  exact ⟨_, _, rfl, (returns_of_planNode hrecorded hplan).2 target htarget,
    layerAlpha_flush_of_planNode hrecorded hplan target⟩

end World

namespace Shelf

theorem routed_flush_restores_shelf : ∃ w₁ tracked p w₂ flushed w₃,
    World.route shelf world = .ok () w₁ ∧ World.plan {} shelf w₁ = .ok (tracked, p) w₂ ∧
      World.flush {} p w₂ = .ok flushed w₃ ∧ flushed.stack = .ofTop {} := by
  obtain ⟨w₁, hroute, -, hplans⟩ :=
    World.routed_flush_restores (w := world) live isTree.acyclic allRecorded
  obtain ⟨⟨tracked, p⟩, w₂, hplan, hflush⟩ := (hplans w₁ (.none w₁) {}).exists_of_le
    ((NodeStore.height_lt_size live isTree.acyclic).trans_le (by decide))
  obtain ⟨flushed, w₃, hflushed, hstack, -⟩ := hflush {} rfl
  exact ⟨w₁, tracked, p, w₂, flushed, w₃, hroute, hplan, hflushed, hstack⟩

end Shelf

/-! ### A card that is half transparent -/

namespace Card

open Ripple (content isRecorded_content)

def card : Key := ⟨1, 1⟩

/-- The content of the card is cached, and half transparent. -/
def node : Node where
  name := "card"
  properties := { Properties.ofBounds 0 0 100 100 with caching := true, alpha := 0.5 }
  content := some (content [.functor 0])

def nodes : NodeStore where
  slots := #[⟨1, some node⟩]

def world : World where
  scene := { nodes }

theorem live : nodes.Live card := NodeStore.live_of_links (by decide) (by decide)

theorem isTree : nodes.IsTree card := NodeStore.isTree_of_links (by decide) (by decide)

theorem allRecorded : nodes.AllRecorded := by
  refine .of_slots fun slot hslot node hnode list hlist => ?_
  simp only [nodes, List.mem_toArray, List.mem_cons, List.not_mem_nil, or_false] at hslot
  subst hslot
  cases hnode
  cases hlist
  exact isRecorded_content _

/-- Drawn at once, the card leaves the alpha of the layer at one.  Its plan leaves it at that of the
card. -/
theorem flushed_faint : ∃ w₁ played w₂ tracked p w₃ flushed w₄,
    World.route card world = .ok () w₁ ∧ World.replay {} 0 card w₁ = .ok played w₂ ∧
      played.layerAlpha = 1 ∧ World.plan {} card w₁ = .ok (tracked, p) w₃ ∧
        World.flush {} p w₃ = .ok flushed w₄ ∧ flushed.layerAlpha ≠ 1 := by
  have hroute : World.route card world = .ok () (world.routed card) :=
    World.route_eq live isTree.acyclic
  have hr := World.routed_isRouted (w := world) live isTree.acyclic (allRecorded.recorded card)
  have hnodes : (world.routed card).scene.nodes = nodes := rfl
  have hlast : (Sight.draws ((world.routed card).sights .deferred {} {} 0 card)).getLast?.map
      (·.state.layerAlpha) = some 0.5 := by decide +kernel
  generalize world.routed card = w₁ at hroute hr hnodes hlast
  have hrecorded : w₁.scene.nodes.AllRecorded := hnodes ▸ allRecorded
  have hroom : 0 + w₁.scene.nodes.height card < 32767 := by
    rw [hnodes]
    exact NodeStore.add_height_lt live isTree.acyclic (by decide)
  obtain ⟨hreplays, hplans⟩ := World.ready_draws_complete hr.sound.ready {} 0
  obtain ⟨played, w₂, hreplay, -⟩ := hreplays.exists_of_le hroom
  have hplans : World.Completes _ (World.plan {} card) w₁ fun _ _ => True :=
    .of_planNode hplans fun _ _ _ => trivial
  obtain ⟨⟨tracked, p⟩, w₃, hplan, -⟩ := hplans.exists_of_le hroom
  obtain ⟨w₃', e, hplanned, -⟩ := World.planNode_of_plan hplan
  have hnode : w₁.scene.nodes.get? card = some node := hnodes ▸ rfl
  refine ⟨w₁, played, w₂, tracked, p, w₃, _, _, hroute, hreplay, ?_, hplan, rfl, ?_⟩
  · rw [(World.restores_of_replay hrecorded hreplay).layerAlpha node hnode]
    exact if_pos (by decide)
  · rw [World.layerAlpha_flush_of_planNode hrecorded hplanned, hlast]
    decide

end Card

end RetainedScene
