import RetainedScene.Proofs.Walk.Fading
import RetainedScene.Proofs.Walk.Walkable
import RetainedScene.Proofs.World.SameFrame

/-!
# The alpha of cached nodes

What is drawn of the content of a cached node is drawn under the alpha of the node until one of its
children was drawn, and from there on under none (`World.draws_fade`): the alpha of the layer is not
among the states that are saved, and each child resets it when it ends.  `Pane.drawn_unfaded` shows
a cached node whose last operation is drawn as if the node were opaque.
-/

namespace RetainedScene

variable {ω : Type}

namespace World

variable {w w' : World} {canvas : Canvas} {level : Nat} {key : Key}

/-- A walk that comes to its end has handed out every operation under the alpha of the layer that is
in force there. -/
theorem layered_of_walk {h : Handler ω} (hn : h.Neutral) (hk : h.KeepsLayer) {start : ω}
    {result : Canvas × ω} (hwalk : walk h start canvas level key w = .ok result w') :
    Layered w.frame level key canvas.layerAlpha (w.sights h start canvas level key) ∧
      result.1.layerAlpha = if w.scene.nodes.shows key then 1 else canvas.layerAlpha := by
  obtain ⟨s, hvisit, hsights, rfl⟩ := exists_watched_of_walk hn hwalk
  have hfaded := visit_faded hn hk hvisit
  obtain ⟨log, hseen, hlayered⟩ := hfaded.log
  rw [hsights, hseen]
  exact ⟨hlayered, hfaded.layerAlpha⟩

theorem layered_of_replay {played : Canvas} (hreplay : replay canvas level key w = .ok played w') :
    Layered w.frame level key canvas.layerAlpha (w.sights .immediate () canvas level key) ∧
      played.layerAlpha = if w.scene.nodes.shows key then 1 else canvas.layerAlpha := by
  obtain ⟨result, hwalk, rfl⟩ := walk_of_replay hreplay
  exact layered_of_walk Handler.immediate_neutral Handler.immediate_keepsLayer hwalk

theorem layered_of_planNode {result : Canvas × Plan}
    (hplan : planNode canvas level key w = .ok result w') :
    Layered w.frame level key canvas.layerAlpha (w.sights .deferred {} canvas level key) ∧
      result.1.layerAlpha = if w.scene.nodes.shows key then 1 else canvas.layerAlpha :=
  layered_of_walk Handler.deferred_neutral Handler.deferred_keepsLayer hplan

/-- In every draw of a node, at once and into a plan, the operations of each node are handed out
under the alpha of the layer that the node has set, or else found, until a child was shown, and from
there on under one; the calls that draw them carry it.  Where a walk finds all that it goes on to,
the draws come to their end. -/
theorem draws_fade (w : World) (canvas : Canvas) (level : Nat) (key : Key) :
    (∀ played w', replay canvas level key w = .ok played w' →
      Layered w.frame level key canvas.layerAlpha (w.sights .immediate () canvas level key) ∧
        played.draws = canvas.draws ++
          (Sight.draws (w.sights .immediate () canvas level key)).map Draw.call) ∧
    (∀ tracked p w', planNode canvas level key w = .ok (tracked, p) w' →
      Layered w.frame level key canvas.layerAlpha (w.sights .deferred {} canvas level key) ∧
        ∀ target : Canvas, (target.flush p).draws = target.draws ++
          (Sight.draws (w.sights .deferred {} canvas level key)).map Draw.call) ∧
    (w.frame.Walkable key →
      Completes (level + w.frame.depth key + 1) (replay canvas level key) w (fun _ _ => True) ∧
      Completes (level + w.frame.depth key + 1) (planNode canvas level key) w fun _ _ => True) :=
  ⟨fun _ _ h => ⟨(layered_of_replay h).1, draws_of_replay h⟩,
    fun _ _ _ h => ⟨(layered_of_planNode h).1, draws_flush_of_planNode h⟩,
    fun hw => draws_complete hw canvas level⟩

end World

/-! ### A pane with an icon -/

namespace Pane

open Ripple (content)

def pane : Key := ⟨1, 1⟩

def icon : Key := ⟨2, 1⟩

/-- The content of the pane is cached, and half transparent.  It draws the icon first. -/
def nodes : NodeStore where
  slots := #[
    ⟨1, some ⟨"pane", { Properties.ofBounds 0 0 100 100 with caching := true, alpha := 0.5 },
      some (content [.child icon, .functor 0])⟩⟩,
    ⟨1, some ⟨"icon", .ofBounds 0 0 10 10, some (content [.functor 1])⟩⟩]

def world : World where
  scene := { nodes }

theorem live : nodes.Live pane := NodeStore.live_of_links (by decide) (by decide)

theorem isTree : nodes.IsTree pane := NodeStore.isTree_of_links (by decide) (by decide)

/-- Nothing was routed yet. -/
theorem walkable : world.frame.Walkable pane :=
  Frame.walkable_of_unprojected live isTree.acyclic fun key _ => by
    simp [Frame.projectedAt, World.frame, world]

theorem draws_fade_pane : ∃ played w', World.replay {} 0 pane world = .ok played w' ∧
    Layered world.frame 0 pane 1 (world.sights .immediate () {} 0 pane) := by
  have hdraw (w : World) (hw : w.frame.Walkable pane)
      (hsize : 0 + w.scene.nodes.slots.size ≤ 32767) :
      ∃ played w', World.replay {} 0 pane w = .ok played w' ∧
        Layered w.frame 0 pane 1 (w.sights .immediate () {} 0 pane) := by
    obtain ⟨hreplay, -, hcompletes⟩ := World.draws_fade w {} 0 pane
    obtain ⟨played, w', hplayed, -⟩ := (hcompletes hw).1.exists_of_le
      (hw.add_depth_lt hsize)
    exact ⟨played, w', hplayed, (hreplay played w' hplayed).1⟩
  exact hdraw world walkable (by decide)

/-- The last operation of the pane is drawn after the icon, and not under the alpha of the pane. -/
theorem drawn_unfaded : ∃ drawn ∈ Sight.draws (world.sights .immediate () {} 0 pane),
    drawn ∈ Sight.draws (world.sights .deferred {} {} 0 pane) ∧
      drawn.key = pane ∧ drawn.ink = .content (.functor 0) ∧
      (nodes.get? pane).any (fun node => node.properties.layerAlpha? = some 0.5) ∧
      drawn.state.layerAlpha ≠ 0.5 ∧
      drawn.state.snapshot.alpha * drawn.state.layerAlpha ≠ drawn.state.snapshot.alpha * 0.5 := by
  decide +kernel

end Pane

end RetainedScene
