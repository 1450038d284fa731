import RetainedScene.Proofs.Walk.Clips
import RetainedScene.Proofs.World.Placement

/-!
# The clip of projected content

Once a frame is routed every draw of its root hands out what is projected to a node under a clip to
the bounds of that node, in place of the clip that is in force there for the content of the node
(`World.routed_draws_clip`).  `Badge.glow_escapes` shows content that is projected to a node and
reaches out of the outline that the node is clipped to, and out of the viewport.
-/

namespace RetainedScene

variable {ω : Type}

namespace World

variable {w w' : World} {canvas : Canvas} {level : Nat} {key root : Key}

/-- A walk of recorded contents that comes to its end has handed out every child out of place under
the clip of its pass. -/
theorem clips_of_walk {h : Handler ω} (hrecorded : w.scene.nodes.AllRecorded) (hn : h.Neutral)
    (hc : h.Carries) {start : ω} {result : Canvas × ω}
    (hwalk : walk h start canvas level key w = .ok result w') :
    Clips w.frame level key (w.sights h start canvas level key) := by
  obtain ⟨s, hvisit, hsights, rfl⟩ := exists_watched_of_walk hn hwalk
  obtain ⟨log, hseen, hclips⟩ := (visit_clipped hn hc (f := w.frame) hrecorded hvisit).log
  rw [hsights, hseen]
  exact hclips

theorem clips_of_replay (hrecorded : w.scene.nodes.AllRecorded) {played : Canvas}
    (hreplay : replay canvas level key w = .ok played w') :
    Clips w.frame level key (w.sights .immediate () canvas level key) := by
  obtain ⟨result, hwalk, rfl⟩ := walk_of_replay hreplay
  exact clips_of_walk hrecorded Handler.immediate_neutral Handler.immediate_carries hwalk

theorem clips_of_planNode (hrecorded : w.scene.nodes.AllRecorded) {result : Canvas × Plan}
    (hplan : planNode canvas level key w = .ok result w') :
    Clips w.frame level key (w.sights .deferred {} canvas level key) :=
  clips_of_walk hrecorded Handler.deferred_neutral Handler.deferred_carries hplan

/-- Once the frame below an acyclic root is routed, every draw of the root, at once or into a plan,
hands out what is projected to a node under a clip to the bounds of the node, whatever the clip is
that its content is drawn under at that point, and elevated children under what both clips have in
common. -/
theorem routed_draws_clip (hlive : w.scene.nodes.Live root)
    (hacyclic : w.scene.nodes.Acyclic root) (hrecorded : w.scene.nodes.AllRecorded) :
    ∃ w₁, World.route root w = .ok () w₁ ∧ w₁.scene.nodes = w.scene.nodes ∧
      ∀ w₂, Draws w₁ w₂ → ∀ (canvas : Canvas) (level : Nat),
        Completes (level + w.scene.nodes.height root + 1) (replay canvas level root) w₂
          (fun _ _ => Clips w₁.frame level root (w₂.sights .immediate () canvas level root)) ∧
        Completes (level + w.scene.nodes.height root + 1) (planNode canvas level root) w₂
          (fun _ _ => Clips w₁.frame level root (w₂.sights .deferred {} canvas level root)) := by
  refine ⟨w.routed root, World.route_eq hlive hacyclic, rfl, fun w₂ hw canvas level => ?_⟩
  have hr := hw.isRouted (routed_isRouted hlive hacyclic (hrecorded.recorded root))
  have hnodes : w₂.scene.nodes = w.scene.nodes := congrArg Frame.nodes hw.frame_eq
  have hrecorded : w₂.scene.nodes.AllRecorded := hnodes ▸ hrecorded
  obtain ⟨hreplay, hplan⟩ := hr.draws_follow canvas level
  rw [hnodes] at hreplay hplan
  rw [← hw.frame_eq]
  exact ⟨hreplay.mono fun _ _ h _ => clips_of_replay hrecorded h,
    hplan.mono fun _ _ h _ => clips_of_planNode hrecorded h⟩

end World

/-! ### A badge that glows -/

namespace Badge

open Ripple (content isRecorded_content)

def badge : Key := ⟨1, 1⟩

def label : Key := ⟨2, 1⟩

def glow : Key := ⟨3, 1⟩

def face : DisplayList := content [.functor 0, .receive, .child label]

/-- The content of the badge is clipped to its outline, a quarter of its bounds.  The glow of the
label is projected onto the face of the badge. -/
def nodes : NodeStore where
  slots := #[
    ⟨1, some ⟨"badge", { Properties.ofBounds 0 0 100 100 with
      clipToOutline := true, outline := .roundRect (.ofSize 50 50) 0 }, some face⟩⟩,
    ⟨1, some ⟨"label", .ofBounds 0 0 100 100, some (content [.child glow])⟩⟩,
    ⟨1, some ⟨"glow", { Properties.ofBounds 0 0 200 200 with projects := true },
      some (content [.functor 1])⟩⟩]

def world : World where
  scene := { nodes }

theorem live : nodes.Live badge := NodeStore.live_of_links (by decide) (by decide)

theorem isTree : nodes.IsTree badge := NodeStore.isTree_of_links (by decide) (by decide)

theorem allRecorded : nodes.AllRecorded := by
  refine .of_slots fun slot hslot node hnode list hlist => ?_
  simp only [nodes, List.mem_toArray, List.mem_cons, List.not_mem_nil, or_false] at hslot
  rcases hslot with rfl | rfl | rfl <;> cases hnode <;> cases hlist <;>
    exact isRecorded_content _

def viewport : Canvas := .ofSize 60 60

theorem routed_draws_clip_badge : ∃ w₁, World.route badge world = .ok () w₁ ∧ ∃ played w₂,
    World.replay viewport 0 badge w₁ = .ok played w₂ ∧
      Clips w₁.frame 0 badge (w₁.sights .immediate () viewport 0 badge) := by
  obtain ⟨w₁, hroute, -, hdraws⟩ :=
    World.routed_draws_clip (w := world) live isTree.acyclic allRecorded
  obtain ⟨played, w₂, hplayed, hclips⟩ :=
    ((hdraws w₁ (.none w₁) viewport 0).1).exists_of_le
      (NodeStore.add_height_lt live isTree.acyclic (by decide))
  exact ⟨w₁, hroute, played, w₂, hplayed, hclips⟩

/-- The state that the face of the badge is drawn in. -/
def outlined : DisplayState where
  snapshot := { clip := some (.ofSize 50 50) }

/-- The state that the glow is handed out in. -/
def bounded : DisplayState where
  snapshot := { clip := some (.ofSize 100 100) }

/-- The face of the badge, which is the receive point, is drawn within the outline, and the glow is
handed out right after it where it reaches out of the outline, and out of the viewport. -/
theorem glow_escapes : ∃ w₁, World.route badge world = .ok () w₁ ∧
    w₁.frame.projectedAt badge = [⟨label, 0⟩] ∧ face.receiveIndex = some 0 ∧
    (∀ log ∈ [w₁.sights .immediate () viewport 0 badge, w₁.sights .deferred {} viewport 0 badge],
      .handed 0 badge (.recorded (.functor 0) face) outlined false ∈ log ∧
        .handed 0 badge (.child ⟨label, 0⟩ ⟨glow, .identity⟩) bounded false ∈ log) ∧
    ∃ p, bounded.snapshot.shows p = true ∧ outlined.snapshot.shows p = false ∧
      viewport.top.shows p = false := by
  refine ⟨world.routed badge, World.route_eq live isTree.acyclic, ?_⟩
  have hp : bounded.snapshot.shows ⟨75, 75⟩ = true ∧ outlined.snapshot.shows ⟨75, 75⟩ = false ∧
      viewport.top.shows ⟨75, 75⟩ = false := by
    decide +kernel
  refine ⟨by decide +kernel, by decide +kernel, by decide +kernel, ⟨75, 75⟩, hp⟩

end Badge

end RetainedScene
