import RetainedScene.Proofs.Walk.Placed
import RetainedScene.Proofs.World.DrawOrder

/-!
# The placement of what is drawn out of place

A draw in a world of recorded contents hands out every link under the transform of its placement
(`World.draw_places`), and once a frame is routed every draw of its root does so and comes to its
end (`World.routed_draws_place`).

A recorded link has the transforms that were recorded before it in its own.  In its place that is
the transform it is drawn under, and below zero the link is placed by it from where the content
begins.  From zero on, and at the receive point, a link is placed by it from what the content has
come to by then.  What the content transforms outside of saves is then in the placement twice:
`Shelf.vase_lifted_twice` and `Shelf.mat_lifted_twice` show it.
-/

namespace RetainedScene

variable {ω : Type}

/-- The link that was handed out and is descended into, with the transform of that moment. -/
def Sight.placement? : Sight → Option (EdgeRef × Matrix)
  | handed _ _ (.child ref _) state false => some (ref, state.snapshot.transform)
  | _ => none

namespace NodeStore.AllRecorded

variable {nodes : NodeStore}

theorem recorded (h : nodes.AllRecorded) (root : Key) : nodes.Recorded root :=
  fun key node list _ hnode hlist => h key node list hnode hlist

theorem of_slots (h : ∀ slot ∈ nodes.slots, ∀ node ∈ slot.content, ∀ list ∈ node.content,
    list.IsRecorded) : nodes.AllRecorded := by
  intro key node list hnode hlist
  have hrecorded : nodes.Recorded key := recorded_of_slots h
  exact hrecorded key node list .refl hnode hlist

end NodeStore.AllRecorded

namespace World

variable {w w' : World} {root : Key} {h : Handler ω}

/-- A walk of recorded contents that comes to its end has handed out every link as it is placed, and
leaves the states of the canvas as they were. -/
theorem places_of_walk (hrecorded : w.scene.nodes.AllRecorded) (hn : h.Neutral) (hc : h.Carries)
    {start : ω} {canvas : Canvas} {level : Nat} {key : Key} {result : Canvas × ω}
    (hwalk : walk h start canvas level key w = .ok result w') :
    result.1.stack = canvas.stack ∧
      Places w.frame level key canvas.transform (w.sights h start canvas level key) := by
  obtain ⟨s, hvisit, hsights, rfl⟩ := exists_watched_of_walk hn hwalk
  have hends := visit_places hn hc (f := w.frame) hrecorded (levelCount - level) level key
    (w.stage canvas (start, []))
  unfold Walk.EndsAs Walk.Ends at hends
  rw [hvisit] at hends
  obtain ⟨hstack, log, hseen, hplaces⟩ := hends
  rw [hsights, hseen]
  exact ⟨hstack, hplaces⟩

theorem places_of_replay (hrecorded : w.scene.nodes.AllRecorded) {canvas played : Canvas}
    {level : Nat} {key : Key} (hreplay : replay canvas level key w = .ok played w') :
    played.stack = canvas.stack ∧
      Places w.frame level key canvas.transform (w.sights .immediate () canvas level key) := by
  obtain ⟨result, hwalk, rfl⟩ := walk_of_replay hreplay
  exact places_of_walk hrecorded Handler.immediate_neutral Handler.immediate_carries hwalk

theorem places_of_planNode (hrecorded : w.scene.nodes.AllRecorded) {canvas : Canvas} {level : Nat}
    {key : Key} {result : Canvas × Plan} (hplan : planNode canvas level key w = .ok result w') :
    result.1.stack = canvas.stack ∧
      Places w.frame level key canvas.transform (w.sights .deferred {} canvas level key) :=
  places_of_walk hrecorded Handler.deferred_neutral Handler.deferred_carries hplan

/-- A draw of recorded contents, at once or into a plan, hands out each link as it is placed,
whether or not the scene was routed: an elevated child below zero from where the content of its
parent begins, and one from zero on from what all operations of the content have come to. -/
theorem draw_places (hrecorded : w.scene.nodes.AllRecorded) (canvas : Canvas) (level : Nat)
    (key : Key) :
    (∀ played w', replay canvas level key w = .ok played w' → played.stack = canvas.stack ∧
      Places w.frame level key canvas.transform (w.sights .immediate () canvas level key)) ∧
    ∀ result w', planNode canvas level key w = .ok result w' → result.1.stack = canvas.stack ∧
      Places w.frame level key canvas.transform (w.sights .deferred {} canvas level key) :=
  ⟨fun _ _ h => places_of_replay hrecorded h, fun _ _ h => places_of_planNode hrecorded h⟩

/-- Once the frame below an acyclic root is routed, every draw of the root, at once or into a plan,
hands out each link as it is placed in that frame: what is projected to a node from what the
operations of its content up to the receive point have come to. -/
theorem routed_draws_place (hlive : w.scene.nodes.Live root)
    (hacyclic : w.scene.nodes.Acyclic root) (hrecorded : w.scene.nodes.AllRecorded) :
    ∃ w₁, World.route root w = .ok () w₁ ∧ w₁.scene.nodes = w.scene.nodes ∧
      ∀ w₂, Draws w₁ w₂ → ∀ (canvas : Canvas) (level : Nat),
        Completes (level + w.scene.nodes.height root + 1) (replay canvas level root) w₂
          (fun played _ => played.stack = canvas.stack ∧ Places w₁.frame level root canvas.transform
            (w₂.sights .immediate () canvas level root)) ∧
        Completes (level + w.scene.nodes.height root + 1) (planNode canvas level root) w₂
          (fun result _ => result.1.stack = canvas.stack ∧
            Places w₁.frame level root canvas.transform
              (w₂.sights .deferred {} canvas level root)) := by
  refine ⟨w.routed root, World.route_eq hlive hacyclic, rfl, fun w₂ hw canvas level => ?_⟩
  have hr := hw.isRouted (routed_isRouted hlive hacyclic (hrecorded.recorded root))
  have hnodes : w₂.scene.nodes = w.scene.nodes := congrArg Frame.nodes hw.frame_eq
  have hrecorded : w₂.scene.nodes.AllRecorded := hnodes ▸ hrecorded
  obtain ⟨hreplay, hplan⟩ := hr.draws_follow canvas level
  rw [hnodes] at hreplay hplan
  rw [← hw.frame_eq]
  exact ⟨hreplay.mono fun _ _ h _ => places_of_replay hrecorded h,
    hplan.mono fun _ _ h _ => places_of_planNode hrecorded h⟩

end World

/-! ### A shelf that is lifted -/

namespace Shelf

open Ripple (content isRecorded_content)

def lift : Matrix := .translation 0 0 5

def shelf : Key := ⟨1, 1⟩

def vase : Key := ⟨2, 1⟩

def tray : Key := ⟨3, 1⟩

def mat : Key := ⟨4, 1⟩

/-- A vase stands above the shelf, and the mat on the tray is projected onto the shelf.  The shelf
is lifted outside of any save, before its links are recorded. -/
def nodes : NodeStore where
  slots := #[
    ⟨1, some ⟨"shelf", .ofBounds 0 0 100 100,
      some (content [.concat lift, .receive, .child vase, .child tray])⟩⟩,
    ⟨1, some ⟨"vase", { Properties.ofBounds 0 0 10 10 with elevation := 1 },
      some (content [.functor 0])⟩⟩,
    ⟨1, some ⟨"tray", .ofBounds 0 0 100 100, some (content [.child mat])⟩⟩,
    ⟨1, some ⟨"mat", { Properties.ofBounds 0 0 10 10 with projects := true },
      some (content [.functor 1])⟩⟩]

def world : World where
  scene := { nodes }

theorem live : nodes.Live shelf := NodeStore.live_of_links (by decide) (by decide)

theorem isTree : nodes.IsTree shelf := NodeStore.isTree_of_links (by decide) (by decide)

theorem allRecorded : nodes.AllRecorded := by
  refine .of_slots fun slot hslot node hnode list hlist => ?_
  simp only [nodes, List.mem_toArray, List.mem_cons, List.not_mem_nil, or_false] at hslot
  rcases hslot with rfl | rfl | rfl | rfl <;> cases hnode <;> cases hlist <;>
    exact isRecorded_content _

theorem draw_places_vase : ∃ w₁ played w₂, World.route shelf world = .ok () w₁ ∧
    World.replay {} 0 shelf w₁ = .ok played w₂ ∧
      Places w₁.frame 0 shelf .identity (w₁.sights .immediate () {} 0 shelf) := by
  have hroute : World.route shelf world = .ok () (world.routed shelf) :=
    World.route_eq live isTree.acyclic
  have hr := World.routed_isRouted (w := world) live isTree.acyclic (allRecorded.recorded shelf)
  have hnodes : (world.routed shelf).scene.nodes = nodes := rfl
  generalize world.routed shelf = w₁ at hroute hr hnodes
  have hroom : 0 + w₁.scene.nodes.height shelf < 32767 := by
    rw [hnodes]
    exact NodeStore.add_height_lt live isTree.acyclic (by decide)
  have hrecorded : w₁.scene.nodes.AllRecorded := hnodes ▸ allRecorded
  obtain ⟨played, w₂, hplayed, -⟩ := ((hr.draws_follow {} 0).1).exists_of_le hroom
  exact ⟨w₁, played, w₂, hroute, hplayed,
    ((World.draw_places hrecorded {} 0 shelf).1 played w₂ hplayed).2⟩

/-- The vase is recorded and handed out under a lift each, so that it is lifted twice: it is not
placed from where the content of the shelf begins. -/
theorem vase_lifted_twice : ∃ lifted ∈ (world.sights .immediate () {} 0 shelf).filterMap
    Sight.placement?, lifted = (⟨shelf, 0⟩, lift * lift) ∧
      nodes.edge ⟨shelf, 0⟩ = .ok ⟨vase, .identity * lift⟩ ∧
      lifted.2 ≠ (Properties.ofBounds 0 0 100 100).apply false .identity * (.identity * lift) := by
  decide +kernel

theorem routed_draws_place_mat : ∃ w₁, World.route shelf world = .ok () w₁ ∧ ∃ played w₂,
    World.replay {} 0 shelf w₁ = .ok played w₂ ∧
      Places w₁.frame 0 shelf .identity (w₁.sights .immediate () {} 0 shelf) := by
  obtain ⟨w₁, hroute, -, hdraws⟩ :=
    World.routed_draws_place (w := world) live isTree.acyclic allRecorded
  obtain ⟨played, w₂, hplayed, -, hplaces⟩ :=
    ((hdraws w₁ (.none w₁) {} 0).1).exists_of_le
      (NodeStore.add_height_lt live isTree.acyclic (by decide))
  exact ⟨w₁, hroute, played, w₂, hplayed, hplaces⟩

/-- The mat is projected under the lift of the tray that it lies on, and is handed out under the
lift of the shelf as well: it is not placed from where the content of the shelf begins. -/
theorem mat_lifted_twice : ∃ w₁, World.route shelf world = .ok () w₁ ∧
    ∃ lifted ∈ (w₁.sights .immediate () {} 0 shelf).filterMap Sight.placement?,
      lifted.1 = ⟨tray, 0⟩ ∧ w₁.frame.projectedAt shelf = [⟨tray, 0⟩] ∧
        lifted.2 = lift * lift ∧ w₁.frame.compositingOf ⟨tray, 0⟩ = lift ∧
          lifted.2 ≠ (Properties.ofBounds 0 0 100 100).apply false .identity *
            w₁.frame.compositingOf ⟨tray, 0⟩ :=
  ⟨world.routed shelf, World.route_eq live isTree.acyclic, by decide +kernel⟩

end Shelf

end RetainedScene
