import RetainedScene.Proofs.Walk.Agreement
import RetainedScene.Proofs.Walk.Sorting
import RetainedScene.Proofs.Walk.Walkable
import RetainedScene.Proofs.World.Placement
import RetainedScene.Proofs.World.Safety

/-!
# A frame that is drawn again

Once a frame is routed it can be drawn as often as one likes.  A draw changes nothing of the scene
but which links are held back (`World.Redrawn`): it sorts the children of the nodes that it draws,
and leaves every other link as it was.  That is no more than the next draw would do by itself, so
that each draw of the root comes to the same as the first one (`World.routed_draws_repeat`).
-/

namespace RetainedScene

variable {ω : Type}

namespace World

/-- Two operations go well with the same result, or end in the same error. -/
def SameOutcome {α : Type} :
    EStateM.Result Fatal World α → EStateM.Result Fatal World α → Prop
  | .ok a _, .ok b _ => a = b
  | .error e _, .error e' _ => e = e'
  | _, _ => False

/-- The second world is the first one after any draws of a node, at once and into plans, and after
plans were carried out. -/
inductive Reruns (root : Key) (w : World) : World → Prop
  | none : Reruns root w w
  | replay {w' w'' : World} {canvas played : Canvas} {level : Nat} (hw : Reruns root w w')
    (h : World.replay canvas level root w' = .ok played w'') : Reruns root w w''
  | plan {w' w'' : World} {canvas : Canvas} {result : Canvas × Plan} (hw : Reruns root w w')
    (h : World.plan canvas root w' = .ok result w'') : Reruns root w w''
  | flush {w' w'' : World} {canvas flushed : Canvas} {p : Plan} (hw : Reruns root w w')
    (h : World.flush canvas p w' = .ok flushed w'') : Reruns root w w''

/-- The second world is the first one after a draw in which a log was seen. -/
structure Redrawn (w : World) (log : List Sight) (w' : World) : Prop where
  /-- Nothing of the scene has changed but which links are held back. -/
  scene : w'.scene =
    { w.scene with routing := { w.scene.routing with held := w'.scene.routing.held } }
  /-- The children of the nodes that were drawn are sorted. -/
  sorts : w.frame.Sorts (w.frame.DrawnIn log) w.scene.routing.held w'.scene.routing.held

/-- A draw cannot tell the worlds apart: they differ in what is held back of the links that a draw
sorts, and in what has been written down. -/
structure Resembles (w w' : World) : Prop where
  scene : w'.scene =
    { w.scene with routing := { w.scene.routing with held := w'.scene.routing.held } }
  settings : w'.shared.settings = w.shared.settings
  asked : w'.shared.journal.asked = w.shared.journal.asked
  held : ∀ ref, (∀ child, w.scene.nodes.child? ref = some child → child.properties.projects) →
    (ref ∈ w'.scene.routing.held ↔ ref ∈ w.scene.routing.held)

variable {w w' w'' : World} {root : Key} {h : Handler ω} {canvas : Canvas} {level : Nat} {key : Key}

/-! ### Outcomes -/

namespace SameOutcome

variable {α β : Type} {m : Action α}

theorem map (hm : SameOutcome (m w) (m w')) (g : α → β) :
    SameOutcome ((g <$> m) w) ((g <$> m) w') := by
  show SameOutcome (EStateM.map g m w) (EStateM.map g m w')
  unfold EStateM.map
  cases hw : m w <;> cases hw' : m w' <;> rw [hw, hw'] at hm
  · exact congrArg g hm
  · exact hm.elim
  · exact hm.elim
  · exact hm

theorem bind {k : α → Action β} (hm : SameOutcome (m w) (m w'))
    (hk : ∀ a w w', SameOutcome (k a w) (k a w')) : SameOutcome ((m >>= k) w) ((m >>= k) w') := by
  show SameOutcome (EStateM.bind m k w) (EStateM.bind m k w')
  unfold EStateM.bind
  cases hw : m w <;> cases hw' : m w' <;> rw [hw, hw'] at hm
  · obtain rfl : _ = _ := hm
    exact hk _ _ _
  · exact hm.elim
  · exact hm.elim
  · exact hm

end SameOutcome

/-! ### One draw -/

theorem Resembles.refl (w : World) : w.Resembles w where
  scene := rfl
  settings := rfl
  asked := rfl
  held _ _ := Iff.rfl

theorem Resembles.trans (hw : w.Resembles w') (hw' : w'.Resembles w'') : w.Resembles w'' where
  scene := by rw [hw'.scene, hw.scene]
  settings := hw'.settings.trans hw.settings
  asked := hw'.asked.trans hw.asked
  held ref href := by
    have hnodes : w'.scene.nodes = w.scene.nodes := by rw [hw.scene]
    exact (hw'.held ref (hnodes.symm ▸ href)).trans (hw.held ref href)

theorem Resembles.frame_eq (hw : w.Resembles w') : w'.frame = w.frame := by
  unfold frame
  rw [hw.scene, hw.settings]

theorem Resembles.log (w : World) (e : Event) : w.Resembles (w.log e) where
  scene := rfl
  settings := rfl
  asked := rfl
  held _ _ := Iff.rfl

/-- A draw of the root of a frame that was routed. -/
theorem redrawn_of_walk (hr : w.IsRouted root) (hn : h.Neutral) {start : ω}
    {result : Canvas × ω} (hwalk : walk h start canvas level root w = .ok result w') :
    w.Redrawn (w.sights h start canvas level root) w' ∧ w.Resembles w' := by
  have hends := watched_ends hn w start canvas level root
  rw [walk_eq hn] at hwalk
  unfold sights
  cases hvisit : visit h.watched w.frame (levelCount - level) level root
      (w.stage canvas (start, [])) with
  | error e s =>
    rw [hvisit] at hwalk
    simp only [fail_apply] at hwalk
    cases hwalk
  | ok a s =>
    rw [hvisit] at hwalk hends
    cases hwalk
    have hasked : s.journal.asked = w.shared.journal.asked := by
      cases hplain : visit h w.frame (levelCount - level) level root (w.stage canvas start) with
      | error e t => rw [hplain] at hends; exact hends.elim
      | ok b t =>
        rw [hplain] at hends
        obtain ⟨-, -, rfl, hasked⟩ := hends
        exact hasked
    obtain ⟨log, hlog, -, hsorts⟩ := visit_sweeps hn hvisit hr.sound hr.settled
    obtain rfl : s.seen = log := hlog
    refine ⟨⟨rfl, hsorts⟩, rfl, rfl, hasked, fun ref href => ?_⟩
    refine hsorts.kept ref fun child hchild hprojects => ?_
    rw [href child hchild] at hprojects
    cases hprojects

theorem redrawn_of_replay (hr : w.IsRouted root) {played : Canvas}
    (h : replay canvas level root w = .ok played w') :
    w.Redrawn (w.sights .immediate () canvas level root) w' ∧ w.Resembles w' := by
  obtain ⟨result, hwalk, -⟩ := walk_of_replay h
  exact redrawn_of_walk hr Handler.immediate_neutral hwalk

theorem redrawn_of_plan (hr : w.IsRouted root) {result : Canvas × Plan}
    (h : plan canvas root w = .ok result w') :
    w.Redrawn (w.sights .deferred {} canvas 0 root) w' ∧ w.Resembles w' := by
  obtain ⟨w₁, e, hplan, rfl⟩ := planNode_of_plan h
  obtain ⟨hredrawn, hresembles⟩ := redrawn_of_walk hr Handler.deferred_neutral hplan
  exact ⟨⟨hredrawn.scene, hredrawn.sorts⟩, hresembles.trans (.log w₁ e)⟩

/-! ### Draws after one another -/

theorem Reruns.redraws (hw : Reruns root w w') : Redraws w w' := by
  induction hw with
  | none => exact .none
  | replay _ h ih => exact ih.replay h
  | plan _ h ih => exact ih.plan h
  | flush _ h ih => exact ih.flush h

theorem Reruns.resembles (hw : Reruns root w w') (hr : w.IsRouted root) : w.Resembles w' := by
  induction hw with
  | none => exact .refl w
  | replay hw h ih =>
    exact ih.trans (redrawn_of_replay (hw.redraws.isRouted hr).2 h).2
  | plan hw h ih => exact ih.trans (redrawn_of_plan (hw.redraws.isRouted hr).2 h).2
  | flush hw h ih =>
    cases h
    exact ih.trans (.log _ _)

/-- Two draws of a node come to the same in worlds that they cannot tell apart. -/
theorem Resembles.walk (hw : w.Resembles w') (hn : h.Neutral) (ho : h.Oblivious) (start : ω)
    (canvas : Canvas) (level : Nat) (key : Key) :
    SameOutcome (World.walk h start canvas level key w)
      (World.walk h start canvas level key w') := by
  have hagrees : (w.stage canvas start).Agrees w.scene.nodes w.shared.journal.asked
      (fun _ => False) (w'.stage canvas start) := by
    refine ⟨rfl, rfl, rfl, hw.asked, fun ref href => ?_⟩
    exact (hw.held ref (href.resolve_left id)).symm
  have halike : Handler.AlikeOn w.frame.nodes (Stage.Agrees w.scene.nodes w.shared.journal.asked)
      w.shared.journal.asked h h := ho.alikeOn hn _ _
  have hends := halike.visit (fun _ => False) (levelCount - level) level key _ _ hagrees
  rw [walk_apply, walk_apply, hw.frame_eq]
  revert hends
  generalize visit h w.frame (levelCount - level) level key (w.stage canvas start) = m
  generalize visit h w.frame (levelCount - level) level key (w'.stage canvas start) = n
  intro hends
  cases m <;> cases n
  · show (_, _) = (_, _)
    rw [hends.2.2.canvas, hends.2.2.gathered]
  · exact hends.elim
  · exact hends.elim
  · simp only [fail_apply]
    exact hends.1

theorem Resembles.replay (hw : w.Resembles w') (canvas : Canvas) (level : Nat) (key : Key) :
    SameOutcome (World.replay canvas level key w) (World.replay canvas level key w') :=
  (hw.walk Handler.immediate_neutral Handler.immediate_oblivious () canvas level key).map _

theorem Resembles.plan (hw : w.Resembles w') (canvas : Canvas) (key : Key) :
    SameOutcome (World.plan canvas key w) (World.plan canvas key w') :=
  (hw.walk Handler.deferred_neutral Handler.deferred_oblivious {} canvas 0 key).bind
    fun _ _ _ => rfl

/-- Once the frame below an acyclic root is routed, draws of the root come to the same however often
it was drawn before, at once and into plans: to the same canvas, or the same error, and those into a
plan to the same plan as well, so that it comes to the same canvas on any target.  All that draws
change of the scene is which links are held back.
After them every link in the list of a node that is reached is held back, and each draw has sorted
the children of the nodes that it has drawn. -/
theorem routed_draws_repeat (hlive : w.scene.nodes.Live root)
    (hacyclic : w.scene.nodes.Acyclic root) (hrecorded : w.scene.nodes.Recorded root) :
    ∃ w₁, World.route root w = .ok () w₁ ∧ w₁.scene.nodes = w.scene.nodes ∧
      ∀ w₂, Reruns root w₁ w₂ →
        w₂.scene =
          { w₁.scene with routing := { w₁.scene.routing with held := w₂.scene.routing.held } } ∧
        (∀ key, w.scene.nodes.Reaches root key → ∀ ref ∈ w₁.scene.routing.projectedAt key,
          ref ∈ w₂.scene.routing.held) ∧
        ∀ canvas : Canvas,
          (∀ level, SameOutcome (World.replay canvas level root w₁)
            (World.replay canvas level root w₂)) ∧
          SameOutcome (World.plan canvas root w₁) (World.plan canvas root w₂) ∧
          (∀ target, SameOutcome ((World.plan canvas root >>= fun result =>
            flush target result.2) w₁) ((World.plan canvas root >>= fun result =>
              flush target result.2) w₂)) ∧
          (∀ level, Completes (level + w.scene.nodes.height root + 1)
            (World.replay canvas level root) w₂ fun _ w₃ => Reruns root w₁ w₃ ∧
              w₂.Redrawn (w₂.sights .immediate () canvas level root) w₃) ∧
          Completes (w.scene.nodes.height root + 1) (World.plan canvas root) w₂ fun _ w₃ =>
            Reruns root w₁ w₃ ∧ w₂.Redrawn (w₂.sights .deferred {} canvas 0 root) w₃ := by
  have hrouted := routed_isRouted hlive hacyclic hrecorded
  refine ⟨w.routed root, World.route_eq hlive hacyclic, rfl, fun w₂ hw => ?_⟩
  have hresembles := hw.resembles hrouted
  obtain ⟨hframe, hr⟩ := hw.redraws.isRouted hrouted
  have hnodes : w₂.scene.nodes = w.scene.nodes := congrArg Frame.nodes hframe
  have hcompletes := ready_draws_complete hr.sound.ready
  refine ⟨hresembles.scene, fun key hkey ref href => ?_, fun canvas => ⟨fun level => ?_,
    ?_, fun target => ?_, fun level => ?_, ?_⟩⟩
  · have hkey : w₂.scene.nodes.Reaches root key := hnodes.symm ▸ hkey
    have href : ref ∈ (w.routed root).frame.projectedAt key := Array.mem_toList_iff.mpr href
    rw [← hframe] at href
    obtain ⟨hparent, edge, child, hedge, hchild, hdraws, hprojects⟩ :=
      hr.sound.listed key hkey ref href
    exact hr.settled ref child (hkey.trans hparent) ((NodeStore.child?_eq hedge).trans hchild)
      hdraws hprojects
  · exact hresembles.replay canvas level root
  · exact hresembles.plan canvas root
  · exact (hresembles.plan canvas root).bind fun _ _ _ => rfl
  · rw [← hnodes]
    exact (hcompletes canvas level).1.mono fun played w₃ hreplay _ =>
      ⟨hw.replay hreplay, (redrawn_of_replay hr hreplay).1⟩
  · rw [← hnodes]
    have hplans := (hcompletes canvas 0).2
    rw [Nat.zero_add] at hplans
    exact .of_planNode hplans fun result w₃ hplan =>
      ⟨hw.plan hplan, (redrawn_of_plan hr hplan).1⟩

end World

/-- The shelf is drawn again as it was drawn first, at once and into a plan. -/
theorem Shelf.routed_draws_repeat_shelf : ∃ w₁ played w₂ result w₂',
    World.route shelf world = .ok () w₁ ∧ World.replay {} 0 shelf w₁ = .ok played w₂ ∧
      World.plan {} shelf w₁ = .ok result w₂' ∧ ∃ w₃ w₃',
        World.replay {} 0 shelf w₂ = .ok played w₃ ∧ World.plan {} shelf w₂ = .ok result w₃' := by
  obtain ⟨w₁, hroute, -, hdraws⟩ :=
    World.routed_draws_repeat (w := world) live isTree.acyclic (allRecorded.recorded shelf)
  have hroom : 0 + nodes.height shelf < 32767 :=
    NodeStore.add_height_lt live isTree.acyclic (by decide)
  have hplanroom : nodes.height shelf < 32767 := (Nat.zero_add _).symm.trans_lt hroom
  obtain ⟨-, -, hfirst⟩ := hdraws w₁ .none
  obtain ⟨-, -, -, hreplays, hplans⟩ := hfirst {}
  obtain ⟨played, w₂, hplayed, hreruns, -⟩ := (hreplays 0).exists_of_le hroom
  obtain ⟨result, w₂', hplanned, -⟩ := hplans.exists_of_le hplanroom
  obtain ⟨-, -, hagain⟩ := hdraws w₂ hreruns
  obtain ⟨hsame, hsameplan, -, hreplays, hplans⟩ := hagain {}
  obtain ⟨played', w₃, hplayed', -⟩ := (hreplays 0).exists_of_le hroom
  obtain ⟨result', w₃', hplanned', -⟩ := hplans.exists_of_le hplanroom
  have hsame := hsame 0
  rw [hplayed, hplayed'] at hsame
  rw [hplanned, hplanned'] at hsameplan
  obtain rfl : played = played' := hsame
  obtain rfl : result = result' := hsameplan
  exact ⟨w₁, played, w₂, result, w₂', hroute, hplayed, hplanned, w₃, w₃', hplayed', hplanned'⟩

end RetainedScene
