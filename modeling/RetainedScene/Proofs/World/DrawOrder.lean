import RetainedScene.Proofs.Scene.Checks
import RetainedScene.Proofs.Walk.Order
import RetainedScene.Proofs.Walk.Retention

/-!
# The draw order of a frame

After a frame was routed below a root, every way to draw the root draws each node as its agenda says
(`World.draws_by_agenda`), whatever was held back before the frame was routed, and whatever was
drawn since.  Only a limit that nodes must be nested deep for can end a draw early.
-/

namespace RetainedScene

variable {ω : Type}

/-- An operation on a world comes to its end, or ends at a limit that nodes must be nested deep
for. -/
def World.Completes {α : Type} (bound : Nat) (m : Action α) (w : World)
    (fine : α → World → Prop) : Prop :=
  match m w with
  | .ok a w' => fine a w'
  | .error e _ => e.IsLimit bound

/-- The second world is the first one after draws of some of its nodes. -/
inductive World.Draws : World → World → Prop
  | none (w : World) : Draws w w
  | draw {ω : Type} {w w' w'' : World} {h : Handler ω} {start : ω} {canvas : Canvas} {level : Nat}
    {key : Key} {result : Canvas × ω} (hw : Draws w w') (hn : h.Neutral)
    (hdraw : World.walk h start canvas level key w' = .ok result w'') : Draws w w''

/-- The frame below a root was routed, and the routing is in force. -/
structure World.IsRouted (w : World) (root : Key) : Prop where
  sound : w.frame.Sound root
  settled : w.frame.Settled root w.scene.routing.held

namespace World

variable {w w' : World} {root : Key} {h : Handler ω}

theorem Completes.mono {α : Type} {bound : Nat} {m : Action α} {fine fine' : α → World → Prop}
    (hm : Completes bound m w fine) (hfine : ∀ a w', m w = .ok a w' → fine a w' → fine' a w') :
    Completes bound m w fine' := by
  unfold Completes at hm ⊢
  cases hres : m w with
  | ok a w' => rw [hres] at hm; exact hfine a w' hres hm
  | error e w' => rw [hres] at hm; exact hm

theorem Completes.map {α β : Type} {bound : Nat} {m : Action α} {fine : α → World → Prop}
    {fine' : β → World → Prop} (hm : Completes bound m w fine) (g : α → β)
    (hfine : ∀ a w', fine a w' → fine' (g a) w') : Completes bound (g <$> m) w fine' := by
  unfold Completes at hm ⊢
  show match EStateM.map g m w with
    | .ok b w' => fine' b w'
    | .error e _ => e.IsLimit bound
  unfold EStateM.map
  cases hres : m w with
  | ok a w' => rw [hres] at hm; exact hfine a w' hm
  | error e w' => rw [hres] at hm; exact hm

theorem Completes.bind {α β : Type} {bound : Nat} {m : Action α} {k : α → Action β}
    {fine : α → World → Prop} {fine' : β → World → Prop} (hm : Completes bound m w fine)
    (hk : ∀ a w', fine a w' → Completes bound (k a) w' fine') :
    Completes bound (m >>= k) w fine' := by
  unfold Completes at hm
  show match EStateM.bind m k w with
    | .ok b w' => fine' b w'
    | .error e _ => e.IsLimit bound
  unfold EStateM.bind
  cases hres : m w with
  | ok a w₁ =>
    rw [hres] at hm
    exact hk a w₁ hm
  | error e w₁ =>
    rw [hres] at hm
    exact hm

theorem Completes.weaken {α : Type} {bound bound' : Nat} {m : Action α} {fine : α → World → Prop}
    (hm : Completes bound m w fine) (hbound : bound ≤ bound') : Completes bound' m w fine := by
  unfold Completes at hm ⊢
  cases hres : m w with
  | ok a w₁ =>
    rw [hres] at hm
    exact hm
  | error e w₁ =>
    rw [hres] at hm
    exact ⟨hm.1, by have := hm.2; omega⟩

/-- Where nodes are not nested deep an operation goes well. -/
theorem Completes.exists_of_le {α : Type} {bound : Nat} {m : Action α} {fine : α → World → Prop}
    (h : Completes bound m w fine) (hbound : bound ≤ 32767) :
    ∃ a w', m w = .ok a w' ∧ fine a w' := by
  unfold Completes at h
  cases hres : m w with
  | ok a w' =>
    rw [hres] at h
    exact ⟨a, w', rfl, h⟩
  | error e w' =>
    rw [hres] at h
    exact absurd h.2 (Nat.not_lt.mpr hbound)

theorem exists_of_walk_eq_ok {start : ω} {canvas : Canvas} {level : Nat} {key : Key}
    {result : Canvas × ω} (hwalk : walk h start canvas level key w = .ok result w') :
    ∃ s, visit h w.frame (levelCount - level) level key (w.stage canvas start) = .ok () s ∧
      w' = w.afterWalk s ∧ result = (s.canvas, s.gathered) := by
  rw [walk_apply] at hwalk
  cases hvisit : visit h w.frame (levelCount - level) level key (w.stage canvas start) with
  | ok a s =>
    rw [hvisit] at hwalk
    injection hwalk with hresult hw'
    exact ⟨s, rfl, hw'.symm, hresult.symm⟩
  | error e s =>
    rw [hvisit] at hwalk
    have hfail : fail e (w.afterWalk s) = .ok result w' := hwalk
    rw [fail_apply] at hfail
    cases hfail

/-- A walk that comes to its end does so under watch. -/
theorem exists_watched_of_walk (hn : h.Neutral) {start : ω} {canvas : Canvas} {level : Nat}
    {key : Key} {result : Canvas × ω} (hwalk : walk h start canvas level key w = .ok result w') :
    ∃ s, visit h.watched w.frame (levelCount - level) level key (w.stage canvas (start, [])) =
        .ok () s ∧ w.sights h start canvas level key = s.seen ∧
      result = (s.canvas, s.gathered.1) := by
  rw [walk_eq hn] at hwalk
  unfold sights
  cases hvisit : visit h.watched w.frame (levelCount - level) level key
      (w.stage canvas (start, [])) with
  | ok a s =>
    rw [hvisit] at hwalk
    injection hwalk with hresult
    exact ⟨s, rfl, rfl, hresult.symm⟩
  | error e s =>
    rw [hvisit] at hwalk
    simp only [fail_apply] at hwalk
    cases hwalk

theorem exists_of_map_eq_ok {α β : Type} {m : Action α} {g : α → β} {b : β}
    (h : (g <$> m) w = .ok b w') : ∃ a, m w = .ok a w' ∧ g a = b := by
  change EStateM.map g m w = _ at h
  unfold EStateM.map at h
  cases hm : m w with
  | ok a w₁ =>
    rw [hm] at h
    cases h
    exact ⟨a, rfl, rfl⟩
  | error e w₁ =>
    rw [hm] at h
    cases h

theorem walk_of_replay {canvas played : Canvas} {level : Nat} {key : Key}
    (hreplay : replay canvas level key w = .ok played w') :
    ∃ result, walk .immediate () canvas level key w = .ok result w' ∧ result.1 = played :=
  exists_of_map_eq_ok hreplay

/-- Drawing changes nothing that a walk reads of a world. -/
theorem Draws.frame_eq (hw : Draws w w') : w'.frame = w.frame := by
  induction hw with
  | none => rfl
  | draw _ _ hdraw ih =>
    obtain ⟨s, -, rfl, -⟩ := exists_of_walk_eq_ok hdraw
    exact ih

theorem Draws.isRouted (hw : Draws w w') (hr : w.IsRouted root) : w'.IsRouted root := by
  induction hw with
  | none => exact hr
  | @draw ω w w' w'' h start canvas level key result hw hn hdraw ih =>
    have hr' := ih hr
    obtain ⟨s, hvisit, rfl, -⟩ := exists_of_walk_eq_ok hdraw
    refine ⟨hr'.sound, fun ref child hreach hchild hdraws hprojects => ?_⟩
    -- a draw changes nothing but what is held back, and keeps the projecting links in it
    have hretains :=
      visit_retains hn w'.frame (levelCount - level) level key (w'.stage canvas start)
    unfold Walk.Ends at hretains
    rw [hvisit] at hretains
    exact hretains ref child hchild hprojects (hr'.settled ref child hreach hchild hdraws hprojects)

theorem routed_isRouted (hlive : w.scene.nodes.Live root) (hacyclic : w.scene.nodes.Acyclic root)
    (hrecorded : w.scene.nodes.Recorded root) : (w.routed root).IsRouted root :=
  ⟨routed_sound hlive hacyclic hrecorded, routed_settled hlive hacyclic hrecorded⟩

/-- A walk of the root under watch. -/
theorem IsRouted.visit_ends (hr : w.IsRouted root) (hn : h.Neutral) (start : ω) (canvas : Canvas)
    (level : Nat) : (visit h.watched w.frame (levelCount - level) level root).Ends
      (w.stage canvas (start, [])) (fun _ t => Follows w.frame level root t.seen)
      fun e _ => e.IsLimit (level + w.scene.nodes.height root + 1) := by
  refine (visit_follows hn rfl hr.sound (Nat.lt_succ_self _) hr.settled).imp
    fun _ t hvisited => ?_
  obtain ⟨log, hseen, hfollows⟩ := hvisited.log
  rw [hseen]
  exact hfollows

/-- A walk of the root draws every node as its agenda says. -/
theorem IsRouted.walk_follows (hr : w.IsRouted root) (hn : h.Neutral) (start : ω) (canvas : Canvas)
    (level : Nat) :
    Completes (level + w.scene.nodes.height root + 1) (walk h start canvas level root) w
      fun _ _ => Follows w.frame level root (w.sights h start canvas level root) := by
  have hends := hr.visit_ends hn start canvas level
  unfold Walk.Ends at hends
  unfold Completes sights
  rw [walk_eq hn]
  cases hvisit : visit h.watched w.frame (levelCount - level) level root
      (w.stage canvas (start, [])) with
  | ok a s =>
    rw [hvisit] at hends
    exact hends
  | error e s =>
    rw [hvisit] at hends
    simp only [fail_apply]
    exact hends

/-- A draw at once and a draw into a plan follow the agendas. -/
theorem IsRouted.draws_follow (hr : w.IsRouted root) (canvas : Canvas) (level : Nat) :
    Completes (level + w.scene.nodes.height root + 1) (replay canvas level root) w
      (fun _ _ => Follows w.frame level root (w.sights .immediate () canvas level root)) ∧
    Completes (level + w.scene.nodes.height root + 1) (planNode canvas level root) w
      (fun _ _ => Follows w.frame level root (w.sights .deferred {} canvas level root)) :=
  ⟨(hr.walk_follows Handler.immediate_neutral () canvas level).map _ fun _ _ h => h,
    hr.walk_follows Handler.deferred_neutral {} canvas level⟩

/-- Once the frame below a root is routed, each node that is walked in a draw of the root, at once
or into a plan, is drawn as its agenda says, whatever was held back before and whatever was drawn
since. -/
theorem draws_by_agenda (hlive : w.scene.nodes.Live root) (hacyclic : w.scene.nodes.Acyclic root)
    (hrecorded : w.scene.nodes.Recorded root) :
    ∃ w₁, World.route root w = .ok () w₁ ∧ w₁.scene.nodes = w.scene.nodes ∧
      ∀ w₂, Draws w₁ w₂ → w₂.frame = w₁.frame ∧ ∀ (canvas : Canvas) (level : Nat),
        Completes (level + w.scene.nodes.height root + 1) (replay canvas level root) w₂
          (fun _ _ => Follows w₁.frame level root (w₂.sights .immediate () canvas level root)) ∧
        Completes (level + w.scene.nodes.height root + 1) (planNode canvas level root) w₂
          (fun _ _ => Follows w₁.frame level root (w₂.sights .deferred {} canvas level root)) := by
  refine ⟨w.routed root, World.route_eq hlive hacyclic, rfl, fun w₂ hw => ⟨hw.frame_eq, ?_⟩⟩
  intro canvas level
  have hr := hw.isRouted (routed_isRouted hlive hacyclic hrecorded)
  have hfollows := hr.draws_follow canvas level
  have hnodes : w₂.scene.nodes = w.scene.nodes := congrArg Frame.nodes hw.frame_eq
  rwa [hw.frame_eq, hnodes] at hfollows

end World

theorem Ripple.draws_list_by_agenda : ∃ w₁, World.route list world = .ok () w₁ ∧
    World.Completes 3 (World.replay {} 0 list) w₁
      fun _ _ => Follows w₁.frame 0 list (w₁.sights .immediate () {} 0 list) := by
  obtain ⟨w₁, hroute, -, hdraws⟩ := World.draws_by_agenda (w := world) live isTree.acyclic recorded
  have hroom : 0 + nodes.height list < 3 := NodeStore.add_height_lt live isTree.acyclic (by decide)
  exact ⟨w₁, hroute, ((hdraws w₁ (.none w₁)).2 {} 0).1.weaken hroom⟩

end RetainedScene
