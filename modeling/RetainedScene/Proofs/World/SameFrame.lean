import RetainedScene.Proofs.Walk.Deferral
import RetainedScene.Proofs.World.DrawOrder

/-!
# One frame, at once or from a plan

A draw at once and a draw into a plan that begin on the same canvas in the same world see the same
(`World.sights_plan_eq`) and end alike.  What the one draws the plan draws too, on whatever canvas
it is carried out (`World.plan_draws_as_replay`).
-/

namespace RetainedScene

/-- What a draw at once and a draw into a plan, begun on one canvas in one world, come to. -/
structure World.SameFrame (w : World) (canvas played : Canvas) (w₁ : World) (tracked : Canvas)
    (p : Plan) (w₂ : World) : Prop where
  /-- The plan makes the same draws, whatever the canvas that it is carried out on. -/
  drawn : ∃ draws, played.draws = canvas.draws ++ draws ∧ ∀ target w', ∃ flushed w'',
    World.flush target p w' = .ok flushed w'' ∧ flushed.draws = target.draws ++ draws
  /-- Nothing is drawn while the plan is made. -/
  tracked : tracked.draws = canvas.draws
  recent : ∃ entries, w₁.shared.recent = w.shared.recent.writeAll entries ∧
    w₂.shared.recent = w.shared.recent.writeAll entries

namespace World

variable {w w₁ w₂ : World} {root : Key} {canvas : Canvas} {s : Stage (Unit × List Sight)}
  {t : Stage (Plan × List Sight)}

theorem stage_deferral (w : World) (canvas : Canvas) :
    Deferral w.shared.journal.asked canvas.draws w.shared.recent (w.stage canvas ((), []))
      (w.stage canvas ({}, [])) where
  stack := rfl
  layerAlpha := rfl
  held := rfl
  asked_left := rfl
  asked_right := rfl
  written := ⟨[], rfl, rfl⟩
  seen := rfl
  drawn := (List.append_nil _).symm
  planned := rfl
  tracked := rfl
  sound op offset hmem := by cases Array.mem_toList_iff.mpr hmem

/-- Both walks come to their end, or both end in one error. -/
theorem walks_alike (w : World) (canvas : Canvas) (level : Nat) (key : Key) :
    (∃ s t, visit Handler.immediate.watched w.frame (levelCount - level) level key
        (w.stage canvas ((), [])) = .ok () s ∧
      visit Handler.deferred.watched w.frame (levelCount - level) level key
        (w.stage canvas ({}, [])) = .ok () t ∧
      Deferral w.shared.journal.asked canvas.draws w.shared.recent s t) ∨
    ∃ e s t, visit Handler.immediate.watched w.frame (levelCount - level) level key
        (w.stage canvas ((), [])) = .error e s ∧
      visit Handler.deferred.watched w.frame (levelCount - level) level key
        (w.stage canvas ({}, [])) = .error e t ∧
      Deferral w.shared.journal.asked canvas.draws w.shared.recent s t := by
  have hends := (Deferral.alike _ _ _).visit w.frame (levelCount - level) level key _ _
    (w.stage_deferral canvas)
  revert hends
  generalize visit Handler.immediate.watched _ _ _ _ _ = m
  generalize visit Handler.deferred.watched _ _ _ _ _ = n
  intro hends
  cases m with
  | ok a s =>
    cases n with
    | ok b t => exact .inl ⟨s, t, rfl, rfl, hends.2.2⟩
    | error e t => exact hends.elim
  | error e s =>
    cases n with
    | ok b t => exact hends.elim
    | error e' t =>
      obtain ⟨rfl, hd⟩ := hends
      exact .inr ⟨e, s, t, rfl, rfl, hd⟩

theorem sights_plan_eq (w : World) (canvas : Canvas) (level : Nat) (key : Key) :
    w.sights .deferred {} canvas level key = w.sights .immediate () canvas level key := by
  unfold sights
  rcases w.walks_alike canvas level key with ⟨s, t, hs, ht, hd⟩ | ⟨e, s, t, hs, ht, hd⟩
  · rw [hs, ht]
    exact hd.seen.symm
  · rw [hs, ht]
    exact hd.seen.symm

theorem replay_eq (w : World) (canvas : Canvas) (level : Nat) (key : Key) :
    replay canvas level key w =
      match visit Handler.immediate.watched w.frame (levelCount - level) level key
        (w.stage canvas ((), [])) with
      | .ok _ s => .ok s.canvas (w.afterWalk s)
      | .error fatal s => fail fatal (w.afterWalk s) := by
  show EStateM.map _ (walk .immediate () canvas level key) w = _
  unfold EStateM.map
  rw [walk_eq Handler.immediate_neutral]
  cases visit Handler.immediate.watched _ _ _ _ _ with
  | ok a s => rfl
  | error e s => simp only [fail_apply]

theorem plan_eq (w : World) (canvas : Canvas) (root : Key) : plan canvas root w =
    match visit Handler.deferred.watched w.frame levelCount 0 root (w.stage canvas ({}, [])) with
    | .ok _ t => .ok (t.canvas, t.gathered.1) ((w.afterWalk t).log
        (.planned t.gathered.1.drawCount t.gathered.1.batches.length))
    | .error fatal t => fail fatal (w.afterWalk t) := by
  show EStateM.bind (walk .deferred {} canvas 0 root) _ w = _
  unfold EStateM.bind
  rw [walk_eq Handler.deferred_neutral, Nat.sub_zero]
  cases visit Handler.deferred.watched _ _ _ _ _ with
  | ok a s => rfl
  | error e s => simp only [fail_apply]

theorem planNode_eq (w : World) (canvas : Canvas) (level : Nat) (key : Key) :
    planNode canvas level key w =
      match visit Handler.deferred.watched w.frame (levelCount - level) level key
        (w.stage canvas ({}, [])) with
      | .ok _ t => .ok (t.canvas, t.gathered.1) (w.afterWalk t)
      | .error fatal t => fail fatal (w.afterWalk t) := by
  rw [planNode, walk_eq Handler.deferred_neutral]
  cases visit Handler.deferred.watched _ _ _ _ _ <;> rfl

/-- A draw at once makes a call for each draw that is seen. -/
theorem draws_of_replay {level : Nat} {key : Key} {played : Canvas}
    (h : replay canvas level key w = .ok played w₁) : played.draws =
      canvas.draws ++ (Sight.draws (w.sights .immediate () canvas level key)).map Draw.call := by
  rw [replay_eq] at h
  unfold sights
  rcases w.walks_alike canvas level key with ⟨s, t, hs, ht, hd⟩ | ⟨e, s, t, hs, ht, hd⟩
  · rw [hs] at h ⊢
    cases h
    exact hd.drawn
  · rw [hs] at h
    simp only [fail_apply] at h
    cases h

/-- A draw into a plan keeps each draw that is seen. -/
theorem draws_of_planNode {level : Nat} {key : Key} {tracked : Canvas} {p : Plan}
    (h : planNode canvas level key w = .ok (tracked, p) w₁) : p.draws =
      (Sight.draws (w.sights .deferred {} canvas level key)).map fun d => (d.ink, d.state) := by
  rw [planNode_eq] at h
  unfold sights
  rcases w.walks_alike canvas level key with ⟨s, t, hs, ht, hd⟩ | ⟨e, s, t, hs, ht, hd⟩
  · rw [ht] at h ⊢
    cases h
    exact hd.planned
  · rw [ht] at h
    simp only [fail_apply] at h
    cases h

/-- The plan of a node draws on any canvas what was seen to be drawn. -/
theorem draws_flush_of_planNode {level : Nat} {key : Key} {tracked : Canvas} {p : Plan}
    (h : planNode canvas level key w = .ok (tracked, p) w₁) (target : Canvas) :
    (target.flush p).draws = target.draws ++
      (Sight.draws (w.sights .deferred {} canvas level key)).map Draw.call := by
  have hdraws := draws_of_planNode h
  rw [planNode_eq] at h
  rcases w.walks_alike canvas level key with ⟨s, t, hs, ht, hd⟩ | ⟨e, s, t, hs, ht, hd⟩
  · rw [ht] at h
    cases h
    rw [Canvas.draws_flush target hd.sound, hdraws, List.map_map]
    rfl
  · rw [ht] at h
    simp only [fail_apply] at h
    cases h

/-- Where the two walks come to, the frame is the same. -/
theorem sameFrame_of_deferral
    (h : Deferral w.shared.journal.asked canvas.draws w.shared.recent s t)
    (e : Event) : w.SameFrame canvas s.canvas (w.afterWalk s) t.canvas t.gathered.1
      ((w.afterWalk t).log e) where
  drawn := by
    refine ⟨_, h.drawn, fun target w' => ⟨target.flush t.gathered.1, _, rfl, ?_⟩⟩
    -- both are the draws that were seen
    rw [Canvas.draws_flush target h.sound, h.planned, h.seen, List.map_map]
    rfl
  tracked := h.tracked
  recent := h.written

/-- Once the frame below a root is routed, making a plan of the root draws nothing and sees what a
draw at once sees, each rejected node as well, and the plan draws on any canvas what is drawn at
once.  Only a limit that nodes must be nested deep for ends the two early, and then both. -/
theorem plan_draws_as_replay (hlive : w.scene.nodes.Live root)
    (hacyclic : w.scene.nodes.Acyclic root) (hrecorded : w.scene.nodes.Recorded root) :
    ∃ w₁, World.route root w = .ok () w₁ ∧ w₁.scene.nodes = w.scene.nodes ∧
      ∀ w₂, Draws w₁ w₂ → ∀ canvas : Canvas,
        w₂.sights .deferred {} canvas 0 root = w₂.sights .immediate () canvas 0 root ∧
        ((∃ e w₃ w₄, replay canvas 0 root w₂ = .error e w₃ ∧ plan canvas root w₂ = .error e w₄ ∧
            e.IsLimit (w.scene.nodes.height root + 1)) ∨
          ∃ played w₃ tracked p w₄, replay canvas 0 root w₂ = .ok played w₃ ∧
            plan canvas root w₂ = .ok (tracked, p) w₄ ∧
            w₂.SameFrame canvas played w₃ tracked p w₄) := by
  refine ⟨w.routed root, World.route_eq hlive hacyclic, rfl, fun w₂ hw canvas =>
    ⟨w₂.sights_plan_eq canvas 0 root, ?_⟩⟩
  have hr := hw.isRouted (routed_isRouted hlive hacyclic hrecorded)
  have hsize : w₂.scene.nodes = w.scene.nodes := congrArg Frame.nodes hw.frame_eq
  have hlimit := hr.visit_ends Handler.immediate_neutral () canvas 0
  unfold Walk.Ends at hlimit
  rw [replay_eq, plan_eq]
  rcases w₂.walks_alike canvas 0 root with ⟨s, t, hs, ht, hd⟩ | ⟨e, s, t, hs, ht, hd⟩
  · rw [Nat.sub_zero] at hs ht ⊢
    rw [hs, ht]
    exact .inr ⟨_, _, _, _, _, rfl, rfl, sameFrame_of_deferral hd _⟩
  · rw [hs, Nat.zero_add, hsize] at hlimit
    rw [Nat.sub_zero] at hs ht ⊢
    rw [hs, ht]
    simp only [fail_apply]
    exact .inl ⟨e, _, _, rfl, rfl, hlimit⟩

end World

theorem Ripple.plan_draws_list : ∃ w₁, World.route list world = .ok () w₁ ∧
    ∃ played w₃ tracked p w₄, World.replay {} 0 list w₁ = .ok played w₃ ∧
      World.plan {} list w₁ = .ok (tracked, p) w₄ ∧ w₁.SameFrame {} played w₃ tracked p w₄ := by
  obtain ⟨w₁, hroute, -, hdraws⟩ :=
    World.plan_draws_as_replay (w := world) live isTree.acyclic recorded
  refine ⟨w₁, hroute, ?_⟩
  rcases (hdraws w₁ (.none w₁) {}).2 with ⟨e, w₃, w₄, -, -, -, hdeep⟩ | hsame
  · have hroom : nodes.height list < 3 := NodeStore.height_lt_size live isTree.acyclic
    exact absurd hdeep (Nat.not_lt.mpr (hroom.trans (by decide)))
  · exact hsame

end RetainedScene
