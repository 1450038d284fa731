import RetainedScene.Proofs.Scene.Intact
import RetainedScene.Proofs.World.DrawOrder
import RetainedScene.Proofs.World.Lifetime

/-!
# Routing makes drawing safe

In a world that was built by operations on nodes (`World.Built`), whatever was routed or drawn
before in it, routing the frame below an acyclic root goes well exactly when the scene is intact
there.  Then no draw of the root, nor any number of them, meets a node that is gone or a link that
is stale: only a limit that nodes must be nested deep for can end one early
(`World.route_makes_safe`).
-/

namespace RetainedScene

/-! ### Worlds that are built -/

/-- The world comes from operations on nodes that went well, with contents from recorders, whatever
is done with its routing and with what its nodes share. -/
inductive World.Built : World → Prop
  | new {settings : Settings} {asked : Option Level} {w : World}
    (h : World.ofSettings settings asked = .ok w) : Built w
  | createNode {w : World} (hw : Built w) (name : String) : Built (w.createNode name).2
  | editProperties {w w' : World} {key : Key} {f : Properties → Properties} (hw : Built w)
    (h : World.editProperties key f w = .ok () w') : Built w'
  | setContent {w w' : World} {key : Key} {content : Option DisplayList} (hw : Built w)
    (hcontent : ∀ l ∈ content, l.IsRecorded) (h : World.setContent key content w = .ok () w') :
    Built w'
  | destroy {w w' : World} {key : Key} (hw : Built w) (h : World.destroy key w = .ok () w') :
    Built w'
  | flush {w w' : World} {count : Nat} (hw : Built w)
    (h : World.flushDestruction w = .ok count w') : Built w'
  | reroute {w : World} (hw : Built w) (routing : Routing) : Built (w.onScene ({ · with routing }))
  | share {w : World} (hw : Built w) (f : Shared → Shared) : Built (w.onShared f)

/-- The free slots are empty, and the contents of all nodes come from recorders. -/
structure NodeStore.Filled (nodes : NodeStore) : Prop where
  wellFormed : nodes.WellFormed
  recorded : ∀ l ∈ nodes.contents, l.IsRecorded

namespace World

variable {w w' w'' : World} {root : Key}

theorem Built.filled (h : Built w) : w.scene.nodes.Filled := by
  induction h with
  | new h =>
    rw [(eq_empty_of_ofSettings h).1]
    exact ⟨.of_empty, fun l hl => nomatch hl⟩
  | createNode hw name ih =>
    refine ⟨ih.wellFormed.insert _, fun l hl => ?_⟩
    exact ih.recorded l ((NodeStore.contents_insert ih.wellFormed name).mem_iff.mp hl)
  | editProperties hw h ih =>
    obtain ⟨⟨node, hnode⟩, rfl⟩ := editProperties_eq_ok_iff.mp h
    obtain ⟨rest, hbefore, hafter⟩ := NodeStore.contents_update hnode _
    refine ⟨ih.wellFormed.update _ _, fun l hl => ?_⟩
    exact ih.recorded l (hbefore.mem_iff.mpr (hafter.mem_iff.mp hl))
  | setContent hw hcontent h ih =>
    obtain ⟨node, hnode, rfl⟩ := setContent_eq_ok_iff.mp h
    obtain ⟨rest, hbefore, hafter⟩ := NodeStore.contents_update hnode _
    refine ⟨ih.wellFormed.update _ _, fun l hl => ?_⟩
    rcases List.mem_append.mp (hafter.mem_iff.mp hl) with hnew | hrest
    · exact hcontent l (Option.mem_toList.mp hnew)
    · exact ih.recorded l (hbefore.mem_iff.mpr (List.mem_append_right _ hrest))
  | destroy hw h ih =>
    obtain ⟨node, nodes, hremove, rfl⟩ := destroy_eq_ok_iff.mp h
    refine ⟨ih.wellFormed.remove? hremove, fun l hl => ?_⟩
    exact ih.recorded l
      ((NodeStore.contents_remove? hremove).mem_iff.mpr (List.mem_append_right _ hl))
  | flush hw h ih =>
    have hdestroys := (flushDestruction_eq_ok_iff.mp h).2
    refine ⟨hdestroys.wellFormed ih.wellFormed, fun l hl => ?_⟩
    exact ih.recorded l (hdestroys.contents_perm.mem_iff.mpr (List.mem_append_right _ hl))
  | reroute _ _ ih => exact ih
  | share _ _ ih => exact ih

theorem Built.recorded (h : Built w) (root : Key) : w.scene.nodes.Recorded root :=
  fun _ _ l _ hnode hl => h.filled.recorded l (NodeStore.mem_contents_of_get? hnode hl)

/-! ### Draws after one another -/

/-- The second world is the first one after any draws of nodes, at once and into plans, and after
plans were carried out. -/
inductive Redraws (w : World) : World → Prop
  | none : Redraws w w
  | replay {w' w'' : World} {canvas played : Canvas} {level : Nat} {key : Key} (hw : Redraws w w')
    (h : World.replay canvas level key w' = .ok played w'') : Redraws w w''
  | planNode {w' w'' : World} {canvas : Canvas} {level : Nat} {key : Key} {result : Canvas × Plan}
    (hw : Redraws w w') (h : World.planNode canvas level key w' = .ok result w'') : Redraws w w''
  | plan {w' w'' : World} {canvas : Canvas} {key : Key} {result : Canvas × Plan}
    (hw : Redraws w w') (h : World.plan canvas key w' = .ok result w'') : Redraws w w''
  | flush {w' w'' : World} {canvas flushed : Canvas} {p : Plan} (hw : Redraws w w')
    (h : World.flush canvas p w' = .ok flushed w'') : Redraws w w''

theorem planNode_of_plan {canvas : Canvas} {key : Key} {result : Canvas × Plan}
    (h : plan canvas key w = .ok result w') : ∃ w₁ e, planNode canvas 0 key w = .ok result w₁ ∧
      w' = w₁.log e := by
  change EStateM.bind (planNode canvas 0 key) _ w = _ at h
  unfold EStateM.bind at h
  cases hplan : planNode canvas 0 key w with
  | ok result₁ w₁ =>
    rw [hplan] at h
    cases h
    exact ⟨w₁, _, rfl, rfl⟩
  | error e w₁ =>
    rw [hplan] at h
    cases h

/-- A plan of a whole frame comes to its end where a draw of its root into a plan does. -/
theorem Completes.of_planNode {bound : Nat} {canvas : Canvas} {key : Key}
    {fine : Canvas × Plan → World → Prop}
    (h : Completes bound (planNode canvas 0 key) w fun _ _ => True)
    (hfine : ∀ result w', plan canvas key w = .ok result w' → fine result w') :
    Completes bound (plan canvas key) w fine := by
  have hplan : plan canvas key w = EStateM.bind (planNode canvas 0 key) _ w := rfl
  unfold EStateM.bind at hplan
  unfold Completes at h ⊢
  cases hres : planNode canvas 0 key w with
  | ok result w' =>
    rw [hres] at hplan
    rw [hplan]
    exact hfine _ _ hplan
  | error e w' =>
    rw [hres] at hplan h
    rw [hplan]
    exact h

/-- Draws change nothing of a frame, and the routing stays in force. -/
theorem Redraws.isRouted (hw : Redraws w w') (hr : w.IsRouted root) :
    w'.frame = w.frame ∧ w'.IsRouted root := by
  induction hw with
  | none => exact ⟨rfl, hr⟩
  | @replay w' w'' canvas played level key hw h ih =>
    obtain ⟨result, hwalk, -⟩ := walk_of_replay h
    have hdraws : Draws w' w'' := .draw (.none w') Handler.immediate_neutral hwalk
    exact ⟨hdraws.frame_eq.trans ih.1, hdraws.isRouted ih.2⟩
  | @planNode w' w'' canvas level key result hw h ih =>
    have hdraws : Draws w' w'' := .draw (.none w') Handler.deferred_neutral h
    exact ⟨hdraws.frame_eq.trans ih.1, hdraws.isRouted ih.2⟩
  | @plan w' w'' canvas key result hw h ih =>
    obtain ⟨w₁, e, hplan, rfl⟩ := planNode_of_plan h
    have hdraws : Draws w' w₁ := .draw (.none w') Handler.deferred_neutral hplan
    have hr₁ := hdraws.isRouted ih.2
    exact ⟨hdraws.frame_eq.trans ih.1, ⟨hr₁.sound, hr₁.settled⟩⟩
  | flush hw h ih =>
    cases h
    exact ⟨ih.1, ⟨ih.2.sound, ih.2.settled⟩⟩

/-- In a world that was built, routing the frame below an acyclic root goes well exactly when the
scene is intact there, and then every draw of the root, at once or into a plan, comes to its end
however often one was drawn before, except for a limit that nodes must be nested deep for. -/
theorem route_makes_safe (hw : w.Built) (hacyclic : w.scene.nodes.Acyclic root) :
    ((∃ w₁, World.route root w = .ok () w₁) ↔ w.scene.nodes.Intact root) ∧
    ∀ w₁, World.route root w = .ok () w₁ → ∀ w₂, Redraws w₁ w₂ → ∀ canvas : Canvas,
      (∀ level, Completes (level + w.scene.nodes.height root + 1) (replay canvas level root) w₂
        fun _ w₃ => Redraws w₁ w₃) ∧
      (∀ level, Completes (level + w.scene.nodes.height root + 1) (planNode canvas level root) w₂
        fun _ w₃ => Redraws w₁ w₃) ∧
      Completes (w.scene.nodes.height root + 1) (plan canvas root) w₂
        fun _ w₃ => Redraws w₁ w₃ := by
  have hrecorded := hw.recorded root
  refine ⟨route_isOk_iff hacyclic hrecorded, fun w₁ hroute w₂ hdraws canvas => ?_⟩
  have hintact := (route_isOk_iff hacyclic hrecorded).mp ⟨w₁, hroute⟩
  have hlive := hintact.live hrecorded
  rw [World.route_eq hlive hacyclic] at hroute
  cases hroute
  obtain ⟨hframe, hr⟩ := hdraws.isRouted (routed_isRouted hlive hacyclic hrecorded)
  have hnodes : w₂.scene.nodes = w.scene.nodes := congrArg Frame.nodes hframe
  have hends := hr.draws_follow canvas
  rw [hnodes] at hends
  refine ⟨fun level => (hends level).1.mono fun _ _ h _ => hdraws.replay h,
    fun level => (hends level).2.mono fun _ _ h _ => hdraws.planNode h, ?_⟩
  -- the plan of a whole frame is one of the root, at the outermost level
  have hplan := (hends 0).2
  rw [Nat.zero_add] at hplan
  exact .of_planNode (hplan.mono fun _ _ _ _ => trivial) fun _ _ h => hdraws.plan h

end World

/-- The ripple scene can be built: the nodes are created, and then given what they are to have. -/
theorem Ripple.exists_built : ∃ w : World, w.Built ∧ w.scene.nodes = nodes := by
  have hnew : World.ofSettings {} (some .warn) = .ok {} := rfl
  have hcreated :=
    (((World.Built.new hnew).createNode "list").createNode "card").createNode "ripple"
  have hcontent (commands : List Command) : ∀ l ∈ some (content commands), l.IsRecorded := by
    intro l hl
    cases hl
    exact isRecorded_content commands
  have hlist := hcreated.setContent (hcontent [.functor 0, .receive, .child card])
    (show World.setContent list _ _ = .ok () _ from rfl)
  have hcard := hlist.setContent (hcontent [.functor 1, .child ripple])
    (show World.setContent card _ _ = .ok () _ from rfl)
  have hripple := hcard.setContent (hcontent [.functor 2])
    (show World.setContent ripple _ _ = .ok () _ from rfl)
  have hprojects := hripple.editProperties
    (show World.editProperties ripple (fun p => { p with projects := true }) _ = .ok () _ from rfl)
  exact ⟨_, hprojects, rfl⟩

theorem Ripple.route_makes_list_safe : ∃ w w₁ : World, w.scene.nodes = nodes ∧
    World.route list w = .ok () w₁ ∧ ∃ played w₂ again w₃,
      World.replay {} 0 list w₁ = .ok played w₂ ∧ World.replay played 0 list w₂ = .ok again w₃ := by
  obtain ⟨w, hbuilt, hnodes⟩ := exists_built
  have hacyclic : w.scene.nodes.Acyclic list := hnodes ▸ isTree.acyclic
  have hroom : 0 + w.scene.nodes.height list < 32767 := by
    rw [hnodes]
    exact NodeStore.add_height_lt live isTree.acyclic (by decide)
  obtain ⟨hroutes, hsafe⟩ := World.route_makes_safe hbuilt hacyclic
  obtain ⟨w₁, hroute⟩ := hroutes.mpr (hnodes ▸ live.intact)
  obtain ⟨played, w₂, hplayed, hdrawn⟩ := ((hsafe w₁ hroute w₁ .none {}).1 0).exists_of_le hroom
  obtain ⟨again, w₃, hagain, -⟩ := ((hsafe w₁ hroute w₂ hdrawn played).1 0).exists_of_le hroom
  exact ⟨w, w₁, hnodes, hroute, played, w₂, again, w₃, hplayed, hagain⟩

end RetainedScene
