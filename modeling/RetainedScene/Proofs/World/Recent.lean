import Mathlib.Data.List.DropRight
import RetainedScene.Proofs.Walk.Recent
import RetainedScene.Proofs.Walk.Walkable
import RetainedScene.Proofs.World.Safety

/-!
# The record of recent operations

Between draws of nodes, at once and into plans, the frame may be routed anew, plans may be carried
out and the record may be cleared (`World.Act`).  `World.Recount` says which entries were written
since the record was cleared last: those that each draw enters go after the ones before it.

However long that list is, the record holds its tail, as much of it as there is room for
(`World.recent_is_tail`).  Where what is drawn is acyclic and was routed, nothing but a limit that
nodes must be nested deep for ends the acts early.
-/

namespace RetainedScene

/-! ### The tail of a list -/

namespace RecentOps

/-- The record holds the tail of a list, as much of it as there is room for. -/
def Keeps (r : RecentOps) (since : List (Nat × String)) : Prop :=
  r.entries.toList = since.rtake r.capacity

variable {r : RecentOps} {since : List (Nat × String)}

@[simp]
theorem capacity_write (r : RecentOps) (level : Nat) (name : String) :
    (r.write level name).capacity = r.capacity := by
  unfold write
  split_ifs <;> rfl

@[simp]
theorem capacity_writeAll (r : RecentOps) (entries : List (Nat × String)) :
    (r.writeAll entries).capacity = r.capacity := by
  unfold writeAll
  induction entries generalizing r with
  | nil => rfl
  | cons entry entries ih => rw [List.foldl_cons, ih, capacity_write]

theorem Keeps.size (h : r.Keeps since) : r.size = min r.capacity since.length := by
  rw [RecentOps.size, ← Array.length_toList, h, List.rtake, List.length_drop]
  omega

theorem Keeps.write (h : r.Keeps since) (level : Nat) (name : String) :
    (r.write level name).Keeps (since ++ [(level, name)]) := by
  have hsize := h.size
  unfold RecentOps.size at hsize
  unfold Keeps at h ⊢
  rw [capacity_write]
  unfold RecentOps.write
  cases hcapacity : r.capacity with
  | zero =>
    rw [if_pos rfl, h, hcapacity, List.rtake_zero, List.rtake_zero]
  | succ room =>
    rw [hcapacity] at h hsize
    rw [if_neg (Nat.succ_ne_zero room), List.rtake_concat_succ]
    split
    · next hroom =>
      -- all of the list is held, and there is room for one more
      have hall : since.length - (room + 1) = since.length - room := by omega
      rw [Array.toList_push, h, List.rtake, List.rtake, hall]
    · next hfull =>
      -- the record is full, and its oldest entry makes room
      have hlonger : since.length - (room + 1) + 1 = since.length - room := by omega
      have hdrop : (r.entries.extract 1 r.entries.size).toList = r.entries.toList.drop 1 := by
        simp
      rw [Array.toList_push, hdrop, h, List.rtake, List.rtake, List.drop_drop, hlonger]

theorem Keeps.writeAll (h : r.Keeps since) (entries : List (Nat × String)) :
    (r.writeAll entries).Keeps (since ++ entries) := by
  induction entries generalizing r since with
  | nil => exact (List.append_nil since).symm ▸ h
  | cons entry entries ih =>
    have hrest := ih (h.write entry.1 entry.2)
    rwa [List.append_assoc] at hrest

theorem Keeps.clear (r : RecentOps) : r.clear.Keeps [] :=
  (List.rtake_nil r.capacity).symm

end RecentOps

/-! ### Routing -/

/-- Routing below some node leaves what is ready as it is. -/
theorem Frame.Ready.routed {w : World} {root key : Key} (h : w.frame.Ready key)
    (hlive : w.scene.nodes.Live root) (hacyclic : w.scene.nodes.Acyclic root) :
    (w.routed root).frame.Ready key where
  live := h.live
  acyclic := h.acyclic
  listed := by
    intro k hk ref href
    have hmem : ref ∈ (w.scene.settled root).projectedAt k := Array.mem_toList_iff.mp href
    rcases Routing.mem_projectedAt_foldl_settle hmem with
      ⟨hmem, -⟩ | ⟨link, above, htrail, hsent, rfl, rfl⟩
    · -- what was projected to the node before stays only if it is not the root
      unfold Routing.projectedAt at hmem
      rw [Std.ExtTreeMap.getD_eq_getD_getElem?, Routing.getElem?_clearProjected] at hmem
      split_ifs at hmem
      · exact absurd hmem (Array.not_mem_empty ref)
      · rw [← Std.ExtTreeMap.getD_eq_getD_getElem?] at hmem
        exact h.listed k hk ref (Array.mem_toList_iff.mpr hmem)
    · have htrail := ((w.scene.mem_tour_depthBound hlive hacyclic _).mp htrail).2
      obtain ⟨hparent, hedge, -⟩ := htrail.reaches_of_isSent hsent
      exact ⟨hparent, link.edge, hedge⟩

/-! ### Acts -/

namespace World

/-- What is done with a world whose nodes stay as they are. -/
inductive Act where
  | route (root : Key)
  | replay (canvas : Canvas) (level : Nat) (key : Key)
  | planNode (canvas : Canvas) (level : Nat) (key : Key)
  | plan (canvas : Canvas) (root : Key)
  | flush (canvas : Canvas) (p : Plan)
  | clear

namespace Act

def perform : Act → Action Unit
  | route root => World.route root
  | replay canvas level key => (fun _ => ()) <$> World.replay canvas level key
  | planNode canvas level key => (fun _ => ()) <$> World.planNode canvas level key
  | plan canvas root => (fun _ => ()) <$> World.plan canvas root
  | flush canvas p => (fun _ => ()) <$> World.flush canvas p
  | clear => modify (onShared fun shared => { shared with recent := shared.recent.clear })

/-- The level and the node that an act draws. -/
def draw? : Act → Option (Nat × Key)
  | replay _ level key | planNode _ level key => some (level, key)
  | plan _ root => some (0, root)
  | _ => none

/-- What was entered since the record was cleared last, before and after an act. -/
inductive Recounts (w : World) (since : List (Nat × String)) : Act → List (Nat × String) → Prop
  | route (root : Key) : Recounts w since (.route root) since
  | replay {canvas : Canvas} {level : Nat} {key : Key} {entries : List (Nat × String)}
    (h : Notes w.frame level key (w.sights .immediate () canvas level key) entries) :
    Recounts w since (.replay canvas level key) (since ++ entries)
  | planNode {canvas : Canvas} {level : Nat} {key : Key} {entries : List (Nat × String)}
    (h : Notes w.frame level key (w.sights .deferred {} canvas level key) entries) :
    Recounts w since (.planNode canvas level key) (since ++ entries)
  | plan {canvas : Canvas} {root : Key} {entries : List (Nat × String)}
    (h : Notes w.frame 0 root (w.sights .deferred {} canvas 0 root) entries) :
    Recounts w since (.plan canvas root) (since ++ entries)
  | flush (canvas : Canvas) (p : Plan) : Recounts w since (.flush canvas p) since
  | clear : Recounts w since .clear []

end Act

/-- Acts that go well one after the other, and what was entered since the record was cleared last,
before the acts and after them. -/
inductive Recount : World → List (Nat × String) → List Act → World → List (Nat × String) → Prop
  | nil (w : World) (since : List (Nat × String)) : Recount w since [] w since
  | cons {w w₁ w' : World} {since since₁ since' : List (Nat × String)} {act : Act}
    {acts : List Act} (hact : act.perform w = .ok () w₁) (hsince : act.Recounts w since since₁)
    (hacts : Recount w₁ since₁ acts w' since') : Recount w since (act :: acts) w' since'

variable {w w₁ w' : World} {since since' since'' : List (Nat × String)} {act : Act}
  {acts : List Act}

theorem Act.Recounts.unique (h : act.Recounts w since since')
    (h' : act.Recounts w since since'') : since' = since'' := by
  cases h with
  | route | flush | clear =>
    cases h'
    rfl
  | replay h =>
    cases h' with
    | replay h' => rw [h.unique h']
  | planNode h =>
    cases h' with
    | planNode h' => rw [h.unique h']
  | plan h =>
    cases h' with
    | plan h' => rw [h.unique h']

/-- The acts settle what was entered since the record was cleared last. -/
theorem Recount.unique (h : Recount w since acts w' since')
    (h' : Recount w since acts w' since'') : since' = since'' := by
  induction h with
  | nil =>
    cases h'
    rfl
  | cons hact hsince hacts ih =>
    cases h' with
    | cons hact' hsince' hacts' =>
      cases hact.symm.trans hact'
      obtain rfl := hsince.unique hsince'
      exact ih hacts'

/-- After an act the record holds the tail of what was entered since it was cleared last. -/
theorem Act.exists_recounts (h : act.perform w = .ok () w')
    (hkeeps : w.shared.recent.Keeps since) : ∃ since', act.Recounts w since since' ∧
      w'.shared.recent.Keeps since' ∧ w'.shared.recent.capacity = w.shared.recent.capacity := by
  have hentered {entries : List (Nat × String)} {w' : World}
      (hrecent : w'.shared.recent = w.shared.recent.writeAll entries) :
      w'.shared.recent.Keeps (since ++ entries) ∧
        w'.shared.recent.capacity = w.shared.recent.capacity := by
    rw [hrecent]
    exact ⟨hkeeps.writeAll entries, RecentOps.capacity_writeAll _ _⟩
  have hdeferred {canvas tracked : Canvas} {level : Nat} {key : Key} {p : Plan} {w' : World}
      (hplan : World.planNode canvas level key w = .ok (tracked, p) w') :=
    walk_writes Handler.deferred_neutral Handler.deferred_sparesRecord hplan
  cases act with
  | route root =>
    -- routing leaves all alone that the nodes share
    obtain ⟨routing, -, rfl⟩ := route_eq_ok_iff.mp h
    exact ⟨since, .route root, hkeeps, rfl⟩
  | replay canvas level key =>
    obtain ⟨played, hreplay, -⟩ := exists_of_map_eq_ok h
    obtain ⟨result, hwalk, -⟩ := walk_of_replay hreplay
    obtain ⟨entries, hnotes, hrecent⟩ :=
      walk_writes Handler.immediate_neutral Handler.immediate_sparesRecord hwalk
    exact ⟨_, .replay hnotes, hentered hrecent⟩
  | planNode canvas level key =>
    obtain ⟨result, hplan, -⟩ := exists_of_map_eq_ok h
    obtain ⟨entries, hnotes, hrecent⟩ := hdeferred hplan
    exact ⟨_, .planNode hnotes, hentered hrecent⟩
  | plan canvas root =>
    obtain ⟨result, hframe, -⟩ := exists_of_map_eq_ok h
    obtain ⟨w₁, e, hplan, rfl⟩ := planNode_of_plan hframe
    obtain ⟨entries, hnotes, hrecent⟩ := hdeferred hplan
    exact ⟨_, .plan hnotes, hentered hrecent⟩
  | flush canvas p =>
    cases h
    exact ⟨since, .flush canvas p, hkeeps, rfl⟩
  | clear =>
    cases h
    exact ⟨[], .clear, .clear _, rfl⟩

/-! ### Acts that go well -/

/-- What is drawn and is ready is drawn to the end, and what is routed is ready from then on. -/
theorem Act.completes {bound : Nat}
    (hroute : ∀ root, act = .route root → w.scene.nodes.Live root ∧ w.scene.nodes.Acyclic root ∧
      w.scene.nodes.Recorded root)
    (hdraw : ∀ level key, act.draw? = some (level, key) →
      w.frame.Ready key ∧ level + w.scene.nodes.height key + 1 ≤ bound) :
    Completes bound act.perform w fun _ w' => w'.scene.nodes = w.scene.nodes ∧
      (∀ key, w.frame.Ready key → w'.frame.Ready key) ∧
      ∀ root, act = .route root → w'.frame.Ready root := by
  have hsame {w' : World} (hframe : w'.frame = w.frame) (hact : ∀ root, act ≠ .route root) :
      w'.scene.nodes = w.scene.nodes ∧ (∀ key, w.frame.Ready key → w'.frame.Ready key) ∧
        ∀ root, act = .route root → w'.frame.Ready root :=
    ⟨congrArg Frame.nodes hframe, fun key hready => hframe ▸ hready,
      fun root hroot => absurd hroot (hact root)⟩
  have hdraws {level : Nat} {key : Key} (hact : act.draw? = some (level, key)) (canvas : Canvas) :
      Completes bound (World.replay canvas level key) w (fun _ _ => True) ∧
        Completes bound (World.planNode canvas level key) w fun _ _ => True := by
    obtain ⟨hready, hbound⟩ := hdraw level key hact
    obtain ⟨hreplay, hplan⟩ := ready_draws_complete hready canvas level
    exact ⟨hreplay.weaken hbound, hplan.weaken hbound⟩
  cases act with
  | route root =>
    obtain ⟨hlive, hacyclic, hrecorded⟩ := hroute root rfl
    have hrouted : (Act.route root).perform w = .ok () (w.routed root) :=
      World.route_eq hlive hacyclic
    unfold Completes
    rw [hrouted]
    refine ⟨rfl, fun key hready => hready.routed hlive hacyclic, fun root' hroot => ?_⟩
    cases hroot
    exact (routed_sound hlive hacyclic hrecorded).ready
  | replay canvas level key =>
    refine ((hdraws rfl canvas).1.mono fun played w' h _ => ?_).map _ fun _ _ h => h
    obtain ⟨result, hwalk, -⟩ := walk_of_replay h
    exact hsame (Draws.draw (.none w) Handler.immediate_neutral hwalk).frame_eq nofun
  | planNode canvas level key =>
    refine ((hdraws rfl canvas).2.mono fun result w' h _ => ?_).map _ fun _ _ h => h
    exact hsame (Draws.draw (.none w) Handler.deferred_neutral h).frame_eq nofun
  | plan canvas root =>
    refine (Completes.of_planNode (hdraws rfl canvas).2 fun result w' h => ?_).map _ fun _ _ h => h
    obtain ⟨w₁, e, hplan, rfl⟩ := planNode_of_plan h
    exact hsame (Draws.draw (.none w) Handler.deferred_neutral hplan).frame_eq nofun
  | flush canvas p => exact hsame rfl nofun
  | clear => exact hsame rfl nofun

/-- Whatever was entered before, after some acts the record holds the tail of what was entered since
it was cleared last. -/
theorem Recount.completes {bound : Nat} (hkeeps : w.shared.recent.Keeps since)
    (hroutes : ∀ root, .route root ∈ acts → w.scene.nodes.Live root ∧
      w.scene.nodes.Acyclic root ∧ w.scene.nodes.Recorded root)
    (hdraws : ∀ before act after level key, acts = before ++ act :: after →
      act.draw? = some (level, key) → w.frame.Ready key ∨
        ∃ root, .route root ∈ before ∧ w.scene.nodes.Reaches root key)
    (hbound : ∀ act ∈ acts, ∀ level key, act.draw? = some (level, key) →
      level + w.scene.nodes.height key + 1 ≤ bound) :
    Completes bound (acts.forM Act.perform) w fun _ w' => ∃ since', Recount w since acts w' since' ∧
      w'.shared.recent.Keeps since' ∧
      w'.shared.recent.capacity = w.shared.recent.capacity := by
  induction acts generalizing w since with
  | nil => exact ⟨since, .nil w since, hkeeps, rfl⟩
  | cons act acts ih =>
    have hdraw : ∀ level key, act.draw? = some (level, key) →
        w.frame.Ready key ∧ level + w.scene.nodes.height key + 1 ≤ bound := by
      intro level key hdraw
      have hready : w.frame.Ready key := by
        rcases hdraws [] act acts level key rfl hdraw with hready | ⟨root, hroot, -⟩
        · exact hready
        · cases hroot
      exact ⟨hready, hbound act List.mem_cons_self level key hdraw⟩
    have hact := Act.completes (fun root hroot => hroutes root (hroot ▸ List.mem_cons_self)) hdraw
    refine (hact.mono (fun _ w₁ hperform hafter => And.intro hperform hafter)).bind ?_
    rintro _ w₁ ⟨hperform, hnodes, hready, hrouted⟩
    obtain ⟨since₁, hsince, hkeeps₁, hcapacity⟩ := Act.exists_recounts hperform hkeeps
    have hroutes₁ : ∀ root, .route root ∈ acts → w₁.scene.nodes.Live root ∧
        w₁.scene.nodes.Acyclic root ∧ w₁.scene.nodes.Recorded root := by
      intro root hroot
      rw [hnodes]
      exact hroutes root (List.mem_cons_of_mem act hroot)
    -- what is ready for the first act or routed by it is ready for the later ones
    have hdraws₁ : ∀ before act after level key, acts = before ++ act :: after →
        act.draw? = some (level, key) → w₁.frame.Ready key ∨
          ∃ root, .route root ∈ before ∧ w₁.scene.nodes.Reaches root key := by
      intro before act' after level key hsplit hdraw
      rcases hdraws (act :: before) act' after level key (congrArg _ hsplit) hdraw with
        hkey | ⟨root, hroot, hreach⟩
      · exact .inl (hready key hkey)
      · rw [← hnodes] at hreach
        rcases List.mem_cons.mp hroot with hroot | hroot
        · exact .inl ((hrouted root hroot.symm).of_reaches hreach)
        · exact .inr ⟨root, hroot, hreach⟩
    have hbound₁ : ∀ act ∈ acts, ∀ level key, act.draw? = some (level, key) →
        level + w₁.scene.nodes.height key + 1 ≤ bound := by
      intro act' hact'
      rw [hnodes]
      exact hbound act' (List.mem_cons_of_mem act hact')
    refine (ih hkeeps₁ hroutes₁ hdraws₁ hbound₁).mono ?_
    rintro _ w' - ⟨since', hrecount, hkeeps', hcapacity'⟩
    exact ⟨since', .cons hperform hsince hrecount, hkeeps', hcapacity'.trans hcapacity⟩

/-- After any acts on a world, of which those that draw do so below a node that was routed or is
ready, it is settled what was entered since the record was cleared last, and the record holds the
tail of that, the oldest entry first, and as much of it as there is room for. -/
theorem recent_is_tail {bound : Nat} (hempty : w.shared.recent.entries = #[])
    (hroutes : ∀ root, .route root ∈ acts → w.scene.nodes.Live root ∧
      w.scene.nodes.Acyclic root ∧ w.scene.nodes.Recorded root)
    (hdraws : ∀ before act after level key, acts = before ++ act :: after →
      act.draw? = some (level, key) → w.frame.Ready key ∨
        ∃ root, .route root ∈ before ∧ w.scene.nodes.Reaches root key)
    (hbound : ∀ act ∈ acts, ∀ level key, act.draw? = some (level, key) →
      level + w.scene.nodes.height key + 1 ≤ bound) :
    Completes bound (acts.forM Act.perform) w fun _ w' =>
      (∃! since, Recount w [] acts w' since) ∧ ∀ since, Recount w [] acts w' since →
        w'.shared.recent.entries.toList = since.rtake w.shared.recent.capacity ∧
        w'.shared.recent.size = min w.shared.recent.capacity since.length := by
  have hkeeps : w.shared.recent.Keeps [] := by
    unfold RecentOps.Keeps
    rw [hempty, List.rtake_nil]
  refine (Recount.completes hkeeps hroutes hdraws hbound).mono ?_
  rintro _ w' - ⟨since, hrecount, hkeeps', hcapacity⟩
  refine ⟨⟨since, hrecount, fun since' h => h.unique hrecount⟩, fun since' h => ?_⟩
  obtain rfl := h.unique hrecount
  rw [← hcapacity]
  exact ⟨hkeeps', hkeeps'.size⟩

end World

namespace Ripple

/-- The ripple scene with a record of four entries. -/
def recording : World := world.onShared ({ · with recent := ⟨4, #[]⟩ })

/-- The scene is drawn once, and the record cleared before it is drawn again with its card. -/
def redrawing : List World.Act :=
  [.route list, .replay {} 0 list, .clear, .plan {} list, .replay {} 1 card]

theorem reaches_of_draw {act : World.Act} {level : Nat} {key : Key} (hact : act ∈ redrawing)
    (hdraw : act.draw? = some (level, key)) : level ≤ 1 ∧ nodes.Reaches list key := by
  have hcard : nodes.IsTrail list [cardLink] := .down .top (fun _ h => nomatch h) rfl rfl rfl
  simp only [redrawing, List.mem_cons, List.not_mem_nil, or_false] at hact
  rcases hact with rfl | rfl | rfl | rfl | rfl <;> cases hdraw
  · exact ⟨Nat.zero_le 1, .refl⟩
  · exact ⟨Nat.zero_le 1, .refl⟩
  · exact ⟨Nat.le_refl 1, hcard.reaches⟩

theorem recent_is_tail_of_list : ∃ w' since,
    redrawing.forM World.Act.perform recording = .ok () w' ∧
    World.Recount recording [] redrawing w' since ∧
    w'.shared.recent.entries.toList = since.rtake 4 ∧
    w'.shared.recent.size = min 4 since.length := by
  have hempty : recording.shared.recent.entries = #[] := rfl
  have hcapacity : recording.shared.recent.capacity = 4 := rfl
  have hroutes : ∀ root, .route root ∈ redrawing → recording.scene.nodes.Live root ∧
      recording.scene.nodes.Acyclic root ∧ recording.scene.nodes.Recorded root := by
    intro root hroot
    obtain rfl : root = list := by simpa [redrawing] using hroot
    exact ⟨live, isTree.acyclic, recorded⟩
  have hdraws : ∀ before act after level key, redrawing = before ++ act :: after →
      act.draw? = some (level, key) → recording.frame.Ready key ∨
        ∃ root, .route root ∈ before ∧ recording.scene.nodes.Reaches root key := by
    intro before act after level key hsplit hdraw
    have hact : act ∈ redrawing := hsplit ▸ List.mem_append_right before List.mem_cons_self
    cases before with
    | nil =>
      obtain rfl := (List.cons.inj hsplit).1
      cases hdraw
    | cons first before =>
      -- the root was routed first, and all that is drawn is below it
      obtain rfl := (List.cons.inj hsplit).1
      exact .inr ⟨list, List.mem_cons_self, (reaches_of_draw hact hdraw).2⟩
  have hbound : ∀ act ∈ redrawing, ∀ level key, act.draw? = some (level, key) →
      level + recording.scene.nodes.height key + 1 ≤ 4 := by
    intro act hact level key hdraw
    obtain ⟨hlevel, hreach⟩ := reaches_of_draw hact hdraw
    exact NodeStore.add_height_lt (live.of_reaches hreach) (isTree.acyclic.of_reaches hreach)
      (Nat.add_le_add_right hlevel 3)
  -- the acts are not to be carried out here
  generalize recording = w at *
  have hdone := World.recent_is_tail hempty hroutes hdraws hbound
  obtain ⟨_, w', hacts, ⟨since, hrecount, -⟩, htail⟩ := hdone.exists_of_le (by decide)
  obtain ⟨htail, hsize⟩ := htail since hrecount
  rw [hcapacity] at htail hsize
  exact ⟨w', since, hacts, hrecount, htail, hsize⟩

end Ripple

end RetainedScene
