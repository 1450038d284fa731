import RetainedScene.Proofs.Walk.Course
import RetainedScene.Proofs.World.DrawOrder

/-!
# Walks that come to their end

A frame is walkable below a node if every node and every link is there that a walk of the node may
go on to, and no way leads back (`Frame.Walkable`).  Then only a limit that walks must be nested
deep for can end a walk early, whatever is held back (`visit_completes`).

An acyclic part of a scene whose nodes are all there is walkable when what is projected to a node
comes from below it (`Frame.Ready.walkable`), as it does when nothing is projected
(`Frame.walkable_of_unprojected`) and after routing (`Frame.Sound.ready`).  Walks are then nested no
deeper than nodes are (`Frame.Ready.depth_le_height`).
-/

namespace RetainedScene

open Relation

variable {ω : Type}

/-- Below a node all is there that a walk may go on to, and no way leads back. -/
structure Frame.Walkable (f : Frame) (root : Key) : Prop where
  live : ∀ key, ReflTransGen f.GoesOn root key → ∃ node, f.nodes.get? key = some node
  fresh : ∀ key, ReflTransGen f.GoesOn root key → ∀ ref ∈ f.projectedAt key,
    ∃ edge, f.nodes.edge ref = .ok edge
  acyclic : ∀ key, ReflTransGen f.GoesOn root key → ¬ TransGen f.GoesOn key key

/-- Below a node all is there, no way leads back, and what is projected to a node comes from below
it. -/
structure Frame.Ready (f : Frame) (root : Key) : Prop where
  live : f.nodes.Live root
  acyclic : f.nodes.Acyclic root
  listed : ∀ key, f.nodes.Reaches root key → ∀ ref ∈ f.projectedAt key,
    f.nodes.Reaches key ref.parent ∧ ∃ edge, f.nodes.edge ref = .ok edge

/-- How deep walks are nested in the walk of a node. -/
noncomputable def Frame.depth (f : Frame) (key : Key) : Nat := Key.depth f.GoesOn key

namespace Frame

variable {f : Frame} {root key : Key}

theorem Walkable.of_goesOn (h : f.Walkable root) (hkey : ReflTransGen f.GoesOn root key) :
    f.Walkable key where
  live k hk := h.live k (hkey.trans hk)
  fresh k hk := h.fresh k (hkey.trans hk)
  acyclic k hk := h.acyclic k (hkey.trans hk)

theorem Walkable.depth_lt (h : f.Walkable root) (hgo : f.GoesOn root key) :
    f.depth key < f.depth root :=
  NodeStore.Grounds.depth_lt_of_step ⟨h.live, h.acyclic⟩ hgo

/-- There is room in the store for a node and all that its walk goes on to. -/
theorem Walkable.depth_lt_size (h : f.Walkable root) : f.depth root < f.nodes.slots.size :=
  NodeStore.Grounds.depth_lt_size ⟨h.live, h.acyclic⟩

theorem Walkable.add_depth_lt (h : f.Walkable root) {level bound : Nat}
    (hsize : level + f.nodes.slots.size ≤ bound) : level + f.depth root < bound :=
  (Nat.add_lt_add_left h.depth_lt_size level).trans_le hsize

/-- What a walk goes on to is nested in the node by one link or more. -/
theorem Ready.transGen_of_goesOn (h : f.Ready root) {a b : Key} (ha : f.nodes.Reaches root a)
    (hab : f.GoesOn a b) : TransGen f.nodes.Leads a b := by
  rcases hab with hleads | ⟨ref, href, edge, hedge, rfl⟩
  · exact .single hleads
  · exact .tail' (h.listed a ha ref href).1 (NodeStore.leads_of_edge hedge)

/-- A part of a scene is walkable if what is projected to its nodes comes from below them. -/
theorem Ready.walkable (h : f.Ready root) : f.Walkable root := by
  have hreach {a b : Key} (ha : f.nodes.Reaches root a) (hab : ReflTransGen f.GoesOn a b) :
      f.nodes.Reaches a b := by
    induction hab with
    | refl => exact .refl
    | tail _ hbc ih => exact ih.trans (h.transGen_of_goesOn (ha.trans ih) hbc).to_reflTransGen
  refine ⟨fun key hkey => h.live key (hreach .refl hkey), fun key hkey ref href => ?_,
    fun key hkey hback => ?_⟩
  · exact (h.listed key (hreach .refl hkey) ref href).2
  · obtain ⟨next, hnext, hrest⟩ := TransGen.head'_iff.mp hback
    have hdown := h.transGen_of_goesOn (hreach .refl hkey) hnext
    have hroot := (hreach .refl hkey).trans hdown.to_reflTransGen
    exact h.acyclic key (hreach .refl hkey) (hdown.trans_left (hreach hroot hrest))

/-- Where what is projected to a node comes from below it, walks are nested no deeper than nodes. -/
theorem Ready.depth_le_height (h : f.Ready root) : f.depth root ≤ f.nodes.height root :=
  NodeStore.Grounds.depth_le_depth ⟨h.live, h.acyclic⟩ fun _ _ => h.transGen_of_goesOn

theorem walkable_of_unprojected (hlive : f.nodes.Live root) (hacyclic : f.nodes.Acyclic root)
    (hnone : ∀ key, f.nodes.Reaches root key → f.projectedAt key = []) : f.Walkable root := by
  have hready : f.Ready root := ⟨hlive, hacyclic, fun key hkey ref href => by
    rw [hnone key hkey] at href
    cases href⟩
  exact hready.walkable

theorem Ready.of_reaches (h : f.Ready root) (hkey : f.nodes.Reaches root key) : f.Ready key where
  live := h.live.of_reaches hkey
  acyclic := h.acyclic.of_reaches hkey
  listed k hk := h.listed k (hkey.trans hk)

theorem Sound.ready (h : f.Sound root) : f.Ready root where
  live := h.live
  acyclic := h.acyclic
  listed key hkey ref href :=
    have ⟨hparent, edge, _, hedge, _⟩ := h.listed key hkey ref href
    ⟨hparent, edge, hedge⟩

/-- Of a walkable node the walk ends by itself in nothing but limits. -/
theorem Walkable.isLimit (h : f.Walkable key) {level bound : Nat} (hlevel : level < bound)
    {e : Fatal} (he : f.Faults level key e) : e.IsLimit bound := by
  cases he with
  | margin hindent hmargin =>
    have := Text.lt_of_not_hasMargin hmargin
    exact ⟨rfl, by omega⟩
  | overflow hcount =>
    unfold levelCount at hcount
    exact ⟨rfl, by omega⟩
  | gone hgone =>
    obtain ⟨node, hnode⟩ := h.live key .refl
    rw [NodeStore.node_eq_ok_iff.mpr hnode] at hgone
    cases hgone
  | child hnode hlist hsiblings =>
    rw [NodeStore.siblings_eq hnode hlist fun e he =>
      h.live _ (.single (.inl (NodeStore.leads_of_mem_linksOf he)))] at hsiblings
    cases hsiblings
  | stale href hstale =>
    obtain ⟨edge, hedge⟩ := h.fresh key .refl _ href
    rw [hedge] at hstale
    cases hstale

end Frame

/-- A walk of a walkable node comes to its end, or ends at a limit. -/
theorem visit_completes {h : Handler ω} (hn : h.Neutral) {f : Frame} {bound levels level : Nat}
    {key : Key} (hlevels : levels = levelCount - level) (hw : f.Walkable key)
    (hbound : level + f.depth key < bound) (s : Stage ω) :
    (visit h f levels level key).Ends s (fun _ _ => True) fun e _ => e.IsLimit bound := by
  induction levels generalizing level key s with
  | zero =>
    -- all levels are used up, and the node is nested as deep as there are levels
    unfold levelCount at hlevels
    exact Walk.Ends.throw ⟨rfl, by omega⟩
  | succ levels ih =>
    refine (visit_ends (fun _ _ _ _ => True) (·.IsLimit bound) hn
      (fun e he => hw.isLimit (by omega) he) (fun child s hgo => ?_) s).imp fun _ _ _ => trivial
    have hlower := hw.depth_lt hgo
    exact ih (by omega) (hw.of_goesOn (.single hgo)) (by omega) s

namespace World

variable {w : World} {key : Key}

/-- A walk of a walkable node of a world comes to its end, or ends at a limit. -/
theorem walk_completes {h : Handler ω} (hn : h.Neutral) (hw : w.frame.Walkable key) (start : ω)
    (canvas : Canvas) (level : Nat) :
    Completes (level + w.frame.depth key + 1) (walk h start canvas level key) w
      fun _ _ => True := by
  have hends := visit_completes hn rfl hw (Nat.lt_succ_self (level + w.frame.depth key))
    (w.stage canvas start)
  unfold Walk.Ends at hends
  unfold Completes
  rw [walk_apply]
  cases hvisit : visit h w.frame (levelCount - level) level key (w.stage canvas start) with
  | ok a s => trivial
  | error e s =>
    rw [hvisit] at hends
    simp only [fail_apply]
    exact hends

/-- Draws of a walkable node, at once and into a plan, come to their end, or end at a limit. -/
theorem draws_complete (hw : w.frame.Walkable key) (canvas : Canvas) (level : Nat) :
    Completes (level + w.frame.depth key + 1) (replay canvas level key) w (fun _ _ => True) ∧
      Completes (level + w.frame.depth key + 1) (planNode canvas level key) w fun _ _ => True :=
  ⟨(walk_completes Handler.immediate_neutral hw () canvas level).map _ fun _ _ h => h,
    walk_completes Handler.deferred_neutral hw {} canvas level⟩

/-- Where what is projected to a node comes from below it, the limit is one on how deep nodes are
nested. -/
theorem ready_draws_complete (hw : w.frame.Ready key) (canvas : Canvas) (level : Nat) :
    Completes (level + w.scene.nodes.height key + 1) (replay canvas level key) w
      (fun _ _ => True) ∧
    Completes (level + w.scene.nodes.height key + 1) (planNode canvas level key) w
      fun _ _ => True := by
  have hle : level + w.frame.depth key + 1 ≤ level + w.scene.nodes.height key + 1 :=
    Nat.succ_le_succ (Nat.add_le_add_left hw.depth_le_height level)
  obtain ⟨hreplay, hplan⟩ := draws_complete hw.walkable canvas level
  exact ⟨hreplay.weaken hle, hplan.weaken hle⟩

end World

end RetainedScene
