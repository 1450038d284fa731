import RetainedScene.Proofs.Scene.Rerouting
import RetainedScene.Proofs.World.Leaving

/-!
# Nodes that are lost

What destroying nodes leaves of a world is told by the nodes that were destroyed (`World.Loses`):
their slots are empty and all others as they were, their routing is forgotten, and what their
contents referred to was given back.  This is so node by node, for a queue of nodes
(`Destroys.loses`), and for one set of nodes after another (`Loses.trans`).

Nothing in it depends on the order of the nodes, since forgetting and giving back commute
(`Routing.forget_comm`, `Cache.foldl_act_perm`); so two worlds that have lost the same nodes have
the same slots, routing and cache, and have told of the same resources (`Loses.agree`).
-/

namespace RetainedScene

open Cache

/-! ### Giving back -/

/-- A list that goes takes nothing. -/
theorem DisplayList.gives_of_mem_returns {l : DisplayList} {a : Act} (h : a ∈ l.returns) :
    a.gives := by
  simp only [returns, Act.giving, List.mem_append, List.mem_map, List.mem_flatMap,
    List.mem_pair] at h
  rcases h with ⟨id, -, rfl⟩ | ⟨id, -, rfl | rfl⟩ <;> rfl

namespace Routing

theorem forget_comm (r : Routing) (key key' : Key) :
    (r.forget key).forget key' = (r.forget key').forget key := by
  refine eq_of_same fun place => ?_
  cases place with
  | projected other =>
    show ((r.projected.erase key).erase key')[other]? = ((r.projected.erase key').erase key)[other]?
    simp only [Std.ExtTreeMap.getElem?_erase]
    split_ifs <;> rfl
  | compositing edge =>
    show (((r.compositing.filter _).filter _)[edge]? : Option Matrix) =
      ((r.compositing.filter _).filter _)[edge]?
    simp only [Std.ExtTreeMap.getElem?_filter']
    rw [Option.filter_filter, Option.filter_filter]
    simp only [Bool.and_comm]
  | held edge =>
    show edge ∈ (r.held.filter _).filter _ ↔ edge ∈ (r.held.filter _).filter _
    simp only [Std.ExtTreeSet.mem_filter, Std.ExtTreeSet.get_eq]
    simp [and_comm, and_left_comm]

theorem foldl_forget_perm {keys keys' : List Key} (h : keys.Perm keys') (r : Routing) :
    keys.foldl forget r = keys'.foldl forget r :=
  h.foldl_eq' (fun key _ key' _ r => forget_comm r key key') r

end Routing

namespace Arena

variable {α : Type} {a a' : Arena α} {k l : Key}

theorem slot?_of_contains (h : a.contains k) :
    ∃ value, a.slot? k.slot = some ⟨k.version, some value⟩ := by
  obtain ⟨value, hvalue⟩ := Option.isSome_iff_exists.mp h
  exact ⟨value, slot?_of_get? hvalue⟩

/-- Values that are there are in different slots. -/
theorem eq_of_slot_eq (hk : a.contains k) (hl : a.contains l) (h : k.slot = l.slot) : k = l := by
  obtain ⟨value, hvalue⟩ := slot?_of_contains hk
  obtain ⟨value', hvalue'⟩ := slot?_of_contains hl
  rw [h, hvalue', Option.some.injEq, Slot.mk.injEq] at hvalue
  cases k
  cases l
  exact (Key.mk.injEq ..).mpr ⟨h, hvalue.1.symm⟩

theorem slots_eq (hsize : a.slots.size = a'.slots.size) (h : ∀ n, a.slot? n = a'.slot? n) :
    a.slots = a'.slots :=
  Array.ext hsize fun i hi hi' => by
    have hslot : a.slots[i]? = a'.slots[i]? := h (i + 1)
    rwa [Array.getElem?_eq_getElem hi, Array.getElem?_eq_getElem hi', Option.some.injEq] at hslot

end Arena

namespace World

variable {w w' w'' : World} {key other : Key} {keys keys' : List Key}

/-- Nodes that were there have been destroyed, and nothing else has come of it. -/
structure Loses (w : World) (keys : List Key) (w' : World) : Prop where
  live : ∀ key ∈ keys, w.scene.nodes.contains key
  size : w'.scene.nodes.slots.size = w.scene.nodes.slots.size
  slot : ∀ n, w'.scene.nodes.slot? n =
    if ∃ key ∈ keys, key.slot = n then
      (w.scene.nodes.slot? n).map fun s => ⟨s.version + 1, none⟩
    else w.scene.nodes.slot? n
  routing : w'.scene.routing = keys.foldl Routing.forget w.scene.routing
  follows : w.shared.Follows (keys.flatMap w.returnsAt) w'.shared

/-- A node that was destroyed is not found any more, and every other one is as before. -/
theorem Loses.get? (h : w.Loses keys w') (key : Key) : w'.scene.nodes.get? key =
    if key ∈ keys then none else w.scene.nodes.get? key := by
  unfold Arena.get?
  rw [h.slot]
  by_cases hslot : ∃ lost ∈ keys, lost.slot = key.slot
  · rw [if_pos hslot]
    have hnone : (((w.scene.nodes.slot? key.slot).map fun s => ⟨s.version + 1, none⟩).bind
        fun s : Slot Node => if s.version = key.version then s.content else none) = none := by
      cases w.scene.nodes.slot? key.slot <;> simp
    rw [hnone]
    split_ifs with hkey
    · rfl
    -- another key of the slot was not good before either
    · obtain ⟨lost, hlost, heq⟩ := hslot
      refine Eq.symm (Option.not_isSome_iff_eq_none.mp fun hcontains => hkey ?_)
      exact Arena.eq_of_slot_eq (h.live lost hlost) hcontains heq ▸ hlost
  · rw [if_neg hslot, if_neg fun hkey => hslot ⟨key, hkey, rfl⟩]

theorem Loses.contains_iff (h : w.Loses keys w') :
    w'.scene.nodes.contains key ↔ key ∉ keys ∧ w.scene.nodes.contains key := by
  unfold Arena.contains
  rw [h.get?]
  split_ifs with hkey <;> simp [hkey]

/-- What another node would give back is the same. -/
theorem Loses.returnsAt_eq (h : w.Loses keys w') (hkey : key ∉ keys) :
    w'.returnsAt key = w.returnsAt key := by
  unfold returnsAt NodeStore.contentAt?
  rw [h.get?, if_neg hkey]

/-- Nodes are lost one set after the other. -/
theorem Loses.trans (h : w.Loses keys w') (h' : w'.Loses keys' w'') :
    w.Loses (keys ++ keys') w'' where
  live key hkey := by
    rcases List.mem_append.mp hkey with hfirst | hlater
    · exact h.live key hfirst
    · exact (h.contains_iff.mp (h'.live key hlater)).2
  size := h'.size.trans h.size
  slot n := by
    rw [h'.slot, h.slot]
    by_cases hlater : ∃ key ∈ keys', key.slot = n
    · obtain ⟨key, hkey, rfl⟩ := hlater
      obtain ⟨hother, hlive⟩ := h.contains_iff.mp (h'.live key hkey)
      have hfirst : ¬ ∃ lost ∈ keys, lost.slot = key.slot := by
        rintro ⟨lost, hlost, heq⟩
        exact hother (Arena.eq_of_slot_eq (h.live lost hlost) hlive heq ▸ hlost)
      rw [if_pos ⟨key, hkey, rfl⟩, if_neg hfirst,
        if_pos ⟨key, List.mem_append_right _ hkey, rfl⟩]
    · rw [if_neg hlater]
      refine if_congr ⟨?_, ?_⟩ rfl rfl
      · rintro ⟨key, hkey, heq⟩
        exact ⟨key, List.mem_append_left _ hkey, heq⟩
      · rintro ⟨key, hkey, heq⟩
        rcases List.mem_append.mp hkey with hkey | hkey
        · exact ⟨key, hkey, heq⟩
        · exact absurd ⟨key, hkey, heq⟩ hlater
  routing := by rw [h'.routing, h.routing, List.foldl_append]
  follows := by
    have hlater : keys'.flatMap w'.returnsAt = keys'.flatMap w.returnsAt :=
      List.flatMap_congr fun key hkey =>
        h.returnsAt_eq (h.contains_iff.mp (h'.live key hkey)).1
    rw [List.flatMap_append, ← hlater]
    exact h.follows.trans h'.follows

/-- No node is lost where only what is shared changes. -/
theorem loses_onShared {f : Shared → Shared} (hcache : (f w.shared).cache = w.shared.cache)
    (hjournal : (f w.shared).journal = w.shared.journal) : w.Loses [] (w.onShared f) where
  live _ hkey := nomatch hkey
  size := rfl
  slot _ := (if_neg fun ⟨_, hkey, _⟩ => nomatch hkey).symm
  routing := rfl
  follows := .of_eq hcache hjournal

theorem loses_emptied {node : Node} {nodes : NodeStore}
    (hremove : w.scene.nodes.remove? key = some (node, nodes))
    (hspent : ∀ l ∈ node.content, l.spent = false) : w.Loses [key] (w.emptied key node nodes) := by
  obtain ⟨hnode, rfl⟩ := Arena.remove?_eq_some_iff.mp hremove
  have hslot := Arena.slot?_of_get? hnode
  refine ⟨fun lost hlost => ?_, Array.size_setIfInBounds, fun n => ?_, rfl, ?_⟩
  · rw [List.mem_singleton.mp hlost, Arena.contains, hnode]
    rfl
  · refine (Arena.slot?_setSlot (by rw [hslot]; rfl) _ n).trans ?_
    by_cases hn : key.slot = n
    · rw [if_pos hn.symm, if_pos ⟨key, List.mem_singleton_self _, hn⟩, ← hn, hslot]
      rfl
    · rw [if_neg (Ne.symm hn), if_neg]
      rintro ⟨lost, hlost, heq⟩
      exact hn (List.mem_singleton.mp hlost ▸ heq)
  · rw [List.flatMap_singleton, returnsAt_of_get? hnode]
    refine Shared.Follows.log ?_ rfl
    cases hcontent : node.content with
    | none => exact .refl _
    | some l =>
      rw [Option.toList_some, List.flatMap_singleton]
      exact Shared.follows_tearDown (hspent l hcontent) _

/-- Nodes that are destroyed one after the other are lost. -/
theorem Destroys.loses (h : Destroys w keys w')
    (hspent : ∀ l ∈ w.scene.nodes.contents, l.spent = false) : w.Loses keys w' := by
  induction h with
  | nil w => exact loses_onShared (f := id) rfl rfl
  | @cons w w' first keys node nodes hremove _ ih =>
    have hnode := (Arena.remove?_eq_some_iff.mp hremove).1
    have hfirst := loses_emptied hremove fun l hl =>
      hspent l (NodeStore.mem_contents_of_get? hnode hl)
    refine hfirst.trans (ih fun l hl => hspent l ?_)
    exact (NodeStore.contents_remove? hremove).mem_iff.mpr (List.mem_append_right _ hl)

/-- Different nodes that are there can be destroyed one after the other. -/
theorem exists_destroys (hnodup : keys.Nodup) (hlive : ∀ key ∈ keys, w.scene.nodes.contains key) :
    ∃ w', Destroys w keys w' := by
  induction keys generalizing w with
  | nil => exact ⟨w, .nil w⟩
  | cons key keys ih =>
    obtain ⟨hnot, hnodup⟩ := List.nodup_cons.mp hnodup
    obtain ⟨node, hnode⟩ := Option.isSome_iff_exists.mp (hlive key List.mem_cons_self)
    obtain ⟨nodes, hremove⟩ : ∃ nodes, w.scene.nodes.remove? key = some (node, nodes) :=
      ⟨_, Arena.remove?_eq_some_iff.mpr ⟨hnode, rfl⟩⟩
    have hothers (other : Key) (hother : other ∈ keys) : nodes.contains other := by
      have hne : other ≠ key := fun heq => hnot (heq ▸ hother)
      rw [Arena.contains, Arena.get?_remove? hremove, if_neg hne]
      exact hlive other (List.mem_cons_of_mem _ hother)
    obtain ⟨w', hrest⟩ := ih (w := w.emptied key node nodes) hnodup hothers
    exact ⟨w', .cons hremove hrest⟩

/-- Two worlds that have lost the same nodes agree. -/
theorem Loses.agree (h : w.Loses keys w') (h' : w.Loses keys' w'') (hp : keys.Perm keys') :
    w'.scene.nodes.slots = w''.scene.nodes.slots ∧ w'.scene.routing = w''.scene.routing ∧
      w'.shared.cache = w''.shared.cache ∧
      w'.shared.journal.resourcesLeft.Perm w''.shared.journal.resourcesLeft := by
  have hacts : (keys.flatMap w.returnsAt).Perm (keys'.flatMap w.returnsAt) := hp.flatMap_right _
  have hgives : ∀ a ∈ keys.flatMap w.returnsAt, a.gives := by
    intro a ha
    obtain ⟨key, -, ha⟩ := List.mem_flatMap.mp ha
    obtain ⟨l, -, ha⟩ := List.mem_flatMap.mp ha
    exact DisplayList.gives_of_mem_returns ha
  refine ⟨Arena.slots_eq (h.size.trans h'.size.symm) fun n => ?_, ?_, ?_, ?_⟩
  · rw [h.slot, h'.slot]
    simp only [hp.mem_iff]
  · rw [h.routing, h'.routing, Routing.foldl_forget_perm hp]
  · rw [h.follows.cache, h'.follows.cache, foldl_act_perm hacts hgives]
  · rw [h.follows.told, h'.follows.told]
    exact (leavings_perm hacts hgives _).append_left _

end World

end RetainedScene
