import Mathlib.Data.List.Nodup
import RetainedScene.Proofs.Scene.Tour

/-!
# Checking a scene link by link

The links of a store are finitely many (`NodeStore.links`), so that what is required of all that a
root reaches follows from a look at each link: that its node is there (`live_of_links`), that no two
lead to one node and none to the root (`isTree_of_links`), and that the contents in the slots are
recorded (`recorded_of_slots`).

`Ripple.world` is a scene of three nodes that is checked in this way.
-/

namespace RetainedScene

namespace NodeStore

variable {nodes : NodeStore} {root : Key} {ref : EdgeRef} {edge : Edge}

/-- All links of the nodes of a store. -/
def links (nodes : NodeStore) : List (EdgeRef × Edge) := nodes.keys.flatMap nodes.linksOf

theorem mem_links (hedge : nodes.edge ref = .ok edge) : (ref, edge) ∈ nodes.links := by
  obtain ⟨node, list, hnode, -, -⟩ := edge_eq_ok_iff.mp hedge
  exact List.mem_flatMap.mpr
    ⟨ref.parent, Arena.mem_keys_of_get? hnode, mem_linksOf.mpr ⟨rfl, hedge⟩⟩

theorem live_of_links (hroot : (nodes.get? root).isSome)
    (hlinks : ∀ e ∈ nodes.links, (nodes.get? e.2.child).isSome) : nodes.Live root := by
  intro key hkey
  refine Option.isSome_iff_exists.mp ?_
  cases hkey with
  | refl => exact hroot
  | tail _ hleads =>
    obtain ⟨ref, edge, hedge, -, rfl⟩ := hleads
    exact hlinks _ (mem_links hedge)

theorem isTree_of_links (hroot : ∀ e ∈ nodes.links, e.2.child ≠ root)
    (hnodup : (nodes.links.map (·.2.child)).Nodup) : nodes.IsTree root where
  unique _ _ hedge hedge' hchild := by
    have hpair := List.inj_on_of_nodup_map hnodup (mem_links hedge) (mem_links hedge') hchild
    exact congrArg Prod.fst hpair
  root_apart _ hedge := hroot _ (mem_links hedge)

theorem recorded_of_slots (h : ∀ slot ∈ nodes.slots, ∀ node ∈ slot.content,
      ∀ list ∈ node.content, list.IsRecorded) : nodes.Recorded root := by
  intro key node list _ hnode hlist
  have hslot := Arena.slot?_of_get? hnode
  cases hkey : key.slot with
  | zero => rw [hkey] at hslot; cases hslot
  | succ n =>
    rw [hkey] at hslot
    exact h _ (Array.mem_of_getElem? hslot) node rfl list hlist

end NodeStore

/-! ### A list, a card, and a ripple in the card -/

namespace Ripple

/-- What is recorded by commands. -/
def content (commands : List Command) : DisplayList :=
  (Recorder.performAll {} commands).finish.toOption.getD {}

theorem isRecorded_content (commands : List Command) : (content commands).IsRecorded := by
  unfold content
  cases hfinish : (Recorder.performAll {} commands).finish with
  | ok list => exact ⟨commands, list, hfinish, .inl rfl⟩
  | error e => exact ⟨[], {}, rfl, .inl rfl⟩

def list : Key := ⟨1, 1⟩

def card : Key := ⟨2, 1⟩

def ripple : Key := ⟨3, 1⟩

/-- The ripple in the card is projected onto the background of the list. -/
def nodes : NodeStore where
  slots := #[
    ⟨1, some ⟨"list", {}, some (content [.functor 0, .receive, .child card])⟩⟩,
    ⟨1, some ⟨"card", {}, some (content [.functor 1, .child ripple])⟩⟩,
    ⟨1, some ⟨"ripple", { projects := true }, some (content [.functor 2])⟩⟩]

def world : World where
  scene := { nodes }

def cardLink : Link where
  ref := ⟨list, 0⟩
  edge := ⟨card, .identity⟩
  node := ⟨"card", {}, some (content [.functor 1, .child ripple])⟩

def rippleLink : Link where
  ref := ⟨card, 0⟩
  edge := ⟨ripple, .identity⟩
  node := ⟨"ripple", { projects := true }, some (content [.functor 2])⟩

theorem isTrail : nodes.IsTrail list [rippleLink, cardLink] := by
  have hcard : nodes.IsTrail list [cardLink] := .down .top (fun _ h => nomatch h) rfl rfl rfl
  refine .down hcard (fun last hlast => ?_) rfl rfl rfl
  cases hlast
  decide

theorem live : nodes.Live list := NodeStore.live_of_links (by decide) (by decide)

theorem isTree : nodes.IsTree list := NodeStore.isTree_of_links (by decide) (by decide)

theorem recorded : nodes.Recorded list := by
  refine NodeStore.recorded_of_slots fun slot hslot node hnode content hcontent => ?_
  simp only [nodes, List.mem_toArray, List.mem_cons, List.not_mem_nil, or_false] at hslot
  rcases hslot with rfl | rfl | rfl <;> cases hnode <;> cases hcontent <;>
    exact isRecorded_content _

end Ripple

end RetainedScene
