import Mathlib.Data.Finset.Card
import Mathlib.Data.Finset.Filter
import Mathlib.Logic.Relation
import Mathlib.Order.Lattice.Nat
import RetainedScene.Proofs.DisplayList.Recorded
import RetainedScene.Scene.Basic

/-!
# The nodes below a node

A node leads to its children, and reaches what its children reach.  What is reached from a root may
be live, acyclic, recorded, or a tree, in which no node is the child of two links; a tree is
acyclic.

How deep nodes are nested in a node is its `height`: the most links that lead down from it, one
after the other.  In an acyclic part of a scene it falls along every link and is less than the count
of slots (`height_lt`, `height_lt_size`).
-/

namespace RetainedScene

open Relation

/-! ### Nodes with something to draw -/

namespace Node

variable {node : Node} {list : DisplayList}

theorem drawable?_eq_some_iff :
    node.drawable? = some list ↔ node.content = some list ∧ list.isEmpty = false := by
  simp [drawable?, Option.filter_eq_some_iff]

theorem drawable?_of_shown? (h : node.shown? = some list) : node.drawable? = some list := by
  unfold shown? at h
  split at h
  · exact h
  · cases h

/-- A node with something to draw is shown unless it is fully transparent. -/
theorem exists_shown (hdraws : node.isDrawable) (halpha : 0 < node.properties.alpha) :
    ∃ list, node.shown? = some list := by
  obtain ⟨list, hlist⟩ := Option.isSome_iff_exists.mp hdraws
  exact ⟨list, by rw [shown?, if_pos halpha, hlist]⟩

theorem content_of_shown? (h : node.shown? = some list) : node.content = some list :=
  (drawable?_eq_some_iff.mp (drawable?_of_shown? h)).1

end Node

/-! ### Links -/

theorem DisplayList.mem_edgesOf {list : DisplayList} {key : Key} {ref : EdgeRef} {edge : Edge} :
    (ref, edge) ∈ list.edgesOf key ↔ ref.parent = key ∧ list.children[ref.index]? = some edge := by
  unfold DisplayList.edgesOf
  rw [List.mem_map]
  constructor
  · rintro ⟨⟨edge', index⟩, hmem, heq⟩
    obtain ⟨rfl, rfl⟩ := Prod.mk.inj heq
    rw [List.mem_zipIdx_iff_getElem?] at hmem
    exact ⟨rfl, by simpa using hmem⟩
  · rintro ⟨rfl, hchild⟩
    refine ⟨(edge, ref.index), ?_, rfl⟩
    rw [List.mem_zipIdx_iff_getElem?]
    simpa using hchild

namespace NodeStore

variable {nodes : NodeStore} {root a b key : Key} {ref : EdgeRef} {edge : Edge} {node : Node}

theorem node_eq_ok_iff : nodes.node key = .ok node ↔ nodes.get? key = some node := by
  unfold NodeStore.node
  cases nodes.get? key <;> simp

theorem edge_eq_ok_iff : nodes.edge ref = .ok edge ↔
    ∃ node list, nodes.get? ref.parent = some node ∧ node.content = some list ∧
      list.children[ref.index]? = some edge := by
  unfold NodeStore.edge NodeStore.node
  cases hparent : nodes.get? ref.parent with
  | none => simp [bind, Except.bind]
  | some node =>
    cases hcontent : node.content with
    | none => simp [bind, Except.bind, hcontent]
    | some list =>
      cases hchild : list.children[ref.index]? <;> simp [bind, Except.bind, hcontent, hchild]

/-- The links of a node's content are the ones that its edges name. -/
theorem mem_edgesOf_iff {list : DisplayList} (hnode : nodes.get? key = some node)
    (hlist : node.content = some list) :
    (ref, edge) ∈ list.edgesOf key ↔ ref.parent = key ∧ nodes.edge ref = .ok edge := by
  rw [DisplayList.mem_edgesOf, edge_eq_ok_iff]
  constructor
  · rintro ⟨rfl, hchild⟩
    exact ⟨rfl, node, list, hnode, hlist, hchild⟩
  · rintro ⟨rfl, node', list', hnode', hlist', hchild⟩
    obtain rfl := Option.some.inj (hnode.symm.trans hnode')
    obtain rfl := Option.some.inj (hlist.symm.trans hlist')
    exact ⟨rfl, hchild⟩

/-! ### Reaching -/

/-- A node's content has a link to a node. -/
def Leads (nodes : NodeStore) (a b : Key) : Prop :=
  ∃ ref edge, nodes.edge ref = .ok edge ∧ ref.parent = a ∧ edge.child = b

/-- A node is the other one or is nested in it. -/
abbrev Reaches (nodes : NodeStore) : Key → Key → Prop := ReflTransGen nodes.Leads

theorem leads_of_edge (h : nodes.edge ref = .ok edge) : nodes.Leads ref.parent edge.child :=
  ⟨ref, edge, h, rfl, rfl⟩

/-- All that is reached is in the store. -/
def Live (nodes : NodeStore) (root : Key) : Prop :=
  ∀ key, nodes.Reaches root key → ∃ node, nodes.get? key = some node

/-- Nothing that is reached is nested in itself. -/
def Acyclic (nodes : NodeStore) (root : Key) : Prop :=
  ∀ key, nodes.Reaches root key → ¬ TransGen nodes.Leads key key

/-- The contents of the nodes that are reached come from recorders. -/
def Recorded (nodes : NodeStore) (root : Key) : Prop :=
  ∀ key node list, nodes.Reaches root key → nodes.get? key = some node →
    node.content = some list → list.IsRecorded

/-- Of what is reached every node is the child of at most one link, and the root of none. -/
structure IsTree (nodes : NodeStore) (root : Key) : Prop where
  unique : ∀ {e f : EdgeRef} {d d' : Edge}, nodes.Reaches root e.parent →
    nodes.Reaches root f.parent → nodes.edge e = .ok d → nodes.edge f = .ok d' →
    d.child = d'.child → e = f
  root_apart : ∀ {e : EdgeRef} {d : Edge}, nodes.Reaches root e.parent → nodes.edge e = .ok d →
    d.child ≠ root

theorem Live.of_reaches (h : nodes.Live root) (ha : nodes.Reaches root a) : nodes.Live a :=
  fun key hkey => h key (ha.trans hkey)

theorem Acyclic.of_reaches (h : nodes.Acyclic root) (ha : nodes.Reaches root a) : nodes.Acyclic a :=
  fun key hkey => h key (ha.trans hkey)

/-- The last link of a way from a node to itself is the link that the node was reached by. -/
theorem IsTree.acyclic (h : nodes.IsTree root) : nodes.Acyclic root := by
  intro key hkey
  induction hkey with
  | refl =>
    intro hcycle
    obtain ⟨_, hreach, ref, edge, hedge, rfl, hchild⟩ := TransGen.tail'_iff.mp hcycle
    exact h.root_apart hreach hedge hchild
  | @tail a b ha hab ih =>
    intro hcycle
    obtain ⟨_, hreach, ref, edge, hedge, rfl, hchild⟩ := TransGen.tail'_iff.mp hcycle
    obtain ⟨ref', edge', hedge', rfl, hchild'⟩ := hab
    have hparent : nodes.Reaches root ref.parent :=
      (ha.tail ⟨ref', edge', hedge', rfl, hchild'⟩).trans hreach
    -- the way back ends in the link that the node was reached by, so it can begin and end one node
    -- higher as well
    obtain rfl := h.unique hparent ha hedge hedge' (hchild.trans hchild'.symm)
    exact ih (TransGen.head' ⟨ref, edge', hedge', rfl, hchild'⟩ hreach)

end NodeStore

/-! ### Height -/

namespace Arena

variable {α : Type}

theorem mem_keys_of_get? {a : Arena α} {k : Key} {value : α} (h : a.get? k = some value) :
    k ∈ a.keys := by
  have hslot := slot?_of_get? h
  unfold keys
  rw [List.mem_filterMap]
  cases hk : k.slot with
  | zero => rw [hk] at hslot; cases hslot
  | succ n =>
    rw [hk] at hslot
    have hn : n < a.slots.size := by
      by_contra hn
      simp [slot?, Array.getElem?_eq_none (Nat.le_of_not_lt hn)] at hslot
    refine ⟨n, List.mem_range.mpr hn, ?_⟩
    rw [keyAt?, hslot, ← hk]
    rfl

theorem length_keys_le (a : Arena α) : a.keys.length ≤ a.slots.size := by
  unfold keys
  exact (List.length_filterMap_le _ _).trans_eq List.length_range

end Arena

namespace Key

variable {r : Key → Key → Prop} {a : Key} {bound : Nat}

/-- So many steps of a relation lead on from a node, one after the other. -/
def HasChain (r : Key → Key → Prop) : Nat → Key → Prop
  | 0, _ => True
  | n + 1, a => ∃ b, r a b ∧ HasChain r n b

/-- The most steps of a relation that lead on from a node, one after the other. -/
noncomputable def depth (r : Key → Key → Prop) (a : Key) : Nat := sSup {n | HasChain r n a}

theorem depth_le (h : ∀ n, HasChain r n a → n ≤ bound) : depth r a ≤ bound :=
  csSup_le ⟨0, trivial⟩ h

end Key

namespace NodeStore

variable {nodes : NodeStore} {root a b : Key} {r r' : Key → Key → Prop} {n : Nat}

/-- How deep nodes are nested in a node. -/
noncomputable def height (nodes : NodeStore) (key : Key) : Nat := Key.depth nodes.Leads key

/-- All that a relation comes to from a node is in the store, and no way leads back. -/
structure Grounds (nodes : NodeStore) (r : Key → Key → Prop) (root : Key) : Prop where
  live : ∀ key, ReflTransGen r root key → ∃ node, nodes.get? key = some node
  acyclic : ∀ key, ReflTransGen r root key → ¬ TransGen r key key

open Classical in
/-- The count of nodes of the store that a relation comes to from a node. -/
noncomputable def countBelow (nodes : NodeStore) (r : Key → Key → Prop) (key : Key) : Nat :=
  (nodes.keys.toFinset.filter (TransGen r key)).card

namespace Grounds

theorem of_reaches (h : nodes.Grounds r a) (hab : ReflTransGen r a b) : nodes.Grounds r b where
  live key hkey := h.live key (hab.trans hkey)
  acyclic key hkey := h.acyclic key (hab.trans hkey)

open Classical in
/-- A relation without a way back comes to fewer nodes from a node that it has gone on to. -/
theorem countBelow_lt (h : nodes.Grounds r a) (hab : r a b) :
    nodes.countBelow r b < nodes.countBelow r a := by
  obtain ⟨node, hnode⟩ := h.live b (.single hab)
  refine Finset.card_lt_card (Finset.ssubset_iff_subset_ne.mpr ⟨?_, ?_⟩)
  · intro k hk
    rw [Finset.mem_filter] at hk ⊢
    exact ⟨hk.1, .head hab hk.2⟩
  -- the second node is below the first one and not below itself
  · intro heq
    have hmem : b ∈ nodes.keys.toFinset.filter (TransGen r a) :=
      Finset.mem_filter.mpr ⟨List.mem_toFinset.mpr (Arena.mem_keys_of_get? hnode), .single hab⟩
    rw [← heq, Finset.mem_filter] at hmem
    exact h.acyclic b (.single hab) hmem.2

open Classical in
/-- There is room in the store for a node and all that is below it. -/
theorem countBelow_lt_size (h : nodes.Grounds r root) :
    nodes.countBelow r root < nodes.slots.size := by
  obtain ⟨node, hnode⟩ := h.live root .refl
  have hlt : nodes.countBelow r root < nodes.keys.toFinset.card := by
    refine Finset.card_lt_card (Finset.ssubset_iff_subset_ne.mpr ⟨Finset.filter_subset _ _, ?_⟩)
    intro heq
    have hmem : root ∈ nodes.keys.toFinset :=
      List.mem_toFinset.mpr (Arena.mem_keys_of_get? hnode)
    rw [← heq, Finset.mem_filter] at hmem
    exact h.acyclic root .refl hmem.2
  exact hlt.trans_le ((List.toFinset_card_le _).trans nodes.length_keys_le)

/-- Each step of a chain comes to another node. -/
theorem le_countBelow (h : nodes.Grounds r a) (hn : Key.HasChain r n a) :
    n ≤ nodes.countBelow r a := by
  induction n generalizing a with
  | zero => exact Nat.zero_le _
  | succ n ih =>
    obtain ⟨b, hab, hn⟩ := hn
    exact (ih (h.of_reaches (.single hab)) hn).trans_lt (h.countBelow_lt hab)

theorem bddAbove (h : nodes.Grounds r a) : BddAbove {n | Key.HasChain r n a} :=
  ⟨nodes.countBelow r a, fun _ => h.le_countBelow⟩

theorem hasChain_depth (h : nodes.Grounds r a) : Key.HasChain r (Key.depth r a) a := by
  have hzero : Key.HasChain r 0 a := trivial
  exact Nat.sSup_mem ⟨0, hzero⟩ h.bddAbove

theorem depth_lt_of_step (h : nodes.Grounds r a) (hab : r a b) :
    Key.depth r b < Key.depth r a := by
  have hchain : Key.HasChain r (Key.depth r b + 1) a :=
    ⟨b, hab, (h.of_reaches (.single hab)).hasChain_depth⟩
  exact le_csSup h.bddAbove hchain

/-- The depth falls along a way of one step or more. -/
theorem depth_lt (h : nodes.Grounds r a) (hab : TransGen r a b) :
    Key.depth r b < Key.depth r a := by
  induction hab with
  | single hab => exact h.depth_lt_of_step hab
  | tail hac hcb ih => exact ((h.of_reaches hac.to_reflTransGen).depth_lt_of_step hcb).trans ih

theorem depth_lt_size (h : nodes.Grounds r root) : Key.depth r root < nodes.slots.size :=
  (Key.depth_le fun _ => h.le_countBelow).trans_lt h.countBelow_lt_size

/-- Steps that each go on by a step of another relation or more do not make a longer chain. -/
theorem depth_le_depth (h : nodes.Grounds r a)
    (hsteps : ∀ b c, ReflTransGen r a b → r' b c → TransGen r b c) :
    Key.depth r' a ≤ Key.depth r a := by
  refine Key.depth_le fun n hn => ?_
  induction n generalizing a with
  | zero => exact Nat.zero_le _
  | succ n ih =>
    obtain ⟨b, hab, hn⟩ := hn
    have hdown := hsteps a b .refl hab
    have hb := hdown.to_reflTransGen
    exact (ih (h.of_reaches hb) (fun c d hc => hsteps c d (hb.trans hc)) hn).trans_lt
      (h.depth_lt hdown)

end Grounds

/-- The height falls along a way down. -/
theorem height_lt (hlive : nodes.Live a) (hacyclic : nodes.Acyclic a)
    (hab : TransGen nodes.Leads a b) : nodes.height b < nodes.height a :=
  Grounds.depth_lt ⟨hlive, hacyclic⟩ hab

/-- There is room in the store for a node and all that is nested in it. -/
theorem height_lt_size (hlive : nodes.Live root) (hacyclic : nodes.Acyclic root) :
    nodes.height root < nodes.slots.size :=
  Grounds.depth_lt_size ⟨hlive, hacyclic⟩

theorem add_height_lt (hlive : nodes.Live root) (hacyclic : nodes.Acyclic root)
    {level bound : Nat} (hsize : level + nodes.slots.size ≤ bound) :
    level + nodes.height root < bound :=
  (Nat.add_lt_add_left (height_lt_size hlive hacyclic) level).trans_le hsize

end NodeStore

end RetainedScene
