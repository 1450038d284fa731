import RetainedScene.Proofs.Walk.Agenda

/-!
# What a walk keeps

The walk of a node leaves settled the links below the node and does not touch the others
(`Frame.Kept`).  Of the node's own links to children that do not project it goes by whether they are
classified (`Frame.Classified`): sorting the children sees to it (`Frame.classified_holdElevated`),
and the walk of a child keeps it, as in an acyclic scene no way leads back to the node.
-/

namespace RetainedScene

open Relation

variable {ω : Type}

/-- A walk of a node leaves the links below it settled, and does not touch the other links. -/
structure Frame.Kept (f : Frame) (key : Key) (s t : Stage ω) : Prop where
  settled : f.Settled key t.held
  apart : ∀ ref, ¬ f.nodes.Reaches key ref.parent → (ref ∈ t.held ↔ ref ∈ s.held)

/-- Of a node's links to children that do not project, those to elevated ones are held back. -/
def Frame.Classified (f : Frame) (key : Key) (held : EdgeSet) : Prop :=
  ∀ ref child, ref.parent = key → f.nodes.child? ref = some child →
    child.properties.projects = false → (ref ∈ held ↔ child.properties.elevation.isZero = false)

/-- No way leads back to the node that a link is from. -/
theorem Frame.Sound.not_reaches {f : Frame} {key : Key} {ref : EdgeRef} {edge : Edge}
    (h : f.Sound key) (hparent : f.nodes.Reaches key ref.parent)
    (hedge : f.nodes.edge ref = .ok edge) : ¬ f.nodes.Reaches edge.child ref.parent := by
  intro hback
  have hleads := NodeStore.leads_of_edge hedge
  exact h.acyclic edge.child (hparent.tail hleads) (.tail' hback hleads)

namespace Frame.Kept

variable {f : Frame} {key child : Key} {s t t' : Stage ω}

theorem trans (h : f.Kept key s t) (h' : f.Kept key t t') : f.Kept key s t' where
  settled := h'.settled
  apart ref href := (h'.apart ref href).trans (h.apart ref href)

/-- What the walk of a node keeps is kept for all nodes above it. -/
theorem up (h : f.Kept child s t) (hchild : f.nodes.Reaches key child)
    (hsettled : f.Settled key s.held) : f.Kept key s t where
  settled ref node hreach hnode hdraws hprojects := by
    -- the walk has settled what is below the child, and has not touched the rest
    by_cases hbelow : f.nodes.Reaches child ref.parent
    · exact h.settled ref node hbelow hnode hdraws hprojects
    · exact (h.apart ref hbelow).mpr (hsettled ref node hreach hnode hdraws hprojects)
  apart ref href := h.apart ref fun hbelow => href (hchild.trans hbelow)

/-- The walk of a node leaves the links of a node alone that it does not reach. -/
theorem classified (h : f.Kept child s t) (hback : ¬ f.nodes.Reaches child key)
    (hclassified : f.Classified key s.held) : f.Classified key t.held := by
  rintro ref node rfl hnode hprojects
  rw [h.apart ref hback]
  exact hclassified ref node rfl hnode hprojects

/-- A link that is let go for a walk and then held back again is as it was. -/
theorem of_letGo {ref : EdgeRef} {s' t' : Stage ω} (h : f.Kept child s' t')
    (hs : s'.held = s.held.erase ref) (ht : t.held = t'.held.insert ref) (hheld : ref ∈ s.held) :
    f.Kept child s t where
  settled r node hreach hnode hdraws hprojects := by
    rw [ht]
    exact Std.ExtTreeSet.mem_insert.mpr (.inr (h.settled r node hreach hnode hdraws hprojects))
  apart r hr := by
    have happart := h.apart r hr
    rw [ht, Std.ExtTreeSet.mem_insert, happart, hs, Std.ExtTreeSet.mem_erase,
      EdgeRef.order_eq_eq_iff]
    -- only the link itself was let go, and it was held back to begin with
    by_cases hne : ref = r
    · simp [hne, hne ▸ hheld]
    · simp [hne]

end Frame.Kept

/-! ### Sorting the children -/

namespace Frame

variable {f : Frame} {key : Key} {held : EdgeSet}

/-- Sorting the children of a node lets go of no link that projects. -/
theorem settled_holdElevated (h : f.Settled key held) :
    f.Settled key (Sibling.holdElevated (f.nodes.children key) held) := by
  intro ref child hreach hchild hdraws hprojects
  refine (Sibling.mem_holdElevated_of_projects fun c hc href => ?_).mpr
    (h ref child hreach hchild hdraws hprojects)
  rw [NodeStore.properties_of_mem_children hc (href ▸ hchild), hprojects]

/-- Sorting the children of a node does not touch the links of another one. -/
theorem mem_holdElevated_of_parent_ne {ref : EdgeRef} (h : ref.parent ≠ key) :
    ref ∈ Sibling.holdElevated (f.nodes.children key) held ↔ ref ∈ held := by
  refine Sibling.mem_holdElevated_of_projects fun c hc href => ?_
  exact absurd (href ▸ (NodeStore.mem_children.mp hc).1) h

theorem classified_holdElevated (f : Frame) (key : Key) (held : EdgeSet) :
    f.Classified key (Sibling.holdElevated (f.nodes.children key) held) := by
  intro ref child hparent hchild hprojects
  obtain ⟨edge, hedge, hget⟩ := NodeStore.child?_eq_some_iff.mp hchild
  have hc : (⟨ref, edge, child.properties⟩ : Sibling) ∈ f.nodes.children key :=
    NodeStore.mem_children.mpr ⟨hparent, hedge, child, hget, rfl⟩
  exact Sibling.mem_holdElevated hc hprojects fun d hd href =>
    NodeStore.properties_of_mem_children hd (href ▸ hchild)

end Frame

end RetainedScene
