import Mathlib.Algebra.BigOperators.Group.List.Basic
import Mathlib.Algebra.GroupWithZero.Nat
import Mathlib.Data.List.Count
import Mathlib.Data.List.Perm.Basic
import RetainedScene.Proofs.Walk.Agenda

/-!
# How often an agenda descends into a link

An agenda comes by a link in one of two ways.  If the link's node does not project, the link is
among the elevated children or is drawn at its operation, and recorded content has one operation for
each link; if it projects, it may be listed at the receive point (`Frame.count_agenda`).  All
operations that draw something are in the agenda in their order (`Frame.filterMap_draw?_agenda`).
-/

namespace RetainedScene

/-- The operation that a step draws something with. -/
def Step.draw? : Step → Option DrawOp
  | op own => if own.batchKind?.isSome then some own else none
  | descend _ => none

namespace NodeStore

variable {nodes : NodeStore} {key : Key} {ref : EdgeRef} {child : Node}

/-- A child of a node is a link's when the link is from the node. -/
theorem exists_sibling_iff (hchild : nodes.child? ref = some child) (p : Properties → Prop) :
    (∃ c ∈ nodes.children key, p c.properties ∧ c.ref = ref) ↔
      ref.parent = key ∧ p child.properties := by
  constructor
  · rintro ⟨c, hc, hp, rfl⟩
    rw [← properties_of_mem_children hc hchild]
    exact ⟨(mem_children.mp hc).1, hp⟩
  · rintro ⟨hparent, hp⟩
    obtain ⟨edge, hedge, hnode⟩ := child?_eq_some_iff.mp hchild
    exact ⟨⟨ref, edge, child.properties⟩, mem_children.mpr ⟨hparent, hedge, child, hnode, rfl⟩, hp,
      rfl⟩

/-- An elevated child is descended into once in the two passes. -/
theorem count_byHeight (key : Key) (hchild : nodes.child? ref = some child) :
    ((Sibling.byHeight (nodes.children key)).map fun c => Step.descend c.ref).count (.descend ref) =
      if ref.parent = key ∧ child.properties.projects = false ∧
        child.properties.elevation.isZero = false then 1 else 0 := by
  have hperm : List.Perm (Sibling.byHeight (nodes.children key))
      ((nodes.children key).filter Sibling.isElevated) := List.mergeSort_perm _ _
  have hnodup : (((nodes.children key).filter Sibling.isElevated).map
      fun c => Step.descend c.ref).Nodup := by
    refine List.pairwise_map.mpr (((pairwise_children nodes key).filter _).imp fun hlt heq => ?_)
    rw [Step.descend.injEq] at heq
    exact absurd (congrArg EdgeRef.index heq) hlt.ne
  rw [(hperm.map _).count_eq, hnodup.count]
  refine if_congr ?_ rfl rfl
  rw [List.mem_map, ← exists_sibling_iff hchild fun p => p.projects = false ∧
    p.elevation.isZero = false]
  simp only [List.mem_filter, Step.descend.injEq, Sibling.isElevated, Sibling.height,
    Bool.and_eq_true, Bool.not_eq_true', and_assoc]

end NodeStore

namespace Frame

variable {f : Frame} {key : Key} {list : DisplayList} {ref : EdgeRef} {child : Node}

/-! ### Descents in the order of content -/

theorem count_atOp (hchild : f.nodes.child? ref = some child) :
    (f.atOp key (.child ref.index)).count (.descend ref) =
      if ref.parent = key ∧ child.properties.projects = false ∧
        child.properties.elevation.isZero then 1 else 0 := by
  by_cases hparent : ref.parent = key
  · obtain rfl := hparent
    rw [atOp_child hchild]
    cases child.properties.projects <;> cases child.properties.elevation.isZero <;> simp
  · have hne : (⟨key, ref.index⟩ : EdgeRef) ≠ ref := fun heq => hparent (heq ▸ rfl)
    rw [if_neg fun h => hparent h.1]
    simp only [atOp]
    split <;> simp [hne]

theorem count_atOp_of_ne {i : Nat} (hi : i ≠ ref.index) :
    (f.atOp key (.child i)).count (.descend ref) = 0 := by
  have hne : (⟨key, i⟩ : EdgeRef) ≠ ref := fun heq => hi (heq ▸ rfl)
  simp only [atOp]
  split <;> simp [hne]

/-- Of the operations only those of children descend. -/
theorem count_flatMap_atOp (ops : List DrawOp) :
    (ops.flatMap (f.atOp key)).count (.descend ref) =
      ((ops.filterMap DrawOp.child?).map
        fun i => (f.atOp key (.child i)).count (.descend ref)).sum := by
  induction ops with
  | nil => rfl
  | cons op ops ih =>
    rw [List.flatMap_cons, List.count_append, ih]
    cases op with
    | child i => rfl
    | _ =>
      rw [List.filterMap_cons_none rfl, atOp, List.count_singleton]
      · exact Nat.zero_add _
      · exact fun i => DrawOp.noConfusion

/-- A child of height zero is descended into at one operation. -/
theorem count_ops (hlinks : list.WellLinked)
    (hindex : ref.parent = key → ref.index < list.children.size)
    (hchild : f.nodes.child? ref = some child) :
    (list.ops.toList.flatMap (f.atOp key)).count (.descend ref) =
      if ref.parent = key ∧ child.properties.projects = false ∧
        child.properties.elevation.isZero then 1 else 0 := by
  rw [count_flatMap_atOp, hlinks.links, List.sum_map_eq_nsmul_single ref.index _
    fun i hi _ => count_atOp_of_ne hi, count_atOp hchild, List.count_range]
  by_cases hparent : ref.parent = key
  · simp [hindex hparent]
  · simp [hparent]

/-- The receive point is one of the operations. -/
theorem count_received (hlinks : list.WellLinked) :
    (list.ops.toList.zipIdx.flatMap fun (_, index) => f.afterOp key list index).count
        (.descend ref) =
      if list.receiveIndex.isSome then (f.projectedAt key).count ref else 0 := by
  have hindices : (list.ops.toList.zipIdx.flatMap fun (_, index) => f.afterOp key list index)
      = (List.range list.ops.size).flatMap (f.afterOp key list) := by
    rw [List.range_eq_range', ← Array.length_toList, ← List.zipIdx_map_snd 0, List.flatMap_map]
  rw [hindices, List.count_flatMap]
  cases hreceive : list.receiveIndex with
  | none =>
    have hnone (index : Nat) : f.afterOp key list index = [] := by simp [afterOp, hreceive]
    simp [Function.comp_def, hnone]
  | some receive =>
    have hother (index : Nat) (hne : index ≠ receive) :
        (f.afterOp key list index).count (.descend ref) = 0 := by
      simp [afterOp, hreceive, hne.symm]
    have hpoint : (f.afterOp key list receive).count (.descend ref)
        = (f.projectedAt key).count ref := by
      rw [afterOp, if_pos hreceive]
      exact List.count_map_of_injective _ _ (fun _ _ => Step.descend.inj) ref
    rw [List.sum_map_eq_nsmul_single receive (List.count _ ∘ f.afterOp key list)
      fun index hne _ => hother index hne, List.count_range,
      if_pos (hlinks.receive receive hreceive), Function.comp_apply, hpoint]
    simp

/-! ### Descents of an agenda -/

/-- A link with something to draw is descended into once by its parent, if it does not project, and
as often as it is listed at the receive point. -/
theorem count_agenda (hlinks : list.WellLinked)
    (hindex : ref.parent = key → ref.index < list.children.size)
    (hchild : f.nodes.child? ref = some child) (hdraws : child.isDrawable) :
    (f.agenda key list).count (.descend ref) =
      (if ref.parent = key ∧ child.properties.projects = false then 1 else 0) +
        if list.receiveIndex.isSome then (f.projectedAt key).count ref else 0 := by
  have hdrawn : Step.isDrawn f.nodes (.descend ref) = true := by simp [Step.isDrawn, hchild, hdraws]
  have hpasses := NodeStore.count_byHeight key hchild
  -- the two passes together are all elevated children
  rw [← List.takeWhile_append_dropWhile (p := fun c : Sibling => ¬ 0 ≤ c.height)
    (l := Sibling.byHeight (f.nodes.children key)), List.map_append, List.count_append] at hpasses
  -- for counting, what is at the operations may come before all that is after them
  have horder := (List.flatMap_append_perm list.ops.toList.zipIdx (fun (op, _) => f.atOp key op)
    (fun (_, index) => f.afterOp key list index)).count_eq (.descend ref)
  rw [List.count_append, count_received hlinks] at horder
  have hops := count_ops hlinks hindex hchild
  rw [← List.zipIdx_map_fst 0 list.ops.toList, List.flatMap_map] at hops
  rw [hops] at horder
  unfold agenda
  dsimp only
  rw [List.count_filter hdrawn, List.count_append, List.count_append, ← horder]
  unfold Sibling.below Sibling.above
  revert hpasses
  cases child.properties.projects <;> cases child.properties.elevation.isZero <;>
    by_cases hparent : ref.parent = key <;> simp [hparent] <;> omega

/-- What an agenda descends into is below its node. -/
theorem Sound.of_mem_agenda (h : f.Sound key) (hmem : Step.descend ref ∈ f.agenda key list) :
    f.nodes.Reaches key ref.parent := by
  have hsibling {c : Sibling} (hc : c ∈ Sibling.byHeight (f.nodes.children key)) :
      f.nodes.Reaches key c.ref.parent := by
    rw [(NodeStore.mem_children.mp (Sibling.mem_byHeight.mp hc).1).1]
  unfold agenda at hmem
  dsimp only at hmem
  rw [List.mem_filter, List.mem_append, List.mem_append, List.mem_map, List.mem_map,
    List.mem_flatMap] at hmem
  rcases hmem.1 with (⟨c, hc, heq⟩ | ⟨⟨op, index⟩, -, hstep⟩) | ⟨c, hc, heq⟩
  · obtain rfl := Step.descend.inj heq
    exact hsibling ((List.takeWhile_sublist _).mem hc)
  · rcases List.mem_append.mp hstep with hop | hreceived
    · cases op with
      | child i =>
        simp only [atOp] at hop
        split at hop
        · obtain rfl := Step.descend.inj (List.mem_singleton.mp hop)
          exact .refl
        · cases hop
      | _ => cases List.mem_singleton.mp hop
    · unfold afterOp at hreceived
      split at hreceived
      · obtain ⟨ref', href', heq⟩ := List.mem_map.mp hreceived
        obtain rfl := Step.descend.inj heq
        exact (h.listed key .refl ref' href').1
      · cases hreceived
  · obtain rfl := Step.descend.inj heq
    exact hsibling ((List.dropWhile_sublist _).mem hc)

/-! ### Draws of an agenda -/

theorem filterMap_draw?_map_descend {α : Type} (l : List α) (g : α → EdgeRef) :
    (l.map fun a => Step.descend (g a)).filterMap Step.draw? = [] := by
  rw [List.filterMap_map]
  exact List.filterMap_eq_nil_iff.mpr fun _ _ => rfl

theorem filterMap_draw?_atOp (op : DrawOp) :
    (f.atOp key op).filterMap Step.draw? = [op].filter (·.batchKind?.isSome) := by
  cases op with
  | child i =>
    simp only [atOp]
    split <;> rfl
  | _ => rfl

theorem filterMap_draw?_afterOp (index : Nat) :
    (f.afterOp key list index).filterMap Step.draw? = [] := by
  unfold afterOp
  split
  · exact filterMap_draw?_map_descend _ id
  · rfl

/-- All operations that draw something are in an agenda, in their order. -/
theorem filterMap_draw?_agenda (f : Frame) (key : Key) (list : DisplayList) :
    (f.agenda key list).filterMap Step.draw? =
      list.ops.toList.filter (·.batchKind?.isSome) := by
  have hdrawn (steps : List Step) :
      (steps.filter (Step.isDrawn f.nodes)).filterMap Step.draw? = steps.filterMap Step.draw? := by
    rw [List.filterMap_filter]
    refine List.filterMap_congr fun step _ => ?_
    cases step with
    | op op => rfl
    | descend ref => split <;> rfl
  unfold agenda
  dsimp only
  rw [hdrawn, List.filterMap_append, List.filterMap_append, filterMap_draw?_map_descend,
    filterMap_draw?_map_descend, List.append_nil, List.nil_append, List.filterMap_flatMap]
  conv_rhs => rw [← List.zipIdx_map_fst 0 list.ops.toList]
  generalize list.ops.toList.zipIdx = ops
  induction ops with
  | nil => rfl
  | cons op ops ih =>
    rw [List.flatMap_cons, ih, List.filterMap_append, filterMap_draw?_atOp,
      filterMap_draw?_afterOp, List.append_nil, List.map_cons, ← List.filter_append]
    rfl

end Frame

end RetainedScene
