import Mathlib.Data.List.Basic
import Mathlib.Data.List.Induction
import Mathlib.Data.List.Nodup
import Mathlib.Data.List.TakeWhile
import RetainedScene.Proofs.Scene.Tour
import RetainedScene.Walk.Elevation

/-!
# The order of elevated children

The elevated children of a node come out by height, and those of equal height in the order of
siblings: `Sibling.elevated_eq` states this with the library's sort.  The passes below and above
the content split that list at the first child at or above zero, and a pass that is left out
has nothing to draw (`Sibling.below_eq_nil`, `Sibling.above_eq_nil`).

`Sibling.mem_holdElevated` and `Sibling.mem_holdElevated_of_projects` say which links are held back
once the children are sorted.
-/

namespace RetainedScene

theorem Single.rank_le_of_totalRank_le {x y : Single} (h : x.totalRank ≤ y.totalRank) :
    x.rank ≤ y.rank := by
  unfold totalRank at h
  unfold rank
  cases hx : x.isNegative <;> cases hy : y.isNegative <;>
    simp only [hx, hy, if_true, Bool.false_eq_true, if_false] at h ⊢ <;> omega

/-- The children that links lead to, as far as they are there. -/
def NodeStore.children (nodes : NodeStore) (key : Key) : List Sibling :=
  (nodes.linksOf key).filterMap fun e =>
    (nodes.get? e.2.child).map fun child => ⟨e.1, e.2, child.properties⟩

namespace Sibling

/-! ### Sorting -/

/-- The child is the lower one, or as high as the other and before it among the siblings. -/
def comesBefore (a b : Sibling) : Bool :=
  a.height.totalRank < b.height.totalRank ∨
    a.height.totalRank = b.height.totalRank ∧ a.ref.index ≤ b.ref.index

/-- The elevated ones of a node's children, from the lowest up, and in the order of siblings where
they are of equal height. -/
def byHeight (cs : List Sibling) : List Sibling := (cs.filter isElevated).mergeSort comesBefore

theorem comesBefore_trans (a b c : Sibling) (hab : comesBefore a b) (hbc : comesBefore b c) :
    comesBefore a c := by
  simp only [comesBefore, decide_eq_true_eq] at *
  omega

theorem comesBefore_total (a b : Sibling) : (comesBefore a b || comesBefore b a) = true := by
  simp only [comesBefore, Bool.or_eq_true, decide_eq_true_eq]
  omega

theorem perm_insertByHeight (c : Sibling) (cs : List Sibling) :
    List.Perm (insertByHeight c cs) (c :: cs) := by
  induction cs with
  | nil => exact .refl _
  | cons d cs ih =>
    unfold insertByHeight
    split
    · exact .refl _
    · exact (List.Perm.cons d ih).trans (.swap c d cs)

theorem perm_sortByHeight (cs : List Sibling) : List.Perm (sortByHeight cs) cs := by
  induction cs with
  | nil => exact .refl _
  | cons c cs ih => exact (perm_insertByHeight c (sortByHeight cs)).trans (.cons c ih)

/-- A child is put in its place among children that come after it as siblings. -/
theorem pairwise_insertByHeight {c : Sibling} {cs : List Sibling}
    (hc : ∀ d ∈ cs, c.ref.index < d.ref.index) (hcs : cs.Pairwise fun a b => comesBefore a b) :
    (insertByHeight c cs).Pairwise fun a b => comesBefore a b := by
  induction cs with
  | nil => exact List.pairwise_singleton _ _
  | cons d cs ih =>
    obtain ⟨hd, hcs'⟩ := List.pairwise_cons.mp hcs
    have hindex := hc d List.mem_cons_self
    unfold insertByHeight
    split
    · next hle =>
      have hcd : comesBefore c d := by
        simp only [comesBefore, decide_eq_true_eq]
        omega
      refine .cons (fun e he => ?_) hcs
      rcases List.mem_cons.mp he with rfl | he
      · exact hcd
      · exact comesBefore_trans _ _ _ hcd (hd e he)
    · next hlt =>
      refine .cons (fun e he => ?_) (ih (fun e he => hc e (List.mem_cons_of_mem _ he)) hcs')
      rcases List.mem_cons.mp ((perm_insertByHeight c cs).mem_iff.mp he) with rfl | he
      · simp only [comesBefore, decide_eq_true_eq]
        omega
      · exact hd e he

theorem pairwise_sortByHeight {cs : List Sibling}
    (hcs : cs.Pairwise fun a b => a.ref.index < b.ref.index) :
    (sortByHeight cs).Pairwise fun a b => comesBefore a b := by
  induction cs with
  | nil => exact .nil
  | cons c cs ih =>
    obtain ⟨hc, hcs⟩ := List.pairwise_cons.mp hcs
    exact pairwise_insertByHeight
      (fun d hd => hc d ((perm_sortByHeight cs).mem_iff.mp hd)) (ih hcs)

/-- Children in the order of siblings are sorted by height as the library sorts them. -/
theorem elevated_eq {cs : List Sibling} (hcs : cs.Pairwise fun a b => a.ref.index < b.ref.index) :
    elevated cs = byHeight cs := by
  have hfilter := hcs.filter isElevated
  have hinjective {a b : Sibling} (ha : a ∈ cs.filter isElevated) (hb : b ∈ cs.filter isElevated)
      (hindex : a.ref.index = b.ref.index) : a = b := by
    have hnodup : ((cs.filter isElevated).map (·.ref.index)).Nodup :=
      List.pairwise_map.mpr (hfilter.imp Nat.ne_of_lt)
    exact List.inj_on_of_nodup_map hnodup ha hb hindex
  -- both are in one order, in which no two children are equal, and have the same children
  refine List.Perm.eq_of_pairwise ?_ (pairwise_sortByHeight hfilter)
    (List.pairwise_mergeSort comesBefore_trans comesBefore_total _)
    ((perm_sortByHeight _).trans (List.mergeSort_perm _ _).symm)
  intro a b ha hb hab hba
  refine hinjective ((perm_sortByHeight _).mem_iff.mp ha) (List.mem_mergeSort.mp hb) ?_
  simp only [comesBefore, decide_eq_true_eq] at hab hba
  omega

theorem mem_byHeight {c : Sibling} {cs : List Sibling} :
    c ∈ byHeight cs ↔ c ∈ cs ∧ c.isElevated := by
  rw [byHeight, List.mem_mergeSort, List.mem_filter]

theorem pairwise_byHeight (cs : List Sibling) :
    (byHeight cs).Pairwise fun a b => comesBefore a b :=
  List.pairwise_mergeSort comesBefore_trans comesBefore_total _

/-! ### Two passes -/

/-- The passes part the list at the first child at or above zero. -/
theorem below_eq_take (sorted : List Sibling) :
    below sorted = sorted.take (sorted.findIdx fun c => 0 ≤ c.height) := by
  unfold below
  rw [List.takeWhile_eq_take_findIdx_not]
  simp

theorem above_eq_drop (sorted : List Sibling) :
    above sorted = sorted.drop (sorted.findIdx fun c => 0 ≤ c.height) := by
  unfold above
  rw [List.dropWhile_eq_drop_findIdx_not]
  simp

theorem below_eq_nil {sorted : List Sibling} (h : reachesBelow sorted = false) :
    below sorted = [] := by
  cases sorted with
  | nil => rfl
  | cons c rest =>
    have hpos : 0 < c.height := by simpa [reachesBelow] using h
    have hnonneg : 0 ≤ c.height := by
      obtain ⟨hzero, hnan, hrank⟩ := Single.lt_iff.mp hpos
      exact Single.le_iff.mpr ⟨hzero, hnan, hrank.le⟩
    simp [below, hnonneg]

/-- Where no child is higher than the last one, a pass from zero on that is left out has nothing to
draw. -/
theorem above_eq_nil_of_ranks {sorted : List Sibling}
    (hsorted : sorted.Pairwise fun a b => a.height.totalRank ≤ b.height.totalRank)
    (h : reachesAbove sorted = false) : above sorted = [] := by
  unfold above
  rw [List.dropWhile_eq_nil_iff]
  intro c hc
  have hne : sorted ≠ [] := List.ne_nil_of_mem hc
  have hneg : (sorted.getLast hne).height < 0 := by
    simpa [reachesAbove, List.getLast?_eq_getLast_of_ne_nil hne] using h
  obtain ⟨hnan, hzero, hrank⟩ := Single.lt_iff.mp hneg
  have hle : c.height.totalRank ≤ (sorted.getLast hne).height.totalRank := by
    rw [← List.dropLast_append_getLast hne] at hsorted hc
    rcases List.mem_append.mp hc with hc | hc
    · exact (List.pairwise_append.mp hsorted).2.2 c hc _ List.mem_cons_self
    · rw [List.mem_singleton.mp hc]
  have hrank' := Single.rank_le_of_totalRank_le hle
  rw [decide_eq_true_eq]
  intro hnonneg
  obtain ⟨-, -, hrank''⟩ := Single.le_iff.mp hnonneg
  omega

theorem totalRank_le_of_comesBefore {a b : Sibling} (h : comesBefore a b) :
    a.height.totalRank ≤ b.height.totalRank := by
  simp only [comesBefore, decide_eq_true_eq] at h
  omega

theorem above_eq_nil {sorted : List Sibling} (hsorted : sorted.Pairwise fun a b => comesBefore a b)
    (h : reachesAbove sorted = false) : above sorted = [] :=
  above_eq_nil_of_ranks (hsorted.imp totalRank_le_of_comesBefore) h

/-- The child that is drawn at a turn. -/
def Turn.content? : Turn → Option Sibling
  | .shadow _ => none
  | .content c => some c

/-- The contents of a schedule are those that wait and those to come, in order. -/
theorem content_schedule (waiting : List Sibling) (last : Single) (cs : List Sibling) :
    (schedule waiting last cs).filterMap Turn.content? = waiting ++ cs := by
  induction cs generalizing waiting last with
  | nil => simp [schedule, List.filterMap_map, Function.comp_def, Turn.content?]
  | cons c cs ih =>
    unfold schedule
    split
    · rw [List.filterMap_cons_none rfl, ih]
      simp
    · rw [List.filterMap_append, List.filterMap_cons_none rfl, ih]
      simp [List.filterMap_map, Function.comp_def, Turn.content?]

theorem flatMap_schedule {β : Type} (g : Sibling → List β) (cs : List Sibling) :
    (schedule [] 0 cs).flatMap (fun turn => turn.content?.toList.flatMap g) = cs.flatMap g := by
  rw [← List.flatMap_assoc, ← List.filterMap_eq_flatMap_toList, content_schedule, List.nil_append]

theorem mem_of_content_mem_schedule {c : Sibling} {cs : List Sibling}
    (h : .content c ∈ schedule [] 0 cs) : c ∈ cs := by
  have hmem := List.mem_filterMap.mpr ⟨_, h, (rfl : Turn.content? (.content c) = some c)⟩
  rwa [content_schedule, List.nil_append] at hmem

/-! ### Holding back -/

variable {cs : List Sibling} {held : EdgeSet} {ref : EdgeRef}

/-- A link is left alone if it is no child's, or one of a child that projects. -/
theorem mem_holdElevated_of_projects (h : ∀ c ∈ cs, c.ref = ref → c.properties.projects) :
    ref ∈ holdElevated cs held ↔ ref ∈ held := by
  unfold holdElevated
  induction cs generalizing held with
  | nil => rfl
  | cons c cs ih =>
    rw [List.foldl_cons, ih fun d hd => h d (List.mem_cons_of_mem _ hd)]
    have hc := h c List.mem_cons_self
    split
    · rfl
    · next hprojects =>
      have hne : c.ref ≠ ref := fun heq => hprojects (hc heq)
      split <;> simp [hne]

/-- Of the children that do not project the elevated ones are held back. -/
theorem mem_holdElevated {c : Sibling} (hc : c ∈ cs) (hprojects : c.properties.projects = false)
    (hsame : ∀ d ∈ cs, d.ref = c.ref → d.properties = c.properties) :
    c.ref ∈ holdElevated cs held ↔ c.height.isZero = false := by
  unfold holdElevated
  induction cs using List.reverseRecOn with
  | nil => cases hc
  | append_singleton cs last ih =>
    rw [List.foldl_append, List.foldl_cons, List.foldl_nil]
    by_cases hlast : last.ref = c.ref
    · have hproperties := hsame last (List.mem_append_right _ List.mem_cons_self) hlast
      unfold height
      rw [hproperties, hprojects, hlast]
      cases c.properties.elevation.isZero <;> simp
    · have hc' : c ∈ cs := by
        rcases List.mem_append.mp hc with h | h
        · exact h
        · exact absurd (List.mem_singleton.mp h ▸ rfl) hlast
      have ih' := ih hc' fun d hd => hsame d (List.mem_append_left _ hd)
      rw [← ih']
      split
      · rfl
      · split <;> simp [hlast]

end Sibling

/-! ### The children of a node -/

theorem exists_of_mapM_eq_ok {α β ε : Type} {f : α → Except ε β} {l : List α} {bs : List β}
    (h : l.mapM f = .ok bs) : ∀ a ∈ l, ∃ b, f a = .ok b := by
  induction l generalizing bs with
  | nil => exact fun a ha => nomatch ha
  | cons a l ih =>
    rw [List.mapM_cons] at h
    cases ha : f a with
    | error e => rw [ha] at h; cases h
    | ok b =>
      cases hl : l.mapM f with
      | error e => rw [ha, hl] at h; cases h
      | ok rest =>
        intro a' ha'
        rcases List.mem_cons.mp ha' with rfl | ha'
        · exact ⟨b, ha⟩
        · exact ih hl a' ha'

namespace NodeStore

variable {nodes : NodeStore} {key : Key} {node : Node} {list : DisplayList} {c : Sibling}

theorem mem_children : c ∈ nodes.children key ↔ c.ref.parent = key ∧ nodes.edge c.ref = .ok c.edge ∧
    ∃ child, nodes.get? c.edge.child = some child ∧ child.properties = c.properties := by
  unfold children
  rw [List.mem_filterMap]
  constructor
  · rintro ⟨e, he, hc⟩
    obtain ⟨child, hchild, rfl⟩ := Option.map_eq_some_iff.mp hc
    exact ⟨(mem_linksOf.mp he).1, (mem_linksOf.mp he).2, child, hchild, rfl⟩
  · rintro ⟨hparent, hedge, child, hchild, hproperties⟩
    refine ⟨(c.ref, c.edge), mem_linksOf.mpr ⟨hparent, hedge⟩, ?_⟩
    rw [hchild, Option.map_some, hproperties]

theorem pairwise_children (nodes : NodeStore) (key : Key) :
    (nodes.children key).Pairwise fun a b => a.ref.index < b.ref.index := by
  unfold children
  rw [List.pairwise_filterMap]
  refine (pairwise_linksOf nodes key).imp fun {e f} hlt a ha b hb => ?_
  obtain ⟨_, -, rfl⟩ := Option.map_eq_some_iff.mp ha
  obtain ⟨_, -, rfl⟩ := Option.map_eq_some_iff.mp hb
  exact hlt

/-- If the children of a node are there, the walk finds them. -/
theorem siblings_eq (hnode : nodes.get? key = some node) (hlist : node.content = some list)
    (hlive : ∀ e ∈ nodes.linksOf key, ∃ child, nodes.get? e.2.child = some child) :
    nodes.siblings key list = .ok (nodes.children key) := by
  unfold siblings children
  rw [← linksOf_eq hnode hlist]
  revert hlive
  generalize nodes.linksOf key = links
  intro hlive
  induction links with
  | nil => rfl
  | cons e links ih =>
    obtain ⟨child, hchild⟩ := hlive e List.mem_cons_self
    rw [List.mapM_cons, ih fun f hf => hlive f (List.mem_cons_of_mem _ hf),
      List.filterMap_cons_some (by rw [hchild]; rfl)]
    simp only [node_eq_ok_iff.mpr hchild]
    rfl

/-- If the walk finds the children of a node, they are there. -/
theorem exists_child_of_siblings (hnode : nodes.get? key = some node)
    (hlist : node.content = some list) {cs : List Sibling}
    (h : nodes.siblings key list = .ok cs) :
    ∀ e ∈ nodes.linksOf key, ∃ child, nodes.get? e.2.child = some child := by
  intro e he
  rw [linksOf_eq hnode hlist] at he
  obtain ⟨sibling, hsibling⟩ := exists_of_mapM_eq_ok h e he
  cases hchild : nodes.node e.2.child with
  | error fatal => simp only [hchild] at hsibling; cases hsibling
  | ok child => exact ⟨child, node_eq_ok_iff.mp hchild⟩

/-- What the walk finds are the children of the node. -/
theorem eq_children_of_siblings (hnode : nodes.get? key = some node)
    (hlist : node.content = some list) {cs : List Sibling}
    (h : nodes.siblings key list = .ok cs) : cs = nodes.children key := by
  rw [siblings_eq hnode hlist (exists_child_of_siblings hnode hlist h)] at h
  exact (Except.ok.inj h).symm

end NodeStore

end RetainedScene
