import Mathlib.Data.List.Basic
import RetainedScene.DisplayList.Recorder

/-!
# What recorded content looks like

Content is recorded when it comes from a recorder, whatever the commands were, and whether its
references have been given back since.  Recorded content is `WellLinked`: its child operations name
its links from the first to the last, each link once, and the receive point is one of its
operations.  Every command keeps that (`WellLinked.perform`).
-/

namespace RetainedScene

/-- The index of the link that a child operation draws. -/
def DrawOp.child? : DrawOp → Option Nat
  | child i => some i
  | _ => none

/-- What every command keeps that is not refused holds after any commands. -/
theorem Recorder.performAll_induct {P : Recorder → Prop}
    (hperform : ∀ r command r', P r → perform r command = .ok r' → P r') {r : Recorder} (h : P r)
    (commands : List Command) : P (r.performAll commands) := by
  induction commands generalizing r with
  | nil => exact h
  | cons command commands ih =>
    refine ih ?_
    dsimp only
    cases hr : r.perform command with
    | error e => exact h
    | ok r' => exact hperform r command r' h hr

/-- A recording can be finished once nothing is saved, and then it is what was recorded. -/
theorem Recorder.finish_eq_ok_iff {r : Recorder} {list : DisplayList} :
    r.finish = .ok list ↔ r.saves.below = [] ∧ r.list = list := by
  unfold finish
  cases r.saves.below <;> simp

namespace DisplayList

/-- The content comes from a recorder. -/
def IsRecorded (list : DisplayList) : Prop :=
  ∃ commands recorded, (Recorder.performAll {} commands).finish = .ok recorded ∧
    (list = recorded ∨ list = recorded.toSpent)

structure WellLinked (list : DisplayList) : Prop where
  links : list.ops.toList.filterMap DrawOp.child? = List.range list.children.size
  receive : ∀ index ∈ list.receiveIndex, index < list.ops.size

namespace WellLinked

variable {list : DisplayList}

/-- An operation other than a draw of a child is added, and tables may change. -/
theorem push (h : list.WellLinked) {list' : DisplayList} {op : DrawOp}
    (hops : list'.ops = list.ops.push op) (hop : op.child? = none)
    (hchildren : list'.children = list.children)
    (hreceive : list'.receiveIndex = list.receiveIndex) :
    list'.WellLinked where
  links := by
    rw [hops, hchildren, Array.toList_push, List.filterMap_append, h.links]
    simp [hop]
  receive index hindex := by
    rw [hops, Array.size_push]
    rw [hreceive] at hindex
    exact Nat.lt_succ_of_lt (h.receive index hindex)

/-- A link is added together with the operation that draws it. -/
theorem pushChild (h : list.WellLinked) (edge : Edge) :
    WellLinked { list with
      children := list.children.push edge
      ops := list.ops.push (.child list.children.size) } where
  links := by
    rw [Array.toList_push, List.filterMap_append, h.links, Array.size_push, List.range_succ]
    rfl
  receive index hindex := by
    rw [Array.size_push]
    exact Nat.lt_succ_of_lt (h.receive index hindex)

/-- The last operation becomes the receive point. -/
theorem setReceive (h : list.WellLinked) (hops : ¬ list.ops.isEmpty) :
    WellLinked { list with receiveIndex := some (list.ops.size - 1) } where
  links := h.links
  receive index hindex := by
    obtain rfl := Option.mem_some_iff.mp hindex
    have hpos : 0 < list.ops.size := Nat.pos_of_ne_zero (by simpa [Array.isEmpty] using hops)
    exact Nat.sub_lt hpos Nat.one_pos

theorem perform {r r' : Recorder} {command : Command} (h : r.list.WellLinked)
    (hr : r.perform command = .ok r') : r'.list.WellLinked := by
  cases command with
  | child key =>
    obtain rfl := Except.ok.inj hr
    exact h.pushChild _
  | receive =>
    simp only [Recorder.perform] at hr
    split at hr
    · cases hr
    · next hops =>
      obtain rfl := Except.ok.inj hr
      exact h.setReceive hops
  | restore =>
    simp only [Recorder.perform] at hr
    split at hr
    · cases hr
    · obtain rfl := Except.ok.inj hr
      exact h.push rfl rfl rfl rfl
  | restoreTo count =>
    simp only [Recorder.perform] at hr
    split at hr
    · cases hr
    · obtain rfl := Except.ok.inj hr
      exact h.push rfl rfl rfl rfl
  | path path source paint =>
    obtain rfl := Except.ok.inj hr
    cases source <;> exact h.push rfl rfl rfl rfl
  | bitmap id target paint =>
    obtain rfl := Except.ok.inj hr
    cases paint <;> exact h.push rfl rfl rfl rfl
  | ownedBitmap id target paint =>
    obtain rfl := Except.ok.inj hr
    cases paint <;> exact h.push rfl rfl rfl rfl
  | patch id target paint =>
    obtain rfl := Except.ok.inj hr
    cases paint <;> exact h.push rfl rfl rfl rfl
  | _ =>
    obtain rfl := Except.ok.inj hr
    exact h.push rfl rfl rfl rfl

/-- An operation draws each link, and no operation a link that is not there. -/
theorem child_mem_iff (h : list.WellLinked) {i : Nat} :
    DrawOp.child i ∈ list.ops.toList ↔ i < list.children.size := by
  rw [← List.mem_range, ← h.links, List.mem_filterMap]
  constructor
  · intro hmem
    exact ⟨.child i, hmem, rfl⟩
  · rintro ⟨op, hmem, hop⟩
    cases op with
    | child j =>
      obtain rfl := Option.some.inj hop
      exact hmem
    | _ => cases hop

/-- Content without operations has no links. -/
theorem children_of_isEmpty (h : list.WellLinked) (hempty : list.isEmpty) :
    list.children = #[] := by
  have hops : list.ops = #[] := Array.isEmpty_iff.mp hempty
  have hrange := h.links
  rw [hops] at hrange
  simpa using hrange.symm

end WellLinked

theorem IsRecorded.wellLinked {list : DisplayList} (h : list.IsRecorded) : list.WellLinked := by
  obtain ⟨commands, recorded, hfinish, hlist⟩ := h
  have hempty : (({} : Recorder).list).WellLinked :=
    ⟨rfl, fun index hindex => nomatch hindex⟩
  have hrecorded : recorded.WellLinked := by
    obtain ⟨-, rfl⟩ := Recorder.finish_eq_ok_iff.mp hfinish
    exact Recorder.performAll_induct (fun _ _ _ => WellLinked.perform) hempty commands
  rcases hlist with rfl | rfl
  · exact hrecorded
  · exact ⟨hrecorded.links, hrecorded.receive⟩

end DisplayList

end RetainedScene
