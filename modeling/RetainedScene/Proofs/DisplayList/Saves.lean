import RetainedScene.Proofs.DisplayList.Recorded

/-!
# Saves and transforms of recorded content

What content does to the transform of a canvas does not depend on the canvas: `move` says it of
one operation, and `transformsAfter` of the first operations of a list, on a stack of transforms
that has nothing saved at first.

Recorded content is balanced: it restores only what it saved, and all of it
(`IsRecorded.isBalanced`).  The transform in force after its last operation may still be another
than at the start, since nothing restores what is recorded outside of saves.
-/

namespace RetainedScene

/-! ### Stacks -/

namespace SaveStack

variable {α : Type}

theorem depth_restore (s : SaveStack α) : s.restore.depth = s.depth - 1 := by
  have hcount := s.saveCount_restore
  unfold saveCount at hcount
  omega

theorem depth_restoreTo (s : SaveStack α) {count : Int} (hcount : ¬ count < 1) :
    (s.restoreTo count).depth = min s.depth (count.toNat - 1) := by
  have hrestored := s.saveCount_restoreTo count
  unfold saveCount at hrestored
  omega

end SaveStack

/-! ### Operations -/

/-- The number of open saves after an operation, if it restores only what was saved. -/
def DrawOp.saves? (depth : Nat) : DrawOp → Option Nat
  | save _ => some (depth + 1)
  | restore => if depth = 0 then none else some (depth - 1)
  | restoreTo count => if count < 1 then none else some (min depth (count.toNat - 1))
  | _ => some depth

namespace DisplayList

/-- The content restores only what it saved, and all of it. -/
def IsBalanced (list : DisplayList) : Prop := list.ops.toList.foldlM DrawOp.saves? 0 = some 0

/-- What an operation of the content does to a stack of transforms. -/
def move (list : DisplayList) (s : SaveStack Matrix) : DrawOp → SaveStack Matrix
  | .save _ => s.save
  | .restore => s.restore
  | .restoreTo count => s.restoreTo count
  | .translate dx dy => s.modify (· * Matrix.translation dx dy 0)
  | .concat i => list.matrices[i]?.elim s fun m => s.modify (· * m)
  | _ => s

/-- The transforms after the first operations of the content, when it begins under a transform. -/
def transformsAfter (list : DisplayList) (start : Matrix) (count : Nat) : SaveStack Matrix :=
  (list.ops.toList.take count).foldl list.move (.ofTop start)

/-- The transform in force after the first operations of the content. -/
def transformAfter (list : DisplayList) (start : Matrix) (count : Nat) : Matrix :=
  (list.transformsAfter start count).top

end DisplayList

/-! ### Recording -/

namespace Recorder

/-- The recorded operations have as many saves open as the recorder counts. -/
def CountsSaves (r : Recorder) : Prop :=
  r.list.ops.toList.foldlM DrawOp.saves? 0 = some r.saves.depth

variable {r r' : Recorder} {command : Command}

theorem CountsSaves.push (h : r.CountsSaves) {op : DrawOp} (hops : r'.list.ops = r.list.ops.push op)
    (hop : op.saves? r.saves.depth = some r'.saves.depth) : r'.CountsSaves := by
  unfold CountsSaves at h ⊢
  rw [hops, Array.toList_push, List.foldlM_append, h]
  simpa using hop

theorem CountsSaves.perform (h : r.CountsSaves) (hr : r.perform command = .ok r') :
    r'.CountsSaves := by
  cases command with
  | restore =>
    simp only [Recorder.perform] at hr
    split at hr
    · cases hr
    · next hsaved =>
      obtain rfl := Except.ok.inj hr
      have hdepth : r.saves.depth ≠ 0 := by simpa [r.saves.depth_eq] using hsaved
      exact h.push rfl ((if_neg hdepth).trans (congrArg some r.saves.depth_restore.symm))
  | restoreTo count =>
    simp only [Recorder.perform] at hr
    split at hr
    · cases hr
    · next hcount =>
      obtain rfl := Except.ok.inj hr
      exact h.push rfl ((if_neg hcount).trans (congrArg some (r.saves.depth_restoreTo hcount).symm))
  | receive =>
    simp only [Recorder.perform] at hr
    split at hr
    · cases hr
    · obtain rfl := Except.ok.inj hr
      exact h
  | path path source paint =>
    obtain rfl := Except.ok.inj hr
    cases source <;> exact h.push rfl rfl
  | bitmap id target paint =>
    obtain rfl := Except.ok.inj hr
    cases paint <;> exact h.push rfl rfl
  | ownedBitmap id target paint =>
    obtain rfl := Except.ok.inj hr
    cases paint <;> exact h.push rfl rfl
  | patch id target paint =>
    obtain rfl := Except.ok.inj hr
    cases paint <;> exact h.push rfl rfl
  | _ =>
    obtain rfl := Except.ok.inj hr
    exact h.push rfl rfl

end Recorder

/-! ### Playing -/

namespace DisplayList

variable {list : DisplayList} {s : SaveStack Matrix} {op : DrawOp} {start : Matrix} {i depth : Nat}

theorem IsRecorded.isBalanced (h : list.IsRecorded) : list.IsBalanced := by
  obtain ⟨commands, recorded, hfinish, hlist⟩ := h
  have hempty : ({} : Recorder).CountsSaves := rfl
  have hcounts : (({} : Recorder).performAll commands).CountsSaves :=
    Recorder.performAll_induct (fun _ _ _ => Recorder.CountsSaves.perform) hempty commands
  have hrecorded : recorded.IsBalanced := by
    obtain ⟨hsaved, rfl⟩ := Recorder.finish_eq_ok_iff.mp hfinish
    refine hcounts.trans (congrArg some ?_)
    rw [SaveStack.depth_eq, hsaved]
    rfl
  rcases hlist with rfl | rfl
  · exact hrecorded
  · exact hrecorded

theorem depth_move (hop : op.saves? s.depth = some depth) : (list.move s op).depth = depth := by
  cases op with
  | save flags => exact Option.some.inj hop
  | restore =>
    simp only [DrawOp.saves?] at hop
    split at hop
    · cases hop
    · exact s.depth_restore.trans (Option.some.inj hop)
  | restoreTo count =>
    simp only [DrawOp.saves?] at hop
    split at hop
    · cases hop
    · next hcount => exact (s.depth_restoreTo hcount).trans (Option.some.inj hop)
  | concat i =>
    rw [← Option.some.inj hop]
    simp only [move]
    cases list.matrices[i]? <;> rfl
  | _ => exact Option.some.inj hop

theorem depth_foldl_move {ops : List DrawOp} (h : ops.foldlM DrawOp.saves? s.depth = some depth) :
    (ops.foldl list.move s).depth = depth := by
  induction ops generalizing s with
  | nil => exact Option.some.inj h
  | cons op ops ih =>
    obtain ⟨d, hop, hops⟩ := Option.bind_eq_some_iff.mp h
    exact ih ((depth_move hop).symm ▸ hops)

theorem transformsAfter_succ (hop : list.ops.toList[i]? = some op) :
    list.transformsAfter start (i + 1) = list.move (list.transformsAfter start i) op := by
  rw [transformsAfter, List.take_add_one, hop, List.foldl_append]
  rfl

namespace IsBalanced

variable (h : list.IsBalanced)

include h

/-- Each operation restores only what was saved before it. -/
theorem exists_saves? (start : Matrix) (hop : list.ops.toList[i]? = some op) :
    ∃ depth, op.saves? (list.transformsAfter start i).depth = some depth := by
  have hi := (List.getElem?_eq_some_iff.mp hop).1
  have hsplit := List.take_append_drop i list.ops.toList
  unfold IsBalanced at h
  rw [← hsplit, List.foldlM_append] at h
  obtain ⟨before, hbefore, hafter⟩ := Option.bind_eq_some_iff.mp h
  rw [List.drop_eq_getElem_cons hi, (List.getElem?_eq_some_iff.mp hop).2] at hafter
  obtain ⟨depth, hdepth, -⟩ := Option.bind_eq_some_iff.mp hafter
  refine ⟨depth, ?_⟩
  -- the operations before it leave as many transforms saved as they are said to
  rwa [transformsAfter, depth_foldl_move (s := .ofTop start) hbefore]

end IsBalanced

end DisplayList

end RetainedScene
