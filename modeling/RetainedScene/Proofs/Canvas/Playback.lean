import Mathlib.Data.List.Forall2
import Mathlib.Data.List.Induction
import RetainedScene.Proofs.Canvas.Stack
import RetainedScene.Proofs.DisplayList.References

/-!
# Recorder and canvas keep pace

A recorder follows saves and transforms while content is recorded, and a canvas follows them again
when the content is played on it.  After each command that was recorded the canvas has saved as many
states as the recorder, over those that it began with, and the two transforms are products of the
same matrices, each from its own start (`Canvas.playFirst_keepsPace`).

Neither is compared with the other directly.  Every command moves the transforms of the recorder as
its operation moves them in the finished list (`Recorder.perform_cases`), and so does the operation
on the canvas.  What remains is one run of the operations from two starts, whose states are related
one by one (`SaveStack.Rel`).

Save counts have 32 bits.  The sums of a canvas are not bounded, and are those of 32 bits as long as
the counts of recorded restores fit above the save count that the content begins with
(`Canvas.CountsFit`, `Canvas.playFirstWrapping_eq`).
-/

namespace RetainedScene

/-! ### Stacks that are related state by state -/

/-- The states of two stacks are related one by one. -/
structure SaveStack.Rel {α β : Type} (r : α → β → Prop) (s : SaveStack α) (t : SaveStack β) :
    Prop where
  top : r s.top t.top
  below : List.Forall₂ r s.below t.below

namespace SaveStack.Rel

variable {α β : Type} {r : α → β → Prop} {s : SaveStack α} {t : SaveStack β}

theorem depth_eq (h : Rel r s t) : s.depth = t.depth := by
  rw [s.depth_eq, t.depth_eq, h.below.length_eq]

theorem save (h : Rel r s t) : Rel r s.save t.save := ⟨h.top, .cons h.top h.below⟩

theorem restore (h : Rel r s t) : Rel r s.restore t.restore := by
  rcases s with ⟨top, below, depth, hdepth⟩
  rcases t with ⟨top', below', depth', hdepth'⟩
  obtain ⟨htop, hbelow⟩ := h
  cases hbelow with
  | nil => exact ⟨htop, .nil⟩
  | cons hsaved hrest => exact ⟨hsaved, hrest⟩

theorem restoreTimes (h : Rel r s t) (n : Nat) : Rel r (s.restoreTimes n) (t.restoreTimes n) := by
  induction n generalizing s t with
  | zero => exact h
  | succ n ih => exact ih h.restore

theorem restoreTo (h : Rel r s t) (count : Int) :
    Rel r (s.restoreTo count) (t.restoreTo count) := by
  unfold SaveStack.restoreTo saveCount
  rw [h.depth_eq]
  exact h.restoreTimes _

end SaveStack.Rel

namespace DisplayList

variable {list : DisplayList} {start start' : Matrix}

/-- Two transforms are products of the same matrices, each from its own start. -/
def SameFactors (start start' a b : Matrix) : Prop :=
  ∃ factors : List Matrix, a = factors.foldl (· * ·) start ∧ b = factors.foldl (· * ·) start'

theorem SameFactors.mul {a b : Matrix} (h : SameFactors start start' a b) (m : Matrix) :
    SameFactors start start' (a * m) (b * m) := by
  obtain ⟨factors, rfl, rfl⟩ := h
  exact ⟨factors ++ [m], by rw [List.foldl_append]; rfl, by rw [List.foldl_append]; rfl⟩

theorem rel_move {s t : SaveStack Matrix} (h : SaveStack.Rel (SameFactors start start') s t)
    (op : DrawOp) : SaveStack.Rel (SameFactors start start') (list.move s op) (list.move t op) := by
  cases op with
  | save flags => exact h.save
  | restore => exact h.restore
  | restoreTo count => exact h.restoreTo count
  | translate dx dy => exact ⟨h.top.mul _, h.below⟩
  | concat i =>
    simp only [move]
    cases list.matrices[i]? with
    | none => exact h
    | some m => exact ⟨h.top.mul m, h.below⟩
  | _ => exact h

/-- One run of the operations from two starts. -/
theorem rel_transformsAfter (list : DisplayList) (start start' : Matrix) (count : Nat) :
    SaveStack.Rel (SameFactors start start') (list.transformsAfter start count)
      (list.transformsAfter start' count) := by
  unfold transformsAfter
  have hstart : SaveStack.Rel (SameFactors start start') (.ofTop start) (.ofTop start') :=
    ⟨⟨[], rfl, rfl⟩, .nil⟩
  generalize SaveStack.ofTop start = s at hstart
  generalize SaveStack.ofTop start' = t at hstart
  induction list.ops.toList.take count generalizing s t with
  | nil => exact hstart
  | cons op ops ih => exact ih _ _ (rel_move hstart op)

/-! ### Recording goes on -/

/-- The second list holds what the first one holds, in its place, and may hold more. -/
structure Grows (list list' : DisplayList) : Prop where
  ops : list.ops.toList <+: list'.ops.toList
  children : list.children.toList <+: list'.children.toList
  matrices : list.matrices.toList <+: list'.matrices.toList

theorem Grows.refl (list : DisplayList) : list.Grows list :=
  ⟨List.prefix_rfl, List.prefix_rfl, List.prefix_rfl⟩

theorem Grows.trans {l l' l'' : DisplayList} (h : l.Grows l') (h' : l'.Grows l'') : l.Grows l'' :=
  ⟨h.ops.trans h'.ops, h.children.trans h'.children, h.matrices.trans h'.matrices⟩

theorem getElem?_of_prefix {α : Type} {a b : Array α} (h : a.toList <+: b.toList) {i : Nat} {x : α}
    (hx : a[i]? = some x) : b[i]? = some x := by
  obtain ⟨rest, hrest⟩ := h
  rw [← Array.getElem?_toList] at hx ⊢
  rw [← hrest, List.getElem?_append_left (List.getElem?_eq_some_iff.mp hx).1, hx]

end DisplayList

namespace Recorder

/-- The second recorder has recorded one more operation. -/
structure Adds (r : Recorder) (op : DrawOp) (r' : Recorder) : Prop where
  ops : r'.list.ops = r.list.ops.push op
  /-- However the recording goes on, the operation does this to the transforms. -/
  saves : ∀ list, r'.list.Grows list → r'.saves = list.move r.saves op
  link : ∀ i, op = .child i → ∃ edge, r'.list.children[i]? = some edge ∧ edge.transform = r.matrix

variable {r r' : Recorder} {command : Command}

/-- One operation is added, and no link or matrix. -/
theorem adds_push {op : DrawOp} (hops : r'.list.ops = r.list.ops.push op)
    (hchildren : r'.list.children = r.list.children)
    (hmatrices : r'.list.matrices = r.list.matrices) (hop : op.child? = none)
    (hsaves : ∀ list : DisplayList, r'.saves = list.move r.saves op) :
    r.list.Grows r'.list ∧ ∃ op, r.Adds op r' := by
  refine ⟨⟨?_, ?_, ?_⟩, op, hops, fun list _ => hsaves list, ?_⟩
  · rw [hops, Array.toList_push]
    exact List.prefix_append _ _
  · exact hchildren ▸ List.prefix_rfl
  · exact hmatrices ▸ List.prefix_rfl
  · rintro i rfl
    cases hop

theorem adds_concat (r : Recorder) (m : Matrix) (h : r.perform (.concat m) = .ok r') :
    r.list.Grows r'.list ∧ ∃ op, r.Adds op r' := by
  obtain rfl := Except.ok.inj h
  refine ⟨⟨?_, List.prefix_rfl, ?_⟩, .concat r.list.matrices.size, rfl, fun list hlist => ?_, ?_⟩
  · exact Array.toList_push ▸ List.prefix_append _ _
  · exact Array.toList_push ▸ List.prefix_append _ _
  · -- the matrix stays where it was put
    have hm : list.matrices[r.list.matrices.size]? = some m :=
      DisplayList.getElem?_of_prefix hlist.matrices (Array.getElem?_push_size ..)
    simp only [DisplayList.move, hm]
    rfl
  · rintro i ⟨⟩

theorem adds_child (r : Recorder) (key : Key) (h : r.perform (.child key) = .ok r') :
    r.list.Grows r'.list ∧ ∃ op, r.Adds op r' := by
  obtain rfl := Except.ok.inj h
  refine ⟨⟨?_, ?_, List.prefix_rfl⟩, .child r.list.children.size, rfl, fun _ _ => rfl, ?_⟩
  · exact Array.toList_push ▸ List.prefix_append _ _
  · exact Array.toList_push ▸ List.prefix_append _ _
  · intro i hi
    obtain rfl := DrawOp.child.inj hi
    exact ⟨⟨key, r.matrix⟩, Array.getElem?_push_size .., rfl⟩

/-- A command that is not refused adds one operation, or neither saves nor transforms anything. -/
theorem perform_cases (h : r.perform command = .ok r') : r.list.Grows r'.list ∧
    ((r'.list.ops = r.list.ops ∧ r'.saves = r.saves) ∨ ∃ op, r.Adds op r') := by
  have hadds (hadds : r.list.Grows r'.list ∧ ∃ op, r.Adds op r') : r.list.Grows r'.list ∧
      ((r'.list.ops = r.list.ops ∧ r'.saves = r.saves) ∨ ∃ op, r.Adds op r') :=
    ⟨hadds.1, .inr hadds.2⟩
  cases command with
  | restore =>
    simp only [perform] at h
    split at h
    · cases h
    · obtain rfl := Except.ok.inj h
      exact hadds (adds_push rfl rfl rfl rfl fun _ => rfl)
  | restoreTo count =>
    simp only [perform] at h
    split at h
    · cases h
    · obtain rfl := Except.ok.inj h
      exact hadds (adds_push rfl rfl rfl rfl fun _ => rfl)
  | receive =>
    simp only [perform] at h
    split at h
    · cases h
    · obtain rfl := Except.ok.inj h
      exact ⟨⟨List.prefix_rfl, List.prefix_rfl, List.prefix_rfl⟩, .inl ⟨rfl, rfl⟩⟩
  | concat m => exact hadds (adds_concat r m h)
  | child key => exact hadds (adds_child r key h)
  | path path source paint =>
    obtain rfl := Except.ok.inj h
    cases source <;> exact hadds (adds_push rfl rfl rfl rfl fun _ => rfl)
  | bitmap id target paint =>
    obtain rfl := Except.ok.inj h
    cases paint <;> exact hadds (adds_push rfl rfl rfl rfl fun _ => rfl)
  | ownedBitmap id target paint =>
    obtain rfl := Except.ok.inj h
    cases paint <;> exact hadds (adds_push rfl rfl rfl rfl fun _ => rfl)
  | patch id target paint =>
    obtain rfl := Except.ok.inj h
    cases paint <;> exact hadds (adds_push rfl rfl rfl rfl fun _ => rfl)
  | _ =>
    obtain rfl := Except.ok.inj h
    exact hadds (adds_push rfl rfl rfl rfl fun _ => rfl)

/-! ### Commands one after another -/

/-- What was recorded stays in its place while the recording goes on. -/
theorem grows_performAll (r : Recorder) (commands : List Command) :
    r.list.Grows (r.performAll commands).list :=
  performAll_induct (P := fun r' => r.list.Grows r'.list)
    (fun _ _ _ hr h => hr.trans (perform_cases h).1) (.refl r.list) commands

theorem grows_of_prefix {before commands : List Command} (h : before <+: commands) :
    (performAll {} before).list.Grows (performAll {} commands).list := by
  obtain ⟨rest, rfl⟩ := h
  rw [performAll, performAll, List.foldl_append]
  exact grows_performAll _ rest

/-- The recorder has the transforms that its operations come to, as part of any longer list. -/
theorem saves_performAll {list : DisplayList} (commands : List Command)
    (h : (performAll {} commands).list.Grows list) : (performAll {} commands).saves =
      list.transformsAfter .identity (performAll {} commands).list.ops.size := by
  induction commands using List.reverseRecOn with
  | nil => rfl
  | append_singleton commands command ih =>
    rw [performAll_concat] at h ⊢
    generalize performAll {} commands = r at h ih ⊢
    cases hperform : r.perform command with
    | error e =>
      rw [hperform] at h
      exact ih h
    | ok r' =>
      rw [hperform] at h
      change r'.list.Grows list at h
      obtain ⟨hgrows, ⟨hops, hsaves⟩ | ⟨op, hadds⟩⟩ := perform_cases hperform
      · show r'.saves = list.transformsAfter .identity r'.list.ops.size
        rw [hops, hsaves]
        exact ih (hgrows.trans h)
      · have hop : list.ops.toList[r.list.ops.size]? = some op := by
          rw [Array.getElem?_toList]
          exact DisplayList.getElem?_of_prefix h.ops (hadds.ops ▸ Array.getElem?_push_size ..)
        show r'.saves = list.transformsAfter .identity r'.list.ops.size
        rw [hadds.ops, Array.size_push, DisplayList.transformsAfter_succ hop, hadds.saves list h,
          ih (hgrows.trans h)]

/-- Every operation of a recording was added by one of the commands. -/
theorem exists_adds {commands : List Command} {index : Nat} {op : DrawOp}
    (hop : (performAll {} commands).list.ops[index]? = some op) :
    ∃ before command r', before ++ [command] <+: commands ∧
      (performAll {} before).perform command = .ok r' ∧ (performAll {} before).Adds op r' ∧
      (performAll {} before).list.ops.size = index := by
  induction commands using List.reverseRecOn with
  | nil => exact absurd hop (by simp [performAll])
  | append_singleton commands command ih =>
    -- an operation that was there before the last command comes from one of the others
    have hbefore (hop : (performAll {} commands).list.ops[index]? = some op) :
        ∃ before command' r', before ++ [command'] <+: commands ++ [command] ∧
          (performAll {} before).perform command' = .ok r' ∧ (performAll {} before).Adds op r' ∧
          (performAll {} before).list.ops.size = index := by
      obtain ⟨before, command', r', hprefix, hrest⟩ := ih hop
      exact ⟨before, command', r', hprefix.trans (List.prefix_append _ _), hrest⟩
    rw [performAll_concat] at hop
    cases hperform : (performAll {} commands).perform command with
    | error e =>
      rw [hperform] at hop
      exact hbefore hop
    | ok r' =>
      rw [hperform] at hop
      change r'.list.ops[index]? = some op at hop
      obtain ⟨-, ⟨hops, -⟩ | ⟨last, hadds⟩⟩ := perform_cases hperform
      · exact hbefore (hops ▸ hop)
      · rw [hadds.ops, Array.getElem?_push] at hop
        split at hop
        · next hlast =>
          obtain rfl := Option.some.inj hop
          exact ⟨commands, command, r', List.prefix_rfl, hperform, hadds, hlast.symm⟩
        · exact hbefore hop

end Recorder

/-! ### Playing -/

namespace Canvas

/-- The canvas after the first operations of a list were carried out on it, with restores that count
from the save count that it has. -/
def playFirst (c : Canvas) (list : DisplayList) (count : Nat) : Canvas :=
  (list.ops.toList.take count).foldl
    (fun played op => played.issueRecorded list (c.saveCount - 1) op) c

/-- A canvas that plays what was recorded so far, and was another one when it began. -/
structure KeepsPace (c : Canvas) (r : Recorder) (played : Canvas) : Prop where
  saveCount : played.saveCount + 1 = c.saveCount + r.saveCount
  /-- What was saved on the canvas before is as it was. -/
  below : c.stack.below <:+ played.stack.below
  /-- The transforms are products of the same matrices. -/
  transform : ∃ factors : List Matrix, r.matrix = factors.foldl (· * ·) .identity ∧
    played.transform = factors.foldl (· * ·) c.transform

/-- Content that restores only what it saved moves the transforms of a canvas as it would without
one. -/
theorem mirrors_playFirst (c : Canvas) {list : DisplayList} (h : list.IsBalanced) (count : Nat) :
    (c.playFirst list count).stack.Mirrors (list.transformsAfter c.transform count)
      c.stack.below := by
  have hoffset : (c.saveCount : Int) - 1 = c.stack.below.length := by
    rw [Canvas.saveCount, SaveStack.saveCount_eq]
    omega
  unfold playFirst
  rw [hoffset]
  induction count with
  | zero => exact .ofTop c.stack
  | succ count ih =>
    cases hop : list.ops.toList[count]? with
    | none =>
      have hall : list.ops.toList.take (count + 1) = list.ops.toList.take count := by
        rw [List.take_add_one, hop, Option.toList_none, List.append_nil]
      rw [hall, DisplayList.transformsAfter, hall]
      exact ih
    | some op =>
      obtain ⟨depth, hdepth⟩ := h.exists_saves? c.transform hop
      rw [DisplayList.transformsAfter_succ hop, List.take_add_one, hop, List.foldl_append]
      exact ih.issueRecorded hdepth

theorem keepsPace_playFirst (c : Canvas) {list : DisplayList} (hlist : list.IsBalanced)
    (commands : List Command) (h : (Recorder.performAll {} commands).list.Grows list) :
    c.KeepsPace (Recorder.performAll {} commands)
      (c.playFirst list (Recorder.performAll {} commands).list.ops.size) := by
  have hmirrors := c.mirrors_playFirst hlist (Recorder.performAll {} commands).list.ops.size
  have hsaves := Recorder.saves_performAll commands h
  generalize Recorder.performAll {} commands = r at hmirrors hsaves ⊢
  have hrel := list.rel_transformsAfter .identity c.transform r.list.ops.size
  rw [← hsaves] at hrel
  obtain ⟨saved, hbelow, -⟩ := hmirrors.below
  refine ⟨?_, ⟨saved, hbelow.symm⟩, ?_⟩
  · have hdepth := hmirrors.depth_eq
    rw [← hrel.depth_eq] at hdepth
    unfold Canvas.saveCount Recorder.saveCount SaveStack.saveCount
    rw [hdepth, c.stack.depth_eq]
    omega
  · obtain ⟨factors, hr, hc⟩ := hrel.top
    exact ⟨factors, hr, hmirrors.top.trans hc⟩

/-! #### Save counts of 32 bits -/

/-- Counted from the save count of the canvas, the recorded restores go to counts of 32 bits. -/
def CountsFit (c : Canvas) (list : DisplayList) : Prop :=
  ∀ count, .restoreTo count ∈ list.ops.toList →
    (c.saveCount : Int) - 1 + count ≤ Int32.maxValue.toInt

/-- Carries out a recorded operation; the count of a restore is added in 32 bits, and wraps around
where they do not hold it. -/
def issueWrapping (c : Canvas) (list : DisplayList) (offset : Int32) : DrawOp → Canvas
  | .restoreTo count => c.restoreTo (offset + Int32.ofInt count).toInt
  | op => c.issueRecorded list offset.toInt op

/-- What `playFirst` comes to when save counts have 32 bits. -/
def playFirstWrapping (c : Canvas) (list : DisplayList) (count : Nat) : Canvas :=
  (list.ops.toList.take count).foldl
    (fun played op => played.issueWrapping list (Int32.ofNat c.saveCount - 1) op) c

/-- The sum of a save count and a recorded count is the same in 32 bits if they hold it. -/
theorem toInt_offset_add {n : Nat} {count : Int} (hcount : 1 ≤ count)
    (hfits : (n : Int) - 1 + count ≤ Int32.maxValue.toInt) :
    (Int32.ofNat n - 1 + Int32.ofInt count).toInt = (n : Int) - 1 + count := by
  have hsum : Int32.ofNat n - 1 + Int32.ofInt count = Int32.ofInt ((n : Int) - 1 + count) := by
    rw [Int32.ofInt_add, Int32.ofInt_sub, Int32.ofInt_eq_ofNat]
    rfl
  have hlargest : Int32.maxValue.toInt = 2147483647 := rfl
  rw [hsum, Int32.toInt_ofInt_of_le (by omega) (by omega)]

/-- Content that restores only what it saved is played in 32 bits as it is without a bound, if the
counts of its restores fit.  Nothing else is counted. -/
theorem playFirstWrapping_eq (c : Canvas) {list : DisplayList} (h : list.IsBalanced)
    (hfit : c.CountsFit list) (count : Nat) :
    c.playFirstWrapping list count = c.playFirst list count := by
  unfold playFirstWrapping playFirst
  refine List.foldl_ext _ _ c fun played op hop => ?_
  have hmem := List.mem_of_mem_take hop
  cases op with
  | restoreTo n =>
    obtain ⟨i, hi⟩ := List.getElem?_of_mem hmem
    obtain ⟨depth, hdepth⟩ := h.exists_saves? c.transform hi
    -- a restore below the first count is not balanced
    have hn : 1 ≤ n := by
      rw [DrawOp.saves?] at hdepth
      split_ifs at hdepth with hlt
      exact Int.not_lt.mp hlt
    exact congrArg played.restoreTo (toInt_offset_add hn (hfit n hmem))
  | _ => rfl

/-- A restore to a count above all that is saved, and one that does not fit, lets everything go. -/
example :
    let list : DisplayList := { ops := #[.restoreTo Int32.maxValue.toInt] }
    let c := Canvas.unbounded.save .matrix
    (c.playFirst list 1).saveCount = 2 ∧ (c.playFirstWrapping list 1).saveCount = 1 := by
  decide +kernel

/-! #### Keeping pace -/

/-- While finished content is played on a canvas, the canvas keeps pace with the recorder, after
each of the commands, whether it was refused or not, and so after each of the operations.  On a
canvas that begins under the identity a child is drawn under the transform of its link, and in the
end the canvas has as many states saved as it began with.  It makes no difference that save counts
have 32 bits, if the counts of the recorded restores fit. -/
theorem playFirst_keepsPace {commands : List Command} {list : DisplayList}
    (hfinish : (Recorder.performAll {} commands).finish = .ok list) (c : Canvas) :
    (∀ before, before <+: commands → c.KeepsPace (Recorder.performAll {} before)
      (c.playFirst list (Recorder.performAll {} before).list.ops.size)) ∧
    (∀ count ≤ list.ops.size, ∃ before, before <+: commands ∧
      (Recorder.performAll {} before).list.ops.size = count) ∧
    (c.transform = .identity → ∀ (index i : Nat), list.ops[index]? = some (.child i) →
      ∃ edge, list.children[i]? = some edge ∧ (c.playFirst list index).transform = edge.transform) ∧
    (c.playFirst list list.ops.size).saveCount = c.saveCount ∧
    (c.CountsFit list → ∀ count, c.playFirstWrapping list count = c.playFirst list count) := by
  have hbalanced : list.IsBalanced := DisplayList.IsRecorded.isBalanced ⟨_, _, hfinish, .inl rfl⟩
  obtain ⟨hsaved, rfl⟩ := Recorder.finish_eq_ok_iff.mp hfinish
  have hpace (before : List Command) (hbefore : before <+: commands) :=
    c.keepsPace_playFirst hbalanced before (Recorder.grows_of_prefix hbefore)
  refine ⟨hpace, fun count hcount => ?_, fun hidentity index i hop => ?_, ?_,
    c.playFirstWrapping_eq hbalanced⟩
  · rcases Nat.lt_or_eq_of_le hcount with hlt | rfl
    · obtain ⟨before, command, -, hbefore, -, -, hsize⟩ :=
        Recorder.exists_adds (Array.getElem?_eq_getElem hlt)
      exact ⟨before, (List.prefix_append _ _).trans hbefore, hsize⟩
    · exact ⟨commands, List.prefix_rfl, rfl⟩
  · obtain ⟨before, command, r', hbefore, hperform, hadds, rfl⟩ := Recorder.exists_adds hop
    obtain ⟨factors, hr, hplayed⟩ :=
      (hpace before ((List.prefix_append _ _).trans hbefore)).transform
    obtain ⟨edge, hedge, htransform⟩ := hadds.link i rfl
    have hgrows := Recorder.grows_of_prefix hbefore
    rw [Recorder.performAll_concat, hperform] at hgrows
    refine ⟨edge, DisplayList.getElem?_of_prefix hgrows.children hedge, ?_⟩
    rw [hplayed, hidentity, ← hr, htransform]
  · have hend := (hpace commands List.prefix_rfl).saveCount
    have hone : (Recorder.performAll {} commands).saveCount = 1 := by
      rw [Recorder.saveCount, SaveStack.saveCount_eq, hsaved]
      rfl
    omega

end Canvas

/-! ### A row of two tiles -/

namespace Row

/-- The first tile is moved.  The restore at the beginning is refused. -/
def commands : List Command :=
  [.restore, .save .matrix, .translate 5 6, .child ⟨1, 1⟩, .restoreTo 1, .child ⟨2, 1⟩]

theorem playFirst_keepsPace_tiles : ∃ list, (Recorder.performAll {} commands).finish = .ok list ∧
    ∃ edge, list.children[0]? = some edge ∧
      ((Canvas.unbounded.save .matrixClip).playFirst list 2).transform = edge.transform ∧
      edge.transform ≠ .identity ∧
      ((Canvas.unbounded.save .matrixClip).playFirst list 5).saveCount = 2 ∧
      ∀ count, (Canvas.unbounded.save .matrixClip).playFirstWrapping list count =
        (Canvas.unbounded.save .matrixClip).playFirst list count := by
  have hfinish : (Recorder.performAll {} commands).finish =
      .ok (Recorder.performAll {} commands).list := rfl
  obtain ⟨-, -, hlinks, hend, hwrapping⟩ :=
    Canvas.playFirst_keepsPace hfinish (Canvas.unbounded.save .matrixClip)
  obtain ⟨edge, hedge, htransform⟩ := hlinks rfl 2 0 rfl
  refine ⟨_, rfl, edge, hedge, htransform, ?_, hend, hwrapping fun count hmem => ?_⟩
  · obtain rfl := Option.some.inj hedge
    decide +kernel
  · -- the restore to the first count is the only one
    have hops : (Recorder.performAll {} commands).list.ops.toList =
        [.save .matrix, .translate 5 6, .child 0, .restoreTo 1, .child 1] := rfl
    rw [hops] at hmem
    simp only [List.mem_cons, reduceCtorEq, DrawOp.restoreTo.injEq, false_or, List.not_mem_nil,
      or_false] at hmem
    rw [hmem]
    decide

end Row

end RetainedScene
