import RetainedScene.Proofs.Canvas.Quiet
import RetainedScene.Proofs.DisplayList.Saves

/-!
# The states of a canvas

What a canvas has saved stays below what is saved later, and comes back when it is restored to the
count of that time (`SaveStack.IsSavedIn.restoreTo`).  Meanwhile a canvas `IsOver` the state of that
time, under some transform, and the properties of a node change no more than its clip and alpha.

Balanced content that is played on a canvas moves the transforms as it would without one: the
states of the canvas mirror those of `DisplayList.move`, over those that the canvas had
(`SaveStack.Mirrors.issueRecorded`).
-/

namespace RetainedScene

namespace SaveStack

variable {α : Type}

theorem eq_of_below_eq {s t : SaveStack α} (htop : s.top = t.top) (hbelow : s.below = t.below) :
    s = t := by
  rcases s with ⟨_, _, _, rfl⟩
  rcases t with ⟨_, _, _, rfl⟩
  cases htop
  cases hbelow
  rfl

theorem below_restore (s : SaveStack α) : s.restore.below = s.below.drop 1 := by
  rcases s with ⟨top, _ | ⟨saved, rest⟩, depth, h⟩ <;> rfl

theorem below_restoreTimes (s : SaveStack α) (n : Nat) :
    (s.restoreTimes n).below = s.below.drop n := by
  induction n generalizing s with
  | zero => rfl
  | succ n ih => rw [restoreTimes, ih, below_restore, List.drop_drop, Nat.add_comm]

/-- The states of a stack are among the saved ones of another, as the first that were saved. -/
def IsSavedIn (b s : SaveStack α) : Prop := b.top :: b.below <:+ s.below

namespace IsSavedIn

variable {b s : SaveStack α}

protected theorem save (b : SaveStack α) : b.IsSavedIn b.save := List.suffix_rfl

theorem push (h : b.IsSavedIn s) : b.IsSavedIn s.save := h.trans (List.suffix_cons _ _)

/-- Of what was saved nothing is lost while more states are left than there were. -/
theorem of_suffix {s' : SaveStack α} (h : b.IsSavedIn s) (hbelow : s'.below <:+ s.below)
    (hcount : b.saveCount < s'.saveCount) : b.IsSavedIn s' := by
  refine List.suffix_of_suffix_length_le h hbelow ?_
  rw [saveCount_eq, saveCount_eq] at hcount
  rw [List.length_cons]
  omega

/-- What was saved comes back. -/
theorem restoreTo (h : b.IsSavedIn s) : s.restoreTo b.saveCount = b := by
  obtain ⟨saved, hsaved⟩ := h
  have htimes : s.saveCount - (max (b.saveCount : Int) 1).toNat = saved.length + 1 := by
    have hlength := congrArg List.length hsaved
    simp only [List.length_append, List.length_cons] at hlength
    rw [saveCount_eq, saveCount_eq]
    omega
  rw [SaveStack.restoreTo, htimes]
  clear htimes
  induction saved generalizing s with
  | nil =>
    rcases s with ⟨top, below, depth, hdepth⟩
    cases hsaved
    exact eq_of_below_eq rfl rfl
  | cons first saved ih =>
    rcases s with ⟨top, below, depth, hdepth⟩
    cases hsaved
    exact ih rfl

end IsSavedIn

/-! ### Over a saved state -/

/-- The states of a canvas at some time are saved, and what is in force now is a transform. -/
structure IsOver (b : SaveStack Snapshot) (transform : Matrix) (s : SaveStack Snapshot) : Prop where
  saved : b.IsSavedIn s
  transform_eq : s.top.transform = transform

namespace IsOver

variable {b s s' : SaveStack Snapshot} {transform transform' : Matrix}

protected theorem save (b : SaveStack Snapshot) : IsOver b b.top.transform b.save := ⟨.save b, rfl⟩

theorem push (h : IsOver b transform s) : IsOver b transform s.save :=
  ⟨h.saved.push, h.transform_eq⟩

/-- A change of the state in force. -/
theorem adjust (h : IsOver b transform s) (hbelow : s'.below = s.below)
    (htop : s'.top.transform = transform') : IsOver b transform' s' where
  saved := by
    unfold IsSavedIn
    rw [hbelow]
    exact h.saved
  transform_eq := htop

end IsOver

end SaveStack

namespace Canvas

variable {c : Canvas} {b : SaveStack Snapshot} {transform : Matrix}

/-- What holds of a canvas, and of what is made of it with a table entry, holds whether or not the
entry is there. -/
theorem elim_of {α : Type} {P : Canvas → Prop} (entry : Option α) {f : α → Canvas} (hc : P c)
    (hf : ∀ x, P (f x)) : P (entry.elim c f) := by
  cases entry with
  | none => exact hc
  | some x => exact hf x

theorem isOver_concat (h : b.IsOver transform c.stack) (m : Matrix) :
    b.IsOver (transform * m) (c.concat m).stack :=
  h.adjust rfl (congrArg (· * m) h.transform_eq)

theorem isOver_ite {p : Prop} [Decidable p] {c' : Canvas} {transform' : Matrix}
    (h : b.IsOver transform c.stack) (h' : b.IsOver transform' c'.stack) :
    b.IsOver (if p then transform else transform') (if p then c else c').stack := by
  split
  · exact h
  · exact h'

theorem isOver_clipOutline (h : b.IsOver transform c.stack) (outline : Outline) :
    b.IsOver transform (c.clipOutline outline).stack := by
  unfold clipOutline
  cases outline.bounds with
  | none => exact h
  | some bounds => exact h.adjust rfl h.transform_eq

theorem isOver_saveLayer (h : b.IsOver transform c.stack) (bounds : Rect) (alpha : UInt8)
    (flags : SaveFlags) : b.IsOver transform (c.saveLayer bounds alpha flags).stack := by
  unfold saveLayer
  dsimp only
  split
  · exact h.push.adjust rfl h.transform_eq
  · exact h.push.adjust rfl h.transform_eq

/-- An operation of a node's properties, other than a restore, changes no transform. -/
theorem isOver_issueProperty (h : b.IsOver transform c.stack) {op : PropertyOp}
    (hop : ∀ count, op ≠ .restoreTo count) (offset : Int) :
    b.IsOver transform (c.issueProperty offset op).stack := by
  cases op with
  | save flags => exact h.push
  | restoreTo count => exact absurd rfl (hop count)
  | saveLayer bounds alpha flags => exact isOver_saveLayer h bounds alpha flags
  | clipRect rect mode => exact h.adjust rfl h.transform_eq
  | clipOutline outline => exact isOver_clipOutline h outline
  | shadow s => exact h

/-- The transforms of a node act on a canvas as they do on a matrix. -/
theorem isOver_transformed (h : b.IsOver transform c.stack) (p : Properties) :
    b.IsOver (p.apply false transform) (Visit.transformed p c).stack := by
  unfold Visit.transformed Properties.apply
  have hoffset : b.IsOver
      (if p.hasOffset then transform * Matrix.translation p.left p.top 0 else transform)
      (if p.hasOffset then c.translate p.left p.top else c).stack :=
    isOver_ite (isOver_concat h _) h
  -- a fixed matrix comes between the offset and the moving transforms
  cases p.fixedMatrix? with
  | none =>
    exact isOver_ite hoffset (isOver_ite (isOver_concat hoffset _) (isOver_concat hoffset _))
  | some fixed =>
    have hfixed := isOver_concat hoffset fixed
    exact isOver_ite hfixed (isOver_ite (isOver_concat hfixed _) (isOver_concat hfixed _))

end Canvas

/-! ### Content on a canvas -/

/-- The states of a canvas have the transforms of a stack, over those that it had saved before. -/
structure SaveStack.Mirrors (s : SaveStack Snapshot) (m : SaveStack Matrix) (base : List Snapshot) :
    Prop where
  top : s.top.transform = m.top
  below : ∃ saved, s.below = saved ++ base ∧ saved.map Snapshot.transform = m.below

namespace SaveStack.Mirrors

variable {s s' : SaveStack Snapshot} {m m' : SaveStack Matrix} {base : List Snapshot}

theorem ofTop (s : SaveStack Snapshot) : s.Mirrors (.ofTop s.top.transform) s.below :=
  ⟨rfl, [], rfl, rfl⟩

theorem depth_eq (h : s.Mirrors m base) : s.depth = m.depth + base.length := by
  obtain ⟨saved, hbelow, hsaved⟩ := h.below
  rw [s.depth_eq, m.depth_eq, hbelow, ← hsaved, List.length_append, List.length_map]

theorem isOver (h : s.Mirrors m base) {b : SaveStack Snapshot} (hb : b.top :: b.below <:+ base) :
    b.IsOver m.top s := by
  obtain ⟨saved, hbelow, -⟩ := h.below
  refine ⟨?_, h.top⟩
  unfold IsSavedIn
  rw [hbelow]
  exact hb.trans (List.suffix_append _ _)

theorem save (h : s.Mirrors m base) : s.save.Mirrors m.save base := by
  obtain ⟨saved, hbelow, hsaved⟩ := h.below
  refine ⟨h.top, s.top :: saved, congrArg (s.top :: ·) hbelow, ?_⟩
  rw [List.map_cons, h.top, hsaved]
  rfl

theorem restore (h : s.Mirrors m base) (hm : m.depth ≠ 0) : s.restore.Mirrors m.restore base := by
  obtain ⟨saved, hbelow, hsaved⟩ := h.below
  rcases s with ⟨top, below, depth, hdepth⟩
  rcases m with ⟨mtop, mbelow, mdepth, hmdepth⟩
  cases saved with
  | nil =>
    -- nothing is saved over the base, but the stack of transforms has something saved
    cases hsaved
    exact absurd hmdepth hm
  | cons first saved =>
    cases hbelow
    cases hsaved
    exact ⟨rfl, saved, rfl, rfl⟩

theorem restoreTimes (h : s.Mirrors m base) {n : Nat} (hn : n ≤ m.depth) :
    (s.restoreTimes n).Mirrors (m.restoreTimes n) base := by
  induction n generalizing s m with
  | zero => exact h
  | succ n ih =>
    refine ih (h.restore (by omega)) ?_
    rw [depth_restore]
    omega

theorem restoreTo (h : s.Mirrors m base) {count : Int} (hcount : ¬ count < 1) :
    (s.restoreTo (base.length + count)).Mirrors (m.restoreTo count) base := by
  have hdepth := h.depth_eq
  have htimes : s.saveCount - (max (base.length + count) 1).toNat =
      m.saveCount - (max count 1).toNat := by
    unfold saveCount
    omega
  unfold SaveStack.restoreTo
  rw [htimes]
  refine h.restoreTimes ?_
  unfold saveCount
  omega

/-- A change of the state in force. -/
theorem adjust (h : s.Mirrors m base) (hbelow : s'.below = s.below) (hbelow' : m'.below = m.below)
    (htop : s'.top.transform = m'.top) : s'.Mirrors m' base where
  top := htop
  below := by
    rw [hbelow, hbelow']
    exact h.below

/-- An operation that restores only what was saved moves the transforms of a canvas as it would
without one. -/
theorem issueRecorded {c : Canvas} (h : c.stack.Mirrors m base) {list : DisplayList} {op : DrawOp}
    {depth : Nat} (hop : op.saves? m.depth = some depth) :
    (c.issueRecorded list base.length op).stack.Mirrors (list.move m op) base := by
  cases op with
  | save flags => exact h.save
  | restore =>
    simp only [DrawOp.saves?] at hop
    split at hop
    · cases hop
    · next hdepth => exact h.restore hdepth
  | restoreTo count =>
    simp only [DrawOp.saves?] at hop
    split at hop
    · cases hop
    · next hcount => exact h.restoreTo hcount
  | translate dx dy => exact h.adjust rfl rfl (congrArg (· * Matrix.translation dx dy 0) h.top)
  | concat i =>
    simp only [Canvas.issueRecorded, DisplayList.move]
    cases list.matrices[i]? with
    | none => exact h
    | some matrix => exact h.adjust rfl rfl (congrArg (· * matrix) h.top)
  | clipRect rect mode => exact h.adjust rfl rfl h.top
  | clipPath i mode =>
    simp only [Canvas.issueRecorded]
    cases list.paths[i]? with
    | none => exact h
    | some path => exact h.adjust rfl rfl h.top
  | clipRegion i mode =>
    simp only [Canvas.issueRecorded]
    cases list.regions[i]? with
    | none => exact h
    | some region => exact h.adjust rfl rfl h.top
  | _ => exact h

end SaveStack.Mirrors

end RetainedScene
