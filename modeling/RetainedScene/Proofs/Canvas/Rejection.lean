import RetainedScene.Canvas.Basic
import RetainedScene.Proofs.Number.Difference

/-!
# Rejecting and clipping

A canvas rejects a rectangle that has nothing in common with the clip in force, and a clip to such a
rectangle leaves no room.  The one is told by whether there is a common part, the other by the size
of the clip that is left.  They agree on all rectangles that are not empty, whatever their numbers
are and those of the clip and of the transform (`Canvas.rejects_iff_clipRect`): a common part has
just the size that it was looked for by (`Rect.intersect_eq`), and where there is none the clip
shrinks to nothing.

Both go by differences of edges, and so by the order of the edges along each axis (`Rect.Misses`).
Rectangles that touch have nothing in common.  Edges that are not numbers, and edges that are
infinite in the same direction, do not tell their order: along their axis nothing is rejected, and
the clip is not empty.
-/

namespace RetainedScene

/-! ### Edges -/

/-- Nothing lies between two edges, as the upper one is not beyond the lower one.  What lies between
edges that are infinite in the same direction is not known. -/
def Single.Closes (lower upper : Single) : Prop :=
  upper ≤ lower ∧ ¬(upper.isInfinite = true ∧ upper = lower)

instance (lower upper : Single) : Decidable (Single.Closes lower upper) :=
  inferInstanceAs (Decidable (_ ∧ _))

namespace Rect

/-- The lower edges of what two rectangles have in common. -/
def commonLower (r s : Rect) : Point := r.normalized.lower.max s.normalized.lower

/-- The upper edges of what two rectangles have in common. -/
def commonUpper (r s : Rect) : Point := r.normalized.upper.min s.normalized.upper

/-- Along one of the axes nothing lies between the common edges. -/
def Misses (r s : Rect) : Prop :=
  Single.Closes (r.commonLower s).x (r.commonUpper s).x ∨
    Single.Closes (r.commonLower s).y (r.commonUpper s).y

instance (r s : Rect) : Decidable (r.Misses s) := inferInstanceAs (Decidable (_ ∨ _))

variable {r s t : Rect}

theorem isEmpty_ofCorners_iff (lower upper : Point) : (ofCorners lower upper).isEmpty = true ↔
    Single.Closes lower.x upper.x ∨ Single.Closes lower.y upper.y := by
  unfold isEmpty ofCorners Single.Closes
  rw [Bool.or_eq_true, decide_eq_true_eq, decide_eq_true_eq, Single.sub_le_zero_iff,
    Single.sub_le_zero_iff]

/-- There is a common part just if the rectangle between the common edges is not empty. -/
theorem intersect_eq (r s : Rect) : r.intersect s =
    if (ofCorners (r.commonLower s) (r.commonUpper s)).isEmpty then none
    else some (ofCorners (r.commonLower s) (r.commonUpper s)) := by
  unfold isEmpty
  simp only [Bool.or_eq_true, decide_eq_true_eq]
  rfl

theorem intersect_eq_none_iff : r.intersect s = none ↔ r.Misses s := by
  rw [intersect_eq, Misses, ← isEmpty_ofCorners_iff]
  simp

theorem isEmpty_of_intersect (h : r.intersect s = some t) : t.isEmpty = false := by
  rw [intersect_eq] at h
  split at h
  · cases h
  · obtain rfl := Option.some.inj h
    exact Bool.eq_false_of_not_eq_true ‹_›

end Rect

/-! ### Clips -/

namespace Canvas

variable {c : Canvas} {clip rect : Rect}

theorem rejects_iff (hclip : c.clip = some clip) (hrect : rect.isEmpty = false) :
    c.rejects rect = true ↔ clip.intersect (rect.mapBounds c.transform) = none := by
  have hclip : c.top.clip = some clip := hclip
  rw [rejects, Snapshot.rejects, hrect, hclip, Bool.false_or, Option.any_some,
    Option.isNone_iff_eq_none]
  rfl

theorem narrowed_eq (hclip : c.clip = some clip) : c.top.narrowed rect =
    (clip.intersect (rect.mapBounds c.transform)).getD ⟨clip.origin, .zero⟩ := by
  have hclip : c.top.clip = some clip := hclip
  rw [Snapshot.narrowed, hclip]
  rfl

/-- The clip that is left is the common part, or empty. -/
theorem isEmpty_narrowed_iff (hclip : c.clip = some clip) :
    (c.top.narrowed rect).isEmpty = true ↔
      clip.intersect (rect.mapBounds c.transform) = none := by
  rw [narrowed_eq hclip]
  cases h : clip.intersect (rect.mapBounds c.transform) with
  | none => exact iff_of_true rfl rfl
  | some common =>
    have hroom := Rect.isEmpty_of_intersect h
    simp [hroom]

theorem hasRoom_clipRect (c : Canvas) (rect : Rect) (mode : ClipMode) :
    (c.clipRect rect mode).hasRoom = !(c.top.clipTo rect mode).isEmpty := rfl

/-- Of a rectangle that is not empty a canvas with a clip rejects just what the clip misses, and
that is where a clip to it leaves no room.  Where the canvas does not reject it, the clip that is
left is the common part that was looked for. -/
theorem rejects_iff_clipRect (hclip : c.clip = some clip) (hrect : rect.isEmpty = false) :
    (c.rejects rect = true ↔ (c.clipRect rect .intersect).hasRoom = false) ∧
      (c.rejects rect = true ↔ clip.Misses (rect.mapBounds c.transform)) ∧
      ∃ left, (c.clipRect rect .intersect).clip = some left ∧
        (c.rejects rect = true ↔ left.isEmpty = true) ∧
        (c.rejects rect = false →
          clip.intersect (rect.mapBounds c.transform) = some left) := by
  have hreject := rejects_iff hclip hrect
  have hempty : (c.top.narrowed rect).isEmpty = true ↔ _ := isEmpty_narrowed_iff hclip
  refine ⟨?_, ?_, c.top.narrowed rect, rfl, ?_, fun hkept => ?_⟩
  · rw [hasRoom_clipRect, Bool.not_eq_false', hreject]
    exact hempty.symm
  · rw [hreject, Rect.intersect_eq_none_iff]
  · rw [hreject, hempty]
  · rw [narrowed_eq hclip]
    cases h : clip.intersect (rect.mapBounds c.transform) with
    | none => exact absurd (hreject.mpr h) (by rw [hkept]; decide)
    | some common => rfl

/-- A canvas near the right edge of its viewport. -/
def nearEdge : Canvas := (ofSize 100 100).translate 95 0

/-- What reaches over the edge is kept, what begins at the edge is rejected. -/
theorem rejects_iff_clipRect_nearEdge :
    (nearEdge.rejects (.ofSize 10 10) = false ∧
      (nearEdge.clipRect (.ofSize 10 10) .intersect).clip = some ⟨⟨95, 0⟩, ⟨5, 10⟩⟩) ∧
      nearEdge.rejects ⟨⟨5, 0⟩, ⟨10, 10⟩⟩ = true ∧
      (nearEdge.clipRect ⟨⟨5, 0⟩, ⟨10, 10⟩⟩ .intersect).hasRoom = false := by
  have hclip : nearEdge.clip = some (.ofSize 100 100) := rfl
  have hover : (Rect.ofSize 10 10).isEmpty = false := by decide +kernel
  have hbeyond : Rect.isEmpty ⟨⟨5, 0⟩, ⟨10, 10⟩⟩ = false := by decide +kernel
  have hkept : nearEdge.rejects (.ofSize 10 10) = false := by decide +kernel
  have hcommon : (Rect.ofSize 100 100).intersect
      ((Rect.ofSize 10 10).mapBounds nearEdge.transform) = some ⟨⟨95, 0⟩, ⟨5, 10⟩⟩ := by
    decide +kernel
  have hmisses : (Rect.ofSize 100 100).Misses
      (Rect.mapBounds ⟨⟨5, 0⟩, ⟨10, 10⟩⟩ nearEdge.transform) := by decide +kernel
  obtain ⟨-, -, left, hleft, -, hpart⟩ := rejects_iff_clipRect hclip hover
  obtain ⟨hroom, hmissed, -⟩ := rejects_iff_clipRect hclip hbeyond
  have hrejected := hmissed.mpr hmisses
  refine ⟨⟨hkept, ?_⟩, hrejected, hroom.mp hrejected⟩
  rw [hleft, ← hpart hkept, hcommon]

-- An empty rectangle is rejected whatever a clip to it leaves, which turns a negative size around.
example : (ofSize 100 100).rejects ⟨⟨10, 0⟩, ⟨-5, 5⟩⟩ = true ∧
    ((ofSize 100 100).clipRect ⟨⟨10, 0⟩, ⟨-5, 5⟩⟩ .intersect).hasRoom = true := by decide +kernel

end Canvas

end RetainedScene
