import Mathlib.Data.List.Forall2
import RetainedScene.Proofs.Walk.Properties
import RetainedScene.Report.Dump

/-!
# What a dump tells of properties

The properties of a node come to a list of changes, made one after the other: transforms of the
canvas, one of three ways to apply alpha, and operations that are handed out (`Properties.changes`).
A walk makes just these changes, in this order, and a dump of the node has just one line for each of
them (`Visit.dump_tells_changes`).  `Properties.Tells` says which line stands for which change.

This holds for all numbers that properties may have.  What is not a number is not less than one, so
an alpha of that kind neither is applied nor has a line; it differs from zero, so an offset of that
kind has both.
-/

namespace RetainedScene

/-- One step in applying the properties of a node: the canvas is changed, or an operation is handed
out. -/
inductive Change where
  | translate (dx dy : Single)
  | concat (m : Matrix)
  | setLayerAlpha (alpha : Single)
  | scaleAlpha (alpha : Single)
  | give (op : PropertyOp)

/-- The change is one of the three ways to apply alpha. -/
def Change.appliesAlpha : Change → Bool
  | setLayerAlpha _ | scaleAlpha _ | give (.saveLayer ..) => true
  | _ => false

namespace Properties

/-! ### The changes -/

def transformChanges (p : Properties) : List Change :=
  let offset := if p.hasOffset then [.translate p.left p.top] else []
  let fixed := p.fixedMatrix?.toList.map .concat
  let pivoted :=
    if p.matrixFlags = .none then []
    else if p.matrixFlags = .translation then [.translate p.translationX p.translationY]
    else [.concat (p.transformMatrix false)]
  offset ++ fixed ++ pivoted

/-- The flags of the layer, which clips if the content is clipped to the bounds. -/
def layerFlags (p : Properties) : SaveFlags :=
  if p.clipsToBounds then SaveFlags.alphaLayer.union .clipToLayer else .alphaLayer

def alphaChange (p : Properties) : Change :=
  if p.caching then .setLayerAlpha p.alpha
  else if p.overlaps then .give (.saveLayer p.bounds (p.alpha * 255).toByte p.layerFlags)
  else .scaleAlpha p.alpha

def clipChanges (p : Properties) : List Change :=
  let bounds :=
    if p.clipsToBounds && !p.usesLayer then [.give (.clipRect p.bounds .intersect)] else []
  let outline :=
    if p.clipToOutline && !p.outline.isEmpty then [.give (.clipOutline p.outline)] else []
  bounds ++ outline

/-- All that the properties of a node come to, in order. -/
def changes (p : Properties) : List Change :=
  p.transformChanges ++ (if p.alpha < 1 then [p.alphaChange] else []) ++ p.clipChanges

/-- Alpha is applied in one way if it is less than one, and else not at all. -/
theorem countP_appliesAlpha (p : Properties) :
    p.changes.countP (·.appliesAlpha) = if p.alpha < 1 then 1 else 0 := by
  have htransform : p.transformChanges.countP (·.appliesAlpha) = 0 := by
    unfold transformChanges
    cases p.fixedMatrix? <;> split_ifs <;> rfl
  have halpha : p.alphaChange.appliesAlpha = true := by
    unfold alphaChange
    split_ifs <;> rfl
  have hclip : p.clipChanges.countP (·.appliesAlpha) = 0 := by
    unfold clipChanges
    split_ifs <;> rfl
  rw [changes, List.countP_append, List.countP_append, htransform, hclip]
  split_ifs <;> simp [halpha]

/-! ### The lines -/

/-- The line stands for the change. -/
inductive Tells (p : Properties) : String → Change → Prop
  | offset : p.Tells s!"Translate (left, top) {p.left.plain}, {p.top.plain}"
      (.translate p.left p.top)
  | fixed {m : Matrix} (h : p.staticMatrix = some m) :
    p.Tells s!"ConcatMatrix (static) {m.text}" (.concat m)
  | animated {m : Matrix} (hstatic : p.staticMatrix = none) (h : p.animationMatrix = some m) :
    p.Tells s!"ConcatMatrix (animation) {m.text}" (.concat m)
  | translation : p.Tells
      s!"Translate {fixedList [p.translationX, p.translationY, p.elevation]}"
      (.translate p.translationX p.translationY)
  | pivoted : p.Tells s!"ConcatMatrix {(p.transformMatrix false).text}"
      (.concat (p.transformMatrix false))
  | layerAlpha : p.Tells ("SetOverrideLayerAlpha " ++ p.alpha.fixed 2) (.setLayerAlpha p.alpha)
  | scaledAlpha : p.Tells ("ScaleAlpha " ++ p.alpha.fixed 2) (.scaleAlpha p.alpha)
  | layer (alpha : UInt8) (flags : SaveFlags) : p.Tells
      (s!"SaveLayerAlpha 0.00, 0.00, {fixedList [p.width, p.height]}, " ++
        s!"{alpha.toNat}, {flags.text}")
      (.give (.saveLayer p.bounds alpha flags))
  | bounds : p.Tells s!"ClipRect 0.00, 0.00, {fixedList [p.width, p.height]}"
      (.give (.clipRect p.bounds .intersect))
  | outline : p.Tells s!"ClipOutline {p.outline.text}" (.give (.clipOutline p.outline))

/-- A line that is there under the same condition as its change. -/
theorem forall₂_ite {R : String → Change → Prop} {P Q : Prop} [Decidable P] [Decidable Q]
    (hPQ : P ↔ Q) {line : String} {change : Change} (h : R line change) :
    List.Forall₂ R (if P then [line] else []) (if Q then [change] else []) := by
  by_cases hQ : Q
  · rw [if_pos (hPQ.mpr hQ), if_pos hQ]
    exact .cons h .nil
  · rw [if_neg (mt hPQ.mp hQ), if_neg hQ]
    exact .nil

theorem transformLines_tell (p : Properties) :
    List.Forall₂ p.Tells p.transformLines p.transformChanges := by
  unfold transformLines transformChanges
  refine List.rel_append (List.rel_append ?_ ?_) ?_
  · have hoffset : ¬(p.left.isZero && p.top.isZero) = true ↔ p.hasOffset = true := by
      unfold hasOffset
      cases p.left.isZero <;> simp
    rw [← ite_not]
    exact forall₂_ite hoffset .offset
  · unfold fixedMatrix?
    cases hstatic : p.staticMatrix with
    | some m => exact .cons (.fixed hstatic) .nil
    | none =>
      cases hanimation : p.animationMatrix with
      | some m => exact .cons (.animated hstatic hanimation) .nil
      | none => exact .nil
  · -- the walk asks first if there is a matrix at all, and the dump if it is a translation
    by_cases htranslation : p.matrixFlags = .translation
    · rw [if_pos htranslation, if_neg (by rw [htranslation]; decide), if_pos htranslation]
      exact .cons .translation .nil
    · rw [if_neg htranslation, if_neg htranslation, ← ite_not]
      nth_rewrite 2 [← ite_not]
      exact forall₂_ite .rfl .pivoted

/-- Without caching, a node clips to its bounds as it was told to. -/
theorem clipsToBounds_eq (p : Properties) : (p.clipToBounds && !p.caching) = p.clipsToBounds :=
  Bool.and_comm ..

theorem alphaLines_tell (p : Properties) : List.Forall₂ p.Tells p.alphaLines
    ((if p.alpha < 1 then [p.alphaChange] else []) ++ p.clipChanges) := by
  have huses : (decide (p.alpha < 1) && !p.caching && p.overlaps) = p.usesLayer := rfl
  have hflags : (if p.clipsToBounds then ⟨12⟩ else ⟨4⟩) = p.layerFlags := by
    unfold layerFlags
    split_ifs <;> rfl
  unfold alphaLines clipChanges
  dsimp only
  rw [huses, clipsToBounds_eq, hflags, ← List.append_assoc]
  refine List.rel_append (List.rel_append ?_ (forall₂_ite .rfl .bounds)) (forall₂_ite .rfl .outline)
  by_cases halpha : p.alpha < 1
  · rw [if_pos halpha, if_pos halpha]
    unfold alphaChange usesLayer
    cases p.caching
    · cases p.overlaps
      · simpa using .scaledAlpha
      · simpa [halpha] using .layer _ _
    · simpa using .layerAlpha
  · have hnone : p.usesLayer = false := by simp [usesLayer, halpha]
    rw [hnone, if_neg halpha, if_neg halpha]
    exact .nil

end Properties

namespace Visit

variable {ω : Type}

/-- Makes a change.  The journal tells of a layer, at the level of what is nested in the node. -/
def make (v : Visit ω) (inner : Nat) : Change → Walk ω Unit
  | .translate dx dy => Walk.onCanvas (·.translate dx dy)
  | .concat m => Walk.onCanvas (·.concat m)
  | .setLayerAlpha alpha => Walk.onCanvas (·.setLayerAlpha alpha)
  | .scaleAlpha alpha => Walk.onCanvas (·.scaleAlpha alpha)
  | .give (.saveLayer bounds alpha flags) => do
    Walk.log (.layerSaved inner v.properties.alpha)
    v.give (.saveLayer bounds alpha flags)
  | .give op => v.give op

/-- The transforms are applied one after the other. -/
theorem onCanvas_transformed (v : Visit ω) (inner : Nat) :
    Walk.onCanvas (transformed v.properties) =
      v.properties.transformChanges.forM (v.make inner) := by
  funext s
  show EStateM.Result.ok () { s with canvas := transformed v.properties s.canvas } = _
  unfold transformed Properties.transformChanges
  dsimp only
  cases v.properties.fixedMatrix? <;> split_ifs <;> rfl

/-- Alpha comes to one change at the most, and what is left to do is to clip to the bounds if no
layer does so. -/
theorem applyAlpha_eq (v : Visit ω) (inner : Nat) : v.applyAlpha inner = do
    List.forM (if v.properties.alpha < 1 then [v.properties.alphaChange] else []) (v.make inner)
    return v.properties.clipsToBounds && !v.properties.usesLayer := by
  unfold applyAlpha Properties.alphaChange Properties.usesLayer Properties.layerFlags
  dsimp only
  by_cases halpha : v.properties.alpha < 1
  · cases hcaching : v.properties.caching <;> cases v.properties.overlaps <;>
      simp [halpha, hcaching, make, Properties.clipsToBounds]
  · simp [halpha, Properties.clipsToBounds]

/-- The lines of a dump that tell of the properties of a node stand one to one, and in the same
order, for the changes that a walk makes to apply them.  One of these is a way to apply alpha if
alpha is less than one, and else none is. -/
theorem dump_tells_changes (v : Visit ω) :
    List.Forall₂ v.properties.Tells
      (v.properties.transformLines ++ v.properties.alphaLines) v.properties.changes ∧
    v.properties.changes.countP (·.appliesAlpha) = (if v.properties.alpha < 1 then 1 else 0) ∧
    v.applyProperties = (do
      let inner ← v.innerLevel
      v.properties.changes.forM (v.make inner)) := by
  refine ⟨?_, v.properties.countP_appliesAlpha, ?_⟩
  · unfold Properties.changes
    rw [List.append_assoc]
    exact List.rel_append v.properties.transformLines_tell v.properties.alphaLines_tell
  · unfold applyProperties Properties.changes Properties.clipChanges
    refine congrArg (v.innerLevel >>= ·) (funext fun inner => ?_)
    rw [onCanvas_transformed v inner, applyAlpha_eq]
    simp only [List.forM_eq_forM, List.forM_append, bind_assoc, pure_bind]
    cases v.properties.clipsToBounds && !v.properties.usesLayer <;>
      cases v.properties.clipToOutline && !v.properties.outline.isEmpty <;> simp [make]

end Visit

end RetainedScene
