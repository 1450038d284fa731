import RetainedScene.Proofs.Number.Unit
import RetainedScene.Proofs.Walk.Fading

/-!
# The properties of a node on a canvas

A node applies its properties to a canvas step by step: transforms, then alpha in one of three ways,
then clips, of which the one to the bounds is left to the layer where there is one.  What it all
comes to is said here by the properties alone (`Visit.applyProperties_shows`): the transform is the
one that shadows and projected content go by (`Properties.apply`), the clip does not depend on the
way in which alpha is applied (`Properties.clipOf`), and a draw is as faint as the properties ask
for (`Properties.dimmed`).
-/

namespace RetainedScene

/-! ### What the properties ask for -/

/-- Changes the transform in force. -/
def Canvas.moved (c : Canvas) (f : Matrix → Matrix) : Canvas :=
  c.modify fun s => { s with transform := f s.transform }

namespace Properties

/-- The content is clipped to the bounds; that of a cached node is not. -/
def clipsToBounds (p : Properties) : Bool := !p.caching && p.clipToBounds

/-- The content is drawn into a layer of its own, for its parts may cover each other. -/
def usesLayer (p : Properties) : Bool := p.alpha < 1 && !p.caching && p.overlaps

/-- The alpha of a draw in the content of a node that is less than opaque, given the alpha around
the node.  A layer takes alpha in steps of `1 / 255`. -/
def dimmed (p : Properties) (a : Single) : Single :=
  if p.usesLayer then a * (Single.ofByte (p.alpha * 255).toByte / 255) else a * p.alpha

/-- A clip narrowed to the bounds, under the transform of the node. -/
def boundedClip (p : Properties) (m : Matrix) (clip : Option Rect) : Option Rect :=
  if p.clipsToBounds then some (Snapshot.narrowed { transform := m, clip } p.bounds) else clip

/-- A clip narrowed to the bounds of the outline, under the transform of the node. -/
def outlinedClip (p : Properties) (m : Matrix) (clip : Option Rect) : Option Rect :=
  if p.clipToOutline && !p.outline.isEmpty then
    p.outline.bounds.elim clip fun bounds =>
      some (Snapshot.narrowed { transform := m, clip } bounds)
  else clip

/-- The clip of the content: first the bounds, then the outline. -/
def clipOf (p : Properties) (m : Matrix) (clip : Option Rect) : Option Rect :=
  p.outlinedClip m (p.boundedClip m clip)

/-- What is drawn on the second canvas is as faint as the properties ask for on the first one.  A
layer has saved the state of the first one, and nothing else was saved since. -/
structure Dims (p : Properties) (c d : Canvas) : Prop where
  dimmed : p.alpha < 1 → d.top.alpha * d.layerAlpha = p.dimmed c.top.alpha
  plain : ¬ p.alpha < 1 → (d.top.alpha * d.layerAlpha).Alike c.top.alpha
  below : d.stack.below = (if p.usesLayer then [c.top] else []) ++ c.stack.below

/-- The second canvas is the first one with the properties applied. -/
structure Shows (p : Properties) (c d : Canvas) : Prop where
  transform : d.transform = p.apply false c.transform
  clip : d.clip = p.clipOf (p.apply false c.transform) c.clip
  dims : p.Dims (c.moved (p.apply false)) d

theorem Dims.of_eq {p : Properties} {c d e : Canvas} (h : p.Dims c d)
    (halpha : e.top.alpha = d.top.alpha) (hlayer : e.layerAlpha = d.layerAlpha)
    (hbelow : e.stack.below = d.stack.below) : p.Dims c e where
  dimmed hp := by rw [halpha, hlayer, h.dimmed hp]
  plain hp := by
    rw [halpha, hlayer]
    exact h.plain hp
  below := hbelow.trans h.below

end Properties

/-- A clip is narrowed under a transform; alpha does not come into it. -/
theorem Snapshot.narrowed_eq (s : Snapshot) (rect : Rect) :
    s.narrowed rect = narrowed { transform := s.transform, clip := s.clip } rect := rfl

/-- An outline that is not empty has bounds. -/
theorem Outline.isSome_bounds {o : Outline} (h : o.isEmpty = false) : o.bounds.isSome = true := by
  unfold bounds
  rw [h]
  cases o with
  | empty => cases h
  | roundRect rect radius => rfl
  | convex points => rfl

/-! ### Transforms -/

theorem Canvas.concat_moved (c : Canvas) (f : Matrix → Matrix) (m : Matrix) :
    (c.moved f).concat m = c.moved fun t => f t * m := c.modify_modify _ _

theorem Canvas.ite_moved (c : Canvas) (q : Prop) [Decidable q] (f g : Matrix → Matrix) :
    (if q then c.moved f else c.moved g) = c.moved fun t => if q then f t else g t := by
  split <;> rfl

namespace Visit

/-- The transforms of a node change a canvas as they change a matrix. -/
theorem transformed_eq (p : Properties) (c : Canvas) :
    transformed p c = c.moved (p.apply false) := by
  -- each step changes a canvas that is moved into one that is moved further
  have hstart : c = c.moved fun t => t := rfl
  unfold transformed Properties.apply Canvas.translate
  conv_lhs => rw [hstart, Canvas.concat_moved, Canvas.ite_moved]
  cases p.fixedMatrix? <;>
    simp only [Canvas.concat_moved, Canvas.ite_moved, Bool.false_eq_true, if_false]

/-! ### Alpha -/

variable {v : Visit Unit} {s : Stage Unit}

/-- The alpha of a node is applied, and the clip to its bounds with it or, if `clips` says so, not
yet. -/
structure Fades (v : Visit Unit) (clips : Bool) (c d : Canvas) : Prop where
  transform : d.transform = c.transform
  clip : (if clips then some (d.top.narrowed v.properties.bounds) else d.clip) =
    v.properties.boundedClip c.transform c.clip
  dims : v.properties.Dims c d

theorem fades_solid {c : Canvas} (hlayer : c.layerAlpha = 1) (halpha : ¬ v.properties.alpha < 1) :
    v.Fades v.properties.clipsToBounds c c where
  transform := rfl
  clip := rfl
  dims := by
    refine ⟨fun h => absurd h halpha, fun _ => ?_, ?_⟩
    · rw [hlayer]
      exact c.top.alpha.mul_one_alike
    · simp [Properties.usesLayer, halpha]

theorem fades_setLayerAlpha (c : Canvas) (halpha : v.properties.alpha < 1)
    (hcaching : v.properties.caching = true) :
    v.Fades v.properties.clipsToBounds c (c.setLayerAlpha v.properties.alpha) where
  transform := rfl
  clip := rfl
  dims := by
    have huses : v.properties.usesLayer = false := by simp [Properties.usesLayer, hcaching]
    refine ⟨fun _ => ?_, fun h => absurd halpha h, ?_⟩
    · rw [Properties.dimmed, huses]
      rfl
    · rw [huses]
      rfl

theorem fades_scaleAlpha {c : Canvas} (hlayer : c.layerAlpha = 1) (halpha : v.properties.alpha < 1)
    (hoverlaps : (!v.properties.overlaps) = true) :
    v.Fades v.properties.clipsToBounds c (c.scaleAlpha v.properties.alpha) where
  transform := rfl
  clip := rfl
  dims := by
    have huses : v.properties.usesLayer = false := by simp_all [Properties.usesLayer]
    refine ⟨fun _ => ?_, fun h => absurd halpha h, ?_⟩
    · rw [Properties.dimmed, huses]
      show c.top.alpha * v.properties.alpha * c.layerAlpha = c.top.alpha * v.properties.alpha
      rw [hlayer, Single.mul_mul_one]
    · rw [huses]
      rfl

theorem top_saveLayer (c : Canvas) (bounds : Rect) (alpha : UInt8) (flags : SaveFlags) :
    (c.saveLayer bounds alpha flags).top = { c.top with
      alpha := c.top.alpha * (Single.ofByte alpha / 255)
      clip := if flags.contains .clipToLayer then some (c.top.narrowed bounds) else c.clip } := by
  unfold Canvas.saveLayer
  dsimp only
  rw [c.top.narrowed_eq]
  split
  · rw [Snapshot.narrowed_eq]
    rfl
  · rfl

theorem fades_saveLayer {c : Canvas} (hlayer : c.layerAlpha = 1)
    (huses : v.properties.usesLayer = true) {flags : SaveFlags}
    (hflags : flags.contains .clipToLayer = v.properties.clipsToBounds) :
    v.Fades false c
      (c.saveLayer v.properties.bounds (v.properties.alpha * 255).toByte flags) := by
  have htop := top_saveLayer c v.properties.bounds (v.properties.alpha * 255).toByte flags
  refine ⟨(congrArg Snapshot.transform htop).trans rfl, ?_, fun _ => ?_, fun h => ?_, ?_⟩
  · refine (congrArg Snapshot.clip htop).trans ?_
    rw [hflags, c.top.narrowed_eq]
    rfl
  · rw [c.layerAlpha_saveLayer, hlayer, htop, Properties.dimmed, if_pos huses]
    exact Single.mul_mul_one _ _
  · simp [Properties.usesLayer, h] at huses
  · rw [if_pos huses]
    unfold Canvas.saveLayer
    dsimp only
    split <;> rfl

theorem applyAlpha_fades (hv : v.handler = .immediate) (hlayer : s.canvas.layerAlpha = 1)
    (inner : Nat) :
    (v.applyAlpha inner).Ends s (fun clips t => v.Fades clips s.canvas t.canvas)
      fun e _ => e = .marginTooWide ∧ v.properties.usesLayer = true ∧
        s.journal.refuses (.layerSaved inner v.properties.alpha) = true := by
  unfold applyAlpha
  dsimp only
  split
  · next halpha =>
    split
    · next hcaching => exact Walk.Ends.onCanvas_bind (.pure (fades_setLayerAlpha _ halpha hcaching))
    split
    · next hcaching hoverlaps =>
      exact Walk.Ends.onCanvas_bind (.pure (fades_scaleAlpha hlayer halpha hoverlaps))
    · next hcaching hoverlaps =>
      have huses : v.properties.usesLayer = true := by simp_all [Properties.usesLayer]
      refine Walk.Ends.bind (Walk.Ends.log ?_ fun hrefuses => ⟨rfl, huses, hrefuses⟩)
        fun _ t (ht : t.canvas = s.canvas) => ?_
      · rfl
      refine Walk.Ends.modify_bind (.pure ?_)
      rw [hv]
      show v.Fades false s.canvas (t.canvas.saveLayer _ _ _)
      rw [ht]
      refine fades_saveLayer hlayer huses ?_
      -- the flags of the layer ask for a clip just when the node asks for one
      unfold Properties.clipsToBounds
      cases !v.properties.caching && v.properties.clipToBounds <;> rfl
  · next halpha => exact .pure (fades_solid hlayer halpha)

/-! ### Clips -/

theorem Fades.clipRect {c d : Canvas} (h : v.Fades true c d) :
    v.Fades false c (d.clipRect v.properties.bounds .intersect) where
  transform := h.transform
  clip := h.clip
  dims := h.dims.of_eq rfl rfl rfl

theorem give_ends (hv : v.handler = .immediate) {op : PropertyOp} {fine : Unit → Stage Unit → Prop}
    {failed : Fatal → Stage Unit → Prop} (h : fine () (s.onCanvas (·.issueProperty 0 op))) :
    (v.give op).Ends s fine failed := by
  refine Walk.Ends.modify ?_
  rw [hv]
  exact h

/-- The clip to the outline comes last. -/
theorem Fades.shows {c d : Canvas}
    (h : v.Fades false (c.moved (v.properties.apply false)) d) :
    v.properties.Shows c
      (if v.properties.clipToOutline && !v.properties.outline.isEmpty then
        d.clipOutline v.properties.outline
      else d) := by
  have htransform : d.transform = v.properties.apply false c.transform := h.transform
  have hclip : d.clip = v.properties.boundedClip (v.properties.apply false c.transform) c.clip :=
    h.clip
  split
  · next houtline =>
    -- the outline has bounds, and they narrow the clip that the bounds of the node have left
    have hempty : v.properties.outline.isEmpty = false := by simp_all
    obtain ⟨bounds, hbounds⟩ := Option.isSome_iff_exists.mp (Outline.isSome_bounds hempty)
    unfold Canvas.clipOutline
    rw [hbounds]
    refine ⟨htransform, ?_, h.dims.of_eq rfl rfl rfl⟩
    rw [Properties.clipOf, Properties.outlinedClip, if_pos houtline, hbounds, ← hclip, ← htransform]
    rfl
  · next houtline =>
    refine ⟨htransform, ?_, h.dims⟩
    rw [Properties.clipOf, Properties.outlinedClip, if_neg houtline, hclip]

theorem outline_shows (hv : v.handler = .immediate) {c : Canvas} {t : Stage Unit}
    {failed : Fatal → Stage Unit → Prop}
    (h : v.Fades false (c.moved (v.properties.apply false)) t.canvas) :
    Walk.Ends (if v.properties.clipToOutline && !v.properties.outline.isEmpty then
        v.give (.clipOutline v.properties.outline)
      else pure ()) t (fun _ t => v.properties.Shows c t.canvas) failed := by
  have hshows := h.shows
  split at hshows
  · next houtline =>
    rw [if_pos houtline]
    exact give_ends hv hshows
  · next houtline =>
    rw [if_neg houtline]
    exact .pure hshows

/-! ### All properties -/

/-- Properties that are applied to a canvas outside any layer show on it as they ask for, and its
clip is the same in whatever way alpha is applied.  The walk goes no further where no level is left,
and where a layer would be reported beyond the widest margin. -/
theorem applyProperties_shows (hv : v.handler = .immediate) (hlayer : s.canvas.layerAlpha = 1) :
    v.applyProperties.Ends s (fun _ t => v.properties.Shows s.canvas t.canvas)
        (fun e _ => (e = .overflow ∧ levelCount ≤ v.level + 1) ∨
          (e = .marginTooWide ∧ v.properties.usesLayer = true ∧
            s.journal.refuses (.layerSaved (v.level + 1) v.properties.alpha) = true)) ∧
      ∀ alpha overlaps, { v.properties with alpha, overlaps }.clipOf = v.properties.clipOf := by
  refine And.intro ?_ fun _ _ => rfl
  unfold applyProperties innerLevel
  dsimp only
  split
  · rw [pure_bind]
    refine Walk.Ends.onCanvas_bind ?_
    have hmoved : (s.onCanvas (transformed v.properties)).canvas =
        s.canvas.moved (v.properties.apply false) := transformed_eq _ _
    refine Walk.Ends.bind ((applyAlpha_fades hv ?_ _).mono (fun _ _ h => h) fun _ _ h => .inr h)
      fun clips t hfades => ?_
    · rw [hmoved]
      exact hlayer
    rw [hmoved] at hfades
    cases clips with
    | true => exact Walk.Ends.bind (give_ends hv hfades.clipRect) fun _ t ht => outline_shows hv ht
    | false => exact outline_shows hv hfades
  · next hlevel => exact Walk.Ends.throw (.inl ⟨rfl, Nat.le_of_not_lt hlevel⟩)

end Visit

/-! ### A window -/

namespace Window

/-- Half transparent, and clipped to a smaller square in it. -/
def glass : Properties :=
  { left := 10, top := 10, right := 50, bottom := 30, alpha := 0.5, clipToOutline := true,
    outline := .roundRect ⟨⟨5, 5⟩, ⟨20, 20⟩⟩ 4 }

def visit : Visit Unit where
  handler := .immediate
  frame := { nodes := {}, projected := ∅, compositing := ∅, reportOps := true }
  descend _ _ := pure ()
  level := 0
  key := ⟨1, 1⟩
  node := ⟨"glass", glass, none⟩
  list := {}

def stage : Stage Unit where
  canvas := .ofSize 100 100
  held := ∅
  recent := ⟨16, #[]⟩
  journal := {}
  gathered := ()

/-- The pane is drawn on a layer, and no more of the square than is in the bounds. -/
theorem applyProperties_shows_glass :
    visit.handler = .immediate ∧ stage.canvas.layerAlpha = 1 ∧
    visit.applyProperties.Ends stage
      (fun _ t => t.canvas.clip = some ⟨⟨15, 15⟩, ⟨20, 15⟩⟩ ∧
        t.canvas.top.alpha * t.canvas.layerAlpha = 127 / 255 ∧ t.canvas.saveCount = 2)
      fun _ _ => False := by
  refine And.intro rfl (And.intro rfl ?_)
  obtain ⟨hends, -⟩ := Visit.applyProperties_shows (v := visit) (s := stage) rfl rfl
  refine Walk.Ends.mono hends (fun _ t ht => ?_) fun e t ht => ?_
  · refine And.intro (ht.clip.trans ?_) (And.intro ((ht.dims.dimmed ?_).trans ?_) ?_)
    · decide +kernel
    · decide +kernel
    · decide +kernel
    · rw [Canvas.saveCount, SaveStack.saveCount_eq, ht.dims.below]
      decide +kernel
  · rcases ht with ⟨-, hlevel⟩ | ⟨-, -, hrefuses⟩
    · exact absurd hlevel (by decide)
    · exact absurd hrefuses (by decide +kernel)

end Window

end RetainedScene
