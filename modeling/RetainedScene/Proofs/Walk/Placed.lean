import RetainedScene.Proofs.Walk.Placement

/-!
# A walk places links as it should

A walk of recorded contents hands out every link under the transform of its placement, and leaves
the states of the canvas as they were (`visit_places`), whatever is held back, whoever carries out
the operations, and whether or not the scene was routed.

What is drawn out of place saves and restores around itself, so that it leaves the states of the
canvas alone (`Visit.Rounds`).  The operations of the content do not, but they mirror what the
content does to transforms by itself, over what was saved before the content
(`Visit.Ready.playOps`).
-/

namespace RetainedScene

variable {ω : Type}

/-! ### Pieces of a walk -/

/-- If the walk comes to its end, it ends as expected. -/
abbrev Walk.EndsAs {α : Type} (m : Walk ω α) (s : Stage ω) (fine : α → Stage ω → Prop) : Prop :=
  m.Ends s fine fun _ _ => True

theorem Walk.lift_bind_endsAs {α β : Type} {result : Except Fatal α} {k : α → Walk ω β}
    {s : Stage ω} {fine : β → Stage ω → Prop}
    (h : ∀ a, result = .ok a → (k a).EndsAs s fine) : (Walk.lift result >>= k).EndsAs s fine := by
  cases result with
  | error fatal => exact Walk.Ends.throw trivial
  | ok a => exact h a rfl

/-- Nothing was seen in between, and the canvas has the same states. -/
structure Stage.Rests (s t : Stage (ω × List Sight)) : Prop where
  stack : t.canvas.stack = s.canvas.stack
  seen : t.seen = s.seen

namespace Visit

/-- From one time to another the node that is walked handed out links, and what was descended into
places its own links. -/
def Hands (v : Visit (ω × List Sight)) (links : List (EdgeRef × Matrix))
    (before after : List Sight) : Prop :=
  ∃ parts : List Part, after = before ++ parts.flatMap (Part.sights v.level v.key) ∧
    parts.filterMap Part.placement? = links ∧
    ∀ ref edge state log, .descent ref edge state log ∈ parts →
      Places v.frame (v.level + 1) edge.child state.snapshot.transform log

/-- Links were handed out, and the canvas has the states that it had before. -/
structure Rounds (v : Visit (ω × List Sight)) (links : List (EdgeRef × Matrix))
    (s t : Stage (ω × List Sight)) : Prop where
  stack : t.canvas.stack = s.canvas.stack
  hands : v.Hands links s.seen t.seen

/-- Links were handed out, and the canvas is over the states that it had at some time, under a
transform. -/
structure Over (v : Visit (ω × List Sight)) (b : SaveStack Snapshot) (transform : Matrix)
    (links : List (EdgeRef × Matrix)) (s t : Stage (ω × List Sight)) : Prop where
  stack : b.IsOver transform t.canvas.stack
  hands : v.Hands links s.seen t.seen

variable {v : Visit (ω × List Sight)} {b : SaveStack Snapshot} {transform : Matrix}
  {links links' : List (EdgeRef × Matrix)} {s t u : Stage (ω × List Sight)}
  {before mid after : List Sight}

theorem Hands.nil (v : Visit (ω × List Sight)) (log : List Sight) : v.Hands [] log log :=
  ⟨[], (List.append_nil _).symm, rfl, fun _ _ _ _ hmem => nomatch hmem⟩

theorem Hands.trans (h : v.Hands links before mid) (h' : v.Hands links' mid after) :
    v.Hands (links ++ links') before after := by
  obtain ⟨parts, hseen, hlinks, hdescent⟩ := h
  obtain ⟨parts', hseen', hlinks', hdescent'⟩ := h'
  refine ⟨parts ++ parts', ?_, ?_, fun ref edge state log hmem => ?_⟩
  · rw [hseen', hseen, List.flatMap_append, List.append_assoc]
  · rw [List.filterMap_append, hlinks, hlinks']
  · exact (List.mem_append.mp hmem).elim (hdescent ref edge state log) (hdescent' _ _ _ _)

/-- No further link was handed out. -/
theorem Hands.trans_nil (h : v.Hands links before mid) (h' : v.Hands [] mid after) :
    v.Hands links before after := List.append_nil links ▸ h.trans h'

/-- An operation that was only handed out. -/
theorem Hands.own (v : Visit (ω × List Sight)) (op : Operation) (state : DisplayState) (held : Bool)
    (log : List Sight) : v.Hands (Part.placement? (.own op state held)).toList log
      (log ++ [.handed v.level v.key op state held]) := by
  refine ⟨[.own op state held], rfl, ?_, fun _ _ _ _ hmem => ?_⟩
  · cases hplacement : Part.placement? (.own op state held) <;> simp [hplacement]
  · cases List.mem_singleton.mp hmem

/-- A link that was handed out and descended into. -/
theorem Hands.descent {ref : EdgeRef} {edge : Edge} {state : DisplayState} {below : List Sight}
    (hbelow : Places v.frame (v.level + 1) edge.child state.snapshot.transform below)
    (log : List Sight) : v.Hands [(ref, state.snapshot.transform)] log
      (log ++ .handed v.level v.key (.child ref edge) state false :: below) := by
  refine ⟨[.descent ref edge state below], ?_, rfl, fun _ _ _ _ hmem => ?_⟩
  · rw [List.flatMap_singleton]
    rfl
  · cases List.mem_singleton.mp hmem
    exact hbelow

theorem Rounds.refl (v : Visit (ω × List Sight)) (s : Stage (ω × List Sight)) : v.Rounds [] s s :=
  ⟨rfl, .nil v _⟩

theorem Rounds.transform_eq (h : v.Rounds links s t) : t.canvas.transform = s.canvas.transform :=
  congrArg (·.top.transform) h.stack

theorem Rounds.trans (h : v.Rounds links s t) (h' : v.Rounds links' t u) :
    v.Rounds (links ++ links') s u := ⟨h'.stack.trans h.stack, h.hands.trans h'.hands⟩

theorem Rounds.of_rests (h : s.Rests t) : v.Rounds [] s t := ⟨h.stack, h.seen ▸ .nil v _⟩

theorem Over.rests (h : v.Over b transform links s t) (ht : t.Rests u) :
    v.Over b transform links s u := ⟨ht.stack ▸ h.stack, ht.seen ▸ h.hands⟩

/-- The walk of a node of recorded content, when what is nested in the node is walked as it should
be. -/
structure Recorded (v : Visit (ω × List Sight)) (h : Handler ω) : Prop where
  neutral : h.Neutral
  carries : h.Carries
  handler : v.handler = h.watched
  node : v.frame.nodes.get? v.key = some v.node
  list : v.node.content = some v.list
  recorded : v.list.IsRecorded
  descend : ∀ key t, (v.descend (v.level + 1) key).EndsAs t fun _ t' =>
    t'.canvas.stack = t.canvas.stack ∧ ∃ log, t'.seen = t.seen ++ log ∧
      Places v.frame (v.level + 1) key t.canvas.transform log

theorem report_rests (v : Visit (ω × List Sight)) (e : Event) (t : Stage (ω × List Sight)) :
    (v.report e).EndsAs t fun _ t' => t.Rests t' :=
  (v.report_ends fun _ => trivial).imp fun _ _ ⟨_, ht⟩ => ht ▸ ⟨rfl, rfl⟩

end Visit

theorem Walk.log_rests (e : Event) (t : Stage (ω × List Sight)) :
    (Walk.log e).EndsAs t fun _ t' => t.Rests t' := Walk.Ends.log ⟨rfl, rfl⟩ fun _ => trivial

theorem Walk.KeepsStates.unseen_rests {m : Walk ω Unit} (hm : m.KeepsStates)
    (s : Stage (ω × List Sight)) : m.unseen.EndsAs s fun _ t => s.Rests t :=
  Walk.Ends.unseen ((hm s.unwatched).imp fun _ _ ht => ⟨ht, rfl⟩)

namespace Handler.Carries

variable {h : Handler ω} (hc : h.Carries)

include hc

theorem enter_ends (level : Nat) (key : Key) (node : Node) (s : Stage (ω × List Sight)) :
    (h.watched.enter level key node).EndsAs s fun _ t =>
      t.canvas.stack = s.canvas.stack ∧ t.seen = s.seen ++ [.entered level key] :=
  Walk.Ends.modify_bind (((hc.enter level key node).unseen_rests _).imp fun _ _ ht =>
    ⟨ht.stack, ht.seen⟩)

theorem leave_ends (level : Nat) (key : Key) (node : Node) (s : Stage (ω × List Sight)) :
    (h.watched.leave level key node).EndsAs s fun _ t =>
      t.canvas.stack = s.canvas.stack ∧ t.seen = s.seen ++ [.left level key] :=
  ((hc.leave level key node).unseen_rests s).bind fun _ _ ht =>
    Walk.Ends.modify ⟨ht.stack, congrArg (· ++ [_]) ht.seen⟩

end Handler.Carries

namespace Visit.Recorded

variable {v : Visit (ω × List Sight)} {h : Handler ω} {links : List (EdgeRef × Matrix)}
  {s t : Stage (ω × List Sight)} {b : SaveStack Snapshot} {transform : Matrix}
  (hv : v.Recorded h)

include hv

theorem accept (op : Operation) (offset : Int) :
    (v.accept op offset).EndsAs t fun _ t' => t'.canvas.stack = (t.canvas.issue offset op).stack ∧
      t'.held = t.held ∧ t'.seen = t.seen ++
        [.handed v.level v.key op t.canvas.displayState (op.isHeld t.held)] := by
  unfold Visit.accept
  rw [hv.handler]
  exact Walk.Ends.modify ⟨hv.carries.accept _ _ _ _ _ _, hv.neutral.held _ _ _ _ _ _, rfl⟩

omit hv in
theorem innerLevel : v.innerLevel.EndsAs t fun inner t' => inner = v.level + 1 ∧ t' = t := by
  unfold Visit.innerLevel
  split
  · exact Walk.Ends.pure ⟨rfl, rfl⟩
  · exact Walk.Ends.throw trivial

/-! ### Links -/

/-- A link is handed out under the transform in force, whether or not it is descended into. -/
theorem offer_child (ref : EdgeRef) (edge : Edge) (offset : Int) :
    (v.offer (.child ref edge) offset).EndsAs t fun _ t' =>
      v.Rounds [(ref, t.canvas.transform)] t t' := by
  unfold Visit.offer
  refine (hv.accept _ _).bind fun _ t₁ ⟨hstack, hheld, hseen⟩ => Walk.Ends.get_bind ?_
  cases hcontains : t.held.contains ref with
  | true =>
    rw [hheld, hcontains]
    exact Walk.Ends.pure ⟨hstack, hseen ▸ .own v (.child ref edge) _ _ _⟩
  | false =>
    have hfree : (Operation.child ref edge).isHeld t.held = false := hcontains
    rw [hheld, hcontains]
    refine innerLevel.bind fun inner t₂ ⟨hinner, ht₂⟩ => ?_
    subst hinner ht₂
    refine (hv.descend edge.child t₂).imp fun _ t₃ ⟨hstack', log, hlog, hplaces⟩ => ?_
    -- the canvas is still as it was when the link was handed out
    have htransform : t₂.canvas.transform = t.canvas.transform := congrArg (·.top.transform) hstack
    have hbelow : Places v.frame (v.level + 1) edge.child t.canvas.transform log :=
      htransform ▸ hplaces
    refine ⟨hstack'.trans hstack, ?_⟩
    rw [hlog, hseen, hfree, List.append_assoc]
    exact .descent hbelow t.seen

/-- A child that is placed out of order is handed out under the transform in force times its own. -/
theorem place (ref : EdgeRef) (edge : Edge) (m : Matrix) :
    (v.place ref edge m).EndsAs t fun _ t' => v.Rounds [(ref, t.canvas.transform * m)] t t' := by
  unfold Visit.place
  refine Walk.Ends.saveCount_bind (Walk.Ends.onCanvas_bind (Walk.Ends.modify_bind
    (Walk.Ends.saveCount_bind ?_)))
  refine (hv.offer_child ref edge _).bind fun _ t₁ hround =>
    Walk.Ends.modify_bind (Walk.Ends.onCanvas ⟨?_, hround.hands⟩)
  have hover : t.canvas.stack.IsOver (t.canvas.transform * m) t₁.canvas.stack :=
    hround.stack ▸ Canvas.isOver_concat (c := t.canvas.save .matrix) (.save t.canvas.stack) m
  exact hover.saved.restoreTo

/-! ### Operations of properties -/

theorem give (op : PropertyOp) (hop : ∀ count, op ≠ .restoreTo count)
    (ht : v.Over b transform links s t) :
    (v.give op).EndsAs t fun _ t' => v.Over b transform links s t' := by
  refine (hv.accept (.property op) 0).imp fun _ t' ⟨hstack, _, hseen⟩ => ⟨?_, ?_⟩
  · rw [hstack]
    exact Canvas.isOver_issueProperty ht.stack hop 0
  · rw [hseen]
    exact ht.hands.trans_nil (.own v (.property op) _ _ _)

theorem give_restoreTo (ht : b.IsOver transform t.canvas.stack) :
    (v.give (.restoreTo b.saveCount)).EndsAs t fun _ t' =>
      t'.canvas.stack = b ∧ v.Hands [] t.seen t'.seen := by
  refine (hv.accept (.property (.restoreTo b.saveCount)) 0).imp fun _ t' ⟨hstack, _, hseen⟩ =>
    ⟨?_, hseen ▸ .own v (.property _) _ _ _⟩
  rw [hstack]
  show t.canvas.stack.restoreTo (0 + b.saveCount) = b
  rw [Int.zero_add]
  exact ht.saved.restoreTo

theorem applyAlpha (inner : Nat) (ht : v.Over b transform links s t) :
    (v.applyAlpha inner).EndsAs t fun _ t' => v.Over b transform links s t' := by
  unfold Visit.applyAlpha
  dsimp only
  split
  · split
    · exact Walk.Ends.onCanvas_bind (Walk.Ends.pure ⟨ht.stack, ht.hands⟩)
    · split
      · have hstack : b.IsOver transform (t.canvas.scaleAlpha v.properties.alpha).stack :=
          ht.stack.adjust rfl ht.stack.transform_eq
        exact Walk.Ends.onCanvas_bind (Walk.Ends.pure ⟨hstack, ht.hands⟩)
      · refine (Walk.log_rests _ t).bind fun _ t₁ ht₁ => ?_
        refine (hv.give _ (fun _ => PropertyOp.noConfusion) (ht.rests ht₁)).bind fun _ _ ht => ?_
        exact Walk.Ends.pure ht
  · exact Walk.Ends.pure ht

theorem applyProperties (ht : v.Over b transform links s t) :
    v.applyProperties.EndsAs t fun _ t' =>
      v.Over b (v.properties.apply false transform) links s t' := by
  unfold Visit.applyProperties
  refine innerLevel.bind fun inner t₁ ⟨hinner, ht₁⟩ => ?_
  subst hinner ht₁
  have ht : v.Over b (v.properties.apply false transform) links s
      (t₁.onCanvas (transformed v.properties)) :=
    ⟨Canvas.isOver_transformed ht.stack v.properties, ht.hands⟩
  refine Walk.Ends.onCanvas_bind ((hv.applyAlpha _ ht).bind fun clips _ ht => ?_)
  dsimp only
  split <;> split
  · exact (hv.give _ (fun _ => PropertyOp.noConfusion) ht).bind fun _ _ ht =>
      hv.give _ (fun _ => PropertyOp.noConfusion) ht
  · exact (hv.give _ (fun _ => PropertyOp.noConfusion) ht).bind fun _ _ ht => Walk.Ends.pure ht
  · exact hv.give _ (fun _ => PropertyOp.noConfusion) ht
  · exact Walk.Ends.pure ht

/-! ### Passes -/

/-- What is drawn under a clip begins under the transform in force. -/
theorem clipped (mode : ClipMode) {body : Walk (ω × List Sight) Unit}
    (hbody : ∀ t', t'.canvas.transform = t.canvas.transform →
      body.EndsAs t' fun _ t'' => v.Rounds links t' t'') :
    (v.clipped mode body).EndsAs t fun _ t' => v.Rounds links t t' := by
  unfold Visit.clipped
  refine Walk.Ends.saveCount_bind (Walk.Ends.onCanvas_bind ?_)
  have hsaved : v.Over t.canvas.stack t.canvas.transform [] t
      (t.onCanvas (·.save .matrixClip)) := ⟨.save t.canvas.stack, .nil v _⟩
  refine (hv.give _ (fun _ => PropertyOp.noConfusion) hsaved).bind fun _ t₁ ht₁ => ?_
  refine (hbody t₁ ht₁.stack.transform_eq).bind fun _ t₂ hround => ?_
  refine (hv.give_restoreTo (hround.stack ▸ ht₁.stack)).imp fun _ t₃ ⟨hstack, hhands⟩ => ?_
  exact ⟨hstack, (ht₁.hands.trans hround.hands).trans_nil hhands⟩

omit hv in
/-- What is drawn one after another begins under the same transform. -/
theorem forM {γ : Type} {k : γ → Walk (ω × List Sight) Unit} {g : γ → List (EdgeRef × Matrix)}
    {l : List γ} (hk : ∀ x ∈ l, ∀ t, t.canvas.transform = transform →
      (k x).EndsAs t fun _ t' => v.Rounds (g x) t t') (ht : t.canvas.transform = transform) :
    (l.forM k).EndsAs t fun _ t' => v.Rounds (l.flatMap g) t t' := by
  induction l generalizing t with
  | nil => exact Walk.Ends.pure (.refl v t)
  | cons x l ih =>
    -- what was drawn first left the transform as it was, so the others begin under it too
    refine (hk x List.mem_cons_self t ht).bind fun _ t₁ hround => ?_
    refine (ih (fun y hy => hk y (List.mem_cons_of_mem _ hy))
      (hround.transform_eq.trans ht)).imp fun _ t₂ hrest => ?_
    exact hround.trans hrest

theorem drawBelow (sorted : List Sibling) : (v.drawBelow sorted).EndsAs t fun _ t' =>
    v.Rounds ((Sibling.below sorted).map fun c => (c.ref, t.canvas.transform * c.edge.transform))
      t t' := by
  unfold Visit.drawBelow
  split
  · refine hv.clipped _ fun t' ht' => ?_
    rw [List.map_eq_flatMap]
    refine forM (fun c _ t'' ht'' => ?_) ht'
    exact ht'' ▸ hv.place c.ref c.edge c.edge.transform
  · next hreaches =>
    rw [Sibling.below_eq_nil (Bool.not_eq_true _ ▸ hreaches)]
    exact Walk.Ends.pure (.refl v t)

/-- A shadow hands out no link. -/
theorem shadow (c : Sibling) : (v.take (.shadow c)).EndsAs t fun _ t' => v.Rounds [] t t' := by
  unfold Visit.take
  dsimp only
  cases c.shadow? with
  | some shadow =>
    refine (hv.accept (.property (.shadow shadow)) 0).imp fun _ t' ⟨hstack, _, hseen⟩ => ?_
    exact ⟨hstack, hseen ▸ .own v (.property (.shadow shadow)) _ _ _⟩
  | none => exact Walk.Ends.pure (.refl v t)

theorem drawAbove {sorted : List Sibling}
    (hsorted : sorted.Pairwise fun a b => Sibling.comesBefore a b) :
    (v.drawAbove sorted).EndsAs t fun _ t' => v.Rounds
      ((Sibling.above sorted).map fun c => (c.ref, t.canvas.transform * c.edge.transform))
      t t' := by
  unfold Visit.drawAbove
  split
  · refine hv.clipped _ fun t' ht' => ?_
    -- the turns are the children in their order, with shadows in between
    rw [List.map_eq_flatMap, ← Sibling.flatMap_schedule]
    refine forM (fun turn _ t'' ht'' => ?_) ht'
    cases turn with
    | shadow c => exact hv.shadow c
    | content c =>
      simp only [Sibling.Turn.content?, Option.toList_some, List.flatMap_singleton]
      exact ht'' ▸ hv.place c.ref c.edge c.edge.transform
  · next hreaches =>
    rw [Sibling.above_eq_nil hsorted (Bool.not_eq_true _ ▸ hreaches)]
    exact Walk.Ends.pure (.refl v t)

theorem placeProjected (ref : EdgeRef) : (v.placeProjected ref).EndsAs t fun _ t' =>
    v.Rounds [(ref, t.canvas.transform * v.frame.compositingOf ref)] t t' := by
  unfold Visit.placeProjected
  exact Walk.lift_bind_endsAs fun edge _ => hv.place ref edge _

/-- The receiver places what is projected to it from the transform in force at the receive point. -/
theorem receive (index : Nat) : (v.receive index).EndsAs t fun _ t' => v.Rounds
    (if v.list.receiveIndex = some index then v.frame.receivedUnder v.key t.canvas.transform
      else []) t t' := by
  unfold Visit.receive
  split_ifs with hboth hindex hindex
  · unfold Visit.drawProjected
    refine hv.clipped _ fun t' ht' => (Walk.log_rests _ t').bind fun _ t₁ ht₁ => ?_
    have htransform : t₁.canvas.transform = t.canvas.transform :=
      (Rounds.of_rests (v := v) ht₁).transform_eq.trans ht'
    unfold Frame.receivedUnder
    rw [List.map_eq_flatMap]
    refine (forM (fun ref _ t'' ht'' => ?_) htransform).imp fun _ _ hround =>
      (Rounds.of_rests ht₁).trans hround
    exact ht'' ▸ hv.placeProjected ref
  · exact absurd hboth.1 hindex
  · have hnone : v.frame.projectedAt v.key = [] := by
      by_contra hne
      exact hboth ⟨hindex, hne⟩
    rw [Frame.receivedUnder, hnone]
    exact Walk.Ends.pure (.refl v t)
  · exact Walk.Ends.pure (.refl v t)

/-! ### Content -/

variable {m : SaveStack Matrix} {base : List Snapshot} {start : Matrix} {i : Nat}

/-- No operation of recorded content draws a link that is not there. -/
theorem exists_operation {op : DrawOp} (hop : op ∈ v.list.ops.toList) :
    ∃ operation, v.operation op = .ok operation := by
  cases op with
  | child k =>
    have hk : k < v.list.children.size := hv.recorded.wellLinked.child_mem_iff.mp hop
    refine ⟨.child ⟨v.key, k⟩ v.list.children[k], ?_⟩
    simp [Visit.operation, Array.getElem?_eq_getElem hk]
  | _ => exact ⟨_, rfl⟩

/-- A recorded operation does to the transforms of the canvas what it does by itself. -/
theorem offer_operation {op : DrawOp} {operation : Operation}
    (hoperation : v.operation op = .ok operation) (hop : v.list.ops.toList[i]? = some op)
    (ht : t.canvas.stack.Mirrors (v.list.transformsAfter start i) base) :
    (v.offer operation base.length).EndsAs t fun _ t' =>
      t'.canvas.stack.Mirrors (v.list.transformsAfter start (i + 1)) base ∧
        v.Hands (op.child?.map fun k => (⟨v.key, k⟩, v.list.transformAfter start i)).toList
          t.seen t'.seen := by
  obtain ⟨depth, hdepth⟩ := hv.recorded.isBalanced.exists_saves? start hop
  rw [DisplayList.transformsAfter_succ hop]
  have hrecorded (hrecorded : operation = .recorded op v.list) (hchild : op.child? = none) :
      (v.offer operation base.length).EndsAs t fun _ t' =>
        t'.canvas.stack.Mirrors (v.list.move (v.list.transformsAfter start i) op) base ∧
          v.Hands (op.child?.map fun k => (⟨v.key, k⟩, v.list.transformAfter start i)).toList
            t.seen t'.seen := by
    rw [hrecorded, hchild]
    unfold Visit.offer
    refine (hv.accept (.recorded op v.list) base.length).bind fun _ t' ⟨hstack, _, hseen⟩ => ?_
    exact Walk.Ends.pure ⟨hstack ▸ ht.issueRecorded hdepth,
      hseen ▸ .own v (.recorded op v.list) _ _ _⟩
  cases op with
  | child k =>
    simp only [Visit.operation] at hoperation
    split at hoperation
    · next edge hedge =>
      cases hoperation
      refine (hv.offer_child ⟨v.key, k⟩ edge base.length).imp fun _ t' hround => ?_
      have htop : t.canvas.transform = v.list.transformAfter start i := ht.top
      exact ⟨hround.stack ▸ ht, htop ▸ hround.hands⟩
    · cases hoperation
  | _ => exact hrecorded (Except.ok.inj hoperation).symm rfl

/-- At a recorded operation its link is handed out, and what is projected to the node. -/
theorem playOp {op : DrawOp} (hop : v.list.ops.toList[i]? = some op)
    (ht : t.canvas.stack.Mirrors (v.list.transformsAfter start i) base) :
    (v.playOp base.length op i).EndsAs t fun _ t' =>
      t'.canvas.stack.Mirrors (v.list.transformsAfter start (i + 1)) base ∧
        v.Hands (v.frame.placementsAt v.key v.list start op i) t.seen t'.seen := by
  obtain ⟨operation, hoperation⟩ := hv.exists_operation (List.mem_of_getElem? hop)
  unfold Visit.playOp
  refine (v.report_rests _ t).bind fun _ t₁ ht₁ => Walk.Ends.modify_bind ?_
  rw [hoperation]
  have ht : (t₁.logOp v.level op.name).canvas.stack.Mirrors
      (v.list.transformsAfter start i) base := ht₁.stack ▸ ht
  refine (hv.offer_operation hoperation hop ht).bind fun _ t₂ ⟨hmirrors, hhands⟩ => ?_
  have htop : t₂.canvas.transform = v.list.transformAfter start (i + 1) := hmirrors.top
  refine (hv.receive i).imp fun _ t₃ hround => ⟨hround.stack ▸ hmirrors, ?_⟩
  have hall := hhands.trans hround.hands
  rw [htop] at hall
  exact ht₁.seen ▸ hall

/-- All operations, from one of them on. -/
theorem playOps {ops : List DrawOp} (hops : v.list.ops.toList.drop i = ops)
    (ht : t.canvas.stack.Mirrors (v.list.transformsAfter start i) base) :
    ((ops.zipIdx i).forM fun (op, index) => v.playOp base.length op index).EndsAs t fun _ t' =>
      t'.canvas.stack.Mirrors (v.list.transformsAfter start (i + ops.length)) base ∧
        v.Hands ((ops.zipIdx i).flatMap fun (op, index) =>
          v.frame.placementsAt v.key v.list start op index) t.seen t'.seen := by
  induction ops generalizing i t with
  | nil => exact Walk.Ends.pure ⟨ht, .nil v _⟩
  | cons op ops ih =>
    have hop : v.list.ops.toList[i]? = some op := by
      rw [← List.head?_drop, hops]
      rfl
    have hrest : v.list.ops.toList.drop (i + 1) = ops := by
      rw [← List.tail_drop, hops]
      rfl
    refine (hv.playOp hop ht).bind fun _ t₁ ⟨hmirrors, hhands⟩ => ?_
    refine (ih hrest hmirrors).imp fun _ t₂ ⟨hmirrors', hhands'⟩ => ⟨?_, hhands.trans hhands'⟩
    rw [List.length_cons, ← Nat.add_assoc, Nat.add_right_comm]
    exact hmirrors'

/-- The content of a node hands out its placements, and leaves the canvas under the transform that
its operations come to. -/
theorem drawContent (ht : v.Over b start [] s t) :
    v.drawContent.EndsAs t fun _ t' =>
      v.Over b (v.list.transformAfter start v.list.ops.size)
        (v.frame.placements v.key v.list start) s t' := by
  unfold Visit.drawContent
  refine Walk.lift_bind_endsAs fun siblings hsiblings => Walk.Ends.modify_bind ?_
  obtain rfl := NodeStore.eq_children_of_siblings hv.node hv.list hsiblings
  dsimp only
  -- the walk sorts by insertion, the placements are as the library sorts
  rw [Sibling.elevated_eq (NodeStore.pairwise_children v.frame.nodes v.key)]
  have ht : v.Over b start [] s
      { t with held := Sibling.holdElevated (v.frame.nodes.children v.key) t.held } :=
    ⟨ht.stack, ht.hands⟩
  generalize { t with held := Sibling.holdElevated (v.frame.nodes.children v.key) t.held } = t at ht
  have hbegin : t.canvas.transform = start := ht.stack.transform_eq
  refine (hv.drawBelow _).bind fun _ t₁ hbelow => Walk.Ends.saveCount_bind ?_
  rw [hbegin] at hbelow
  have hoffset : (t₁.canvas.saveCount : Int) - 1 = t₁.canvas.stack.below.length := by
    rw [Canvas.saveCount, SaveStack.saveCount_eq]
    omega
  have hmirrors : t₁.canvas.stack.Mirrors (v.list.transformsAfter start 0)
      t₁.canvas.stack.below := hbelow.transform_eq.trans hbegin ▸ .ofTop t₁.canvas.stack
  rw [hoffset]
  refine (hv.playOps rfl hmirrors).bind fun _ t₂ ⟨hmirrors, hplayed⟩ => ?_
  have hplayedAll : t₂.canvas.stack.Mirrors (v.list.transformsAfter start v.list.ops.size)
      t₁.canvas.stack.below := by simpa using hmirrors
  have hend : t₂.canvas.transform = v.list.transformAfter start v.list.ops.size := hplayedAll.top
  refine (hv.drawAbove (Sibling.pairwise_byHeight _)).imp fun _ t₃ habove => ⟨?_, ?_⟩
  · -- what was saved before the content is still saved after it
    have hbase : b.top :: b.below <:+ t₁.canvas.stack.below := hbelow.stack ▸ ht.stack.saved
    rw [habove.stack]
    exact hplayedAll.isOver hbase
  · rw [hend] at habove
    exact ht.hands.trans ((hbelow.hands.trans hplayed).trans habove.hands)

end Visit.Recorded

/-! ### The whole visit -/

namespace Visit

/-- What was seen of the visit of a node, begun under a transform: that the node placed its links,
or that its bounds were rejected. -/
def Placed (v : Visit (ω × List Sight)) (transform : Matrix) (before after : List Sight) : Prop :=
  v.Hands (v.frame.placements v.key v.list (v.properties.apply false transform)) before after ∨
    ∃ mid state, v.node.isRejectedIn state = true ∧ v.Hands [] before mid ∧
      v.Hands [] (mid ++ [.rejected v.level v.key state]) after

variable {v : Visit (ω × List Sight)} {h : Handler ω} {transform : Matrix}
  {before mid after : List Sight} {b : SaveStack Snapshot} {s t : Stage (ω × List Sight)}

theorem Placed.trans_nil (hp : v.Placed transform before mid) (h : v.Hands [] mid after) :
    v.Placed transform before after := by
  rcases hp with hplaced | ⟨_, _, hrejected, hbefore, hafter⟩
  · exact .inl (hplaced.trans_nil h)
  · exact .inr ⟨_, _, hrejected, hbefore, hafter.trans_nil h⟩

/-- What is seen between entering and leaving a node that has placed its links. -/
theorem Placed.places (hp : v.Placed transform before after)
    (hnode : v.frame.nodes.get? v.key = some v.node) (hlist : v.node.shown? = some v.list) :
    ∃ log, after = before ++ log ∧ Places v.frame v.level v.key transform
      (.entered v.level v.key :: (log ++ [.left v.level v.key])) := by
  rcases hp with ⟨parts, hseen, hlinks, hdescent⟩ | ⟨mid, state, hrejected, hbefore, hafter⟩
  · exact ⟨_, hseen, .drawn hnode hlist hlinks hdescent⟩
  · obtain ⟨parts, hseen, hlinks, -⟩ := hbefore
    obtain ⟨parts', hseen', hlinks', -⟩ := hafter
    refine ⟨parts.flatMap (Part.sights v.level v.key) ++ .rejected v.level v.key state ::
      parts'.flatMap (Part.sights v.level v.key), ?_, ?_⟩
    · rw [hseen', hseen]
      simp
    · have hplaces : Places v.frame v.level v.key transform _ :=
        .rejected hnode (Option.isSome_iff_exists.mpr ⟨_, hlist⟩) hrejected hlinks hlinks'
      simpa using hplaces

namespace Recorded

variable (hv : v.Recorded h)

include hv

theorem drawUnlessRejected (ht : v.Over b (v.properties.apply false transform) [] s t) :
    v.drawUnlessRejected.EndsAs t fun _ t' =>
      (∃ m, b.IsOver m t'.canvas.stack) ∧ v.Placed transform s.seen t'.seen := by
  unfold Visit.drawUnlessRejected Visit.isRejected
  refine Walk.Ends.get_bind ?_
  split
  · next hrejected =>
    refine (v.report_rests _ t).bind fun _ t₁ ht₁ => ?_
    rw [hv.handler]
    refine Walk.Ends.modify_bind ?_
    refine ((hv.carries.reject v.level v.key v.node).unseen_rests _).imp fun _ t₂ ht₂ => ?_
    refine ⟨⟨_, ht₂.stack ▸ (ht.rests ht₁).stack⟩,
      .inr ⟨t₁.seen, t₁.canvas.displayState, ?_, (ht.rests ht₁).hands, ?_⟩⟩
    · rw [Node.isRejectedIn_displayState, ht₁.stack]
      exact hrejected
    rw [ht₂.seen]
    exact .nil v _
  · exact (hv.drawContent ht).imp fun _ t₁ ht₁ => ⟨⟨_, ht₁.stack⟩, .inl ht₁.hands⟩

/-- The walk of the node, once it was entered, leaves the states of the canvas as they were. -/
theorem run : v.run.EndsAs s fun _ t =>
    t.canvas.stack = s.canvas.stack ∧ v.Placed s.canvas.transform s.seen t.seen := by
  unfold Visit.run
  refine Walk.Ends.get_bind ((v.report_rests _ s).bind fun _ t₁ ht₁ => ?_)
  refine Walk.Ends.saveCount_bind ?_
  have hsave : (v.give (.save .matrixClip)).EndsAs t₁ fun _ t =>
      v.Over t₁.canvas.stack t₁.canvas.transform [] t₁ t := by
    refine (hv.accept (.property (.save .matrixClip)) 0).imp fun _ t ⟨hstack, _, hseen⟩ => ⟨?_, ?_⟩
    · exact hstack ▸ .save t₁.canvas.stack
    · exact hseen ▸ .own v (.property (.save .matrixClip)) _ _ _
  refine hsave.bind fun _ t₂ ht₂ => (Walk.log_rests _ t₂).bind fun _ t₃ ht₃ => ?_
  refine (hv.applyProperties (ht₂.rests ht₃)).bind fun _ t₄ ht₄ => ?_
  refine (hv.drawUnlessRejected ht₄).bind fun _ t₅ ⟨⟨m, hover⟩, hplaced⟩ => ?_
  -- whatever the content left in force, the states from before the visit are still saved
  refine (Walk.log_rests _ t₅).bind fun _ t₆ ht₆ => ?_
  have hover : t₁.canvas.stack.IsOver m t₆.canvas.stack := ht₆.stack ▸ hover
  refine (hv.give_restoreTo hover).bind fun _ t₇ ⟨hstack, hhands⟩ =>
    Walk.Ends.onCanvas ⟨hstack.trans ht₁.stack, ?_⟩
  have htransform : t₁.canvas.transform = s.canvas.transform := congrArg (·.top.transform) ht₁.stack
  rw [← htransform, ← ht₁.seen]
  exact hplaced.trans_nil (ht₆.seen ▸ hhands)

end Recorded

end Visit

/-! ### Walks -/

/-- All contents come from recorders. -/
def NodeStore.AllRecorded (nodes : NodeStore) : Prop :=
  ∀ key node list, nodes.get? key = some node → node.content = some list → list.IsRecorded

/-- A walk of recorded contents that comes to its end has handed out every link as it is placed, and
leaves the states of the canvas as they were. -/
theorem visit_places {h : Handler ω} (hn : h.Neutral) (hc : h.Carries) {f : Frame}
    (hrecorded : f.nodes.AllRecorded) (levels level : Nat) (key : Key)
    (s : Stage (ω × List Sight)) : (visit h.watched f levels level key).EndsAs s fun _ t =>
      t.canvas.stack = s.canvas.stack ∧
        ∃ log, t.seen = s.seen ++ log ∧ Places f level key s.canvas.transform log := by
  induction levels generalizing level key s with
  | zero => exact Walk.Ends.throw trivial
  | succ levels ih =>
    unfold visit
    refine Walk.lift_bind_endsAs fun node hnode => ?_
    have hnode := NodeStore.node_eq_ok_iff.mp hnode
    refine (hc.enter_ends level key node s).bind fun _ t₁ ⟨hstack₁, hseen₁⟩ => ?_
    have htransform : t₁.canvas.transform = s.canvas.transform := congrArg (·.top.transform) hstack₁
    have hleave (t₂ : Stage (ω × List Sight)) (hstack₂ : t₂.canvas.stack = t₁.canvas.stack)
        (log : List Sight) (hseen₂ : t₂.seen = t₁.seen ++ log)
        (hplaces : Places f level key s.canvas.transform
          (.entered level key :: (log ++ [.left level key]))) :
        (h.watched.leave level key node).EndsAs t₂ fun _ t => t.canvas.stack = s.canvas.stack ∧
          ∃ log, t.seen = s.seen ++ log ∧ Places f level key s.canvas.transform log := by
      refine (hc.leave_ends level key node t₂).imp fun _ t₃ ⟨hstack₃, hseen₃⟩ => ?_
      refine ⟨hstack₃.trans (hstack₂.trans hstack₁), _, ?_, hplaces⟩
      rw [hseen₃, hseen₂, hseen₁]
      simp
    dsimp only
    cases hlist : node.shown? with
    | none =>
      refine (Walk.log_rests _ t₁).bind fun _ t₂ ht₂ => ?_
      exact hleave t₂ ht₂.stack [] (by rw [ht₂.seen, List.append_nil]) (.blank hnode hlist)
    | some list =>
      have hcontent := Node.content_of_shown? hlist
      have hv : Visit.Recorded ⟨h.watched, f, visit h.watched f levels, level, key, node, list⟩ h :=
        ⟨hn, hc, rfl, hnode, hcontent, hrecorded key node list hnode hcontent,
          fun child t => ih (level + 1) child t⟩
      refine hv.run.bind fun _ t₂ ⟨hstack₂, hplaced⟩ => ?_
      obtain ⟨log, hseen₂, hplaces⟩ := hplaced.places hnode hlist
      exact hleave t₂ hstack₂ log hseen₂ (htransform ▸ hplaces)

end RetainedScene
