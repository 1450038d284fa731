import RetainedScene.Proofs.Walk.Kept

/-!
# Drawing follows the agenda

Which links are held back changes all through a walk: sorting holds back the elevated children, and
a child that is drawn out of place is let go for its draw and held back again.  Yet wherever the
walk reads it, it is what the nodes alone say, so that every node is drawn as its agenda says
(`visit_follows`).

What carries the proof is that below the node that is walked all links that project are held back
(`Frame.Settled`), that of its own links the others are held back exactly when they are elevated
(`Frame.Classified`), and that the walk of a node changes nothing about links from nodes that it
does not reach (`Frame.Kept`).  In an acyclic scene the link that a node was descended into by is
one of those.
-/

namespace RetainedScene

open Relation

variable {ω : Type}

theorem filter_map_eq_flatMap {α β : Type} (p : β → Bool) (f : α → β) (l : List α) :
    (l.map f).filter p = l.flatMap fun a => [f a].filter p := by
  induction l with
  | nil => rfl
  | cons a l ih =>
    rw [List.map_cons, List.flatMap_cons, ← ih, ← List.filter_append]
    rfl

/-! ### Parts -/

/-- What the walk of a node at a level comes to. -/
structure Visited (f : Frame) (level : Nat) (key : Key) (s t : Stage (ω × List Sight)) : Prop where
  log : ∃ log, t.seen = s.seen ++ log ∧ Follows f level key log
  kept : f.Kept key s t

/-- Parts in which all that is descended into is drawn as it should be. -/
structure Frame.Parts (f : Frame) (level : Nat) (key : Key) (parts : List Part) : Prop where
  own : ∀ op state held, .own op state held ∈ parts → held = op.isChild
  edge : ∀ ref edge state log, .descent ref edge state log ∈ parts →
    f.nodes.Reaches key ref.parent ∧ f.nodes.edge ref = .ok edge
  descent : ∀ ref edge state log, .descent ref edge state log ∈ parts →
    Follows f (level + 1) edge.child log

namespace Frame

variable {f : Frame} {level : Nat} {key : Key} {parts parts' : List Part}

theorem Parts.nil : f.Parts level key [] := by constructor <;> simp

theorem Parts.append (h : f.Parts level key parts) (h' : f.Parts level key parts') :
    f.Parts level key (parts ++ parts') where
  own op state held hmem := (List.mem_append.mp hmem).elim (h.own op state held) (h'.own _ _ _)
  edge ref edge state log hmem :=
    (List.mem_append.mp hmem).elim (h.edge ref edge state log) (h'.edge _ _ _ _)
  descent ref edge state log hmem :=
    (List.mem_append.mp hmem).elim (h.descent ref edge state log) (h'.descent _ _ _ _)

theorem Parts.single_own (op : Operation) (state : DisplayState) :
    f.Parts level key [.own op state op.isChild] where
  own op' state' held hmem := by
    cases List.mem_singleton.mp hmem
    rfl
  edge ref edge state log hmem := by cases List.mem_singleton.mp hmem
  descent ref edge state log hmem := by cases List.mem_singleton.mp hmem

theorem Parts.single_descent {ref : EdgeRef} {edge : Edge} {log : List Sight}
    (hparent : f.nodes.Reaches key ref.parent) (hedge : f.nodes.edge ref = .ok edge)
    (hlog : Follows f (level + 1) edge.child log) (state : DisplayState) :
    f.Parts level key [.descent ref edge state log] where
  own op state held hmem := by cases List.mem_singleton.mp hmem
  edge ref' edge' state' log' hmem := by
    cases List.mem_singleton.mp hmem
    exact ⟨hparent, hedge⟩
  descent ref' edge' state' log' hmem := by
    cases List.mem_singleton.mp hmem
    exact hlog

end Frame

/-! ### Visits -/

namespace Visit

/-- The walk of a node in a frame that was routed, when what is nested in the node is walked as it
should be. -/
structure Ready (v : Visit (ω × List Sight)) (h : Handler ω) (bound : Nat) : Prop where
  neutral : h.Neutral
  handler : v.handler = h.watched
  sound : v.frame.Sound v.key
  level : v.level < bound
  node : v.frame.nodes.get? v.key = some v.node
  list : v.node.content = some v.list
  descend : ∀ key s, TransGen v.frame.nodes.Leads v.key key → v.frame.Settled key s.held →
    (v.descend (v.level + 1) key).Ends s (fun _ t => Visited v.frame (v.level + 1) key s t)
      fun e _ => e.IsLimit bound

/-- Up to here only operations of the node's properties were handed out. -/
structure Dressed (v : Visit (ω × List Sight)) (s t : Stage (ω × List Sight)) : Prop where
  parts : ∃ parts, (∀ part ∈ parts, part.isProperty) ∧ v.frame.Parts v.level v.key parts ∧
    t.seen = s.seen ++ parts.flatMap (Part.sights v.level v.key)
  held : t.held = s.held

/-- Up to here the walk of the node's content has taken the steps. -/
structure Ongoing (v : Visit (ω × List Sight)) (s : Stage (ω × List Sight)) (steps : List Step)
    (t : Stage (ω × List Sight)) : Prop where
  parts : ∃ parts, v.frame.Parts v.level v.key parts ∧
    t.seen = s.seen ++ parts.flatMap (Part.sights v.level v.key) ∧
    parts.flatMap (Part.steps v.frame.nodes) = steps
  kept : v.frame.Kept v.key s t
  classified : v.frame.Classified v.key t.held

variable {v : Visit (ω × List Sight)} {h : Handler ω} {bound : Nat}
  {s t t' : Stage (ω × List Sight)} {steps : List Step} {ref : EdgeRef} {edge : Edge}

theorem Dressed.idle (hd : v.Dressed s t) (ht : t.Unmoved t') : v.Dressed s t' where
  parts := by rw [ht.2]; exact hd.parts
  held := ht.1.trans hd.held

theorem Ongoing.idle (ho : v.Ongoing s steps t) (ht : t.Unmoved t') : v.Ongoing s steps t' where
  parts := by rw [ht.2]; exact ho.parts
  kept := ⟨ht.1 ▸ ho.kept.settled, fun ref href => by rw [ht.1]; exact ho.kept.apart ref href⟩
  classified := ht.1 ▸ ho.classified

namespace Ready

variable (hv : v.Ready h bound)

include hv

theorem accept (op : Operation) (offset : Int) :
    (v.accept op offset).Ends t (fun _ t' => t'.held = t.held ∧
        t'.seen = t.seen ++
          [.handed v.level v.key op t.canvas.displayState (op.isHeld t.held)])
      fun e _ => e.IsLimit bound := by
  unfold Visit.accept
  rw [hv.handler]
  exact Walk.Ends.modify ⟨hv.neutral.held _ _ _ _ _ _, rfl⟩

theorem innerLevel : v.innerLevel.Ends t (fun inner t' => inner = v.level + 1 ∧ t' = t)
    fun e _ => e.IsLimit bound := by
  unfold Visit.innerLevel
  split
  · exact Walk.Ends.pure ⟨rfl, rfl⟩
  · next hlevel =>
    have := hv.level
    unfold levelCount at hlevel
    exact Walk.Ends.throw ⟨rfl, by omega⟩

/-- A child that is not held back is descended into. -/
theorem offer_free (hfree : ref ∉ t.held)
    (hbelow : TransGen v.frame.nodes.Leads v.key edge.child)
    (hsettled : v.frame.Settled edge.child t.held) (offset : Int) :
    (v.offer (.child ref edge) offset).Ends t (fun _ t' => v.frame.Kept edge.child t t' ∧
        ∃ state log, Follows v.frame (v.level + 1) edge.child log ∧
          t'.seen = t.seen ++ Part.sights v.level v.key (.descent ref edge state log))
      fun e _ => e.IsLimit bound := by
  unfold Visit.offer
  refine (hv.accept _ _).bind fun _ t₁ ⟨hheld, hseen⟩ => Walk.Ends.get_bind ?_
  have hcontains : t.held.contains ref = false := by
    rwa [← Bool.not_eq_true, Std.ExtTreeSet.contains_iff_mem]
  rw [hheld, hcontains]
  refine hv.innerLevel.bind fun inner t₂ ⟨hinner, ht₂⟩ => ?_
  subst hinner ht₂
  refine (hv.descend edge.child t₂ hbelow (hheld ▸ hsettled)).imp fun _ t₃ hvisited => ?_
  obtain ⟨log, hlog, hfollows⟩ := hvisited.log
  refine ⟨⟨hvisited.kept.settled, fun r hr => ?_⟩, t.canvas.displayState, log, hfollows, ?_⟩
  · rw [hvisited.kept.apart r hr, hheld]
  · rw [hlog, hseen, Operation.isHeld, hcontains, List.append_assoc]
    rfl

/-- An operation that is not a child's is handed out, and so is a child that is held back. -/
theorem accept_own (op : Operation) (hop : op.isHeld t.held = op.isChild) (offset : Int) :
    (v.accept op offset).Ends t (fun _ t' => t'.held = t.held ∧ ∃ state,
        t'.seen = t.seen ++ Part.sights v.level v.key (.own op state op.isChild))
      fun e _ => e.IsLimit bound :=
  (hv.accept op offset).imp fun _ _ h => ⟨h.1, _, hop ▸ h.2⟩

end Ready

theorem Ongoing.own (ho : v.Ongoing s steps t) {op : Operation} {state : DisplayState}
    (hheld : t'.held = t.held)
    (hseen : t'.seen = t.seen ++ Part.sights v.level v.key (.own op state op.isChild)) :
    v.Ongoing s (steps ++ Part.steps v.frame.nodes (.own op state op.isChild)) t' where
  parts := by
    obtain ⟨parts, hparts, hparts', hsteps⟩ := ho.parts
    refine ⟨parts ++ [.own op state op.isChild], hparts.append (.single_own op state), ?_, ?_⟩
    · simp [hseen, hparts']
    · simp [hsteps]
  kept := ⟨hheld ▸ ho.kept.settled, fun ref href => by rw [hheld]; exact ho.kept.apart ref href⟩
  classified := hheld ▸ ho.classified

theorem Ongoing.descent (hv : v.Ready h bound) (ho : v.Ongoing s steps t)
    (hparent : v.frame.nodes.Reaches v.key ref.parent) (hedge : v.frame.nodes.edge ref = .ok edge)
    {state : DisplayState} {log : List Sight} (hlog : Follows v.frame (v.level + 1) edge.child log)
    (hseen : t'.seen = t.seen ++ Part.sights v.level v.key (.descent ref edge state log))
    (hkept : v.frame.Kept edge.child t t') :
    v.Ongoing s (steps ++ [Step.descend ref].filter (Step.isDrawn v.frame.nodes)) t' where
  parts := by
    obtain ⟨parts, hparts, hparts', hsteps⟩ := ho.parts
    refine ⟨parts ++ [.descent ref edge state log],
      hparts.append (.single_descent hparent hedge hlog state), ?_, ?_⟩
    · simp [hseen, hparts']
    · simp [hsteps, Part.steps]
  kept := ho.kept.trans
    (hkept.up (hparent.tail (NodeStore.leads_of_edge hedge)) ho.kept.settled)
  classified := hkept.classified
    (fun hback => hv.sound.not_reaches hparent hedge (hback.trans hparent)) ho.classified

/-- Sorting the children holds back those that are elevated, and no link that projects is let
go. -/
theorem Dressed.ongoing (hd : v.Dressed s t) (hsettled : v.frame.Settled v.key t.held) :
    v.Ongoing s []
      { t with held := Sibling.holdElevated (v.frame.nodes.children v.key) t.held } where
  parts := by
    obtain ⟨parts, hproperty, hparts, hseen⟩ := hd.parts
    refine ⟨parts, hparts, hseen, List.flatMap_eq_nil_iff.mpr fun part hpart => ?_⟩
    exact Part.steps_of_isProperty (hproperty part hpart) _
  kept := by
    refine ⟨Frame.settled_holdElevated hsettled, fun ref href => ?_⟩
    rw [← hd.held]
    exact Frame.mem_holdElevated_of_parent_ne fun hparent => href (hparent ▸ .refl)
  classified := v.frame.classified_holdElevated v.key t.held

namespace Ready

variable (hv : v.Ready h bound)

include hv

/-! #### Pieces of the walk -/

theorem give (op : PropertyOp) (ho : v.Ongoing s steps t) :
    (v.give op).Ends t (fun _ t' => v.Ongoing s steps t') fun e _ => e.IsLimit bound := by
  refine (hv.accept_own (.property op) rfl 0).imp fun _ t' ⟨hheld, state, hseen⟩ => ?_
  simpa [Part.steps] using ho.own hheld hseen

/-- A child that is held back is let go, drawn, and held back again. -/
theorem place (ho : v.Ongoing s steps t) (hparent : v.frame.nodes.Reaches v.key ref.parent)
    (hedge : v.frame.nodes.edge ref = .ok edge) (hheld : ref ∈ t.held) (transform : Matrix) :
    (v.place ref edge transform).Ends t (fun _ t' =>
        v.Ongoing s (steps ++ [Step.descend ref].filter (Step.isDrawn v.frame.nodes)) t')
      fun e _ => e.IsLimit bound := by
  have hchild := hparent.tail (NodeStore.leads_of_edge hedge)
  unfold Visit.place
  refine Walk.Ends.saveCount_bind (Walk.Ends.onCanvas_bind (Walk.Ends.modify_bind
    (Walk.Ends.saveCount_bind ?_)))
  refine (hv.offer_free (by simp [Stage.letGo])
    (.tail' hparent (NodeStore.leads_of_edge hedge)) ?_ _).bind
    fun _ t₁ ⟨hkept, state, log, hlog, hseen⟩ => Walk.Ends.modify_bind (Walk.Ends.onCanvas ?_)
  · -- the link itself is not from below its node
    intro r node hreach hnode hdraws hprojects
    have hne : ref ≠ r := by
      rintro rfl
      exact hv.sound.not_reaches hparent hedge hreach
    have hmem := ho.kept.settled r node (hchild.trans hreach) hnode hdraws hprojects
    exact Std.ExtTreeSet.mem_erase.mpr ⟨by simpa using hne, hmem⟩
  -- held back again, it is as it was before the draw
  · exact ho.descent hv hparent hedge hlog hseen (hkept.of_letGo rfl rfl hheld)

theorem clipped {steps' : List Step} (mode : ClipMode) {body : Walk (ω × List Sight) Unit}
    (hbody : ∀ t, v.Ongoing s steps t →
      body.Ends t (fun _ t' => v.Ongoing s steps' t') fun e _ => e.IsLimit bound)
    (ho : v.Ongoing s steps t) :
    (v.clipped mode body).Ends t (fun _ t' => v.Ongoing s steps' t')
      fun e _ => e.IsLimit bound := by
  unfold Visit.clipped
  refine Walk.Ends.saveCount_bind (Walk.Ends.onCanvas_bind ?_)
  have ho : v.Ongoing s steps (t.onCanvas (·.save .matrixClip)) := ho.idle ⟨rfl, rfl⟩
  refine (hv.give _ ho).bind fun _ t₁ ho => ?_
  exact (hbody t₁ ho).bind fun _ t₂ ho => hv.give _ ho

omit hv in
/-- A walk over a list takes the steps of its elements. -/
theorem forM {γ : Type} {k : γ → Walk (ω × List Sight) Unit} {g : γ → List Step} {l : List γ}
    (hk : ∀ x ∈ l, ∀ steps t, v.Ongoing s steps t →
      (k x).Ends t (fun _ t' => v.Ongoing s (steps ++ g x) t') fun e _ => e.IsLimit bound)
    (ho : v.Ongoing s steps t) :
    (l.forM k).Ends t (fun _ t' => v.Ongoing s (steps ++ l.flatMap g) t')
      fun e _ => e.IsLimit bound := by
  induction l generalizing steps t with
  | nil =>
    refine Walk.Ends.pure ?_
    simpa using ho
  | cons x l ih =>
    refine (hk x List.mem_cons_self _ _ ho).bind fun _ t₁ ho => ?_
    rw [List.flatMap_cons, ← List.append_assoc]
    exact ih (fun y hy => hk y (List.mem_cons_of_mem _ hy)) ho

/-! #### Children out of place -/

omit hv in
/-- An elevated child of the node is held back. -/
theorem mem_held_of_elevated {c : Sibling} (ho : v.Ongoing s steps t)
    (hc : c ∈ v.frame.nodes.children v.key) (helevated : c.isElevated) : c.ref ∈ t.held := by
  obtain ⟨hparent, hedge, child, hchild, hproperties⟩ := NodeStore.mem_children.mp hc
  simp only [Sibling.isElevated, Sibling.height, Bool.and_eq_true, Bool.not_eq_true',
    ← hproperties] at helevated
  refine (ho.classified c.ref child hparent ?_ helevated.1).mpr helevated.2
  rw [NodeStore.child?_eq hedge, hchild]

theorem placeSibling {c : Sibling} (hc : c ∈ Sibling.byHeight (v.frame.nodes.children v.key))
    (ho : v.Ongoing s steps t) : (v.placeSibling c).Ends t (fun _ t' =>
        v.Ongoing s (steps ++ [Step.descend c.ref].filter (Step.isDrawn v.frame.nodes)) t')
      fun e _ => e.IsLimit bound := by
  obtain ⟨hmem, helevated⟩ := Sibling.mem_byHeight.mp hc
  obtain ⟨hparent, hedge, -⟩ := NodeStore.mem_children.mp hmem
  exact hv.place ho (hparent ▸ .refl) hedge (mem_held_of_elevated ho hmem helevated) _

theorem drawBelow (ho : v.Ongoing s steps t) :
    (v.drawBelow (Sibling.byHeight (v.frame.nodes.children v.key))).Ends t (fun _ t' =>
        v.Ongoing s (steps ++ ((Sibling.below
          (Sibling.byHeight (v.frame.nodes.children v.key))).map fun c =>
            Step.descend c.ref).filter (Step.isDrawn v.frame.nodes)) t')
      fun e _ => e.IsLimit bound := by
  unfold Visit.drawBelow
  split
  · refine hv.clipped _ (fun t ho => ?_) ho
    rw [filter_map_eq_flatMap]
    exact forM (fun c hc steps t ho =>
      hv.placeSibling ((List.takeWhile_prefix _).subset hc) ho) ho
  · next hreaches =>
    refine Walk.Ends.pure ?_
    rw [Sibling.below_eq_nil (Bool.not_eq_true _ ▸ hreaches)]
    simpa using ho

/-- A shadow takes no step. -/
theorem shadow (c : Sibling) (ho : v.Ongoing s steps t) :
    (v.take (.shadow c)).Ends t (fun _ t' => v.Ongoing s (steps ++ []) t')
      fun e _ => e.IsLimit bound := by
  rw [List.append_nil]
  unfold Visit.take
  dsimp only
  cases c.shadow? with
  | some shadow => exact hv.give _ ho
  | none => exact Walk.Ends.pure ho

theorem drawAbove (ho : v.Ongoing s steps t) :
    (v.drawAbove (Sibling.byHeight (v.frame.nodes.children v.key))).Ends t (fun _ t' =>
        v.Ongoing s (steps ++ ((Sibling.above
          (Sibling.byHeight (v.frame.nodes.children v.key))).map fun c =>
            Step.descend c.ref).filter (Step.isDrawn v.frame.nodes)) t')
      fun e _ => e.IsLimit bound := by
  unfold Visit.drawAbove
  split
  · refine hv.clipped _ (fun t ho => ?_) ho
    rw [filter_map_eq_flatMap, ← Sibling.flatMap_schedule]
    refine forM (fun turn hturn steps t ho => ?_) ho
    cases turn with
    | shadow c => exact hv.shadow c ho
    | content c =>
      have hc := Sibling.mem_of_content_mem_schedule hturn
      simp only [Sibling.Turn.content?, Option.toList_some, List.flatMap_singleton]
      exact hv.placeSibling ((List.dropWhile_suffix _).subset hc) ho
  · next hreaches =>
    refine Walk.Ends.pure ?_
    rw [Sibling.above_eq_nil (Sibling.pairwise_byHeight _) (Bool.not_eq_true _ ▸ hreaches)]
    simpa using ho

/-! #### Projected links -/

theorem placeProjected (href : ref ∈ v.frame.projectedAt v.key) (ho : v.Ongoing s steps t) :
    (v.placeProjected ref).Ends t (fun _ t' =>
        v.Ongoing s (steps ++ [Step.descend ref].filter (Step.isDrawn v.frame.nodes)) t')
      fun e _ => e.IsLimit bound := by
  obtain ⟨hparent, edge, child, hedge, hchild, hdraws, hprojects⟩ :=
    hv.sound.listed v.key .refl ref href
  have hheld : ref ∈ t.held :=
    ho.kept.settled ref child hparent ((NodeStore.child?_eq hedge).trans hchild) hdraws hprojects
  exact Walk.Ends.lift_bind hedge (hv.place ho hparent hedge hheld _)

theorem drawProjected (ho : v.Ongoing s steps t) :
    v.drawProjected.Ends t (fun _ t' => v.Ongoing s (steps ++
        ((v.frame.projectedAt v.key).map .descend).filter (Step.isDrawn v.frame.nodes)) t')
      fun e _ => e.IsLimit bound := by
  unfold Visit.drawProjected
  refine hv.clipped _ (fun t ho => ?_) ho
  refine (Walk.log_ends hv.level.le).bind fun _ t₁ ht₁ => ?_
  rw [filter_map_eq_flatMap]
  exact forM (fun ref href steps t ho => hv.placeProjected href ho) (ho.idle ht₁)

/-! #### Content -/

theorem receive (index : Nat) (ho : v.Ongoing s steps t) :
    (v.receive index).Ends t (fun _ t' => v.Ongoing s (steps ++
        (v.frame.afterOp v.key v.list index).filter (Step.isDrawn v.frame.nodes)) t')
      fun e _ => e.IsLimit bound := by
  unfold Visit.receive Frame.afterOp
  by_cases hindex : v.list.receiveIndex = some index
  · rw [if_pos hindex]
    by_cases hprojected : v.frame.projectedAt v.key = []
    · rw [if_neg fun hboth => hboth.2 hprojected, hprojected]
      refine Walk.Ends.pure ?_
      simpa using ho
    · rw [if_pos ⟨hindex, hprojected⟩]
      exact hv.drawProjected ho
  · rw [if_neg fun hboth => hindex hboth.1, if_neg hindex]
    refine Walk.Ends.pure ?_
    simpa using ho

omit hv in
/-- What the agenda has at the operation of a child is what the walk reads off the link. -/
theorem filter_atOp {i : Nat} {child : Node}
    (hchild : v.frame.nodes.child? ⟨v.key, i⟩ = some child) (ho : v.Ongoing s steps t) :
    (v.frame.atOp v.key (.child i)).filter (Step.isDrawn v.frame.nodes) =
      if ⟨v.key, i⟩ ∈ t.held then []
      else [Step.descend ⟨v.key, i⟩].filter (Step.isDrawn v.frame.nodes) := by
  rw [Frame.atOp_child hchild]
  cases hdraws : child.isDrawable with
  | false =>
    have hnone : [Step.descend ⟨v.key, i⟩].filter (Step.isDrawn v.frame.nodes) = [] := by
      simp [Step.isDrawn, hchild, hdraws]
    -- nothing to draw takes no step, whether it is held back or not
    rw [apply_ite (List.filter _), hnone, List.filter_nil, ite_self, ite_self]
  | true =>
    cases hprojects : child.properties.projects with
    | true =>
      -- a link that projects is settled, any other one classified
      have hheld : ⟨v.key, i⟩ ∈ t.held := ho.kept.settled _ child .refl hchild hdraws hprojects
      rw [if_pos hheld]
      rfl
    | false =>
      have hheld := ho.classified ⟨v.key, i⟩ child rfl hchild hprojects
      cases hzero : child.properties.elevation.isZero with
      | true =>
        rw [if_neg fun hmem => Bool.noConfusion (hzero.symm.trans (hheld.mp hmem))]
        rfl
      | false =>
        rw [if_pos (hheld.mpr hzero)]
        rfl

/-- A child is drawn at its operation exactly when it is in its place there, as far as it has
something to draw. -/
theorem offer_child {i : Nat} (hlink : v.list.children[i]? = some edge) (offset : Int)
    (ho : v.Ongoing s steps t) :
    (v.offer (.child ⟨v.key, i⟩ edge) offset).Ends t (fun _ t' => v.Ongoing s (steps ++
        (v.frame.atOp v.key (.child i)).filter (Step.isDrawn v.frame.nodes)) t')
      fun e _ => e.IsLimit bound := by
  have hedge : v.frame.nodes.edge ⟨v.key, i⟩ = .ok edge :=
    NodeStore.edge_eq_ok_iff.mpr ⟨v.node, v.list, hv.node, hv.list, hlink⟩
  have hleads : v.frame.nodes.Leads v.key edge.child := NodeStore.leads_of_edge hedge
  obtain ⟨child, hget⟩ := hv.sound.live _ (.single hleads)
  rw [filter_atOp ((NodeStore.child?_eq hedge).trans hget) ho]
  by_cases hheld : ⟨v.key, i⟩ ∈ t.held
  · rw [if_pos hheld]
    have hcontains : t.held.contains ⟨v.key, i⟩ = true := Std.ExtTreeSet.contains_iff_mem.mpr hheld
    unfold Visit.offer
    refine (hv.accept_own (.child ⟨v.key, i⟩ edge) hcontains offset).bind
      fun _ t₁ ⟨hheld₁, state, hseen⟩ => Walk.Ends.get_bind ?_
    rw [hheld₁, hcontains]
    exact Walk.Ends.pure (ho.own hheld₁ hseen)
  · rw [if_neg hheld]
    refine (hv.offer_free hheld (.single hleads) (fun r node hreach => ?_) offset).imp
      fun _ t' ⟨hkept, state, log, hlog, hseen⟩ => ?_
    · exact ho.kept.settled r node ((Relation.ReflTransGen.single hleads).trans hreach)
    · exact ho.descent hv .refl hedge hlog hseen hkept

theorem offer_recorded (op : DrawOp) (offset : Int) (ho : v.Ongoing s steps t) :
    (v.offer (.recorded op v.list) offset).Ends t (fun _ t' => v.Ongoing s (steps ++ [.op op]) t')
      fun e _ => e.IsLimit bound := by
  unfold Visit.offer
  refine (hv.accept_own (.recorded op v.list) rfl offset).bind fun _ t₁ ⟨hheld, state, hseen⟩ => ?_
  exact Walk.Ends.pure (ho.own hheld hseen)

omit hv in
theorem report {e : Event} (he : e.indent ≤ bound) :
    (v.report e).Ends t (fun _ t' => t.Unmoved t' ∧ t'.canvas = t.canvas)
      fun e _ => e.IsLimit bound :=
  (v.report_ends (Journal.isLimit_of_refuses he)).imp fun _ _ ⟨_, ht⟩ => ht ▸ ⟨⟨rfl, rfl⟩, rfl⟩

theorem playOp {op : DrawOp} (hop : op ∈ v.list.ops.toList) (offset : Int) (index : Nat)
    (ho : v.Ongoing s steps t) : (v.playOp offset op index).Ends t (fun _ t' =>
        v.Ongoing s (steps ++ (v.frame.atOp v.key op ++
          v.frame.afterOp v.key v.list index).filter (Step.isDrawn v.frame.nodes)) t')
      fun e _ => e.IsLimit bound := by
  have hlinked := (hv.sound.recorded v.key v.node v.list .refl hv.node hv.list).wellLinked
  have hlevel : (Event.opReached v.level op.name).indent ≤ bound := hv.level
  unfold Visit.playOp
  refine (report hlevel).bind fun _ t₁ ⟨ht₁, _⟩ => ?_
  refine Walk.Ends.modify_bind ?_
  have ho : v.Ongoing s steps (t₁.logOp v.level op.name) := (ho.idle ht₁).idle ⟨rfl, rfl⟩
  rw [List.filter_append, ← List.append_assoc]
  cases op with
  | child i =>
    -- recorded content draws no link that is not there
    have hi : i < v.list.children.size := hlinked.child_mem_iff.mp hop
    have hlink : v.list.children[i]? = some v.list.children[i] := Array.getElem?_eq_getElem hi
    have hoperation : v.operation (.child i) = .ok (.child ⟨v.key, i⟩ v.list.children[i]) := by
      simp [Visit.operation, hlink]
    rw [hoperation]
    exact (hv.offer_child hlink offset ho).bind fun _ _ ho => hv.receive index ho
  | _ => exact (hv.offer_recorded _ offset ho).bind fun _ _ ho => hv.receive index ho

theorem drawContent (hsettled : v.frame.Settled v.key t.held) (hd : v.Dressed s t) :
    v.drawContent.Ends t (fun _ t' => v.Ongoing s (v.frame.agenda v.key v.list) t')
      fun e _ => e.IsLimit bound := by
  have hsiblings : v.frame.nodes.siblings v.key v.list = .ok (v.frame.nodes.children v.key) := by
    refine NodeStore.siblings_eq hv.node hv.list fun e he => ?_
    exact hv.sound.live _ (.single (NodeStore.leads_of_mem_linksOf he))
  unfold Visit.drawContent
  refine Walk.Ends.lift_bind hsiblings (Walk.Ends.modify_bind ?_)
  dsimp only
  -- the walk sorts by insertion, the agenda as the library does
  rw [Sibling.elevated_eq (NodeStore.pairwise_children v.frame.nodes v.key)]
  refine (hv.drawBelow (hd.ongoing hsettled)).bind fun _ t₁ ho => Walk.Ends.saveCount_bind ?_
  refine (forM (fun x hx steps t ho => hv.playOp ?_ _ x.2 ho) ho).bind fun _ t₂ ho => ?_
  · exact List.fst_mem_of_mem_zipIdx hx
  · unfold Frame.agenda
    dsimp only
    rw [List.filter_append, List.filter_append, List.filter_flatMap]
    exact hv.drawAbove ho

/-! #### The whole visit -/

theorem dress (op : PropertyOp) (hd : v.Dressed s t) :
    (v.give op).Ends t (fun _ t' => v.Dressed s t') fun e _ => e.IsLimit bound := by
  refine (hv.accept_own (.property op) rfl 0).imp fun _ t' ⟨hheld, state, hseen⟩ => ?_
  obtain ⟨parts, hproperty, hparts, hparts'⟩ := hd.parts
  refine ⟨⟨parts ++ [.own (.property op) state false], ?_,
    hparts.append (.single_own (.property op) state), ?_⟩, hheld.trans hd.held⟩
  · intro part hpart
    rcases List.mem_append.mp hpart with hpart | hpart
    · exact hproperty part hpart
    · rw [List.mem_singleton.mp hpart]
      rfl
  · rw [hseen, hparts', List.flatMap_append, List.append_assoc]
    rfl

theorem applyAlpha (hd : v.Dressed s t) :
    (v.applyAlpha (v.level + 1)).Ends t (fun _ t' => v.Dressed s t')
      fun e _ => e.IsLimit bound := by
  unfold Visit.applyAlpha
  dsimp only
  split
  · split
    · exact Walk.Ends.onCanvas_bind (Walk.Ends.pure (hd.idle ⟨rfl, rfl⟩))
    · split
      · exact Walk.Ends.onCanvas_bind (Walk.Ends.pure (hd.idle ⟨rfl, rfl⟩))
      · refine (Walk.log_ends hv.level).bind fun _ t₁ ht₁ => ?_
        exact (hv.dress _ (hd.idle ht₁)).bind fun _ _ hd => Walk.Ends.pure hd
  · exact Walk.Ends.pure hd

theorem applyProperties (hd : v.Dressed s t) :
    v.applyProperties.Ends t (fun _ t' => v.Dressed s t') fun e _ => e.IsLimit bound := by
  unfold Visit.applyProperties
  refine hv.innerLevel.bind fun inner t₁ ⟨hinner, ht₁⟩ => ?_
  subst hinner ht₁
  have hd : v.Dressed s (t₁.onCanvas (transformed v.properties)) := hd.idle ⟨rfl, rfl⟩
  refine Walk.Ends.onCanvas_bind ((hv.applyAlpha hd).bind fun clips _ hd => ?_)
  dsimp only
  split <;> split
  · exact (hv.dress _ hd).bind fun _ _ hd => hv.dress _ hd
  · exact (hv.dress _ hd).bind fun _ _ hd => Walk.Ends.pure hd
  · exact hv.dress _ hd
  · exact Walk.Ends.pure hd

end Ready

/-- The visit came to its content, or was rejected: then there were operations of the node's
properties before and after that only. -/
def Ran (v : Visit (ω × List Sight)) (s t : Stage (ω × List Sight)) : Prop :=
  v.Ongoing s (v.frame.agenda v.key v.list) t ∨
    ∃ t₀ t₁ state, v.Dressed s t₀ ∧ v.Dressed t₁ t ∧ t₁.held = t₀.held ∧
      v.node.isRejectedIn state = true ∧ t₁.seen = t₀.seen ++ [.rejected v.level v.key state]

theorem Ran.idle (hr : v.Ran s t) (ht : t.Unmoved t') : v.Ran s t' := by
  rcases hr with ho | ⟨t₀, t₁, state, hd, hd', hmid⟩
  · exact .inl (ho.idle ht)
  · exact .inr ⟨t₀, t₁, state, hd, hd'.idle ht, hmid⟩

theorem Dressed.refl (v : Visit (ω × List Sight)) (s : Stage (ω × List Sight)) :
    v.Dressed s s where
  parts := ⟨[], by simp, .nil, by simp⟩
  held := rfl

namespace Ready

variable (hv : v.Ready h bound)

include hv

theorem drawUnlessRejected (hsettled : v.frame.Settled v.key t.held) (hd : v.Dressed s t) :
    v.drawUnlessRejected.Ends t (fun _ t' => v.Ran s t') fun e _ => e.IsLimit bound := by
  unfold Visit.drawUnlessRejected Visit.isRejected
  refine Walk.Ends.get_bind ?_
  split
  · next hrejected =>
    have hlevel : (Event.nodeRejected v.level v.node.name).indent ≤ bound := hv.level
    refine (report hlevel).bind fun _ t₁ ⟨ht₁, hcanvas⟩ => ?_
    rw [hv.handler]
    refine Walk.Ends.modify_bind ?_
    refine ((hv.neutral.reject v.level v.key v.node).unseen_ends hv.level.le _).imp
      fun _ t₂ ht₂ => ?_
    exact .inr ⟨t₁, t₂, _, hd.idle ht₁, .refl v t₂, ht₂.1, hcanvas ▸ hrejected, ht₂.2⟩
  · refine (hv.drawContent hsettled hd).imp fun _ t₁ ho => .inl ho

/-- The walk of the node, once it was entered. -/
theorem run (hsettled : v.frame.Settled v.key s.held) :
    v.run.Ends s (fun _ t => v.Ran s t) fun e _ => e.IsLimit bound := by
  have hlevel := hv.level
  unfold Visit.run
  refine Walk.Ends.get_bind ((report hlevel.le).bind fun _ t₁ ⟨ht₁, _⟩ => ?_)
  refine Walk.Ends.saveCount_bind ((hv.dress _ ((Dressed.refl v s).idle ht₁)).bind
    fun _ t₂ hd => ?_)
  refine (Walk.log_ends hlevel).bind fun _ t₃ ht₃ => ?_
  refine (hv.applyProperties (hd.idle ht₃)).bind fun _ t₄ hd => ?_
  refine (hv.drawUnlessRejected (hd.held ▸ hsettled) hd).bind fun _ t₅ hr => ?_
  refine (Walk.log_ends hlevel).bind fun _ t₆ ht₆ => ?_
  rcases hr.idle ht₆ with ho | ⟨t₀, t', state, hd, hd', hmid⟩
  · refine (hv.give _ ho).bind fun _ t₇ ho => Walk.Ends.onCanvas (.inl (ho.idle ⟨rfl, rfl⟩))
  · refine (hv.dress _ hd').bind fun _ t₇ hd' => Walk.Ends.onCanvas ?_
    exact .inr ⟨t₀, t', state, hd, hd'.idle ⟨rfl, rfl⟩, hmid⟩

end Ready

/-- What is seen of a visit between entering and leaving the node follows the agenda. -/
theorem Ran.follows (hr : v.Ran s t) (hnode : v.frame.nodes.get? v.key = some v.node)
    (hlist : v.node.shown? = some v.list) (hsettled : v.frame.Settled v.key s.held) :
    v.frame.Kept v.key s t ∧ ∃ log, t.seen = s.seen ++ log ∧
      Follows v.frame v.level v.key (.entered v.level v.key :: (log ++ [.left v.level v.key])) := by
  rcases hr with ho | ⟨t₀, t₁, state, hd, hd', hheld, hrejected, hmid⟩
  · obtain ⟨parts, hparts, hseen, hsteps⟩ := ho.parts
    exact ⟨ho.kept, _, hseen, .drawn hnode hlist hparts.own hparts.edge hparts.descent hsteps⟩
  · obtain ⟨before, hbefore, -, hseen⟩ := hd.parts
    obtain ⟨after, hafter, -, hseen'⟩ := hd'.parts
    have hsame : t.held = s.held := hd'.held.trans (hheld.trans hd.held)
    refine ⟨⟨hsame ▸ hsettled, fun ref _ => by rw [hsame]⟩, before.flatMap
      (Part.sights v.level v.key) ++ .rejected v.level v.key state ::
        after.flatMap (Part.sights v.level v.key), ?_, ?_⟩
    · rw [hseen', hmid, hseen]
      simp
    · have hfollows : Follows v.frame v.level v.key _ :=
        .rejected hnode (Option.isSome_iff_exists.mpr ⟨_, hlist⟩) hrejected hbefore hafter
      simpa using hfollows

end Visit

/-! ### Walks -/

/-- In a frame that was routed a walk draws every node as its agenda says, or ends at a limit. -/
theorem visit_follows {h : Handler ω} (hn : h.Neutral) {f : Frame} {bound levels level : Nat}
    {key : Key} (hlevels : levels = levelCount - level) (hsound : f.Sound key)
    (hbound : level + f.nodes.height key < bound) {s : Stage (ω × List Sight)}
    (hsettled : f.Settled key s.held) :
    (visit h.watched f levels level key).Ends s (fun _ t => Visited f level key s t)
      fun e _ => e.IsLimit bound := by
  induction levels generalizing level key s with
  | zero =>
    -- all levels are used up, and the node is nested as deep as there are levels
    refine Walk.Ends.throw ⟨rfl, ?_⟩
    unfold levelCount at hlevels
    omega
  | succ levels ih =>
    obtain ⟨node, hnode⟩ := hsound.live key .refl
    have hlevel : level < bound := by omega
    unfold visit
    refine Walk.Ends.lift_bind (NodeStore.node_eq_ok_iff.mpr hnode) ?_
    refine (h.watched_enter_ends hn hlevel.le key node s).bind fun _ t₁ ⟨hheld₁, hseen₁⟩ => ?_
    rw [← hheld₁] at hsettled
    have hleave (t₂ : Stage (ω × List Sight)) (hkept : f.Kept key t₁ t₂) (log : List Sight)
        (hseen₂ : t₂.seen = t₁.seen ++ log)
        (hfollows : Follows f level key (.entered level key :: (log ++ [.left level key]))) :
        (h.watched.leave level key node).Ends t₂ (fun _ t => Visited f level key s t)
          fun e _ => e.IsLimit bound := by
      refine (h.watched_leave_ends hn hlevel.le key node t₂).imp
        fun _ t₃ ⟨hheld₃, hseen₃⟩ => ?_
      refine ⟨⟨_, ?_, hfollows⟩, ⟨hheld₃ ▸ hkept.settled, fun ref href => ?_⟩⟩
      · rw [hseen₃, hseen₂, hseen₁]
        simp
      · rw [hheld₃, hkept.apart ref href, hheld₁]
    dsimp only
    cases hlist : node.shown? with
    | none =>
      refine (Walk.log_ends hlevel.le).bind fun _ t₂ ⟨hheld₂, hseen₂⟩ => ?_
      refine hleave t₂ ⟨hheld₂ ▸ hsettled, fun ref _ => by rw [hheld₂]⟩ [] ?_ (.blank hnode hlist)
      rw [hseen₂, List.append_nil]
    | some list =>
      have hready : Visit.Ready ⟨h.watched, f, visit h.watched f levels, level, key, node, list⟩
          h bound := by
        refine ⟨hn, rfl, hsound, hlevel, hnode, Node.content_of_shown? hlist, ?_⟩
        intro child s hbelow hsettled
        -- what is nested in the node is lower, which makes up for the level further in
        have hlower := NodeStore.height_lt hsound.live hsound.acyclic hbelow
        show (visit h.watched f levels (level + 1) child).Ends s _ _
        exact ih (by omega) (hsound.of_reaches hbelow.to_reflTransGen) (by omega) hsettled
      refine (hready.run hsettled).bind fun _ t₂ hr => ?_
      obtain ⟨hkept, log, hseen₂, hfollows⟩ := hr.follows hnode hlist hsettled
      exact hleave t₂ hkept log hseen₂ hfollows

end RetainedScene
