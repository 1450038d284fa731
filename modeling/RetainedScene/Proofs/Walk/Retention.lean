import RetainedScene.Proofs.Walk.Agenda

/-!
# Links that stay held back

Whatever is walked, from whatever stage and in whatever scene, a link to a node that projects is
still held back after the walk if it was before: the walk lets go of it for one draw at most, and
then holds it back again (`visit_retains`).  So a scene that was routed stays settled through any
draws that follow.
-/

namespace RetainedScene

variable {ω α β : Type}

/-- A part of a walk that comes to its end leaves held back the links to nodes that project. -/
def Walk.Retains (nodes : NodeStore) (m : Walk ω α) : Prop :=
  ∀ s, m.Ends s (fun _ t => ∀ ref child, nodes.child? ref = some child →
    child.properties.projects → ref ∈ s.held → ref ∈ t.held) fun _ _ => True

namespace Walk.Retains

variable {nodes : NodeStore}

theorem bind {m : Walk ω α} {k : α → Walk ω β} (hm : m.Retains nodes)
    (hk : ∀ a, (k a).Retains nodes) : (m >>= k).Retains nodes := by
  intro s
  refine (hm s).bind fun a t ht => (hk a t).imp fun b t' ht' ref child hchild hprojects hs => ?_
  exact ht' ref child hchild hprojects (ht ref child hchild hprojects hs)

theorem pure (a : α) : (pure a : Walk ω α).Retains nodes :=
  fun _ => Walk.Ends.pure fun _ _ _ _ hs => hs

theorem throw (e : Fatal) : (throw e : Walk ω α).Retains nodes := fun _ => Walk.Ends.throw trivial

theorem lift (result : Except Fatal α) : (Walk.lift result : Walk ω α).Retains nodes := by
  cases result with
  | ok a => exact pure a
  | error e => exact throw e

theorem get_bind {k : Stage ω → Walk ω α} (hk : ∀ s, (k s).Retains nodes) :
    (get >>= k).Retains nodes := fun s => hk s s

/-- A change of the stage that leaves alone which links are held back. -/
theorem modify {f : Stage ω → Stage ω} (hf : ∀ s, (f s).held = s.held) :
    (modify f : Walk ω Unit).Retains nodes :=
  fun s => Walk.Ends.modify fun _ _ _ _ hs => (hf s).symm ▸ hs

theorem onCanvas (f : Canvas → Canvas) : (Walk.onCanvas f : Walk ω Unit).Retains nodes :=
  modify fun _ => rfl

theorem saveCount : (Walk.saveCount : Walk ω Nat).Retains nodes := get_bind fun _ => pure _

theorem log (e : Event) : (Walk.log e : Walk ω Unit).Retains nodes := by
  refine get_bind fun s => ?_
  dsimp only
  split
  · exact (throw _).bind fun _ => modify fun _ => rfl
  · exact modify fun _ => rfl

theorem forM {γ : Type} {l : List γ} {k : γ → Walk ω Unit} (hk : ∀ x ∈ l, (k x).Retains nodes) :
    (l.forM k).Retains nodes := by
  induction l with
  | nil => exact pure ()
  | cons x l ih =>
    exact (hk x List.mem_cons_self).bind fun _ =>
      ih fun y hy => hk y (List.mem_cons_of_mem _ hy)

theorem of_neutral {level : Nat} {m : Walk ω Unit} (hm : m.Neutral level) : m.Retains nodes :=
  fun s => (hm s).mono (fun _ _ h _ _ _ _ hs => h.1.symm ▸ hs) fun _ _ _ => trivial

end Walk.Retains

/-! ### Visits -/

namespace Visit

variable {v : Visit ω} (hn : v.handler.Neutral)
  (hdescend : ∀ level key, (v.descend level key).Retains v.frame.nodes)

include hn in
theorem accept_retains (op : Operation) (offset : Int) :
    (v.accept op offset).Retains v.frame.nodes := .modify fun _ => hn.held _ _ _ _ _ _

theorem report_retains (e : Event) : (v.report e).Retains v.frame.nodes := by
  unfold report
  split
  · exact .log e
  · exact .pure ()

theorem innerLevel_retains : v.innerLevel.Retains v.frame.nodes := by
  unfold innerLevel
  split
  · exact .pure _
  · exact .throw _

include hn in
theorem clipped_retains (mode : ClipMode) {body : Walk ω Unit}
    (hbody : body.Retains v.frame.nodes) : (v.clipped mode body).Retains v.frame.nodes :=
  Walk.Retains.saveCount.bind fun _ => (Walk.Retains.onCanvas _).bind fun _ =>
    (accept_retains hn _ _).bind fun _ => hbody.bind fun _ => accept_retains hn _ _

include hn in
theorem applyAlpha_retains (inner : Nat) : (v.applyAlpha inner).Retains v.frame.nodes := by
  unfold applyAlpha
  dsimp only
  split
  · split
    · exact (Walk.Retains.onCanvas _).bind fun _ => .pure _
    · split
      · exact (Walk.Retains.onCanvas _).bind fun _ => .pure _
      · exact (Walk.Retains.log _).bind fun _ => (accept_retains hn _ _).bind fun _ => .pure _
  · exact .pure _

include hn in
theorem applyProperties_retains : v.applyProperties.Retains v.frame.nodes := by
  unfold applyProperties
  refine innerLevel_retains.bind fun inner => (Walk.Retains.onCanvas _).bind fun _ =>
    (applyAlpha_retains hn inner).bind fun clips => ?_
  dsimp only
  split <;> split
  · exact (accept_retains hn _ _).bind fun _ => accept_retains hn _ _
  · exact (accept_retains hn _ _).bind fun _ => .pure _
  · exact accept_retains hn _ _
  · exact .pure _

include hn hdescend

theorem offer_retains (op : Operation) (offset : Int) :
    (v.offer op offset).Retains v.frame.nodes := by
  refine (accept_retains hn op offset).bind fun _ => ?_
  cases op with
  | recorded op list => exact .pure ()
  | property op => exact .pure ()
  | child ref edge =>
    refine .get_bind fun s => ?_
    cases s.held.contains ref with
    | true => exact .pure ()
    | false => exact innerLevel_retains.bind fun inner => hdescend inner edge.child

/-- A link that is let go is held back again. -/
theorem place_retains (ref : EdgeRef) (edge : Edge) (transform : Matrix) :
    (v.place ref edge transform).Retains v.frame.nodes := by
  intro s
  unfold place
  refine Walk.Ends.saveCount_bind (Walk.Ends.onCanvas_bind (Walk.Ends.modify_bind
    (Walk.Ends.saveCount_bind ?_)))
  refine (offer_retains hn hdescend (.child ref edge) _ _).bind fun _ t ht =>
    Walk.Ends.modify_bind (Walk.Ends.onCanvas fun r child hchild hprojects hr => ?_)
  refine Std.ExtTreeSet.mem_insert.mpr ?_
  by_cases heq : ref = r
  · exact .inl (EdgeRef.order_eq_eq_iff.mpr heq)
  · refine .inr (ht r child hchild hprojects (Std.ExtTreeSet.mem_erase.mpr ⟨?_, hr⟩))
    exact fun h => heq (EdgeRef.order_eq_eq_iff.mp h)

theorem take_retains (turn : Sibling.Turn) : (v.take turn).Retains v.frame.nodes := by
  cases turn with
  | shadow c =>
    unfold take
    dsimp only
    split
    · exact accept_retains hn _ _
    · exact .pure ()
  | content c => exact place_retains hn hdescend _ _ _

theorem playOp_retains (offset : Int) (op : DrawOp) (index : Nat) :
    (v.playOp offset op index).Retains v.frame.nodes := by
  refine (report_retains _).bind fun _ =>
    (Walk.Retains.modify (f := (·.logOp v.level op.name)) fun _ => rfl).bind fun _ => ?_
  cases v.operation op with
  | error i => exact .log _
  | ok operation =>
    refine (offer_retains hn hdescend operation offset).bind fun _ => ?_
    unfold receive
    split
    · refine clipped_retains hn _ ((Walk.Retains.log _).bind fun _ => .forM fun ref _ => ?_)
      exact (Walk.Retains.lift _).bind fun edge => place_retains hn hdescend _ _ _
    · exact .pure ()

/-- The two passes over the elevated children, and the operations between them. -/
theorem passes_retains (elevated : List Sibling) : Walk.Retains v.frame.nodes (do
    v.drawBelow elevated
    let offset : Int := (← Walk.saveCount) - 1
    v.list.ops.toList.zipIdx.forM fun (op, index) => v.playOp offset op index
    v.drawAbove elevated) := by
  refine Walk.Retains.bind ?_ fun _ => Walk.Retains.saveCount.bind fun count => ?_
  · unfold drawBelow
    split
    · exact clipped_retains hn _ (.forM fun c _ => place_retains hn hdescend _ _ _)
    · exact .pure ()
  · refine (Walk.Retains.forM fun _ _ => playOp_retains hn hdescend _ _ _).bind fun _ => ?_
    unfold drawAbove
    split
    · exact clipped_retains hn _ (.forM fun turn _ => take_retains hn hdescend turn)
    · exact .pure ()

theorem drawContent_retains (hnode : v.frame.nodes.get? v.key = some v.node)
    (hlist : v.node.content = some v.list) : v.drawContent.Retains v.frame.nodes := by
  intro s
  unfold drawContent
  cases hsiblings : v.frame.nodes.siblings v.key v.list with
  | error e => exact Walk.Ends.throw trivial
  | ok siblings =>
    refine Walk.Ends.lift_bind rfl (Walk.Ends.modify_bind ?_)
    refine (passes_retains hn hdescend _ _).imp fun _ t ht ref child hchild hprojects hs =>
      ht ref child hchild hprojects ?_
    refine (Sibling.mem_holdElevated_of_projects fun c hc href => ?_).mpr hs
    rw [NodeStore.eq_children_of_siblings hnode hlist hsiblings] at hc
    rw [NodeStore.properties_of_mem_children hc (href ▸ hchild), hprojects]

theorem drawUnlessRejected_retains (hnode : v.frame.nodes.get? v.key = some v.node)
    (hlist : v.node.content = some v.list) : v.drawUnlessRejected.Retains v.frame.nodes := by
  unfold drawUnlessRejected isRejected
  refine .get_bind fun s => ?_
  split
  · exact (report_retains _).bind fun _ => .of_neutral (hn.reject _ _ _)
  · exact drawContent_retains hn hdescend hnode hlist

theorem run_retains (hnode : v.frame.nodes.get? v.key = some v.node)
    (hlist : v.node.content = some v.list) : v.run.Retains v.frame.nodes := by
  unfold run
  refine .get_bind fun s => (report_retains _).bind fun _ => Walk.Retains.saveCount.bind fun _ => ?_
  refine (accept_retains hn _ _).bind fun _ => (Walk.Retains.log _).bind fun _ =>
    (applyProperties_retains hn).bind fun _ => ?_
  exact (drawUnlessRejected_retains hn hdescend hnode hlist).bind fun _ =>
    (Walk.Retains.log _).bind fun _ => (accept_retains hn _ _).bind fun _ => Walk.Retains.onCanvas _

end Visit

/-- A walk lets go of no link to a node that projects. -/
theorem visit_retains {h : Handler ω} (hn : h.Neutral) (f : Frame) (levels level : Nat)
    (key : Key) : (visit h f levels level key).Retains f.nodes := by
  induction levels generalizing level key with
  | zero => exact .throw _
  | succ levels ih =>
    intro s
    unfold visit
    cases hnode : f.nodes.node key with
    | error e => exact Walk.Ends.throw trivial
    | ok node =>
      refine Walk.Ends.lift_bind rfl (((Walk.Retains.of_neutral (hn.enter level key node)).bind
        fun _ => ?_) s)
      have hleave : (h.leave level key node).Retains f.nodes :=
        .of_neutral (hn.leave level key node)
      dsimp only
      cases hlist : node.shown? with
      | none => exact (Walk.Retains.log _).bind fun _ => hleave
      | some list =>
        refine Walk.Retains.bind ?_ fun _ => hleave
        exact Visit.run_retains hn ih (NodeStore.node_eq_ok_iff.mp hnode)
          (Node.content_of_shown? hlist)

end RetainedScene
