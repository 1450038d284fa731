import RetainedScene.Proofs.Walk.Course

/-!
# What every step of a walk keeps

A relation of stages that every single step of the walk of a node keeps relates the stages before
and after the walk, also where the walk ends in an error (`Visit.Keeping.run`).  The steps are the
changes of the canvas, of the links that are held back and of the recent operations, the events that
the walk may report (`Visit.Reports`), the operations that it may hand out (`Visit.Gives`), what the
handler does at a reject, and the walks of what the node leads to.  `visit_keeps` closes the
recursion over what is nested; the relation may then depend on the level.  `visit_sees` is the case
of what is seen.

Nothing is asked of the handler, nor of the links and nodes that the walk comes to: the relation may
be one that says little of a single stage, such as what is seen of the walk or what is entered in
the journal.
-/

namespace RetainedScene

variable {ω α β γ : Type}

/-- Whatever a part of a walk ends in, the stage at its end is related to the one at its start. -/
def Walk.Keeps (R : Stage ω → Stage ω → Prop) (m : Walk ω α) : Prop :=
  ∀ s, m.Ends s (fun _ t => R s t) fun _ t => R s t

theorem Walk.Keeps.bind {R : Stage ω → Stage ω → Prop} (htrans : ∀ s t u, R s t → R t u → R s u)
    {m : Walk ω α} {k : α → Walk ω β} (hm : m.Keeps R) (hk : ∀ a, (k a).Keeps R) :
    (m >>= k).Keeps R := fun s =>
  (hm s).bind fun a t ht =>
    (hk a t).mono (fun _ t' => htrans s t t' ht) fun _ t' => htrans s t t' ht

namespace Visit

/-- The walk of the node may report the event: one of a walk, and a link is missing only of an
operation in the content. -/
structure Reports (v : Visit ω) (e : Event) : Prop where
  component : e.component = .walk
  missing : ∀ name i, e = .childMissing name i →
    name = v.node.name ∧ .child i ∈ v.list.ops.toList ∧ v.list.children[i]? = none

/-- The walk of the node may hand out the operation: one that is recorded in the content comes from
there, and does not draw a child. -/
inductive Gives (v : Visit ω) : Operation → Prop
  | property (op : PropertyOp) : Gives v (.property op)
  | recorded {op : DrawOp} (hmem : op ∈ v.list.ops.toList) (hop : op.child? = none) :
    Gives v (.recorded op v.list)
  | child (ref : EdgeRef) (edge : Edge) : Gives v (.child ref edge)

/-- Every step of the walk of a node keeps the relation. -/
structure Keeping (v : Visit ω) (R : Stage ω → Stage ω → Prop) : Prop where
  refl : ∀ s, R s s
  trans : ∀ s t u, R s t → R t u → R s u
  canvas : ∀ s f, R s (s.onCanvas f)
  held : ∀ s held, R s { s with held }
  recent : ∀ s level name, R s (s.logOp level name)
  log : ∀ s {e}, v.Reports e → R s (s.log e)
  accept : ∀ s {op} offset, v.Gives op → R s (v.accepted op offset s)
  reject : (v.handler.reject v.level v.key v.node).Keeps R
  descend : ∀ key, (v.descend (v.level + 1) key).Keeps R

namespace Keeping

variable {v : Visit ω} {R : Stage ω → Stage ω → Prop} (hv : v.Keeping R)

include hv

/-! ### Parts of a walk -/

theorem bind {m : Walk ω α} {k : α → Walk ω β} (hm : m.Keeps R) (hk : ∀ a, (k a).Keeps R) :
    (m >>= k).Keeps R := hm.bind hv.trans hk

theorem pure (a : α) : (pure a : Walk ω α).Keeps R := fun s => Walk.Ends.pure (hv.refl s)

theorem throw (e : Fatal) : (throw e : Walk ω α).Keeps R := fun s => Walk.Ends.throw (hv.refl s)

theorem lift_bind {result : Except Fatal α} {k : α → Walk ω β}
    (hk : ∀ a, result = .ok a → (k a).Keeps R) : (Walk.lift result >>= k).Keeps R := by
  cases result with
  | ok a => exact hk a rfl
  | error e => exact hv.throw e

omit hv in
theorem get_bind {k : Stage ω → Walk ω β} (hk : ∀ s, (k s).Keeps R) : (get >>= k).Keeps R :=
  fun s => hk s s

omit hv in
theorem saveCount_bind {k : Nat → Walk ω β} (hk : ∀ count, (k count).Keeps R) :
    (Walk.saveCount >>= k).Keeps R := fun s => hk s.canvas.saveCount s

theorem forM {l : List γ} {k : γ → Walk ω Unit} (hk : ∀ x ∈ l, (k x).Keeps R) :
    (l.forM k).Keeps R := by
  induction l with
  | nil => exact hv.pure ()
  | cons x l ih =>
    exact hv.bind (hk x List.mem_cons_self) fun _ => ih fun y hy => hk y (List.mem_cons_of_mem _ hy)

theorem onCanvas (f : Canvas → Canvas) : (Walk.onCanvas f).Keeps R :=
  fun s => Walk.Ends.onCanvas (hv.canvas s f)

theorem enter {e : Event} (he : v.Reports e) : (Walk.log e).Keeps R :=
  fun s => Walk.Ends.log (hv.log s he) fun _ => hv.refl s

omit hv in
/-- An event of a walk that is not of a missing link may be reported. -/
theorem reports_of_ne {e : Event} (he : e.component = .walk)
    (hne : ∀ name i, e ≠ .childMissing name i) : v.Reports e :=
  ⟨he, fun name i h => absurd h (hne name i)⟩

/-! ### Handing out operations -/

theorem report {e : Event} (he : v.Reports e) : (v.report e).Keeps R := by
  unfold Visit.report
  split
  · exact hv.enter he
  · exact hv.pure ()

theorem hand {op : Operation} (hop : v.Gives op) (offset : Int) : (v.accept op offset).Keeps R :=
  fun s => Walk.Ends.modify (hv.accept s offset hop)

theorem give (op : PropertyOp) : (v.give op).Keeps R := hv.hand (.property op) 0

theorem innerLevel_bind {k : Nat → Walk ω β} (hk : (k (v.level + 1)).Keeps R) :
    (v.innerLevel >>= k).Keeps R := by
  unfold Visit.innerLevel
  split
  · exact hk
  · exact hv.throw _

theorem offer {op : Operation} (hop : v.Gives op) (offset : Int) : (v.offer op offset).Keeps R := by
  unfold Visit.offer
  refine hv.bind (hv.hand hop offset) fun _ => ?_
  cases op with
  | recorded op list => exact hv.pure ()
  | property op => exact hv.pure ()
  | child ref edge =>
    refine get_bind fun s => ?_
    cases s.held.contains ref with
    | true => exact hv.pure ()
    | false => exact hv.innerLevel_bind (hv.descend edge.child)

theorem place (ref : EdgeRef) (edge : Edge) (transform : Matrix) :
    (v.place ref edge transform).Keeps R := by
  unfold Visit.place
  refine saveCount_bind fun count => hv.bind (hv.onCanvas _) fun _ =>
    hv.bind (fun s => Walk.Ends.modify (hv.held s _)) fun _ => saveCount_bind fun _ => ?_
  exact hv.bind (hv.offer (.child ref edge) _) fun _ =>
    hv.bind (fun s => Walk.Ends.modify (hv.held s _)) fun _ => hv.onCanvas _

theorem clipped (mode : ClipMode) {body : Walk ω Unit} (hbody : body.Keeps R) :
    (v.clipped mode body).Keeps R := by
  unfold Visit.clipped
  exact saveCount_bind fun _ => hv.bind (hv.onCanvas _) fun _ => hv.bind (hv.give _) fun _ =>
    hv.bind hbody fun _ => hv.give _

/-! ### The passes -/

theorem take (turn : Sibling.Turn) : (v.take turn).Keeps R := by
  cases turn with
  | shadow c =>
    unfold Visit.take
    dsimp only
    split
    · exact hv.give _
    · exact hv.pure ()
  | content c => exact hv.place c.ref c.edge c.edge.transform

theorem drawBelow (sorted : List Sibling) : (v.drawBelow sorted).Keeps R := by
  unfold Visit.drawBelow
  split
  · exact hv.clipped _ (hv.forM fun c _ => hv.place c.ref c.edge c.edge.transform)
  · exact hv.pure ()

theorem drawAbove (sorted : List Sibling) : (v.drawAbove sorted).Keeps R := by
  unfold Visit.drawAbove
  split
  · exact hv.clipped _ (hv.forM fun turn _ => hv.take turn)
  · exact hv.pure ()

theorem receive (index : Nat) : (v.receive index).Keeps R := by
  unfold Visit.receive Visit.drawProjected
  split
  · refine hv.clipped _ (hv.bind (hv.enter (reports_of_ne rfl (by simp))) fun _ =>
      hv.forM fun ref _ => ?_)
    exact hv.lift_bind fun edge _ => hv.place ref edge _
  · exact hv.pure ()

/-! ### Content -/

/-- What an operation of the content stands for may be handed out. -/
theorem playOp (offset : Int) {op : DrawOp} (hop : op ∈ v.list.ops.toList) (index : Nat) :
    (v.playOp offset op index).Keeps R := by
  unfold Visit.playOp
  refine hv.bind (hv.report (reports_of_ne rfl (by simp))) fun _ =>
    hv.bind (fun s => Walk.Ends.modify (hv.recent s _ _)) fun _ => ?_
  have hown (hchild : op.child? = none) : (v.offer (.recorded op v.list) offset >>= fun _ =>
      v.receive index).Keeps R :=
    hv.bind (hv.offer (.recorded hop hchild) offset) fun _ => hv.receive index
  cases op with
  | child i =>
    simp only [Visit.operation]
    cases hedge : v.list.children[i]? with
    | none =>
      refine hv.enter ⟨rfl, fun name j heq => ?_⟩
      obtain ⟨rfl, rfl⟩ := Event.childMissing.inj heq
      exact ⟨rfl, hop, hedge⟩
    | some edge => exact hv.bind (hv.offer (.child _ edge) offset) fun _ => hv.receive index
  | _ => exact hown rfl

theorem drawContent : v.drawContent.Keeps R := by
  unfold Visit.drawContent
  refine hv.lift_bind fun siblings _ => ?_
  refine hv.bind (fun s => Walk.Ends.modify (hv.held s _)) fun _ => ?_
  refine hv.bind (hv.drawBelow _) fun _ => saveCount_bind fun count => ?_
  refine hv.bind (hv.forM fun op hop => ?_) fun _ => hv.drawAbove _
  exact hv.playOp _ (List.fst_mem_of_mem_zipIdx hop) _

/-! ### The whole visit -/

theorem applyAlpha (inner : Nat) : (v.applyAlpha inner).Keeps R := by
  unfold Visit.applyAlpha
  dsimp only
  split
  · split
    · exact hv.bind (hv.onCanvas _) fun _ => hv.pure _
    · split
      · exact hv.bind (hv.onCanvas _) fun _ => hv.pure _
      · exact hv.bind (hv.enter (reports_of_ne rfl (by simp))) fun _ =>
          hv.bind (hv.give _) fun _ => hv.pure _
  · exact hv.pure _

theorem applyProperties : v.applyProperties.Keeps R := by
  unfold Visit.applyProperties
  refine hv.innerLevel_bind (hv.bind (hv.onCanvas _) fun _ =>
    hv.bind (hv.applyAlpha _) fun clips => ?_)
  dsimp only
  split <;> split
  · exact hv.bind (hv.give _) fun _ => hv.give _
  · exact hv.bind (hv.give _) fun _ => hv.pure ()
  · exact hv.give _
  · exact hv.pure ()

theorem drawUnlessRejected : v.drawUnlessRejected.Keeps R := by
  unfold Visit.drawUnlessRejected Visit.isRejected
  refine get_bind fun s => ?_
  split
  · exact hv.bind (hv.report (reports_of_ne rfl (by simp))) fun _ => hv.reject
  · exact hv.drawContent

/-- The walk of a node with content keeps what each of its steps keeps. -/
theorem run : v.run.Keeps R := by
  unfold Visit.run
  refine get_bind fun s => hv.bind (hv.report (reports_of_ne rfl (by simp))) fun _ => ?_
  refine saveCount_bind fun count => hv.bind (hv.give _) fun _ =>
    hv.bind (hv.enter (reports_of_ne rfl (by simp))) fun _ => ?_
  refine hv.bind hv.applyProperties fun _ => hv.bind hv.drawUnlessRejected fun _ => ?_
  exact hv.bind (hv.enter (reports_of_ne rfl (by simp))) fun _ =>
    hv.bind (hv.give _) fun _ => hv.onCanvas _

end Keeping

end Visit

/-- What every step of the walk of a node keeps, and what its handler does before and after it, is
kept by walks, at every level. -/
theorem visit_keeps {h : Handler ω} {f : Frame} {R : Nat → Stage ω → Stage ω → Prop}
    (hrefl : ∀ level s, R level s s)
    (htrans : ∀ level s t u, R level s t → R level t u → R level s u)
    (hblank : ∀ level name s, R level s (s.log (.nothingToDraw level name)))
    (henter : ∀ level key node, (h.enter level key node).Keeps (R level))
    (hleave : ∀ level key node, (h.leave level key node).Keeps (R level))
    (hvisit : ∀ v : Visit ω, v.handler = h → v.frame = f → f.nodes.get? v.key = some v.node →
      v.node.content = some v.list →
      (∀ key, (v.descend (v.level + 1) key).Keeps (R (v.level + 1))) →
      v.Keeping (R v.level)) (levels level : Nat) (key : Key) :
    (visit h f levels level key).Keeps (R level) := by
  induction levels generalizing level key with
  | zero => exact fun s => Walk.Ends.throw (hrefl level s)
  | succ levels ih =>
    unfold visit
    cases hnode : f.nodes.node key with
    | error e => exact fun s => Walk.Ends.throw (hrefl level s)
    | ok node =>
      refine (henter level key node).bind (htrans level) fun _ => ?_
      dsimp only
      cases hlist : node.shown? with
      | none =>
        have hlog : (Walk.log (.nothingToDraw level node.name)).Keeps (R level) :=
          fun s => Walk.Ends.log (hblank level node.name s) fun _ => hrefl level s
        exact hlog.bind (htrans level) fun _ => hleave level key node
      | some list =>
        have hv := hvisit ⟨h, f, visit h f levels, level, key, node, list⟩ rfl rfl
          (NodeStore.node_eq_ok_iff.mp hnode) (Node.content_of_shown? hlist) fun key => ih _ key
        exact hv.run.bind (htrans level) fun _ => hleave level key node

/-! ### What is seen -/

/-- The second list is the first one with more at its end, all of it as said. -/
def Gains (P : α → Prop) (l l' : List α) : Prop := ∃ more, l' = l ++ more ∧ ∀ x ∈ more, P x

namespace Gains

variable {P : α → Prop} {l l' l'' : List α}

theorem refl (l : List α) : Gains P l l := ⟨[], (List.append_nil l).symm, fun _ hx => nomatch hx⟩

theorem trans (h : Gains P l l') (h' : Gains P l' l'') : Gains P l l'' := by
  obtain ⟨more, rfl, hall⟩ := h
  obtain ⟨more', rfl, hall'⟩ := h'
  refine ⟨more ++ more', List.append_assoc _ _ _, fun x hx => ?_⟩
  exact (List.mem_append.mp hx).elim (hall x) (hall' x)

theorem single {x : α} (hx : P x) (h : l' = l ++ [x]) : Gains P l l' :=
  ⟨[x], h, fun _ hy => List.mem_singleton.mp hy ▸ hx⟩

end Gains

section Seen

variable {P : Sight → Prop} {s t u : Stage (ω × List Sight)}

/-- All that was seen in between is as said. -/
def Stage.Sees (P : Sight → Prop) (s t : Stage (ω × List Sight)) : Prop := Gains P s.seen t.seen

theorem Stage.Sees.forall_seen (h : s.Sees P t) (hs : s.seen = []) : ∀ x ∈ t.seen, P x := by
  obtain ⟨log, hlog, hall⟩ := h
  rw [hlog, hs]
  exact hall

/-- A handler sees nothing of what it does by itself. -/
theorem Walk.unseen_keeps (P : Sight → Prop) (m : Walk ω α) : m.unseen.Keeps (Stage.Sees P) := by
  intro s
  unfold Walk.Ends Walk.unseen
  cases m s.unwatched with
  | ok a t => exact .refl _
  | error e t => exact .refl _

theorem Walk.see_keeps {x : DisplayState → Sight} (hx : ∀ state, P (x state)) :
    (Walk.see x : Walk (ω × List Sight) Unit).Keeps (Stage.Sees P) :=
  fun _ => Walk.Ends.modify (.single (hx _) rfl)

/-- What may be said of all that is seen at a single node is so of all that is seen of a walk. -/
theorem visit_sees {h : Handler ω} {f : Frame} (hentered : ∀ level key, P (.entered level key))
    (hrejected : ∀ level key state, P (.rejected level key state))
    (hleft : ∀ level key, P (.left level key))
    (hhanded : ∀ v : Visit (ω × List Sight), v.frame = f → f.nodes.get? v.key = some v.node →
      v.node.content = some v.list → ∀ op, v.Gives op → ∀ state held,
        P (.handed v.level v.key op state held)) (levels level : Nat) (key : Key) :
    (visit h.watched f levels level key).Keeps (Stage.Sees P) := by
  have htrans : ∀ s t u : Stage (ω × List Sight), s.Sees P t → t.Sees P u → s.Sees P u :=
    fun _ _ _ => Gains.trans
  refine visit_keeps (R := fun _ => Stage.Sees P) (fun _ _ => .refl _) (fun _ => htrans)
    (fun _ _ _ => .refl _) ?_ ?_ ?_ levels level key
  · intro level key node
    exact (Walk.see_keeps fun _ => hentered level key).bind htrans fun _ => Walk.unseen_keeps P _
  · intro level key node
    exact (Walk.unseen_keeps P _).bind htrans fun _ => Walk.see_keeps fun _ => hleft level key
  · intro v hv hf hnode hlist hdescend
    refine ⟨fun _ => .refl _, htrans, fun _ _ => .refl _, fun _ _ => .refl _,
      fun _ _ _ => .refl _, fun _ _ _ => .refl _, ?_, ?_, hdescend⟩
    · intro s op offset hop
      refine .single (hhanded v hf hnode hlist op hop s.canvas.displayState (op.isHeld s.held)) ?_
      unfold Visit.accepted
      rw [hv]
      rfl
    · rw [hv]
      exact (Walk.see_keeps (hrejected v.level v.key)).bind htrans fun _ => Walk.unseen_keeps P _

/-- What is so of all that is seen of a walk is so of the sights of a walk in a world. -/
theorem World.sights_of_sees {w : World} {h : Handler ω} {level : Nat} {key : Key}
    (hsees : (visit h.watched w.frame (levelCount - level) level key).Keeps (Stage.Sees P))
    (start : ω) (canvas : Canvas) : ∀ x ∈ w.sights h start canvas level key, P x := by
  have hsees := hsees (w.stage canvas (start, []))
  unfold Walk.Ends at hsees
  unfold sights
  revert hsees
  cases visit h.watched w.frame (levelCount - level) level key (w.stage canvas (start, [])) with
  | ok a t => exact fun hsees => hsees.forall_seen rfl
  | error e t => exact fun hsees => hsees.forall_seen rfl

end Seen

end RetainedScene
