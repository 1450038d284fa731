import RetainedScene.Proofs.Walk.Agenda

/-!
# The course of a walk

What the walk of a node comes to is said here once, for every handler and every scene (`Walked`).
A node with nothing to show is entered and left.  Of any other node the state of the canvas is saved
and the properties are applied.  Then its bounds are rejected, or its recorded operations are handed
out, each in its turn, and between them there are passes over children out of place, each pass under
a clip.  In the end the count of saves is restored, and the alpha of the layer is reset.

`visit_induct` is the induction that comes with it: a property of the walks of all nodes follows
from the cases of `Walked`, given the property for what is descended into.

The walk of one node ends in few errors by itself (`Frame.Faults`), and goes on to nodes that it has
links to, or that are projected to it (`Frame.GoesOn`).  With these the same lemmas say when a walk
comes to its end.
-/

namespace RetainedScene

open Relation

variable {ω : Type}

/-! ### Steps of a walk -/

/-- The canvas, the links that are held back and what the handler gathers are as they were. -/
structure Stage.Idles (s t : Stage ω) : Prop where
  canvas : t.canvas = s.canvas
  held : t.held = s.held
  gathered : t.gathered = s.gathered

/-- The alpha of the layer that the content of a cached node is drawn into. -/
def Properties.layerAlpha? (p : Properties) : Option Single :=
  if p.alpha < 1 ∧ p.caching = true then some p.alpha else none

namespace Visit

/-- The stage after an operation of the node was handed out. -/
def accepted (v : Visit ω) (op : Operation) (offset : Int) (s : Stage ω) : Stage ω :=
  v.handler.accept v.level v.key op offset v.properties.clipToBounds s

/-- A child is handed out, and descended into unless it is held back.  What is descended into comes
to what `below` says of its node. -/
inductive Offers (v : Visit ω) (below : Key → Stage ω → Stage ω → Prop) (ref : EdgeRef)
    (edge : Edge) (offset : Int) (s : Stage ω) : Stage ω → Prop
  | held (hheld : s.held.contains ref = true) :
    Offers v below ref edge offset s (v.accepted (.child ref edge) offset s)
  | descent {t : Stage ω} (hfree : s.held.contains ref = false)
    (hbelow : below edge.child (v.accepted (.child ref edge) offset s) t) :
    Offers v below ref edge offset s t

/-- What a pass places, by the clip that it is under: elevated children of the node, or what is
projected to it. -/
inductive Placing (v : Visit ω) : ClipMode → EdgeRef → Edge → Matrix → Prop
  | sibling {c : Sibling} (hc : c ∈ Sibling.byHeight (v.frame.nodes.children v.key)) :
    Placing v .intersect c.ref c.edge c.edge.transform
  | projected {ref : EdgeRef} {edge : Edge} (href : ref ∈ v.frame.projectedAt v.key)
    (hedge : v.frame.nodes.edge ref = .ok edge) :
    Placing v .replace ref edge (v.frame.compositingOf ref)

/-- A turn in a pass over children out of place. -/
inductive Turns (v : Visit ω) (below : Key → Stage ω → Stage ω → Prop) (mode : ClipMode) :
    Stage ω → Stage ω → Prop
  | idle {s t : Stage ω} (hidle : s.Idles t) : Turns v below mode s t
  | shadow (shadow : Shadow) (s : Stage ω) :
    Turns v below mode s (v.accepted (.property (.shadow shadow)) 0 s)
  /-- A child is let go for its draw, under a save of its own. -/
  | placed {ref : EdgeRef} {edge : Edge} {transform : Matrix} {offset : Int} {s t : Stage ω}
    (hplacing : v.Placing mode ref edge transform)
    (hoffers : v.Offers below ref edge offset
      ((s.onCanvas fun c => (c.save .matrix).concat transform).letGo ref) t) :
    Turns v below mode s ((t.hold ref).onCanvas (·.restoreTo s.canvas.saveCount))

/-- The walk of a node's content, as far as it has handed out operations. -/
inductive Course (v : Visit ω) (below : Key → Stage ω → Stage ω → Prop) (offset : Int) :
    List DrawOp → Stage ω → Stage ω → Prop
  | idle {s t : Stage ω} (hidle : s.Idles t) : Course v below offset [] s t
  | own {op : DrawOp} (hop : op.child? = none) (s : Stage ω) :
    Course v below offset [op] s (v.accepted (.recorded op v.list) offset s)
  | link {i : Nat} {edge : Edge} {s t : Stage ω}
    (hedge : v.frame.nodes.edge ⟨v.key, i⟩ = .ok edge)
    (hoffers : v.Offers below ⟨v.key, i⟩ edge offset s t) : Course v below offset [.child i] s t
  | missing {i : Nat} {s t : Stage ω} (hidle : s.Idles t) : Course v below offset [.child i] s t
  /-- A pass over children out of place. -/
  | pass {mode : ClipMode} {s t : Stage ω}
    (hturns : ReflTransGen (v.Turns below mode)
      (v.accepted (.property (.clipRect v.properties.bounds mode)) 0
        (s.onCanvas (·.save .matrixClip))) t) :
    Course v below offset [] s (v.accepted (.property (.restoreTo s.canvas.saveCount)) 0 t)
  | trans {ops ops' : List DrawOp} {s t u : Stage ω} (h : Course v below offset ops s t)
    (h' : Course v below offset ops' t u) : Course v below offset (ops ++ ops') s u

/-- The properties of the node are applied, with the alpha that they give to the layer. -/
inductive Opens (v : Visit ω) : Option Single → Stage ω → Stage ω → Prop
  | idle {s t : Stage ω} (hidle : s.Idles t) : Opens v none s t
  /-- The transforms and the alpha of the node change the state in force. -/
  | adjusted (f : Snapshot → Snapshot) (s : Stage ω) : Opens v none s (s.onCanvas (·.modify f))
  | layer (s : Stage ω) :
    Opens v (some v.properties.alpha) s (s.onCanvas (·.setLayerAlpha v.properties.alpha))
  | given {op : PropertyOp} (hop : ∀ count, op ≠ .restoreTo count) (s : Stage ω) :
    Opens v none s (v.accepted (.property op) 0 s)
  | trans {a b : Option Single} {s t u : Stage ω} (h : Opens v a s t) (h' : Opens v b t u) :
    Opens v (b.or a) s u

/-- What comes between the properties of the node and the restore at its end. -/
inductive Inside (v : Visit ω) (below : Key → Stage ω → Stage ω → Prop) :
    Stage ω → Stage ω → Prop
  | rejected {s s' t : Stage ω} (hidle : s.Idles s')
    (hrejected : v.node.isRejectedIn s.canvas.displayState)
    (hreject : v.handler.reject v.level v.key v.node s' = .ok () t) : Inside v below s t
  /-- The children are sorted first.  The operations restore to counts from the save count after the
  pass below zero. -/
  | drawn {s m t : Stage ω} (hbelow : ∀ offset, v.Course below offset []
      { s with held := Sibling.holdElevated (v.frame.nodes.children v.key) s.held } m)
    (hcontent : v.Course below (m.canvas.saveCount - 1) v.list.ops.toList m t) : Inside v below s t

theorem seen_of_rejected {v : Visit (ω × List Sight)} {h : Handler ω} (hv : v.handler = h.watched)
    {s s' t : Stage (ω × List Sight)} (hidle : s.Idles s')
    (hreject : v.handler.reject v.level v.key v.node s' = .ok () t) :
    t.seen = s.seen ++ [.rejected v.level v.key s.canvas.displayState] := by
  rw [hv] at hreject
  rw [Handler.seen_of_reject hreject, hidle.canvas, Stage.seen, hidle.gathered]
  rfl

/-- The walk of the node after it was entered and before it is left. -/
inductive Runs (v : Visit ω) (below : Key → Stage ω → Stage ω → Prop) (s : Stage ω) :
    Stage ω → Prop
  | run {s₀ s₁ s₂ s₃ : Stage ω} (hstart : s.Idles s₀)
    (hopens : v.Opens v.properties.layerAlpha? (v.accepted (.property (.save .matrixClip)) 0 s₀) s₁)
    (hinside : v.Inside below s₁ s₂) (hend : s₂.Idles s₃) :
    Runs v below s ((v.accepted (.property (.restoreTo s.canvas.saveCount)) 0 s₃).onCanvas
      (·.setLayerAlpha 1))

end Visit

/-- The walk of a node at a level.  What is descended into comes to what `below` says of its level
and its node. -/
inductive Walked (h : Handler ω) (f : Frame) (below : Nat → Key → Stage ω → Stage ω → Prop) :
    Nat → Key → Stage ω → Stage ω → Prop
  | blank {level : Nat} {key : Key} {node : Node} {s s₁ s₂ t : Stage ω}
    (hnode : f.nodes.get? key = some node) (hblank : node.shown? = none)
    (henter : h.enter level key node s = .ok () s₁) (hidle : s₁.Idles s₂)
    (hleave : h.leave level key node s₂ = .ok () t) : Walked h f below level key s t
  | shown {v : Visit ω} {s s₁ s₂ t : Stage ω} (hhandler : v.handler = h) (hframe : v.frame = f)
    (hnode : f.nodes.get? v.key = some v.node) (hlist : v.node.shown? = some v.list)
    (henter : h.enter v.level v.key v.node s = .ok () s₁)
    (hruns : v.Runs (below (v.level + 1)) s₁ s₂)
    (hleave : h.leave v.level v.key v.node s₂ = .ok () t) : Walked h f below v.level v.key s t

/-! ### Where a walk goes on, and where it may end -/

namespace Frame

/-- The walk of a node may go on to the walk of another one. -/
def GoesOn (f : Frame) (a b : Key) : Prop :=
  f.nodes.Leads a b ∨ ∃ ref ∈ f.projectedAt a, ∃ edge, f.nodes.edge ref = .ok edge ∧ edge.child = b

/-- The errors that the walk of a node at a level may end in by itself. -/
inductive Faults (f : Frame) (level : Nat) (key : Key) : Fatal → Prop
  | margin {indent : Nat} (hindent : indent ≤ level + 1) (hmargin : Text.hasMargin indent = false) :
    Faults f level key .marginTooWide
  | overflow (hlevel : levelCount ≤ level + 1) : Faults f level key .overflow
  | gone {e : Fatal} (hnode : f.nodes.node key = .error e) : Faults f level key e
  | child {e : Fatal} {node : Node} {list : DisplayList} (hnode : f.nodes.get? key = some node)
    (hlist : node.content = some list) (hsiblings : f.nodes.siblings key list = .error e) :
    Faults f level key e
  | stale {e : Fatal} {ref : EdgeRef} (href : ref ∈ f.projectedAt key)
    (hedge : f.nodes.edge ref = .error e) : Faults f level key e

end Frame

/-! ### Visits -/

theorem Canvas.modify_modify (c : Canvas) (f g : Snapshot → Snapshot) :
    (c.modify f).modify g = c.modify (g ∘ f) := rfl

/-- The transforms of a node change the state in force only. -/
theorem Visit.exists_transformed_eq (p : Properties) (c : Canvas) :
    ∃ f, transformed p c = c.modify f := by
  have hconcat {d : Canvas} (m : Matrix) (hd : ∃ f, d = c.modify f) :
      ∃ f, d.concat m = c.modify f := by
    obtain ⟨f, rfl⟩ := hd
    exact ⟨_, Canvas.modify_modify c f _⟩
  have hite {q : Prop} [Decidable q] {d d' : Canvas} (hd : ∃ f, d = c.modify f)
      (hd' : ∃ f, d' = c.modify f) : ∃ f, (if q then d else d') = c.modify f := by
    split
    · exact hd
    · exact hd'
  have hsame : ∃ f, c = c.modify f := ⟨id, rfl⟩
  have hoffset : ∃ f, (if p.hasOffset then c.translate p.left p.top else c) = c.modify f :=
    hite (hconcat _ hsame) hsame
  unfold transformed
  cases p.fixedMatrix? with
  | none => exact hite hoffset (hite (hconcat _ hoffset) (hconcat _ hoffset))
  | some fixed =>
    have hfixed := hconcat fixed hoffset
    exact hite hfixed (hite (hconcat _ hfixed) (hconcat _ hfixed))

theorem Stage.Idles.refl (s : Stage ω) : s.Idles s := ⟨rfl, rfl, rfl⟩

theorem Walk.Ends.self {α : Type} {m : Walk ω α} {s : Stage ω} {fine : α → Stage ω → Prop}
    {failed : Fatal → Stage ω → Prop} (h : m.Ends s fine failed) :
    m.Ends s (fun a t => m s = .ok a t ∧ fine a t) failed := by
  unfold Walk.Ends at h ⊢
  cases hm : m s with
  | ok a t => rw [hm] at h; exact ⟨rfl, h⟩
  | error e t => rw [hm] at h; exact h

theorem Walk.Ends.of_eq_ok {α : Type} {m : Walk ω α} {s t : Stage ω} {a : α}
    {fine : α → Stage ω → Prop} {failed : Fatal → Stage ω → Prop} (h : m.Ends s fine failed)
    (hm : m s = .ok a t) : fine a t := by
  unfold Walk.Ends at h
  rw [hm] at h
  exact h

/-- What a neutral handler does at a level may end in a fault of the node that it is done for. -/
theorem Walk.Neutral.ends_self {m : Walk ω Unit} {l level : Nat} (hm : m.Neutral l)
    (hl : l ≤ level + 1) {f : Frame} {key : Key} {failed : Fatal → Prop}
    (hfaults : ∀ e, f.Faults level key e → failed e) (s : Stage ω) :
    m.Ends s (fun _ t => m s = .ok () t) fun e _ => failed e := by
  refine (hm s).self.mono (fun _ _ h => h.1) fun e t ⟨_, he, hadmits⟩ => ?_
  subst he
  refine hfaults _ (.margin hl ?_)
  rw [← Bool.not_eq_true]
  exact fun h => hadmits fun _ => h

theorem Journal.hasMargin_of_refuses {j : Journal} {e : Event} (h : j.refuses e = true) :
    Text.hasMargin e.indent = false := by
  simp only [refuses, Bool.and_eq_true, Bool.not_eq_true'] at h
  exact h.2

namespace Visit

/-- The walk of a node with content, given what is descended into: it may end in the errors that the
walk of a node may end in by itself, and in those of what it goes on to. -/
structure Stands (v : Visit ω) (below : Key → Stage ω → Stage ω → Prop) (failed : Fatal → Prop) :
    Prop where
  neutral : v.handler.Neutral
  node : v.frame.nodes.get? v.key = some v.node
  list : v.node.content = some v.list
  faults : ∀ e, v.frame.Faults v.level v.key e → failed e
  descend : ∀ child s, v.frame.GoesOn v.key child →
    (v.descend (v.level + 1) child).Ends s (fun _ t => below child s t) fun e _ => failed e

namespace Stands

variable {v : Visit ω} {below : Key → Stage ω → Stage ω → Prop} {failed : Fatal → Prop}
  {s : Stage ω} {ref : EdgeRef} {edge : Edge}
  (hv : v.Stands below failed)

include hv

theorem log {e : Event} (he : e.indent ≤ v.level + 1) :
    (Walk.log e).Ends s (fun _ t => s.Idles t) fun e _ => failed e :=
  Walk.Ends.log ⟨rfl, rfl, rfl⟩ fun hr => hv.faults _ (.margin he (Journal.hasMargin_of_refuses hr))

theorem report {e : Event} (he : e.indent ≤ v.level + 1) :
    (v.report e).Ends s (fun _ t => s.Idles t) fun e _ => failed e :=
  (v.report_ends fun hr => hv.faults _ (.margin he (Journal.hasMargin_of_refuses hr))).imp
    fun _ _ ⟨_, ht⟩ => ht ▸ ⟨rfl, rfl, rfl⟩

theorem innerLevel : v.innerLevel.Ends s (fun inner t => inner = v.level + 1 ∧ t = s)
    fun e _ => failed e := by
  unfold Visit.innerLevel
  split
  · exact Walk.Ends.pure ⟨rfl, rfl⟩
  · next hlevel => exact Walk.Ends.throw (hv.faults _ (.overflow (Nat.le_of_not_lt hlevel)))

/-! #### Children -/

theorem offer_child (hgo : v.frame.GoesOn v.key edge.child) (offset : Int) :
    (v.offer (.child ref edge) offset).Ends s (fun _ t => v.Offers below ref edge offset s t)
      fun e _ => failed e := by
  unfold Visit.offer
  refine Walk.Ends.modify_bind (Walk.Ends.get_bind ?_)
  have hheld : (v.accepted (.child ref edge) offset s).held = s.held := hv.neutral.held _ _ _ _ _ _
  show Walk.Ends (if (v.accepted (.child ref edge) offset s).held.contains ref = true then _ else _)
    (v.accepted (.child ref edge) offset s) _ _
  rw [hheld]
  cases hcontains : s.held.contains ref with
  | true => exact Walk.Ends.pure (.held hcontains)
  | false =>
    refine hv.innerLevel.bind fun inner t ⟨hinner, ht⟩ => ?_
    subst hinner ht
    exact (hv.descend _ _ hgo).imp fun _ t hbelow => .descent hcontains hbelow

theorem place {mode : ClipMode} {transform : Matrix}
    (hplacing : v.Placing mode ref edge transform) :
    (v.place ref edge transform).Ends s (fun _ t => v.Turns below mode s t)
      fun e _ => failed e := by
  have hgo : v.frame.GoesOn v.key edge.child := by
    cases hplacing with
    | sibling hc =>
      obtain ⟨hparent, hedge, -⟩ := NodeStore.mem_children.mp (Sibling.mem_byHeight.mp hc).1
      exact .inl (hparent ▸ NodeStore.leads_of_edge hedge)
    | projected href hedge => exact .inr ⟨ref, href, edge, hedge, rfl⟩
  unfold Visit.place
  refine Walk.Ends.saveCount_bind (Walk.Ends.onCanvas_bind (Walk.Ends.modify_bind
    (Walk.Ends.saveCount_bind ?_)))
  exact (hv.offer_child hgo _).bind fun _ t hoffers =>
    Walk.Ends.modify_bind (Walk.Ends.onCanvas (.placed hplacing hoffers))

omit hv in
/-- A pass is made of what is done for each element of a list. -/
theorem forM {γ : Type} {mode : ClipMode} {k : γ → Walk ω Unit} {l : List γ}
    (hk : ∀ x ∈ l, ∀ s, (k x).Ends s (fun _ t => v.Turns below mode s t) fun e _ => failed e) :
    (l.forM k).Ends s (fun _ t => ReflTransGen (v.Turns below mode) s t) fun e _ => failed e := by
  induction l generalizing s with
  | nil => exact Walk.Ends.pure .refl
  | cons x l ih =>
    refine (hk x List.mem_cons_self s).bind fun _ t hturn => ?_
    exact (ih fun y hy => hk y (List.mem_cons_of_mem _ hy)).imp fun _ u hturns =>
      .head hturn hturns

omit hv in
theorem clipped (mode : ClipMode) {body : Walk ω Unit}
    (hbody : ∀ s, body.Ends s (fun _ t => ReflTransGen (v.Turns below mode) s t)
      fun e _ => failed e) :
    (v.clipped mode body).Ends s (fun _ t => ∀ offset, v.Course below offset [] s t)
      fun e _ => failed e := by
  unfold Visit.clipped
  refine Walk.Ends.saveCount_bind (Walk.Ends.onCanvas_bind (Walk.Ends.modify_bind ?_))
  exact (hbody _).bind fun _ t hturns => Walk.Ends.modify fun _ => .pass hturns

theorem placeSibling {c : Sibling} (hc : c ∈ Sibling.byHeight (v.frame.nodes.children v.key)) :
    (v.placeSibling c).Ends s (fun _ t => v.Turns below .intersect s t) fun e _ => failed e :=
  hv.place (.sibling hc)

theorem take {turn : Sibling.Turn}
    (hturn : ∀ c, turn = .content c → c ∈ Sibling.byHeight (v.frame.nodes.children v.key)) :
    (v.take turn).Ends s (fun _ t => v.Turns below .intersect s t) fun e _ => failed e := by
  cases turn with
  | shadow c =>
    unfold Visit.take
    dsimp only
    split
    · exact Walk.Ends.modify (.shadow _ s)
    · exact Walk.Ends.pure (.idle (.refl s))
  | content c => exact hv.placeSibling (hturn c rfl)

theorem drawBelow :
    (v.drawBelow (Sibling.byHeight (v.frame.nodes.children v.key))).Ends s
      (fun _ t => ∀ offset, v.Course below offset [] s t) fun e _ => failed e := by
  unfold Visit.drawBelow
  split
  · exact clipped _ fun s => forM fun c hc s =>
      hv.placeSibling ((List.takeWhile_prefix _).subset hc)
  · exact Walk.Ends.pure fun _ => .idle (.refl s)

theorem drawAbove :
    (v.drawAbove (Sibling.byHeight (v.frame.nodes.children v.key))).Ends s
      (fun _ t => ∀ offset, v.Course below offset [] s t) fun e _ => failed e := by
  unfold Visit.drawAbove
  split
  · refine clipped _ fun s => forM fun turn hturn s => hv.take fun c hc => ?_
    exact (List.dropWhile_suffix _).subset (Sibling.mem_of_content_mem_schedule (hc ▸ hturn))
  · exact Walk.Ends.pure fun _ => .idle (.refl s)

theorem placeProjected (href : ref ∈ v.frame.projectedAt v.key) :
    (v.placeProjected ref).Ends s (fun _ t => v.Turns below .replace s t)
      fun e _ => failed e := by
  unfold Visit.placeProjected
  cases hedge : v.frame.nodes.edge ref with
  | error e => exact Walk.Ends.throw (hv.faults e (.stale href hedge))
  | ok edge => exact hv.place (.projected href hedge)

/-! #### Content -/

theorem receive (index : Nat) : (v.receive index).Ends s
    (fun _ t => ∀ offset, v.Course below offset [] s t) fun e _ => failed e := by
  unfold Visit.receive Visit.drawProjected
  split
  · refine clipped _ fun s => (hv.log (Nat.le_succ _)).bind fun _ t hidle => ?_
    refine (forM fun ref href s => hv.placeProjected href).imp fun _ u hturns => ?_
    exact .head (.idle hidle) hturns
  · exact Walk.Ends.pure fun _ => .idle (.refl s)

theorem playOp (offset : Int) (op : DrawOp) (index : Nat) :
    (v.playOp offset op index).Ends s (fun _ t => v.Course below offset [op] s t)
      fun e _ => failed e := by
  unfold Visit.playOp
  refine (hv.report (Nat.le_refl _)).bind fun _ s₁ hidle => Walk.Ends.modify_bind ?_
  have hstart : v.Course below offset [] s (s₁.logOp v.level op.name) :=
    .idle ⟨hidle.canvas, hidle.held, hidle.gathered⟩
  generalize s₁.logOp v.level op.name = s₁ at hstart
  have hown (hop : op.child? = none) : (v.offer (.recorded op v.list) offset >>= fun _ =>
      v.receive index).Ends s₁ (fun _ t => v.Course below offset [op] s t) fun e _ => failed e := by
    refine Walk.Ends.modify_bind ((hv.receive index).imp fun _ t hreceive => ?_)
    exact hstart.trans ((Course.own hop s₁).trans (hreceive offset))
  cases op with
  | child i =>
    simp only [Visit.operation]
    cases hedge : v.list.children[i]? with
    | none =>
      exact (hv.log (Nat.zero_le _)).imp fun _ t hidle => hstart.trans (.missing hidle)
    | some edge =>
      have hlink : v.frame.nodes.edge ⟨v.key, i⟩ = .ok edge :=
        NodeStore.edge_eq_ok_iff.mpr ⟨v.node, v.list, hv.node, hv.list, hedge⟩
      have hgo : v.frame.GoesOn v.key edge.child := .inl (NodeStore.leads_of_edge hlink)
      refine (hv.offer_child hgo offset).bind fun _ t hoffers => ?_
      exact (hv.receive index).imp fun _ u hreceive =>
        hstart.trans ((Course.link hlink hoffers).trans (hreceive offset))
  | _ => exact hown rfl

theorem playOps (offset : Int) (ops : List (DrawOp × Nat)) :
    (ops.forM fun (op, index) => v.playOp offset op index).Ends s
      (fun _ t => v.Course below offset (ops.map Prod.fst) s t) fun e _ => failed e := by
  induction ops generalizing s with
  | nil => exact Walk.Ends.pure (.idle (.refl s))
  | cons op ops ih =>
    refine (hv.playOp offset op.1 op.2).bind fun _ t hop => ?_
    exact ih.imp fun _ u hops => hop.trans hops

theorem drawContent : v.drawContent.Ends s (fun _ t => v.Inside below s t)
    fun e _ => failed e := by
  unfold Visit.drawContent
  cases hsiblings : v.frame.nodes.siblings v.key v.list with
  | error e => exact Walk.Ends.throw (hv.faults e (.child hv.node hv.list hsiblings))
  | ok siblings =>
    refine Walk.Ends.lift_bind rfl (Walk.Ends.modify_bind ?_)
    obtain rfl := NodeStore.eq_children_of_siblings hv.node hv.list hsiblings
    dsimp only
    rw [Sibling.elevated_eq (NodeStore.pairwise_children v.frame.nodes v.key)]
    refine hv.drawBelow.bind fun _ m hbelow => Walk.Ends.saveCount_bind ?_
    refine (hv.playOps _ v.list.ops.toList.zipIdx).bind fun _ t hplayed => ?_
    rw [List.zipIdx_map_fst] at hplayed
    refine hv.drawAbove.imp fun _ u habove => ?_
    exact .drawn hbelow (List.append_nil v.list.ops.toList ▸ hplayed.trans (habove _))

/-! #### Properties -/

theorem applyAlpha : (v.applyAlpha (v.level + 1)).Ends s
    (fun _ t => v.Opens v.properties.layerAlpha? s t) fun e _ => failed e := by
  have hlayer (h : ¬ (v.properties.alpha < 1 ∧ v.properties.caching = true)) :
      v.properties.layerAlpha? = none := if_neg h
  unfold Visit.applyAlpha
  dsimp only
  split
  · next halpha =>
    split
    · next hcaching =>
      rw [Properties.layerAlpha?, if_pos ⟨halpha, hcaching⟩]
      exact Walk.Ends.onCanvas_bind (Walk.Ends.pure (Opens.layer s))
    · next hcaching =>
      rw [hlayer fun h => hcaching h.2]
      split
      · exact Walk.Ends.onCanvas_bind (Walk.Ends.pure (Opens.adjusted _ s))
      · refine (hv.log (Nat.le_refl _)).bind fun _ t hidle => Walk.Ends.modify_bind ?_
        exact Walk.Ends.pure ((Opens.idle hidle).trans (.given (fun _ => PropertyOp.noConfusion) t))
  · next halpha =>
    rw [hlayer fun h => halpha h.1]
    exact Walk.Ends.pure (Opens.idle (.refl s))

theorem applyProperties : v.applyProperties.Ends s
    (fun _ t => v.Opens v.properties.layerAlpha? s t) fun e _ => failed e := by
  unfold Visit.applyProperties
  refine hv.innerLevel.bind fun inner s₁ ⟨hinner, hs₁⟩ => ?_
  subst hinner hs₁
  refine Walk.Ends.onCanvas_bind (hv.applyAlpha.bind fun clips t halpha => ?_)
  obtain ⟨f, hf⟩ := exists_transformed_eq v.properties s₁.canvas
  have htransformed : v.Opens none s₁ (s₁.onCanvas (transformed v.properties)) := by
    unfold Stage.onCanvas
    rw [hf]
    exact .adjusted f s₁
  have hopens : v.Opens v.properties.layerAlpha? s₁ t :=
    Option.or_none (o := v.properties.layerAlpha?) ▸ htransformed.trans halpha
  have hgive {op : PropertyOp} (hop : ∀ count, op ≠ .restoreTo count) {t : Stage ω}
      (ht : v.Opens v.properties.layerAlpha? s₁ t) : (v.give op).Ends t
        (fun _ t => v.Opens v.properties.layerAlpha? s₁ t) fun e _ => failed e :=
    Walk.Ends.modify (ht.trans (.given hop t))
  dsimp only
  split <;> split
  · exact (hgive (fun _ => PropertyOp.noConfusion) hopens).bind fun _ _ hopens =>
      hgive (fun _ => PropertyOp.noConfusion) hopens
  · exact (hgive (fun _ => PropertyOp.noConfusion) hopens).bind fun _ _ hopens =>
      Walk.Ends.pure hopens
  · exact hgive (fun _ => PropertyOp.noConfusion) hopens
  · exact Walk.Ends.pure hopens

/-! #### The whole visit -/

theorem drawUnlessRejected : v.drawUnlessRejected.Ends s (fun _ t => v.Inside below s t)
    fun e _ => failed e := by
  unfold Visit.drawUnlessRejected Visit.isRejected
  refine Walk.Ends.get_bind ?_
  split
  · next hrejected =>
    refine (hv.report (Nat.le_refl _)).bind fun _ t hidle => ?_
    exact ((hv.neutral.reject v.level v.key v.node).ends_self (Nat.le_succ _) hv.faults t).imp
      fun _ u hreject => .rejected hidle hrejected hreject
  · exact hv.drawContent

/-- The walk of the node, once it was entered. -/
theorem run : v.run.Ends s (fun _ t => v.Runs below s t) fun e _ => failed e := by
  unfold Visit.run
  refine Walk.Ends.get_bind ((hv.report (Nat.le_succ _)).bind fun _ s₀ hstart => ?_)
  refine Walk.Ends.saveCount_bind (Walk.Ends.modify_bind ?_)
  refine (hv.log (Nat.le_refl _)).bind fun _ s₁ hsaved => ?_
  refine hv.applyProperties.bind fun _ s₂ hopens => ?_
  refine hv.drawUnlessRejected.bind fun _ s₃ hinside => ?_
  refine (hv.log (Nat.le_refl _)).bind fun _ s₄ hend => ?_
  refine Walk.Ends.modify_bind (Walk.Ends.onCanvas ?_)
  have hopens : v.Opens v.properties.layerAlpha? (v.accepted (.property (.save .matrixClip)) 0 s₀)
      s₂ := Option.or_none (o := v.properties.layerAlpha?) ▸ (Opens.idle hsaved).trans hopens
  have hcount : s₀.canvas.saveCount = s.canvas.saveCount := congrArg Canvas.saveCount hstart.canvas
  rw [hcount]
  exact .run hstart hopens hinside hend

end Stands

end Visit

/-! ### Walks -/

variable {h : Handler ω} {f : Frame} {levels level : Nat} {key : Key}

/-- The walk of a node, given what it goes on to. -/
theorem visit_ends (below : Nat → Key → Stage ω → Stage ω → Prop) (failed : Fatal → Prop)
    (hn : h.Neutral) (hfaults : ∀ e, f.Faults level key e → failed e)
    (hbelow : ∀ child s, f.GoesOn key child → (visit h f levels (level + 1) child).Ends s
      (fun _ t => below (level + 1) child s t) fun e _ => failed e) (s : Stage ω) :
    (visit h f (levels + 1) level key).Ends s (fun _ t => Walked h f below level key s t)
      fun e _ => failed e := by
  unfold visit
  cases hnode : f.nodes.node key with
  | error e => exact Walk.Ends.throw (hfaults e (.gone hnode))
  | ok node =>
    have hnode := NodeStore.node_eq_ok_iff.mp hnode
    refine Walk.Ends.lift_bind rfl ?_
    have henter := (hn.enter level key node).ends_self (Nat.le_succ level) hfaults s
    refine henter.bind fun _ s₁ henter => ?_
    have hleave (s₂ : Stage ω) :=
      (hn.leave level key node).ends_self (Nat.le_succ level) hfaults s₂
    dsimp only
    cases hlist : node.shown? with
    | none =>
      refine Walk.Ends.bind (Walk.Ends.log ⟨rfl, rfl, rfl⟩ fun hr => hfaults _
        (.margin (Nat.le_succ _) (Journal.hasMargin_of_refuses hr)))
        fun _ s₂ (hidle : s₁.Idles s₂) => ?_
      exact (hleave s₂).imp fun _ t hleave => .blank hnode hlist henter hidle hleave
    | some list =>
      have hv : Visit.Stands ⟨h, f, visit h f levels, level, key, node, list⟩ (below (level + 1))
          failed := ⟨hn, hnode, Node.content_of_shown? hlist, hfaults, hbelow⟩
      refine hv.run.bind fun _ s₂ hruns => (hleave s₂).imp fun _ t hleave => ?_
      exact .shown rfl rfl hnode hlist henter hruns hleave

/-- What holds of the walk of a node, given that it holds of what is descended into, holds of all
walks. -/
theorem visit_induct (hn : h.Neutral) {P : Nat → Key → Stage ω → Stage ω → Prop}
    (hstep : ∀ levels level key s t, visit h f levels level key s = .ok () t →
      Walked h f (fun level key s t => (∃ levels, visit h f levels level key s = .ok () t) ∧
        P level key s t) level key s t → P level key s t) {s t : Stage ω}
    (hvisit : visit h f levels level key s = .ok () t) : P level key s t := by
  have hends : (visit h f levels level key).Ends s (fun _ t => P level key s t)
      fun _ _ => True := by
    clear hvisit
    induction levels generalizing level key s with
    | zero => exact Walk.Ends.throw trivial
    | succ levels ih =>
      refine (visit_ends _ (fun _ => True) hn (fun _ _ => trivial) (fun child s _ => ?_)
        s).self.imp fun _ t ht => hstep (levels + 1) level key s t ht.1 ht.2
      exact (ih (s := s)).self.imp fun _ t ht => ⟨⟨levels, ht.1⟩, ht.2⟩
  exact hends.of_eq_ok hvisit

end RetainedScene
