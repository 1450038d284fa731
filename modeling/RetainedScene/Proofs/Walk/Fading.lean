import RetainedScene.Proofs.Walk.Course
import RetainedScene.Proofs.Walk.Placed

/-!
# The alpha of the layer

The alpha of the layer that a caller keeps is not saved and restored with the other state: a cached
node sets it before its content, and every node that is shown resets it at its end.  So the content
of a node is drawn under the alpha that the node set, or found, only until the walk of a child that
is shown has come to its end, and from there on under one (`Frame.Fades`).  `Layered` says so of
every node of a walk.

A handler `KeepsLayer` if it leaves that alpha alone: immediate and deferred drawing do.
-/

namespace RetainedScene

open Relation

variable {ω : Type}

/-! ### Parts -/

/-- The walk of the node comes to its content, unless the bounds are rejected. -/
def NodeStore.shows (nodes : NodeStore) (key : Key) : Bool :=
  (nodes.get? key).any fun node => node.shown?.isSome

namespace Part

/-- The alpha of the layer when the part was handed out. -/
def layerAlpha : Part → Single
  | own _ state _ | descent _ _ state _ => state.layerAlpha

/-- The recorded operation that the part hands out. -/
def op? : Part → Option DrawOp
  | own (.recorded op _) _ _ => some op
  | _ => none

/-- The part ends in the reset of the alpha of the layer, by a child that is shown. -/
def resets (nodes : NodeStore) : Part → Bool
  | own .. => false
  | descent _ edge _ _ => nodes.shows edge.child

/-- The alpha of the layer after parts that began under some alpha. -/
def layerAfter (nodes : NodeStore) (alpha : Single) (parts : List Part) : Single :=
  if parts.any (resets nodes) then 1 else alpha

theorem layerAfter_append (nodes : NodeStore) (alpha : Single) (parts parts' : List Part) :
    layerAfter nodes alpha (parts ++ parts') =
      layerAfter nodes (layerAfter nodes alpha parts) parts' := by
  unfold layerAfter
  rw [List.any_append]
  cases parts.any (resets nodes) <;> cases parts'.any (resets nodes) <;> rfl

end Part

/-- Every part is handed out under the alpha that the parts before it have left. -/
def Frame.Fades (f : Frame) (alpha : Single) (parts : List Part) : Prop :=
  ∀ i part, parts[i]? = some part →
    part.layerAlpha = Part.layerAfter f.nodes alpha (parts.take i)

namespace Frame.Fades

variable {f : Frame} {alpha : Single} {parts parts' : List Part}

theorem nil (f : Frame) (alpha : Single) : f.Fades alpha [] := by
  intro i part hpart
  cases hpart

theorem single {part : Part} (h : part.layerAlpha = alpha) : f.Fades alpha [part] := by
  intro i part' hpart
  cases i with
  | zero =>
    cases hpart
    exact h
  | succ i => cases hpart

theorem append (h : f.Fades alpha parts)
    (h' : f.Fades (Part.layerAfter f.nodes alpha parts) parts') :
    f.Fades alpha (parts ++ parts') := by
  intro i part hpart
  rcases Nat.lt_or_ge i parts.length with hi | hi
  · rw [List.getElem?_append_left hi] at hpart
    rw [List.take_append_of_le_length hi.le]
    exact h i part hpart
  · rw [List.getElem?_append_right hi] at hpart
    rw [List.take_append, List.take_of_length_le hi, Part.layerAfter_append]
    exact h' (i - parts.length) part hpart

end Frame.Fades

/-- What is seen of the walk of a node at a level, begun under an alpha of the layer.  The recorded
operations of every node are handed out in their order, each under the alpha that the node has set,
or else found, until a child has reset it. -/
inductive Layered (f : Frame) : Nat → Key → Single → List Sight → Prop
  | blank {level : Nat} {key : Key} {alpha : Single} {node : Node}
    (hnode : f.nodes.get? key = some node) (hblank : node.shown? = none) :
    Layered f level key alpha [.entered level key, .left level key]
  | rejected {level : Nat} {key : Key} {alpha : Single} {node : Node} {state : DisplayState}
    {before after : List Part} (hnode : f.nodes.get? key = some node)
    (hshown : node.shown?.isSome) (hrejected : node.isRejectedIn state)
    (hbefore : ∀ part ∈ before, part.isProperty) (hafter : ∀ part ∈ after, part.isProperty) :
    Layered f level key alpha (.entered level key :: (before.flatMap (Part.sights level key) ++
      .rejected level key state :: (after.flatMap (Part.sights level key) ++ [.left level key])))
  | drawn {level : Nat} {key : Key} {alpha : Single} {node : Node} {list : DisplayList}
    {before parts after : List Part} (hnode : f.nodes.get? key = some node)
    (hlist : node.shown? = some list) (hbefore : ∀ part ∈ before, part.isProperty)
    (hops : parts.filterMap Part.op? = list.ops.toList.filter fun op => op.child?.isNone)
    (hfades : f.Fades (node.properties.layerAlpha?.getD alpha) parts)
    (hdescent : ∀ ref edge state log, .descent ref edge state log ∈ parts →
      Layered f (level + 1) edge.child state.layerAlpha log)
    (hafter : ∀ part ∈ after, part.isProperty) :
    Layered f level key alpha (.entered level key ::
      ((before ++ (parts ++ after)).flatMap (Part.sights level key) ++ [.left level key]))

/-! ### Handlers -/

namespace Canvas

theorem layerAlpha_clipOutline (c : Canvas) (outline : Outline) :
    (c.clipOutline outline).layerAlpha = c.layerAlpha := by
  unfold clipOutline
  cases outline.bounds <;> rfl

theorem layerAlpha_saveLayer (c : Canvas) (bounds : Rect) (alpha : UInt8) (flags : SaveFlags) :
    (c.saveLayer bounds alpha flags).layerAlpha = c.layerAlpha := by
  unfold saveLayer
  dsimp only
  split <;> rfl

/-- No operation changes the alpha of the layer. -/
theorem layerAlpha_issue (c : Canvas) (offset : Int) (op : Operation) :
    (c.issue offset op).layerAlpha = c.layerAlpha := by
  have helim {α : Type} (entry : Option α) {f : α → Canvas}
      (hf : ∀ x, (f x).layerAlpha = c.layerAlpha) :
      (entry.elim c f).layerAlpha = c.layerAlpha :=
    elim_of (P := fun d => d.layerAlpha = c.layerAlpha) entry rfl hf
  cases op with
  | child ref edge => rfl
  | property op =>
    cases op with
    | saveLayer bounds alpha flags => exact layerAlpha_saveLayer c bounds alpha flags
    | clipOutline outline => exact layerAlpha_clipOutline c outline
    | _ => rfl
  | recorded op list =>
    cases op with
    | concat i => exact helim _ fun _ => rfl
    | clipPath i mode => exact helim _ fun _ => rfl
    | clipRegion i mode => exact helim _ fun _ => rfl
    | _ => rfl

end Canvas

/-- A part of a walk leaves the alpha of the layer alone. -/
def Walk.KeepsLayer (m : Walk ω Unit) : Prop :=
  ∀ s, m.EndsAs s fun _ t => t.canvas.layerAlpha = s.canvas.layerAlpha

/-- The handler leaves the alpha of the layer alone. -/
structure Handler.KeepsLayer (h : Handler ω) : Prop where
  accept : ∀ level key op offset clip s,
    (h.accept level key op offset clip s).canvas.layerAlpha = s.canvas.layerAlpha
  enter : ∀ level key node, (h.enter level key node).KeepsLayer
  reject : ∀ level key node, (h.reject level key node).KeepsLayer
  leave : ∀ level key node, (h.leave level key node).KeepsLayer

theorem Walk.KeepsLayer.pure : (Pure.pure () : Walk ω Unit).KeepsLayer := fun _ => rfl

theorem Handler.immediate_keepsLayer : Handler.immediate.KeepsLayer where
  accept _ _ op offset _ s := s.canvas.layerAlpha_issue offset op
  enter _ _ _ _ := rfl
  reject _ _ _ := .pure
  leave _ _ _ _ := Walk.Ends.onCanvas_bind (Walk.Ends.log rfl fun _ => trivial)

theorem Handler.deferred_keepsLayer : Handler.deferred.KeepsLayer where
  accept _ _ op offset _ s := by
    have hissue := s.canvas.layerAlpha_issue offset op
    cases op with
    | child ref edge => rfl
    | recorded op list =>
      simp only [Handler.deferred]
      split_ifs <;> first | rfl | exact hissue
    | property op =>
      simp only [Handler.deferred]
      split_ifs <;> first | rfl | exact hissue
  enter _ _ _ := .pure
  reject _ _ _ := .pure
  leave _ _ _ := .pure

/-- What such a part of a walk does to what is seen, and to the alpha of the layer: nothing. -/
theorem Walk.KeepsLayer.unseen {m : Walk ω Unit} (hm : m.KeepsLayer) (s : Stage (ω × List Sight)) :
    m.unseen.EndsAs s fun _ t => t.canvas.layerAlpha = s.canvas.layerAlpha ∧ t.seen = s.seen :=
  Walk.Ends.unseen ((hm s.unwatched).imp fun _ _ ht => ⟨ht, rfl⟩)

/-! ### Walks -/

/-- What the walk of a node at a level comes to. -/
structure Faded (f : Frame) (level : Nat) (key : Key) (s t : Stage (ω × List Sight)) : Prop where
  log : ∃ log, t.seen = s.seen ++ log ∧ Layered f level key s.canvas.layerAlpha log
  layerAlpha : t.canvas.layerAlpha = if f.nodes.shows key then 1 else s.canvas.layerAlpha

namespace Visit

variable {v : Visit (ω × List Sight)} {h : Handler ω} {s t u : Stage (ω × List Sight)}
  {ref : EdgeRef} {edge : Edge} {offset : Int} {ops ops' : List DrawOp} {layer : Option Single}

/-- Up to here the walk of the node's content has handed out the operations of its own, and
everything under the alpha of the layer that was then in force. -/
def Handing (v : Visit (ω × List Sight)) (ops : List DrawOp) (s t : Stage (ω × List Sight)) :
    Prop :=
  ∃ parts, t.seen = s.seen ++ parts.flatMap (Part.sights v.level v.key) ∧
    parts.filterMap Part.op? = ops ∧ v.frame.Fades s.canvas.layerAlpha parts ∧
    t.canvas.layerAlpha = Part.layerAfter v.frame.nodes s.canvas.layerAlpha parts ∧
    ∀ ref edge state log, .descent ref edge state log ∈ parts →
      Layered v.frame (v.level + 1) edge.child state.layerAlpha log

/-- Up to here operations of the node's properties were handed out. -/
def Dressing (v : Visit (ω × List Sight)) (s t : Stage (ω × List Sight)) : Prop :=
  ∃ parts : List Part, (∀ part ∈ parts, part.isProperty) ∧
    t.seen = s.seen ++ parts.flatMap (Part.sights v.level v.key)

theorem Handing.trans (h : v.Handing ops s t) (h' : v.Handing ops' t u) :
    v.Handing (ops ++ ops') s u := by
  obtain ⟨parts, hseen, hops, hfades, halpha, hdescent⟩ := h
  obtain ⟨parts', hseen', hops', hfades', halpha', hdescent'⟩ := h'
  rw [halpha] at hfades' halpha'
  refine ⟨parts ++ parts', ?_, ?_, hfades.append hfades', ?_, fun ref edge state log hmem => ?_⟩
  · rw [hseen', hseen, List.flatMap_append, List.append_assoc]
  · rw [List.filterMap_append, hops, hops']
  · rw [halpha', Part.layerAfter_append]
  · exact (List.mem_append.mp hmem).elim (hdescent ref edge state log) (hdescent' _ _ _ _)

/-- Nothing was handed out. -/
theorem Handing.of_eq (hseen : t.seen = s.seen)
    (halpha : t.canvas.layerAlpha = s.canvas.layerAlpha) : v.Handing [] s t :=
  ⟨[], by rw [hseen]; simp, rfl, .nil _ _, halpha, fun _ _ _ _ hmem => nomatch hmem⟩

theorem Handing.of_idles (h : s.Idles t) : v.Handing [] s t :=
  .of_eq (congrArg Prod.snd h.gathered) (congrArg Canvas.layerAlpha h.canvas)

theorem Dressing.trans (h : v.Dressing s t) (h' : v.Dressing t u) : v.Dressing s u := by
  obtain ⟨parts, hproperty, hseen⟩ := h
  obtain ⟨parts', hproperty', hseen'⟩ := h'
  refine ⟨parts ++ parts', fun part hpart => ?_, ?_⟩
  · exact (List.mem_append.mp hpart).elim (hproperty part) (hproperty' part)
  · rw [hseen', hseen, List.flatMap_append, List.append_assoc]

theorem Dressing.of_seen_eq (hseen : t.seen = s.seen) : v.Dressing s t :=
  ⟨[], by simp, by simp [hseen]⟩

section

variable (hk : h.KeepsLayer) (hv : v.handler = h.watched)

include hk hv

theorem layerAlpha_accepted (op : Operation) (offset : Int) (s : Stage (ω × List Sight)) :
    (v.accepted op offset s).canvas.layerAlpha = s.canvas.layerAlpha := by
  unfold accepted
  rw [hv]
  exact hk.accept _ _ _ _ _ _

omit hk in
theorem seen_accepted (op : Operation) (offset : Int) (s : Stage (ω × List Sight)) :
    (v.accepted op offset s).seen = s.seen ++
      [.handed v.level v.key op s.canvas.displayState (op.isHeld s.held)] := by
  unfold accepted
  rw [hv]
  rfl

omit hk in
theorem dressing_accepted (op : PropertyOp) (offset : Int) (s : Stage (ω × List Sight)) :
    v.Dressing s (v.accepted (.property op) offset s) := by
  refine ⟨[.own (.property op) s.canvas.displayState false], fun part hpart => ?_, ?_⟩
  · rw [List.mem_singleton.mp hpart]
    rfl
  · exact seen_accepted hv _ offset s

/-- An operation that was only handed out. -/
theorem handing_accepted (op : Operation) (offset : Int) (s : Stage (ω × List Sight)) :
    v.Handing (Part.op? (.own op s.canvas.displayState (op.isHeld s.held))).toList s
      (v.accepted op offset s) := by
  refine ⟨[.own op s.canvas.displayState (op.isHeld s.held)], seen_accepted hv op offset s, ?_,
    .single rfl, layerAlpha_accepted hk hv op offset s, fun _ _ _ _ hmem => ?_⟩
  · cases hop : Part.op? (.own op s.canvas.displayState (op.isHeld s.held)) <;> simp [hop]
  · cases List.mem_singleton.mp hmem

variable {below : Key → Stage (ω × List Sight) → Stage (ω × List Sight) → Prop}

omit hk in
theorem Opens.dressing (h : v.Opens layer s t) : v.Dressing s t := by
  induction h with
  | idle hidle => exact .of_seen_eq (congrArg Prod.snd hidle.gathered)
  | adjusted f s => exact .of_seen_eq rfl
  | layer s => exact .of_seen_eq rfl
  | given hop s => exact dressing_accepted hv _ 0 s
  | trans _ _ ih ih' => exact ih.trans ih'

theorem Opens.layerAlpha (h : v.Opens layer s t) :
    t.canvas.layerAlpha = layer.getD s.canvas.layerAlpha := by
  induction h with
  | idle hidle => exact congrArg Canvas.layerAlpha hidle.canvas
  | adjusted f s => rfl
  | layer s => rfl
  | given hop s => exact layerAlpha_accepted hk hv _ 0 s
  | @trans a b s t u _ _ ih ih' =>
    rw [ih', ih]
    cases b <;> rfl

omit hk in
/-- Whatever is seen inside the walk of a node, operations of its properties are seen around it. -/
theorem Opens.exists_around {s₀ s₁ s₂ s₃ : Stage (ω × List Sight)} (hstart : s.Idles s₀)
    (hopens : v.Opens layer (v.accepted (.property (.save .matrixClip)) 0 s₀) s₁)
    (hend : s₂.Idles s₃) (count : Int) :
    ∃ before after : List Part, (∀ part ∈ before, part.isProperty) ∧
      (∀ part ∈ after, part.isProperty) ∧ ∀ log, s₂.seen = s₁.seen ++ log →
        (v.accepted (.property (.restoreTo count)) 0 s₃).seen = s.seen ++
          (before.flatMap (Part.sights v.level v.key) ++
            (log ++ after.flatMap (Part.sights v.level v.key))) := by
  have hseen₀ : s₀.seen = s.seen := congrArg Prod.snd hstart.gathered
  have hseen₃ : s₃.seen = s₂.seen := congrArg Prod.snd hend.gathered
  obtain ⟨before, hbefore, hseen₁⟩ :=
    (dressing_accepted hv (.save .matrixClip) 0 s₀).trans (hopens.dressing hv)
  obtain ⟨after, hafter, hseen⟩ := dressing_accepted hv (.restoreTo count) 0 s₃
  refine ⟨before, after, hbefore, hafter, fun log hlog => ?_⟩
  rw [hseen, hseen₃, hlog, hseen₁, hseen₀, List.append_assoc, List.append_assoc]

variable (hbelow : ∀ key s t, below key s t → Faded v.frame (v.level + 1) key s t)

include hbelow

theorem Offers.handing (h : v.Offers below ref edge offset s t) : v.Handing [] s t := by
  cases h with
  | held hheld => exact handing_accepted hk hv (.child ref edge) offset s
  | descent hfree hdescent =>
    have hfaded := hbelow _ _ _ hdescent
    have halpha := layerAlpha_accepted hk hv (.child ref edge) offset s
    obtain ⟨log, hlog, hlayered⟩ := hfaded.log
    refine ⟨[.descent ref edge s.canvas.displayState log], ?_, rfl, .single rfl, ?_, ?_⟩
    · rw [hlog, seen_accepted hv, Operation.isHeld, hfree, List.append_assoc]
      simp [Part.sights]
    · rw [hfaded.layerAlpha, halpha]
      simp [Part.layerAfter, Part.resets]
    · intro ref' edge' state' log' hmem
      cases List.mem_singleton.mp hmem
      rw [halpha] at hlayered
      exact hlayered

theorem Turns.handing {mode : ClipMode} (h : v.Turns below mode s t) : v.Handing [] s t := by
  cases h with
  | idle hidle => exact .of_idles hidle
  | shadow shadow s => exact handing_accepted hk hv _ 0 s
  | @placed ref edge transform offset s t _ hoffers =>
    -- saves and restores leave the alpha of the layer alone
    have hbegin : v.Handing [] s
        ((s.onCanvas fun c => (c.save .matrix).concat transform).letGo ref) := .of_eq rfl rfl
    have hend : v.Handing [] t ((t.hold ref).onCanvas (·.restoreTo s.canvas.saveCount)) :=
      .of_eq rfl rfl
    exact (hbegin.trans (hoffers.handing hk hv hbelow)).trans hend

theorem Course.handing (h : v.Course below offset ops s t) :
    v.Handing (ops.filter fun op => op.child?.isNone) s t := by
  induction h with
  | idle hidle => exact .of_idles hidle
  | @own op hop s =>
    rw [List.filter_singleton, hop]
    exact handing_accepted hk hv (.recorded op v.list) offset s
  | link _ hoffers => exact hoffers.handing hk hv hbelow
  | missing hidle => exact .of_idles hidle
  | @pass mode s t hturns =>
    have hsave : v.Handing [] s (s.onCanvas (·.save .matrixClip)) := .of_eq rfl rfl
    have hclip := handing_accepted hk hv (.property (.clipRect v.properties.bounds mode)) 0
      (s.onCanvas (·.save .matrixClip))
    have hinside : v.Handing [] s t := by
      induction hturns with
      | refl => exact hsave.trans hclip
      | tail _ hturn ih => exact ih.trans (hturn.handing hk hv hbelow)
    exact hinside.trans
      (handing_accepted hk hv (.property (.restoreTo s.canvas.saveCount)) 0 t)
  | trans _ _ ih ih' =>
    rw [List.filter_append]
    exact ih.trans ih'

theorem Inside.handing (hinside : v.Inside below s t) :
    v.Handing (v.list.ops.toList.filter fun op => op.child?.isNone) s t ∨
      v.node.isRejectedIn s.canvas.displayState = true ∧
        t.seen = s.seen ++ [.rejected v.level v.key s.canvas.displayState] := by
  cases hinside with
  | rejected hidle hrejected hreject =>
    exact .inr ⟨hrejected, seen_of_rejected hv hidle hreject⟩
  | drawn hbefore hcontent =>
    exact .inl (((hbefore 0).handing hk hv hbelow).trans (hcontent.handing hk hv hbelow))

/-- What is seen of the walk of a node between entering and leaving it. -/
theorem Runs.layered (hnode : v.frame.nodes.get? v.key = some v.node)
    (hlist : v.node.shown? = some v.list) (h : v.Runs below s t) :
    t.canvas.layerAlpha = 1 ∧ ∃ log, t.seen = s.seen ++ log ∧
      Layered v.frame v.level v.key s.canvas.layerAlpha
        (.entered v.level v.key :: (log ++ [.left v.level v.key])) := by
  cases h with
  | @run s₀ s₁ s₂ s₃ hstart hopens hinside hend =>
    have halpha := hopens.layerAlpha hk hv
    rw [layerAlpha_accepted hk hv, hstart.canvas] at halpha
    obtain ⟨before, after, hbefore, hafter, hseen⟩ :=
      hopens.exists_around hv hstart hend s.canvas.saveCount
    rcases hinside.handing hk hv hbelow with
      ⟨parts, hseen₂, hops, hfades, -, hdescent⟩ | ⟨hrejected, hseen₂⟩
    · have hlayered : Layered v.frame v.level v.key s.canvas.layerAlpha _ :=
        .drawn hnode hlist hbefore hops (halpha ▸ hfades) hdescent hafter
      exact ⟨rfl, _, hseen _ hseen₂, by simpa using hlayered⟩
    · have hlayered : Layered v.frame v.level v.key s.canvas.layerAlpha _ :=
        .rejected hnode (Option.isSome_iff_exists.mpr ⟨_, hlist⟩) hrejected hbefore hafter
      exact ⟨rfl, _, hseen _ hseen₂, by simpa using hlayered⟩

end

end Visit

namespace Handler.KeepsLayer

variable {h : Handler ω} (hk : h.KeepsLayer)

include hk

theorem enter_ends (level : Nat) (key : Key) (node : Node) (s : Stage (ω × List Sight)) :
    (h.watched.enter level key node).EndsAs s fun _ t =>
      t.canvas.layerAlpha = s.canvas.layerAlpha ∧ t.seen = s.seen ++ [.entered level key] :=
  Walk.Ends.modify_bind ((hk.enter level key node).unseen _)

theorem leave_ends (level : Nat) (key : Key) (node : Node) (s : Stage (ω × List Sight)) :
    (h.watched.leave level key node).EndsAs s fun _ t =>
      t.canvas.layerAlpha = s.canvas.layerAlpha ∧ t.seen = s.seen ++ [.left level key] :=
  ((hk.leave level key node).unseen s).bind fun _ _ ht =>
    Walk.Ends.modify ⟨ht.1, congrArg (· ++ [_]) ht.2⟩

end Handler.KeepsLayer

/-- Every walk hands out the operations of each node under the alpha of the layer that the node has
set, or found, until a child has reset it. -/
theorem visit_faded {h : Handler ω} (hn : h.Neutral) (hk : h.KeepsLayer) {f : Frame}
    {levels level : Nat} {key : Key} {s t : Stage (ω × List Sight)}
    (hvisit : visit h.watched f levels level key s = .ok () t) : Faded f level key s t := by
  refine visit_induct hn.watched (fun levels level key s t _ hwalked => ?_) hvisit
  cases hwalked with
  | @blank _ _ node _ s₁ s₂ _ hnode hblank henter hidle hleave =>
    obtain ⟨halpha₁, hseen₁⟩ := (hk.enter_ends level key node s).of_eq_ok henter
    obtain ⟨halpha, hseen⟩ := (hk.leave_ends level key node s₂).of_eq_ok hleave
    have hseen₂ : s₂.seen = s₁.seen := congrArg Prod.snd hidle.gathered
    refine ⟨⟨_, ?_, .blank hnode hblank⟩, ?_⟩
    · rw [hseen, hseen₂, hseen₁, List.append_assoc]
      rfl
    · rw [halpha, hidle.canvas, halpha₁, NodeStore.shows, hnode]
      simp [hblank]
  | @shown v _ s₁ s₂ _ hhandler hframe hnode hlist henter hruns hleave =>
    subst hframe
    obtain ⟨halpha₁, hseen₁⟩ := (hk.enter_ends v.level v.key v.node s).of_eq_ok henter
    obtain ⟨halpha, hseen⟩ := (hk.leave_ends v.level v.key v.node s₂).of_eq_ok hleave
    obtain ⟨halpha₂, log, hseen₂, hlayered⟩ :=
      hruns.layered hk hhandler (fun _ _ _ hbelow => hbelow.2) hnode hlist
    refine ⟨⟨_, ?_, halpha₁ ▸ hlayered⟩, ?_⟩
    · rw [hseen, hseen₂, hseen₁]
      simp
    · rw [halpha, halpha₂, NodeStore.shows, hnode]
      simp [hlist]

end RetainedScene
