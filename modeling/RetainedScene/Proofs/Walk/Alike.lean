import RetainedScene.Proofs.Canvas.Quiet
import RetainedScene.Proofs.Walk.Elevated

/-!
# Walks that run alike

Two handlers are alike for a relation of stages when everything they do keeps it.  The walks that
they take then end alike (`Handler.Alike.visit`): both with a result or both with the same error,
in related stages.

Nothing is asked of the scene.  The walk reads of its stage only what related stages have in
common: the saved states of the canvas, whether a link is held back, and what the reader of the
journal asks for.  Of links it reads those that it has let go of, and those of the node's own
children after it has sorted them.  So it is enough that related stages agree on some links, to
which these are added (`Handler.AlikeOn`).

What the reader of the journal asks for decides where a walk is refused a margin; after a walk that
was not refused one, `Journal.Admits` holds of its level, which is what the end of an immediate walk
needs to enter its own event.
-/

namespace RetainedScene

/-! ### Refused margins -/

/-- A reader who asks for this much sees no event that cannot be indented to the level. -/
def Journal.Admits (asked : Option Level) (level : Nat) : Prop :=
  Level.trace.isSeen asked = true → Text.hasMargin level = true

theorem Journal.Admits.mono {asked : Option Level} {k l : Nat} (h : Journal.Admits asked l)
    (hkl : k ≤ l) : Journal.Admits asked k := by
  intro ht
  have hl := h ht
  simp only [Text.hasMargin, decide_eq_true_eq] at hl ⊢
  omega

theorem Journal.Admits.of_not_refuses {j : Journal} {e : Event} (h : j.refuses e = false)
    (he : e.level = .trace) : Journal.Admits j.asked e.indent := by
  intro ht
  simpa [Journal.refuses, he, ht] using h

theorem Journal.not_refuses_of_admits {j : Journal} {e : Event} (he : e.level = .trace)
    (h : Journal.Admits j.asked e.indent) : j.refuses e = false := by
  cases ht : Level.trace.isSeen j.asked with
  | false => simp [Journal.refuses, he, ht]
  | true => simp [Journal.refuses, he, h ht]

/-! ### Ending alike -/

namespace Walk

variable {ω₁ ω₂ α β : Type}

/-- Two ends with the same result, which is as expected, or with the same error, in related
stages. -/
def SameEnd (R : Stage ω₁ → Stage ω₂ → Prop) (Q : α → Prop) :
    EStateM.Result Fatal (Stage ω₁) α → EStateM.Result Fatal (Stage ω₂) α → Prop
  | .ok a s, .ok b t => a = b ∧ Q a ∧ R s t
  | .error e s, .error e' t => e = e' ∧ R s t
  | _, _ => False

/-- From related stages the two walks end alike. -/
def Alike (R : Stage ω₁ → Stage ω₂ → Prop) (Q : α → Prop) (m : Walk ω₁ α) (n : Walk ω₂ α) : Prop :=
  ∀ s t, R s t → SameEnd R Q (m s) (n t)

namespace Alike

variable {R : Stage ω₁ → Stage ω₂ → Prop} {Q : α → Prop} {Q' : β → Prop}

theorem bind {m : Walk ω₁ α} {n : Walk ω₂ α} {k : α → Walk ω₁ β} {l : α → Walk ω₂ β}
    (h : Alike R Q m n) (hk : ∀ a, Q a → Alike R Q' (k a) (l a)) :
    Alike R Q' (m >>= k) (n >>= l) := by
  intro s t hst
  have hmn := h s t hst
  show SameEnd R Q' (EStateM.bind m k s) (EStateM.bind n l t)
  unfold EStateM.bind
  cases hm : m s with
  | ok a s' =>
    cases hn : n t with
    | ok b t' =>
      rw [hm, hn] at hmn
      obtain ⟨rfl, hQ, hst'⟩ := hmn
      exact hk a hQ s' t' hst'
    | error e t' => rw [hm, hn] at hmn; exact hmn.elim
  | error e s' =>
    cases hn : n t with
    | ok b t' => rw [hm, hn] at hmn; exact hmn.elim
    | error e' t' => rw [hm, hn] at hmn; exact hmn

theorem pure {a : α} (ha : Q a) : Alike R Q (pure a) (pure a) := fun _ _ h => ⟨rfl, ha, h⟩

theorem throw (e : Fatal) : Alike R Q (throw e) (throw e) := fun _ _ h => ⟨rfl, h⟩

theorem mono {P : α → Prop} {m : Walk ω₁ α} {n : Walk ω₂ α} (h : Alike R P m n)
    (hPQ : ∀ a, P a → Q a) : Alike R Q m n := by
  intro s t hst
  have hmn := h s t hst
  cases hm : m s <;> cases hn : n t <;> rw [hm, hn] at hmn
  · exact ⟨hmn.1, hPQ _ hmn.2.1, hmn.2.2⟩
  · exact hmn.elim
  · exact hmn.elim
  · exact hmn

theorem modify {f : Stage ω₁ → Stage ω₁} {g : Stage ω₂ → Stage ω₂}
    (h : ∀ s t, R s t → R (f s) (g t)) : Alike R (fun _ => True) (modify f) (modify g) :=
  fun s t hst => ⟨rfl, trivial, h s t hst⟩

/-- A walk that reads its stage first. -/
theorem get_bind {k : Stage ω₁ → Walk ω₁ α} {l : Stage ω₂ → Walk ω₂ α}
    (h : ∀ s t, R s t → SameEnd R Q (k s s) (l t t)) : Alike R Q (get >>= k) (get >>= l) := h

theorem lift {result : Except Fatal α} (h : ∀ a, result = .ok a → Q a) :
    Alike R Q (Walk.lift result) (Walk.lift result) := by
  cases result with
  | ok a => exact pure (h a rfl)
  | error e => exact throw e

/-- After an event was entered, the margin of its level is admitted. -/
theorem log {asked : Option Level} (e : Event) (hleft : ∀ s t, R s t → s.journal.asked = asked)
    (hright : ∀ s t, R s t → t.journal.asked = asked)
    (hlog : ∀ s t, R s t → R (s.log e) (t.log e)) :
    Alike R (fun _ => e.level = .trace → Journal.Admits asked e.indent) (Walk.log e)
      (Walk.log e) := by
  refine get_bind fun s t hst => ?_
  have hs := hleft s t hst
  have hrefuses : t.journal.refuses e = s.journal.refuses e := by
    rw [Journal.refuses, Journal.refuses, hs, hright s t hst]
  rw [hrefuses]
  cases hr : s.journal.refuses e with
  | true => exact ⟨rfl, hst⟩
  | false => exact ⟨rfl, fun he => hs ▸ .of_not_refuses hr he, hlog s t hst⟩

theorem forM {γ : Type} {l : List γ} {k : γ → Walk ω₁ Unit} {k' : γ → Walk ω₂ Unit}
    (h : ∀ x ∈ l, Alike R (fun _ => True) (k x) (k' x)) :
    Alike R (fun _ => True) (l.forM k) (l.forM k') := by
  induction l with
  | nil => exact pure trivial
  | cons x l ih =>
    exact (h x List.mem_cons_self).bind fun _ _ => ih fun y hy => h y (List.mem_cons_of_mem _ hy)

end Alike

theorem SameEnd.imp {R R' : Stage ω₁ → Stage ω₂ → Prop} {Q : α → Prop}
    {r : EStateM.Result Fatal (Stage ω₁) α} {r' : EStateM.Result Fatal (Stage ω₂) α}
    (h : SameEnd R Q r r') (hR : ∀ s t, R s t → R' s t) : SameEnd R' Q r r' := by
  cases r <;> cases r'
  · exact ⟨h.1, h.2.1, hR _ _ h.2.2⟩
  · exact h.elim
  · exact h.elim
  · exact ⟨h.1, hR _ _ h.2⟩

end Walk

/-! ### Handlers -/

/-- What two handlers do keeps relations of stages, one for every set of links of which related
stages agree whether they are held back.  The relations are kept as well by what a walk does by
itself.  Related stages have in common what else a walk reads. -/
structure Handler.AlikeOn {ω₁ ω₂ : Type} (nodes : NodeStore)
    (R : (EdgeRef → Prop) → Stage ω₁ → Stage ω₂ → Prop) (asked : Option Level)
    (h₁ : Handler ω₁) (h₂ : Handler ω₂) : Prop where
  stack : ∀ {K s t}, R K s t → s.canvas.stack = t.canvas.stack
  contains : ∀ {K s t ref}, R K s t → K ref → s.held.contains ref = t.held.contains ref
  asked_left : ∀ {K s t}, R K s t → s.journal.asked = asked
  asked_right : ∀ {K s t}, R K s t → t.journal.asked = asked
  weaken : ∀ {K K' s t}, R K' s t → (∀ ref, K ref → K' ref) → R K s t
  onCanvas : ∀ {K s t f}, R K s t → Canvas.Quiet f → R K (s.onCanvas f) (t.onCanvas f)
  letGo : ∀ {K s t} (ref : EdgeRef), R K s t →
    R (fun r => r = ref ∨ K r) (s.letGo ref) (t.letGo ref)
  hold : ∀ {K s t} (ref : EdgeRef), R K s t → R K (s.hold ref) (t.hold ref)
  /-- Sorting the children of a node adds its links. -/
  sort : ∀ {K s t} (key : Key), R K s t → R (fun r => (∃ c ∈ nodes.children key, c.ref = r) ∨ K r)
    { s with held := Sibling.holdElevated (nodes.children key) s.held }
    { t with held := Sibling.holdElevated (nodes.children key) t.held }
  log : ∀ {K s t} (e : Event), R K s t → R K (s.log e) (t.log e)
  logOp : ∀ {K s t} (level : Nat) (name : String), R K s t →
    R K (s.logOp level name) (t.logOp level name)
  accept : ∀ {K s t} (level : Nat) (key : Key) (op : Operation) (offset : Int) (clip : Bool),
    R K s t →
      R K (h₁.accept level key op offset clip s) (h₂.accept level key op offset clip t)
  enter : ∀ K level key node,
    Walk.Alike (R K) (fun _ => True) (h₁.enter level key node) (h₂.enter level key node)
  reject : ∀ K level key node,
    Walk.Alike (R K) (fun _ => True) (h₁.reject level key node) (h₂.reject level key node)
  leave : ∀ K level key node, Journal.Admits asked level →
    Walk.Alike (R K) (fun _ => True) (h₁.leave level key node) (h₂.leave level key node)

/-- What two handlers do keeps a relation of stages, which is kept as well by what a walk does by
itself.  Related stages have in common what a walk reads. -/
structure Handler.Alike {ω₁ ω₂ : Type} (R : Stage ω₁ → Stage ω₂ → Prop) (asked : Option Level)
    (h₁ : Handler ω₁) (h₂ : Handler ω₂) : Prop where
  stack : ∀ {s t}, R s t → s.canvas.stack = t.canvas.stack
  held : ∀ {s t}, R s t → s.held = t.held
  asked_left : ∀ {s t}, R s t → s.journal.asked = asked
  asked_right : ∀ {s t}, R s t → t.journal.asked = asked
  onCanvas : ∀ {s t f}, R s t → Canvas.Quiet f → R (s.onCanvas f) (t.onCanvas f)
  hold : ∀ {s t} (f : EdgeSet → EdgeSet), R s t →
    R { s with held := f s.held } { t with held := f t.held }
  log : ∀ {s t} (e : Event), R s t → R (s.log e) (t.log e)
  logOp : ∀ {s t} (level : Nat) (name : String), R s t → R (s.logOp level name) (t.logOp level name)
  accept : ∀ {s t} (level : Nat) (key : Key) (op : Operation) (offset : Int) (clip : Bool), R s t →
    R (h₁.accept level key op offset clip s) (h₂.accept level key op offset clip t)
  enter : ∀ level key node,
    Walk.Alike R (fun _ => True) (h₁.enter level key node) (h₂.enter level key node)
  reject : ∀ level key node,
    Walk.Alike R (fun _ => True) (h₁.reject level key node) (h₂.reject level key node)
  leave : ∀ level key node, Journal.Admits asked level →
    Walk.Alike R (fun _ => True) (h₁.leave level key node) (h₂.leave level key node)

/-- Stages that agree on all links agree on any. -/
theorem Handler.Alike.on {ω₁ ω₂ : Type} {R : Stage ω₁ → Stage ω₂ → Prop} {asked : Option Level}
    {h₁ : Handler ω₁} {h₂ : Handler ω₂} (h : Handler.Alike R asked h₁ h₂) (nodes : NodeStore) :
    Handler.AlikeOn nodes (fun _ => R) asked h₁ h₂ where
  stack := h.stack
  contains hst _ := by rw [h.held hst]
  asked_left := h.asked_left
  asked_right := h.asked_right
  weaken hst _ := hst
  onCanvas := h.onCanvas
  letGo ref := h.hold (·.erase ref)
  hold ref := h.hold (·.insert ref)
  sort key := h.hold (Sibling.holdElevated (nodes.children key))
  log := h.log
  logOp := h.logOp
  accept := h.accept
  enter _ := h.enter
  reject _ := h.reject
  leave _ := h.leave

namespace Handler.AlikeOn

variable {ω₁ ω₂ : Type} {nodes : NodeStore} {R : (EdgeRef → Prop) → Stage ω₁ → Stage ω₂ → Prop}
  {asked : Option Level} {h₁ : Handler ω₁} {h₂ : Handler ω₂} {K : EdgeRef → Prop}

theorem walk_onCanvas (h : AlikeOn nodes R asked h₁ h₂) {f : Canvas → Canvas}
    (hf : Canvas.Quiet f) :
    Walk.Alike (R K) (fun _ => True) (Walk.onCanvas f) (Walk.onCanvas f) :=
  Walk.Alike.modify fun _ _ hst => h.onCanvas hst hf

theorem walk_log (h : AlikeOn nodes R asked h₁ h₂) (e : Event) :
    Walk.Alike (R K) (fun _ => e.level = .trace → Journal.Admits asked e.indent) (Walk.log e)
      (Walk.log e) :=
  Walk.Alike.log e (fun _ _ => h.asked_left) (fun _ _ => h.asked_right) fun _ _ => h.log e

theorem walk_log' (h : AlikeOn nodes R asked h₁ h₂) (e : Event) :
    Walk.Alike (R K) (fun _ => True) (Walk.log e) (Walk.log e) :=
  (h.walk_log e).mono fun _ _ => trivial

theorem saveCount (h : AlikeOn nodes R asked h₁ h₂) :
    Walk.Alike (R K) (fun _ => True) (Walk.saveCount (ω := ω₁)) (Walk.saveCount (ω := ω₂)) :=
  fun _ _ hst => ⟨congrArg SaveStack.saveCount (h.stack hst), trivial, hst⟩

end Handler.AlikeOn

/-! ### Visits -/

/-- Two visits of one node with handlers that are alike, and descents that are. -/
structure Visit.Alike {ω₁ ω₂ : Type} (R : (EdgeRef → Prop) → Stage ω₁ → Stage ω₂ → Prop)
    (asked : Option Level) (v₁ : Visit ω₁) (v₂ : Visit ω₂) : Prop where
  handler : Handler.AlikeOn v₁.frame.nodes R asked v₁.handler v₂.handler
  descend : ∀ K level key,
    Walk.Alike (R K) (fun _ => True) (v₁.descend level key) (v₂.descend level key)
  found : v₁.frame.nodes.get? v₁.key = some v₁.node
  content : v₁.node.content = some v₁.list
  frame : v₂.frame = v₁.frame
  level : v₂.level = v₁.level
  key : v₂.key = v₁.key
  node : v₂.node = v₁.node
  list : v₂.list = v₁.list

namespace Visit.Alike

variable {ω₁ ω₂ : Type} {R : (EdgeRef → Prop) → Stage ω₁ → Stage ω₂ → Prop}
  {asked : Option Level} {v₁ : Visit ω₁} {v₂ : Visit ω₂} {K : EdgeRef → Prop}

theorem properties (h : Alike R asked v₁ v₂) : v₂.properties = v₁.properties :=
  congrArg Node.properties h.node

theorem accept (h : Alike R asked v₁ v₂) (op : Operation) (offset : Int) :
    Walk.Alike (R K) (fun _ => True) (v₁.accept op offset) (v₂.accept op offset) := by
  unfold Visit.accept
  rw [h.level, h.key, h.properties]
  exact Walk.Alike.modify fun _ _ hst => h.handler.accept _ _ _ _ _ hst

theorem give (h : Alike R asked v₁ v₂) (op : PropertyOp) :
    Walk.Alike (R K) (fun _ => True) (v₁.give op) (v₂.give op) := h.accept _ _

theorem report (h : Alike R asked v₁ v₂) (e : Event) :
    Walk.Alike (R K) (fun _ => True) (v₁.report e) (v₂.report e) := by
  unfold Visit.report
  rw [h.frame]
  split
  · exact h.handler.walk_log' _
  · exact .pure trivial

theorem innerLevel (h : Alike R asked v₁ v₂) :
    Walk.Alike (R K) (fun _ => True) v₁.innerLevel v₂.innerLevel := by
  unfold Visit.innerLevel
  rw [h.level]
  split
  · exact Walk.Alike.pure trivial
  · exact Walk.Alike.throw _

/-- Whether a child is descended into is read off its link. -/
theorem offer (h : Alike R asked v₁ v₂) (op : Operation)
    (hop : ∀ ref edge, op = .child ref edge → K ref) (offset : Int) :
    Walk.Alike (R K) (fun _ => True) (v₁.offer op offset) (v₂.offer op offset) := by
  refine (h.accept op offset).bind fun _ _ => ?_
  cases op with
  | recorded op list => exact Walk.Alike.pure trivial
  | property op => exact Walk.Alike.pure trivial
  | child ref edge =>
    refine Walk.Alike.get_bind fun s t hst => ?_
    rw [← h.handler.contains hst (hop ref edge rfl)]
    cases s.held.contains ref with
    | true => exact Walk.Alike.pure trivial s t hst
    | false => exact h.innerLevel.bind (fun inner _ => h.descend K inner edge.child) s t hst

theorem place (h : Alike R asked v₁ v₂) (ref : EdgeRef) (edge : Edge) (transform : Matrix) :
    Walk.Alike (R K) (fun _ => True) (v₁.place ref edge transform)
      (v₂.place ref edge transform) := by
  refine h.handler.saveCount.bind fun count _ => ?_
  refine (h.handler.walk_onCanvas ((Canvas.Quiet.concat _).comp (.save _))).bind
    fun _ _ => ?_
  -- the link is in common once it was let go
  have hinside : Walk.Alike (R fun r => r = ref ∨ K r) (fun _ => True)
      (do let inner ← Walk.saveCount
          v₁.offer (.child ref edge) (inner - 1)
          modify (·.hold ref)
          Walk.onCanvas (·.restoreTo count))
      (do let inner ← Walk.saveCount
          v₂.offer (.child ref edge) (inner - 1)
          modify (·.hold ref)
          Walk.onCanvas (·.restoreTo count)) := by
    refine h.handler.saveCount.bind fun inner _ => (h.offer _ ?_ _).bind fun _ _ => ?_
    · intro r e heq
      cases heq
      exact .inl rfl
    · exact (Walk.Alike.modify fun _ _ hst => h.handler.hold ref hst).bind fun _ _ =>
        h.handler.walk_onCanvas (.restoreTo _)
  intro s t hst
  exact (hinside _ _ (h.handler.letGo ref hst)).imp fun _ _ hst =>
    h.handler.weaken hst fun _ => .inr

theorem clipped (h : Alike R asked v₁ v₂) (mode : ClipMode) {b₁ : Walk ω₁ Unit} {b₂ : Walk ω₂ Unit}
    (hb : Walk.Alike (R K) (fun _ => True) b₁ b₂) :
    Walk.Alike (R K) (fun _ => True) (v₁.clipped mode b₁) (v₂.clipped mode b₂) := by
  unfold Visit.clipped
  rw [h.properties]
  refine h.handler.saveCount.bind fun count _ => ?_
  refine (h.handler.walk_onCanvas (.save _)).bind fun _ _ => ?_
  exact (h.give _).bind fun _ _ => hb.bind fun _ _ => h.give _

/-! #### Properties -/

theorem applyAlpha (h : Alike R asked v₁ v₂) (inner : Nat) :
    Walk.Alike (R K) (fun _ => True) (v₁.applyAlpha inner) (v₂.applyAlpha inner) := by
  unfold Visit.applyAlpha
  rw [h.properties]
  dsimp only
  split
  · split
    · exact (h.handler.walk_onCanvas (.setLayerAlpha _)).bind fun _ _ => .pure trivial
    · split
      · exact (h.handler.walk_onCanvas (.scaleAlpha _)).bind fun _ _ => .pure trivial
      · exact (h.handler.walk_log' _).bind fun _ _ => (h.give _).bind fun _ _ => .pure trivial
  · exact .pure trivial

theorem applyProperties (h : Alike R asked v₁ v₂) :
    Walk.Alike (R K) (fun _ => True) v₁.applyProperties v₂.applyProperties := by
  unfold Visit.applyProperties
  rw [h.properties]
  refine h.innerLevel.bind fun inner _ => ?_
  refine (h.handler.walk_onCanvas (.transformed _)).bind fun _ _ => ?_
  refine (h.applyAlpha inner).bind fun clips _ => ?_
  dsimp only
  split <;> split
  · exact (h.give _).bind fun _ _ => h.give _
  · exact (h.give _).bind fun _ _ => .pure trivial
  · exact h.give _
  · exact .pure trivial

/-! #### Children and content -/

theorem take (h : Alike R asked v₁ v₂) (turn : Sibling.Turn) :
    Walk.Alike (R K) (fun _ => True) (v₁.take turn) (v₂.take turn) := by
  cases turn with
  | shadow c =>
    unfold Visit.take
    cases hs : c.shadow? with
    | some shadow => simpa only [hs] using h.give (.shadow shadow)
    | none => simpa only [hs] using Walk.Alike.pure trivial
  | content c => exact h.place _ _ _

theorem drawBelow (h : Alike R asked v₁ v₂) (sorted : List Sibling) :
    Walk.Alike (R K) (fun _ => True) (v₁.drawBelow sorted) (v₂.drawBelow sorted) := by
  unfold Visit.drawBelow
  split
  · exact h.clipped _ (.forM fun c _ => h.place _ _ _)
  · exact .pure trivial

theorem drawAbove (h : Alike R asked v₁ v₂) (sorted : List Sibling) :
    Walk.Alike (R K) (fun _ => True) (v₁.drawAbove sorted) (v₂.drawAbove sorted) := by
  unfold Visit.drawAbove
  split
  · exact h.clipped _ (.forM fun turn _ => h.take turn)
  · exact .pure trivial

theorem drawProjected (h : Alike R asked v₁ v₂) :
    Walk.Alike (R K) (fun _ => True) v₁.drawProjected v₂.drawProjected := by
  unfold Visit.drawProjected
  rw [h.frame, h.key, h.level, h.node]
  refine h.clipped _ ((h.handler.walk_log' _).bind fun _ _ => .forM fun ref _ => ?_)
  unfold Visit.placeProjected
  rw [h.frame]
  exact (Walk.Alike.lift fun _ _ => trivial).bind fun edge (_ : True) => h.place ref edge _

theorem playOp (h : Alike R asked v₁ v₂)
    (hlinks : ∀ i edge, v₁.list.children[i]? = some edge → K ⟨v₁.key, i⟩) (offset : Int)
    (op : DrawOp) (index : Nat) :
    Walk.Alike (R K) (fun _ => True) (v₁.playOp offset op index) (v₂.playOp offset op index) := by
  have hoperation : v₂.operation op = v₁.operation op := by
    unfold Visit.operation
    rw [h.list, h.key]
  have hreceive : Walk.Alike (R K) (fun _ => True) (v₁.receive index) (v₂.receive index) := by
    unfold Visit.receive
    rw [h.list, h.frame, h.key]
    split
    · exact h.drawProjected
    · exact .pure trivial
  unfold Visit.playOp
  rw [hoperation, h.level, h.node]
  refine (h.report _).bind fun _ _ => ?_
  refine (Walk.Alike.modify fun _ _ hst => h.handler.logOp _ _ hst).bind fun _ _ => ?_
  cases hop : v₁.operation op with
  | error i => exact h.handler.walk_log' _
  | ok operation =>
    refine (h.offer operation (fun ref edge heq => ?_) _).bind fun _ _ => hreceive
    subst heq
    -- a child that is handed out at an operation is one of the node's own
    unfold Visit.operation at hop
    split at hop
    · next i =>
      split at hop
      · next hedge => cases hop; exact hlinks i edge hedge
      · cases hop
    · cases hop

theorem drawContent (h : Alike R asked v₁ v₂) :
    Walk.Alike (R K) (fun _ => True) v₁.drawContent v₂.drawContent := by
  unfold Visit.drawContent
  rw [h.frame, h.key, h.list]
  cases hsiblings : v₁.frame.nodes.siblings v₁.key v₁.list with
  | error e => exact .throw e
  | ok siblings =>
    obtain rfl := NodeStore.eq_children_of_siblings h.found h.content hsiblings
    have hlinks (i : Nat) (edge : Edge) (hedge : v₁.list.children[i]? = some edge) :
        (∃ c ∈ v₁.frame.nodes.children v₁.key, c.ref = ⟨v₁.key, i⟩) ∨ K ⟨v₁.key, i⟩ := by
      have hedge : v₁.frame.nodes.edge ⟨v₁.key, i⟩ = .ok edge :=
        NodeStore.edge_eq_ok_iff.mpr ⟨v₁.node, v₁.list, h.found, h.content, hedge⟩
      obtain ⟨child, hchild⟩ := NodeStore.exists_child_of_siblings h.found h.content hsiblings
        (⟨v₁.key, i⟩, edge) (NodeStore.mem_linksOf.mpr ⟨rfl, hedge⟩)
      exact .inl ⟨⟨⟨v₁.key, i⟩, edge, child.properties⟩,
        NodeStore.mem_children.mpr ⟨rfl, hedge, child, hchild, rfl⟩, rfl⟩
    intro s t hst
    refine Walk.SameEnd.imp (Walk.Alike.bind (h.drawBelow _) (fun _ _ => ?_) _ _
      (h.handler.sort v₁.key hst)) fun _ _ hst => h.handler.weaken hst fun _ => .inr
    exact h.handler.saveCount.bind fun count _ =>
      (Walk.Alike.forM fun _ _ => h.playOp hlinks _ _ _).bind fun _ _ => h.drawAbove _

theorem isRejected (h : Alike R asked v₁ v₂) :
    Walk.Alike (R K) (fun _ => True) v₁.isRejected v₂.isRejected := by
  unfold Visit.isRejected
  rw [h.properties]
  refine Walk.Alike.get_bind fun s t hst => ⟨?_, trivial, hst⟩
  simp only [Canvas.rejects, Canvas.top, h.handler.stack hst]

theorem drawUnlessRejected (h : Alike R asked v₁ v₂) :
    Walk.Alike (R K) (fun _ => True) v₁.drawUnlessRejected v₂.drawUnlessRejected := by
  unfold Visit.drawUnlessRejected
  rw [h.level, h.key, h.node]
  refine h.isRejected.bind fun rejected _ => ?_
  cases rejected with
  | true => exact (h.report _).bind fun _ _ => h.handler.reject _ _ _ _
  | false => exact h.drawContent

/-- A visit that comes to its end was admitted the margin of its level. -/
theorem run (h : Alike R asked v₁ v₂) :
    Walk.Alike (R K) (fun _ => Journal.Admits asked v₁.level) v₁.run v₂.run := by
  unfold Visit.run
  rw [h.level, h.node]
  refine Walk.Alike.get_bind fun s t hst => ?_
  have hclip : t.canvas.clip = s.canvas.clip := by
    rw [Canvas.clip, Canvas.top, ← h.handler.stack hst]
    rfl
  rw [hclip]
  refine Walk.Alike.bind (h.report _) (fun _ _ => ?_) s t hst
  refine h.handler.saveCount.bind fun count _ => (h.give _).bind fun _ _ => ?_
  refine (h.handler.walk_log _).bind fun _ hadmits => h.applyProperties.bind fun _ _ => ?_
  refine h.drawUnlessRejected.bind fun _ _ => (h.handler.walk_log' _).bind fun _ _ => ?_
  refine (h.give _).bind fun _ _ => (h.handler.walk_onCanvas (.setLayerAlpha _)).mono fun _ _ => ?_
  exact (hadmits rfl).mono (Nat.le_succ _)

end Visit.Alike

/-- Handlers that are alike take walks that are, from any node and in any number of levels. -/
theorem Handler.AlikeOn.visit {ω₁ ω₂ : Type}
    {R : (EdgeRef → Prop) → Stage ω₁ → Stage ω₂ → Prop} {asked : Option Level} {h₁ : Handler ω₁}
    {h₂ : Handler ω₂} {frame : Frame} (h : Handler.AlikeOn frame.nodes R asked h₁ h₂)
    (K : EdgeRef → Prop) (levels level : Nat) (key : Key) :
    Walk.Alike (R K) (fun _ => True) (visit h₁ frame levels level key)
      (visit h₂ frame levels level key) := by
  induction levels generalizing K level key with
  | zero => exact .throw _
  | succ levels ih =>
    show Walk.Alike (R K) _ (Walk.lift (frame.nodes.node key) >>= _)
      (Walk.lift (frame.nodes.node key) >>= _)
    cases hnode : frame.nodes.node key with
    | error e => exact .throw e
    | ok node =>
      show Walk.Alike (R K) _ (h₁.enter level key node >>= _) (h₂.enter level key node >>= _)
      refine (h.enter _ _ _ _).bind fun _ _ => ?_
      dsimp only
      cases hlist : node.shown? with
      | some list =>
        have hvisit : Visit.Alike R asked
            ⟨h₁, frame, RetainedScene.visit h₁ frame levels, level, key, node, list⟩
            ⟨h₂, frame, RetainedScene.visit h₂ frame levels, level, key, node, list⟩ :=
          ⟨h, ih, NodeStore.node_eq_ok_iff.mp hnode, Node.content_of_shown? hlist, rfl, rfl, rfl,
            rfl, rfl⟩
        exact hvisit.run.bind fun _ hadmits => h.leave _ _ _ _ hadmits
      | none => exact (h.walk_log _).bind fun _ hadmits => h.leave _ _ _ _ (hadmits rfl)

theorem Handler.Alike.visit {ω₁ ω₂ : Type} {R : Stage ω₁ → Stage ω₂ → Prop} {asked : Option Level}
    {h₁ : Handler ω₁} {h₂ : Handler ω₂} (h : Handler.Alike R asked h₁ h₂) (frame : Frame)
    (levels level : Nat) (key : Key) :
    Walk.Alike R (fun _ => True) (visit h₁ frame levels level key)
      (visit h₂ frame levels level key) :=
  (h.on frame.nodes).visit (fun _ => False) levels level key

end RetainedScene
