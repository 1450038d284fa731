import RetainedScene.Proofs.Walk.Census
import RetainedScene.Proofs.Walk.Fading
import RetainedScene.Proofs.Walk.Kept

/-!
# What is held back after a walk

All through a walk links are let go and held back again.  In a frame that was routed all that is
left of it in the end is that the children of the nodes that were drawn are sorted: of the links of
these nodes to children that do not project, those to elevated ones are held back, and every other
link is as it was (`visit_sweeps`).

A node is drawn if it has something to show and was walked more often than it was rejected
(`Frame.DrawnIn`), so that a node that is nested in several others counts once it was drawn in one
of them.
-/

namespace RetainedScene

open Relation

variable {ω : Type}

namespace Sight

variable {level : Nat} {key : Key} {log : List Sight}

theorem walked_entered : walked (.entered level key :: log) = key :: walked log := rfl

theorem rejects_entered : rejects (.entered level key :: log) = rejects log := rfl

end Sight

/-- The node has something to show, and is walked more often than it is rejected. -/
def Frame.DrawnIn (f : Frame) (log : List Sight) (key : Key) : Prop :=
  f.nodes.shows key = true ∧ (Sight.rejects log).count key < (Sight.walked log).count key

/-- Of the links of some nodes to children that do not project, those to elevated ones are held
back.  Every other link is as it was. -/
structure Frame.Sorts (f : Frame) (drawn : Key → Prop) (held held' : EdgeSet) : Prop where
  classified : ∀ key, drawn key → f.Classified key held'
  kept : ∀ ref, (∀ child, f.nodes.child? ref = some child → child.properties.projects = false →
    ¬ drawn ref.parent) → (ref ∈ held' ↔ ref ∈ held)

namespace Frame.Sorts

variable {f : Frame} {drawn drawn' : Key → Prop} {held held' held'' : EdgeSet} {key : Key}

theorem refl (f : Frame) (held : EdgeSet) : f.Sorts (fun _ => False) held held where
  classified _ h := h.elim
  kept _ _ := Iff.rfl

theorem congr (h : f.Sorts drawn held held') (hdrawn : ∀ key, drawn' key ↔ drawn key) :
    f.Sorts drawn' held held' := by
  obtain rfl : drawn' = drawn := funext fun key => propext (hdrawn key)
  exact h

/-- What was sorted before stays sorted. -/
theorem classified_of (h : f.Sorts drawn held held') (hclassified : f.Classified key held) :
    f.Classified key held' := by
  by_cases hkey : drawn key
  · exact h.classified key hkey
  · rintro ref child rfl hchild hprojects
    rw [h.kept ref fun _ _ _ => hkey]
    exact hclassified ref child rfl hchild hprojects

theorem settled (h : f.Sorts drawn held held') (hsettled : f.Settled key held) :
    f.Settled key held' := by
  intro ref child hreach hchild hdraws hprojects
  refine (h.kept ref fun child' hchild' hprojects' => ?_).mpr
    (hsettled ref child hreach hchild hdraws hprojects)
  rw [← Option.some.inj (hchild.symm.trans hchild'), hprojects] at hprojects'
  cases hprojects'

theorem trans (h : f.Sorts drawn held held') (h' : f.Sorts drawn' held' held'') :
    f.Sorts (fun key => drawn key ∨ drawn' key) held held'' where
  classified key hkey := by
    rcases hkey with hkey | hkey
    · exact h'.classified_of (h.classified key hkey)
    · exact h'.classified key hkey
  kept ref href := by
    rw [h'.kept ref fun child hchild hprojects hkey => href child hchild hprojects (.inr hkey)]
    exact h.kept ref fun child hchild hprojects hkey => href child hchild hprojects (.inl hkey)

/-- Sorting the children of a node. -/
theorem holdElevated (f : Frame) (key : Key) (held : EdgeSet) :
    f.Sorts (· = key) held (Sibling.holdElevated (f.nodes.children key) held) where
  classified := by
    rintro _ rfl
    exact f.classified_holdElevated _ held
  kept ref href := by
    refine Sibling.mem_holdElevated_of_projects fun c hc heq => ?_
    subst heq
    obtain ⟨hparent, hedge, child, hget, hproperties⟩ := NodeStore.mem_children.mp hc
    by_contra hprojects
    refine href child ((NodeStore.child?_eq hedge).trans hget) ?_ hparent
    rw [hproperties]
    exact Bool.not_eq_true _ ▸ hprojects

/-- A link that is held back is let go for a walk and then held back again.  Where it is sorted, it
belongs there. -/
theorem of_letGo {ref : EdgeRef} (h : f.Sorts drawn (held.erase ref) held')
    (hheld : ref ∈ held) (helevated : ∀ child, f.nodes.child? ref = some child →
      child.properties.projects = false → child.properties.elevation.isZero = false) :
    f.Sorts drawn held (held'.insert ref) where
  classified key hkey r child hparent hchild hprojects := by
    rw [Std.ExtTreeSet.mem_insert, h.classified key hkey r child hparent hchild hprojects,
      EdgeRef.order_eq_eq_iff]
    constructor
    · rintro (rfl | helev)
      · exact helevated child hchild hprojects
      · exact helev
    · exact .inr
  kept r hr := by
    rw [Std.ExtTreeSet.mem_insert, h.kept r hr, Std.ExtTreeSet.mem_erase, EdgeRef.order_eq_eq_iff]
    by_cases hne : ref = r
    · simp [hne, hne ▸ hheld]
    · simp [hne]

end Frame.Sorts

/-! ### Stages -/

namespace Stage

/-- In between no node was walked or rejected, and no link was let go or held back. -/
structure Steady (s t : Stage (ω × List Sight)) : Prop where
  held : t.held = s.held
  log : ∃ log, t.seen = s.seen ++ log ∧ Sight.walked log = [] ∧ Sight.rejects log = []

/-- In between the children of the nodes were sorted that were drawn. -/
def Sweeps (f : Frame) (s t : Stage (ω × List Sight)) : Prop :=
  ∃ log, t.seen = s.seen ++ log ∧
    (∀ key, (Sight.rejects log).count key ≤ (Sight.walked log).count key) ∧
      f.Sorts (f.DrawnIn log) s.held t.held

variable {f : Frame} {s t u : Stage (ω × List Sight)}

theorem Steady.trans (h : s.Steady t) (h' : t.Steady u) : s.Steady u where
  held := h'.held.trans h.held
  log := by
    obtain ⟨log, hseen, hwalked, hrejects⟩ := h.log
    obtain ⟨log', hseen', hwalked', hrejects'⟩ := h'.log
    refine ⟨log ++ log', ?_, ?_, ?_⟩
    · rw [hseen', hseen, List.append_assoc]
    · rw [Sight.walked_append, hwalked, hwalked', List.append_nil]
    · rw [Sight.rejects_append, hrejects, hrejects', List.append_nil]

theorem Steady.of_eq (hheld : t.held = s.held) (hseen : t.seen = s.seen) : s.Steady t :=
  ⟨hheld, [], by rw [hseen, List.append_nil], rfl, rfl⟩

theorem Steady.of_idles (h : s.Idles t) : s.Steady t :=
  .of_eq h.held (congrArg Prod.snd h.gathered)

theorem Steady.sweeps (h : s.Steady t) (f : Frame) : Sweeps f s t := by
  obtain ⟨log, hseen, hwalked, hrejects⟩ := h.log
  refine ⟨log, hseen, fun key => ?_, ?_⟩
  · rw [hwalked, hrejects]
  · rw [h.held]
    refine (Frame.Sorts.refl f s.held).congr fun key => ?_
    simp [Frame.DrawnIn, hwalked, hrejects]

theorem Sweeps.trans (h : Sweeps f s t) (h' : Sweeps f t u) : Sweeps f s u := by
  obtain ⟨log, hseen, hcount, hsorts⟩ := h
  obtain ⟨log', hseen', hcount', hsorts'⟩ := h'
  refine ⟨log ++ log', ?_, fun key => ?_, (hsorts.trans hsorts').congr fun key => ?_⟩
  · rw [hseen', hseen, List.append_assoc]
  · rw [Sight.walked_append, Sight.rejects_append, List.count_append, List.count_append]
    exact Nat.add_le_add (hcount key) (hcount' key)
  · have := hcount key
    have := hcount' key
    simp only [Frame.DrawnIn, Sight.walked_append, Sight.rejects_append, List.count_append,
      ← and_or_left]
    refine and_congr_right fun _ => ?_
    omega

theorem Sweeps.settled {key : Key} (h : Sweeps f s t) (hsettled : f.Settled key s.held) :
    f.Settled key t.held := by
  obtain ⟨log, -, -, hsorts⟩ := h
  exact hsorts.settled hsettled

theorem Sweeps.classified {key : Key} (h : Sweeps f s t) (hclassified : f.Classified key s.held) :
    f.Classified key t.held := by
  obtain ⟨log, -, -, hsorts⟩ := h
  exact hsorts.classified_of hclassified

end Stage

/-! ### Visits -/

namespace Visit

variable {v : Visit (ω × List Sight)} {h : Handler ω} {s t : Stage (ω × List Sight)}
  {ref : EdgeRef} {edge : Edge} {transform : Matrix} {mode : ClipMode} {offset : Int}
  {ops : List DrawOp} {layer : Option Single} {held : EdgeSet}

/-- What a pass places is held back, and comes from below the node. -/
theorem Placing.mem_held (hplacing : v.Placing mode ref edge transform)
    (hsound : v.frame.Sound v.key) (hsettled : v.frame.Settled v.key held)
    (hclassified : v.frame.Classified v.key held) :
    ref ∈ held ∧ v.frame.nodes.Reaches v.key ref.parent ∧ v.frame.nodes.edge ref = .ok edge ∧
      ∀ child, v.frame.nodes.child? ref = some child → child.properties.projects = false →
        child.properties.elevation.isZero = false := by
  cases hplacing with
  | @sibling c hc =>
    obtain ⟨hmem, helevated⟩ := Sibling.mem_byHeight.mp hc
    obtain ⟨hparent, hedge, child, hget, hproperties⟩ := NodeStore.mem_children.mp hmem
    have hchild : v.frame.nodes.child? c.ref = some child := (NodeStore.child?_eq hedge).trans hget
    simp only [Sibling.isElevated, Sibling.height, Bool.and_eq_true, Bool.not_eq_true',
      ← hproperties] at helevated
    refine ⟨(hclassified c.ref child hparent hchild helevated.1).mpr helevated.2, hparent ▸ .refl,
      hedge, fun child' hchild' _ => ?_⟩
    rw [← Option.some.inj (hchild.symm.trans hchild')]
    exact helevated.2
  | projected href hedge =>
    obtain ⟨hparent, edge', child, hedge', hget, hdraws, hprojects⟩ :=
      hsound.listed v.key .refl ref href
    have hchild : v.frame.nodes.child? ref = some child := (NodeStore.child?_eq hedge').trans hget
    refine ⟨hsettled ref child hparent hchild hdraws hprojects, hparent, hedge,
      fun child' hchild' hprojects' => ?_⟩
    rw [← Option.some.inj (hchild.symm.trans hchild'), hprojects] at hprojects'
    cases hprojects'

variable (hn : h.Neutral) (hv : v.handler = h.watched)

include hn hv

theorem steady_accepted (op : Operation) (offset : Int) (s : Stage (ω × List Sight)) :
    s.Steady (v.accepted op offset s) := by
  refine ⟨?_, [.handed v.level v.key op s.canvas.displayState (op.isHeld s.held)],
    seen_accepted hv op offset s, rfl, rfl⟩
  unfold accepted
  rw [hv]
  exact hn.held _ _ _ _ _ _

theorem Opens.steady (hopens : v.Opens layer s t) : s.Steady t := by
  induction hopens with
  | idle hidle => exact .of_idles hidle
  | adjusted f s => exact .of_eq rfl rfl
  | layer s => exact .of_eq rfl rfl
  | given hop s => exact steady_accepted hn hv _ 0 s
  | trans _ _ ih ih' => exact ih.trans ih'

variable (hsound : v.frame.Sound v.key)
  {below : Key → Stage (ω × List Sight) → Stage (ω × List Sight) → Prop}
  (hbelow : ∀ key s t, below key s t → v.frame.Sound key → v.frame.Settled key s.held →
    Stage.Sweeps v.frame s t)

include hsound hbelow

theorem Offers.sweeps (hparent : v.frame.nodes.Reaches v.key ref.parent)
    (hedge : v.frame.nodes.edge ref = .ok edge) (hsettled : v.frame.Settled edge.child s.held)
    (hoffers : v.Offers below ref edge offset s t) : Stage.Sweeps v.frame s t := by
  have haccepted := steady_accepted hn hv (.child ref edge) offset s
  cases hoffers with
  | held hheld => exact haccepted.sweeps _
  | descent hfree hdescent =>
    have hchild := hparent.tail (NodeStore.leads_of_edge hedge)
    refine (haccepted.sweeps _).trans (hbelow _ _ _ hdescent (hsound.of_reaches hchild) ?_)
    rw [haccepted.held]
    exact hsettled

theorem Turns.sweeps (hsettled : v.frame.Settled v.key s.held)
    (hclassified : v.frame.Classified v.key s.held) (hturns : v.Turns below mode s t) :
    Stage.Sweeps v.frame s t := by
  cases hturns with
  | idle hidle => exact (Stage.Steady.of_idles hidle).sweeps _
  | shadow shadow s => exact (steady_accepted hn hv _ 0 s).sweeps _
  | @placed ref edge transform offset s t hplacing hoffers =>
    obtain ⟨hheld, hparent, hedge, helevated⟩ := hplacing.mem_held hsound hsettled hclassified
    have hchild := hparent.tail (NodeStore.leads_of_edge hedge)
    have hsweeps := hoffers.sweeps hn hv hsound hbelow hparent hedge ?_
    · obtain ⟨log, hseen, hcount, hsorts⟩ := hsweeps
      exact ⟨log, hseen, hcount, hsorts.of_letGo hheld helevated⟩
    -- the link that is let go is not from below its own child
    · intro r node hreach hnode hdraws hprojects
      have hne : ref ≠ r := by
        rintro rfl
        exact hsound.not_reaches hparent hedge hreach
      have hmem := hsettled r node (hchild.trans hreach) hnode hdraws hprojects
      exact Std.ExtTreeSet.mem_erase.mpr ⟨by simpa using hne, hmem⟩

theorem Course.sweeps (hsettled : v.frame.Settled v.key s.held)
    (hclassified : v.frame.Classified v.key s.held) (hcourse : v.Course below offset ops s t) :
    Stage.Sweeps v.frame s t := by
  induction hcourse with
  | idle hidle => exact (Stage.Steady.of_idles hidle).sweeps _
  | own hop s => exact (steady_accepted hn hv _ offset s).sweeps _
  | link hedge hoffers =>
    refine hoffers.sweeps hn hv hsound hbelow .refl hedge fun r node hreach => ?_
    exact hsettled r node ((ReflTransGen.single (NodeStore.leads_of_edge hedge)).trans hreach)
  | missing hidle => exact (Stage.Steady.of_idles hidle).sweeps _
  | @pass mode s t hturns =>
    have hclip : Stage.Sweeps v.frame s (v.accepted
        (.property (.clipRect v.properties.bounds mode)) 0 (s.onCanvas (·.save .matrixClip))) :=
      (steady_accepted hn hv _ 0 (s.onCanvas (·.save .matrixClip))).sweeps _
    have hinside : Stage.Sweeps v.frame s t := by
      induction hturns with
      | refl => exact hclip
      | tail _ hturn ih =>
        exact ih.trans (hturn.sweeps hn hv hsound hbelow (ih.settled hsettled)
          (ih.classified hclassified))
    exact hinside.trans ((steady_accepted hn hv _ 0 t).sweeps _)
  | trans _ _ ih ih' =>
    have hfirst := ih hsettled hclassified
    exact hfirst.trans (ih' (hfirst.settled hsettled) (hfirst.classified hclassified))

/-- Between its properties and its end the node is rejected, or its children are sorted and drawn
with its content. -/
theorem Inside.sweeps (hsettled : v.frame.Settled v.key s.held) (hinside : v.Inside below s t) :
    (t.held = s.held ∧ ∃ state, t.seen = s.seen ++ [.rejected v.level v.key state]) ∨
      ∃ sorted : Stage (ω × List Sight), sorted.seen = s.seen ∧
        v.frame.Sorts (· = v.key) s.held sorted.held ∧ Stage.Sweeps v.frame sorted t := by
  cases hinside with
  | @rejected s' _ hidle hrejected hreject =>
    have hseen := seen_of_rejected hv hidle hreject
    have hends : (h.watched.reject v.level v.key v.node).EndsAs s' fun _ t => t.held = s'.held :=
      (hn.watched.reject v.level v.key v.node s').mono (fun _ _ ht => ht.1) fun _ _ _ => trivial
    rw [hv] at hreject
    exact .inl ⟨(hends.of_eq_ok hreject).trans hidle.held, _, hseen⟩
  | drawn hbefore hcontent =>
    have hsorted := Frame.Sorts.holdElevated v.frame v.key s.held
    have hfirst := (hbefore 0).sweeps hn hv hsound hbelow (hsorted.settled hsettled)
      (hsorted.classified v.key rfl)
    refine .inr ⟨{ s with held := Sibling.holdElevated (v.frame.nodes.children v.key) s.held }, rfl,
      hsorted, hfirst.trans ?_⟩
    exact hcontent.sweeps hn hv hsound hbelow (hfirst.settled (hsorted.settled hsettled))
      (hfirst.classified (hsorted.classified v.key rfl))

/-- What is left of the walk of the node once it was entered, before it is left. -/
theorem Runs.sorts (hnode : v.frame.nodes.get? v.key = some v.node)
    (hlist : v.node.shown? = some v.list) (hsettled : v.frame.Settled v.key s.held)
    (hruns : v.Runs below s t) : ∃ log, t.seen = s.seen ++ log ∧
      (∀ key, (Sight.rejects log).count key ≤ (Sight.walked (.entered v.level v.key :: log)).count
        key) ∧
      v.frame.Sorts (v.frame.DrawnIn (.entered v.level v.key :: log)) s.held t.held := by
  cases hruns with
  | @run s₀ s₁ s₂ s₃ hstart hopens hinside hend =>
    have hopened : s.Steady s₁ := (Stage.Steady.of_idles hstart).trans
      ((steady_accepted hn hv _ 0 s₀).trans (hopens.steady hn hv))
    have hclosed : s₂.Steady ((v.accepted (.property (.restoreTo s.canvas.saveCount)) 0 s₃).onCanvas
        (·.setLayerAlpha 1)) :=
      ((Stage.Steady.of_idles hend).trans (steady_accepted hn hv _ 0 s₃)).trans (.of_eq rfl rfl)
    have hsettled₁ : v.frame.Settled v.key s₁.held := hopened.held ▸ hsettled
    obtain ⟨before, hbefore, hwalked, hrejects⟩ := hopened.log
    obtain ⟨after, hafter, hwalked', hrejects'⟩ := hclosed.log
    rcases hinside.sweeps hn hv hsound hbelow hsettled₁ with
      ⟨hheld, state, hseen⟩ | ⟨sorted, hseen, hsorts, log, hlog, hcount, hsorts'⟩
    · refine ⟨before ++ .rejected v.level v.key state :: after, ?_, fun key => ?_, ?_⟩
      · rw [hafter, hseen, hbefore]
        simp
      · simp only [Sight.walked_entered, Sight.walked_append, Sight.rejects_append, hwalked,
          hrejects, Sight.walked_rejected, Sight.rejects_rejected, hwalked', hrejects',
          List.nil_append]
        exact Nat.le_refl _
      -- the walk of the node and its reject make up for each other
      · rw [hclosed.held, hheld, hopened.held]
        refine (Frame.Sorts.refl v.frame s.held).congr fun key => ?_
        simp [Frame.DrawnIn, Sight.walked_entered, Sight.rejects_entered, Sight.walked_rejected,
          Sight.rejects_rejected, hwalked, hrejects, hwalked', hrejects']
    · have hshows : v.frame.nodes.shows v.key = true := by simp [NodeStore.shows, hnode, hlist]
      refine ⟨before ++ (log ++ after), ?_, fun key => ?_, ?_⟩
      · rw [hafter, hlog, hseen, hbefore]
        simp
      · have := hcount key
        simp [Sight.walked_entered, hwalked, hrejects, hwalked', hrejects', List.count_cons]
        omega
      · rw [hclosed.held, ← hopened.held]
        refine (hsorts.trans hsorts').congr fun key => ?_
        have := hcount key
        simp only [Frame.DrawnIn, Sight.walked_entered, Sight.rejects_entered, Sight.walked_append,
          Sight.rejects_append, hwalked, hrejects, hwalked', hrejects', List.append_nil,
          List.nil_append, List.count_cons, beq_iff_eq]
        by_cases hkey : key = v.key
        · subst hkey
          simp only [hshows, if_true, true_and, true_or, iff_true]
          omega
        · simp only [hkey, Ne.symm hkey, if_false, false_or, Nat.add_zero]

end Visit

/-! ### Walks -/

/-- In a frame that was routed the walk of a node leaves the children of all nodes sorted that were
drawn in it, and every other link as it was. -/
theorem visit_sweeps {h : Handler ω} (hn : h.Neutral) {f : Frame} {levels level : Nat} {key : Key}
    {s t : Stage (ω × List Sight)} (hvisit : visit h.watched f levels level key s = .ok () t)
    (hsound : f.Sound key) (hsettled : f.Settled key s.held) : Stage.Sweeps f s t := by
  refine visit_induct hn.watched (P := fun _ key s t => f.Sound key → f.Settled key s.held →
    Stage.Sweeps f s t) (fun levels level key s t _ hwalked hsound hsettled => ?_) hvisit hsound
    hsettled
  cases hwalked with
  | @blank _ _ node _ s₁ s₂ _ hnode hblank henter hidle hleave =>
    obtain ⟨hheld₁, hseen₁⟩ :=
      (h.watched_enter_ends hn (Nat.le_refl level) key node s).of_eq_ok henter
    obtain ⟨hheld, hseen⟩ :=
      (h.watched_leave_ends hn (Nat.le_refl level) key node s₂).of_eq_ok hleave
    have hseen₂ : s₂.seen = s₁.seen := congrArg Prod.snd hidle.gathered
    have hshows : f.nodes.shows key = false := by simp [NodeStore.shows, hnode, hblank]
    refine ⟨[.entered level key, .left level key], ?_, fun k => Nat.zero_le _, ?_⟩
    · rw [hseen, hseen₂, hseen₁, List.append_assoc]
      rfl
    · rw [hheld, hidle.held, hheld₁]
      refine (Frame.Sorts.refl f s.held).congr fun k => ?_
      refine iff_of_false (fun hdrawn => ?_) id
      by_cases hk : k = key
      · rw [Frame.DrawnIn, hk, hshows] at hdrawn
        exact Bool.noConfusion hdrawn.1
      · have hcount : ([key] : List Key).count k = 0 := List.count_eq_zero.mpr (by simpa using hk)
        exact Nat.not_lt_zero _ (hcount ▸ hdrawn.2)
  | @shown v _ s₁ s₂ _ hhandler hframe hnode hlist henter hruns hleave =>
    subst hframe
    obtain ⟨hheld₁, hseen₁⟩ :=
      (h.watched_enter_ends hn (Nat.le_refl v.level) v.key v.node s).of_eq_ok henter
    obtain ⟨hheld, hseen⟩ :=
      (h.watched_leave_ends hn (Nat.le_refl v.level) v.key v.node s₂).of_eq_ok hleave
    obtain ⟨log, hlog, hcount, hsorts⟩ := hruns.sorts hn hhandler hsound
      (fun _ _ _ hbelow => hbelow.2) hnode hlist (hheld₁ ▸ hsettled)
    refine ⟨.entered v.level v.key :: (log ++ [.left v.level v.key]), ?_, fun key => ?_, ?_⟩
    · rw [hseen, hlog, hseen₁]
      simp
    · rw [Sight.walked_around, Sight.rejects_around]
      exact hcount key
    · rw [hheld, ← hheld₁]
      refine hsorts.congr fun key => ?_
      rw [Frame.DrawnIn, Frame.DrawnIn, Sight.walked_around, Sight.rejects_around,
        Sight.walked_entered, Sight.rejects_entered]

end RetainedScene
