import RetainedScene.Proofs.Walk.Agenda

/-!
# Walks of one frame

Two walks of a node in one frame end alike if they begin on the same canvas, with the same gathered
by the handler, and agree on the links that no walk sorts (`Stage.Agrees`).  They need not agree on
the links of children that do not project: a walk sorts those of a node before it reads them.

That holds of a handler that goes by nothing but the canvas and what it has gathered
(`Handler.Oblivious`), as immediate and deferred drawing do.
-/

namespace RetainedScene

variable {ω : Type}

/-- The stages have the same canvas, and the handler has gathered the same.  They agree on the links
that no walk sorts, and on some others. -/
structure Stage.Agrees (nodes : NodeStore) (asked : Option Level) (common : EdgeRef → Prop)
    (s t : Stage ω) : Prop where
  canvas : s.canvas = t.canvas
  gathered : s.gathered = t.gathered
  asked_left : s.journal.asked = asked
  asked_right : t.journal.asked = asked
  held : ∀ ref, (common ref ∨ ∀ child, nodes.child? ref = some child → child.properties.projects) →
    (ref ∈ s.held ↔ ref ∈ t.held)

/-- What the handler does to the canvas and to what it has gathered depends on these alone. -/
structure Handler.Oblivious (h : Handler ω) : Prop where
  accept : ∀ level key op offset clip s t, s.canvas = t.canvas → s.gathered = t.gathered →
    (h.accept level key op offset clip s).canvas = (h.accept level key op offset clip t).canvas ∧
    (h.accept level key op offset clip s).gathered = (h.accept level key op offset clip t).gathered
  enter : ∀ nodes asked common level key node,
    Walk.Alike (Stage.Agrees nodes asked common) (fun _ => True) (h.enter level key node)
      (h.enter level key node)
  reject : ∀ nodes asked common level key node,
    Walk.Alike (Stage.Agrees nodes asked common) (fun _ => True) (h.reject level key node)
      (h.reject level key node)
  leave : ∀ nodes asked common level key node,
    Walk.Alike (Stage.Agrees nodes asked common) (fun _ => True) (h.leave level key node)
      (h.leave level key node)

namespace Stage.Agrees

variable {nodes : NodeStore} {asked : Option Level} {common common' : EdgeRef → Prop}
  {s t : Stage ω}

theorem onCanvas (h : s.Agrees nodes asked common t) (f : Canvas → Canvas) :
    (s.onCanvas f).Agrees nodes asked common (t.onCanvas f) :=
  { h with canvas := congrArg f h.canvas }

theorem log (h : s.Agrees nodes asked common t) (e : Event) :
    (s.log e).Agrees nodes asked common (t.log e) := { h with }

theorem letGo (h : s.Agrees nodes asked common t) (ref : EdgeRef) :
    (s.letGo ref).Agrees nodes asked (fun r => r = ref ∨ common r) (t.letGo ref) :=
  { h with
    held := by
      intro r hr
      simp only [Stage.letGo, Std.ExtTreeSet.mem_erase, EdgeRef.order_eq_eq_iff, ne_eq]
      refine and_congr_right fun hne => h.held r ?_
      rcases hr with (rfl | hcommon) | hprojects
      · exact absurd rfl hne
      · exact .inl hcommon
      · exact .inr hprojects }

theorem hold (h : s.Agrees nodes asked common t) (ref : EdgeRef) :
    (s.hold ref).Agrees nodes asked common (t.hold ref) :=
  { h with
    held := by
      intro r hr
      simp only [Stage.hold, Std.ExtTreeSet.mem_insert]
      exact or_congr_right (h.held r hr) }

/-- After the children of a node were sorted the stages agree on all links of the node. -/
theorem sort (h : s.Agrees nodes asked common t) (key : Key) :
    Agrees nodes asked (fun r => (∃ c ∈ nodes.children key, c.ref = r) ∨ common r)
      { s with held := Sibling.holdElevated (nodes.children key) s.held }
      { t with held := Sibling.holdElevated (nodes.children key) t.held } :=
  { h with
    held := by
      intro r hr
      show r ∈ Sibling.holdElevated (nodes.children key) s.held ↔
        r ∈ Sibling.holdElevated (nodes.children key) t.held
      by_cases hsorted : ∃ c ∈ nodes.children key, c.ref = r ∧ c.properties.projects = false
      · obtain ⟨c, hc, rfl, hprojects⟩ := hsorted
        have hsame (d : Sibling) (hd : d ∈ nodes.children key) (href : d.ref = c.ref) :
            d.properties = c.properties := by
          obtain ⟨-, hedge, child, hget, hproperties⟩ := NodeStore.mem_children.mp hc
          have hchild : nodes.child? c.ref = some child := (NodeStore.child?_eq hedge).trans hget
          rw [NodeStore.properties_of_mem_children hd (href ▸ hchild), hproperties]
        rw [Sibling.mem_holdElevated hc hprojects hsame,
          Sibling.mem_holdElevated hc hprojects hsame]
      · have hprojects (c : Sibling) (hc : c ∈ nodes.children key) (href : c.ref = r) :
            c.properties.projects = true := by
          by_contra hnot
          exact hsorted ⟨c, hc, href, Bool.not_eq_true _ ▸ hnot⟩
        rw [Sibling.mem_holdElevated_of_projects hprojects,
          Sibling.mem_holdElevated_of_projects hprojects]
        refine h.held r ?_
        rcases hr with (⟨c, hc, rfl⟩ | hcommon) | hall
        -- a link of the node's own that is not sorted projects
        · refine .inr fun child hchild => ?_
          rw [← NodeStore.properties_of_mem_children hc hchild]
          exact hprojects c hc rfl
        · exact .inl hcommon
        · exact .inr hall }

end Stage.Agrees

namespace Handler.Oblivious

variable {h : Handler ω}

theorem alikeOn (ho : h.Oblivious) (hn : h.Neutral) (nodes : NodeStore) (asked : Option Level) :
    Handler.AlikeOn nodes (Stage.Agrees nodes asked) asked h h where
  stack hst := congrArg Canvas.stack hst.canvas
  contains hst hcommon := by
    rw [Bool.eq_iff_iff, Std.ExtTreeSet.contains_iff_mem, Std.ExtTreeSet.contains_iff_mem]
    exact hst.held _ (.inl hcommon)
  asked_left hst := hst.asked_left
  asked_right hst := hst.asked_right
  weaken hst hcommon := { hst with held := fun r hr => hst.held r (hr.imp_left (hcommon r)) }
  onCanvas hst _ := hst.onCanvas _
  letGo ref hst := hst.letGo ref
  hold ref hst := hst.hold ref
  sort key hst := hst.sort key
  log e hst := hst.log e
  logOp level name hst := { hst with }
  accept level key op offset clip hst := by
    obtain ⟨hcanvas, hgathered⟩ := ho.accept level key op offset clip _ _ hst.canvas hst.gathered
    refine ⟨hcanvas, hgathered, ?_, ?_, fun r hr => ?_⟩
    · rw [hn.asked, hst.asked_left]
    · rw [hn.asked, hst.asked_right]
    · rw [hn.held, hn.held]
      exact hst.held r hr
  enter := ho.enter nodes asked
  reject := ho.reject nodes asked
  leave common level key node _ := ho.leave nodes asked common level key node

end Handler.Oblivious

/-! ### Immediate and deferred drawing -/

theorem Stage.alike_onCanvas (nodes : NodeStore) (asked : Option Level) (common : EdgeRef → Prop)
    (f : Canvas → Canvas) : Walk.Alike (Stage.Agrees (ω := ω) nodes asked common) (fun _ => True)
      (Walk.onCanvas f) (Walk.onCanvas f) := Walk.Alike.modify fun _ _ hst => hst.onCanvas f

theorem Stage.alike_log (nodes : NodeStore) (asked : Option Level) (common : EdgeRef → Prop)
    (e : Event) : Walk.Alike (Stage.Agrees (ω := ω) nodes asked common) (fun _ => True)
      (Walk.log e) (Walk.log e) :=
  (Walk.Alike.log e (fun _ _ hst => hst.asked_left) (fun _ _ hst => hst.asked_right)
    fun _ _ hst => hst.log e).mono fun _ _ => trivial

theorem Handler.immediate_oblivious : Handler.immediate.Oblivious where
  accept _ _ op offset _ _ _ hcanvas hgathered :=
    ⟨congrArg (Canvas.issue · offset op) hcanvas, hgathered⟩
  enter nodes asked common _ _ _ := Stage.alike_onCanvas nodes asked common _
  reject _ _ _ _ _ _ := .pure trivial
  leave nodes asked common _ _ _ :=
    (Stage.alike_onCanvas nodes asked common _).bind fun _ _ => Stage.alike_log nodes asked common _

theorem Handler.deferred_oblivious : Handler.deferred.Oblivious where
  accept _ _ op offset _ s t hcanvas hgathered := by
    have hissue : s.canvas.issue offset op = t.canvas.issue offset op :=
      congrArg (Canvas.issue · offset op) hcanvas
    have hstate : s.canvas.displayState = t.canvas.displayState :=
      congrArg Canvas.displayState hcanvas
    cases op with
    | child ref edge => exact ⟨hcanvas, hgathered⟩
    | recorded op list =>
      simp only [Handler.deferred, hstate]
      split_ifs
      · exact ⟨hissue, congrArg (Plan.addBarrier · _ _) hgathered⟩
      · exact ⟨hcanvas, congrArg (Plan.addDraw · _ _ _) hgathered⟩
      · exact ⟨hcanvas, hgathered⟩
    | property op =>
      simp only [Handler.deferred, hstate]
      split_ifs
      · exact ⟨hissue, congrArg (Plan.addBarrier · _ _) hgathered⟩
      · exact ⟨hcanvas, congrArg (Plan.addDraw · _ _ _) hgathered⟩
      · exact ⟨hcanvas, hgathered⟩
  enter _ _ _ _ _ _ := .pure trivial
  reject _ _ _ _ _ _ := .pure trivial
  leave _ _ _ _ _ _ := .pure trivial

end RetainedScene
