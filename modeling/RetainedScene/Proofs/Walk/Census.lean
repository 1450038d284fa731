import RetainedScene.Proofs.Walk.Deferral
import RetainedScene.Proofs.Walk.Descents

/-!
# Counting what is walked

What follows an agenda at every node can be counted.  A node with something to draw is walked once
for every descent into it, and the agendas of the nodes that are walked say how many those are,
except that a node that is rejected does not descend (`Follows.count_walked`).  Where no node is
rejected, each walk of a node draws all operations of its content that draw something, in their
order (`Follows.drawnOf_eq`).
-/

namespace RetainedScene

namespace Sight

def entered? : Sight → Option Key
  | entered _ key => some key
  | _ => none

def rejected? : Sight → Option Key
  | rejected _ key _ => some key
  | _ => none

/-- The nodes that are walked, once for each walk. -/
def walked (log : List Sight) : List Key := log.filterMap entered?

/-- The nodes whose bounds are rejected. -/
def rejects (log : List Sight) : List Key := log.filterMap rejected?

end Sight

/-- The operation that is drawn, if it is one of a node's content. -/
def Draw.content? (key : Key) (d : Draw) : Option DrawOp :=
  match d.ink with
  | .content op => if d.key = key then some op else none
  | .shadow _ => none

/-- The operations of a node's content that are drawn, once for each draw. -/
def Sight.drawnOf (key : Key) (log : List Sight) : List DrawOp :=
  (draws log).filterMap (Draw.content? key)

namespace Sight

variable {level : Nat} {key k : Key} {op : Operation} {state : DisplayState} {held : Bool}
  {log log' : List Sight}

@[simp] theorem walked_append : walked (log ++ log') = walked log ++ walked log' :=
  List.filterMap_append

@[simp] theorem rejects_append : rejects (log ++ log') = rejects log ++ rejects log' :=
  List.filterMap_append

@[simp] theorem drawnOf_append : drawnOf k (log ++ log') = drawnOf k log ++ drawnOf k log' := by
  rw [drawnOf, draws, List.filterMap_append, List.filterMap_append]
  rfl

@[simp] theorem walked_handed : walked (.handed level key op state held :: log) = walked log := rfl

/-- An operation that a node hands out draws nothing of another node. -/
theorem drawnOf_handed_of_ne (hne : key ≠ k) :
    drawnOf k (.handed level key op state held :: log) = drawnOf k log := by
  unfold drawnOf draws
  rw [List.filterMap_cons]
  cases hink : op.ink? with
  | none => simp [draw?, hink]
  | some ink => cases ink <;> simp [draw?, hink, Draw.content?, hne, List.filterMap_cons]

/-- Entering and leaving a node. -/
theorem walked_around : walked (.entered level key :: (log ++ [.left level key])) =
    key :: walked log := by
  show key :: walked (log ++ [.left level key]) = _
  rw [walked_append]
  exact congrArg (key :: ·) (List.append_nil _)

theorem rejects_around : rejects (.entered level key :: (log ++ [.left level key])) =
    rejects log := by
  show rejects (log ++ [.left level key]) = _
  rw [rejects_append]
  exact List.append_nil _

theorem drawnOf_around : drawnOf k (.entered level key :: (log ++ [.left level key])) =
    drawnOf k log := by
  show drawnOf k (log ++ [.left level key]) = _
  rw [drawnOf_append]
  exact List.append_nil _

theorem walked_rejected : walked (.rejected level key state :: log) = walked log := rfl

theorem rejects_rejected :
    rejects (.rejected level key state :: log) = key :: rejects log := rfl

end Sight

/-! ### Parts -/

/-- The step descends into a node. -/
def Step.leadsTo (nodes : NodeStore) (x : Key) : Step → Bool
  | op _ => false
  | descend ref => (nodes.edge ref).toOption.any (·.child = x)

theorem Step.leadsTo_descend {nodes : NodeStore} {x : Key} {ref : EdgeRef} :
    Step.leadsTo nodes x (.descend ref) ↔ ∃ edge, nodes.edge ref = .ok edge ∧ edge.child = x := by
  unfold Step.leadsTo
  dsimp only
  cases nodes.edge ref <;> simp [Except.toOption]

/-- How often the agenda of a node descends into another one. -/
def Frame.descents (f : Frame) (x k : Key) : Nat :=
  ((f.nodes.get? k).bind Node.shown?).elim 0 fun list =>
    (f.agenda k list).countP (Step.leadsTo f.nodes x)

section Parts

variable {f : Frame} {level : Nat} {key x k : Key} {parts : List Part}

/-- What is seen of a part of a list of parts. -/
theorem Part.sights_subset {part : Part} (h : part ∈ parts) :
    part.sights level key ⊆ parts.flatMap (Part.sights level key) :=
  fun _ hx => List.mem_flatMap.mpr ⟨part, h, hx⟩

/-- What is seen of the parts and is not handed out is seen in a descent. -/
theorem Part.mem_descent {x : Sight}
    (hx : ∀ level key op state held, x ≠ .handed level key op state held)
    (h : x ∈ parts.flatMap (Part.sights level key)) :
    ∃ ref edge state log, .descent ref edge state log ∈ parts ∧ x ∈ log := by
  obtain ⟨part, hpart, hmem⟩ := List.mem_flatMap.mp h
  cases part with
  | own op state held => exact absurd (List.mem_singleton.mp hmem) (hx _ _ _ _ _)
  | descent ref edge state log =>
    rcases List.mem_cons.mp hmem with heq | hmem
    · exact absurd heq (hx _ _ _ _ _)
    · exact ⟨ref, edge, state, log, hpart, hmem⟩

/-- What is walked is walked in a descent. -/
theorem Part.exists_descent (h : k ∈ Sight.walked (parts.flatMap (Part.sights level key))) :
    ∃ ref edge state log, .descent ref edge state log ∈ parts ∧ k ∈ Sight.walked log := by
  obtain ⟨sight, hsight, hentered⟩ := List.mem_filterMap.mp h
  have hx : ∀ level key op state held, sight ≠ .handed level key op state held := by
    rintro _ _ _ _ _ rfl
    cases hentered
  obtain ⟨ref, edge, state, log, hpart, hmem⟩ := Part.mem_descent hx hsight
  exact ⟨ref, edge, state, log, hpart, List.mem_filterMap.mpr ⟨sight, hmem, hentered⟩⟩

theorem Part.sights_properties (level : Nat) (key : Key) (h : ∀ part ∈ parts, part.isProperty) :
    Sight.walked (parts.flatMap (Part.sights level key)) = [] ∧
      Sight.rejects (parts.flatMap (Part.sights level key)) = [] := by
  induction parts with
  | nil => exact ⟨rfl, rfl⟩
  | cons part parts ih =>
    have ih := ih fun p hp => h p (List.mem_cons_of_mem _ hp)
    have hpart := h part List.mem_cons_self
    cases part with
    | own op state held => exact ih
    | descent ref edge state log => cases hpart

/-- The balance of what is walked and what the walked nodes descend into. -/
def Frame.Balanced (f : Frame) (x : Key) (count : Nat) (log : List Sight) : Prop :=
  (Sight.walked log).count x + ((Sight.rejects log).map (f.descents x)).sum =
    count + ((Sight.walked log).map (f.descents x)).sum

theorem Frame.Balanced.append {m n : Nat} {log log' : List Sight} (h : f.Balanced x m log)
    (h' : f.Balanced x n log') : f.Balanced x (m + n) (log ++ log') := by
  unfold Frame.Balanced at *
  rw [Sight.walked_append, Sight.rejects_append, List.count_append, List.map_append,
    List.map_append, List.sum_append, List.sum_append]
  omega

/-- A node with something to draw is walked once for each descent of the parts into it. -/
theorem Part.balanced (level : Nat) (key : Key) {child : Node}
    (hx : f.nodes.get? x = some child) (hdraws : child.isDrawable)
    (hedge : ∀ ref edge state log, .descent ref edge state log ∈ parts →
      f.nodes.edge ref = .ok edge)
    (h : ∀ ref edge state log, .descent ref edge state log ∈ parts →
      f.Balanced x (if edge.child = x then 1 else 0) log) :
    f.Balanced x ((parts.flatMap (Part.steps f.nodes)).countP (Step.leadsTo f.nodes x))
      (parts.flatMap (Part.sights level key)) := by
  induction parts with
  | nil => rfl
  | cons part parts ih =>
    rw [List.flatMap_cons, List.flatMap_cons, List.countP_append]
    refine Frame.Balanced.append ?_
      (ih (fun ref edge state log hmem => hedge ref edge state log (List.mem_cons_of_mem _ hmem))
        fun ref edge state log hmem => h ref edge state log (List.mem_cons_of_mem _ hmem))
    cases part with
    | own op state held => cases op <;> rfl
    | descent ref edge state log =>
      have hlog := h ref edge state log List.mem_cons_self
      have href := hedge ref edge state log List.mem_cons_self
      have hcount : (Part.steps f.nodes (.descent ref edge state log)).countP
          (Step.leadsTo f.nodes x) = if edge.child = x then 1 else 0 := by
        have hleads : Step.leadsTo f.nodes x (.descend ref) = decide (edge.child = x) := by
          rw [Bool.eq_iff_iff, Step.leadsTo_descend, decide_eq_true_eq]
          simp [href]
        -- the agenda leaves out a link only if its node has nothing to draw
        by_cases hchild : edge.child = x
        · have hdrawn : Step.isDrawn f.nodes (.descend ref) = true := by
            simp [Step.isDrawn, NodeStore.child?_eq href, hchild, hx, hdraws]
          simp [Part.steps, hdrawn, hleads, hchild]
        · rw [if_neg hchild, Part.steps, List.countP_filter, List.countP_singleton, hleads]
          simp [hchild]
      rw [hcount]
      exact hlog

/-- What a node hands out is drawn, beside what is drawn in its descents. -/
theorem Part.drawnOf_own (h : ∀ ref edge state log, .descent ref edge state log ∈ parts →
      Sight.drawnOf key log = []) :
    Sight.drawnOf key (parts.flatMap (Part.sights level key)) =
      (parts.flatMap (Part.steps f.nodes)).filterMap Step.draw? := by
  induction parts with
  | nil => rfl
  | cons part parts ih =>
    rw [List.flatMap_cons, List.flatMap_cons, Sight.drawnOf_append, List.filterMap_append,
      ih fun ref edge state log hmem => h ref edge state log (List.mem_cons_of_mem _ hmem)]
    congr 1
    cases part with
    | own op state held =>
      cases op with
      | recorded op list =>
        have hink : (Operation.recorded op list).ink? =
            op.batchKind?.map fun _ => .content op := rfl
        simp only [Part.sights, Part.steps, Sight.drawnOf, Sight.draws, Sight.draw?, hink,
          List.filterMap_cons, List.filterMap_nil, Step.draw?]
        cases op.batchKind? <;> simp [Draw.content?]
      | property op => cases op <;> rfl
      | child ref edge => rfl
    | descent ref edge state log =>
      have hlog := h ref edge state log List.mem_cons_self
      have hsteps :
          (Part.steps f.nodes (.descent ref edge state log)).filterMap Step.draw? = [] := by
        rw [Part.steps, List.filterMap_filter]
        simp [Step.draw?]
      rw [hsteps, ← hlog]
      rfl

/-- In the parts of one node another node is drawn by descents only. -/
theorem Part.drawnOf_of_ne {ops : List DrawOp} (hne : key ≠ k)
    (h : ∀ ref edge state log, .descent ref edge state log ∈ parts → Sight.drawnOf k log
      = (List.replicate ((Sight.walked log).count k) ops).flatten) :
    Sight.drawnOf k (parts.flatMap (Part.sights level key)) = (List.replicate
      ((Sight.walked (parts.flatMap (Part.sights level key))).count k) ops).flatten := by
  induction parts with
  | nil => rfl
  | cons part parts ih =>
    rw [List.flatMap_cons, Sight.drawnOf_append, Sight.walked_append, List.count_append,
      ← List.replicate_append_replicate, List.flatten_append,
      ih fun ref edge state log hmem => h ref edge state log (List.mem_cons_of_mem _ hmem)]
    congr 1
    cases part with
    | own op state held => exact Sight.drawnOf_handed_of_ne hne
    | descent ref edge state log =>
      have hlog := h ref edge state log List.mem_cons_self
      rw [Part.sights, Sight.drawnOf_handed_of_ne hne, Sight.walked_handed, hlog]

end Parts

/-! ### Logs -/

namespace Follows

variable {f : Frame} {level : Nat} {key x k : Key} {log : List Sight}

/-- Of a node whose bounds are rejected nothing more is walked. -/
theorem rejected_eq {before after : List Part} (hbefore : ∀ part ∈ before, part.isProperty)
    (hafter : ∀ part ∈ after, part.isProperty) (level : Nat) (key : Key) (state : DisplayState)
    (hlog : log = .entered level key :: (before.flatMap (Part.sights level key) ++
      .rejected level key state :: (after.flatMap (Part.sights level key) ++ [.left level key]))) :
    Sight.walked log = [key] ∧ Sight.rejects log = [key] := by
  obtain ⟨hbefore, hbefore'⟩ := Part.sights_properties level key hbefore
  obtain ⟨hafter, hafter'⟩ := Part.sights_properties level key hafter
  have hsplit : log = .entered level key :: ((before.flatMap (Part.sights level key) ++
      .rejected level key state :: after.flatMap (Part.sights level key)) ++
        [.left level key]) := by
    rw [hlog, List.append_assoc]
    rfl
  rw [hsplit, Sight.walked_around, Sight.rejects_around, Sight.walked_append, Sight.rejects_append,
    Sight.walked_rejected, Sight.rejects_rejected, hbefore, hbefore', hafter, hafter']
  exact ⟨rfl, rfl⟩

/-- A node is rejected only where its bounds are outside the clip. -/
theorem isRejectedIn_of_mem (h : Follows f level key log) {level' : Nat} {state : DisplayState}
    (hmem : .rejected level' k state ∈ log) :
    ∃ node, f.nodes.get? k = some node ∧ node.isRejectedIn state := by
  have hhanded : ∀ l key op s held, Sight.rejected level' k state ≠ .handed l key op s held :=
    fun _ _ _ _ _ => Sight.noConfusion
  -- a node hands out nothing but operations of its properties before and after its own reject
  have hproperties {parts : List Part} {level : Nat} {key : Key}
      (hparts : ∀ part ∈ parts, part.isProperty) :
      .rejected level' k state ∉ parts.flatMap (Part.sights level key) := fun hmem => by
    obtain ⟨ref, edge, _, _, hpart, -⟩ := Part.mem_descent hhanded hmem
    cases hparts _ hpart
  induction h with
  | blank hnode hblank => simp at hmem
  | rejected hnode hshown hrejected hbefore hafter =>
    simp only [List.mem_cons, List.mem_append, List.not_mem_nil, reduceCtorEq, false_or, or_false,
      hproperties hbefore, hproperties hafter] at hmem
    obtain ⟨-, rfl, rfl⟩ := Sight.rejected.inj hmem
    exact ⟨_, hnode, hrejected⟩
  | drawn hnode hlist hown hedge hdescent hsteps ih =>
    simp only [List.mem_cons, List.mem_append, List.not_mem_nil, reduceCtorEq, false_or,
      or_false] at hmem
    obtain ⟨ref, edge, s, log, hpart, hmem⟩ := Part.mem_descent hhanded hmem
    exact ih ref edge s log hpart hmem

/-- What is walked is the node or nested in it. -/
theorem reaches (h : Follows f level key log) : ∀ k ∈ Sight.walked log, f.nodes.Reaches key k := by
  induction h with
  | blank hnode hblank =>
    intro k hk
    rw [List.mem_singleton.mp hk]
  | rejected hnode hshown hrejected hbefore hafter =>
    intro k hk
    rw [(rejected_eq hbefore hafter _ _ _ rfl).1] at hk
    rw [List.mem_singleton.mp hk]
  | drawn hnode hlist hown hedge hdescent hsteps ih =>
    intro k hk
    rw [Sight.walked_around] at hk
    rcases List.mem_cons.mp hk with rfl | hk
    · exact .refl
    · obtain ⟨ref, edge, state, log, hmem, hk⟩ := Part.exists_descent hk
      obtain ⟨hparent, href⟩ := hedge ref edge state log hmem
      exact (hparent.tail (NodeStore.leads_of_edge href)).trans (ih ref edge state log hmem k hk)

/-- A node with something to draw is walked once for each descent into it, and a node that is
rejected makes none of the descents of its agenda. -/
theorem balanced {child : Node} (hx : f.nodes.get? x = some child) (hdraws : child.isDrawable)
    (h : Follows f level key log) : f.Balanced x (if key = x then 1 else 0) log := by
  induction h with
  | @blank level key node hnode hblank =>
    have hnone : f.descents x key = 0 := by
      rw [Frame.descents, hnode, Option.bind_some, hblank]
      rfl
    have hwalked : Sight.walked [.entered level key, .left level key] = [key] := rfl
    have hrejects : Sight.rejects [.entered level key, .left level key] = [] := rfl
    unfold Frame.Balanced
    rw [hwalked, hrejects]
    simp [hnone, List.count_singleton, beq_iff_eq]
  | rejected hnode hshown hrejected hbefore hafter =>
    obtain ⟨hwalked, hrejects⟩ := rejected_eq hbefore hafter _ _ _ rfl
    unfold Frame.Balanced
    rw [hwalked, hrejects]
    simp [List.count_singleton, beq_iff_eq]
  | @drawn level key node list parts hnode hlist hown hedge hdescent hsteps ih =>
    have hparts := Part.balanced level key hx hdraws
      (fun ref edge state log hmem => (hedge ref edge state log hmem).2) ih
    have hdescents : f.descents x key = (f.agenda key list).countP (Step.leadsTo f.nodes x) := by
      rw [Frame.descents, hnode, Option.bind_some, hlist]
      rfl
    unfold Frame.Balanced at hparts ⊢
    rw [hsteps, ← hdescents] at hparts
    rw [Sight.walked_around, Sight.rejects_around, List.count_cons, List.map_cons, List.sum_cons]
    simp only [beq_iff_eq]
    omega

/-- Where no node is rejected, each walk of a node draws what is to be drawn of its content. -/
theorem drawnOf_eq {list : DisplayList} (hlist : (f.nodes.get? k).bind Node.shown? = some list)
    (h : Follows f level key log) (hacyclic : f.nodes.Acyclic key)
    (hrejects : Sight.rejects log = []) : Sight.drawnOf k log = (List.replicate
      ((Sight.walked log).count k) (list.ops.toList.filter (·.batchKind?.isSome))).flatten := by
  induction h with
  | @blank level key node hnode hblank =>
    have hne : key ≠ k := by
      rintro rfl
      rw [hnode, Option.bind_some, hblank] at hlist
      cases hlist
    have hcount : (Sight.walked [.entered level key, .left level key]).count k = 0 :=
      List.count_eq_zero.mpr fun hmem => hne (List.mem_singleton.mp hmem).symm
    rw [hcount]
    rfl
  | rejected hnode hshown hrejected hbefore hafter =>
    rw [(rejected_eq hbefore hafter _ _ _ rfl).2] at hrejects
    cases hrejects
  | @drawn level key node list' parts hnode hlist' hown hedge hdescent hsteps ih =>
    rw [Sight.rejects_around] at hrejects
    have hdrawn (ref : EdgeRef) (edge : Edge) (state : DisplayState) (log : List Sight)
        (hmem : .descent ref edge state log ∈ parts) : Sight.drawnOf k log = (List.replicate
          ((Sight.walked log).count k) (list.ops.toList.filter (·.batchKind?.isSome))).flatten := by
      obtain ⟨hparent, href⟩ := hedge ref edge state log hmem
      refine ih ref edge state log hmem
        (hacyclic.of_reaches (hparent.tail (NodeStore.leads_of_edge href))) ?_
      refine List.filterMap_eq_nil_iff.mpr fun sight hsight => ?_
      exact List.filterMap_eq_nil_iff.mp hrejects sight
        (Part.sights_subset hmem (List.mem_cons_of_mem _ hsight))
    rw [Sight.walked_around, Sight.drawnOf_around]
    by_cases hkey : key = k
    · obtain rfl := hkey
      -- no descent leads back to the node
      have hnever (ref : EdgeRef) (edge : Edge) (state : DisplayState) (log : List Sight)
          (hmem : .descent ref edge state log ∈ parts) : key ∉ Sight.walked log := by
        intro hwalked
        obtain ⟨hparent, href⟩ := hedge ref edge state log hmem
        exact hacyclic key .refl (.trans_left (.tail' hparent (NodeStore.leads_of_edge href))
          ((hdescent ref edge state log hmem).reaches key hwalked))
      have hcount : (Sight.walked (parts.flatMap (Part.sights level key))).count key = 0 := by
        refine List.count_eq_zero.mpr fun hwalked => ?_
        obtain ⟨ref, edge, state, log, hmem, hk⟩ := Part.exists_descent hwalked
        exact hnever ref edge state log hmem hk
      rw [List.count_cons_self, hcount, Part.drawnOf_own (f := f) fun ref edge state log hmem => by
        rw [hdrawn ref edge state log hmem,
          List.count_eq_zero.mpr (hnever ref edge state log hmem)]
        rfl, hsteps, Frame.filterMap_draw?_agenda]
      rw [hnode, Option.bind_some, hlist'] at hlist
      obtain rfl := Option.some.inj hlist
      exact (List.append_nil _).symm
    · rw [List.count_cons_of_ne hkey]
      exact Part.drawnOf_of_ne hkey hdrawn

end Follows

end RetainedScene
