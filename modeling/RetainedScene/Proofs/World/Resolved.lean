import RetainedScene.Proofs.DisplayList.Tables
import RetainedScene.Proofs.Scene.Checks
import RetainedScene.Proofs.Walk.Keeping

/-!
# Walks over recorded content

Where the content of a node comes from a recorder, nothing is missing in the walk of the node: each
operation stands for something (`Visit.exists_operation`), what is handed out finds its entries in
the tables, and a plan can keep it (`NodeStore.Backs`).  So no walk reports that a link is missing
or that an operation cannot be deferred (`NodeStore.Admits`), however it ends.  As no operation is
left out, neither is the receive point: a walk that goes through the content comes past it
(`Visit.Receives`).
-/

namespace RetainedScene

/-! ### Missing entries -/

namespace DisplayList

/-- Carrying out the operation asks a table for an entry that is not there. -/
def Misses (l : DisplayList) : DrawOp → Prop
  | .concat i => l.matrices[i]? = none
  | .clipPath i _ => l.paths[i]? = none
  | .clipRegion i _ => l.regions[i]? = none
  | .child i => l.children[i]? = none
  | _ => False

theorem Resolves.not_misses {l : DisplayList} {op : DrawOp} (h : l.Resolves op) :
    ¬ l.Misses op := by
  have hentry {α : Type} {table : Array α} {i : Nat} (hi : i < table.size) : ¬ table[i]? = none :=
    fun hmiss => Nat.not_le_of_lt hi (Array.getElem?_eq_none_iff.mp hmiss)
  cases op with
  | concat i => exact hentry h
  | clipPath i mode => exact hentry h
  | clipRegion i mode => exact hentry h
  | child i => exact hentry h
  | _ => exact id

theorem IsFinished.not_misses {l : DisplayList} (h : l.IsFinished) {op : DrawOp}
    (hop : op ∈ l.ops.toList) : ¬ l.Misses op :=
  (h.wellFormed.resolves op hop).not_misses

end DisplayList

/-- An operation that draws no child can be deferred. -/
theorem DrawOp.changesState_or_batches {op : DrawOp} (h : op.child? = none) :
    op.changesState = true ∨ op.batchKind?.isSome = true := by
  cases hkind : op.batchKind? with
  | some kind => exact .inr rfl
  | none =>
    refine (op.batchKind?_eq_none_iff.mp hkind).imp_right ?_
    rintro ⟨i, rfl⟩
    cases h

/-! ### The receive point -/

namespace Visit

variable {ω : Type}

/-- The walk of the content comes past its receive point: what is projected to the node is drawn
right after the operation there, between the operations before it and those after it. -/
def Receives (v : Visit ω) : Prop :=
  ∀ index ∈ v.list.receiveIndex, ∃ before op after operation,
    v.list.ops.toList = before ++ op :: after ∧ before.length = index ∧
    v.operation op = .ok operation ∧ v.drawContent = do
      let siblings ← Walk.lift (v.frame.nodes.siblings v.key v.list)
      modify fun s => { s with held := Sibling.holdElevated siblings s.held }
      v.drawBelow (Sibling.elevated siblings)
      let offset : Int := (← Walk.saveCount) - 1
      before.zipIdx.forM fun (op, i) => v.playOp offset op i
      v.report (.opReached v.level op.name)
      modify (·.logOp v.level op.name)
      v.offer operation offset
      (if v.frame.projectedAt v.key ≠ [] then v.drawProjected else pure ())
      (after.zipIdx (index + 1)).forM fun (op, i) => v.playOp offset op i
      v.drawAbove (Sibling.elevated siblings)

variable {v : Visit ω}

/-- Every operation of linked content stands for something. -/
theorem exists_operation (h : v.list.WellLinked) {op : DrawOp} (hop : op ∈ v.list.ops.toList) :
    ∃ operation, v.operation op = .ok operation := by
  cases op with
  | child i =>
    have hi := h.child_mem_iff.mp hop
    exact ⟨.child ⟨v.key, i⟩ v.list.children[i], by simp [operation, hi]⟩
  | _ => exact ⟨_, rfl⟩

/-- At the receive point an operation is followed by what is projected to the node. -/
theorem playOp_receive {index : Nat} (hindex : v.list.receiveIndex = some index) {op : DrawOp}
    {operation : Operation} (hop : v.operation op = .ok operation) (offset : Int) :
    v.playOp offset op index = (do
      v.report (.opReached v.level op.name)
      modify (·.logOp v.level op.name)
      v.offer operation offset
      (if v.frame.projectedAt v.key ≠ [] then v.drawProjected else pure ())) := by
  simp only [playOp, hop, receive, hindex, true_and]

theorem receives (h : v.list.WellLinked) : v.Receives := by
  intro index hindex
  have hlt : index < v.list.ops.toList.length := h.receive index hindex
  -- the operation at the receive point comes between those before it and those after it
  obtain ⟨before, op, after, hops, hlength⟩ :
      ∃ before op after, v.list.ops.toList = before ++ op :: after ∧ before.length = index := by
    refine ⟨v.list.ops.toList.take index, v.list.ops.toList[index],
      v.list.ops.toList.drop (index + 1), ?_, ?_⟩
    · rw [List.getElem_cons_drop, List.take_append_drop]
    · rw [List.length_take, Nat.min_eq_left hlt.le]
  have hmem : op ∈ v.list.ops.toList := by rw [hops]; simp
  obtain ⟨operation, hoperation⟩ := exists_operation h hmem
  refine ⟨before, op, after, operation, hops, hlength, hoperation, ?_⟩
  unfold drawContent
  rw [hops, List.zipIdx_append, List.zipIdx_cons, hlength, Nat.zero_add]
  simp only [List.forM_eq_forM, List.forM_append, List.forM_cons,
    playOp_receive hindex hoperation, bind_assoc]

end Visit

/-! ### What is handed out -/

namespace NodeStore

/-- What a node hands out is carried out and deferred in full: an operation that is recorded in its
content finds its entries if the content comes from a recorder, and draws or changes state in any
case. -/
inductive Backs (nodes : NodeStore) (key : Key) : Operation → Prop
  | property (op : PropertyOp) : Backs nodes key (.property op)
  | child (ref : EdgeRef) (edge : Edge) : Backs nodes key (.child ref edge)
  | recorded {node : Node} {list : DisplayList} {op : DrawOp} (hnode : nodes.get? key = some node)
    (hlist : node.content = some list) (hop : op ∈ list.ops.toList)
    (hresolved : list.IsFinished → ¬ list.Misses op)
    (hdeferred : op.changesState = true ∨ op.batchKind?.isSome = true) :
    Backs nodes key (.recorded op list)

/-- Every operation among the sights is one that its node backs. -/
def BacksAll (nodes : NodeStore) (sights : List Sight) : Prop :=
  ∀ level key op state held, .handed level key op state held ∈ sights → nodes.Backs key op

/-- A walk may report the event: an operation can always be deferred, and a link is missing only in
content that does not come from a recorder. -/
def Admits (nodes : NodeStore) : Event → Prop
  | .notDeferred _ => False
  | .childMissing name i => ∃ key node list, nodes.get? key = some node ∧ node.name = name ∧
      node.content = some list ∧ .child i ∈ list.ops.toList ∧ ¬ list.IsFinished
  | _ => True

variable {nodes : NodeStore}

theorem Backs.of_gives {ω : Type} {v : Visit ω} (hnode : nodes.get? v.key = some v.node)
    (hlist : v.node.content = some v.list) {op : Operation} (hop : v.Gives op) :
    nodes.Backs v.key op := by
  cases hop with
  | property op => exact .property op
  | child ref edge => exact .child ref edge
  | recorded hmem hchild =>
    exact .recorded hnode hlist hmem (·.not_misses hmem) (DrawOp.changesState_or_batches hchild)

end NodeStore

theorem World.sights_backed {ω : Type} (w : World) (h : Handler ω) (start : ω) (canvas : Canvas)
    (level : Nat) (key : Key) :
    w.scene.nodes.BacksAll (w.sights h start canvas level key) := by
  have hbacked : ∀ x ∈ w.sights h start canvas level key, ∀ level key op state held,
      x = .handed level key op state held → w.scene.nodes.Backs key op := by
    refine sights_of_sees (visit_sees ?_ ?_ ?_ ?_ _ _ _) start canvas
    · exact fun _ _ _ _ _ _ _ hx => nomatch hx
    · exact fun _ _ _ _ _ _ _ _ hx => nomatch hx
    · exact fun _ _ _ _ _ _ _ hx => nomatch hx
    · rintro v - hnode hlist op hop state held _ _ _ _ _ ⟨⟩
      exact .of_gives hnode hlist hop
  exact fun level key op state held hmem => hbacked _ hmem level key op state held rfl

/-! ### What is reported -/

/-- The events that were entered in between are as said. -/
def Stage.Enters {ω : Type} (P : Event → Prop) (s t : Stage ω) : Prop :=
  Gains P s.journal.events.toList t.journal.events.toList

theorem Stage.Enters.log {ω : Type} {P : Event → Prop} {e : Event} (he : P e) (s : Stage ω) :
    s.Enters P (s.log e) := .single he Array.toList_push

/-- What a handler enters in the journal by itself is as said. -/
structure Handler.Enters {ω : Type} (P : Event → Prop) (h : Handler ω) : Prop where
  accept : ∀ (v : Visit ω) op offset clip (s : Stage ω), v.Gives op →
    s.Enters P (h.accept v.level v.key op offset clip s)
  enter : ∀ level key node, (h.enter level key node).Keeps (Stage.Enters P)
  reject : ∀ level key node, (h.reject level key node).Keeps (Stage.Enters P)
  leave : ∀ level key node, (h.leave level key node).Keeps (Stage.Enters P)

theorem Visit.Reports.admits {ω : Type} {v : Visit ω} {e : Event} (he : v.Reports e)
    (hnode : v.frame.nodes.get? v.key = some v.node) (hlist : v.node.content = some v.list) :
    v.frame.nodes.Admits e := by
  cases e with
  | childMissing name i =>
    obtain ⟨rfl, hop, hmissing⟩ := he.missing name i rfl
    exact ⟨v.key, v.node, v.list, hnode, rfl, hlist, hop, fun h => h.not_misses hop hmissing⟩
  | notDeferred name =>
    -- this is an event of plans, not of walks
    cases he.component
  | _ => trivial

theorem visit_enters {ω : Type} {h : Handler ω} {f : Frame} (hh : h.Enters f.nodes.Admits)
    (levels level : Nat) (key : Key) :
    (visit h f levels level key).Keeps (Stage.Enters f.nodes.Admits) := by
  refine visit_keeps (R := fun _ => Stage.Enters f.nodes.Admits) (fun _ _ => .refl _)
    (fun _ _ _ _ => .trans) (fun _ _ s => .log trivial s) hh.enter hh.leave ?_
    levels level key
  rintro v rfl rfl hnode hlist hdescend
  exact {
    refl := fun _ => .refl _
    trans := fun _ _ _ => .trans
    canvas := fun _ _ => .refl _
    held := fun _ _ => .refl _
    recent := fun _ _ _ => .refl _
    log := fun s _ he => .log (he.admits hnode hlist) s
    accept := fun s _ offset hop => hh.accept v _ offset _ s hop
    reject := hh.reject _ _ _
    descend := hdescend }

theorem Handler.immediate_enters (nodes : NodeStore) : Handler.immediate.Enters nodes.Admits where
  accept _ _ _ _ _ _ := .refl _
  enter _ _ _ _ := .refl _
  reject _ _ _ _ := .refl _
  leave level key node s := by
    refine Walk.Ends.onCanvas_bind (Walk.Ends.log ?_ fun _ => .refl _)
    exact .log trivial (s.onCanvas _)

theorem Handler.deferred_enters (nodes : NodeStore) : Handler.deferred.Enters nodes.Admits where
  accept v op offset clip s hop := by
    cases hop with
    | child ref edge => exact .refl _
    | property op =>
      simp only [Handler.deferred]
      split_ifs with hstate hkind
      · exact .refl _
      · exact .refl _
      · -- a shadow has a batch, and everything else changes state
        cases op <;> simp [Operation.changesState, Operation.batchKind?] at hstate hkind
    | recorded hmem hchild =>
      simp only [Handler.deferred]
      split_ifs with hstate hkind
      · exact .refl _
      · exact .refl _
      · exact absurd (DrawOp.changesState_or_batches hchild) (not_or.mpr ⟨hstate, hkind⟩)
  enter _ _ _ _ := .refl _
  reject _ _ _ _ := .refl _
  leave _ _ _ _ := .refl _

/-! ### Walks in a world -/

namespace World

/-- The events that the journal of the second world has gained are as said. -/
def Tells (P : Event → Prop) (w w' : World) : Prop :=
  Gains P w.shared.journal.events.toList w'.shared.journal.events.toList

/-- The events that an operation enters in the journal of a world are as said, however it ends. -/
def Enters {α : Type} (P : Event → Prop) (w : World) (m : Action α) : Prop :=
  match m w with
  | .ok _ w' | .error _ w' => w.Tells P w'

variable {α β : Type} {P : Event → Prop} {w : World}

theorem Enters.map {m : Action α} (h : w.Enters P m) (f : α → β) : w.Enters P (f <$> m) := by
  unfold Enters at h ⊢
  show match EStateM.map f m w with
    | .ok _ w' | .error _ w' => w.Tells P w'
  unfold EStateM.map
  cases hm : m w with
  | ok a w' => rwa [hm] at h
  | error e w' => rwa [hm] at h

/-- A failure enters no event but that of the failure itself. -/
theorem gains_fail {fatal : Fatal} (hfatal : P (.failed fatal)) {w' : World}
    (h : w.Tells P w') :
    match (fail fatal : Action α) w' with
    | .ok _ w'' | .error _ w'' => w.Tells P w'' := by
  rw [fail_apply]
  dsimp only
  split
  · exact Gains.trans h (.single hfatal Array.toList_push)
  · exact h

theorem walk_enters {ω : Type} {h : Handler ω} (hh : h.Enters w.scene.nodes.Admits) (start : ω)
    (canvas : Canvas) (level : Nat) (key : Key) :
    w.Enters w.scene.nodes.Admits (walk h start canvas level key) := by
  have hends := visit_enters (f := w.frame) hh (levelCount - level) level key (w.stage canvas start)
  unfold Walk.Ends at hends
  unfold Enters
  rw [walk_apply]
  revert hends
  cases visit h w.frame (levelCount - level) level key (w.stage canvas start) with
  | ok a t => exact id
  | error e t => exact fun hgains => gains_fail trivial hgains

/-- Content that comes from a recorder is well formed at any time of the recording.  In the walk of
a node nothing is missing in such content, and its receive point is passed. -/
theorem recorded_lacks_nothing :
    (∀ commands, (Recorder.performAll {} commands).list.WellFormed ∧
      ∀ list, (Recorder.performAll {} commands).finish = .ok list → list.WellFormed) ∧
    (∀ (ω : Type) (v : Visit ω), v.list.IsFinished → v.Receives) ∧
    ∀ (w : World) (canvas : Canvas) (level : Nat) (key : Key),
      w.scene.nodes.BacksAll (w.sights .immediate () canvas level key) ∧
      w.scene.nodes.BacksAll (w.sights .deferred {} canvas level key) ∧
      w.Enters w.scene.nodes.Admits (replay canvas level key) ∧
      w.Enters w.scene.nodes.Admits (planNode canvas level key) := by
  refine ⟨fun commands => ?_, fun ω v h => v.receives h.wellFormed.toWellLinked,
    fun w canvas level key => ⟨w.sights_backed _ _ _ _ _, w.sights_backed _ _ _ _ _, ?_, ?_⟩⟩
  · have hbegun : (Recorder.performAll {} commands).IsBegun := ⟨commands, rfl⟩
    exact ⟨hbegun.wellFormed, fun list hfinish =>
      DisplayList.IsFinished.wellFormed ⟨_, hbegun, hfinish⟩⟩
  · exact (walk_enters (Handler.immediate_enters _) () canvas level key).map _
  · exact walk_enters (Handler.deferred_enters _) {} canvas level key

end World

/-! ### A list with a receive point -/

namespace Ripple

def background : DisplayList := content [.functor 0, .receive, .child card]

/-- The walk of the list, with nothing to descend into. -/
def listVisit : Visit Unit :=
  ⟨.immediate, world.frame, fun _ _ => pure (), 0, list, ⟨"list", {}, some background⟩, background⟩

/-- The ripple is drawn right after the background of the list, and nothing is missing. -/
theorem recorded_lacks_nothing_background :
    background.IsFinished ∧ background.WellFormed ∧ background.receiveIndex = some 0 ∧
    listVisit.Receives ∧
    world.scene.nodes.BacksAll (world.sights .immediate () .unbounded 0 list) := by
  have hfinished : background.IsFinished :=
    ⟨_, ⟨[.functor 0, .receive, .child card], rfl⟩, rfl⟩
  obtain ⟨hwellFormed, hreceives, hwalks⟩ := World.recorded_lacks_nothing
  exact ⟨hfinished, (hwellFormed [.functor 0, .receive, .child card]).2 background rfl, rfl,
    hreceives Unit listVisit hfinished, (hwalks world .unbounded 0 list).1⟩

end Ripple

end RetainedScene
