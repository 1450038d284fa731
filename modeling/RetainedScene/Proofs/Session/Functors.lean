import RetainedScene.Proofs.Session.Change

/-!
# Counted functors

The functors of a list are counted from the time that a node is given the list until the list is
torn down.  Whatever is asked of a session that began with nothing, mistakes included, the count is
that of the functor operations in the contents of the nodes, as far as a word can hold it; and as
long as a word holds it, nothing is taken off the count that is not in it
(`Session.functors_counted`).

`Session.obey` carries out a request whatever comes of it, where `Session.serve` serves none that is
a mistake.  What every change of a node keeps is `World.Counted`, and what every request keeps is
`Session.Tallies`.
-/

namespace RetainedScene

/-! ### The functors of a list -/

def DrawOp.isFunctor : DrawOp → Bool
  | functor _ => true
  | _ => false

/-- The count of operations that draw by a functor. -/
def DisplayList.functorOps (l : DisplayList) : Nat := l.ops.toList.countP DrawOp.isFunctor

/-- The count of operations that draw by a functor, in the contents of all nodes. -/
def NodeStore.functorOps (nodes : NodeStore) : Nat :=
  (nodes.contents.flatMap (·.ops.toList)).countP DrawOp.isFunctor

namespace DisplayList

variable {l l' : DisplayList}

/-- An operation is added, and counted if it draws by a functor. -/
theorem functors_push (h : l.functors = l.functorOps) {op : DrawOp} (hops : l'.ops = l.ops.push op)
    (hfunctors : l'.functors = l.functors + if op.isFunctor then 1 else 0) :
    l'.functors = l'.functorOps := by
  rw [hfunctors, h, functorOps, functorOps, hops, Array.toList_push, List.countP_append,
    List.countP_singleton]

theorem functors_perform {r r' : Recorder} {command : Command}
    (h : r.list.functors = r.list.functorOps) (hr : r.perform command = .ok r') :
    r'.list.functors = r'.list.functorOps := by
  cases command with
  | receive =>
    simp only [Recorder.perform] at hr
    split at hr <;> cases hr
    exact h
  | restore =>
    simp only [Recorder.perform] at hr
    split at hr <;> cases hr
    exact functors_push h rfl rfl
  | restoreTo count =>
    simp only [Recorder.perform] at hr
    split at hr <;> cases hr
    exact functors_push h rfl rfl
  | path path source paint =>
    obtain rfl := Except.ok.inj hr
    cases source <;> exact functors_push h rfl rfl
  | bitmap id target paint =>
    obtain rfl := Except.ok.inj hr
    cases paint <;> exact functors_push h rfl rfl
  | ownedBitmap id target paint =>
    obtain rfl := Except.ok.inj hr
    cases paint <;> exact functors_push h rfl rfl
  | patch id target paint =>
    obtain rfl := Except.ok.inj hr
    cases paint <;> exact functors_push h rfl rfl
  | _ =>
    obtain rfl := Except.ok.inj hr
    exact functors_push h rfl rfl

/-- A finished list has the count of its own functors. -/
theorem IsFinished.functors_eq (h : l.IsFinished) : l.functors = l.functorOps := by
  obtain ⟨r, ⟨commands, rfl⟩, hfinish⟩ := h
  obtain ⟨-, rfl⟩ := Recorder.finish_eq_ok_iff.mp hfinish
  exact Recorder.performAll_induct (fun _ _ _ => functors_perform) rfl commands

end DisplayList

/-! ### The count -/

namespace Shared

@[simp] theorem functors_log (c : Shared) (e : Event) : (c.log e).functors = c.functors := rfl

@[simp] theorem functors_logOutcome (c : Shared) (id : ResourceId) (outcome : Cache.Outcome) :
    (c.logOutcome id outcome).functors = c.functors := by
  cases outcome <;> rfl

@[simp] theorem functors_retain (c : Shared) (id : ResourceId) :
    (c.retain id).functors = c.functors := by
  unfold retain
  split <;> rfl

@[simp] theorem functors_release (c : Shared) (id : ResourceId) :
    (c.release id).functors = c.functors := by
  unfold release
  split <;> simp

@[simp] theorem functors_destroyResource (c : Shared) (id : ResourceId) :
    (c.destroyResource id).functors = c.functors := functors_logOutcome _ _ _

@[simp] theorem functors_lose (c : Shared) (l : DisplayList) :
    (c.lose l).functors = c.functors := by
  unfold lose
  split <;> rfl

/-- What no step changes is the same after all of them. -/
theorem foldl_keeps {α β : Type} {g : Shared → β} {f : Shared → α → Shared}
    (h : ∀ c a, g (f c a) = g c) (l : List α) (c : Shared) : g (l.foldl f c) = g c := by
  induction l generalizing c with
  | nil => rfl
  | cons a l ih => rw [List.foldl_cons, ih, h]

/-- Giving references back leaves the count alone. -/
@[simp] theorem functors_returnReferences (c : Shared) (l : DisplayList) :
    (c.returnReferences l).functors = c.functors := by
  unfold returnReferences
  split
  · rfl
  · rw [functors_log, foldl_keeps (g := functors) (by simp), foldl_keeps functors_release]

theorem functors_tearDown {l : DisplayList} (h : l.spent = false) (c : Shared) :
    (c.tearDown l).functors = c.functors - UInt32.ofNat l.functors := by
  unfold tearDown
  rw [if_neg (by simp [h]), functors_returnReferences]
  rfl

/-- Recording a command leaves the count alone, whatever the recorder makes of it. -/
@[simp] theorem functors_perform (c : Shared) (r : Recorder) (command : Command) :
    (c.perform r command).2.functors = c.functors := by
  unfold perform
  cases r.perform command with
  | error e => rfl
  | ok r' => exact foldl_keeps functors_retain _ c

/-- So does the end of a recording, also of one that cannot be finished. -/
@[simp] theorem functors_finish (c : Shared) (r : Recorder) :
    (c.finish r).2.functors = c.functors := by
  unfold finish
  cases r.finish with
  | error e => exact functors_returnReferences c r.list
  | ok l => rfl

end Shared

/-! ### Changes of nodes -/

namespace World

variable {w w' : World} {key : Key} {keys : List Key} {α : Type}

/-- The world that an operation leaves, whether or not it goes well. -/
def after (m : Action α) (w : World) : World :=
  match m w with
  | .ok _ w' => w'
  | .error _ w' => w'

theorem after_forM_cons {β : Type} (k : β → Action Unit) (x : β) (xs : List β) (w : World) :
    after ((x :: xs).forM k) w = match k x w with
      | .ok _ w' => after (xs.forM k) w'
      | .error _ w' => w' := by
  show after (EStateM.bind (k x) fun _ => xs.forM k) w = _
  unfold after EStateM.bind
  cases k x w <;> rfl

/-- A node that is not there cannot be destroyed. -/
theorem destroy_eq_error (h : w.scene.nodes.remove? key = none) : destroy key w =
    .error (.destroyedTwice key) (w.log (.failed (.destroyedTwice key))) := by
  unfold destroy
  simp only [bind, EStateM.bind, get_apply, h]
  rfl

theorem editProperties_eq_error (h : w.scene.nodes.get? key = none) (f : Properties → Properties) :
    editProperties key f w =
      .error (.usedAfterDestruction key) (w.log (.failed (.usedAfterDestruction key))) := by
  show EStateM.bind (nodeToChange key) _ w = _
  rw [EStateM.bind, nodeToChange_eq, h]

/-- A list for a node that is not there is lost. -/
theorem setContent_eq_error (h : w.scene.nodes.get? key = none) (content : Option DisplayList) :
    setContent key content w = .error (.usedAfterDestruction key)
      ((w.log (.failed (.usedAfterDestruction key))).onShared fun c => content.elim c c.lose) := by
  unfold setContent
  simp only [bind, EStateM.bind, get_apply, h]
  rfl

/-- The functors that are counted are those in the contents of the nodes, each of which is as it was
finished. -/
structure Counted (w : World) : Prop where
  store : w.scene.nodes.WellFormed
  finished : ∀ l ∈ w.scene.nodes.contents, l.IsFinished
  count : w.shared.functors = UInt32.ofNat w.scene.nodes.functorOps

theorem functorOps_eq_of_perm {nodes nodes' : NodeStore} (h : nodes.contents.Perm nodes'.contents) :
    nodes.functorOps = nodes'.functorOps := (h.flatMap_right _).countP_eq _

/-- The functors in the content of one node, and those in the others. -/
theorem functorOps_eq_add {nodes : NodeStore} {content : Option DisplayList}
    {rest : List DisplayList} (h : nodes.contents.Perm (content.toList ++ rest)) :
    nodes.functorOps = content.elim 0 DisplayList.functorOps +
      (rest.flatMap (·.ops.toList)).countP DrawOp.isFunctor := by
  have hperm := (h.flatMap_right (·.ops.toList)).countP_eq DrawOp.isFunctor
  rw [List.flatMap_append, List.countP_append] at hperm
  rw [NodeStore.functorOps, hperm]
  cases content <;> simp [DisplayList.functorOps]

namespace Counted

/-- What is shared may change as long as the count stays. -/
theorem onShared (hw : w.Counted) {f : Shared → Shared}
    (hf : (f w.shared).functors = w.shared.functors) : (w.onShared f).Counted :=
  ⟨hw.store, hw.finished, hf.trans hw.count⟩

/-- The nodes may change as long as their contents stay. -/
theorem onNodes (hw : w.Counted) (hstore : w'.scene.nodes.WellFormed)
    (hcontents : w'.scene.nodes.contents.Perm w.scene.nodes.contents)
    (hcount : w'.shared.functors = w.shared.functors) : w'.Counted where
  store := hstore
  finished l hl := hw.finished l (hcontents.mem_iff.mp hl)
  count := by rw [hcount, hw.count, functorOps_eq_of_perm hcontents]

theorem createNode (hw : w.Counted) (name : String) : (w.createNode name).2.Counted :=
  hw.onNodes (hw.store.insert _) (NodeStore.contents_insert hw.store name) rfl

theorem editProperties (hw : w.Counted) {node : Node} (hnode : w.scene.nodes.get? key = some node)
    (f : Properties → Properties) :
    (w.updateNode key fun node => { node with properties := f node.properties }).Counted := by
  obtain ⟨rest, hbefore, hafter⟩ := NodeStore.contents_update hnode fun node =>
    { node with properties := f node.properties }
  exact hw.onNodes (hw.store.update _ _) (hafter.trans hbefore.symm) rfl

/-- The content of a node is taken off the count. -/
theorem functors_tearDown (hw : w.Counted) {content : Option DisplayList} {rest : List DisplayList}
    (h : w.scene.nodes.contents.Perm (content.toList ++ rest)) :
    (content.elim w.shared w.shared.tearDown).functors =
      UInt32.ofNat ((rest.flatMap (·.ops.toList)).countP DrawOp.isFunctor) := by
  have hsum := functorOps_eq_add h
  cases content with
  | none =>
    rw [Option.elim_none, hw.count, hsum, Option.elim_none, Nat.zero_add]
  | some l =>
    have hl : l.IsFinished := hw.finished l (h.mem_iff.mpr (List.mem_append_left _ (by simp)))
    rw [Option.elim_some, Shared.functors_tearDown hl.not_spent, hw.count, hsum, Option.elim_some,
      hl.functors_eq, UInt32.ofNat_add, UInt32.add_comm, UInt32.add_sub_cancel]

/-- The content that a node had is taken off the count, and the one that it is given is added. -/
theorem refilled (hw : w.Counted) {node : Node} (hnode : w.scene.nodes.get? key = some node)
    {content : Option DisplayList} (hcontent : ∀ l ∈ content, l.IsFinished) :
    (w.refilled key node content).Counted := by
  obtain ⟨rest, hbefore, hafter⟩ := NodeStore.contents_update hnode ({ · with content })
  have htorn := hw.functors_tearDown hbefore
  refine ⟨hw.store.update _ _, fun l hl => ?_, ?_⟩
  · rcases List.mem_append.mp (hafter.mem_iff.mp hl) with hnew | hrest
    · exact hcontent l (by simpa using hnew)
    · exact hw.finished l (hbefore.mem_iff.mpr (List.mem_append_right _ hrest))
  · show (content.elim (node.content.elim w.shared w.shared.tearDown) _).functors =
      UInt32.ofNat (NodeStore.functorOps (w.scene.nodes.update key ({ · with content })))
    rw [functorOps_eq_add hafter]
    cases content with
    | none => simpa using htorn
    | some l =>
      show (node.content.elim w.shared w.shared.tearDown).functors + UInt32.ofNat l.functors = _
      rw [htorn, (hcontent l rfl).functors_eq, ← UInt32.ofNat_add, Nat.add_comm]
      rfl

/-- The content of a node that goes is taken off the count. -/
theorem emptied (hw : w.Counted) {node : Node} {nodes : NodeStore}
    (hremove : w.scene.nodes.remove? key = some (node, nodes)) :
    (w.emptied key node nodes).Counted := by
  have hperm := NodeStore.contents_remove? hremove
  refine ⟨hw.store.remove? hremove, fun l hl => ?_, ?_⟩
  · exact hw.finished l (hperm.mem_iff.mpr (List.mem_append_right _ hl))
  · exact hw.functors_tearDown hperm

/-! #### Operations that may fail -/

theorem after_editProperties (hw : w.Counted) (f : Properties → Properties) :
    (after (World.editProperties key f) w).Counted := by
  cases hnode : w.scene.nodes.get? key with
  | some node =>
    unfold after
    rw [World.editProperties_eq_ok_iff.mpr ⟨⟨node, hnode⟩, rfl⟩]
    exact hw.editProperties hnode f
  | none =>
    unfold after
    rw [World.editProperties_eq_error hnode]
    exact hw.onShared (f := (·.log _)) rfl

/-- A list that is finished may be given to any node. -/
theorem after_setContent (hw : w.Counted) {content : Option DisplayList}
    (hcontent : ∀ l ∈ content, l.IsFinished) : (after (setContent key content) w).Counted := by
  cases hnode : w.scene.nodes.get? key with
  | some node =>
    unfold after
    rw [setContent_eq_ok_iff.mpr ⟨node, hnode, rfl⟩]
    exact hw.refilled hnode hcontent
  | none =>
    unfold after
    rw [setContent_eq_error hnode]
    refine (hw.onShared (f := (·.log _)) rfl).onShared ?_
    cases content <;> simp

theorem after_destroy (hw : w.Counted) (key : Key) : (after (destroy key) w).Counted := by
  cases hremove : w.scene.nodes.remove? key with
  | some taken =>
    obtain ⟨node, nodes⟩ := taken
    unfold after
    rw [destroy_eq_ok_iff.mpr ⟨node, nodes, hremove, rfl⟩]
    exact hw.emptied hremove
  | none =>
    unfold after
    rw [destroy_eq_error hremove]
    exact hw.onShared (f := (·.log _)) rfl

end Counted

/-- What each operation keeps holds after as many of a sequence as go well, and the one that does
not. -/
theorem after_forM {P : World → Prop} {β : Type} {k : β → Action Unit}
    (hk : ∀ x w, P w → P (after (k x) w)) (xs : List β) (hw : P w) : P (after (xs.forM k) w) := by
  induction xs generalizing w with
  | nil => exact hw
  | cons x xs ih =>
    have hx := hk x w hw
    rw [after_forM_cons]
    unfold after at hx
    cases hstep : k x w with
    | ok _ w' =>
      rw [hstep] at hx
      exact ih hx
    | error e w' =>
      rw [hstep] at hx
      exact hx

theorem after_destroy_eq (key : Key) (w : World) :
    after (destroy key) w = after ([key].forM destroy) w := by
  rw [after_forM_cons, after]
  cases destroy key w <;> rfl

/-- Flushing destroys what is queued, with nothing left in the queue. -/
theorem after_flushDestruction (w : World) : after flushDestruction w =
    after (w.shared.pending.toList.forM destroy)
      (w.onShared fun c => { c with pending := #[] }) := by
  show after (EStateM.bind (w.shared.pending.toList.forM destroy) fun _ =>
    pure w.shared.pending.size) (w.onShared fun c => { c with pending := #[] }) = _
  unfold after EStateM.bind
  cases w.shared.pending.toList.forM destroy
    (w.onShared fun c => { c with pending := #[] }) <;> rfl

theorem Counted.after_flush (hw : w.Counted) : (after flushDestruction w).Counted := by
  rw [after_flushDestruction]
  exact after_forM (fun key _ hw => hw.after_destroy key) _ (hw.onShared rfl)

/-! #### What is taken off -/

/-- What is taken off the count as the nodes of keys are destroyed, one after the other until one is
not there: the functors of each content, next to the count at that time. -/
def takings (w : World) : List Key → List (UInt32 × Nat)
  | [] => []
  | key :: keys =>
    match w.scene.nodes.get? key with
    | none => []
    | some node => node.content.toList.map (fun l => (w.shared.functors, l.functors)) ++
        (after (destroy key) w).takings keys

/-- The count when something is taken off it, and then something else. -/
def taken (count : UInt32) (takings : List (UInt32 × Nat)) : UInt32 :=
  takings.foldl (fun count taking => count - UInt32.ofNat taking.2) count

theorem taken_append (count : UInt32) (ts us : List (UInt32 × Nat)) :
    taken count (ts ++ us) = taken (taken count ts) us := List.foldl_append

/-- Of the content of a node the functors are taken off, and no others. -/
theorem Counted.taken_content (hw : w.Counted) {node : Node}
    (hnode : w.scene.nodes.get? key = some node) : taken w.shared.functors
      (node.content.toList.map fun l => (w.shared.functors, l.functors)) =
        (node.content.elim w.shared w.shared.tearDown).functors := by
  cases hcontent : node.content with
  | none => rfl
  | some l =>
    have hl := hw.finished l (NodeStore.mem_contents_of_get? hnode hcontent)
    exact (Shared.functors_tearDown hl.not_spent w.shared).symm

theorem Counted.taken_takings (hw : w.Counted) : taken w.shared.functors (w.takings keys) =
    (after (keys.forM destroy) w).shared.functors := by
  induction keys generalizing w with
  | nil => rfl
  | cons key keys ih =>
    rw [after_forM_cons, takings]
    cases hremove : w.scene.nodes.remove? key with
    | none =>
      have hnone : w.scene.nodes.get? key = none := by simpa [Arena.remove?] using hremove
      rw [hnone, destroy_eq_error hremove]
      rfl
    | some removed =>
      obtain ⟨node, nodes⟩ := removed
      have hnode := (Arena.remove?_eq_some_iff.mp hremove).1
      have hdestroy := destroy_eq_ok_iff.mpr ⟨node, nodes, hremove, rfl⟩
      rw [hnode, hdestroy]
      dsimp only
      rw [taken_append, hw.taken_content hnode, after, hdestroy]
      exact ih (hw.emptied hremove)

/-- As long as a word holds the count, the functors of every content are in it. -/
theorem Counted.functors_le (hw : w.Counted) (hroom : w.scene.nodes.functorOps < UInt32.size)
    {node : Node} {l : DisplayList} (hnode : w.scene.nodes.get? key = some node)
    (hl : node.content = some l) : l.functors ≤ w.shared.functors.toNat := by
  have hfinished := hw.finished l (NodeStore.mem_contents_of_get? hnode hl)
  obtain ⟨rest, hperm, -⟩ := NodeStore.contents_update hnode id
  have hsum := functorOps_eq_add hperm
  rw [hl, Option.elim_some] at hsum
  rw [hfinished.functors_eq, hw.count, UInt32.toNat_ofNat', Nat.mod_eq_of_lt hroom, hsum]
  exact Nat.le_add_right _ _

/-- As long as a word holds the count, nothing is taken off it that is not in it. -/
theorem Counted.le_of_mem_takings (hw : w.Counted) (hroom : w.scene.nodes.functorOps < UInt32.size)
    {taking : UInt32 × Nat} (h : taking ∈ w.takings keys) : taking.2 ≤ taking.1.toNat := by
  induction keys generalizing w with
  | nil => cases h
  | cons key keys ih =>
    rw [takings] at h
    cases hremove : w.scene.nodes.remove? key with
    | none =>
      have hnone : w.scene.nodes.get? key = none := by simpa [Arena.remove?] using hremove
      rw [hnone] at h
      cases h
    | some removed =>
      obtain ⟨node, nodes⟩ := removed
      have hnode := (Arena.remove?_eq_some_iff.mp hremove).1
      rw [hnode, after, destroy_eq_ok_iff.mpr ⟨node, nodes, hremove, rfl⟩] at h
      rcases List.mem_append.mp h with hfirst | hrest
      · obtain ⟨l, hl, rfl⟩ := List.mem_map.mp hfirst
        exact hw.functors_le hroom hnode (Option.mem_toList.mp hl)
      · -- what is left after the node went is no more than before
        have hsum := functorOps_eq_add (NodeStore.contents_remove? hremove)
        have hless : NodeStore.functorOps nodes ≤ w.scene.nodes.functorOps := by
          rw [hsum]
          exact Nat.le_add_left _ _
        exact ih (hw.emptied hremove) (Nat.lt_of_le_of_lt hless hroom) hrest

end World

/-! ### Sessions -/

namespace Session

variable {s s' : Session} {request : Request}

/-- Carries out a request, whatever comes of it.  One that names a recorder or a list that is not
there does nothing. -/
def obey (s : Session) : Request → Session
  | .register kind bytes => s.onShared fun c => (c.register kind bytes).2
  | .destroyResource id => s.onShared (·.destroyResource id)
  | .beginRecording => { s with recorders := {} :: s.recorders }
  | .record i command => s.recorders[i]?.elim s fun r =>
    let (result, shared) := s.world.shared.perform r command
    { s.onShared fun _ => shared with recorders := s.recorders.set i (result.toOption.getD r) }
  | .finish i => s.recorders[i]?.elim s fun r =>
    let (result, shared) := s.world.shared.finish r
    { s.onShared fun _ => shared with
      recorders := s.recorders.eraseIdx i
      lists := result.toOption.toList ++ s.lists }
  | .dropRecorder i => s.recorders[i]?.elim s fun r =>
    { s.onShared (·.lose r.list) with recorders := s.recorders.eraseIdx i }
  | .dropList i => s.lists[i]?.elim s fun l =>
    { s.onShared (·.lose l) with lists := s.lists.eraseIdx i }
  | .createNode name => { s with world := (s.world.createNode name).2 }
  | .editProperties key f => { s with world := World.after (World.editProperties key f) s.world }
  | .setContent key none => { s with world := World.after (World.setContent key none) s.world }
  | .setContent key (some i) => s.lists[i]?.elim s fun l =>
    { s with
      world := World.after (World.setContent key (some l)) s.world
      lists := s.lists.eraseIdx i }
  | .destroy key => { s with world := World.after (World.destroy key) s.world }
  | .destroyLater key => { s with world := s.world.destroyLater key }
  | .flush => { s with world := World.after World.flushDestruction s.world }

/-- A request that is served is carried out. -/
theorem obey_of_serve (h : s.serve request = some s') : s.obey request = s' := by
  have hperform {α : Type} {m : Action α} {s s' : Session} (h : s.perform m = some s') :
      { s with world := World.after m s.world } = s' := by
    obtain ⟨a, world, hworld, rfl⟩ := perform_eq_some_iff.mp h
    rw [World.after, hworld]
  cases request with
  | register kind bytes => exact Option.some.inj h
  | destroyResource id =>
    rw [serve] at h
    split at h <;> cases h
    rfl
  | beginRecording => exact Option.some.inj h
  | record i command =>
    obtain ⟨r, hr, h⟩ := Option.bind_eq_some_iff.mp h
    split at h <;> cases h
    rw [obey, hr]
    rfl
  | finish i =>
    obtain ⟨r, hr, rfl⟩ := Option.map_eq_some_iff.mp h
    rw [obey, hr]
    rfl
  | dropRecorder i =>
    obtain ⟨r, hr, h⟩ := Option.bind_eq_some_iff.mp h
    split at h <;> cases h
    rw [obey, hr]
    rfl
  | dropList i =>
    obtain ⟨l, hl, h⟩ := Option.bind_eq_some_iff.mp h
    split at h <;> cases h
    rw [obey, hl]
    rfl
  | createNode name => exact Option.some.inj h
  | editProperties key f => exact hperform h
  | setContent key list =>
    cases list with
    | none => exact hperform h
    | some i =>
      obtain ⟨l, hl, h⟩ := Option.bind_eq_some_iff.mp h
      rw [obey, hl]
      exact hperform h
  | destroy key => exact hperform h
  | destroyLater key => exact Option.some.inj h
  | flush => exact hperform h

/-! #### What a session keeps -/

/-- The count of the session is right, and whatever a node may be given is as it was finished. -/
structure Tallies (s : Session) : Prop where
  counted : s.world.Counted
  begun : ∀ r ∈ s.recorders, r.IsBegun
  finished : ∀ l ∈ s.lists, l.IsFinished

namespace Tallies

/-- What is shared may change as long as the count stays. -/
theorem onShared (hs : s.Tallies) {f : Shared → Shared}
    (hf : (f s.world.shared).functors = s.world.shared.functors) : (s.onShared f).Tallies :=
  ⟨hs.counted.onShared hf, hs.begun, hs.finished⟩

theorem record (hs : s.Tallies) (i : Nat) (command : Command) :
    (s.obey (.record i command)).Tallies := by
  rw [obey]
  cases hr : s.recorders[i]? with
  | none => exact hs
  | some r =>
    have hcounted := hs.counted.onShared (f := fun _ => (s.world.shared.perform r command).2)
      (Shared.functors_perform _ _ _)
    refine ⟨hcounted, fun other hother => ?_, hs.finished⟩
    rcases List.mem_or_eq_of_mem_set hother with hmem | rfl
    · exact hs.begun other hmem
    · have hbegun := (hs.begun r (List.mem_of_getElem? hr)).perform command
      cases hperform : r.perform command <;> rw [hperform] at hbegun <;> exact hbegun

theorem finish (hs : s.Tallies) (i : Nat) : (s.obey (.finish i)).Tallies := by
  rw [obey]
  cases hr : s.recorders[i]? with
  | none => exact hs
  | some r =>
    have hbegun := hs.begun r (List.mem_of_getElem? hr)
    have hcounted := hs.counted.onShared (f := fun _ => (s.world.shared.finish r).2)
      (Shared.functors_finish _ _)
    refine ⟨hcounted, fun other hother => ?_, fun l hl => ?_⟩
    · exact hs.begun other (List.mem_of_mem_eraseIdx hother)
    · rcases List.mem_append.mp hl with hnew | hold
      · cases hfinish : r.finish with
        | error e =>
          rw [hfinish] at hnew
          cases hnew
        | ok list =>
          rw [hfinish] at hnew
          obtain rfl := List.mem_singleton.mp hnew
          exact ⟨r, hbegun, hfinish⟩
      · exact hs.finished l hold

theorem setContent (hs : s.Tallies) (key : Key) (list : Option Nat) :
    (s.obey (.setContent key list)).Tallies := by
  cases list with
  | none => exact ⟨hs.counted.after_setContent fun _ hl => (nomatch hl), hs.begun, hs.finished⟩
  | some i =>
    rw [obey]
    cases hl : s.lists[i]? with
    | none => exact hs
    | some l =>
      refine ⟨hs.counted.after_setContent fun l' hl' => ?_, hs.begun, fun l' hl' => ?_⟩
      · rw [← Option.some.inj hl']
        exact hs.finished l (List.mem_of_getElem? hl)
      · exact hs.finished l' (List.mem_of_mem_eraseIdx hl')

/-- Every request keeps the count right. -/
theorem obey (hs : s.Tallies) (request : Request) : (s.obey request).Tallies := by
  cases request with
  | register kind bytes => exact hs.onShared rfl
  | destroyResource id => exact hs.onShared (Shared.functors_destroyResource _ id)
  | beginRecording =>
    refine ⟨hs.counted, fun r hr => ?_, hs.finished⟩
    rcases List.mem_cons.mp hr with rfl | hr
    · exact .empty
    · exact hs.begun r hr
  | record i command => exact hs.record i command
  | finish i => exact hs.finish i
  | dropRecorder i =>
    rw [Session.obey]
    cases s.recorders[i]? with
    | none => exact hs
    | some r =>
      refine ⟨hs.counted.onShared (Shared.functors_lose _ r.list), fun other hother => ?_,
        hs.finished⟩
      exact hs.begun other (List.mem_of_mem_eraseIdx hother)
  | dropList i =>
    rw [Session.obey]
    cases s.lists[i]? with
    | none => exact hs
    | some l =>
      refine ⟨hs.counted.onShared (Shared.functors_lose _ l), hs.begun, fun other hother => ?_⟩
      exact hs.finished other (List.mem_of_mem_eraseIdx hother)
  | createNode name => exact ⟨hs.counted.createNode name, hs.begun, hs.finished⟩
  | editProperties key f => exact ⟨hs.counted.after_editProperties f, hs.begun, hs.finished⟩
  | setContent key list => exact hs.setContent key list
  | destroy key => exact ⟨hs.counted.after_destroy key, hs.begun, hs.finished⟩
  | destroyLater key =>
    exact ⟨hs.counted.onShared (f := (·.queue key)) rfl, hs.begun, hs.finished⟩
  | flush => exact ⟨hs.counted.after_flush, hs.begun, hs.finished⟩

end Tallies

/-! #### What a request takes off and adds -/

/-- What a request takes off the count, each time next to the count at that time. -/
def takings (s : Session) : Request → List (UInt32 × Nat)
  | .setContent key none =>
    (s.nodes.contentAt? key).toList.map fun l => (s.world.shared.functors, l.functors)
  | .setContent key (some i) => s.lists[i]?.elim [] fun _ =>
    (s.nodes.contentAt? key).toList.map fun l => (s.world.shared.functors, l.functors)
  | .destroy key => s.world.takings [key]
  | .flush =>
    (s.world.onShared fun c => { c with pending := #[] }).takings s.world.shared.pending.toList
  | _ => []

/-- What a request adds to the count: the functors of a list that a node is given. -/
def gains (s : Session) : Request → Nat
  | .setContent key (some i) => s.lists[i]?.elim 0 fun l =>
    if s.nodes.contains key then l.functors else 0
  | _ => 0

/-- The request is one of a recorder, or drops what was recorded. -/
def Request.records : Request → Bool
  | beginRecording | record .. | finish _ | dropRecorder _ | dropList _ => true
  | _ => false

variable {world : World}

/-- The count after a node was given content, or would have been. -/
theorem functors_after_setContent (hw : world.Counted) (key : Key) (content : Option DisplayList) :
    (World.after (World.setContent key content) world).shared.functors =
      World.taken world.shared.functors ((world.scene.nodes.contentAt? key).toList.map fun l =>
        (world.shared.functors, l.functors)) +
      UInt32.ofNat (content.elim 0 fun l =>
        if world.scene.nodes.contains key then l.functors else 0) := by
  cases hnode : world.scene.nodes.get? key with
  | some node =>
    have hcontains : world.scene.nodes.contains key = true := by simp [Arena.contains, hnode]
    rw [World.after, World.setContent_eq_ok_iff.mpr ⟨node, hnode, rfl⟩,
      NodeStore.contentAt?_of_get? hnode, hw.taken_content hnode, hcontains]
    cases content with
    | none => exact (UInt32.add_zero _).symm
    | some l => rfl
  | none =>
    have hcontains : world.scene.nodes.contains key = false := by simp [Arena.contains, hnode]
    rw [World.after, World.setContent_eq_error hnode, NodeStore.contentAt?, hnode, hcontains]
    cases content with
    | none => exact (UInt32.add_zero _).symm
    | some l => exact (Shared.functors_lose _ l).trans (UInt32.add_zero _).symm

namespace Tallies

/-- The count after a request is the one before it, less what the request takes off, and with what
it adds. -/
theorem functors_obey (hs : s.Tallies) (request : Request) :
    (s.obey request).world.shared.functors =
      World.taken s.world.shared.functors (s.takings request) + UInt32.ofNat (s.gains request) := by
  have hnone : s.world.shared.functors =
      World.taken s.world.shared.functors [] + UInt32.ofNat 0 := (UInt32.add_zero _).symm
  cases request with
  | destroyResource id => exact (Shared.functors_destroyResource _ id).trans hnone
  | record i command =>
    rw [Session.obey]
    cases s.recorders[i]? with
    | none => exact hnone
    | some r => exact (Shared.functors_perform _ r command).trans hnone
  | finish i =>
    rw [Session.obey]
    cases s.recorders[i]? with
    | none => exact hnone
    | some r => exact (Shared.functors_finish _ r).trans hnone
  | dropRecorder i =>
    rw [Session.obey]
    cases s.recorders[i]? with
    | none => exact hnone
    | some r => exact (Shared.functors_lose _ r.list).trans hnone
  | dropList i =>
    rw [Session.obey]
    cases s.lists[i]? with
    | none => exact hnone
    | some l => exact (Shared.functors_lose _ l).trans hnone
  | editProperties key f =>
    show (World.after (World.editProperties key f) s.world).shared.functors = _
    unfold World.after
    cases hnode : s.nodes.get? key with
    | none =>
      rw [World.editProperties_eq_error hnode]
      exact hnone
    | some node =>
      rw [World.editProperties_eq_ok_iff.mpr ⟨⟨node, hnode⟩, rfl⟩]
      exact hnone
  | setContent key list =>
    cases list with
    | none => exact functors_after_setContent hs.counted key none
    | some i =>
      rw [Session.obey, Session.takings, Session.gains]
      cases s.lists[i]? with
      | none => exact hnone
      | some l => exact functors_after_setContent hs.counted key (some l)
  | destroy key =>
    rw [Session.obey, World.after_destroy_eq, ← hs.counted.taken_takings]
    exact (UInt32.add_zero _).symm
  | flush =>
    have hcleared : (s.world.onShared fun c => { c with pending := #[] }).Counted :=
      hs.counted.onShared rfl
    rw [Session.obey, World.after_flushDestruction, ← hcleared.taken_takings]
    exact (UInt32.add_zero _).symm
  | _ => exact hnone

/-- As long as a word holds the count, nothing is taken off it that is not in it. -/
theorem le_of_mem_takings (hs : s.Tallies) (hroom : s.nodes.functorOps < UInt32.size)
    {taking : UInt32 × Nat} (h : taking ∈ s.takings request) : taking.2 ≤ taking.1.toNat := by
  have hcontent {key : Key} (h : taking ∈ (s.nodes.contentAt? key).toList.map fun l =>
      (s.world.shared.functors, l.functors)) : taking.2 ≤ taking.1.toNat := by
    obtain ⟨l, hl, rfl⟩ := List.mem_map.mp h
    obtain ⟨node, hnode, hl⟩ := Option.bind_eq_some_iff.mp (Option.mem_toList.mp hl)
    exact hs.counted.functors_le hroom hnode hl
  cases request with
  | setContent key list =>
    cases list with
    | none => exact hcontent h
    | some i =>
      rw [takings] at h
      cases hl : s.lists[i]? with
      | none => rw [hl] at h; cases h
      | some l =>
        rw [hl] at h
        exact hcontent h
  | destroy key => exact hs.counted.le_of_mem_takings hroom h
  | flush =>
    have hcleared : (s.world.onShared fun c => { c with pending := #[] }).Counted :=
      hs.counted.onShared rfl
    exact hcleared.le_of_mem_takings hroom h
  | _ => cases h

theorem run (hs : s.Tallies) (requests : List Request) :
    (requests.foldl Session.obey s).Tallies := by
  induction requests generalizing s with
  | nil => exact hs
  | cons request requests ih => exact ih (hs.obey request)

theorem of_new {settings : Settings} {asked : Option Level}
    (h : World.ofSettings settings asked = .ok world) : ({ world } : Session).Tallies := by
  have hscene := (World.eq_empty_of_ofSettings h).1
  have hcount : world.shared.functors = 0 := by
    unfold World.ofSettings at h
    cases hrecent : RecentOps.ofCapacity settings.recentCapacity with
    | error e => rw [hrecent] at h; cases h
    | ok recent => rw [hrecent] at h; cases h; rfl
  refine ⟨⟨?_, fun l hl => ?_, ?_⟩, fun _ hr => (nomatch hr), fun _ hl => nomatch hl⟩
  · rw [hscene]
    exact .of_empty
  · rw [hscene] at hl
    cases hl
  · rw [hcount, hscene]
    rfl

end Tallies

/-- In a session that began with nothing, whatever has been asked of it, the count of functors is
that of the functor operations in the contents of the nodes, as far as a word can hold it.  A
request takes the functors of the contents that go off the count, one after the other, and adds
those of a list that a node is given; as long as a word holds the count, it takes off no more than
is in it.  What is recorded and not given to a node is not counted. -/
theorem functors_counted {settings : Settings} {asked : Option Level}
    (hworld : World.ofSettings settings asked = .ok world) (requests : List Request) :
    let s := requests.foldl obey { world }
    s.world.shared.functors = UInt32.ofNat s.nodes.functorOps ∧ ∀ request,
      (s.obey request).world.shared.functors =
        World.taken s.world.shared.functors (s.takings request) +
          UInt32.ofNat (s.gains request) ∧
      (s.nodes.functorOps < UInt32.size →
        ∀ taking ∈ s.takings request, taking.2 ≤ taking.1.toNat) ∧
      (request.records → (s.obey request).world.shared.functors = s.world.shared.functors) := by
  have hs := (Tallies.of_new hworld).run requests
  refine ⟨hs.counted.count, fun request => ⟨hs.functors_obey request, fun hroom taking htaking =>
    hs.le_of_mem_takings hroom htaking, fun hrecords => ?_⟩⟩
  rw [hs.functors_obey request]
  cases request with
  | beginRecording | record | finish | dropRecorder | dropList => exact UInt32.add_zero _
  | _ => cases hrecords

/-- Lanterns are lit by functors.  Two are given to a node and replaced by one; another recording
with a functor cannot be finished, and a last one is not given to any node. -/
def lanterns : List Request := [
  .createNode "lanterns",
  .beginRecording, .record 0 (.functor 7), .record 0 (.functor 8), .finish 0,
  .setContent ⟨1, 1⟩ (some 0), .beginRecording, .record 0 (.functor 9), .finish 0,
  .setContent ⟨1, 1⟩ (some 0), .beginRecording, .record 0 (.functor 9), .record 0 (.save .matrix),
  .finish 0, .beginRecording, .record 0 (.functor 9), .finish 0, .destroyLater ⟨1, 1⟩]

/-- One lantern is counted in the end, and the flush takes just that one off. -/
theorem lanterns_counted :
    (lanterns.foldl obey { world := {} }).world.shared.functors = 1 ∧
      ((lanterns.foldl obey { world := {} }).obey .flush).world.shared.functors = 0 := by
  have hworld : World.ofSettings {} (some .warn) = .ok {} := rfl
  have hcounted := functors_counted hworld lanterns
  have hops : (lanterns.foldl obey { world := {} }).nodes.functorOps = 1 := by decide +kernel
  have htakings : (lanterns.foldl obey { world := {} }).takings .flush = [(1, 1)] := by
    decide +kernel
  have hone := hops ▸ hcounted.1
  refine ⟨hone, ?_⟩
  rw [(hcounted.2 .flush).1, htakings, hone]
  rfl

end Session

end RetainedScene
