import RetainedScene.Proofs.Session.Basic

/-!
# What a request changes

A request takes new references for lists that are held, gives back the references of lists that go,
or changes nothing about the lists (`Session.Change`).  That is so for every request that is served,
and the cache becomes what the acts of the request make of it (`Session.Sound.serves`).

In a session that began with nothing every recorder was given commands, every list is as it was
finished, and the free slots of the store are empty (`Session.Sound`).
-/

namespace RetainedScene

open Cache
open scoped List

namespace DisplayList

variable {ls ls' : List DisplayList} {id : ResourceId}

/-- The references of lists. -/
def allOf (ls : List DisplayList) : List ResourceId := ls.flatMap (·.references.all)

/-- The references of lists whose resources go with them. -/
def ownedOf (ls : List DisplayList) : List ResourceId := ls.flatMap (·.references.owned)

theorem allOf_append (ls ls' : List DisplayList) : allOf (ls ++ ls') = allOf ls ++ allOf ls' :=
  List.flatMap_append

theorem ownedOf_append (ls ls' : List DisplayList) :
    ownedOf (ls ++ ls') = ownedOf ls ++ ownedOf ls' := List.flatMap_append

theorem allOf_perm (h : ls.Perm ls') : (allOf ls).Perm (allOf ls') := h.flatMap_right _

theorem ownedOf_perm (h : ls.Perm ls') : (ownedOf ls).Perm (ownedOf ls') := h.flatMap_right _

/-- A list that goes destroys the resources that go with it. -/
theorem destroy_mem_returns {l : DisplayList} (h : id ∈ l.references.owned) :
    .destroy id ∈ l.returns := by
  refine List.mem_append_right _ (List.mem_flatMap.mpr ⟨id, h, ?_⟩)
  exact List.mem_cons_of_mem _ List.mem_cons_self

end DisplayList

open DisplayList

/-- What a request does to the lists that there are, and what it asks of the cache for that. -/
inductive Session.Change (c : Cache) (before after : List DisplayList) : List Act → Prop
  | register (kind : ResourceKind) (bytes : Nat) (hsame : before = after) :
    Change c before after [.register kind bytes]
  | destroy (id : ResourceId) (hsame : before = after) : Change c before after [.destroy id]
  /-- References are taken. -/
  | take (ids mine : List ResourceId) (hknown : ∀ id ∈ ids, c.knows id)
    (hall : (allOf after).Perm (ids ++ allOf before))
    (howned : (ownedOf after).Perm (mine ++ ownedOf before)) :
    Change c before after (ids.map .retain)
  /-- Lists go. -/
  | give (gone : List DisplayList) (hgone : before.Perm (gone ++ after)) :
    Change c before after (gone.flatMap DisplayList.returns)

namespace Session.Change

variable {c : Cache} {before after : List DisplayList} {acts : List Act} {id : ResourceId}

theorem settles_give {held : List ResourceId} (gone : List DisplayList)
    (h : c.Balanced (allOf gone ++ held)) :
    c.Settles (gone.flatMap DisplayList.returns) held := by
  induction gone generalizing c with
  | nil => exact .nil h
  | cons l gone ih =>
    have hfirst : c.Settles l.returns (allOf gone ++ held) := by
      refine Balanced.give ?_
      rwa [← List.append_assoc, ← List.append_assoc]
    refine hfirst.append_of_subset (ih hfirst.balanced) (List.subset_append_right _ _)
      fun id hid => ?_
    obtain ⟨l, hl, hreleased⟩ := List.mem_flatMap.mp hid
    exact List.mem_append_left _
      (List.mem_flatMap.mpr ⟨l, hl, Act.release_mem_giving hreleased⟩)

/-- A change keeps the cache in balance. -/
theorem settles (h : Change c before after acts) (hc : c.Balanced (allOf before)) :
    c.Settles acts (allOf after) := by
  cases h with
  | register kind bytes hsame => exact hsame ▸ hc.register kind bytes
  | destroy id hsame => exact hsame ▸ hc.destroy id
  | take ids mine hknown hall _ => exact (hc.retainAll hknown).perm hall.symm
  | give gone hgone =>
    refine settles_give _ (hc.perm ?_)
    rw [← allOf_append]
    exact allOf_perm hgone

/-- What goes with a list is still to go with one after a change, or it is destroyed. -/
theorem owned (h : Change c before after acts) (hid : id ∈ ownedOf before) :
    id ∈ ownedOf after ∨ .destroy id ∈ acts := by
  cases h with
  | register kind bytes hsame => exact .inl (hsame ▸ hid)
  | destroy _ hsame => exact .inl (hsame ▸ hid)
  | take ids mine _ _ howned => exact .inl (howned.mem_iff.mpr (List.mem_append_right _ hid))
  | give gone hgone =>
    have hmem := (ownedOf_perm hgone).mem_iff.mp hid
    rw [ownedOf_append] at hmem
    rcases List.mem_append.mp hmem with hgone | hafter
    · obtain ⟨l, hl, hid⟩ := List.mem_flatMap.mp hgone
      exact .inr (List.mem_flatMap.mpr ⟨l, hl, destroy_mem_returns hid⟩)
    · exact .inl hafter

/-- The lists are the same ones. -/
theorem same (h : before.Perm after) : Change c before after [] := .give [] h

/-- References are added to one of the lists. -/
theorem extend {old new : DisplayList} {rest : List DisplayList} {ids mine : List ResourceId}
    (hbefore : before.Perm ([old] ++ rest)) (hafter : after.Perm ([new] ++ rest))
    (hadds : old.references.Adds new.references ids mine) (hknown : ∀ id ∈ ids, c.knows id) :
    Change c before after (ids.map .retain) := by
  refine .take ids mine hknown ?_ ?_
  · calc allOf after ~ new.references.all ++ allOf rest := allOf_perm hafter
      _ ~ (ids ++ old.references.all) ++ allOf rest := hadds.all.append_right _
      _ = ids ++ allOf ([old] ++ rest) := List.append_assoc _ _ _
      _ ~ ids ++ allOf before := (allOf_perm hbefore.symm).append_left ids
  · calc ownedOf after ~ new.references.owned ++ ownedOf rest := ownedOf_perm hafter
      _ ~ (mine ++ old.references.owned) ++ ownedOf rest := hadds.owned.append_right _
      _ = mine ++ ownedOf ([old] ++ rest) := List.append_assoc _ _ _
      _ ~ mine ++ ownedOf before := (ownedOf_perm hbefore.symm).append_left mine

end Session.Change

namespace Session

variable {s s' : Session} {request : Request}

/-- What is so of every session that began with nothing. -/
structure Sound (s : Session) : Prop where
  store : s.nodes.WellFormed
  begun : ∀ r ∈ s.recorders, r.IsBegun
  finished : ∀ l ∈ s.lists ++ s.nodes.contents, l.IsFinished

/-- A request that is served changes the lists in one of the ways that there are, asks the cache for
its acts, and keeps the session sound. -/
structure Serves (s : Session) (request : Request) (s' : Session) : Prop where
  change : Change s.cache s.contents s'.contents (s.acts request)
  cache : s'.cache = (s.acts request).foldl act s.cache
  sound : s'.Sound

/-! ### Recording -/

theorem Sound.serves_register (hs : s.Sound) (kind : ResourceKind) (bytes : Nat) :
    s.Serves (.register kind bytes) (s.onShared fun c => (c.register kind bytes).2) :=
  ⟨.register kind bytes rfl, rfl, ⟨hs.store, hs.begun, hs.finished⟩⟩

theorem Sound.serves_destroyResource (hs : s.Sound) (id : ResourceId) :
    s.Serves (.destroyResource id) (s.onShared (·.destroyResource id)) :=
  ⟨.destroy id rfl, Shared.cache_destroyResource _ _, ⟨hs.store, hs.begun, hs.finished⟩⟩

/-- A recorder that was just begun holds nothing. -/
theorem Sound.serves_beginRecording (hs : s.Sound) :
    s.Serves .beginRecording { s with recorders := {} :: s.recorders } := by
  refine ⟨.take [] [] (fun _ hid => nomatch hid) (.refl _) (.refl _), rfl, hs.store,
    fun r hr => ?_, hs.finished⟩
  rcases List.mem_cons.mp hr with rfl | hr
  · exact .empty
  · exact hs.begun r hr

/-- An element of a list, and the others. -/
theorem perm_eraseIdx {α : Type} {l : List α} {i : Nat} {a : α} (h : l[i]? = some a) :
    l.Perm ([a] ++ l.eraseIdx i) := by
  obtain ⟨hlt, rfl⟩ := List.getElem?_eq_some_iff.mp h
  exact (List.getElem_cons_eraseIdx_perm hlt).symm

theorem perm_set {α : Type} {l : List α} {i : Nat} {a : α} (h : l[i]? = some a) (b : α) :
    (l.set i b).Perm ([b] ++ l.eraseIdx i) := by
  obtain ⟨hlt, -⟩ := List.getElem?_eq_some_iff.mp h
  exact List.set_perm_cons_eraseIdx hlt b

theorem perm_second {α : Type} (a b c d : List α) :
    (a ++ (b ++ c ++ d)).Perm (b ++ (a ++ c) ++ d) := by
  have hcomm : (a ++ b ++ (c ++ d)).Perm (b ++ a ++ (c ++ d)) :=
    List.perm_append_comm.append_right _
  simpa only [List.append_assoc] using hcomm

theorem perm_third {α : Type} (a b c d : List α) :
    (a ++ (b ++ c ++ d)).Perm (b ++ c ++ (a ++ d)) := by
  have hcomm : (a ++ (b ++ c) ++ d).Perm (b ++ c ++ a ++ d) :=
    List.perm_append_comm.append_right _
  simpa only [List.append_assoc] using hcomm

/-- What a recorder is recording, and the other lists. -/
theorem contents_perm_of_recorder {i : Nat} {r : Recorder} (hr : s.recorders[i]? = some r) :
    s.contents.Perm ([r.list] ++ ((s.recorders.eraseIdx i).map (·.list) ++ s.lists ++
      s.nodes.contents)) := by
  have hperm := (perm_eraseIdx hr).map (·.list)
  exact (hperm.append_right s.lists).append_right s.nodes.contents

theorem Sound.serves_record (hs : s.Sound) {i : Nat} {r : Recorder} (hr : s.recorders[i]? = some r)
    {command : Command} (hknown : command.references.all s.cache.knows) :
    s.Serves (.record i command) { s.onShared fun _ => (s.world.shared.perform r command).2 with
      recorders := s.recorders.set i ((s.world.shared.perform r command).1.toOption.getD r) } := by
  unfold Shared.perform
  cases hperform : r.perform command with
  | error e =>
    -- the recorder stays as it was, and no reference is taken
    have hacts : s.acts (.record i command) = [] := by
      rw [acts, (Recorder.references_of_refused hperform).1, List.map_nil]
    have hset : s.recorders.set i r = s.recorders := by
      obtain ⟨hlt, rfl⟩ := List.getElem?_eq_some_iff.mp hr
      exact List.set_getElem_self hlt
    change s.Serves _ { s with recorders := s.recorders.set i r }
    rw [hset]
    refine ⟨?_, ?_, hs⟩
    · rw [hacts]
      exact .same (.refl _)
    · rw [hacts]
      rfl
  | ok r' =>
    have hafter : ((s.recorders.set i r').map (·.list) ++ s.lists ++ s.nodes.contents).Perm
        ([r'.list] ++ ((s.recorders.eraseIdx i).map (·.list) ++ s.lists ++ s.nodes.contents)) :=
      (((perm_set hr r').map (·.list)).append_right _).append_right _
    refine ⟨?_, ?_, hs.store, fun other hother => ?_, hs.finished⟩
    · exact .extend (contents_perm_of_recorder hr) hafter (Recorder.perform_adds hperform)
        fun id hid => List.all_eq_true.mp hknown id hid
    · show (command.references.foldl Shared.retain s.world.shared).cache =
        (command.references.map .retain).foldl act s.cache
      rw [List.map_eq_flatMap]
      exact Shared.cache_foldl Shared.cache_retain _
    · rcases List.mem_or_eq_of_mem_set hother with hmem | rfl
      · exact hs.begun other hmem
      · have hbegun := (hs.begun r (List.mem_of_getElem? hr)).perform command
        rwa [hperform] at hbegun

/-- A recording that cannot be finished goes; one that is finished is held as a list. -/
theorem Sound.serves_finish (hs : s.Sound) {i : Nat} {r : Recorder}
    (hr : s.recorders[i]? = some r) :
    s.Serves (.finish i) { s.onShared fun _ => (s.world.shared.finish r).2 with
      recorders := s.recorders.eraseIdx i
      lists := (s.world.shared.finish r).1.toOption.toList ++ s.lists } := by
  have hbegun := hs.begun r (List.mem_of_getElem? hr)
  have hothers (other : Recorder) (hother : other ∈ s.recorders.eraseIdx i) : other.IsBegun :=
    hs.begun other (List.mem_of_mem_eraseIdx hother)
  have hbefore := contents_perm_of_recorder hr
  unfold Shared.finish
  cases hfinish : r.finish with
  | error e =>
    have hacts : s.acts (.finish i) = [r.list].flatMap DisplayList.returns := by
      rw [acts, hr, List.flatMap_singleton]
      dsimp only
      rw [hfinish]
    refine ⟨?_, ?_, hs.store, hothers, hs.finished⟩
    · rw [hacts]
      exact .give [r.list] hbefore
    · rw [hacts, List.flatMap_singleton]
      exact Shared.cache_returnReferences hbegun.not_spent _
  | ok l =>
    have hacts : s.acts (.finish i) = [] := by
      rw [acts, hr]
      dsimp only
      rw [hfinish]
    obtain ⟨-, rfl⟩ := Recorder.finish_eq_ok_iff.mp hfinish
    refine ⟨?_, ?_, hs.store, hothers, fun l hl => ?_⟩
    · rw [hacts]
      exact .same (hbefore.trans (perm_second _ _ _ _))
    · rw [hacts]
      rfl
    · rcases List.mem_cons.mp hl with rfl | hl
      · exact ⟨r, hbegun, hfinish⟩
      · exact hs.finished l hl

theorem Sound.serves_dropRecorder (hs : s.Sound) {i : Nat} {r : Recorder}
    (hr : s.recorders[i]? = some r) (hheld : r.list.held = 0) : s.Serves (.dropRecorder i)
      { s.onShared (·.lose r.list) with recorders := s.recorders.eraseIdx i } := by
  have hbegun := hs.begun r (List.mem_of_getElem? hr)
  have hchange := Change.give (c := s.cache) [r.list] (contents_perm_of_recorder hr)
  rw [List.flatMap_singleton, returns_eq_nil hbegun.not_spent hheld] at hchange
  refine ⟨hchange, ?_, hs.store, fun other hother => ?_, hs.finished⟩
  · exact congrArg Shared.cache (Shared.lose_eq_self hheld s.world.shared)
  · exact hs.begun other (List.mem_of_mem_eraseIdx hother)

/-- One of the finished lists, and the other lists. -/
theorem contents_perm_of_list {i : Nat} {l : DisplayList} (hl : s.lists[i]? = some l) :
    s.contents.Perm ([l] ++ (s.recorders.map (·.list) ++ s.lists.eraseIdx i ++
      s.nodes.contents)) := by
  have hperm := ((perm_eraseIdx hl).append_left (s.recorders.map (·.list))).append_right
    s.nodes.contents
  exact hperm.trans (perm_second _ _ _ _).symm

theorem Sound.finished_of_list (hs : s.Sound) {l : DisplayList} (hl : l ∈ s.lists) :
    l.IsFinished := hs.finished l (List.mem_append_left _ hl)

theorem Sound.finished_of_content (hs : s.Sound) {l : DisplayList} (hl : l ∈ s.nodes.contents) :
    l.IsFinished := hs.finished l (List.mem_append_right _ hl)

theorem Sound.serves_dropList (hs : s.Sound) {i : Nat} {l : DisplayList}
    (hl : s.lists[i]? = some l) (hheld : l.held = 0) : s.Serves (.dropList i)
      { s.onShared (·.lose l) with lists := s.lists.eraseIdx i } := by
  have hfinished := hs.finished_of_list (List.mem_of_getElem? hl)
  have hchange := Change.give (c := s.cache) [l] (contents_perm_of_list hl)
  rw [List.flatMap_singleton, returns_eq_nil hfinished.not_spent hheld] at hchange
  refine ⟨hchange, ?_, hs.store, hs.begun, fun other hother => ?_⟩
  · exact congrArg Shared.cache (Shared.lose_eq_self hheld s.world.shared)
  · rcases List.mem_append.mp hother with hmem | hmem
    · exact hs.finished_of_list (List.mem_of_mem_eraseIdx hmem)
    · exact hs.finished_of_content hmem

/-! ### Nodes -/

theorem Sound.serves_createNode (hs : s.Sound) (name : String) :
    s.Serves (.createNode name) { s with world := (s.world.createNode name).2 } := by
  have hperm := NodeStore.contents_insert hs.store name
  refine ⟨.same (hperm.symm.append_left _), rfl, hs.store.insert _, hs.begun, fun l hl => ?_⟩
  rcases List.mem_append.mp hl with hmem | hmem
  · exact hs.finished_of_list hmem
  · exact hs.finished_of_content (hperm.mem_iff.mp hmem)

theorem Sound.serves_editProperties (hs : s.Sound) {key : Key} {node : Node}
    (hnode : s.nodes.get? key = some node) (f : Properties → Properties) :
    s.Serves (.editProperties key f) { s with world := s.world.updateNode key fun node =>
      { node with properties := f node.properties } } := by
  obtain ⟨rest, hbefore, hafter⟩ := NodeStore.contents_update hnode fun node =>
    { node with properties := f node.properties }
  have hperm := hbefore.trans hafter.symm
  refine ⟨.same (hperm.append_left _), rfl, hs.store.update _ _, hs.begun, fun l hl => ?_⟩
  rcases List.mem_append.mp hl with hmem | hmem
  · exact hs.finished_of_list hmem
  · exact hs.finished_of_content (hperm.mem_iff.mpr hmem)

theorem Sound.serves_destroyLater (hs : s.Sound) (key : Key) :
    s.Serves (.destroyLater key) { s with world := s.world.destroyLater key } :=
  ⟨.same (.refl _), rfl, hs.store, hs.begun, hs.finished⟩

theorem Sound.not_spent (hs : s.Sound) {l : DisplayList} (hl : l ∈ s.nodes.contents) :
    l.spent = false := (hs.finished_of_content hl).not_spent

/-- The content that a node has goes, and what it is given is held by the node. -/
theorem Sound.serves_setContent (hs : s.Sound) {key : Key} {node : Node}
    (hnode : s.nodes.get? key = some node) {content : Option DisplayList}
    {lists : List DisplayList} (hlists : s.lists.Perm (content.toList ++ lists))
    (i : Option Nat) : s.Serves (.setContent key i)
      { s with world := s.world.refilled key node content, lists } := by
  obtain ⟨rest, hbefore, hafter⟩ := NodeStore.contents_update hnode ({ · with content })
  have hacts : s.acts (.setContent key i) = node.content.toList.flatMap DisplayList.returns :=
    World.returnsAt_of_get? hnode
  have hspent (l : DisplayList) (hl : l ∈ node.content) : l.spent = false :=
    hs.not_spent (NodeStore.mem_contents_of_get? hnode hl)
  refine ⟨?_, ?_, hs.store.update _ _, hs.begun, fun l hl => ?_⟩
  · rw [hacts]
    refine .give _ (List.perm_iff_count.mpr fun l => ?_)
    have hcount := hlists.count_eq l
    have hcount' := hbefore.count_eq l
    have hcount'' := hafter.count_eq l
    show (s.recorders.map (·.list) ++ s.lists ++ s.nodes.contents).count l =
      (node.content.toList ++ (s.recorders.map (·.list) ++ lists ++
        NodeStore.contents (s.nodes.update key ({ · with content })))).count l
    simp only [List.count_append] at *
    omega
  · rw [hacts]
    exact World.cache_refilled hspent _ _ _
  · rcases List.mem_append.mp hl with hmem | hmem
    · exact hs.finished_of_list (hlists.mem_iff.mpr (List.mem_append_right _ hmem))
    · rcases List.mem_append.mp (hafter.mem_iff.mp hmem) with hnew | hrest
      · exact hs.finished_of_list (hlists.mem_iff.mpr (List.mem_append_left _ hnew))
      · exact hs.finished_of_content (hbefore.mem_iff.mpr (List.mem_append_right _ hrest))

theorem Sound.serves_destroy (hs : s.Sound) {key : Key} {node : Node} {nodes : NodeStore}
    (hremove : s.nodes.remove? key = some (node, nodes)) :
    s.Serves (.destroy key) { s with world := s.world.emptied key node nodes } := by
  have hnode := (Arena.remove?_eq_some_iff.mp hremove).1
  have hperm := NodeStore.contents_remove? hremove
  have hacts : s.acts (.destroy key) = node.content.toList.flatMap DisplayList.returns :=
    World.returnsAt_of_get? hnode
  have hspent (l : DisplayList) (hl : l ∈ node.content) : l.spent = false :=
    hs.not_spent (NodeStore.mem_contents_of_get? hnode hl)
  refine ⟨?_, ?_, hs.store.remove? hremove, hs.begun, fun l hl => ?_⟩
  · rw [hacts]
    exact .give _ ((hperm.append_left _).trans (perm_third _ _ _ _).symm)
  · rw [hacts]
    exact World.cache_emptied hspent _ _ _
  · rcases List.mem_append.mp hl with hmem | hmem
    · exact hs.finished_of_list hmem
    · exact hs.finished_of_content (hperm.mem_iff.mpr (List.mem_append_right _ hmem))

theorem Sound.serves_flush (hs : s.Sound) {world : World}
    (h : World.Destroys (s.world.onShared fun c => { c with pending := #[] })
      s.world.shared.pending.toList world) : s.Serves .flush { s with world } := by
  have hperm := h.contents_perm
  have hacts : s.acts .flush = (s.world.shared.pending.toList.flatMap fun key =>
      (s.nodes.contentAt? key).toList).flatMap DisplayList.returns := List.flatMap_assoc.symm
  refine ⟨?_, h.cache_eq fun l hl => hs.not_spent hl, h.wellFormed hs.store, hs.begun,
    fun l hl => ?_⟩
  · rw [hacts]
    exact .give _ ((hperm.append_left _).trans (perm_third _ _ _ _).symm)
  · rcases List.mem_append.mp hl with hmem | hmem
    · exact hs.finished_of_list hmem
    · exact hs.finished_of_content (hperm.mem_iff.mpr (List.mem_append_right _ hmem))

/-! ### All requests -/

theorem perform_eq_some_iff {α : Type} {m : Action α} :
    s.perform m = some s' ↔ ∃ a world, m s.world = .ok a world ∧ s' = { s with world } := by
  unfold perform
  cases m s.world with
  | ok a world => simp [eq_comm]
  | error e world => simp

/-- Every request that is served serves as it should. -/
theorem Sound.serves (hs : s.Sound) (h : s.serve request = some s') : s.Serves request s' := by
  cases request with
  | register kind bytes =>
    obtain rfl := Option.some.inj h
    exact hs.serves_register kind bytes
  | destroyResource id =>
    rw [serve] at h
    split at h <;> cases h
    exact hs.serves_destroyResource id
  | beginRecording =>
    obtain rfl := Option.some.inj h
    exact hs.serves_beginRecording
  | record i command =>
    obtain ⟨r, hr, h⟩ := Option.bind_eq_some_iff.mp h
    split at h
    · next hknown =>
      obtain rfl := Option.some.inj h
      exact hs.serves_record hr hknown
    · cases h
  | finish i =>
    obtain ⟨r, hr, rfl⟩ := Option.map_eq_some_iff.mp h
    exact hs.serves_finish hr
  | dropRecorder i =>
    obtain ⟨r, hr, h⟩ := Option.bind_eq_some_iff.mp h
    split at h
    · next hheld =>
      obtain rfl := Option.some.inj h
      exact hs.serves_dropRecorder hr hheld
    · cases h
  | dropList i =>
    obtain ⟨l, hl, h⟩ := Option.bind_eq_some_iff.mp h
    split at h
    · next hheld =>
      obtain rfl := Option.some.inj h
      exact hs.serves_dropList hl hheld
    · cases h
  | createNode name =>
    obtain rfl := Option.some.inj h
    exact hs.serves_createNode name
  | editProperties key f =>
    obtain ⟨_, world, hworld, rfl⟩ := perform_eq_some_iff.mp h
    obtain ⟨⟨node, hnode⟩, rfl⟩ := World.editProperties_eq_ok_iff.mp hworld
    exact hs.serves_editProperties hnode f
  | setContent key list =>
    cases list with
    | none =>
      obtain ⟨_, world, hworld, rfl⟩ := perform_eq_some_iff.mp h
      obtain ⟨node, hnode, rfl⟩ := World.setContent_eq_ok_iff.mp hworld
      exact hs.serves_setContent hnode (.refl _) none
    | some i =>
      obtain ⟨l, hl, h⟩ := Option.bind_eq_some_iff.mp h
      obtain ⟨_, world, hworld, rfl⟩ := perform_eq_some_iff.mp h
      obtain ⟨node, hnode, rfl⟩ := World.setContent_eq_ok_iff.mp hworld
      exact hs.serves_setContent hnode (perm_eraseIdx hl) (some i)
  | destroy key =>
    obtain ⟨_, world, hworld, rfl⟩ := perform_eq_some_iff.mp h
    obtain ⟨node, nodes, hremove, rfl⟩ := World.destroy_eq_ok_iff.mp hworld
    exact hs.serves_destroy hremove
  | destroyLater key =>
    obtain rfl := Option.some.inj h
    exact hs.serves_destroyLater key
  | flush =>
    obtain ⟨_, world, hworld, rfl⟩ := perform_eq_some_iff.mp h
    exact hs.serves_flush (World.flushDestruction_eq_ok_iff.mp hworld).2

end Session

end RetainedScene
