import RetainedScene.Proofs.Session.Functors
import RetainedScene.Proofs.World.Teardown

/-!
# Teardown in any order

Nodes are destroyed at once, or are queued and destroyed when the queue is flushed.
`Request.destroyed` reads off such requests which nodes they destroy, and in what order.  When those
are different nodes that are there, the requests are served, whatever their order, and the session
has lost just these nodes (`Session.exists_run`).

So requests that destroy the same nodes leave the same store, routing, cache and count of functors,
and the same resources have left (`Session.teardown_in_any_order`).  It does not matter under which
policy the lists of the nodes refer to a resource that they share.
-/

namespace RetainedScene

open Cache

/-! ### The queue -/

namespace Shared

@[simp] theorem pending_log (c : Shared) (e : Event) : (c.log e).pending = c.pending := rfl

@[simp] theorem pending_logOutcome (c : Shared) (id : ResourceId) (outcome : Outcome) :
    (c.logOutcome id outcome).pending = c.pending := by
  cases outcome <;> rfl

@[simp] theorem pending_release (c : Shared) (id : ResourceId) :
    (c.release id).pending = c.pending := by
  unfold release
  split <;> simp

@[simp] theorem pending_destroyResource (c : Shared) (id : ResourceId) :
    (c.destroyResource id).pending = c.pending := pending_logOutcome _ _ _

/-- The end of a list leaves the queue alone. -/
@[simp] theorem pending_tearDown (c : Shared) (l : DisplayList) :
    (c.tearDown l).pending = c.pending := by
  unfold tearDown returnReferences
  split_ifs
  · rfl
  · rw [pending_log, foldl_keeps (g := pending) (by simp), foldl_keeps pending_release]
    rfl

end Shared

namespace World

variable {w w' : World} {keys : List Key}

theorem pending_emptied (w : World) (key : Key) (node : Node) (nodes : NodeStore) :
    (w.emptied key node nodes).shared.pending = w.shared.pending := by
  unfold emptied
  cases node.content with
  | none => rfl
  | some l => exact Shared.pending_tearDown _ l

theorem Destroys.pending_eq (h : Destroys w keys w') : w'.shared.pending = w.shared.pending := by
  induction h with
  | nil => rfl
  | cons _ _ ih => exact ih.trans (pending_emptied ..)

end World

namespace Session

variable {s s' s'' : Session} {request : Request} {way : List Request} {keys order : List Key}

/-! ### Requests that destroy nodes -/

/-- The request destroys nodes, now or later. -/
def Request.tearsDown : Request → Bool
  | destroy _ | destroyLater _ | flush => true
  | _ => false

/-- The nodes that a request destroys when others are queued, and those that are queued after it. -/
def Request.tearing (queue : List Key) : Request → List Key × List Key
  | destroy key => ([key], queue)
  | destroyLater key => ([], queue ++ [key])
  | flush => (queue, [])
  | _ => ([], queue)

/-- The nodes that requests destroy, in order, when others are queued at first. -/
def Request.destroyed (queue : List Key) : List Request → List Key
  | [] => []
  | request :: way => (request.tearing queue).1 ++ destroyed (request.tearing queue).2 way

/-- The nodes that are queued. -/
def queue (s : Session) : List Key := s.world.shared.pending.toList

/-- The requests do nothing but to destroy these nodes, in some order. -/
structure TearsDown (s : Session) (keys : List Key) (way : List Request) : Prop where
  only : ∀ request ∈ way, request.tearsDown
  destroyed : (Request.destroyed s.queue way).Perm keys

/-- One node after the other is destroyed at once. -/
theorem tearsDown_now (s : Session) (h : order.Perm keys) :
    s.TearsDown keys (order.map .destroy) := by
  refine ⟨fun request hrequest => ?_, ?_⟩
  · obtain ⟨key, -, rfl⟩ := List.mem_map.mp hrequest
    rfl
  · have hdestroyed (queue : List Key) (order : List Key) :
        Request.destroyed queue (order.map .destroy) = order := by
      induction order with
      | nil => rfl
      | cons key order ih => exact congrArg (key :: ·) ih
    rwa [hdestroyed]

/-- One node after the other is queued, and then the queue is flushed. -/
theorem tearsDown_later (hqueue : s.queue = []) (h : order.Perm keys) :
    s.TearsDown keys (order.map .destroyLater ++ [.flush]) := by
  refine ⟨fun request hrequest => ?_, ?_⟩
  · rcases List.mem_append.mp hrequest with hlater | hflush
    · obtain ⟨key, -, rfl⟩ := List.mem_map.mp hlater
      rfl
    · obtain rfl := List.mem_singleton.mp hflush
      rfl
  · have hdestroyed (queue order : List Key) :
        Request.destroyed queue (order.map .destroyLater ++ [.flush]) = queue ++ order := by
      induction order generalizing queue with
      | nil => rfl
      | cons key order ih => exact (ih (queue ++ [key])).trans (List.append_assoc ..)
    rwa [hqueue, hdestroyed, List.nil_append]

/-! ### What they come to -/

/-- Nodes were destroyed, and nothing has come of the recorders and of the finished lists. -/
structure Loses (s : Session) (keys : List Key) (s' : Session) : Prop where
  world : s.world.Loses keys s'.world
  recorders : s'.recorders = s.recorders
  lists : s'.lists = s.lists

/-- A request to destroy different nodes that are there is served. -/
theorem exists_serve (hs : s.Tallies) (hrequest : request.tearsDown)
    (hnodup : (request.tearing s.queue).1.Nodup)
    (hlive : ∀ key ∈ (request.tearing s.queue).1, s.nodes.contains key) :
    ∃ s', s.serve request = some s' ∧ s.Loses (request.tearing s.queue).1 s' ∧
      s'.queue = (request.tearing s.queue).2 := by
  have hspent (l : DisplayList) (hl : l ∈ s.nodes.contents) : l.spent = false :=
    (hs.counted.finished l hl).not_spent
  cases request with
  | destroy key =>
    obtain ⟨node, hnode⟩ := Option.isSome_iff_exists.mp (hlive key (List.mem_singleton_self _))
    have hremove := Arena.remove?_eq_some_iff.mpr ⟨hnode, rfl⟩
    have hdestroy := World.destroy_eq_ok_iff.mpr ⟨node, _, hremove, rfl⟩
    refine ⟨_, perform_eq_some_iff.mpr ⟨(), _, hdestroy, rfl⟩, ⟨?_, rfl, rfl⟩, ?_⟩
    · exact World.loses_emptied hremove fun l hl =>
        hspent l (NodeStore.mem_contents_of_get? hnode hl)
    · exact congrArg Array.toList (World.pending_emptied ..)
  | destroyLater key =>
    exact ⟨_, rfl, ⟨World.loses_onShared (f := (·.queue key)) rfl rfl, rfl, rfl⟩,
      Array.toList_push⟩
  | flush =>
    have hcleared := World.loses_onShared (w := s.world) (f := fun c => { c with pending := #[] })
      rfl rfl
    obtain ⟨world, hworld⟩ : ∃ world, World.Destroys
        (s.world.onShared fun c => { c with pending := #[] }) s.queue world :=
      World.exists_destroys hnodup hlive
    have hflush := World.flushDestruction_eq_ok_iff.mpr ⟨rfl, hworld⟩
    refine ⟨_, perform_eq_some_iff.mpr ⟨_, _, hflush, rfl⟩, ⟨?_, rfl, rfl⟩, ?_⟩
    · exact hcleared.trans (hworld.loses hspent)
    · exact congrArg Array.toList hworld.pending_eq
  | _ => cases hrequest

/-- Requests to destroy different nodes that are there are served. -/
theorem exists_run (hs : s.Tallies) (hway : ∀ request ∈ way, request.tearsDown)
    (hnodup : (Request.destroyed s.queue way).Nodup)
    (hlive : ∀ key ∈ Request.destroyed s.queue way, s.nodes.contains key) :
    ∃ s', s.run way = some s' ∧ s'.Tallies ∧ s.Loses (Request.destroyed s.queue way) s' := by
  induction way generalizing s with
  | nil => exact ⟨s, rfl, hs, World.loses_onShared (f := id) rfl rfl, rfl, rfl⟩
  | cons request way ih =>
    obtain ⟨hfirst, hrest, hdisjoint⟩ := List.nodup_append.mp hnodup
    obtain ⟨s₁, hserve, hloses, hqueue⟩ := exists_serve hs (hway request List.mem_cons_self) hfirst
      fun key hkey => hlive key (List.mem_append_left _ hkey)
    have hs₁ : s₁.Tallies := obey_of_serve hserve ▸ hs.obey request
    -- what is destroyed later is not touched by what is destroyed now
    have hlive₁ : ∀ key ∈ Request.destroyed s₁.queue way, s₁.nodes.contains key := by
      intro key hkey
      rw [hqueue] at hkey
      refine hloses.world.contains_iff.mpr ⟨fun hnow => hdisjoint key hnow key hkey rfl, ?_⟩
      exact hlive key (List.mem_append_right _ hkey)
    obtain ⟨s', hrun, hs', hlater⟩ := ih hs₁ (fun request hrequest =>
      hway request (List.mem_cons_of_mem _ hrequest)) (hqueue ▸ hrest) hlive₁
    refine ⟨s', ?_, hs', ?_, hlater.recorders.trans hloses.recorders,
      hlater.lists.trans hloses.lists⟩
    · rw [run, List.foldlM_cons, hserve]
      exact hrun
    · have hboth := hloses.world.trans hlater.world
      rwa [hqueue] at hboth

/-- The count of functors is that of the nodes. -/
theorem functors_eq_of_slots (hs : s.Tallies) (hs' : s'.Tallies)
    (h : s.nodes.slots = s'.nodes.slots) :
    s.world.shared.functors = s'.world.shared.functors := by
  have hops : s.nodes.functorOps = s'.nodes.functorOps := by
    unfold NodeStore.functorOps NodeStore.contents Arena.values
    rw [h]
  exact hs.counted.count.trans ((congrArg UInt32.ofNat hops).trans hs'.counted.count.symm)

/-- In a session that began with nothing, whatever has been asked of it, different nodes that are
there can be destroyed in every order, at once or by way of the queue.  They are gone then, and the
other nodes, the recorders and the finished lists are as before.  The order makes no difference: it
leaves the same slots, routing, count of functors and cache, and the same resources have left. -/
theorem teardown_in_any_order {settings : Settings} {asked : Option Level} {world : World}
    (hworld : World.ofSettings settings asked = .ok world) (requests : List Request)
    (hnodup : keys.Nodup)
    (hlive : ∀ key ∈ keys, (requests.foldl obey { world }).nodes.contains key) :
    let s := requests.foldl obey { world }
    (∀ way, s.TearsDown keys way → ∃ s', s.run way = some s' ∧
      (∀ key, s'.nodes.get? key = if key ∈ keys then none else s.nodes.get? key) ∧
      s'.recorders = s.recorders ∧ s'.lists = s.lists) ∧
    ∀ way way' s' s'', s.TearsDown keys way → s.TearsDown keys way' →
      s.run way = some s' → s.run way' = some s'' →
        s'.nodes.slots = s''.nodes.slots ∧ s'.world.scene.routing = s''.world.scene.routing ∧
        s'.world.shared.functors = s''.world.shared.functors ∧ s'.cache = s''.cache ∧
        s'.world.shared.journal.resourcesLeft.Perm s''.world.shared.journal.resourcesLeft := by
  have hs := (Tallies.of_new hworld).run requests
  have hserved {way : List Request} (hway : TearsDown (requests.foldl obey { world }) keys way) :=
    exists_run hs hway.only (hway.destroyed.nodup_iff.mpr hnodup)
      fun key hkey => hlive key (hway.destroyed.mem_iff.mp hkey)
  refine ⟨fun way hway => ?_, fun way way' s' s'' hway hway' hrun hrun' => ?_⟩
  · obtain ⟨s', hrun, -, hloses⟩ := hserved hway
    refine ⟨s', hrun, fun key => ?_, hloses.recorders, hloses.lists⟩
    have hget := hloses.world.get? key
    simp only [hway.destroyed.mem_iff] at hget
    exact hget
  · obtain ⟨s₁, hrun₁, hs₁, hloses⟩ := hserved hway
    obtain ⟨s₂, hrun₂, hs₂, hloses'⟩ := hserved hway'
    obtain rfl := Option.some.inj (hrun₁.symm.trans hrun)
    obtain rfl := Option.some.inj (hrun₂.symm.trans hrun')
    obtain ⟨hslots, hrouting, hcache, hleft⟩ :=
      hloses.world.agree hloses'.world (hway.destroyed.trans hway'.destroyed.symm)
    exact ⟨hslots, hrouting, functors_eq_of_slots hs₁ hs₂ hslots, hcache, hleft⟩

/-- A bitmap goes with the content of one node and is only used in another one, both draw with the
same shader, and a third node, which draws with it as well, stays. -/
def atelier : List Request := [
  .register .bitmap 64, .register .shader 16,
  .createNode "frame", .beginRecording,
  .record 0 (.ownedBitmap ⟨0⟩ (.ofSize 4 4) (some { shader := some ⟨1⟩ })),
  .record 0 (.functor 3), .finish 0, .setContent ⟨1, 1⟩ (some 0),
  .createNode "copy", .beginRecording, .record 0 (.bitmap ⟨0⟩ (.ofSize 4 4) none),
  .record 0 (.rect (.ofSize 4 4) { shader := some ⟨1⟩ }), .finish 0, .setContent ⟨2, 1⟩ (some 0),
  .createNode "sketch", .beginRecording, .record 0 (.rect (.ofSize 4 4) { shader := some ⟨1⟩ }),
  .finish 0, .setContent ⟨3, 1⟩ (some 0)]

/-- The first two may go at once in one order, or be queued in the other: the cache is the same, and
the bitmap has left. -/
theorem atelier_torn_down :
    let s := atelier.foldl obey { world := {} }
    ∃ s' s'', s.run [.destroy ⟨1, 1⟩, .destroy ⟨2, 1⟩] = some s' ∧
      s.run [.destroyLater ⟨2, 1⟩, .destroyLater ⟨1, 1⟩, .flush] = some s'' ∧
      s'.cache = s''.cache ∧ s'.nodes.slots = s''.nodes.slots ∧
      s''.world.shared.journal.resourcesLeft.Perm [(⟨0⟩, .bitmap)] := by
  have hworld : World.ofSettings {} (some .warn) = .ok {} := rfl
  have hnodup : ([⟨1, 1⟩, ⟨2, 1⟩] : List Key).Nodup := by decide
  have hlive : ∀ key ∈ ([⟨1, 1⟩, ⟨2, 1⟩] : List Key),
      (atelier.foldl obey { world := {} }).nodes.contains key := by decide +kernel
  have hqueue : (atelier.foldl obey { world := {} }).queue = [] := by decide +kernel
  obtain ⟨hserved, hagree⟩ := teardown_in_any_order hworld atelier hnodup hlive
  have hway : TearsDown (atelier.foldl obey { world := {} }) [⟨1, 1⟩, ⟨2, 1⟩]
      [.destroy ⟨1, 1⟩, .destroy ⟨2, 1⟩] :=
    tearsDown_now _ (List.Perm.refl [⟨1, 1⟩, ⟨2, 1⟩])
  have hway' : TearsDown (atelier.foldl obey { world := {} }) [⟨1, 1⟩, ⟨2, 1⟩]
      [.destroyLater ⟨2, 1⟩, .destroyLater ⟨1, 1⟩, .flush] :=
    tearsDown_later hqueue (List.Perm.swap ⟨1, 1⟩ ⟨2, 1⟩ [])
  obtain ⟨s', hrun, -⟩ := hserved _ hway
  obtain ⟨s'', hrun', -⟩ := hserved _ hway'
  obtain ⟨hslots, -, -, hcache, hleft⟩ := hagree _ _ _ _ hway hway' hrun hrun'
  have hbitmap : (run (atelier.foldl obey { world := {} }) [.destroy ⟨1, 1⟩, .destroy ⟨2, 1⟩]).map
      (·.world.shared.journal.resourcesLeft) = some [(⟨0⟩, .bitmap)] := by decide +kernel
  rw [hrun, Option.map_some, Option.some.injEq] at hbitmap
  exact ⟨s', s'', hrun, hrun', hcache, hslots, hbitmap ▸ hleft.symm⟩

end Session

end RetainedScene
