import RetainedScene.Proofs.Session.Change

/-!
# Conservation of references

In a session that began with nothing, the cache counts for every resource the references that lists
hold to it, after every request; so a resource that is referred to does not leave before its last
reference is given back, no release meets an entry without references, and when nothing is held any
more nothing is left of the resources that their owners destroyed or that went with a list
(`Session.references_conserved`).

What carries over from request to request is `Session.Balances`.
-/

namespace RetainedScene

open Cache

namespace Session

variable {s s' : Session} {request : Request} {requests : List Request} {world : World}

/-- The session is sound, its cache is in balance, and each resource that is not to outlive its
references is doomed or goes with a list. -/
structure Balances (s : Session) (doomed : List ResourceId) : Prop where
  sound : s.Sound
  balanced : s.cache.Balanced s.held
  promised : ∀ id ∈ doomed, s.cache.knows id ∧ (s.cache.Doomed id ∨ id ∈ s.owned)

/-- What a request dooms was given out before, and is destroyed or goes with a list. -/
theorem doomed_of_serve (h : s.serve request = some s') {id : ResourceId}
    (hid : id ∈ request.dooms) :
    s.cache.knows id ∧ (.destroy id ∈ s.acts request ∨ id ∈ s'.owned) := by
  cases request with
  | destroyResource other =>
    obtain rfl := List.mem_singleton.mp hid
    rw [serve] at h
    split at h
    · next hknown => exact ⟨hknown, .inl List.mem_cons_self⟩
    · cases h
  | record i command =>
    obtain ⟨r, hr, h⟩ := Option.bind_eq_some_iff.mp h
    split at h
    · next hknown =>
      refine ⟨List.all_eq_true.mp hknown id (command.owned_subset hid), .inr ?_⟩
      obtain rfl := Option.some.inj h
      cases hperform : r.perform command with
      | error e =>
        rw [Request.dooms, (Recorder.references_of_refused hperform).2] at hid
        cases hid
      | ok r' =>
        have hmem : id ∈ r'.list.references.owned :=
          (Recorder.perform_adds hperform).owned.mem_iff.mpr (List.mem_append_left _ hid)
        have hlt := (List.getElem?_eq_some_iff.mp hr).1
        have hset : r' ∈ s.recorders.set i r' := List.mem_set hlt r'
        refine List.mem_flatMap.mpr ⟨r'.list, ?_, hmem⟩
        exact List.mem_append_left _ (List.mem_append_left _ (List.mem_map.mpr ⟨r', hset, rfl⟩))
    · cases h
  | _ => cases hid

theorem Balances.serve {doomed : List ResourceId} (hs : s.Balances doomed)
    (h : s.serve request = some s') : s'.Balances (doomed ++ request.dooms) := by
  have hserves := hs.sound.serves h
  refine ⟨hserves.sound, ?_, fun id hid => ?_⟩
  · rw [hserves.cache]
    exact (hserves.change.settles hs.balanced).balanced
  · have hkept : s.cache.knows id ∧
        ((s.cache.Doomed id ∨ .destroy id ∈ s.acts request) ∨ id ∈ s'.owned) := by
      rcases List.mem_append.mp hid with hold | hnew
      · obtain ⟨hknown, hdoomed | howned⟩ := hs.promised id hold
        · exact ⟨hknown, .inl (.inl hdoomed)⟩
        · rcases hserves.change.owned howned with howned' | hdestroy
          · exact ⟨hknown, .inr howned'⟩
          · exact ⟨hknown, .inl (.inr hdestroy)⟩
      · obtain ⟨hknown, hdestroy | howned⟩ := doomed_of_serve h hnew
        · exact ⟨hknown, .inl (.inr hdestroy)⟩
        · exact ⟨hknown, .inr howned⟩
    rw [hserves.cache]
    exact ⟨knows_foldl hkept.1 _, hkept.2.imp_left (doomed_foldl hkept.1)⟩

theorem Balances.of_new {settings : Settings} {asked : Option Level}
    (h : World.ofSettings settings asked = .ok world) : ({ world } : Session).Balances [] := by
  have hworld := World.eq_empty_of_ofSettings h
  have hnodes : ({ world } : Session).nodes = {} := congrArg Scene.nodes hworld.1
  have hcontents : ({ world } : Session).contents = [] := by
    rw [contents, hnodes]
    rfl
  refine ⟨⟨?_, fun _ hr => (nomatch hr), fun l hl => ?_⟩, ?_, fun _ hid => nomatch hid⟩
  · rw [hnodes]
    exact .of_empty
  · rw [hnodes] at hl
    cases hl
  · rw [held, hcontents, cache, hworld.2]
    exact .empty

theorem Balances.run {doomed : List ResourceId} (hs : s.Balances doomed)
    (h : s.run requests = some s') : s'.Balances (doomed ++ requests.flatMap Request.dooms) := by
  induction requests generalizing s doomed with
  | nil =>
    obtain rfl := Option.some.inj h
    simpa using hs
  | cons request requests ih =>
    obtain ⟨s₁, hserve, hrun⟩ := Option.bind_eq_some_iff.mp h
    rw [List.flatMap_cons, ← List.append_assoc]
    exact ih (hs.serve hserve) hrun

/-- In a session that began with nothing the cache counts the references that are held.  To serve a
request it is asked for what the request takes and gives back: each release finds its resource there
and with a reference, and what is referred to after the request stays.  When nothing is held,
nothing is referred to, and all that was doomed has left. -/
theorem references_conserved {settings : Settings} {asked : Option Level}
    (hworld : World.ofSettings settings asked = .ok world)
    (hrun : run { world } requests = some s) :
    (∀ id entry, s.cache.find? id = some entry → entry.references = s.held.count id) ∧
    (∀ request s', s.serve request = some s' →
      s'.cache = (s.acts request).foldl act s.cache ∧ s.cache.Exact (s.acts request) ∧
        ∀ id, s.cache.contains id → id ∈ s'.held → s'.cache.contains id) ∧
    (s.held = [] → (∀ id entry, s.cache.find? id = some entry → entry.references = 0) ∧
      ∀ id ∈ requests.flatMap Request.dooms, ¬ s.cache.contains id) := by
  have hs := (Balances.of_new hworld).run hrun
  refine ⟨hs.balanced.count, fun request s' hserve => ?_, fun hnone => ⟨fun id entry hfind => ?_,
    fun id hid => ?_⟩⟩
  · have hserves := hs.sound.serves hserve
    have hsettles := hserves.change.settles hs.balanced
    refine ⟨hserves.cache, hsettles.exact, fun id hcontains hheld => ?_⟩
    rw [hserves.cache]
    exact hsettles.keeps id hcontains hheld
  · rw [hs.balanced.count id entry hfind, hnone]
    rfl
  · obtain ⟨-, hdoomed | howned⟩ := hs.promised id hid
    · exact (hnone ▸ hs.balanced).not_contains hdoomed
    -- what goes with a list is held by it
    · obtain ⟨l, hl, hmem⟩ := List.mem_flatMap.mp howned
      have hheld : id ∈ s.held :=
        List.mem_flatMap.mpr ⟨l, hl, List.mem_append_right _ hmem⟩
      rw [hnone] at hheld
      cases hheld

/-- A bitmap goes with the content of a node and is in use by a recording when the node is
destroyed.  The recording cannot be finished, and so gives the last reference to it back. -/
def gallery : List Request := [
  .register .bitmap 64, .register .shader 16, .createNode "gallery",
  .beginRecording, .record 0 (.ownedBitmap ⟨0⟩ (.ofSize 4 4) (some { shader := some ⟨1⟩ })),
  .finish 0, .setContent ⟨1, 1⟩ (some 0),
  .beginRecording, .record 0 (.bitmap ⟨0⟩ (.ofSize 4 4) none), .record 0 (.save .matrix),
  .destroyLater ⟨1, 1⟩, .flush, .finish 0]

theorem gallery_conserved : ∃ s, run { world := {} } gallery = some s ∧ s.held = [] ∧
    ¬ s.cache.contains ⟨0⟩ ∧ ¬ s.cache.contains ⟨1⟩ := by
  have hheld : (run { world := {} } gallery).map held = some [] := by decide +kernel
  obtain ⟨s, hrun, hs⟩ := Option.map_eq_some_iff.mp hheld
  have hworld : World.ofSettings {} (some .warn) = .ok {} := rfl
  have hgone := ((references_conserved hworld hrun).2.2 hs).2
  exact ⟨s, hrun, hs, hgone ⟨0⟩ (by decide), hgone ⟨1⟩ (by decide)⟩

end Session

end RetainedScene
