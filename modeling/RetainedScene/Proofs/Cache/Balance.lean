import Mathlib.Data.List.Count
import Mathlib.Data.List.Perm.Basic
import RetainedScene.Cache.Basic

/-!
# A cache in balance

A cache is balanced against the references that are held when each entry counts those to its
resource, and no resource stays that is doomed and not referred to.  `Settles` says of what a cache
is asked to do that it ends in balance, that each release on the way finds the resource still there
and with a reference, and that no resource leaves that is still referred to in the end.  Taking
references settles (`Balanced.retain`), and so does giving back what is held (`Balanced.give`).

A doomed resource stays doomed until it leaves, and in a balanced cache it has left when nothing is
held any more (`Balanced.not_contains`).
-/

namespace RetainedScene

namespace Cache

variable {c : Cache} {held held' : List ResourceId} {id other : ResourceId} {entry : CacheEntry}
  {a : Act} {acts acts' : List Act}

/-! ### Acts -/

/-- What a cache is asked to do. -/
inductive Act where
  | register (kind : ResourceKind) (bytes : Nat)
  | retain (id : ResourceId)
  | release (id : ResourceId)
  | destroy (id : ResourceId)
  deriving DecidableEq

def act (c : Cache) : Act → Cache
  | .register kind bytes => (c.register kind bytes).2
  | .retain id => (c.retain id).2
  | .release id => (c.release id).2
  | .destroy id => (c.destroy id).2

/-- The id was given out, whether its resource has left or not. -/
def knows (c : Cache) (id : ResourceId) : Bool := id.raw < c.entries.size

/-- Each release of a resource that is in the cache at first finds it there, with a reference. -/
def Exact (c : Cache) (acts : List Act) : Prop :=
  ∀ before id after, acts = before ++ .release id :: after → c.contains id →
    ∃ entry, (before.foldl act c).find? id = some entry ∧ 0 < entry.references

/-- An entry goes when it is doomed and without references. -/
def settled (entry : CacheEntry) : Option CacheEntry :=
  if entry.references = 0 ∧ entry.doomed then none else some entry

/-- Changes the entry of an id, if there is one. -/
def edit (c : Cache) (id : ResourceId) (f : CacheEntry → Option CacheEntry) : Cache :=
  match c.find? id with
  | none => c
  | some entry => c.put id (f entry)

theorem settle_eq_put (c : Cache) (id : ResourceId) (entry : CacheEntry) :
    (c.settle id entry).2 = c.put id (settled entry) := by
  unfold settle settled
  split <;> rfl

theorem act_retain (c : Cache) (id : ResourceId) : c.act (.retain id) =
    c.edit id fun entry => some { entry with references := entry.references + 1 } := by
  show (c.retain id).2 = _
  unfold retain edit
  cases c.find? id <;> rfl

theorem act_release (c : Cache) (id : ResourceId) : c.act (.release id) =
    c.edit id fun entry => settled { entry with references := entry.references - 1 } := by
  show (c.release id).2 = _
  unfold release edit
  cases c.find? id with
  | none => rfl
  | some entry => exact settle_eq_put _ _ _

theorem act_destroy (c : Cache) (id : ResourceId) : c.act (.destroy id) =
    c.edit id fun entry => settled { entry with doomed := true } := by
  show (c.destroy id).2 = _
  unfold destroy edit
  cases c.find? id with
  | none => rfl
  | some entry => exact settle_eq_put _ _ _

/-! ### What acts do to a look-up -/

theorem contains_iff : c.contains id ↔ ∃ entry, c.find? id = some entry := Option.isSome_iff_exists

theorem find?_edit (c : Cache) (id : ResourceId) (f : CacheEntry → Option CacheEntry)
    (other : ResourceId) : (c.edit id f).find? other =
      if other = id then (c.find? id).bind f else c.find? other := by
  unfold edit
  cases hfind : c.find? id with
  | none =>
    split_ifs with hother
    · rw [hother, hfind, Option.bind_none]
    · rfl
  | some entry => exact find?_put c (contains_iff.mpr ⟨entry, hfind⟩) _ _

theorem knows_of_find? (h : c.find? id = some entry) : c.knows id := by
  unfold knows
  rw [decide_eq_true_eq]
  by_contra hlt
  simp [find?, Array.getElem?_eq_none (Nat.le_of_not_lt hlt)] at h

theorem knows_edit (c : Cache) (id : ResourceId) (f : CacheEntry → Option CacheEntry)
    (other : ResourceId) : (c.edit id f).knows other = c.knows other := by
  unfold edit
  cases c.find? id with
  | none => rfl
  | some entry => simp [knows, put]

/-- The ids that were given out stay so. -/
theorem knows_act (h : c.knows id) (a : Act) : (c.act a).knows id := by
  cases a with
  | register kind bytes =>
    unfold knows act register at *
    rw [decide_eq_true_eq] at *
    rw [Array.size_push]
    exact Nat.lt_succ_of_lt h
  | retain other => rwa [act_retain, knows_edit]
  | release other => rwa [act_release, knows_edit]
  | destroy other => rwa [act_destroy, knows_edit]

theorem knows_foldl (h : c.knows id) (acts : List Act) : (acts.foldl act c).knows id := by
  induction acts generalizing c with
  | nil => exact h
  | cons a acts ih => exact ih (knows_act h a)

/-- Registering changes nothing for an id that was given out before. -/
theorem find?_register_of_knows (h : c.knows id) (kind : ResourceKind) (bytes : Nat) :
    (c.act (.register kind bytes)).find? id = c.find? id := by
  have hne : id ≠ (c.register kind bytes).1 := by
    rintro rfl
    simp [knows, register] at h
  exact (find?_register _ _ _ _).trans (if_neg hne)

/-! ### Balance -/

structure Balanced (c : Cache) (held : List ResourceId) : Prop where
  count : ∀ id entry, c.find? id = some entry → entry.references = held.count id
  /-- No resource stays that is doomed and not referred to. -/
  alive : ∀ id entry, c.find? id = some entry → entry.doomed → 0 < entry.references
  known : ∀ id ∈ held, c.knows id

/-- The acts end in a cache that is balanced, and so that no resource leaves it that is still
referred to. -/
structure Settles (c : Cache) (acts : List Act) (held : List ResourceId) : Prop where
  balanced : (acts.foldl act c).Balanced held
  exact : c.Exact acts
  keeps : ∀ id, c.contains id → id ∈ held → (acts.foldl act c).contains id

theorem Balanced.empty : ({} : Cache).Balanced [] where
  count _ _ h := by cases h
  alive _ _ h := by cases h
  known _ h := nomatch h

theorem Balanced.perm (h : c.Balanced held) (hp : held.Perm held') : c.Balanced held' where
  count id entry hfind := (h.count id entry hfind).trans (hp.count_eq id)
  alive := h.alive
  known id hid := h.known id (hp.mem_iff.mpr hid)

theorem Exact.nil (c : Cache) : c.Exact [] := by
  intro before id after hsplit
  cases before <;> cases hsplit

theorem Settles.nil (h : c.Balanced held) : c.Settles [] held := ⟨h, .nil c, fun _ hid _ => hid⟩

theorem Settles.perm (h : c.Settles acts held) (hp : held.Perm held') : c.Settles acts held' where
  balanced := h.balanced.perm hp
  exact := h.exact
  keeps id hid hmem := h.keeps id hid (hp.mem_iff.mpr hmem)

theorem Exact.append (h : c.Exact acts) (h' : (acts.foldl act c).Exact acts')
    (hkeeps : ∀ id, c.contains id → .release id ∈ acts' → (acts.foldl act c).contains id) :
    c.Exact (acts ++ acts') := by
  intro before id after hsplit hid
  -- the release is one of the later acts, or of the earlier ones
  rcases List.append_eq_append_iff.mp hsplit with ⟨later, rfl, hlater⟩ | ⟨rest, rfl, hrest⟩
  · rw [List.foldl_append]
    have hmem : .release id ∈ acts' := hlater ▸ List.mem_append_right _ List.mem_cons_self
    exact h' later id after hlater (hkeeps id hid hmem)
  · cases rest with
    | nil =>
      have hlater : .release id :: after = acts' := hrest
      rw [List.append_nil] at h' hkeeps
      have hmem : .release id ∈ acts' := hlater ▸ List.mem_cons_self
      exact h' [] id after hlater.symm (hkeeps id hid hmem)
    | cons first rest =>
      obtain ⟨rfl, -⟩ := List.cons.inj hrest
      exact h before id rest rfl hid

/-- Acts settle one after the other, if the earlier ones let nothing go that the later ones release
or that is referred to in the end. -/
theorem Settles.append (h : c.Settles acts held) (h' : (acts.foldl act c).Settles acts' held')
    (hkeeps : ∀ id, c.contains id → .release id ∈ acts' ∨ id ∈ held' →
      (acts.foldl act c).contains id) : c.Settles (acts ++ acts') held' where
  balanced := by
    rw [List.foldl_append]
    exact h'.balanced
  exact := h.exact.append h'.exact fun id hid hmem => hkeeps id hid (.inl hmem)
  keeps id hid hmem := by
    rw [List.foldl_append]
    exact h'.keeps id (hkeeps id hid (.inr hmem)) hmem

/-- That is so when what is released later, or referred to in the end, is held in between. -/
theorem Settles.append_of_subset (h : c.Settles acts held)
    (h' : (acts.foldl act c).Settles acts' held') (hsub : held' ⊆ held)
    (hreleased : ∀ id, .release id ∈ acts' → id ∈ held) : c.Settles (acts ++ acts') held' :=
  h.append h' fun id hid hmem => h.keeps id hid (hmem.elim (hreleased id) (@hsub id))

/-- A single act settles. -/
theorem Settles.single (hbalanced : (c.act a).Balanced held)
    (hexact : ∀ id entry, a = .release id → c.find? id = some entry → 0 < entry.references)
    (hkeeps : ∀ id, c.contains id → id ∈ held → (c.act a).contains id) : c.Settles [a] held where
  balanced := hbalanced
  exact := by
    intro before id after hsplit hid
    cases before with
    | nil =>
      obtain ⟨rfl, -⟩ := List.cons.inj hsplit
      obtain ⟨entry, hfind⟩ := contains_iff.mp hid
      exact ⟨entry, hfind, hexact id entry rfl hfind⟩
    | cons first before =>
      have hlength := congrArg List.length hsplit
      simp at hlength
  keeps := hkeeps

/-- A new resource is not referred to. -/
theorem Balanced.register (h : c.Balanced held) (kind : ResourceKind) (bytes : Nat) :
    c.Settles [.register kind bytes] held := by
  have hnew : (c.register kind bytes).1 ∉ held := by
    intro hmem
    have hknown := h.known _ hmem
    simp [knows, Cache.register] at hknown
  refine .single ⟨fun id entry hfind => ?_, fun id entry hfind => ?_, fun id hid => ?_⟩
    (fun _ _ hact => Act.noConfusion hact) fun id hid _ => ?_
  · rw [act, find?_register] at hfind
    split_ifs at hfind with hid
    · rw [hid, List.count_eq_zero.mpr hnew, ← Option.some.inj hfind]
    · exact h.count id entry hfind
  · rw [act, find?_register] at hfind
    split_ifs at hfind with hid
    · intro hdoomed
      rw [← Option.some.inj hfind] at hdoomed
      cases hdoomed
    · exact h.alive id entry hfind
  · exact knows_act (h.known id hid) _
  · obtain ⟨entry, hfind⟩ := contains_iff.mp hid
    refine contains_iff.mpr ⟨entry, ?_⟩
    exact (find?_register_of_knows (knows_of_find? hfind) _ _).trans hfind

/-- What has to be seen to where the entry of one id is changed. -/
theorem Balanced.edit (h : c.Balanced held) {f : CacheEntry → Option CacheEntry}
    (hsame : ∀ entry, entry.references = held.count id → ∀ entry', f entry = some entry' →
      entry'.references = held'.count id ∧ (entry'.doomed → 0 < entry'.references))
    (hother : ∀ other, other ≠ id → held'.count other = held.count other)
    (hid : id ∈ held' → c.knows id) : (c.edit id f).Balanced held' := by
  have hfind {other entry} (hfind : (c.edit id f).find? other = some entry) :
      entry.references = held'.count other ∧ (entry.doomed → 0 < entry.references) := by
    rw [find?_edit] at hfind
    split_ifs at hfind with heq
    · obtain ⟨old, hold, hentry⟩ := Option.bind_eq_some_iff.mp hfind
      rw [heq]
      exact hsame old (h.count id old hold) entry hentry
    · rw [hother other heq]
      exact ⟨h.count other entry hfind, h.alive other entry hfind⟩
  refine ⟨fun other entry h => (hfind h).1, fun other entry h => (hfind h).2, fun other hmem => ?_⟩
  rw [knows_edit]
  by_cases heq : other = id
  · exact heq ▸ hid (heq ▸ hmem)
  · refine h.known other (List.count_pos_iff.mp ?_)
    rw [← hother other heq]
    exact List.count_pos_iff.mpr hmem

/-- A resource stays if a change to its entry leaves one. -/
theorem contains_edit (h : c.contains other) {f : CacheEntry → Option CacheEntry}
    (hsame : ∀ entry, other = id → c.find? id = some entry → (f entry).isSome) :
    (c.edit id f).contains other := by
  obtain ⟨entry, hfind⟩ := contains_iff.mp h
  rw [contains, find?_edit]
  split_ifs with heq
  · rw [heq] at hfind
    rw [hfind, Option.bind_some]
    exact hsame entry heq hfind
  · rw [hfind, Option.isSome_some]

theorem settled_eq_some_iff {entry' : CacheEntry} : settled entry = some entry' ↔
    entry' = entry ∧ (entry.doomed → 0 < entry.references) := by
  unfold settled
  split_ifs with hgone
  · simp [hgone.1, hgone.2]
  · rw [Option.some.injEq, eq_comm]
    refine ⟨fun h => ⟨h, fun hdoomed => ?_⟩, And.left⟩
    exact Nat.pos_of_ne_zero fun hzero => hgone ⟨hzero, hdoomed⟩

theorem isSome_settled (h : 0 < entry.references) : (settled entry).isSome := by
  unfold settled
  rw [if_neg fun hgone => Nat.ne_of_gt h hgone.1]
  rfl

theorem contains_retain (h : c.contains other) (id : ResourceId) :
    (c.act (.retain id)).contains other := by
  rw [act_retain]
  exact contains_edit h fun _ _ _ => rfl

/-- A reference is taken. -/
theorem Balanced.retain (h : c.Balanced held) (hid : c.knows id) :
    c.Settles [.retain id] (id :: held) := by
  refine .single ?_ (fun _ _ hact => Act.noConfusion hact) fun other hother _ =>
    contains_retain hother id
  rw [act_retain]
  refine h.edit (fun entry hcount entry' hentry => ?_) (fun other hne => ?_) fun _ => hid
  · rw [← Option.some.inj hentry, List.count_cons_self]
    exact ⟨congrArg (· + 1) hcount, fun _ => Nat.succ_pos _⟩
  · exact List.count_cons_of_ne (Ne.symm hne)

/-- A reference that is held is given back. -/
theorem Balanced.release (h : c.Balanced (id :: held)) : c.Settles [.release id] held := by
  refine .single ?_ (fun other entry heq hfind => ?_) fun other hother hmem => ?_
  · rw [act_release]
    refine h.edit (fun entry hcount entry' hentry => ?_) (fun other hne => ?_) fun _ => ?_
    · obtain ⟨rfl, halive⟩ := settled_eq_some_iff.mp hentry
      rw [List.count_cons_self] at hcount
      exact ⟨congrArg (· - 1) hcount, halive⟩
    · exact (List.count_cons_of_ne (Ne.symm hne)).symm
    · exact h.known id List.mem_cons_self
  · obtain rfl := Act.release.inj heq
    rw [h.count _ entry hfind, List.count_cons_self]
    exact Nat.succ_pos _
  · -- another reference is left, so the entry stays even if its owner destroyed it
    rw [act_release]
    refine contains_edit hother fun entry heq hfind => isSome_settled ?_
    have hpos := List.count_pos_iff.mpr (heq ▸ hmem)
    have hcount := h.count id entry hfind
    rw [List.count_cons_self] at hcount
    show 0 < entry.references - 1
    omega

/-- A resource that is destroyed stays as long as it is referred to. -/
theorem Balanced.destroy (h : c.Balanced held) (id : ResourceId) :
    c.Settles [.destroy id] held := by
  refine .single ?_ (fun _ _ hact => Act.noConfusion hact) fun other hother hmem => ?_
  · rw [act_destroy]
    refine h.edit (fun entry hcount entry' hentry => ?_) (fun _ _ => rfl) (h.known id)
    obtain ⟨rfl, halive⟩ := settled_eq_some_iff.mp hentry
    exact ⟨hcount, halive⟩
  · rw [act_destroy]
    refine contains_edit hother fun entry heq hfind => isSome_settled ?_
    show 0 < entry.references
    rw [h.count id entry hfind]
    exact List.count_pos_iff.mpr (heq ▸ hmem)

/-! ### Many references -/

/-- The acts that give references back; the resources of the owned ones are destroyed. -/
def Act.giving (borrowed owned : List ResourceId) : List Act :=
  borrowed.map .release ++ owned.flatMap fun id => [.release id, .destroy id]

theorem Act.release_mem_map {ids : List ResourceId} (h : .release id ∈ ids.map Act.release) :
    id ∈ ids := by
  obtain ⟨other, hmem, heq⟩ := List.mem_map.mp h
  exact Act.release.inj heq ▸ hmem

theorem Act.release_mem_flatMap {ids : List ResourceId}
    (h : Act.release id ∈ ids.flatMap fun id => [.release id, .destroy id]) : id ∈ ids := by
  obtain ⟨other, hmem, heq⟩ := List.mem_flatMap.mp h
  simp only [List.mem_cons, Act.release.injEq, reduceCtorEq, List.not_mem_nil, or_false] at heq
  exact heq ▸ hmem

/-- Nothing is released but the references that are given back. -/
theorem Act.release_mem_giving {borrowed owned : List ResourceId}
    (h : .release id ∈ Act.giving borrowed owned) : id ∈ borrowed ++ owned :=
  List.mem_append.mpr ((List.mem_append.mp h).imp release_mem_map release_mem_flatMap)

theorem Balanced.retainAll (h : c.Balanced held) {ids : List ResourceId}
    (hids : ∀ id ∈ ids, c.knows id) : c.Settles (ids.map .retain) (ids ++ held) := by
  induction ids generalizing c held with
  | nil => exact .nil h
  | cons id ids ih =>
    have hfirst := h.retain (hids id List.mem_cons_self)
    have hrest := ih hfirst.balanced fun other hother =>
      knows_foldl (hids other (List.mem_cons_of_mem _ hother)) _
    have hall := hfirst.append hrest fun other hother _ => contains_retain hother id
    exact hall.perm List.perm_middle

theorem Balanced.releaseAll {ids : List ResourceId} (h : c.Balanced (ids ++ held)) :
    c.Settles (ids.map .release) held := by
  induction ids generalizing c with
  | nil => exact .nil h
  | cons id ids ih =>
    have hfirst : c.Settles [.release id] (ids ++ held) := Balanced.release h
    refine hfirst.append_of_subset (ih hfirst.balanced) (List.subset_append_right _ _)
      fun other hother => ?_
    exact List.mem_append_left _ (Act.release_mem_map hother)

/-- An owned reference is given back, and its resource destroyed. -/
theorem Balanced.discard (h : c.Balanced (id :: held)) :
    c.Settles [.release id, .destroy id] held := by
  have hrelease := h.release
  refine hrelease.append_of_subset (hrelease.balanced.destroy id) (List.Subset.refl _)
    fun other hother => ?_
  cases List.mem_singleton.mp hother

theorem Balanced.discardAll {ids : List ResourceId} (h : c.Balanced (ids ++ held)) :
    c.Settles (ids.flatMap fun id => [.release id, .destroy id]) held := by
  induction ids generalizing c with
  | nil => exact .nil h
  | cons id ids ih =>
    have hfirst : c.Settles [.release id, .destroy id] (ids ++ held) := Balanced.discard h
    refine hfirst.append_of_subset (ih hfirst.balanced) (List.subset_append_right _ _)
      fun other hother => ?_
    exact List.mem_append_left _ (Act.release_mem_flatMap hother)

/-- References that are held are given back. -/
theorem Balanced.give {borrowed owned : List ResourceId}
    (h : c.Balanced (borrowed ++ (owned ++ held))) :
    c.Settles (Act.giving borrowed owned) held := by
  have hborrowed := h.releaseAll
  refine hborrowed.append_of_subset hborrowed.balanced.discardAll (List.subset_append_right _ _)
    fun other hother => ?_
  exact List.mem_append_left _ (Act.release_mem_flatMap hother)

/-! ### Doom -/

/-- Whatever is left of a resource is doomed. -/
def Doomed (c : Cache) (id : ResourceId) : Prop :=
  ∀ entry, c.find? id = some entry → entry.doomed

theorem Doomed.edit (h : c.Doomed id) {f : CacheEntry → Option CacheEntry}
    (hf : ∀ entry entry', entry.doomed → f entry = some entry' → entry'.doomed) :
    (c.edit other f).Doomed id := by
  intro entry hfind
  rw [find?_edit] at hfind
  split_ifs at hfind with heq
  · obtain ⟨old, hold, hentry⟩ := Option.bind_eq_some_iff.mp hfind
    exact hf old entry (h old (heq ▸ hold)) hentry
  · exact h entry hfind

/-- What is doomed stays doomed. -/
theorem Doomed.act (h : c.Doomed id) (hid : c.knows id) (a : Act) : (c.act a).Doomed id := by
  cases a with
  | register kind bytes =>
    intro entry hfind
    rw [find?_register_of_knows hid] at hfind
    exact h entry hfind
  | retain other =>
    rw [act_retain]
    refine h.edit fun entry entry' hdoomed hentry => ?_
    rw [← Option.some.inj hentry]
    exact hdoomed
  | release other =>
    rw [act_release]
    refine h.edit fun entry entry' hdoomed hentry => ?_
    obtain ⟨rfl, -⟩ := settled_eq_some_iff.mp hentry
    exact hdoomed
  | destroy other =>
    rw [act_destroy]
    refine h.edit fun entry entry' hdoomed hentry => ?_
    obtain ⟨rfl, -⟩ := settled_eq_some_iff.mp hentry
    rfl

theorem doomed_destroy (c : Cache) (id : ResourceId) : (c.act (.destroy id)).Doomed id := by
  intro entry hfind
  rw [act_destroy, find?_edit, if_pos rfl] at hfind
  obtain ⟨old, -, hentry⟩ := Option.bind_eq_some_iff.mp hfind
  obtain ⟨rfl, -⟩ := settled_eq_some_iff.mp hentry
  rfl

/-- A resource is doomed after acts if it was before, or if one of them destroys it. -/
theorem doomed_foldl (hid : c.knows id) (h : c.Doomed id ∨ .destroy id ∈ acts) :
    (acts.foldl Cache.act c).Doomed id := by
  induction acts generalizing c with
  | nil => exact h.resolve_right (List.not_mem_nil)
  | cons a acts ih =>
    refine ih (knows_act hid a) ?_
    rcases h with h | h
    · exact .inl (h.act hid a)
    · rcases List.mem_cons.mp h with rfl | h
      · exact .inl (doomed_destroy c id)
      · exact .inr h

/-- A doomed resource has left when nothing is held. -/
theorem Balanced.not_contains (h : c.Balanced []) (hid : c.Doomed id) : ¬ c.contains id := by
  intro hcontains
  obtain ⟨entry, hfind⟩ := contains_iff.mp hcontains
  have hpos := h.alive id entry hfind (hid entry hfind)
  rw [h.count id entry hfind] at hpos
  exact Nat.lt_irrefl 0 hpos

end Cache

end RetainedScene
