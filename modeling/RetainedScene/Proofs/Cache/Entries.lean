import RetainedScene.Proofs.Cache.Balance

/-!
# Entries on their own

What acts make of an entry depends on that entry and on the acts that are about its id
(`find?_foldl`), whether or not the cache is in balance.  No act leaves an entry that is doomed and
not referred to (`NoneDead.foldl`), and whatever leaves does so once: of the resources that acts let
go, an id is named once if its entry was there before and is not there after them, and not at all
otherwise (`filter_leavings`).

Giving back commutes: a release and a destruction make the same of an entry in either order
(`Act.change_comm`), so it does not matter in what order things are given back (`foldl_act_perm`,
`leavings_perm`).
-/

namespace RetainedScene

namespace Cache

variable {c c' : Cache} {id other : ResourceId} {entry entry' : CacheEntry} {a b : Act}
  {acts acts' : List Act}

/-! ### What an act makes of an entry -/

/-- The id that an act is about; registering is about none that was there before. -/
def Act.about? : Act → Option ResourceId
  | register .. => none
  | retain id | release id | destroy id => some id

/-- What an act makes of the entry that it is about. -/
def Act.change : Act → CacheEntry → Option CacheEntry
  | register .., entry => some entry
  | retain _, entry => some { entry with references := entry.references + 1 }
  | release _, entry => settled { entry with references := entry.references - 1 }
  | destroy _, entry => settled { entry with doomed := true }

theorem act_eq_edit (h : a.about? = some id) : c.act a = c.edit id a.change := by
  cases a with
  | register kind bytes => cases h
  | retain other =>
    obtain rfl := Option.some.inj h
    exact act_retain c other
  | release other =>
    obtain rfl := Option.some.inj h
    exact act_release c other
  | destroy other =>
    obtain rfl := Option.some.inj h
    exact act_destroy c other

/-- An act changes the entry that it is about and no other one.  An id that was not given out yet
may be by an act that registers. -/
theorem find?_act (hid : c.knows id ∨ a.about?.isSome) : (c.act a).find? id =
    if a.about? = some id then (c.find? id).bind a.change else c.find? id := by
  cases habout : a.about? with
  | none =>
    rw [if_neg (Option.some_ne_none id).symm]
    cases a with
    | register kind bytes =>
      exact find?_register_of_knows (hid.resolve_right Bool.false_ne_true) kind bytes
    | retain | release | destroy => cases habout
  | some other =>
    rw [act_eq_edit habout, find?_edit]
    by_cases heq : id = other
    · rw [if_pos heq, if_pos (congrArg some heq.symm), heq]
    · rw [if_neg heq, if_neg fun h => heq (Option.some.inj h).symm]

theorem find?_foldl (hid : c.knows id ∨ ∀ a ∈ acts, a.about?.isSome) :
    (acts.foldl act c).find? id = (acts.filter fun a => a.about? = some id).foldl
      (fun entry a => entry.bind a.change) (c.find? id) := by
  induction acts generalizing c with
  | nil => rfl
  | cons a acts ih =>
    have hfirst := find?_act (a := a) (hid.imp_right fun h => h a List.mem_cons_self)
    have hrest : (c.act a).knows id ∨ ∀ a ∈ acts, a.about?.isSome :=
      hid.imp (fun h => knows_act h a) fun h a ha => h a (List.mem_cons_of_mem _ ha)
    rw [List.foldl_cons, ih hrest, hfirst, List.filter_cons]
    by_cases habout : a.about? = some id
    · rw [if_pos habout, if_pos (decide_eq_true habout), List.foldl_cons]
    · rw [if_neg habout, if_neg (mt of_decide_eq_true habout)]

/-- Nothing becomes of an entry that is not there. -/
theorem foldl_change_none (acts : List Act) :
    acts.foldl (fun entry a => entry.bind a.change) (none : Option CacheEntry) = none := by
  induction acts with
  | nil => rfl
  | cons a acts ih => exact ih

/-- What is not there does not come back. -/
theorem not_contains_foldl (hid : c.knows id ∨ ∀ a ∈ acts, a.about?.isSome)
    (h : ¬ c.contains id) : ¬ (acts.foldl act c).contains id := by
  have hnone : c.find? id = none := Option.not_isSome_iff_eq_none.mp h
  rw [contains, find?_foldl hid, hnone, foldl_change_none]
  exact Bool.false_ne_true

/-- An id that was not given out has no entry. -/
theorem not_contains_of_not_knows (h : ¬ c.knows id) : ¬ c.contains id := fun hcontains =>
  have ⟨_, hfind⟩ := contains_iff.mp hcontains
  h (knows_of_find? hfind)

/-! ### Nothing is kept dead -/

/-- No entry is doomed and not referred to. -/
def NoneDead (c : Cache) : Prop :=
  ∀ id entry, c.find? id = some entry → entry.doomed → 0 < entry.references

theorem NoneDead.empty : ({} : Cache).NoneDead := fun _ _ h => nomatch h

/-- An act keeps the kind and the size of an entry that it leaves there, and does not leave it
dead. -/
theorem Act.change_eq_some (h : a.change entry = some entry') : entry'.kind = entry.kind ∧
    entry'.bytes = entry.bytes ∧
      ((entry.doomed → 0 < entry.references) → entry'.doomed → 0 < entry'.references) := by
  cases a with
  | register kind bytes =>
    obtain rfl := Option.some.inj h
    exact ⟨rfl, rfl, id⟩
  | retain id =>
    obtain rfl := Option.some.inj h
    exact ⟨rfl, rfl, fun _ _ => Nat.succ_pos _⟩
  | release id | destroy id =>
    obtain ⟨rfl, halive⟩ := settled_eq_some_iff.mp h
    exact ⟨rfl, rfl, fun _ => halive⟩

theorem NoneDead.act (h : c.NoneDead) (a : Act) : (c.act a).NoneDead := by
  intro id entry hfind
  cases habout : a.about? with
  | none =>
    cases a with
    | register kind bytes =>
      rw [Cache.act, find?_register] at hfind
      split_ifs at hfind
      · intro hdoomed
        rw [← Option.some.inj hfind] at hdoomed
        cases hdoomed
      · exact h id entry hfind
    | retain | release | destroy => cases habout
  | some other =>
    rw [find?_act (.inr (habout ▸ rfl))] at hfind
    split_ifs at hfind
    · obtain ⟨old, hold, hchange⟩ := Option.bind_eq_some_iff.mp hfind
      exact (Act.change_eq_some hchange).2.2 (h id old hold)
    · exact h id entry hfind

theorem NoneDead.foldl (h : c.NoneDead) (acts : List Act) : (acts.foldl Cache.act c).NoneDead := by
  induction acts generalizing c with
  | nil => exact h
  | cons a acts ih => exact ih (h.act a)

/-! ### Taking and giving back -/

/-- References that are taken and given back again leave an entry as it was. -/
theorem foldl_retain_release (entry : CacheEntry) (halive : entry.doomed → 0 < entry.references)
    (n : Nat) :
    (List.replicate n (Act.retain id) ++ List.replicate n (Act.release id)).foldl
      (fun entry a => entry.bind a.change) (some entry) = some entry := by
  induction n generalizing entry with
  | zero => rfl
  | succ n ih =>
    -- the first that is taken is the last that is given back
    rw [List.replicate_succ, List.replicate_succ', List.cons_append, ← List.append_assoc,
      List.foldl_cons, List.foldl_append]
    have hinner := ih { entry with references := entry.references + 1 } fun _ => Nat.succ_pos _
    show List.foldl _ (List.foldl _ (some { entry with references := entry.references + 1 }) _) _ =
      some entry
    rw [hinner]
    exact settled_eq_some_iff.mpr ⟨rfl, halive⟩

/-- Of acts of one kind on many ids, as many are about an id as it is among them. -/
theorem filter_map_about {kind : ResourceId → Act} (hkind : ∀ id, (kind id).about? = some id)
    (ids : List ResourceId) (id : ResourceId) :
    (ids.map kind).filter (fun a => a.about? = some id) =
      List.replicate (ids.count id) (kind id) := by
  rw [List.filter_map, ← List.map_replicate, ← List.filter_eq]
  exact congrArg (List.map _) (List.filter_congr fun other _ => by simp [hkind, eq_comm])

/-- An entry counts the references that are taken one after the other. -/
theorem foldl_change_retain (entry : CacheEntry) (n : Nat) :
    (List.replicate n (Act.retain id)).foldl (fun entry a => entry.bind a.change) (some entry) =
      some { entry with references := entry.references + n } := by
  induction n generalizing entry with
  | zero => rfl
  | succ n ih =>
    have hrest := ih { entry with references := entry.references + 1 }
    rw [List.replicate_succ, List.foldl_cons, Option.bind_some, Act.change, hrest]
    simp only [Nat.add_assoc, Nat.add_comm 1]

theorem find?_foldl_retain (c : Cache) (ids : List ResourceId) (id : ResourceId) :
    ((ids.map Act.retain).foldl act c).find? id = (c.find? id).map fun entry =>
      { entry with references := entry.references + ids.count id } := by
  have habout : ∀ a ∈ ids.map Act.retain, a.about?.isSome := by
    intro a ha
    obtain ⟨other, -, rfl⟩ := List.mem_map.mp ha
    rfl
  rw [find?_foldl (.inr habout), filter_map_about fun _ => rfl]
  cases c.find? id with
  | none => exact foldl_change_none _
  | some entry => exact foldl_change_retain entry _

/-- What is only borrowed as often as it was taken before is as it was. -/
theorem find?_take_give (hc : c.NoneDead) {taken borrowed owned : List ResourceId}
    (hcount : taken.count id = borrowed.count id) (howned : id ∉ owned) :
    ((taken.map Act.retain ++ Act.giving borrowed owned).foldl act c).find? id = c.find? id := by
  have hgone : (owned.flatMap fun id => [Act.release id, .destroy id]).filter
      (fun a => a.about? = some id) = [] := by
    refine List.filter_eq_nil_iff.mpr fun a ha habout => ?_
    obtain ⟨other, hother, hmem⟩ := List.mem_flatMap.mp ha
    have heq : other = id := by
      rcases List.mem_pair.mp hmem with rfl | rfl <;>
        exact Option.some.inj (of_decide_eq_true habout)
    exact howned (heq ▸ hother)
  have habout : ∀ a ∈ taken.map Act.retain ++ Act.giving borrowed owned, a.about?.isSome := by
    intro a ha
    simp only [Act.giving, List.mem_append, List.mem_map, List.mem_flatMap, List.mem_pair] at ha
    rcases ha with ⟨other, -, rfl⟩ | ⟨other, -, rfl⟩ | ⟨other, -, rfl | rfl⟩ <;> rfl
  rw [find?_foldl (.inr habout), Act.giving, List.filter_append, List.filter_append,
    filter_map_about fun _ => rfl, filter_map_about fun _ => rfl, hgone, List.append_nil, ← hcount]
  cases hfind : c.find? id with
  | none => exact foldl_change_none _
  | some entry => exact foldl_retain_release entry (hc id entry hfind) _

/-! ### What leaves -/

/-- The resource that an act lets go, with its kind. -/
def leaving? (c : Cache) (a : Act) : Option (ResourceId × ResourceKind) :=
  a.about?.bind fun id => (c.find? id).bind fun entry =>
    if (a.change entry).isNone then some (id, entry.kind) else none

/-- The resources that acts let go, in order. -/
def leavings (c : Cache) : List Act → List (ResourceId × ResourceKind)
  | [] => []
  | a :: acts => (c.leaving? a).toList ++ (c.act a).leavings acts

theorem leavings_append (c : Cache) (acts acts' : List Act) :
    c.leavings (acts ++ acts') = c.leavings acts ++ (acts.foldl act c).leavings acts' := by
  induction acts generalizing c with
  | nil => rfl
  | cons a acts ih => rw [List.cons_append, leavings, leavings, ih, List.append_assoc]; rfl

theorem leaving?_eq_some_iff {kind : ResourceKind} : c.leaving? a = some (id, kind) ↔
    a.about? = some id ∧ ∃ entry, c.find? id = some entry ∧ entry.kind = kind ∧
      a.change entry = none := by
  unfold leaving?
  simp only [Option.bind_eq_some_iff]
  constructor
  · rintro ⟨other, habout, entry, hfind, hleaves⟩
    split_ifs at hleaves with hnone
    obtain ⟨rfl, rfl⟩ := Prod.mk.inj (Option.some.inj hleaves)
    exact ⟨habout, entry, hfind, rfl, Option.isNone_iff_eq_none.mp hnone⟩
  · rintro ⟨habout, entry, hfind, rfl, hchange⟩
    exact ⟨id, habout, entry, hfind, if_pos (Option.isNone_iff_eq_none.mpr hchange)⟩

/-- An act lets a resource go if its entry was there before the act and is not after it. -/
theorem leaving?_eq_some_iff_contains {kind : ResourceKind} : c.leaving? a = some (id, kind) ↔
    (∃ entry, c.find? id = some entry ∧ entry.kind = kind) ∧ ¬ (c.act a).contains id := by
  rw [leaving?_eq_some_iff]
  constructor
  · rintro ⟨habout, entry, hfind, hkind, hchange⟩
    refine ⟨⟨entry, hfind, hkind⟩, ?_⟩
    rw [contains, find?_act (.inr (habout ▸ rfl)), if_pos habout, hfind, Option.bind_some, hchange]
    exact Bool.false_ne_true
  · rintro ⟨⟨entry, hfind, hkind⟩, hgone⟩
    rw [contains, find?_act (.inl (knows_of_find? hfind)), hfind] at hgone
    split_ifs at hgone with habout
    · exact ⟨habout, entry, hfind, hkind, Option.not_isSome_iff_eq_none.mp hgone⟩
    · exact absurd rfl hgone

/-- An act lets no other resource go than the one that it is about. -/
theorem filter_leaving? (c : Cache) (a : Act) (id : ResourceId) :
    (c.leaving? a).toList.filter (·.1 = id) =
      if a.about? = some id then ((c.find? id).bind fun entry =>
        if (a.change entry).isNone then some (id, entry.kind) else none).toList else [] := by
  cases hleaving : c.leaving? a with
  | none =>
    split_ifs with habout
    · rw [leaving?, habout, Option.bind_some] at hleaving
      rw [hleaving]
      rfl
    · rfl
  | some leaver =>
    obtain ⟨other, kind⟩ := leaver
    obtain ⟨habout, -⟩ := leaving?_eq_some_iff.mp hleaving
    by_cases heq : other = id
    · rw [leaving?, habout, Option.bind_some] at hleaving
      rw [if_pos (heq ▸ habout), ← heq, hleaving]
      simp
    · rw [if_neg fun h => heq (Option.some.inj (habout.symm.trans h))]
      simp [heq]

/-- Of what acts let go, an id is named once if its entry has gone, and else not at all. -/
theorem filter_leavings (hid : c.knows id ∨ ∀ a ∈ acts, a.about?.isSome) :
    (c.leavings acts).filter (·.1 = id) =
      if (acts.foldl act c).contains id then []
      else (c.find? id).toList.map fun entry => (id, entry.kind) := by
  induction acts generalizing c with
  | nil =>
    show [] = if c.contains id then [] else _
    split_ifs with hcontains
    · rfl
    · rw [Option.not_isSome_iff_eq_none.mp hcontains]
      rfl
  | cons a acts ih =>
    have hfirst := find?_act (a := a) (hid.imp_right fun h => h a List.mem_cons_self)
    have hrest : (c.act a).knows id ∨ ∀ a ∈ acts, a.about?.isSome :=
      hid.imp (fun h => knows_act h a) fun h a ha => h a (List.mem_cons_of_mem _ ha)
    rw [leavings, List.filter_append, filter_leaving?, ih hrest, hfirst, List.foldl_cons]
    by_cases habout : a.about? = some id
    · rw [if_pos habout, if_pos habout]
      cases hfind : c.find? id with
      | none => rfl
      | some entry =>
        rw [Option.bind_some, Option.bind_some]
        cases hchange : a.change entry with
        | none =>
          -- it goes with this act, and is not there after the later ones
          have hgone : ¬ (acts.foldl act (c.act a)).contains id := by
            refine not_contains_foldl hrest ?_
            rw [contains, hfirst, if_pos habout, hfind, Option.bind_some, hchange]
            exact Bool.false_ne_true
          rw [if_neg hgone, if_neg hgone]
          rfl
        | some entry' =>
          obtain ⟨hkind, -, -⟩ := Act.change_eq_some hchange
          rw [Option.toList_some, Option.toList_some, List.map_singleton, List.map_singleton, hkind]
          rfl
    · rw [if_neg habout, if_neg habout, List.nil_append]

/-! ### Giving back in any order -/

/-- The act gives something back. -/
def Act.gives : Act → Bool
  | release _ | destroy _ => true
  | register .. | retain _ => false

theorem Act.about?_of_gives (h : a.gives) : a.about?.isSome :=
  match a with
  | .release _ | .destroy _ => rfl

/-- Settling in between makes no difference, as what is dead stays so. -/
theorem settled_bind {f : CacheEntry → CacheEntry}
    (hdead : entry.references = 0 ∧ entry.doomed → (f entry).references = 0 ∧ (f entry).doomed) :
    ((settled entry).bind fun entry => settled (f entry)) = settled (f entry) := by
  by_cases hentry : entry.references = 0 ∧ entry.doomed
  · rw [settled, if_pos hentry, settled, if_pos (hdead hentry), Option.bind_none]
  · rw [settled, if_neg hentry, Option.bind_some]

/-- A release and a destruction may be done in either order, whatever the entry is like. -/
theorem Act.change_comm (ha : a.gives) (hb : b.gives) (entry : CacheEntry) :
    (a.change entry).bind b.change = (b.change entry).bind a.change := by
  have hswap : ((settled { entry with references := entry.references - 1 }).bind fun entry =>
      settled { entry with doomed := true }) = (settled { entry with doomed := true }).bind
        fun entry => settled { entry with references := entry.references - 1 } := by
    rw [settled_bind fun hdead => ⟨hdead.1, rfl⟩,
      settled_bind fun hdead => ⟨Nat.sub_eq_zero_of_le (hdead.1 ▸ Nat.zero_le 1), hdead.2⟩]
  match a, ha, b, hb with
  | .release _, _, .release _, _ => rfl
  | .release _, _, .destroy _, _ => exact hswap
  | .destroy _, _, .release _, _ => exact hswap.symm
  | .destroy _, _, .destroy _, _ => rfl

/-- A cache is what is found in it, up to the ids that were given out. -/
theorem ext_find? (hsize : c.entries.size = c'.entries.size)
    (h : ∀ id, c.find? id = c'.find? id) : c = c' := by
  rcases c with ⟨entries⟩
  rcases c' with ⟨entries'⟩
  refine congrArg Cache.mk (Array.ext hsize fun i hi hi' => ?_)
  have hjoin : entries[i]?.join = entries'[i]?.join := h ⟨i⟩
  rwa [Array.getElem?_eq_getElem hi, Array.getElem?_eq_getElem hi'] at hjoin

theorem size_edit (c : Cache) (id : ResourceId) (f : CacheEntry → Option CacheEntry) :
    (c.edit id f).entries.size = c.entries.size := by
  unfold edit put
  split
  · rfl
  · exact Array.size_setIfInBounds

theorem act_comm (ha : a.gives) (hb : b.gives) (c : Cache) : (c.act a).act b = (c.act b).act a := by
  have hsize (a : Act) (ha : a.gives) (c : Cache) : (c.act a).entries.size = c.entries.size := by
    obtain ⟨id, hid⟩ := Option.isSome_iff_exists.mp (Act.about?_of_gives ha)
    rw [act_eq_edit hid, size_edit]
  have hfind (a : Act) (ha : a.gives) (c : Cache) (id : ResourceId) : (c.act a).find? id =
      if a.about? = some id then (c.find? id).bind a.change else c.find? id :=
    find?_act (.inr (Act.about?_of_gives ha))
  refine ext_find? ?_ fun id => ?_
  · rw [hsize b hb, hsize a ha, hsize a ha, hsize b hb]
  · rw [hfind b hb, hfind a ha, hfind a ha, hfind b hb]
    by_cases habout : a.about? = some id <;> by_cases hbabout : b.about? = some id
    · rw [if_pos habout, if_pos hbabout, if_pos hbabout, if_pos habout]
      cases c.find? id with
      | none => rfl
      | some entry => exact Act.change_comm ha hb entry
    · rw [if_neg hbabout, if_neg hbabout]
    · rw [if_neg habout, if_neg habout]
    · rw [if_neg habout, if_neg habout]

/-- What is given back may be given back in any order. -/
theorem foldl_act_perm (hp : acts.Perm acts') (hgives : ∀ a ∈ acts, a.gives) (c : Cache) :
    acts.foldl act c = acts'.foldl act c :=
  hp.foldl_eq' (fun a ha b hb c => act_comm (hgives a ha) (hgives b hb) c) c

/-- The same resources leave then. -/
theorem leavings_perm (hp : acts.Perm acts') (hgives : ∀ a ∈ acts, a.gives) (c : Cache) :
    (c.leavings acts).Perm (c.leavings acts') := by
  have habout (a : Act) (ha : a ∈ acts) : a.about?.isSome := Act.about?_of_gives (hgives a ha)
  refine List.perm_iff_count.mpr fun ⟨id, kind⟩ => ?_
  have hcount (l : List (ResourceId × ResourceKind)) :
      (l.filter (·.1 = id)).count (id, kind) = l.count (id, kind) :=
    List.count_filter (decide_eq_true rfl)
  have hfilter : (c.leavings acts).filter (·.1 = id) = (c.leavings acts').filter (·.1 = id) := by
    rw [filter_leavings (.inr habout), foldl_act_perm hp hgives,
      ← filter_leavings (.inr fun a ha => habout a (hp.mem_iff.mpr ha))]
  rw [← hcount, hfilter, hcount]

end Cache

end RetainedScene
