import RetainedScene.Proofs.Node.Values

/-!
# The keys that an arena hands out

A key is handed out for every value that is added.  `Arena.HandedOut` says how the keys that were
handed out so far show in an arena: a slot has counted its version up twice for each of them, but
for the emptying that is still to come.  So the next key of a slot is newer than all that were
handed out for it before, and equals none of them (`HandedOut.not_mem`).

Adding a value hands out one key, and the other operations hand out none (`HandedOut.insert`,
`HandedOut.update`, `HandedOut.remove?`).
-/

namespace RetainedScene

namespace Arena

variable {α : Type} {a a' : Arena α} {k : Key} {value : α} {keys : List Key}

/-! ### Adding a value -/

/-- The slot that the next value goes to. -/
def nextSlot (a : Arena α) : Nat := a.free.headD (a.slots.size + 1)

/-- The version of a slot when it is empty, now or the next time. -/
def emptyVersion (a : Arena α) (n : Nat) : Nat :=
  (a.slot? n).elim 0 fun s => if s.content.isSome then s.version + 1 else s.version

/-- The next value goes to a slot that is empty or not there yet. -/
theorem slot?_nextSlot (ha : a.WellFormed) : a.slot? a.nextSlot = none ∨
    a.slot? a.nextSlot = some ⟨a.emptyVersion a.nextSlot, none⟩ := by
  unfold nextSlot emptyVersion
  cases hfree : a.free with
  | nil => simp [slot?]
  | cons n rest =>
    obtain ⟨version, hslot⟩ := ha.empty n (hfree ▸ List.mem_cons_self)
    simp [hslot]

theorem key_insert (ha : a.WellFormed) (value : α) :
    (a.insert value).1 = ⟨a.nextSlot, a.emptyVersion a.nextSlot + 1⟩ := by
  unfold insert nextSlot emptyVersion
  cases hfree : a.free with
  | nil => simp [slot?]
  | cons n rest =>
    obtain ⟨version, hslot⟩ := ha.empty n (hfree ▸ List.mem_cons_self)
    simp [hslot]

theorem slot?_insert (ha : a.WellFormed) (value : α) (n : Nat) :
    (a.insert value).2.slot? n = if n = a.nextSlot
      then some ⟨a.emptyVersion a.nextSlot + 1, some value⟩ else a.slot? n := by
  unfold insert nextSlot emptyVersion
  cases hfree : a.free with
  | nil =>
    cases n with
    | zero => simp [slot?]
    | succ n => simp [slot?, Array.getElem?_push]
  | cons m rest =>
    obtain ⟨version, hslot⟩ := ha.empty m (hfree ▸ List.mem_cons_self)
    show (a.setSlot m _).slot? n = _
    rw [slot?_setSlot (by simp [hslot])]
    simp [hslot]

/-- The value that is added is found by its key, and every other one as before. -/
theorem get?_insert (ha : a.WellFormed) (value : α) (l : Key) :
    (a.insert value).2.get? l =
      if l = (a.insert value).1 then some value else a.get? l := by
  unfold get?
  rw [slot?_insert ha, key_insert ha]
  by_cases hslot : l.slot = a.nextSlot
  · -- the slot is empty, so that no key finds a value in it before
    have hold : (a.slot? l.slot).bind
        (fun s => if s.version = l.version then s.content else none) = none := by
      rcases slot?_nextSlot ha with h | h <;> simp [hslot, h]
    obtain ⟨n, version⟩ := l
    obtain rfl : n = a.nextSlot := hslot
    rw [if_pos rfl, hold, Option.bind_some]
    simp only [Key.mk.injEq, true_and, eq_comm]
  · have hne : l ≠ ⟨a.nextSlot, a.emptyVersion a.nextSlot + 1⟩ := fun h => hslot (by rw [h])
    rw [if_neg hslot, if_neg hne]

/-! ### The keys that were handed out -/

/-- How many of the keys are of a slot. -/
def uses (keys : List Key) (n : Nat) : Nat := keys.countP (·.slot = n)

theorem uses_cons (k : Key) (keys : List Key) (n : Nat) :
    uses (k :: keys) n = uses keys n + if n = k.slot then 1 else 0 := by
  simp [uses, List.countP_cons, eq_comm]

/-- The arena has handed out these keys, and no others. -/
structure HandedOut (a : Arena α) (keys : List Key) : Prop where
  wellFormed : a.WellFormed
  emptyVersion : ∀ n, a.emptyVersion n = 2 * uses keys n
  older : ∀ k ∈ keys, k.version < 2 * uses keys k.slot
  mem : ∀ {k : Key} {value : α}, a.get? k = some value → k ∈ keys

namespace HandedOut

theorem empty : ({} : Arena α).HandedOut [] where
  wellFormed := .of_empty
  emptyVersion n := by cases n <;> rfl
  older _ hk := nomatch hk
  mem {k _} h := by
    have hslot := slot?_of_get? h
    cases hk : k.slot <;> simp [hk, slot?] at hslot

/-- The key of the next value was not handed out before. -/
theorem not_mem (h : a.HandedOut keys) (value : α) : (a.insert value).1 ∉ keys := by
  intro hmem
  have holder := h.older _ hmem
  rw [key_insert h.wellFormed] at holder
  dsimp only at holder
  have hversion := h.emptyVersion a.nextSlot
  omega

/-- Keys stay older than what their slots come to when more keys are handed out. -/
theorem older_cons (h : a.HandedOut keys) (hk : k.version < 2 * (uses keys k.slot + 1)) :
    ∀ l ∈ k :: keys, l.version < 2 * uses (k :: keys) l.slot := by
  intro l hl
  rw [uses_cons]
  rcases List.mem_cons.mp hl with rfl | hl
  · rwa [if_pos rfl]
  · have holder := h.older l hl
    omega

theorem insert (h : a.HandedOut keys) (value : α) :
    (a.insert value).2.HandedOut ((a.insert value).1 :: keys) where
  wellFormed := h.wellFormed.insert value
  emptyVersion n := by
    rw [uses_cons, key_insert h.wellFormed, Arena.emptyVersion, slot?_insert h.wellFormed]
    have hversion := h.emptyVersion n
    split_ifs with hn
    · -- filling the slot and emptying it again count its version up by two
      subst hn
      simp only [Option.elim_some, Option.isSome_some, if_true]
      omega
    · exact hversion
  older := by
    refine h.older_cons ?_
    rw [key_insert h.wellFormed]
    have hversion := h.emptyVersion a.nextSlot
    dsimp only
    omega
  mem {l _} hl := by
    rw [get?_insert h.wellFormed] at hl
    split_ifs at hl with hkey
    · exact hkey ▸ List.mem_cons_self
    · exact List.mem_cons_of_mem _ (h.mem hl)

theorem update (h : a.HandedOut keys) (k : Key) (f : α → α) : (a.update k f).HandedOut keys where
  wellFormed := h.wellFormed.update k f
  emptyVersion n := by
    rw [← h.emptyVersion n]
    unfold Arena.update
    cases hget : a.get? k with
    | none => rfl
    | some value =>
      have hslot := slot?_of_get? hget
      unfold Arena.emptyVersion
      rw [slot?_setSlot (by simp [hslot])]
      split_ifs with hn
      · simp [hn, hslot]
      · rfl
  older := h.older
  mem {l value} hl := by
    by_cases hkey : l = k
    · subst hkey
      rw [get?_update] at hl
      obtain ⟨_, hget, -⟩ := Option.map_eq_some_iff.mp hl
      exact h.mem hget
    · exact h.mem ((get?_update_of_ne a hkey f).symm.trans hl)

theorem remove? (h : a.HandedOut keys) (hremove : a.remove? k = some (value, a')) :
    a'.HandedOut keys where
  wellFormed := h.wellFormed.remove? hremove
  emptyVersion n := by
    obtain ⟨hget, rfl⟩ := remove?_eq_some_iff.mp hremove
    have hslot := slot?_of_get? hget
    rw [← h.emptyVersion n]
    show Option.elim ((a.setSlot k.slot _).slot? n) 0 _ = _
    unfold Arena.emptyVersion
    rw [slot?_setSlot (by simp [hslot])]
    split_ifs with hn
    · simp [hn, hslot]
    · rfl
  older := h.older
  mem {l _} hl := by
    rw [get?_remove? hremove] at hl
    split_ifs at hl
    exact h.mem hl

/-- The versions of keys fit a word of 32 bits as long as no slot is used too often. -/
theorem version_lt (h : a.HandedOut keys) (hk : k ∈ keys) (huses : uses keys k.slot ≤ 0x80000000) :
    k.version < 0x100000000 := by
  have holder := h.older k hk
  omega

end HandedOut

end Arena

end RetainedScene
