import Mathlib.Data.List.Perm.Basic
import RetainedScene.Node.Arena

/-!
# The values of an arena

`Arena.values` are the values in all slots.  In an arena whose free list is sound, adding a value
adds it to them, replacing a value replaces it, and taking a value out takes just that one
(`values_insert`, `values_update`, `values_remove?`); and all three keep the free list sound.
-/

namespace RetainedScene

namespace Arena

variable {α : Type} {a a' : Arena α} {k : Key} {value : α}

def values (a : Arena α) : List α := a.slots.toList.filterMap (·.content)

/-- The free list names empty slots, each at most once. -/
structure WellFormed (a : Arena α) : Prop where
  nodup : a.free.Nodup
  empty : ∀ n ∈ a.free, ∃ version, a.slot? n = some ⟨version, none⟩

/-! ### Slots -/

/-- A slot stands between others, and is put in place of the old one there. -/
theorem exists_toList_setSlot {n : Nat} {old : Slot α} (h : a.slot? n = some old) :
    ∃ before after, a.slots.toList = before ++ old :: after ∧
      ∀ s, (a.setSlot n s).slots.toList = before ++ s :: after := by
  cases n with
  | zero => cases h
  | succ n =>
    have hget : a.slots.toList[n]? = some old := by simpa [slot?] using h
    obtain ⟨hlt, hold⟩ := List.getElem?_eq_some_iff.mp hget
    refine ⟨a.slots.toList.take n, a.slots.toList.drop (n + 1), ?_, fun s => ?_⟩
    · rw [← hold, List.getElem_cons_drop, List.take_append_drop]
    · have hset : (a.setSlot (n + 1) s).slots.toList = a.slots.toList.set n s := by
        simp [setSlot]
      rw [hset, List.set_eq_take_append_cons_drop, if_pos hlt]

/-- A slot that was empty holds one value more. -/
theorem values_setSlot_of_empty {n version version' : Nat}
    (h : a.slot? n = some ⟨version, none⟩) (value : α) :
    (a.setSlot n ⟨version', some value⟩).values.Perm (value :: a.values) := by
  obtain ⟨before, after, hold, hnew⟩ := exists_toList_setSlot h
  unfold values
  rw [hold, hnew]
  simp

theorem values_setSlot_none {n version version' : Nat}
    (h : a.slot? n = some ⟨version, some value⟩) :
    a.values.Perm (value :: (a.setSlot n ⟨version', none⟩).values) := by
  obtain ⟨before, after, hold, hnew⟩ := exists_toList_setSlot h
  unfold values
  rw [hold, hnew]
  simp

theorem mem_values_of_get? (h : a.get? k = some value) : value ∈ a.values := by
  have hperm : a.values.Perm (value :: (a.setSlot k.slot ⟨0, none⟩).values) :=
    values_setSlot_none (slot?_of_get? h)
  exact hperm.mem_iff.mpr List.mem_cons_self

/-! ### What the operations do to the values -/

theorem values_insert (ha : a.WellFormed) (value : α) :
    (a.insert value).2.values.Perm (value :: a.values) := by
  unfold insert
  cases hfree : a.free with
  | nil => simp [values]
  | cons n rest =>
    obtain ⟨version, hslot⟩ := ha.empty n (hfree ▸ List.mem_cons_self)
    exact values_setSlot_of_empty hslot value

theorem values_update (h : a.get? k = some value) (f : α → α) : ∃ rest,
    a.values.Perm (value :: rest) ∧ (a.update k f).values.Perm (f value :: rest) := by
  obtain ⟨before, after, hold, hnew⟩ := exists_toList_setSlot (slot?_of_get? h)
  refine ⟨(before ++ after).filterMap (·.content), ?_, ?_⟩
  · unfold values
    rw [hold]
    simp
  · unfold values update
    rw [h]
    dsimp only
    rw [hnew]
    simp

theorem values_remove? (h : a.remove? k = some (value, a')) :
    a.values.Perm (value :: a'.values) := by
  unfold remove? at h
  cases hget : a.get? k with
  | none => simp [hget] at h
  | some value' =>
    rw [hget, Option.map_some, Option.some.injEq, Prod.mk.injEq] at h
    obtain ⟨rfl, rfl⟩ := h
    exact values_setSlot_none (slot?_of_get? hget)

theorem remove?_eq_some_iff : a.remove? k = some (value, a') ↔
    a.get? k = some value ∧
      a' = { a.setSlot k.slot ⟨k.version + 1, none⟩ with free := k.slot :: a.free } := by
  unfold remove?
  cases a.get? k <;> simp [eq_comm]

/-- A value that is taken out is not found any more, and every other one is as before. -/
theorem get?_remove? (h : a.remove? k = some (value, a')) (l : Key) :
    a'.get? l = if l = k then none else a.get? l := by
  obtain ⟨hget, rfl⟩ := remove?_eq_some_iff.mp h
  have hslot := slot?_of_get? hget
  have hl : (a.setSlot k.slot ⟨k.version + 1, none⟩).slot? l.slot =
      if l.slot = k.slot then some ⟨k.version + 1, none⟩ else a.slot? l.slot :=
    slot?_setSlot (by simp [hslot]) _ _
  show ((a.setSlot k.slot ⟨k.version + 1, none⟩).slot? l.slot).bind _ = _
  rw [hl]
  by_cases hsame : l.slot = k.slot
  · rw [if_pos hsame]
    split_ifs with hkey
    · simp
    -- another key of the slot is not good any more
    · have hversion : k.version ≠ l.version := fun hversion => hkey (by
        cases l
        cases k
        simp_all)
      simp [get?, hsame, hslot, hversion]
  · rw [if_neg hsame, if_neg fun hkey => hsame (congrArg Key.slot hkey)]
    rfl

/-! ### The free list -/

theorem WellFormed.of_empty : ({} : Arena α).WellFormed :=
  ⟨List.nodup_nil, fun _ h => nomatch h⟩

/-- A slot that is not free may be filled in any way. -/
theorem WellFormed.setSlot (ha : a.WellFormed) {n : Nat} (hn : n ∉ a.free)
    (hslot : (a.slot? n).isSome) (s : Slot α) : (a.setSlot n s).WellFormed where
  nodup := ha.nodup
  empty m hm := by
    have hne : m ≠ n := fun h => hn (h ▸ hm)
    rw [slot?_setSlot hslot, if_neg hne]
    exact ha.empty m hm

theorem WellFormed.not_mem_free (ha : a.WellFormed) (h : a.get? k = some value) :
    k.slot ∉ a.free := by
  intro hmem
  obtain ⟨version, hempty⟩ := ha.empty _ hmem
  rw [slot?_of_get? h] at hempty
  cases hempty

theorem WellFormed.insert (ha : a.WellFormed) (value : α) : (a.insert value).2.WellFormed := by
  unfold Arena.insert
  cases hfree : a.free with
  | nil => exact ⟨List.nodup_nil, fun _ hn => nomatch hn⟩
  | cons n rest =>
    have hnodup := ha.nodup
    rw [hfree, List.nodup_cons] at hnodup
    obtain ⟨version, hslot⟩ := ha.empty n (hfree ▸ List.mem_cons_self)
    refine ⟨hnodup.2, fun m hm => ?_⟩
    have hne : m ≠ n := fun h => hnodup.1 (h ▸ hm)
    have hempty := ha.empty m (hfree ▸ List.mem_cons_of_mem n hm)
    show ∃ version, (a.setSlot n _).slot? m = some ⟨version, none⟩
    rwa [slot?_setSlot (by simp [hslot]), if_neg hne]

theorem WellFormed.update (ha : a.WellFormed) (k : Key) (f : α → α) :
    (a.update k f).WellFormed := by
  unfold Arena.update
  cases hget : a.get? k with
  | none => exact ha
  | some value =>
    exact ha.setSlot (ha.not_mem_free hget) (by simp [slot?_of_get? hget]) _

theorem WellFormed.remove? (ha : a.WellFormed) (h : a.remove? k = some (value, a')) :
    a'.WellFormed := by
  obtain ⟨hget, rfl⟩ := remove?_eq_some_iff.mp h
  have hslot : (a.slot? k.slot).isSome := by simp [slot?_of_get? hget]
  refine ⟨List.nodup_cons.mpr ⟨ha.not_mem_free hget, ha.nodup⟩, fun n hn => ?_⟩
  show ∃ version, (a.setSlot k.slot _).slot? n = some ⟨version, none⟩
  rw [slot?_setSlot hslot]
  split_ifs with hkey
  · exact ⟨_, rfl⟩
  · exact ha.empty n ((List.mem_cons.mp hn).resolve_left hkey)

end Arena

end RetainedScene
