import RetainedScene.Node.Key

/-!
# The node store

An `Arena` holds values in numbered slots.  A slot counts its version up when it is filled and
again when it is emptied, so the version of a filled slot is odd and a key is good for one stay
of one value.  Emptied slots are filled again last in, first out; a new slot is added when none
is empty.

`get?` is the view of an arena: `get?_update` and `get?_update_of_ne` say what an update does to
it.
-/

namespace RetainedScene

structure Slot (α : Type) where
  version : Nat
  content : Option α
  deriving Inhabited

/-- Slots in order, slot `n` at position `n - 1`, and the numbers of the empty ones, the last
emptied first. -/
structure Arena (α : Type) where
  slots : Array (Slot α) := #[]
  free : List Nat := []
  deriving Inhabited

namespace Arena

variable {α : Type}

/-! ### Looking up -/

def slot? (a : Arena α) : Nat → Option (Slot α)
  | 0 => none
  | n + 1 => a.slots[n]?

/-- The value whose key is `k`. -/
def get? (a : Arena α) (k : Key) : Option α :=
  (a.slot? k.slot).bind fun s => if s.version = k.version then s.content else none

def contains (a : Arena α) (k : Key) : Bool := (a.get? k).isSome

/-- The key of the value in a slot, if it is filled. -/
def keyAt? (a : Arena α) (n : Nat) : Option Key :=
  (a.slot? n).bind fun s => s.content.map fun _ => ⟨n, s.version⟩

/-- The keys of all values, in slot order. -/
def keys (a : Arena α) : List Key := (List.range a.slots.size).filterMap fun i => a.keyAt? (i + 1)

def size (a : Arena α) : Nat := a.keys.length

/-! ### Changing -/

/-- Puts a slot in place of slot `n`. -/
def setSlot (a : Arena α) (n : Nat) (s : Slot α) : Arena α :=
  { a with slots := a.slots.setIfInBounds (n - 1) s }

/-- Adds a value, in the slot emptied last or in a new one. -/
def insert (a : Arena α) (value : α) : Key × Arena α :=
  match a.free with
  | [] => (⟨a.slots.size + 1, 1⟩, { a with slots := a.slots.push ⟨1, some value⟩ })
  | n :: rest =>
    let version := ((a.slot? n).map (·.version)).getD 0 + 1
    (⟨n, version⟩, { a.setSlot n ⟨version, some value⟩ with free := rest })

/-- Replaces the value of a key; without one nothing changes. -/
def update (a : Arena α) (k : Key) (f : α → α) : Arena α :=
  match a.get? k with
  | none => a
  | some value => a.setSlot k.slot ⟨k.version, some (f value)⟩

/-- Takes a value out and empties its slot. -/
def remove? (a : Arena α) (k : Key) : Option (α × Arena α) :=
  (a.get? k).map fun value =>
    (value, { a.setSlot k.slot ⟨k.version + 1, none⟩ with free := k.slot :: a.free })

/-! ### What an update does -/

theorem slot?_setSlot {a : Arena α} {n : Nat} (hn : (a.slot? n).isSome) (s : Slot α) (m : Nat) :
    (a.setSlot n s).slot? m = if m = n then some s else a.slot? m := by
  cases n with
  | zero => simp [slot?] at hn
  | succ n =>
    cases m with
    | zero => simp [slot?]
    | succ m =>
      have hlt : n < a.slots.size := by simpa [slot?] using hn
      simp only [slot?, setSlot, Array.getElem?_setIfInBounds, Nat.add_sub_cancel,
        Nat.add_right_cancel_iff]
      by_cases h : n = m
      · subst h
        simp [hlt]
      · simp [h, Ne.symm h]

theorem slot?_of_get? {a : Arena α} {k : Key} {value : α} (h : a.get? k = some value) :
    a.slot? k.slot = some ⟨k.version, some value⟩ := by
  unfold get? at h
  cases hs : a.slot? k.slot with
  | none => simp [hs] at h
  | some s =>
    rcases s with ⟨version, content⟩
    simp only [hs, Option.bind_some] at h
    split at h
    · simp_all
    · cases h

theorem get?_update (a : Arena α) (k : Key) (f : α → α) :
    (a.update k f).get? k = (a.get? k).map f := by
  unfold update
  cases h : a.get? k with
  | none => simp [h]
  | some value =>
    have hs : (a.slot? k.slot).isSome := by simp [slot?_of_get? h]
    simp [get?, slot?_setSlot hs]

theorem get?_update_of_ne (a : Arena α) {k l : Key} (h : l ≠ k) (f : α → α) :
    (a.update k f).get? l = a.get? l := by
  unfold update
  cases hk : a.get? k with
  | none => rfl
  | some value =>
    have hs := slot?_of_get? hk
    have hs' : (a.slot? k.slot).isSome := by simp [hs]
    simp only [get?, slot?_setSlot hs']
    split
    · rename_i hl
      have hv : k.version ≠ l.version := fun hv => h (by
        cases k
        cases l
        simp_all)
      simp [hl, hs, hv]
    · rfl

end Arena

end RetainedScene
