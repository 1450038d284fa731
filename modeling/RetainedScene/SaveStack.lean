/-!
# Save stacks

A `SaveStack` is the state in force together with the states saved below it, so there is always
a state in force.  `save` keeps a copy of it; `restore` goes back to the last copy, and does
nothing when there is none; `restoreTo n` goes back until `n` states are left, at least one.

The number of saved states is kept with them, so that a count does not have to go through them.

`restoreTo_saveCount_save` says that a save is undone by restoring to the count before it, and
`saveCount_restoreTo` what count a restore leaves.
-/

namespace RetainedScene

structure SaveStack (α : Type) where
  top : α
  /-- The saved states, the last saved first. -/
  below : List α := []
  /-- The number of saved states. -/
  depth : Nat := below.length
  depth_eq : depth = below.length := by rfl
  deriving DecidableEq

namespace SaveStack

variable {α : Type}

/-- The stack without a saved state. -/
def ofTop (top : α) : SaveStack α := { top }

instance [Inhabited α] : Inhabited (SaveStack α) := ⟨ofTop default⟩

/-- The count of states, the one in force included. -/
def saveCount (s : SaveStack α) : Nat := s.depth + 1

def save (s : SaveStack α) : SaveStack α where
  top := s.top
  below := s.top :: s.below
  depth := s.depth + 1
  depth_eq := congrArg (· + 1) s.depth_eq

def restore (s : SaveStack α) : SaveStack α :=
  match s with
  | ⟨_, [], _, _⟩ => s
  | ⟨_, saved :: rest, depth, h⟩ => ⟨saved, rest, depth - 1, by simp [h]⟩

/-- `n` restores in a row. -/
def restoreTimes (s : SaveStack α) : Nat → SaveStack α
  | 0 => s
  | n + 1 => s.restore.restoreTimes n

/-- Restores until no more than `count` states are left; the last state stays. -/
def restoreTo (s : SaveStack α) (count : Int) : SaveStack α :=
  s.restoreTimes (s.saveCount - (max count 1).toNat)

/-- Changes the state in force. -/
def modify (s : SaveStack α) (f : α → α) : SaveStack α := { s with top := f s.top }

/-! ### Counts -/

theorem saveCount_eq (s : SaveStack α) : s.saveCount = s.below.length + 1 :=
  congrArg (· + 1) s.depth_eq

@[simp] theorem saveCount_pos (s : SaveStack α) : 0 < s.saveCount := Nat.succ_pos _

@[simp] theorem saveCount_save (s : SaveStack α) : s.save.saveCount = s.saveCount + 1 := rfl

@[simp] theorem saveCount_modify (s : SaveStack α) (f : α → α) :
    (s.modify f).saveCount = s.saveCount := rfl

@[simp] theorem restore_save (s : SaveStack α) : s.save.restore = s := rfl

theorem saveCount_restore (s : SaveStack α) : s.restore.saveCount = max (s.saveCount - 1) 1 := by
  rcases s with ⟨_, _ | ⟨_, rest⟩, depth, h⟩
  · cases h
    rfl
  · simp [restore, saveCount, h]

theorem saveCount_restoreTimes (s : SaveStack α) (n : Nat) :
    (s.restoreTimes n).saveCount = max (s.saveCount - n) 1 := by
  induction n generalizing s with
  | zero =>
    have := s.saveCount_pos
    simp only [restoreTimes]
    omega
  | succ n ih =>
    rw [restoreTimes, ih, saveCount_restore]
    omega

theorem saveCount_restoreTo (s : SaveStack α) (count : Int) :
    (s.restoreTo count).saveCount = min s.saveCount (max count 1).toNat := by
  have := s.saveCount_pos
  rw [restoreTo, saveCount_restoreTimes]
  omega

@[simp] theorem restoreTo_saveCount_save (s : SaveStack α) :
    s.save.restoreTo s.saveCount = s := by
  have h : s.save.saveCount - (max (s.saveCount : Int) 1).toNat = 1 := by
    have := s.saveCount_pos
    rw [saveCount_save]
    omega
  rw [restoreTo, h]
  rfl

end SaveStack

end RetainedScene
