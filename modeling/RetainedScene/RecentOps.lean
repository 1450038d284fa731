import RetainedScene.Report.Basic

/-!
# Recent operations

A bounded record of the operations walked last, each with the nesting level of its node.  When
it is full the oldest entry makes room for a new one; a record of capacity zero stays empty.
-/

namespace RetainedScene

structure RecentOps where
  capacity : Nat
  entries : Array (Nat × String) := #[]
  deriving DecidableEq, Inhabited

namespace RecentOps

/-- An entry takes 24 bytes, and no memory has `2 ^ 63` of them. -/
def largestCapacity : Nat := 0x7fffffffffffffff / 24

/-- An empty record. -/
def ofCapacity (capacity : Nat) : Except Fatal RecentOps :=
  if capacity ≤ largestCapacity then .ok ⟨capacity, #[]⟩ else .error .capacityTooLarge

def size (r : RecentOps) : Nat := r.entries.size

def isEmpty (r : RecentOps) : Bool := r.entries.isEmpty

def write (r : RecentOps) (level : Nat) (name : String) : RecentOps :=
  if r.capacity = 0 then r
  else if r.entries.size < r.capacity then { r with entries := r.entries.push (level, name) }
  else { r with entries := (r.entries.extract 1 r.entries.size).push (level, name) }

def clear (r : RecentOps) : RecentOps := { r with entries := #[] }

/-- The entries, one a line, the oldest first, each indented to its level. -/
def report (r : RecentOps) : Report := .ofLines r.entries.toList

end RecentOps

end RetainedScene
