import RetainedScene.Cache.Resource

/-!
# The resource cache

A cache counts the references to shared resources.  A resource is registered without references
and gets the next id.  Its owner may ask for its destruction at any time: it leaves the cache at
once when it has no references, and with its last reference otherwise.  An id whose resource has
left is never given out again.

Each operation returns what came of it.  Operations on an id that is not in the cache change
nothing.
-/

namespace RetainedScene

/-- What the cache knows of a resource. -/
structure CacheEntry where
  kind : ResourceKind
  bytes : Nat
  /-- The references taken and not given back.  A count has 32 bits, and is kept here as if there
  were always room for one more. -/
  references : Nat := 0
  /-- The owner has asked for its destruction. -/
  doomed : Bool := false
  deriving DecidableEq, Inhabited

/-- The resources by id; the place of one that has left stays empty. -/
structure Cache where
  entries : Array (Option CacheEntry) := #[]
  deriving DecidableEq, Inhabited

namespace Cache

/-- What came of an operation on the cache. -/
inductive Outcome where
  | kept
  | unknown
  | left (entry : CacheEntry)
  deriving DecidableEq

/-! ### Looking up -/

def find? (c : Cache) (id : ResourceId) : Option CacheEntry := c.entries[id.raw]?.join

def contains (c : Cache) (id : ResourceId) : Bool := (c.find? id).isSome

def references? (c : Cache) (id : ResourceId) : Option Nat := (c.find? id).map (·.references)

/-- The entries of all resources, in the order of registration. -/
def live (c : Cache) : List CacheEntry := c.entries.toList.filterMap id

def size (c : Cache) : Nat := c.live.length

/-! ### Changing -/

def register (c : Cache) (kind : ResourceKind) (bytes : Nat) : ResourceId × Cache :=
  (⟨c.entries.size⟩, ⟨c.entries.push (some { kind, bytes })⟩)

def put (c : Cache) (id : ResourceId) (entry : Option CacheEntry) : Cache :=
  ⟨c.entries.setIfInBounds id.raw entry⟩

/-- Puts an entry back, or lets it go when it is doomed and without references. -/
def settle (c : Cache) (id : ResourceId) (entry : CacheEntry) : Outcome × Cache :=
  if entry.references = 0 ∧ entry.doomed then (.left entry, c.put id none)
  else (.kept, c.put id (some entry))

/-- Takes a reference. -/
def retain (c : Cache) (id : ResourceId) : Outcome × Cache :=
  match c.find? id with
  | none => (.unknown, c)
  | some entry => (.kept, c.put id (some { entry with references := entry.references + 1 }))

/-- Gives a reference back; without references there is nothing to give back. -/
def release (c : Cache) (id : ResourceId) : Outcome × Cache :=
  match c.find? id with
  | none => (.unknown, c)
  | some entry => c.settle id { entry with references := entry.references - 1 }

/-- The owner asks for destruction. -/
def destroy (c : Cache) (id : ResourceId) : Outcome × Cache :=
  match c.find? id with
  | none => (.unknown, c)
  | some entry => c.settle id { entry with doomed := true }

/-! ### What the operations do to a look-up -/

theorem find?_put (c : Cache) {id : ResourceId} (h : c.contains id) (entry : Option CacheEntry)
    (other : ResourceId) :
    (c.put id entry).find? other = if other = id then entry else c.find? other := by
  have hlt : id.raw < c.entries.size := by
    rcases Nat.lt_or_ge id.raw c.entries.size with hlt | hge
    · exact hlt
    · simp [contains, find?, Array.getElem?_eq_none hge] at h
  rcases id with ⟨i⟩
  rcases other with ⟨j⟩
  simp only [find?, put, Array.getElem?_setIfInBounds, ResourceId.mk.injEq]
  by_cases hij : i = j
  · subst hij
    have hlt' : i < c.entries.size := hlt
    simp [hlt']
  · simp [hij, Ne.symm hij]

theorem find?_register (c : Cache) (kind : ResourceKind) (bytes : Nat) (id : ResourceId) :
    (c.register kind bytes).2.find? id =
      if id = (c.register kind bytes).1 then some { kind, bytes } else c.find? id := by
  rcases id with ⟨i⟩
  simp only [register, find?, Array.getElem?_push, ResourceId.mk.injEq]
  split <;> rfl

end Cache

end RetainedScene
