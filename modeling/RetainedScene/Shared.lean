import RetainedScene.Cache.Basic
import RetainedScene.DisplayList.Recorder
import RetainedScene.Journal.Basic
import RetainedScene.RecentOps

/-!
# What nodes share

The state that the nodes of a scene have in common: the resource cache, the count of installed
functors, the queue of nodes to be destroyed, the operations walked last and the journal.

A command that is recorded takes its references from the cache.  References are given back by
`returnReferences`, at most once a list; `tearDown` also takes the list's functors off the count,
for a list that was installed in a node.
-/

namespace RetainedScene

/-- What can be set for a scene. -/
structure Settings where
  recentCapacity : Nat := 512
  /-- Each operation is entered in the journal as it is walked. -/
  reportOps : Bool := false
  deriving DecidableEq, Inhabited

/-- What the nodes of a scene have in common. -/
structure Shared where
  settings : Settings := {}
  cache : Cache := {}
  recent : RecentOps := ⟨settings.recentCapacity, #[]⟩
  /-- The functors of all installed lists; the count wraps. -/
  functors : UInt32 := 0
  /-- The nodes to be destroyed, the first queued first. -/
  pending : Array Key := #[]
  journal : Journal := {}
  deriving Inhabited

namespace Shared

/-- Enters an event that stands at the left margin. -/
def log (c : Shared) (e : Event) : Shared := { c with journal := c.journal.enter e }

/-! ### References -/

/-- Enters in the journal what came of giving something back. -/
def logOutcome (c : Shared) (id : ResourceId) : Cache.Outcome → Shared
  | .left entry => c.log (.resourceLeft id entry.kind entry.bytes)
  | _ => c

def retain (c : Shared) (id : ResourceId) : Shared :=
  match c.cache.retain id with
  | (.unknown, _) => c.log (.unknownRetained id)
  | (_, cache) => { c with cache }

def release (c : Shared) (id : ResourceId) : Shared :=
  match c.cache.release id with
  | (.unknown, _) => c.log (.unknownReleased id)
  | (outcome, cache) => { c with cache }.logOutcome id outcome

/-- The owner of a resource asks for its destruction. -/
def destroyResource (c : Shared) (id : ResourceId) : Shared :=
  let (outcome, cache) := c.cache.destroy id
  { c with cache }.logOutcome id outcome

def register (c : Shared) (kind : ResourceKind) (bytes : Nat) : ResourceId × Shared :=
  let (id, cache) := c.cache.register kind bytes
  (id, { c with cache })

/-! ### Functors -/

def addFunctors (c : Shared) (count : Nat) : Shared :=
  { c with functors := c.functors + UInt32.ofNat count }

def removeFunctors (c : Shared) (count : Nat) : Shared :=
  { c with functors := c.functors - UInt32.ofNat count }

/-! ### The end of a list -/

/-- Gives back the references of a list: first the borrowed ones, then the owned ones, whose
resources are destroyed. -/
def returnReferences (c : Shared) (l : DisplayList) : Shared :=
  if l.spent then c
  else
    let c := l.references.borrowed.foldl release c
    let c := l.references.owned.foldl (fun c id => (c.release id).destroyResource id) c
    c.log (.listSpent l.ops.size)

/-- Ends a list that was installed in a node. -/
def tearDown (c : Shared) (l : DisplayList) : Shared :=
  if l.spent then c.log .listSpentAlready
  else (c.removeFunctors l.functors).returnReferences l

/-- A list goes away as it is. -/
def lose (c : Shared) (l : DisplayList) : Shared :=
  if 0 < l.held then c.log (.listLost l.held) else c

/-! ### Recording -/

/-- Records a command and takes its references. -/
def perform (c : Shared) (r : Recorder) (command : Command) :
    Except RecordError Recorder × Shared :=
  match r.perform command with
  | .error e => (.error e, c)
  | .ok r => (.ok r, command.references.foldl retain c)

/-- Ends a recording; one that cannot be finished gives its references back. -/
def finish (c : Shared) (r : Recorder) : Except RecordError DisplayList × Shared :=
  match r.finish with
  | .error e => (.error e, c.returnReferences r.list)
  | .ok l => (.ok l, c.log (.recorded l.ops.size l.children.size))

/-! ### Deferred destruction -/

def queue (c : Shared) (key : Key) : Shared := { c with pending := c.pending.push key }

end Shared

end RetainedScene
