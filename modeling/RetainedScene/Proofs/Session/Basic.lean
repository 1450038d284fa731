import RetainedScene.Proofs.DisplayList.References
import RetainedScene.Proofs.World.Lifetime

/-!
# Sessions

A session is a world in use: recordings are going on, lists are finished and not yet given to a
node, and nodes come and go, all on one cache.  A `Request` is served by what the recorders, the
cache and the nodes do; one that is a mistake, that names a recorder or list that is not there, or
an id that was never given out, is not served.  Nothing is dropped that still holds references.

`Session.acts` says what the cache is asked for to serve a request, and `Session.held` what
references are held.
-/

namespace RetainedScene

open Cache

structure Session where
  world : World
  recorders : List Recorder := []
  /-- The finished lists that were not given to a node yet. -/
  lists : List DisplayList := []

namespace Session

inductive Request where
  | register (kind : ResourceKind) (bytes : Nat)
  /-- The owner of a resource asks for its destruction. -/
  | destroyResource (id : ResourceId)
  | beginRecording
  | record (recorder : Nat) (command : Command)
  | finish (recorder : Nat)
  | dropRecorder (recorder : Nat)
  | dropList (list : Nat)
  | createNode (name : String)
  | editProperties (key : Key) (f : Properties → Properties)
  /-- A finished list, or none, becomes the content of a node. -/
  | setContent (key : Key) (list : Option Nat)
  | destroy (key : Key)
  | destroyLater (key : Key)
  | flush

/-! ### Serving requests -/

def cache (s : Session) : Cache := s.world.shared.cache

def nodes (s : Session) : NodeStore := s.world.scene.nodes

def onShared (f : Shared → Shared) (s : Session) : Session := { s with world := s.world.onShared f }

/-- Carries out an operation on the world, if it goes well. -/
def perform {α : Type} (s : Session) (m : Action α) : Option Session :=
  match m s.world with
  | .ok _ world => some { s with world }
  | .error _ _ => none

def serve (s : Session) : Request → Option Session
  | .register kind bytes => some (s.onShared fun c => (c.register kind bytes).2)
  | .destroyResource id =>
    if s.cache.knows id then some (s.onShared (·.destroyResource id)) else none
  | .beginRecording => some { s with recorders := {} :: s.recorders }
  | .record i command =>
    s.recorders[i]?.bind fun r =>
      if command.references.all s.cache.knows then
        let (result, shared) := s.world.shared.perform r command
        some { s.onShared fun _ => shared with
          recorders := s.recorders.set i (result.toOption.getD r) }
      else none
  | .finish i =>
    s.recorders[i]?.map fun r =>
      let (result, shared) := s.world.shared.finish r
      { s.onShared fun _ => shared with
        recorders := s.recorders.eraseIdx i
        lists := result.toOption.toList ++ s.lists }
  | .dropRecorder i =>
    s.recorders[i]?.bind fun r =>
      if r.list.held = 0 then
        some { s.onShared (·.lose r.list) with recorders := s.recorders.eraseIdx i }
      else none
  | .dropList i =>
    s.lists[i]?.bind fun l =>
      if l.held = 0 then some { s.onShared (·.lose l) with lists := s.lists.eraseIdx i } else none
  | .createNode name => some { s with world := (s.world.createNode name).2 }
  | .editProperties key f => s.perform (World.editProperties key f)
  | .setContent key none => s.perform (World.setContent key none)
  | .setContent key (some i) =>
    s.lists[i]?.bind fun l =>
      { s with lists := s.lists.eraseIdx i }.perform (World.setContent key (some l))
  | .destroy key => s.perform (World.destroy key)
  | .destroyLater key => some { s with world := s.world.destroyLater key }
  | .flush => s.perform World.flushDestruction

/-- Serves requests one after the other. -/
def run (s : Session) (requests : List Request) : Option Session := requests.foldlM serve s

/-! ### What is held -/

/-- The lists that are being recorded, were finished, or are the content of a node. -/
def contents (s : Session) : List DisplayList :=
  s.recorders.map (·.list) ++ s.lists ++ s.nodes.contents

/-- The references that lists hold, one entry a reference. -/
def held (s : Session) : List ResourceId := s.contents.flatMap (·.references.all)

/-- The references whose resources go with the lists. -/
def owned (s : Session) : List ResourceId := s.contents.flatMap (·.references.owned)

/-- What the cache is asked for to serve a request. -/
def acts (s : Session) : Request → List Act
  | .register kind bytes => [.register kind bytes]
  | .destroyResource id => [.destroy id]
  | .record _ command => command.references.map .retain
  | .finish i =>
    match s.recorders[i]? with
    | none => []
    | some r => match r.finish with
      | .error _ => r.list.returns
      | .ok _ => []
  | .setContent key _ | .destroy key => s.world.returnsAt key
  | .flush => s.world.shared.pending.toList.flatMap s.world.returnsAt
  | _ => []

/-- The resources that are not to outlive the request, or the references taken by it. -/
def Request.dooms : Request → List ResourceId
  | destroyResource id => [id]
  | record _ command => command.owned
  | _ => []

end Session

end RetainedScene
