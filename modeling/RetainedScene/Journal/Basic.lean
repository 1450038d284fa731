import RetainedScene.Fatal
import RetainedScene.Geometry.Rect
import RetainedScene.Cache.Resource
import RetainedScene.Text.Layout

/-!
# The journal

Everything worth telling that happens to a scene is entered in a journal as an `Event`.  An event
has a level, the component it comes from and a message, which may be indented; which events a
reader sees is decided by the level the reader asks for.

The events that the reader sees are written out, so a journal refuses an event that its reader
asks for and that cannot be indented as far as it should be.
-/

namespace RetainedScene

/-! ### Levels and components -/

inductive Level where
  | error
  | warn
  | info
  | debug
  | trace
  deriving DecidableEq, Inhabited

namespace Level

/-- How much a reader asks for; errors are told to all who ask for anything. -/
def verbosity : Level → Nat
  | error => 1
  | warn => 2
  | info => 3
  | debug => 4
  | trace => 5

def name : Level → String
  | error => "ERROR"
  | warn => "WARN"
  | info => "INFO"
  | debug => "DEBUG"
  | trace => "TRACE"

/-- A reader who asks for `most` sees `level`; one who asks for nothing sees nothing. -/
def isSeen (level : Level) (most : Option Level) : Bool :=
  match most with
  | none => false
  | some most => level.verbosity ≤ most.verbosity

end Level

/-- The part of the program that an event comes from. -/
inductive Component where
  | scene
  | nodes
  | recorder
  | displayList
  | cache
  | walk
  | immediate
  | plan
  | dump
  | journal
  | demo
  deriving DecidableEq

/-- The name of a component in printed lines. -/
def Component.path : Component → String
  | scene => "tessera_engine::scene"
  | nodes => "tessera_engine::scene::graph"
  | recorder => "tessera_engine::scene::recorder"
  | displayList => "tessera_engine::scene::op_list"
  | cache => "tessera_engine::resource::cache"
  | walk => "tessera_engine::playback::traverse"
  | immediate => "tessera_engine::playback::replay"
  | plan => "tessera_engine::playback::defer"
  | dump => "tessera_engine::diagnostics"
  | journal => "tessera_engine::logging::init"
  | demo => "tessera_studio"

/-! ### Events -/

inductive Event where
  | failed (fatal : Fatal)
  | nodeCreated (key : Key)
  | nodeDestroyed (key : Key) (name : String)
  | recorded (ops children : Nat)
  | listSpentAlready
  | listSpent (ops : Nat)
  /-- A list went away with references that were never given back. -/
  | listLost (held : Nat)
  | unknownRetained (id : ResourceId)
  | unknownReleased (id : ResourceId)
  | resourceLeft (id : ResourceId) (kind : ResourceKind) (bytes : Nat)
  | nothingToDraw (level : Nat) (name : String)
  | nodeStarted (level : Nat) (name : String) (clip : Option Rect)
  | nodeSaved (level : Nat) (name : String) (count : Nat)
  | layerSaved (level : Nat) (alpha : Single)
  | opReached (level : Nat) (name : String)
  | childMissing (name : String) (index : Nat)
  | projectedReached (level : Nat) (name : String) (count : Nat)
  | nodeRejected (level : Nat) (name : String)
  | nodeRestored (level : Nat) (count : Nat)
  | nodeReplayed (level : Nat) (name : String)
  | notDeferred (name : String)
  | planned (draws batches : Nat)
  | flushing (entries batches : Nat)
  | dumped (line : String)
  | loggingStarted (filter : String)
  | sceneDestroyed (destroyed live : Nat)
  deriving DecidableEq

namespace Event

def level : Event → Level
  | failed _ => .error
  | listLost _ | unknownRetained _ | unknownReleased _ | childMissing .. | notDeferred _ => .warn
  | sceneDestroyed .. => .info
  | nodeDestroyed .. | listSpentAlready | nodeStarted .. | opReached .. | nodeRejected .. => .debug
  | planned .. | dumped _ | loggingStarted _ => .debug
  | _ => .trace

def component : Event → Component
  | failed _ => .scene
  | nodeCreated _ | nodeDestroyed .. => .nodes
  | recorded .. => .recorder
  | listSpentAlready | listSpent _ | listLost _ => .displayList
  | unknownRetained _ | unknownReleased _ | resourceLeft .. => .cache
  | nodeReplayed .. => .immediate
  | notDeferred _ | planned .. | flushing .. => .plan
  | dumped _ => .dump
  | loggingStarted _ => .journal
  | sceneDestroyed .. => .demo
  | _ => .walk

/-- The text of a clip that may be missing. -/
def clipText : Option Rect → String
  | none => "None"
  | some clip => s!"Some({clip.text})"

/-- The level to which the message is indented. -/
def indent : Event → Nat
  | nothingToDraw level _ | nodeStarted level .. | layerSaved level _ => level
  | projectedReached level .. | nodeReplayed level _ => level
  | nodeSaved level .. | nodeRestored level _ => level + 1
  | opReached level _ | nodeRejected level _ => level + 1
  | _ => 0

/-- The message without its indentation. -/
def body : Event → String
  | failed fatal => fatal.message
  | nodeCreated key => s!"created node {key.text}"
  | nodeDestroyed key name => s!"destroyed node {key.text} ({name})"
  | recorded ops children => s!"recorded {ops} ops, {children} children"
  | listSpentAlready => "op list resources already released"
  | listSpent ops => s!"released op list with {ops} ops"
  | listLost held => s!"op list dropped while holding {held} resource references"
  | unknownRetained id => s!"increment of unknown resource {id.text}"
  | unknownReleased id => s!"decrement of unknown resource {id.text}"
  | resourceLeft id kind bytes => s!"releasing {kind.name} {id.text} ({bytes} bytes)"
  | nothingToDraw _ name => s!"Empty display list ({name})"
  | nodeStarted _ name clip => s!"Start display list ({name}), clip: {clipText clip}"
  | nodeSaved _ name count => s!"Save {count} ({name})"
  | layerSaved _ alpha => s!"SaveLayerAlpha {alpha.plain}"
  | opReached _ name => name
  | childMissing name index => s!"{name} references missing child edge {index}"
  | projectedReached _ name count => s!"{count} projected children of {name}"
  | nodeRejected _ name => s!"Quick rejected ({name})"
  | nodeRestored _ count => s!"RestoreToCount {count}"
  | nodeReplayed _ name => s!"Done ({name})"
  | notDeferred name => s!"cannot defer {name}"
  | planned draws batches => s!"deferred {draws} draws into {batches} batches"
  | flushing entries batches => s!"flushing {entries} entries in {batches} batches"
  | dumped line => line
  | loggingStarted filter => s!"logging initialized ({filter})"
  | sceneDestroyed destroyed live => s!"destroyed {destroyed} node(s), {live} still live"

def message (e : Event) : String := Text.indented e.indent e.body

/-- An event as a printed line. -/
def line (e : Event) : String :=
  s!"[{Text.padRight 5 e.level.name} {e.component.path}] {e.message}"

end Event

structure Journal where
  /-- What the reader asks for. -/
  asked : Option Level := some .warn
  events : Array Event := #[]
  deriving DecidableEq, Inhabited

namespace Journal

def enter (j : Journal) (e : Event) : Journal := { j with events := j.events.push e }

/-- The same journal without the events so far. -/
def forget (j : Journal) : Journal := { j with events := #[] }

/-- The reader asks for an event that cannot be written out. -/
def refuses (j : Journal) (e : Event) : Bool :=
  e.level.isSeen j.asked && !Text.hasMargin e.indent

/-- The events that the reader sees. -/
def seen (j : Journal) : List Event := j.events.toList.filter fun e => e.level.isSeen j.asked

/-- The resources that left the cache, in order. -/
def resourcesLeft (j : Journal) : List (ResourceId × ResourceKind) :=
  j.events.toList.filterMap fun
    | .resourceLeft id kind _ => some (id, kind)
    | _ => none

end Journal

end RetainedScene
