import RetainedScene.Journal.Settings
import RetainedScene.Report.Dump
import RetainedScene.Report.Usage
import RetainedScene.Scene.Lifetime
import RetainedScene.Scene.Routing
import RetainedScene.Walk.Play

/-!
# A demonstration

A list of three cards with a floating button above them.  A ripple inside the second card is
projected onto the background of the list.  The scene is drawn at once and through a plan, dumped
and torn down; `run` gives the text that this prints and the world it leaves, whose journal tells
the rest.
-/

namespace RetainedScene.Demo

def width : Single := 360

def height : Single := 640

/-! ### The scene -/

/-- A node with the given properties, and content recorded by commands. -/
def addNode (name : String) (properties : Properties) (commands : List Command) : Action Key := do
  let (key, w) := (← get).createNode name
  set w
  World.setProperties key properties
  let (recorder, shared) := commands.foldl (fun (r, c) command =>
    match c.perform r command with
    | (.ok r, c) => (r, c)
    | (.error _, c) => (r, c)) (({} : Recorder), (← get).shared)
  let (list, shared) := shared.finish recorder
  modify (World.onShared fun _ => shared)
  World.setContent key list.toOption
  pure key

def ripple : Action Key :=
  addNode "ripple" { Properties.ofBounds (-20) (-20) 140 100 with projects := true, alpha := 0.3 }
    [.circle ⟨80, 60⟩ 80 (.fill .white)]

def divider : Color := ⟨0, 0, 0, 0.12⟩

def card (index : Nat) (avatar : ResourceId) (content : List Command) : Action Key :=
  let top : Single := 16 + Single.ofNat index * 96
  let face : Rect := .ofSize 328 80
  let properties : Properties :=
    { Properties.ofBounds 16 top 344 (top + 80) with
      elevation := 2, castsShadow := true, outline := .roundRect face 8, clipToOutline := true }
  addNode s!"card{index}" properties
    ([.roundRect face 8 8 (.fill .white),
      .roundRect face 8 8 (.stroke divider 1),
      .bitmap avatar ⟨⟨16, 16⟩, ⟨48, 48⟩⟩ none,
      .text s!"Card {index}" ⟨80, 44⟩ {}] ++ content)

def button : Action Key :=
  let properties : Properties :=
    { Properties.ofBounds 288 568 344 624 with
      elevation := 6, castsShadow := true, outline := .roundRect (.ofSize 56 56) 28 }
  addNode "fab" properties [.circle ⟨28, 28⟩ 28 (.fill (.ofBytes 0x62 0x00 0xee 0xff))]

/-- Builds the scene and returns its root. -/
def build : Action Key := do
  let (avatar, shared) := (← get).shared.register .bitmap (48 * 48 * 4)
  modify (World.onShared fun _ => shared)
  let ripple ← ripple
  let first ← card 0 avatar []
  let second ← card 1 avatar [.child ripple]
  let third ← card 2 avatar []
  let button ← button
  let root ← addNode "list" (.ofBounds 0 0 width height)
    [.color (.ofBytes 0xf5 0xf5 0xf5 0xff), .receive, .child first, .child second, .child third,
      .child button]
  modify (World.onShared (·.destroyResource avatar))
  pure root

/-! ### The text -/

def banner : List String :=
  ["",
    "  ╔════════════════════════════════════════╗",
    "  ║         TESSERA SCENE REPLAY v0.1      ║",
    "  ║   headless canvas  ·  deferred/replay  ║",
    "  ╚════════════════════════════════════════╝",
    ""]

/-- The line for a draw on a canvas. -/
def callLine (nodes : NodeStore) : Call → String
  | .draw name label transform alpha =>
    let label := label.elim "" fun label => Text.quoted label ++ " "
    let place := s!"({transform.w.x.fixed 0}, {transform.w.y.fixed 0})"
    s!"    {Text.padRight 14 name} {label}at {place} alpha {alpha.fixed 2}"
  | .shadow caster _ alpha =>
    let name := ((nodes.get? caster).map (·.name)).getD "?"
    let op := Text.padRight 14 "DrawShadow"
    s!"    {op} {name} alpha {alpha.fixed 2}"
  | _ => ""

def drawLines (mode : String) (nodes : NodeStore) (c : Canvas) : List String :=
  [s!"  [{mode}]"] ++ c.draws.map (callLine nodes) ++ [""]

/-! ### The run -/

/-- Draws the scene in both ways, dumps it and tears it down.  Returns the printed text. -/
def perform (filter : String) : Action String := do
  modify (World.log (.loggingStarted filter))
  let root ← build
  World.route root
  let nodes := (← get).scene.nodes
  let immediate ← World.replay (.ofSize width height) 0 root
  let (_, plan) ← World.plan (.ofSize width height) root
  let deferred ← World.flush (.ofSize width height) plan
  let dump ← World.lift ((← get).scene.dump 1 root)
  let recent ← World.lift (← get).shared.recentReport.result
  for key in (← get).scene.nodes.keys do
    modify (World.destroyLater key)
  let destroyed ← World.flushDestruction
  modify (World.log (.sceneDestroyed destroyed (← get).scene.nodes.size))
  let planLine := s!"  deferred plan: {plan.drawCount} draws in {plan.batches.length} batches"
  pure (Text.unlines (banner ++ drawLines "immediate" nodes immediate ++ [planLine]
    ++ drawLines "deferred" nodes deferred ++ [dump]) ++ recent)

/-- What the demonstration prints under a filter: its text and the lines of the journal. -/
def run (environment : Option String) : String × List String :=
  let filter := ({} : JournalSettings).directives environment
  let start : World := { shared := { journal := { asked := Level.asked filter } } }
  let (text, world) := match (perform filter).run start with
    | .ok text w => (text, w)
    | .error _ w => ("", w)
  (text, world.shared.journal.seen.map Event.line)

end RetainedScene.Demo
