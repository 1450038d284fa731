import RetainedScene.Journal.Basic

/-!
# Settings of the printed journal

What part of the journal is printed and how.
-/

namespace RetainedScene

/-- When printed lines are colored. -/
inductive WriteStyle where
  | auto
  | never
  deriving DecidableEq, Inhabited

def WriteStyle.text : WriteStyle → String
  | auto => "Auto"
  | never => "Never"

structure JournalSettings where
  /-- What is printed, as filter directives; by default up to the environment. -/
  filter : Option String := none
  style : WriteStyle := .auto
  /-- The walk is printed in full, whatever the filter says. -/
  traceWalk : Bool := false
  /-- Lines are captured by a test run. -/
  captured : Bool := false
  deriving DecidableEq, Inhabited

namespace JournalSettings

def withFilter (filter : String) : JournalSettings := { filter }

/-- Captured, without color, and with the walk in full. -/
def forTests : JournalSettings :=
  { filter := some "debug", style := .never, traceWalk := true, captured := true }

/-- The directives in force, given those of the environment. -/
def directives (s : JournalSettings) (environment : Option String) : String :=
  let base := (s.filter <|> environment).getD "info"
  if s.traceWalk then base ++ ",tessera_engine::playback=trace" else base

end JournalSettings

/-- The level that a filter of one level name asks for; `none` when it asks for nothing, and the
whole journal when it names no level. -/
def Level.asked (filter : String) : Option Level :=
  match filter.map Char.toLower with
  | "off" => none
  | "" | "error" => some .error
  | "warn" => some .warn
  | "info" => some .info
  | "debug" => some .debug
  | _ => some .trace

end RetainedScene
