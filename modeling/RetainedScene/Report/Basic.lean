import RetainedScene.Fatal
import RetainedScene.Text.Layout

/-!
# Reports and sinks

A `Report` is a text together with the error that cuts it short, if there is one: the text is
what comes before the error.

A report is written to a sink, which may have room for so many bytes only.  What fits is written
before the sink refuses, and an error of the report is met only when all before it was written.
-/

namespace RetainedScene

structure Report where
  text : String := ""
  /-- The error that the report ends in. -/
  cut : Option Fatal := none
  deriving DecidableEq, Inhabited

namespace Report

/-! ### Building and reading -/

def ofText (text : String) : Report := { text }

def ofResult : Except Fatal String → Report
  | .ok text => { text }
  | .error cause => { cut := some cause }

/-- One report after the other; nothing comes after an error. -/
def append (r s : Report) : Report :=
  if r.cut.isSome then r else ⟨r.text ++ s.text, s.cut⟩

instance : Append Report := ⟨append⟩

/-- Lines at their levels, up to one that cannot be indented so far. -/
def ofLines (lines : List (Nat × String)) : Report where
  text := Text.unlines ((lines.takeWhile (Text.hasMargin ·.1)).map
    fun (level, line) => Text.indented level line)
  cut := if lines.all (Text.hasMargin ·.1) then none else some .marginTooWide

/-- The text of a report that is not cut short. -/
def result (r : Report) : Except Fatal String :=
  match r.cut with
  | none => .ok r.text
  | some cause => .error cause

end Report

/-! ### Sinks -/

/-- Why a report was not written in full. -/
inductive WriteError where
  /-- The sink had room for this much. -/
  | full (written : String)
  | cut (cause : Fatal)
  deriving DecidableEq

/-- The characters that fit into a number of bytes; one that fits only in part is replaced. -/
def Text.fitting : Nat → List Char → List Char
  | _, [] => []
  | room, c :: rest =>
    if c.utf8Size ≤ room then c :: fitting (room - c.utf8Size) rest
    else if room = 0 then [] else ['\ufffd']

/-- Writes a report to a sink with room for so many bytes, if limited. -/
def Report.writeTo (room : Option Nat) (r : Report) : Except WriteError String :=
  match room.filter (· < r.text.utf8ByteSize), r.cut with
  | some room, _ => .error (.full (String.ofList (Text.fitting room r.text.toList)))
  | none, some cause => .error (.cut cause)
  | none, none => .ok r.text

end RetainedScene
