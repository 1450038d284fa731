/-!
# Laying out lines of text

Indentation, padding to a width, and the cutting of a text into lines.  A line ends at a line
feed, and a carriage return right before it belongs to the line end; what follows the last line
feed is a line unless it is empty.

Lines can be indented to a limit only: `hasMargin` says at which levels they can be written.
-/

namespace RetainedScene.Text

def spaces (n : Nat) : String := String.ofList (List.replicate n ' ')

/-- The text moved right by two spaces a level. -/
def indented (level : Nat) (s : String) : String := spaces (2 * level) ++ s

/-- The columns of the widest margin that a line can have. -/
def widestMargin : Nat := 65535

/-- Lines at this level can be written. -/
def hasMargin (level : Nat) : Bool := 2 * level ≤ widestMargin

def padLeft (width : Nat) (s : String) : String := spaces (width - s.length) ++ s

def padRight (width : Nat) (s : String) : String := s ++ spaces (width - s.length)

/-- A finished line without the carriage return that may stand at its end; `line` is reversed. -/
def finishLine (line : List Char) : List Char :=
  match line with
  | '\r' :: rest => rest.reverse
  | _ => line.reverse

/-- The lines of the rest of a text; `line` holds the current one, reversed. -/
def linesFrom (line : List Char) : List Char → List (List Char)
  | [] => if line.isEmpty then [] else [line.reverse]
  | '\n' :: rest => finishLine line :: linesFrom [] rest
  | c :: rest => linesFrom (c :: line) rest

def lines (s : String) : List String := (linesFrom [] s.toList).map String.ofList

/-- Each line followed by a line feed. -/
def unlines (ls : List String) : String := String.join (ls.map (· ++ "\n"))

end RetainedScene.Text
