import RetainedScene.Scene.Basic
import RetainedScene.Text.Quoted

/-!
# Dumps of a node

A text that tells what a walk of a node would do: what its properties apply, in that order, and
then its recorded operations, with each child nested under the operation that draws it.  Top
nodes are at level one.  A node whose lines cannot be indented to their level cannot be dumped.
-/

namespace RetainedScene

/-- Numbers with two decimals, between commas. -/
def fixedList (xs : List Single) : String := ", ".intercalate (xs.map (Single.fixed 2))

namespace Properties

/-- The lines for the transforms of a node. -/
def transformLines (p : Properties) : List String :=
  let offset :=
    if p.left.isZero && p.top.isZero then []
    else [s!"Translate (left, top) {p.left.plain}, {p.top.plain}"]
  let fixed :=
    match p.staticMatrix, p.animationMatrix with
    | some m, _ => [s!"ConcatMatrix (static) {m.text}"]
    | none, some m => [s!"ConcatMatrix (animation) {m.text}"]
    | none, none => []
  let flags := p.matrixFlags
  let pivoted :=
    if flags = .translation then
      [s!"Translate {fixedList [p.translationX, p.translationY, p.elevation]}"]
    else if flags = .none then []
    else [s!"ConcatMatrix {(p.transformMatrix false).text}"]
  offset ++ fixed ++ pivoted

/-- The lines for the alpha and the clips of a node. -/
def alphaLines (p : Properties) : List String :=
  let clips := p.clipToBounds && !p.caching
  let inLayer := p.alpha < 1 && !p.caching && p.overlaps
  let flags : SaveFlags := if clips then ⟨12⟩ else ⟨4⟩
  let alpha :=
    if inLayer then
      [s!"SaveLayerAlpha 0.00, 0.00, {fixedList [p.width, p.height]}, " ++
        s!"{(p.alpha * 255).toByte.toNat}, {flags.text}"]
    else if p.alpha < 1 then
      [(if p.caching then "SetOverrideLayerAlpha " else "ScaleAlpha ") ++ p.alpha.fixed 2]
    else []
  let bounds :=
    if clips && !inLayer then [s!"ClipRect 0.00, 0.00, {fixedList [p.width, p.height]}"] else []
  let outline :=
    if p.clipToOutline && !p.outline.isEmpty then [s!"ClipOutline {p.outline.text}"] else []
  alpha ++ bounds ++ outline

end Properties

/-- The corners of a rectangle. -/
def Rect.cornersText (r : Rect) : String :=
  fixedList [r.lower.x, r.lower.y, r.upper.x, r.upper.y]

/-- The line for a recorded operation. -/
def DrawOp.line (op : DrawOp) (list : DisplayList) : String :=
  match op with
  | .save flags => s!"{op.name} {flags.text}"
  | .restoreTo count => s!"{op.name} {count}"
  | .translate dx dy => s!"{op.name} {fixedList [dx, dy]}"
  | .clipRect r mode => s!"{op.name} {r.cornersText} {mode.text}"
  | .rect r _ | .roundRect r .. => s!"{op.name} {r.cornersText}"
  | .text s .. => s!"{op.name} {Text.quoted s}"
  | .bitmap id .. | .patch id .. => s!"{op.name} {id.text}"
  | .layer id x y => s!"{op.name} {id.text} at {fixedList [x, y]}"
  | .functor handle => s!"{op.name} {handle.toNat}"
  | .child i => match list.children[i]? with
    | some edge => s!"{op.name} {edge.child.text}"
    | none => s!"{op.name} <missing>"
  | _ => op.name

namespace NodeStore

/-- The dump of a node at a level, and of what is nested in it in so many levels. -/
def dumpLines (nodes : NodeStore) : Nat → Nat → Key → Except Fatal (List (Nat × String))
  | 0, _, _ => .error .marginTooWide
  | levels + 1, level, key => do
    let node ← nodes.node key
    unless Text.hasMargin level do throw .marginTooWide
    let outer (line : String) := (level - 1, line)
    let inner (line : String) := (level, line)
    let list := node.content.getD {}
    let ops ← list.ops.toList.mapM fun op => do
      let below ← match op with
        | .child i => match list.children[i]? with
          | some edge => dumpLines nodes levels (level + 1) edge.child
          | none => pure []
        | _ => pure []
      return inner (op.line list) :: below
    return [outer s!"Start display list ({node.name}, render={node.isDrawable})",
        inner s!"Save {SaveFlags.matrixClip.text}"]
      ++ (node.properties.transformLines ++ node.properties.alphaLines).map inner
      ++ ops.flatten
      ++ [outer s!"Done ({node.name})"]

end NodeStore

namespace Scene

/-- The text of the dump of a node.  The levels that have a margin, and one more to meet the limit
at, are enough for every dump. -/
def dump (s : Scene) (level : Nat) (key : Key) : Except Fatal String := do
  let lines ← s.nodes.dumpLines (Text.widestMargin / 2 + 2) level key
  (Report.ofLines lines).result

end Scene

/-- Enters the dump of a node in the journal, line by line. -/
def World.journalDump (level : Nat) (key : Key) : Action Unit := do
  let text ← World.lift ((← get).scene.dump level key)
  (Text.lines text).forM fun line => modify (World.log (.dumped line))

end RetainedScene
