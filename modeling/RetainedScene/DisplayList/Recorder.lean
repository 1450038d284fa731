import RetainedScene.DisplayList.Basic
import RetainedScene.SaveStack

/-!
# Recording

A `Recorder` builds a display list from drawing commands.  It follows the transform in force with
a save stack of matrices, so that each link to a child is recorded under the transform at that
point, and counts saves as a canvas does.

A command that cannot be recorded changes nothing.  `Command.references` are the resources that a
recorded command refers to, in the order in which they are referenced.  Recording can only be
finished when every save has been restored.
-/

namespace RetainedScene

/-- Why a command, or the end of a recording, is refused. -/
inductive RecordError where
  | restoreWithoutSave
  | invalidCount (count : Int)
  | openSaves (depth : Nat)
  | receiveWithoutOps
  deriving DecidableEq

def RecordError.message : RecordError → String
  | restoreWithoutSave => "restore without matching save"
  | invalidCount count => s!"restore to invalid save count {count}"
  | openSaves depth => s!"recording finished with {depth} unmatched save(s)"
  | receiveWithoutOps => "projection receive point marked on an empty recording"

/-- A call on a recorder. -/
inductive Command where
  | save (flags : SaveFlags)
  | restore
  | restoreTo (count : Int)
  | translate (dx dy : Single)
  | concat (matrix : Matrix)
  | clipRect (rect : Rect) (mode : ClipMode)
  | clipPath (path : Path) (mode : ClipMode)
  | clipRegion (region : Region) (mode : ClipMode)
  | color (color : Color)
  | rect (rect : Rect) (paint : Paint)
  | roundRect (rect : Rect) (rx ry : Single) (paint : Paint)
  | circle (center : Point) (radius : Single) (paint : Paint)
  /-- The source is the shared path that the path was copied from. -/
  | path (path : Path) (source : Option ResourceId) (paint : Paint)
  | bitmap (id : ResourceId) (target : Rect) (paint : Option Paint)
  /-- A bitmap that goes with the recorded content. -/
  | ownedBitmap (id : ResourceId) (target : Rect) (paint : Option Paint)
  | patch (id : ResourceId) (target : Rect) (paint : Option Paint)
  | text (text : String) (origin : Point) (paint : Paint)
  | layer (id : ResourceId) (x y : Single)
  | functor (handle : UInt32)
  | child (key : Key)
  /-- Projected nodes are to be drawn after the last recorded operation. -/
  | receive
  deriving DecidableEq

/-- The resources that a command refers to, one entry a reference. -/
def Command.references : Command → List ResourceId
  | rect _ paint | roundRect _ _ _ paint | circle _ _ paint | text _ _ paint =>
    paint.shader.toList
  | path _ source paint => source.toList ++ paint.shader.toList
  | bitmap id _ paint | ownedBitmap id _ paint | patch id _ paint =>
    id :: (paint.bind (·.shader)).toList
  | layer id _ _ => [id]
  | _ => []

structure Recorder where
  list : DisplayList := {}
  saves : SaveStack Matrix := .ofTop .identity
  deriving DecidableEq, Inhabited

namespace Recorder

/-- The transform in force. -/
def matrix (r : Recorder) : Matrix := r.saves.top

def saveCount (r : Recorder) : Nat := r.saves.saveCount

/-! ### Adding to the list -/

def addOp (r : Recorder) (op : DrawOp) : Recorder :=
  { r with list := { r.list with ops := r.list.ops.push op } }

/-- Adds a paint to the table, and its shader to the references. -/
def addPaint (r : Recorder) (paint : Paint) : Recorder :=
  let refs := r.list.references
  let refs := match paint.shader with
    | some shader => { refs with shaders := refs.shaders.push shader }
    | none => refs
  { r with list := { r.list with paints := r.list.paints.push paint, references := refs } }

/-- Adds a paint and then the operation that uses it, given the paint's index. -/
def addPainted (r : Recorder) (paint : Paint) (op : Nat → DrawOp) : Recorder :=
  (r.addPaint paint).addOp (op r.list.paints.size)

def addPainted? (r : Recorder) (paint : Option Paint) (op : Option Nat → DrawOp) : Recorder :=
  match paint with
  | none => r.addOp (op none)
  | some paint => r.addPainted paint (op ∘ some)

def addReferences (r : Recorder) (f : References → References) : Recorder :=
  { r with list := { r.list with references := f r.list.references } }

/-! ### Commands -/

/-- Records one command. -/
def perform (r : Recorder) : Command → Except RecordError Recorder
  | .save flags => .ok ({ r with saves := r.saves.save }.addOp (.save flags))
  | .restore =>
    if r.saves.below.isEmpty then .error .restoreWithoutSave
    else .ok ({ r with saves := r.saves.restore }.addOp .restore)
  | .restoreTo count =>
    if count < 1 then .error (.invalidCount count)
    else .ok ({ r with saves := r.saves.restoreTo count }.addOp (.restoreTo count))
  | .translate dx dy =>
    .ok ({ r with saves := r.saves.modify (· * Matrix.translation dx dy 0) }.addOp
      (.translate dx dy))
  | .concat matrix =>
    let index := r.list.matrices.size
    let r := { r with saves := r.saves.modify (· * matrix),
                      list := { r.list with matrices := r.list.matrices.push matrix } }
    .ok (r.addOp (.concat index))
  | .clipRect rect mode => .ok (r.addOp (.clipRect rect mode))
  | .clipPath path mode =>
    let index := r.list.paths.size
    let r := { r with list := { r.list with paths := r.list.paths.push path } }
    .ok (r.addOp (.clipPath index mode))
  | .clipRegion region mode =>
    let index := r.list.regions.size
    let r := { r with list := { r.list with regions := r.list.regions.push region } }
    .ok (r.addOp (.clipRegion index mode))
  | .color color => .ok (r.addOp (.color color))
  | .rect rect paint => .ok (r.addPainted paint (.rect rect))
  | .roundRect rect rx ry paint => .ok (r.addPainted paint (.roundRect rect rx ry))
  | .circle center radius paint => .ok (r.addPainted paint (.circle center radius))
  | .path path source paint =>
    let index := r.list.paths.size
    let r := { r with list := { r.list with paths := r.list.paths.push path } }
    let r := match source with
      | some id => r.addReferences fun refs => { refs with sourcePaths := refs.sourcePaths.push id }
      | none => r
    .ok (r.addPainted paint (.path index))
  | .bitmap id target paint =>
    let r := r.addReferences fun refs => { refs with bitmaps := refs.bitmaps.push id }
    .ok (r.addPainted? paint (.bitmap id target))
  | .ownedBitmap id target paint =>
    let r := r.addReferences fun refs => { refs with ownedBitmaps := refs.ownedBitmaps.push id }
    .ok (r.addPainted? paint (.bitmap id target))
  | .patch id target paint =>
    let r := r.addReferences fun refs => { refs with patches := refs.patches.push id }
    .ok (r.addPainted? paint (.patch id target))
  | .text text origin paint => .ok (r.addPainted paint (.text text origin))
  | .layer id x y =>
    let r := r.addReferences fun refs => { refs with layers := refs.layers.push id }
    .ok (r.addOp (.layer id x y))
  | .functor handle =>
    .ok ({ r with list := { r.list with functors := r.list.functors + 1 } }.addOp (.functor handle))
  | .child key =>
    let index := r.list.children.size
    let edge : Edge := ⟨key, r.matrix⟩
    let r := { r with list := { r.list with children := r.list.children.push edge } }
    .ok (r.addOp (.child index))
  | .receive =>
    if r.list.ops.isEmpty then .error .receiveWithoutOps
    else .ok { r with list := { r.list with receiveIndex := some (r.list.ops.size - 1) } }

/-- The recorded list, once every save has been restored. -/
def finish (r : Recorder) : Except RecordError DisplayList :=
  if r.saves.below.isEmpty then .ok r.list else .error (.openSaves r.saves.below.length)

/-- Records commands one after another, leaving out those that are refused. -/
def performAll (r : Recorder) (commands : List Command) : Recorder :=
  commands.foldl (fun r c => (r.perform c).toOption.getD r) r

end Recorder

end RetainedScene
