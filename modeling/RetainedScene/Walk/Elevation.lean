import RetainedScene.Walk.Stage

/-!
# Elevated children

A child that does not project and stands at another height than zero is elevated.  Elevated
children are drawn by height, siblings of equal height in their order: those below zero before
the content of their parent, the others after it.  The heights are in the total order of all bit
patterns, so every list of children has one sorted form.

A child that casts a shadow has it drawn before its own content.  Neighbours in height share a
plane: `schedule` draws the shadows of a run of children, each less than `shadowGap` above the
one before, ahead of the content of all of them.
-/

namespace RetainedScene

/-- A child link with the properties of the child. -/
structure Sibling where
  ref : EdgeRef
  edge : Edge
  properties : Properties
  deriving DecidableEq

namespace Sibling

def height (c : Sibling) : Single := c.properties.elevation

/-- The child is drawn out of the order of its parent's content, but by its parent. -/
def isElevated (c : Sibling) : Bool := !c.properties.projects && !c.height.isZero

/-- The shadow of a child that casts one. -/
def shadow? (c : Sibling) : Option Shadow :=
  let p := c.properties
  if p.castsShadow = true ∧ 0 < p.alpha then
    some {
      caster := c.edge.child
      flat := p.apply false c.edge.transform
      deep := p.apply true c.edge.transform
      alpha := p.alpha
      outline := p.outline
      width := p.width
      height := p.height }
  else none

/-! ### In the order of height -/

/-- Puts a child before the first one that is at least as high. -/
def insertByHeight (c : Sibling) : List Sibling → List Sibling
  | [] => [c]
  | d :: rest =>
    if c.height.totalRank ≤ d.height.totalRank then c :: d :: rest else d :: insertByHeight c rest

/-- The children by height, those of equal height in the given order. -/
def sortByHeight (cs : List Sibling) : List Sibling := cs.foldr insertByHeight []

/-- The elevated ones of a node's children, by height. -/
def elevated (cs : List Sibling) : List Sibling := sortByHeight (cs.filter isElevated)

/-- The children before the first one at or above zero. -/
def below (sorted : List Sibling) : List Sibling := sorted.takeWhile fun c => ¬ 0 ≤ c.height

/-- The children from the first one at or above zero on. -/
def above (sorted : List Sibling) : List Sibling := sorted.dropWhile fun c => ¬ 0 ≤ c.height

/-- There may be something to draw before the content: the lowest child is not above zero. -/
def reachesBelow (sorted : List Sibling) : Bool := sorted.head?.any fun c => ¬ 0 < c.height

/-- There may be something to draw after the content: the highest child is not below zero. -/
def reachesAbove (sorted : List Sibling) : Bool := sorted.getLast?.any fun c => ¬ c.height < 0

/-- Holds back the elevated children and no other child; of one that projects nothing is said. -/
def holdElevated (cs : List Sibling) (held : EdgeSet) : EdgeSet :=
  cs.foldl (fun held c =>
    if c.properties.projects then held
    else if c.height.isZero then held.erase c.ref
    else held.insert c.ref) held

/-! ### Shadows and content -/

/-- A child this far above the one before has its shadow on another plane. -/
def shadowGap : Single := 0.1

inductive Turn where
  | shadow (c : Sibling)
  | content (c : Sibling)
  deriving DecidableEq

/-- The turns of children by height.  `waiting` have had their shadows and not their content, and
`last` is the height of the child whose shadow came last. -/
def schedule (waiting : List Sibling) (last : Single) : List Sibling → List Turn
  | [] => waiting.map .content
  | c :: rest =>
    if waiting.isEmpty = true ∨ c.height - last < shadowGap then
      .shadow c :: schedule (waiting ++ [c]) c.height rest
    else waiting.map .content ++ .shadow c :: schedule [c] c.height rest

end Sibling

/-- The children of a node with their properties. -/
def NodeStore.siblings (nodes : NodeStore) (key : Key) (list : DisplayList) :
    Except Fatal (List Sibling) :=
  (list.edgesOf key).mapM fun (ref, edge) => do
    let child ← nodes.node edge.child
    return ⟨ref, edge, child.properties⟩

end RetainedScene
