import Std.Data.ExtTreeSet
import Std.Data.ExtTreeMap

/-!
# Node keys and edges

A `Key` names a slot of the node store together with the version the slot had when the node was
put there, so that the key of a removed node does not name the node that follows it in the slot.
Slots are numbered from one; the null key names none.

An `EdgeRef` names one of the parent-to-child links in a node's content.  Keys and edges are
ordered, which is what the tables of a frame are sorted by.
-/

namespace RetainedScene

open Std

structure Key where
  slot : Nat
  version : Nat
  deriving DecidableEq, Inhabited

namespace Key

def null : Key := ⟨0, 0⟩

def text (k : Key) : String :=
  if k.slot = 0 then "NodeKey(null)" else s!"NodeKey({k.slot}v{k.version})"

/-- By slot, then by version. -/
def order : Key → Key → Ordering := compareLex (compareOn (·.slot)) (compareOn (·.version))

instance : TransCmp order := by unfold order; infer_instance

@[simp] theorem order_eq_eq_iff {a b : Key} : order a b = .eq ↔ a = b := by
  rcases a with ⟨_, _⟩
  rcases b with ⟨_, _⟩
  simp [order, compareLex, compareOn, Ordering.then_eq_eq]

instance : LawfulEqCmp order := ⟨order_eq_eq_iff.1⟩

end Key

/-- The link at `index` in the content of `parent`. -/
structure EdgeRef where
  parent : Key
  index : Nat
  deriving DecidableEq, Inhabited

namespace EdgeRef

/-- By parent, then by index. -/
def order : EdgeRef → EdgeRef → Ordering :=
  compareLex (compareOn (·.parent.slot))
    (compareLex (compareOn (·.parent.version)) (compareOn (·.index)))

instance : TransCmp order := by unfold order; infer_instance

@[simp] theorem order_eq_eq_iff {a b : EdgeRef} : order a b = .eq ↔ a = b := by
  rcases a with ⟨⟨_, _⟩, _⟩
  rcases b with ⟨⟨_, _⟩, _⟩
  simp [order, compareLex, compareOn, Ordering.then_eq_eq, and_assoc]

instance : LawfulEqCmp order := ⟨order_eq_eq_iff.1⟩

end EdgeRef

/-- A finite set of edges. -/
abbrev EdgeSet := ExtTreeSet EdgeRef EdgeRef.order

/-- Values by edge. -/
abbrev EdgeMap (α : Type) := ExtTreeMap EdgeRef α EdgeRef.order

/-- Values by node. -/
abbrev KeyMap (α : Type) := ExtTreeMap Key α Key.order

end RetainedScene
