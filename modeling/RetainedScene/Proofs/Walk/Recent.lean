import RetainedScene.Proofs.Walk.Agenda
import RetainedScene.Proofs.Walk.Deferral

/-!
# What walks enter in the record of recent operations

`Frame.errands` lists what there is to do in the walk of a node with content: the recorded
operations in order, and between them the links that are drawn out of place, by height or at the
receive point.  A walk does them one after the other, each in a `Leg`.  An operation is entered in
the record by its name, at the level of the node, and after it comes whatever is entered for the
child that it draws, if that is drawn in place; a link that is drawn out of place is not entered by
itself.

`Notes` says of what is seen of a walk which entries go with it, and `visit_writes` that these are
the ones that the walk writes.  It does not matter what else there is in the scene, or what is held
back: whether a child is drawn in place, or a node rejected, is read off what is seen.  What is seen
settles the entries (`Notes.unique`).
-/

namespace RetainedScene

variable {ω α β : Type}

/-! ### Errands -/

/-- What is to be done in the walk of a node: a recorded operation, or a link that is drawn out of
place. -/
inductive Errand where
  | op (op : DrawOp)
  | place (ref : EdgeRef)

/-- The operation draws a child that the list has no link to. -/
def DisplayList.lacks (list : DisplayList) : DrawOp → Bool
  | .child i => list.children[i]?.isNone
  | _ => false

namespace Frame

/-- The links that are drawn right after an operation: at the receive point, those that are
projected to the node. -/
def received (f : Frame) (key : Key) (list : DisplayList) (op : DrawOp) (index : Nat) :
    List EdgeRef :=
  if list.receiveIndex = some index ∧ list.lacks op = false then f.projectedAt key else []

/-- All that is to be done in the walk of a node with content, in order. -/
def errands (f : Frame) (key : Key) (list : DisplayList) : List Errand :=
  let elevated := Sibling.byHeight (f.nodes.children key)
  let below := (Sibling.below elevated).map fun c => Errand.place c.ref
  let inOrder := list.ops.toList.zipIdx.flatMap fun (op, index) =>
    Errand.op op :: (f.received key list op index).map .place
  let above := (Sibling.above elevated).map fun c => Errand.place c.ref
  below ++ inOrder ++ above

end Frame

/-! ### Legs -/

/-- A leg of the walk of a node, with what is seen of the walk of a child that it goes on to, and
with what is entered in that. -/
inductive Leg where
  /-- An operation of the node's properties is handed out. -/
  | property (op : PropertyOp) (state : DisplayState)
  /-- A recorded operation is handed out that does not draw a child. -/
  | own (op : DrawOp) (list : DisplayList) (state : DisplayState)
  /-- The link of a child is not there. -/
  | missing (index : Nat)
  /-- A child is passed over, as its link is held back. -/
  | held (index : Nat) (edge : Edge) (state : DisplayState)
  | inPlace (index : Nat) (edge : Edge) (state : DisplayState) (seen : List Sight)
    (entries : List (Nat × String))
  | placed (ref : EdgeRef) (edge : Edge) (state : DisplayState) (seen : List Sight)
    (entries : List (Nat × String))

namespace Leg

/-- The errand that is done. -/
def errand? : Leg → Option Errand
  | property .. => none
  | own op .. => some (.op op)
  | missing i | held i .. | inPlace i .. => some (.op (.child i))
  | placed ref .. => some (.place ref)

/-- What is seen of the leg. -/
def sights (level : Nat) (key : Key) : Leg → List Sight
  | property op state => [.handed level key (.property op) state false]
  | own op list state => [.handed level key (.recorded op list) state false]
  | missing _ => []
  | held i edge state => [.handed level key (.child ⟨key, i⟩ edge) state true]
  | inPlace i edge state seen _ => .handed level key (.child ⟨key, i⟩ edge) state false :: seen
  | placed ref edge state seen _ => .handed level key (.child ref edge) state false :: seen

/-- What is entered in the record: the name of a recorded operation, and then what is entered in the
walk of a child. -/
def entries (level : Nat) : Leg → List (Nat × String)
  | property .. => []
  | own op .. => [(level, op.name)]
  | missing i | held i .. => [(level, (DrawOp.child i).name)]
  | inPlace i _ _ _ entries => (level, (DrawOp.child i).name) :: entries
  | placed _ _ _ _ entries => entries

/-- The child that is walked, with what is seen and entered in that walk. -/
def nested? : Leg → Option (Key × List Sight × List (Nat × String))
  | inPlace _ edge _ seen entries | placed _ edge _ seen entries =>
    some (edge.child, seen, entries)
  | _ => none

/-- The leg is one in the walk of a node with that content: its links lead where it goes. -/
def Fits (f : Frame) (list : DisplayList) : Leg → Prop
  | property .. => True
  | own op l _ => l = list ∧ op.child? = none
  | missing i => list.children[i]? = none
  | held i edge _ | inPlace i edge .. => list.children[i]? = some edge
  | placed ref edge .. => f.nodes.edge ref = .ok edge

end Leg

/-- What is seen of the walk of a node at a level, and what is entered in the record in it.  A node
with nothing to show, or whose bounds are rejected, enters nothing. -/
inductive Notes (f : Frame) : Nat → Key → List Sight → List (Nat × String) → Prop
  | blank {level : Nat} {key : Key} {node : Node} (hnode : f.nodes.get? key = some node)
    (hblank : node.shown? = none) : Notes f level key [.entered level key, .left level key] []
  | rejected {level : Nat} {key : Key} {node : Node} {state : DisplayState}
    {before after : List Leg} (hnode : f.nodes.get? key = some node) (hshown : node.shown?.isSome)
    (hrejected : node.isRejectedIn state)
    (hbefore : before.filterMap Leg.errand? = []) (hafter : after.filterMap Leg.errand? = []) :
    Notes f level key (.entered level key :: (before.flatMap (Leg.sights level key) ++
      .rejected level key state :: (after.flatMap (Leg.sights level key) ++ [.left level key]))) []
  | drawn {level : Nat} {key : Key} {node : Node} {list : DisplayList} {legs : List Leg}
    (hnode : f.nodes.get? key = some node) (hlist : node.shown? = some list)
    (herrands : legs.filterMap Leg.errand? = f.errands key list)
    (hfits : ∀ leg ∈ legs, leg.Fits f list)
    (hnested : ∀ leg ∈ legs, ∀ child seen entries, leg.nested? = some (child, seen, entries) →
      Notes f (level + 1) child seen entries) :
    Notes f level key
      (.entered level key :: (legs.flatMap (Leg.sights level key) ++ [.left level key]))
      (legs.flatMap (Leg.entries level))

/-! ### What is seen settles what is entered -/

namespace Sight

/-- The level of the node in whose walk something is seen. -/
def level : Sight → Nat
  | entered level _ | handed level .. | rejected level .. | left level _ => level

/-- Something is handed out by a node at a level, or seen further up. -/
def IsWithin (level : Nat) (x : Sight) : Prop :=
  level < x.level ∨ ∃ key op state held, x = handed level key op state held

/-- An operation of the properties of a node at a level is handed out. -/
def isPropertyAt (level : Nat) : Sight → Bool
  | handed l _ (.property _) _ _ => l == level
  | _ => false

variable {level : Nat} {key : Key} {x : Sight}

theorem IsWithin.level_le (h : x.IsWithin level) : level ≤ x.level := by
  obtain hlt | ⟨_, _, _, _, rfl⟩ := h
  · exact Nat.le_of_lt hlt
  · exact Nat.le_refl level

theorem not_isWithin_rejected {state : DisplayState} :
    ¬(rejected level key state).IsWithin level := by
  rintro (hlt | ⟨_, _, _, _, heq⟩)
  · exact Nat.lt_irrefl level hlt
  · cases heq

theorem not_isWithin_left : ¬(left level key).IsWithin level := by
  rintro (hlt | ⟨_, _, _, _, heq⟩)
  · exact Nat.lt_irrefl level hlt
  · cases heq

theorem isPropertyAt_of_lt (h : level < x.level) : x.isPropertyAt level = false := by
  cases x with
  | handed l key op state held =>
    cases op with
    | property op => exact beq_false_of_ne (Nat.ne_of_gt h)
    | _ => rfl
  | _ => rfl

end Sight

/-- Lists that go on from the first place of an element agree before it and after it. -/
theorem append_cons_cancel {a : α} {l l' rest rest' : List α} (hl : a ∉ l) (hl' : a ∉ l')
    (h : l ++ a :: rest = l' ++ a :: rest') : l = l' ∧ rest = rest' := by
  induction l generalizing l' with
  | nil =>
    cases l' with
    | nil => exact ⟨rfl, (List.cons.inj h).2⟩
    | cons b l' => exact absurd ((List.cons.inj h).1 ▸ List.mem_cons_self) hl'
  | cons b l ih =>
    cases l' with
    | nil => exact absurd ((List.cons.inj h).1 ▸ List.mem_cons_self) hl
    | cons b' l' =>
      obtain ⟨rfl, htail⟩ := List.cons.inj h
      obtain ⟨rfl, hrest⟩ := ih (fun hmem => hl (List.mem_cons_of_mem b hmem))
        (fun hmem => hl' (List.mem_cons_of_mem b hmem)) htail
      exact ⟨rfl, hrest⟩

namespace Leg

variable {f : Frame} {list : DisplayList} {level : Nat} {key : Key} {leg leg' : Leg}
  {legs legs' : List Leg} {x : Sight}

/-- What is seen of the children that the leg goes on to is seen above a level. -/
def NestsAbove (level : Nat) (leg : Leg) : Prop :=
  ∀ child seen entries, leg.nested? = some (child, seen, entries) → ∀ x ∈ seen, level < x.level

theorem NestsAbove.isWithin (h : leg.NestsAbove level) (hx : x ∈ leg.sights level key) :
    x.IsWithin level := by
  cases leg with
  | missing i => cases hx
  | property op state | own op list state | held i edge state =>
    obtain rfl := List.mem_singleton.mp hx
    exact .inr ⟨_, _, _, _, rfl⟩
  | inPlace i edge state seen entries | placed ref edge state seen entries =>
    rcases List.mem_cons.mp hx with rfl | hx
    · exact .inr ⟨_, _, _, _, rfl⟩
    · exact .inl (h _ _ _ rfl x hx)

/-- A leg with an errand hands out no operation of the node's properties, and a leg without one does
nothing else. -/
theorem NestsAbove.filter_sights (h : leg.NestsAbove level) :
    (leg.sights level key).filter (!·.isPropertyAt level) =
      if leg.errand?.isSome then leg.sights level key else [] := by
  cases leg with
  | property op state => simp [sights, errand?, Sight.isPropertyAt]
  | missing i | own op list state | held i edge state => rfl
  | inPlace i edge state seen entries | placed ref edge state seen entries =>
    refine List.filter_eq_self.mpr fun x hx => ?_
    rcases List.mem_cons.mp hx with rfl | hx
    · rfl
    · rw [Sight.isPropertyAt_of_lt (h _ _ _ rfl x hx)]
      rfl

theorem isWithin_of_mem (h : ∀ leg ∈ legs, leg.NestsAbove level)
    (hx : x ∈ legs.flatMap (sights level key)) : x.IsWithin level := by
  obtain ⟨leg, hleg, hx⟩ := List.mem_flatMap.mp hx
  exact (h leg hleg).isWithin hx

/-- The legs with errands are what is seen besides the operations of the node's properties. -/
theorem filter_flatMap_sights (h : ∀ leg ∈ legs, leg.NestsAbove level) :
    (legs.flatMap (sights level key)).filter (!·.isPropertyAt level) =
      (legs.filter (·.errand?.isSome)).flatMap (sights level key) := by
  induction legs with
  | nil => rfl
  | cons leg legs ih =>
    rw [List.forall_mem_cons] at h
    rw [List.flatMap_cons, List.filter_append, h.1.filter_sights, ih h.2, List.filter_cons]
    split <;> rfl

/-- Nothing is entered but in legs with errands. -/
theorem flatMap_entries_filter (level : Nat) (legs : List Leg) :
    (legs.filter (·.errand?.isSome)).flatMap (entries level) = legs.flatMap (entries level) := by
  induction legs with
  | nil => rfl
  | cons leg legs ih =>
    rw [List.flatMap_cons, ← ih]
    cases leg <;> rfl

theorem map_errand?_filter (legs : List Leg) :
    (legs.filter (·.errand?.isSome)).map errand? = (legs.filterMap errand?).map some := by
  induction legs with
  | nil => rfl
  | cons leg legs ih => cases herrand : leg.errand? <;> simp [herrand, ih]

/-- Legs without errands go on to no children. -/
theorem nestsAbove_of_idle (h : legs.filterMap errand? = []) :
    ∀ leg ∈ legs, leg.NestsAbove level := by
  intro leg hleg child seen entries hchild
  have hnone := List.filterMap_eq_nil_iff.mp h leg hleg
  cases leg with
  | property => cases hchild
  | _ => cases hnone

end Leg

namespace Notes

variable {f : Frame} {list : DisplayList} {level : Nat} {key : Key} {leg leg' : Leg}
  {legs legs' : List Leg} {seen seen' rest rest' : List Sight}
  {entries entries' : List (Nat × String)}

/-- All that is seen of a walk is seen at its level or further up. -/
theorem level_le (h : Notes f level key seen entries) : ∀ x ∈ seen, level ≤ x.level := by
  induction h with
  | blank => simp [Sight.level]
  | @rejected level key node state before after hnode hshown hrejected hbefore hafter =>
    have hidle {legs : List Leg} (hlegs : legs.filterMap Leg.errand? = []) :
        ∀ x ∈ legs.flatMap (Leg.sights level key), level ≤ x.level := fun x hx =>
      (Leg.isWithin_of_mem (Leg.nestsAbove_of_idle hlegs) hx).level_le
    simp only [List.forall_mem_cons, List.forall_mem_append, Sight.level, le_refl, true_and]
    exact ⟨hidle hbefore, hidle hafter, List.forall_mem_nil _⟩
  | @drawn level key node list legs hnode hlist herrands hfits hnested ih =>
    have hnests : ∀ leg ∈ legs, leg.NestsAbove level :=
      fun leg hleg child seen entries hchild x hx => ih leg hleg child seen entries hchild x hx
    simp only [List.forall_mem_cons, List.forall_mem_append, Sight.level, le_refl, true_and]
    exact ⟨fun x hx => (Leg.isWithin_of_mem hnests hx).level_le, List.forall_mem_nil _⟩

theorem nestsAbove (hnested : ∀ leg ∈ legs, ∀ child seen entries,
    leg.nested? = some (child, seen, entries) → Notes f (level + 1) child seen entries) :
    ∀ leg ∈ legs, leg.NestsAbove level := fun leg hleg child seen entries hchild =>
  (hnested leg hleg child seen entries hchild).level_le

/-- A node is left at the end of its walk and not before. -/
theorem exists_within (h : Notes f level key seen entries) : ∃ within,
    seen = .entered level key :: (within ++ [.left level key]) ∧ .left level key ∉ within := by
  cases h with
  | blank => exact ⟨[], rfl, List.not_mem_nil⟩
  | @rejected _ _ node state before after hnode hshown hrejected hbefore hafter =>
    have hidle {legs : List Leg} (hlegs : legs.filterMap Leg.errand? = []) :
        .left level key ∉ legs.flatMap (Leg.sights level key) := fun hmem =>
      Sight.not_isWithin_left (Leg.isWithin_of_mem (Leg.nestsAbove_of_idle hlegs) hmem)
    refine ⟨before.flatMap (Leg.sights level key) ++
      .rejected level key state :: after.flatMap (Leg.sights level key), by simp, ?_⟩
    simp [hidle hbefore, hidle hafter]
  | drawn hnode hlist herrands hfits hnested =>
    exact ⟨_, rfl, fun hmem =>
      Sight.not_isWithin_left (Leg.isWithin_of_mem (nestsAbove hnested) hmem)⟩

/-- Where a walk was seen to begin it is settled where it ends. -/
theorem append_cancel (h : Notes f level key seen entries)
    (h' : Notes f level key seen' entries') (hseen : seen ++ rest = seen' ++ rest') :
    seen = seen' ∧ rest = rest' := by
  obtain ⟨within, rfl, hwithin⟩ := h.exists_within
  obtain ⟨within', rfl, hwithin'⟩ := h'.exists_within
  have hlast : within ++ .left level key :: rest = within' ++ .left level key :: rest' := by
    simpa using hseen
  obtain ⟨rfl, rfl⟩ := append_cons_cancel hwithin hwithin' hlast
  exact ⟨rfl, rfl⟩

/-- Legs on the same errand that are seen to begin alike enter the same. -/
theorem leg_cancel (herrand : leg.errand? = leg'.errand?) (hsome : leg.errand?.isSome)
    (hfits : leg.Fits f list) (hfits' : leg'.Fits f list)
    (hnested : ∀ child seen entries, leg.nested? = some (child, seen, entries) →
      Notes f (level + 1) child seen entries ∧
        ∀ entries', Notes f (level + 1) child seen entries' → entries = entries')
    (hnested' : ∀ child seen entries, leg'.nested? = some (child, seen, entries) →
      Notes f (level + 1) child seen entries)
    (hseen : leg.sights level key ++ rest = leg'.sights level key ++ rest') :
    leg.entries level = leg'.entries level ∧ rest = rest' := by
  -- the walks of one child begin at one place, so that they end at one place as well
  have hwalk {edge : Edge} {seen seen' : List Sight} {entries entries' : List (Nat × String)}
      (hleg : leg.nested? = some (edge.child, seen, entries))
      (hleg' : leg'.nested? = some (edge.child, seen', entries'))
      (hseen : seen ++ rest = seen' ++ rest') : entries = entries' ∧ rest = rest' := by
    obtain ⟨hnotes, hunique⟩ := hnested _ _ _ hleg
    obtain ⟨rfl, rfl⟩ := hnotes.append_cancel (hnested' _ _ _ hleg') hseen
    exact ⟨hunique _ (hnested' _ _ _ hleg'), rfl⟩
  cases leg with
  | property op state => cases hsome
  | own op l state =>
    -- no other leg is on the errand of an operation that draws no child
    cases leg' <;> cases herrand
    case own => exact ⟨rfl, (List.cons.inj hseen).2⟩
    all_goals cases hfits.2
  | missing i =>
    cases leg' <;> cases herrand
    case missing.own.refl => cases hfits'.2
    case missing.missing.refl => exact ⟨rfl, hseen⟩
    all_goals cases hfits.symm.trans hfits'
  | held i edge state =>
    cases leg' <;> cases herrand
    case held.own.refl => cases hfits'.2
    case held.missing.refl => cases hfits.symm.trans hfits'
    case held.held.refl => exact ⟨rfl, (List.cons.inj hseen).2⟩
    case held.inPlace.refl => cases (List.cons.inj hseen).1
  | inPlace i edge state seen entries =>
    cases leg' <;> cases herrand
    case inPlace.own.refl => cases hfits'.2
    case inPlace.missing.refl => cases hfits.symm.trans hfits'
    case inPlace.held.refl => cases (List.cons.inj hseen).1
    case inPlace.inPlace.refl edge' state' seen' entries' =>
      obtain rfl : edge = edge' := Option.some.inj (hfits.symm.trans hfits')
      obtain ⟨rfl, hrest⟩ := hwalk rfl rfl (List.cons.inj hseen).2
      exact ⟨rfl, hrest⟩
  | placed ref edge state seen entries =>
    cases leg' <;> cases herrand
    case placed edge' state' seen' entries' =>
      obtain rfl : edge = edge' := Except.ok.inj (hfits.symm.trans hfits')
      exact hwalk rfl rfl (List.cons.inj hseen).2

/-- Legs that do the same errands and are seen to be alike enter the same, if each of them is on an
errand. -/
theorem legs_unique (herrands : legs.map Leg.errand? = legs'.map Leg.errand?)
    (hsome : ∀ leg ∈ legs, leg.errand?.isSome) (hfits : ∀ leg ∈ legs, leg.Fits f list)
    (hfits' : ∀ leg ∈ legs', leg.Fits f list)
    (hnested : ∀ leg ∈ legs, ∀ child seen entries, leg.nested? = some (child, seen, entries) →
      Notes f (level + 1) child seen entries ∧
        ∀ entries', Notes f (level + 1) child seen entries' → entries = entries')
    (hnested' : ∀ leg ∈ legs', ∀ child seen entries, leg.nested? = some (child, seen, entries) →
      Notes f (level + 1) child seen entries)
    (hseen : legs.flatMap (Leg.sights level key) = legs'.flatMap (Leg.sights level key)) :
    legs.flatMap (Leg.entries level) = legs'.flatMap (Leg.entries level) := by
  induction legs generalizing legs' with
  | nil =>
    obtain rfl := List.map_eq_nil_iff.mp herrands.symm
    rfl
  | cons leg legs ih =>
    cases legs' with
    | nil => cases herrands
    | cons leg' legs' =>
      rw [List.forall_mem_cons] at hsome hfits hfits' hnested hnested'
      obtain ⟨herrand, herrands⟩ := List.cons.inj herrands
      obtain ⟨hentries, hrest⟩ :=
        leg_cancel herrand hsome.1 hfits.1 hfits'.1 hnested.1 hnested'.1 hseen
      exact congrArg₂ (· ++ ·) hentries
        (ih herrands hsome.2 hfits.2 hfits'.2 hnested.2 hnested'.2 hrest)

/-- Where the bounds of a node are rejected this is seen, and only there. -/
theorem rejected_not_mem (key : Key) (state : DisplayState)
    (hnested : ∀ leg ∈ legs, ∀ child seen entries,
      leg.nested? = some (child, seen, entries) → Notes f (level + 1) child seen entries) :
    .rejected level key state ∉
      .entered level key :: (legs.flatMap (Leg.sights level key) ++ [.left level key]) := by
  have hwithin : .rejected level key state ∉ legs.flatMap (Leg.sights level key) := fun hmem =>
    Sight.not_isWithin_rejected (Leg.isWithin_of_mem (nestsAbove hnested) hmem)
  simpa using hwithin

/-- What is seen of a walk settles what is entered in it. -/
theorem unique (h : Notes f level key seen entries) (h' : Notes f level key seen entries') :
    entries = entries' := by
  generalize hseen : seen = seen' at h'
  induction h generalizing seen' entries' with
  | blank hnode hblank =>
    cases h' with
    | blank | rejected => rfl
    | drawn hnode' hlist =>
      obtain rfl := Option.some.inj (hnode.symm.trans hnode')
      cases hblank.symm.trans hlist
  | @rejected level key node state =>
    cases h' with
    | blank | rejected => rfl
    | drawn hnode' hlist herrands hfits hnested =>
      -- that the bounds are rejected is seen in the one walk and not in the other
      have hnot := rejected_not_mem key state hnested
      rw [← hseen] at hnot
      exact absurd (by simp) hnot
  | @drawn level key node list legs hnode hlist herrands hfits hnested ih =>
    cases h' with
    | blank hnode' hblank =>
      obtain rfl := Option.some.inj (hnode.symm.trans hnode')
      cases hblank.symm.trans hlist
    | @rejected _ _ _ state =>
      have hnot := rejected_not_mem key state hnested
      rw [hseen] at hnot
      exact absurd (by simp) hnot
    | @drawn _ _ node' list' legs' hnode' hlist' herrands' hfits' hnested' =>
      obtain rfl := Option.some.inj (hnode.symm.trans hnode')
      obtain rfl := Option.some.inj (hlist.symm.trans hlist')
      -- operations of the properties may stand anywhere between the errands, and are left out
      have hlegs := List.append_cancel_right (List.cons.inj hseen).2
      have hfilter := congrArg (List.filter (!·.isPropertyAt level)) hlegs
      rw [Leg.filter_flatMap_sights (nestsAbove hnested),
        Leg.filter_flatMap_sights (nestsAbove hnested')] at hfilter
      have herrands : (legs.filter (·.errand?.isSome)).map Leg.errand? =
          (legs'.filter (·.errand?.isSome)).map Leg.errand? := by
        rw [Leg.map_errand?_filter, Leg.map_errand?_filter, herrands, herrands']
      have hsome : ∀ leg ∈ legs.filter (·.errand?.isSome), leg.errand?.isSome := by
        intro leg hleg
        exact (List.mem_filter.mp hleg).2
      have hnested : ∀ leg ∈ legs.filter (·.errand?.isSome), ∀ child seen entries,
          leg.nested? = some (child, seen, entries) → Notes f (level + 1) child seen entries ∧
            ∀ entries', Notes f (level + 1) child seen entries' → entries = entries' := by
        intro leg hleg child seen entries hchild
        have hmem := List.mem_of_mem_filter hleg
        refine ⟨hnested leg hmem child seen entries hchild, fun entries' h' => ?_⟩
        exact ih leg hmem child seen entries hchild _ rfl h'
      rw [← Leg.flatMap_entries_filter, ← Leg.flatMap_entries_filter level legs']
      exact legs_unique herrands hsome (fun leg hleg => hfits leg (List.mem_of_mem_filter hleg))
        (fun leg hleg => hfits' leg (List.mem_of_mem_filter hleg)) hnested
        (fun leg hleg => hnested' leg (List.mem_of_mem_filter hleg)) hfilter

end Notes

/-- What is seen and entered between two stages of the walks of a frame is what goes with the walk
of a node. -/
def Frame.NotesBetween (f : Frame) (level : Nat) (key : Key) (s t : Stage (ω × List Sight)) :
    Prop :=
  ∃ seen entries, Notes f level key seen entries ∧ t.seen = s.seen ++ seen ∧
    t.recent = s.recent.writeAll entries

theorem RecentOps.writeAll_append (r : RecentOps) (entries entries' : List (Nat × String)) :
    r.writeAll (entries ++ entries') = (r.writeAll entries).writeAll entries' :=
  List.foldl_append

/-! ### Handlers -/

/-- The part of a walk leaves the record alone. -/
def Walk.SparesRecord (m : Walk ω α) : Prop :=
  ∀ s, m.Ends s (fun _ t => t.recent = s.recent) fun _ _ => True

/-- A handler that leaves the record of recent operations to the walk. -/
structure Handler.SparesRecord (h : Handler ω) : Prop where
  accept : ∀ level key op offset clip s, (h.accept level key op offset clip s).recent = s.recent
  enter : ∀ level key node, (h.enter level key node).SparesRecord
  reject : ∀ level key node, (h.reject level key node).SparesRecord
  leave : ∀ level key node, (h.leave level key node).SparesRecord

theorem Walk.SparesRecord.log (e : Event) : (Walk.log e : Walk ω Unit).SparesRecord :=
  fun _ => Walk.Ends.log rfl fun _ => trivial

theorem Handler.immediate_sparesRecord : Handler.immediate.SparesRecord where
  accept _ _ _ _ _ _ := rfl
  enter _ _ _ _ := rfl
  reject _ _ _ _ := rfl
  leave level _ node _ :=
    Walk.Ends.onCanvas_bind (Walk.SparesRecord.log (.nodeReplayed level node.name) _)

theorem Handler.deferred_sparesRecord : Handler.deferred.SparesRecord where
  accept _ _ op _ _ _ := by
    cases op with
    | child ref edge => rfl
    | recorded op list => simp only [Handler.deferred]; split_ifs <;> rfl
    | property op => simp only [Handler.deferred]; split_ifs <;> rfl
  enter _ _ _ _ := rfl
  reject _ _ _ _ := rfl
  leave _ _ _ _ := rfl

/-- What spares the record also does so unseen. -/
theorem Walk.SparesRecord.unseen {m : Walk ω Unit} (hm : m.SparesRecord)
    (s : Stage (ω × List Sight)) : m.unseen.Ends s
      (fun _ t => t.seen = s.seen ∧ t.recent = s.recent) fun _ _ => True :=
  Walk.Ends.unseen ((hm s.unwatched).mono (fun _ _ ht => ⟨rfl, ht⟩) fun _ _ _ => trivial)

namespace Handler.SparesRecord

variable {h : Handler ω} {s : Stage (ω × List Sight)}

/-- Entering a node is seen and not entered in the record. -/
theorem enter_ends (hspares : h.SparesRecord) (level : Nat) (key : Key) (node : Node) :
    (h.watched.enter level key node).Ends s
      (fun _ t => t.seen = s.seen ++ [.entered level key] ∧ t.recent = s.recent)
      fun _ _ => True :=
  Walk.Ends.modify_bind ((hspares.enter level key node).unseen _)

theorem leave_ends (hspares : h.SparesRecord) (level : Nat) (key : Key) (node : Node) :
    (h.watched.leave level key node).Ends s
      (fun _ t => t.seen = s.seen ++ [.left level key] ∧ t.recent = s.recent)
      fun _ _ => True := by
  refine ((hspares.leave level key node).unseen s).bind fun _ t ⟨hseen, hrecent⟩ => ?_
  refine Walk.Ends.modify ⟨?_, hrecent⟩
  show t.seen ++ [_] = _
  rw [hseen]

end Handler.SparesRecord

/-! ### Visits -/

namespace Visit

/-- The watched walk of a node with content whose handler spares the record, given that what is
nested in the node enters what goes with it. -/
structure Recounts (v : Visit (ω × List Sight)) (h : Handler ω) : Prop where
  neutral : h.Neutral
  spares : h.SparesRecord
  handler : v.handler = h.watched
  node : v.frame.nodes.get? v.key = some v.node
  list : v.node.content = some v.list
  descend : ∀ child s, (v.descend (v.level + 1) child).Ends s
    (fun _ t => v.frame.NotesBetween (v.level + 1) child s t) fun _ _ => True

/-- In between the errands are done, and nothing else but to hand out operations of the node's
properties. -/
def Does (v : Visit (ω × List Sight)) (errands : List Errand) (s t : Stage (ω × List Sight)) :
    Prop :=
  ∃ legs : List Leg, legs.filterMap Leg.errand? = errands ∧
    (∀ leg ∈ legs, leg.Fits v.frame v.list) ∧
    (∀ leg ∈ legs, ∀ child seen entries, leg.nested? = some (child, seen, entries) →
      Notes v.frame (v.level + 1) child seen entries) ∧
    t.seen = s.seen ++ legs.flatMap (Leg.sights v.level v.key) ∧
    t.recent = s.recent.writeAll (legs.flatMap (Leg.entries v.level))

/-- The part of the walk does the errands, if it comes to its end. -/
def Performs (v : Visit (ω × List Sight)) (m : Walk (ω × List Sight) α) (errands : List Errand) :
    Prop :=
  ∀ s, m.Ends s (fun _ t => v.Does errands s t) fun _ _ => True

/-- In between all errands of the node are done, or its bounds are rejected and there are none. -/
inductive Finishes (v : Visit (ω × List Sight)) (s t : Stage (ω × List Sight)) : Prop
  | drawn (hdone : v.Does (v.frame.errands v.key v.list) s t)
  | rejected {s₁ s₂ : Stage (ω × List Sight)} {state : DisplayState} (hbefore : v.Does [] s s₁)
    (hrejected : v.node.isRejectedIn state)
    (hseen : s₂.seen = s₁.seen ++ [.rejected v.level v.key state])
    (hrecent : s₂.recent = s₁.recent) (hafter : v.Does [] s₂ t)

variable {v : Visit (ω × List Sight)} {h : Handler ω} {s t u : Stage (ω × List Sight)}
  {errands errands' : List Errand} {ref : EdgeRef} {edge : Edge}

theorem Does.idle (hseen : t.seen = s.seen) (hrecent : t.recent = s.recent) : v.Does [] s t :=
  ⟨[], rfl, fun _ hleg => (nomatch hleg), fun _ hleg => (nomatch hleg), by simp [hseen], hrecent⟩

theorem Does.leg (leg : Leg) (hfits : leg.Fits v.frame v.list)
    (hnested : ∀ child seen entries, leg.nested? = some (child, seen, entries) →
      Notes v.frame (v.level + 1) child seen entries)
    (hseen : t.seen = s.seen ++ leg.sights v.level v.key)
    (hrecent : t.recent = s.recent.writeAll (leg.entries v.level)) :
    v.Does leg.errand?.toList s t := by
  refine ⟨[leg], ?_, ?_, ?_, by simpa using hseen, by simpa using hrecent⟩
  · cases hleg : leg.errand? <;> simp [hleg]
  · simpa using hfits
  · simpa using hnested

/-- A leg that goes on to no child. -/
theorem Does.plain (leg : Leg) (hfits : leg.Fits v.frame v.list) (hplain : leg.nested? = none)
    (hseen : t.seen = s.seen ++ leg.sights v.level v.key)
    (hrecent : t.recent = s.recent.writeAll (leg.entries v.level)) :
    v.Does leg.errand?.toList s t := by
  refine .leg leg hfits (fun child seen entries hnested => ?_) hseen hrecent
  rw [hplain] at hnested
  cases hnested

theorem Does.trans (h : v.Does errands s t) (h' : v.Does errands' t u) :
    v.Does (errands ++ errands') s u := by
  obtain ⟨legs, rfl, hfits, hnested, hseen, hrecent⟩ := h
  obtain ⟨legs', rfl, hfits', hnested', hseen', hrecent'⟩ := h'
  refine ⟨legs ++ legs', List.filterMap_append, fun leg hleg => ?_, fun leg hleg => ?_, ?_, ?_⟩
  · exact (List.mem_append.mp hleg).elim (hfits leg) (hfits' leg)
  · exact (List.mem_append.mp hleg).elim (hnested leg) (hnested' leg)
  · rw [hseen', hseen, List.flatMap_append, List.append_assoc]
  · rw [hrecent', hrecent, List.flatMap_append, RecentOps.writeAll_append]

theorem Finishes.before (h : v.Finishes t u) (hidle : v.Does [] s t) : v.Finishes s u := by
  cases h with
  | drawn hdone => exact .drawn (hidle.trans hdone)
  | rejected hbefore hrejected hseen hrecent hafter =>
    exact .rejected (hidle.trans hbefore) hrejected hseen hrecent hafter

theorem Finishes.after (h : v.Finishes s t) (hidle : v.Does [] t u) : v.Finishes s u := by
  cases h with
  | drawn hdone => exact .drawn (List.append_nil (v.frame.errands v.key v.list) ▸ hdone.trans hidle)
  | rejected hbefore hrejected hseen hrecent hafter =>
    exact .rejected hbefore hrejected hseen hrecent (hafter.trans hidle)

/-- Where no errand is done nothing is entered. -/
theorem entries_eq_nil {legs : List Leg} (h : legs.filterMap Leg.errand? = []) (level : Nat) :
    legs.flatMap (Leg.entries level) = [] := by
  rw [List.flatMap_eq_nil_iff]
  intro leg hleg
  have hnone := List.filterMap_eq_nil_iff.mp h leg hleg
  cases leg with
  | property => rfl
  | _ => cases hnone

/-- What is seen and entered between entering and leaving the node goes with a walk of it. -/
theorem Finishes.notes (h : v.Finishes s t) (hnode : v.frame.nodes.get? v.key = some v.node)
    (hlist : v.node.shown? = some v.list) : ∃ seen entries, t.seen = s.seen ++ seen ∧
      t.recent = s.recent.writeAll entries ∧ Notes v.frame v.level v.key
        (.entered v.level v.key :: (seen ++ [.left v.level v.key])) entries := by
  cases h with
  | drawn hdone =>
    obtain ⟨legs, herrands, hfits, hnested, hseen, hrecent⟩ := hdone
    exact ⟨_, _, hseen, hrecent, .drawn hnode hlist herrands hfits hnested⟩
  | @rejected s₁ s₂ state hbefore hrejected hseen hrecent hafter =>
    obtain ⟨before, hbefore, -, -, hseen₁, hrecent₁⟩ := hbefore
    obtain ⟨after, hafter, -, -, hseen₂, hrecent₂⟩ := hafter
    rw [entries_eq_nil hbefore] at hrecent₁
    rw [entries_eq_nil hafter, hrecent, hrecent₁] at hrecent₂
    refine ⟨before.flatMap (Leg.sights v.level v.key) ++ .rejected v.level v.key state ::
      after.flatMap (Leg.sights v.level v.key), [], ?_, hrecent₂, ?_⟩
    · rw [hseen₂, hseen, hseen₁]
      simp
    · have hnotes : Notes v.frame v.level v.key _ [] :=
        .rejected hnode (Option.isSome_iff_exists.mpr ⟨_, hlist⟩) hrejected hbefore hafter
      simpa using hnotes

/-! #### Sequences -/

theorem Performs.bind {m : Walk (ω × List Sight) α} {k : α → Walk (ω × List Sight) β}
    (hm : v.Performs m errands) (hk : ∀ a, v.Performs (k a) errands') :
    v.Performs (m >>= k) (errands ++ errands') := fun s =>
  (hm s).bind fun a t ht => (hk a t).imp fun _ _ hu => ht.trans hu

theorem Performs.pure (a : α) : v.Performs (pure a : Walk (ω × List Sight) α) [] :=
  fun _ => Walk.Ends.pure (.idle rfl rfl)

theorem Performs.log (e : Event) : v.Performs (Walk.log e) [] :=
  fun _ => Walk.Ends.log (.idle rfl rfl) fun _ => trivial

theorem Performs.onCanvas (f : Canvas → Canvas) : v.Performs (Walk.onCanvas f) [] :=
  fun _ => Walk.Ends.onCanvas (.idle rfl rfl)

theorem Performs.saveCount : v.Performs Walk.saveCount [] := fun _ => .idle rfl rfl

theorem Performs.report (e : Event) : v.Performs (v.report e) [] := fun _ =>
  (v.report_ends fun _ => trivial).imp fun _ _ ⟨_, ht⟩ => ht ▸ .idle rfl rfl

theorem Performs.innerLevel_bind {k : Nat → Walk (ω × List Sight) α}
    (hk : v.Performs (k (v.level + 1)) errands) : v.Performs (v.innerLevel >>= k) errands := by
  unfold Visit.innerLevel
  split
  · exact hk
  · exact fun _ => Walk.Ends.throw trivial

theorem Performs.forM {γ : Type} {k : γ → Walk (ω × List Sight) Unit} {g : γ → List Errand}
    {l : List γ} (hk : ∀ x ∈ l, v.Performs (k x) (g x)) : v.Performs (l.forM k) (l.flatMap g) := by
  induction l with
  | nil => exact .pure ()
  | cons x l ih =>
    exact (hk x List.mem_cons_self).bind fun _ => ih fun y hy => hk y (List.mem_cons_of_mem _ hy)

namespace Recounts

variable (hv : v.Recounts h)

include hv

/-! #### Handing out -/

/-- What is handed out is seen and not entered. -/
theorem accept (op : Operation) (offset : Int) : (v.accept op offset).Ends s
    (fun _ t => t.held = s.held ∧ t.recent = s.recent ∧ t.seen = s.seen ++
      [.handed v.level v.key op s.canvas.displayState (op.isHeld s.held)]) fun _ _ => True := by
  unfold Visit.accept
  rw [hv.handler]
  exact Walk.Ends.modify ⟨hv.neutral.held _ _ _ _ _ _, hv.spares.accept _ _ _ _ _ _, rfl⟩

theorem give (op : PropertyOp) : v.Performs (v.give op) [] := by
  intro s
  refine (hv.accept (.property op) 0).imp ?_
  rintro _ t ⟨-, hrecent, hseen⟩
  exact Does.plain (.property op s.canvas.displayState) trivial rfl hseen hrecent

/-- A child is seen to be held back, or is walked. -/
theorem offer_child (offset : Int) : (v.offer (.child ref edge) offset).Ends s
    (fun _ t => ∃ state,
      (s.held.contains ref = true ∧ t.recent = s.recent ∧
        t.seen = s.seen ++ [.handed v.level v.key (.child ref edge) state true]) ∨
      ∃ seen entries, s.held.contains ref = false ∧
        Notes v.frame (v.level + 1) edge.child seen entries ∧
        t.recent = s.recent.writeAll entries ∧
        t.seen = s.seen ++ .handed v.level v.key (.child ref edge) state false :: seen)
    fun _ _ => True := by
  unfold Visit.offer
  refine (hv.accept (.child ref edge) offset).bind fun _ t ⟨hheld, hrecent, hseen⟩ =>
    Walk.Ends.get_bind ?_
  rw [hheld]
  cases hcontains : s.held.contains ref with
  | true =>
    rw [Operation.isHeld, hcontains] at hseen
    exact Walk.Ends.pure ⟨_, .inl ⟨rfl, hrecent, hseen⟩⟩
  | false =>
    rw [Operation.isHeld, hcontains] at hseen
    rw [if_neg Bool.false_ne_true]
    unfold Visit.innerLevel
    split
    · refine (hv.descend edge.child t).imp fun _ u ⟨seen, entries, hnotes, hseen', hrecent'⟩ => ?_
      refine ⟨s.canvas.displayState, .inr ⟨seen, entries, rfl, hnotes, hrecent ▸ hrecent', ?_⟩⟩
      rw [hseen', hseen, List.append_assoc]
      rfl
    · exact Walk.Ends.throw trivial

/-! #### Children out of place -/

/-- A child that is placed is let go first, so that it is walked. -/
theorem place (hedge : v.frame.nodes.edge ref = .ok edge) (transform : Matrix) :
    v.Performs (v.place ref edge transform) [.place ref] := by
  intro s
  unfold Visit.place
  refine Walk.Ends.saveCount_bind (Walk.Ends.onCanvas_bind (Walk.Ends.modify_bind
    (Walk.Ends.saveCount_bind ((hv.offer_child _).bind ?_))))
  rintro _ t ⟨state, ⟨hheld, -⟩ | ⟨seen, entries, -, hnotes, hrecent, hseen⟩⟩
  · -- what was let go is not held back
    simp [Stage.letGo] at hheld
  · refine Walk.Ends.modify_bind (Walk.Ends.onCanvas ?_)
    refine .leg (.placed ref edge state seen entries) hedge (fun child seen entries hnested => ?_)
      hseen hrecent
    cases hnested
    exact hnotes

theorem clipped (mode : ClipMode) {body : Walk (ω × List Sight) Unit}
    (hbody : v.Performs body errands) : v.Performs (v.clipped mode body) errands := by
  have hgiven (count : Nat) := (hv.give (.clipRect v.properties.bounds mode)).bind fun _ =>
    hbody.bind fun _ => hv.give (.restoreTo count)
  unfold Visit.clipped
  simpa using Performs.saveCount.bind fun count =>
    (Performs.onCanvas (·.save .matrixClip)).bind fun _ => hgiven count

theorem placeSibling {c : Sibling} (hc : c ∈ Sibling.byHeight (v.frame.nodes.children v.key)) :
    v.Performs (v.placeSibling c) [.place c.ref] :=
  hv.place (NodeStore.mem_children.mp (Sibling.mem_byHeight.mp hc).1).2.1 _

theorem take {turn : Sibling.Turn}
    (hturn : ∀ c, turn = .content c → c ∈ Sibling.byHeight (v.frame.nodes.children v.key)) :
    v.Performs (v.take turn) (turn.content?.toList.flatMap fun c => [.place c.ref]) := by
  cases turn with
  | shadow c =>
    unfold Visit.take
    dsimp only
    split
    · exact hv.give _
    · exact .pure ()
  | content c => exact hv.placeSibling (hturn c rfl)

theorem drawBelow : v.Performs (v.drawBelow (Sibling.byHeight (v.frame.nodes.children v.key)))
    ((Sibling.below (Sibling.byHeight (v.frame.nodes.children v.key))).map fun c =>
      .place c.ref) := by
  unfold Visit.drawBelow
  split
  · rw [List.map_eq_flatMap]
    exact hv.clipped _ (.forM fun c hc =>
      hv.placeSibling ((List.takeWhile_prefix _).subset hc))
  · next hreaches =>
    rw [Sibling.below_eq_nil (Bool.not_eq_true _ ▸ hreaches)]
    exact .pure ()

theorem drawAbove : v.Performs (v.drawAbove (Sibling.byHeight (v.frame.nodes.children v.key)))
    ((Sibling.above (Sibling.byHeight (v.frame.nodes.children v.key))).map fun c =>
      .place c.ref) := by
  unfold Visit.drawAbove
  split
  · rw [List.map_eq_flatMap, ← Sibling.flatMap_schedule]
    refine hv.clipped _ (.forM fun turn hturn => hv.take fun c hc => ?_)
    exact (List.dropWhile_suffix _).subset (Sibling.mem_of_content_mem_schedule (hc ▸ hturn))
  · next hreaches =>
    rw [Sibling.above_eq_nil (Sibling.pairwise_byHeight _) (Bool.not_eq_true _ ▸ hreaches)]
    exact .pure ()

theorem placeProjected (ref : EdgeRef) : v.Performs (v.placeProjected ref) [.place ref] := by
  unfold Visit.placeProjected
  cases hedge : v.frame.nodes.edge ref with
  | error e => exact fun _ => Walk.Ends.throw trivial
  | ok edge => exact hv.place hedge _

theorem drawProjected : v.Performs v.drawProjected ((v.frame.projectedAt v.key).map .place) := by
  unfold Visit.drawProjected
  refine hv.clipped _ ?_
  rw [List.map_eq_flatMap]
  exact (Performs.log _).bind fun _ => .forM fun ref _ => hv.placeProjected ref

/-! #### Content -/

theorem receive {op : DrawOp} (hop : v.list.lacks op = false) (index : Nat) :
    v.Performs (v.receive index) ((v.frame.received v.key v.list op index).map .place) := by
  unfold Visit.receive Frame.received
  by_cases hindex : v.list.receiveIndex = some index
  · rw [if_pos (⟨hindex, hop⟩ : _ ∧ v.list.lacks op = false)]
    by_cases hprojected : v.frame.projectedAt v.key = []
    · rw [if_neg fun hboth => hboth.2 hprojected, hprojected]
      exact .pure ()
    · rw [if_pos ⟨hindex, hprojected⟩]
      exact hv.drawProjected
  · rw [if_neg fun hboth => hindex hboth.1, if_neg fun hboth => hindex hboth.1]
    exact .pure ()

/-- A recorded operation is entered before it is handed out, and before a child is walked. -/
theorem playOp (offset : Int) (op : DrawOp) (index : Nat) : v.Performs (v.playOp offset op index)
    (.op op :: (v.frame.received v.key v.list op index).map .place) := by
  intro s
  unfold Visit.playOp
  refine (Performs.report _ s).bind fun _ s₁ hidle => Walk.Ends.modify_bind ?_
  -- after the operation comes what is received there
  have hrest {m : Walk (ω × List Sight) Unit} (hlacks : v.list.lacks op = false)
      (hm : m.Ends (s₁.logOp v.level op.name) (fun _ t => v.Does [.op op] s₁ t) fun _ _ => True) :
      (m >>= fun _ => v.receive index).Ends (s₁.logOp v.level op.name) (fun _ t => v.Does
        (.op op :: (v.frame.received v.key v.list op index).map .place) s t) fun _ _ => True :=
    hm.bind fun _ t hdone => (hv.receive hlacks index t).imp fun _ u hreceived =>
      hidle.trans (hdone.trans hreceived)
  have hown (hop : op.child? = none) (hlacks : v.list.lacks op = false) :=
    hrest hlacks (m := v.offer (.recorded op v.list) offset) <| by
      refine (hv.accept (.recorded op v.list) offset).bind ?_
      rintro _ t ⟨-, hrecent, hseen⟩
      exact Walk.Ends.pure
        (.plain (.own op v.list s₁.canvas.displayState) ⟨rfl, hop⟩ rfl hseen hrecent)
  cases op with
  | child i =>
    simp only [Visit.operation]
    cases hlink : v.list.children[i]? with
    | none =>
      -- without a link the receive point is passed over as well
      have hnone : v.frame.received v.key v.list (.child i) index = [] :=
        if_neg fun hboth => by simp [DisplayList.lacks, hlink] at hboth
      rw [hnone]
      have hseen : s₁.seen = s₁.seen ++ [] := (List.append_nil _).symm
      exact Walk.Ends.log (hidle.trans (.plain (.missing i) hlink rfl hseen rfl)) fun _ => trivial
    | some edge =>
      refine hrest (by simp [DisplayList.lacks, hlink]) ((hv.offer_child offset).imp ?_)
      rintro _ t ⟨state, ⟨-, hrecent, hseen⟩ | ⟨seen, entries, -, hnotes, hrecent, hseen⟩⟩
      · exact .plain (.held i edge state) hlink rfl hseen hrecent
      · refine .leg (.inPlace i edge state seen entries) hlink
          (fun child seen entries hnested => ?_) hseen hrecent
        cases hnested
        exact hnotes
  | _ => exact hown rfl rfl

theorem drawContent : v.Performs v.drawContent (v.frame.errands v.key v.list) := by
  intro s
  unfold Visit.drawContent
  cases hsiblings : v.frame.nodes.siblings v.key v.list with
  | error e => exact Walk.Ends.throw trivial
  | ok siblings =>
    obtain rfl := NodeStore.eq_children_of_siblings hv.node hv.list hsiblings
    refine Walk.Ends.lift_bind rfl (Walk.Ends.modify_bind ?_)
    dsimp only
    rw [Sibling.elevated_eq (NodeStore.pairwise_children v.frame.nodes v.key)]
    have hall := hv.drawBelow.bind fun _ => Performs.saveCount.bind fun count =>
      (Performs.forM fun x (_ : x ∈ v.list.ops.toList.zipIdx) =>
        hv.playOp ((count : Int) - 1) x.1 x.2).bind fun _ => hv.drawAbove
    refine (hall { s with held := _ }).imp fun _ t hdone => ?_
    -- sorting the children is neither seen nor entered
    have hsorted (held : EdgeSet) : v.Does [] s { s with held } := .idle rfl rfl
    simpa [Frame.errands] using (hsorted _).trans hdone

/-! #### Properties -/

theorem applyAlpha (inner : Nat) : v.Performs (v.applyAlpha inner) [] := by
  unfold Visit.applyAlpha
  dsimp only
  split_ifs
  · exact (Performs.onCanvas _).bind fun _ => .pure _
  · exact (Performs.onCanvas _).bind fun _ => .pure _
  · exact (Performs.log _).bind fun _ => (hv.give _).bind fun _ => .pure _
  · exact (Performs.log _).bind fun _ => (hv.give _).bind fun _ => .pure _
  · exact .pure _

theorem applyProperties : v.Performs v.applyProperties [] := by
  unfold Visit.applyProperties
  refine Performs.innerLevel_bind ((Performs.onCanvas _).bind fun _ =>
    (hv.applyAlpha _).bind fun clips => ?_)
  dsimp only
  split <;> split
  · exact (hv.give _).bind fun _ => hv.give _
  · exact (hv.give _).bind fun _ => .pure _
  · exact hv.give _
  · exact .pure _

/-! #### The whole visit -/

theorem drawUnlessRejected : v.drawUnlessRejected.Ends s (fun _ t => v.Finishes s t)
    fun _ _ => True := by
  unfold Visit.drawUnlessRejected Visit.isRejected
  refine Walk.Ends.get_bind ?_
  split
  · next hrejected =>
    have hrejected : v.node.isRejectedIn s.canvas.displayState = true := hrejected
    refine (v.report_ends fun _ => trivial).bind fun _ s₁ ⟨_, hs₁⟩ => ?_
    subst hs₁
    rw [hv.handler]
    refine Walk.Ends.modify_bind (((hv.spares.reject v.level v.key v.node).unseen _).imp ?_)
    rintro _ t ⟨hseen, hrecent⟩
    exact .rejected (.idle rfl rfl) hrejected hseen hrecent (.idle rfl rfl)
  · exact (hv.drawContent s).imp fun _ _ hdone => .drawn hdone

/-- The walk of the node, once it was entered. -/
theorem run : v.run.Ends s (fun _ t => v.Finishes s t) fun _ _ => True := by
  unfold Visit.run
  refine Walk.Ends.get_bind ((Performs.report _ s).bind fun _ s₀ h₀ => ?_)
  refine Walk.Ends.saveCount_bind ((hv.give _ s₀).bind fun _ s₁ h₁ => ?_)
  refine (Performs.log (v := v) _ s₁).bind fun _ s₂ h₂ => ?_
  refine (hv.applyProperties s₂).bind fun _ s₃ h₃ => ?_
  refine hv.drawUnlessRejected.bind fun _ s₄ hfinishes => ?_
  refine (Performs.log (v := v) _ s₄).bind fun _ s₅ h₅ => (hv.give _ s₅).bind fun _ s₆ h₆ => ?_
  refine (Performs.onCanvas (v := v) _ s₆).imp fun _ t h₇ => ?_
  exact (hfinishes.before (h₀.trans (h₁.trans (h₂.trans h₃)))).after (h₅.trans (h₆.trans h₇))

end Recounts

end Visit

/-! ### Walks -/

/-- A walk writes the entries that go with what is seen of it, if it comes to its end. -/
theorem visit_writes {h : Handler ω} (hn : h.Neutral) (hspares : h.SparesRecord) (f : Frame)
    (levels level : Nat) (key : Key) (s : Stage (ω × List Sight)) :
    (visit h.watched f levels level key).Ends s (fun _ t => f.NotesBetween level key s t)
      fun _ _ => True := by
  induction levels generalizing level key s with
  | zero =>
    -- all levels are used up, and the walk does not come to its end
    exact Walk.Ends.throw trivial
  | succ levels ih =>
    unfold visit
    cases hnode : f.nodes.node key with
    | error e => exact Walk.Ends.throw trivial
    | ok node =>
      have hnode := NodeStore.node_eq_ok_iff.mp hnode
      refine Walk.Ends.lift_bind rfl ?_
      refine (hspares.enter_ends level key node).bind fun _ s₁ ⟨hseen₁, hrecent₁⟩ => ?_
      -- what is seen and entered from here on is followed by leaving the node
      have hleave (seen : List Sight) (entries : List (Nat × String))
          (s₂ : Stage (ω × List Sight)) (hseen₂ : s₂.seen = s₁.seen ++ seen)
          (hrecent₂ : s₂.recent = s₁.recent.writeAll entries)
          (hnotes : Notes f level key
            (.entered level key :: (seen ++ [.left level key])) entries) :
          (h.watched.leave level key node).Ends s₂ (fun _ t => f.NotesBetween level key s t)
            fun _ _ => True := by
        refine (hspares.leave_ends level key node).imp fun _ t ⟨hseen₃, hrecent₃⟩ => ?_
        refine ⟨_, _, hnotes, ?_, ?_⟩
        · rw [hseen₃, hseen₂, hseen₁]
          simp
        · rw [hrecent₃, hrecent₂, hrecent₁]
      dsimp only
      cases hlist : node.shown? with
      | none =>
        refine Walk.Ends.bind (Walk.Ends.log ⟨rfl, rfl⟩ fun _ => trivial)
          fun _ s₂ (hidle : s₂.seen = s₁.seen ∧ s₂.recent = s₁.recent) => ?_
        refine hleave [] [] s₂ ?_ hidle.2 (.blank hnode hlist)
        rw [hidle.1, List.append_nil]
      | some list =>
        have hv : Visit.Recounts ⟨h.watched, f, visit h.watched f levels, level, key, node, list⟩
            h := ⟨hn, hspares, rfl, hnode, Node.content_of_shown? hlist, fun child s =>
              ih (level + 1) child s⟩
        refine hv.run.bind fun _ s₂ hfinishes => ?_
        obtain ⟨seen, entries, hseen₂, hrecent₂, hnotes⟩ := hfinishes.notes hnode hlist
        exact hleave seen entries s₂ hseen₂ hrecent₂ hnotes

namespace World

variable {w w' : World} {h : Handler ω} {start : ω} {canvas : Canvas} {level : Nat} {key : Key}
  {result : Canvas × ω}

/-- A walk of a node in a world writes the entries that go with what is seen of it. -/
theorem walk_writes (hn : h.Neutral) (hspares : h.SparesRecord)
    (hwalk : walk h start canvas level key w = .ok result w') : ∃ entries,
      Notes w.frame level key (w.sights h start canvas level key) entries ∧
      w'.shared.recent = w.shared.recent.writeAll entries := by
  have hnotes := visit_writes hn hspares w.frame (levelCount - level) level key
    (w.stage canvas (start, []))
  unfold Walk.Ends at hnotes
  rw [walk_eq hn] at hwalk
  unfold sights
  cases hvisit : visit h.watched w.frame (levelCount - level) level key
      (w.stage canvas (start, [])) with
  | ok a s =>
    rw [hvisit] at hnotes hwalk
    obtain ⟨seen, entries, hnotes, hseen, hrecent⟩ := hnotes
    cases hwalk
    obtain rfl : s.seen = seen := hseen
    exact ⟨entries, hnotes, hrecent⟩
  | error e s =>
    rw [hvisit] at hwalk
    simp only [fail_apply] at hwalk
    cases hwalk

end World

end RetainedScene
