import RetainedScene.Proofs.Walk.Fading

/-!
# The clips that children are drawn under

The operations of a node are handed out one after another, each in the state that those before it
have left in force.  Between them come the passes over children out of place.  A pass begins in the
state in force there and returns to it, and hands out every child in one state, up to the transform
(`Snapshot.placed`): the alpha is the one in force, and the clip is

* for elevated children what the clip in force and the bounds of the node have in common;
* for what is projected to the node its bounds alone, whatever the clip in force is.

`Frame.Plays` says so of the parts of a node, and `Clips` of every node of a walk (`visit_clipped`).
What is projected to a node stays within the clip in force only as far as the bounds of the node do
(`Frame.Passes.shows_iff`): it escapes the outline that the node is clipped to, the clips that the
content has recorded before the receive point, the clips around the node, and the viewport.
-/

namespace RetainedScene

open Relation

variable {ω : Type}

/-! ### States -/

/-- The point is inside the rectangle or on its edges. -/
def Rect.contains (r : Rect) (p : Point) : Bool :=
  r.lower.x ≤ p.x && p.x ≤ r.upper.x && (r.lower.y ≤ p.y && p.y ≤ r.upper.y)

/-- The clip in force, if there is one, leaves the point. -/
def Snapshot.shows (s : Snapshot) (p : Point) : Bool := s.clip.all (·.contains p)

/-- The state that a child is handed out in by a pass that begins in a state, under a clip to the
bounds of the node. -/
def Snapshot.placed (s : Snapshot) (bounds : Rect) (mode : ClipMode) (m : Matrix) : Snapshot where
  transform := s.transform * m
  clip := some (s.clipTo bounds mode)
  alpha := s.alpha

/-! ### Parts -/

/-- The link that a part hands out, with the state in force at that moment. -/
def Part.link? : Part → Option (EdgeRef × Snapshot)
  | own (.child ref _) state _ | descent ref _ state _ => some (ref, state.snapshot)
  | own .. => none

namespace Frame

/-- A part of a pass that begins in a state, by the clip that the pass is under. -/
inductive Passes (f : Frame) (key : Key) (bounds : Rect) (s : Snapshot) : ClipMode → Part → Prop
  | shadow {mode : ClipMode} (shadow : Shadow) (state : DisplayState) :
    Passes f key bounds s mode (.own (.property (.shadow shadow)) state false)
  | sibling {part : Part} {c : Sibling} (hc : c ∈ Sibling.byHeight (f.nodes.children key))
    (hpart : part.link? = some (c.ref, s.placed bounds .intersect c.edge.transform)) :
    Passes f key bounds s .intersect part
  | projected {part : Part} {ref : EdgeRef} (href : ref ∈ f.projectedAt key)
    (hpart : part.link? = some (ref, s.placed bounds .replace (f.compositingOf ref))) :
    Passes f key bounds s .replace part

/-- What is projected to a node stays within the clip in force just if the bounds of the node do. -/
theorem Passes.shows_iff {f : Frame} {key : Key} {bounds : Rect} {s s' : Snapshot} {part : Part}
    {ref : EdgeRef} (h : f.Passes key bounds s .replace part)
    (hpart : part.link? = some (ref, s')) :
    (∀ p, s'.shows p → s.shows p) ↔
      ∀ p, (bounds.mapBounds s.transform).contains p → s.shows p := by
  cases h with
  | shadow shadow state => cases hpart
  | projected href hplaced =>
    obtain rfl := (Prod.mk.inj (Option.some.inj (hplaced.symm.trans hpart))).2
    rfl

/-- Parts that the content of a node hands out, from one state in force to another. -/
inductive Plays (f : Frame) (key : Key) (bounds : Rect) : Snapshot → List Part → Snapshot → Prop
  | nil (s : Snapshot) : Plays f key bounds s [] s
  | own {op : DrawOp} {list : DisplayList} {state : DisplayState} {held : Bool} {s t : Snapshot}
    (hstate : state.snapshot = s) (hkept : op.changesState = false → t = s) :
    Plays f key bounds s [.own (.recorded op list) state held] t
  /-- A link in its place. -/
  | link {part : Part} {i : Nat} {s : Snapshot} (hpart : part.link? = some (⟨key, i⟩, s)) :
    Plays f key bounds s [part] s
  /-- A pass returns to the state that it begins in. -/
  | pass {mode : ClipMode} {parts : List Part} {state state' : DisplayState} {count : Int}
    {s : Snapshot} (hstate : state.snapshot = s)
    (hparts : ∀ part ∈ parts, f.Passes key bounds s mode part) :
    Plays f key bounds s (.own (.property (.clipRect bounds mode)) state false ::
      (parts ++ [.own (.property (.restoreTo count)) state' false])) s
  | append {parts parts' : List Part} {s t u : Snapshot} (h : Plays f key bounds s parts t)
    (h' : Plays f key bounds t parts' u) : Plays f key bounds s (parts ++ parts') u

end Frame

/-- What is seen of the walk of a node at a level, in which every node hands out its links in the
states that it should. -/
inductive Clips (f : Frame) : Nat → Key → List Sight → Prop
  | blank {level : Nat} {key : Key} {node : Node} (hnode : f.nodes.get? key = some node)
    (hblank : node.shown? = none) : Clips f level key [.entered level key, .left level key]
  | rejected {level : Nat} {key : Key} {node : Node} {state : DisplayState}
    {before after : List Part} (hnode : f.nodes.get? key = some node) (hshown : node.shown?.isSome)
    (hrejected : node.isRejectedIn state)
    (hbefore : ∀ part ∈ before, part.isProperty) (hafter : ∀ part ∈ after, part.isProperty) :
    Clips f level key (.entered level key :: (before.flatMap (Part.sights level key) ++
      .rejected level key state :: (after.flatMap (Part.sights level key) ++ [.left level key])))
  | drawn {level : Nat} {key : Key} {node : Node} {before parts after : List Part}
    {start last : Snapshot} (hnode : f.nodes.get? key = some node)
    (hshown : node.shown?.isSome) (hbefore : ∀ part ∈ before, part.isProperty)
    (hplays : f.Plays key node.properties.bounds start parts last)
    (hdescent : ∀ ref edge state log, .descent ref edge state log ∈ parts →
      Clips f (level + 1) edge.child log)
    (hafter : ∀ part ∈ after, part.isProperty) :
    Clips f level key (.entered level key ::
      ((before ++ (parts ++ after)).flatMap (Part.sights level key) ++ [.left level key]))

/-! ### Visits -/

/-- A walk of a node was seen, and has left the states of the canvas as they were. -/
structure Clipped (f : Frame) (level : Nat) (key : Key) (s t : Stage (ω × List Sight)) : Prop where
  stack : t.canvas.stack = s.canvas.stack
  log : ∃ log, t.seen = s.seen ++ log ∧ Clips f level key log

namespace Visit

variable {v : Visit (ω × List Sight)} {h : Handler ω} {s t u : Stage (ω × List Sight)}
  {ref : EdgeRef} {edge : Edge} {mode : ClipMode} {offset : Int} {ops : List DrawOp}
  {parts parts' : List Part} {snapshot : Snapshot}

/-- What was seen in between are the parts, with what was descended into. -/
structure Sees (v : Visit (ω × List Sight)) (parts : List Part) (s t : Stage (ω × List Sight)) :
    Prop where
  seen : t.seen = s.seen ++ parts.flatMap (Part.sights v.level v.key)
  descent : ∀ ref edge state log, .descent ref edge state log ∈ parts →
    Clips v.frame (v.level + 1) edge.child log

/-- In between parts of a pass were handed out that begins in a state, and the canvas has the states
that it had before. -/
def PassesOn (v : Visit (ω × List Sight)) (mode : ClipMode) (snapshot : Snapshot)
    (s t : Stage (ω × List Sight)) : Prop :=
  t.canvas.stack = s.canvas.stack ∧ ∃ parts, v.Sees parts s t ∧
    ∀ part ∈ parts, v.frame.Passes v.key v.properties.bounds snapshot mode part

/-- In between the content has handed out parts. -/
def PlaysOn (v : Visit (ω × List Sight)) (s t : Stage (ω × List Sight)) : Prop :=
  ∃ parts, v.Sees parts s t ∧
    v.frame.Plays v.key v.properties.bounds s.canvas.top parts t.canvas.top

theorem Sees.of_seen_eq (hseen : t.seen = s.seen) : v.Sees [] s t where
  seen := hseen.trans (List.append_nil _).symm
  descent _ _ _ _ hmem := nomatch hmem

theorem Sees.trans (h : v.Sees parts s t) (h' : v.Sees parts' t u) :
    v.Sees (parts ++ parts') s u where
  seen := by rw [h'.seen, h.seen, List.flatMap_append, List.append_assoc]
  descent ref edge state log hmem :=
    (List.mem_append.mp hmem).elim (h.descent ref edge state log) (h'.descent ref edge state log)

theorem PassesOn.trans (h : v.PassesOn mode snapshot s t) (h' : v.PassesOn mode snapshot t u) :
    v.PassesOn mode snapshot s u := by
  obtain ⟨hstack, parts, hsees, hparts⟩ := h
  obtain ⟨hstack', parts', hsees', hparts'⟩ := h'
  refine ⟨hstack'.trans hstack, _, hsees.trans hsees', fun part hpart => ?_⟩
  exact (List.mem_append.mp hpart).elim (hparts part) (hparts' part)

/-- Nothing was handed out. -/
theorem PlaysOn.of_eq (hseen : t.seen = s.seen) (hcanvas : t.canvas = s.canvas) : v.PlaysOn s t :=
  ⟨[], .of_seen_eq hseen, hcanvas ▸ .nil _⟩

theorem PlaysOn.of_idles (h : s.Idles t) : v.PlaysOn s t :=
  .of_eq (congrArg Prod.snd h.gathered) h.canvas

theorem PlaysOn.trans (h : v.PlaysOn s t) (h' : v.PlaysOn t u) : v.PlaysOn s u := by
  obtain ⟨parts, hsees, hplays⟩ := h
  obtain ⟨parts', hsees', hplays'⟩ := h'
  exact ⟨parts ++ parts', hsees.trans hsees', hplays.append hplays'⟩

section

variable (hc : h.Carries) (hv : v.handler = h.watched)

include hv

theorem sees_accepted (op : Operation) (offset : Int) (s : Stage (ω × List Sight)) :
    v.Sees [.own op s.canvas.displayState (op.isHeld s.held)] s (v.accepted op offset s) where
  seen := seen_accepted hv op offset s
  descent _ _ _ _ hmem := by cases List.mem_singleton.mp hmem

include hc

theorem stack_accepted (op : Operation) (offset : Int) (s : Stage (ω × List Sight)) :
    (v.accepted op offset s).canvas.stack = (s.canvas.issue offset op).stack := by
  unfold accepted
  rw [hv]
  exact hc.accept _ _ _ _ _ _

variable {below : Key → Stage (ω × List Sight) → Stage (ω × List Sight) → Prop}
  (hbelow : ∀ key s t, below key s t → Clipped v.frame (v.level + 1) key s t)

include hbelow

/-- A link is handed out in the state in force, whether or not it is descended into. -/
theorem Offers.sees (hoffers : v.Offers below ref edge offset s t) :
    t.canvas.stack = s.canvas.stack ∧ ∃ part, part.link? = some (ref, s.canvas.top) ∧
      v.Sees [part] s t := by
  cases hoffers with
  | held hheld =>
    exact ⟨stack_accepted hc hv _ offset s, _, rfl, sees_accepted hv (.child ref edge) offset s⟩
  | descent hfree hdescent =>
    have hclipped := hbelow _ _ _ hdescent
    obtain ⟨log, hseen, hclips⟩ := hclipped.log
    refine ⟨hclipped.stack.trans (stack_accepted hc hv _ offset s),
      .descent ref edge s.canvas.displayState log, rfl, ?_, fun ref' edge' state' log' hmem => ?_⟩
    · rw [hseen, seen_accepted hv, Operation.isHeld, hfree, List.append_assoc]
      simp [Part.sights]
    · cases List.mem_singleton.mp hmem
      exact hclips

/-- What is placed in a pass is handed out within the clip that the pass has set. -/
theorem Turns.passesOn (htop : s.canvas.top =
      { snapshot with clip := some (snapshot.clipTo v.properties.bounds mode) })
    (hturn : v.Turns below mode s t) : v.PassesOn mode snapshot s t := by
  cases hturn with
  | idle hidle =>
    refine ⟨congrArg Canvas.stack hidle.canvas, [],
      .of_seen_eq (congrArg Prod.snd hidle.gathered), ?_⟩
    simp
  | shadow shadow s =>
    refine ⟨stack_accepted hc hv _ 0 s, _, sees_accepted hv _ 0 s, fun part hpart => ?_⟩
    rw [List.mem_singleton.mp hpart]
    exact .shadow shadow _
  | @placed ref edge m offset s t hplacing hoffers =>
    obtain ⟨hstack, part, hpart, hsees⟩ := hoffers.sees hc hv hbelow
    have hover : s.canvas.stack.IsOver (s.canvas.transform * m) t.canvas.stack :=
      hstack ▸ Canvas.isOver_concat (c := s.canvas.save .matrix) (.save s.canvas.stack) m
    have hplaced : part.link? = some (ref, snapshot.placed v.properties.bounds mode m) := by
      have hstate : ((s.canvas.save .matrix).concat m).top =
          { s.canvas.top with transform := s.canvas.top.transform * m } := rfl
      rw [hpart]
      show some (ref, ((s.canvas.save .matrix).concat m).top) = _
      rw [hstate, htop]
      rfl
    refine ⟨hover.saved.restoreTo, [part], ⟨hsees.seen, hsees.descent⟩, fun part' hpart' => ?_⟩
    rw [List.mem_singleton.mp hpart']
    cases hplacing with
    | sibling hc => exact .sibling hc hplaced
    | projected href _ => exact .projected href hplaced

/-- A pass leaves the state in force as it was. -/
theorem playsOn_pass (hturns : ReflTransGen (v.Turns below mode)
      (v.accepted (.property (.clipRect v.properties.bounds mode)) 0
        (s.onCanvas (·.save .matrixClip))) t) :
    v.PlaysOn s (v.accepted (.property (.restoreTo s.canvas.saveCount)) 0 t) := by
  have hclip := sees_accepted hv (.property (.clipRect v.properties.bounds mode)) 0
    (s.onCanvas (·.save .matrixClip))
  have hstack := stack_accepted hc hv (.property (.clipRect v.properties.bounds mode)) 0
    (s.onCanvas (·.save .matrixClip))
  generalize v.accepted (.property (.clipRect v.properties.bounds mode)) 0
    (s.onCanvas (·.save .matrixClip)) = begun at hturns hclip hstack
  have htop : begun.canvas.top =
      { s.canvas.top with clip := some (s.canvas.top.clipTo v.properties.bounds mode) } :=
    congrArg SaveStack.top hstack
  have hpasses : v.PassesOn mode s.canvas.top begun t := by
    induction hturns with
    | refl => exact ⟨rfl, [], .of_seen_eq rfl, by simp⟩
    | tail _ hturn ih =>
      refine ih.trans (hturn.passesOn hc hv hbelow ?_)
      rw [← htop]
      exact congrArg SaveStack.top ih.1
  obtain ⟨hkept, parts, hsees, hparts⟩ := hpasses
  -- the state from before the pass is saved all through it
  have hover : s.canvas.stack.IsOver s.canvas.transform begun.canvas.stack := by
    rw [hstack]
    exact Canvas.isOver_issueProperty (c := s.canvas.save .matrixClip) (.save s.canvas.stack)
      (fun _ => PropertyOp.noConfusion) 0
  have hback : (v.accepted (.property (.restoreTo s.canvas.saveCount)) 0 t).canvas.stack =
      s.canvas.stack := by
    rw [stack_accepted hc hv]
    show t.canvas.stack.restoreTo (0 + s.canvas.stack.saveCount) = s.canvas.stack
    rw [Int.zero_add, hkept]
    exact hover.saved.restoreTo
  have hlast : (v.accepted (.property (.restoreTo s.canvas.saveCount)) 0 t).canvas.top =
      s.canvas.top := congrArg SaveStack.top hback
  have hsaved : v.Sees [] s (s.onCanvas (·.save .matrixClip)) := .of_seen_eq rfl
  have hrestore := sees_accepted hv (.property (.restoreTo s.canvas.saveCount)) 0 t
  refine ⟨_, hsaved.trans (hclip.trans (hsees.trans hrestore)), ?_⟩
  rw [hlast]
  exact .pass rfl hparts

theorem Course.playsOn (hcourse : v.Course below offset ops s t) : v.PlaysOn s t := by
  induction hcourse with
  | idle hidle => exact .of_idles hidle
  | @own op hop s =>
    refine ⟨_, sees_accepted hv _ offset s, .own rfl fun hkept => ?_⟩
    have hkept : (Operation.recorded op v.list).changesState = false := hkept
    have hissue : (s.canvas.issue offset (.recorded op v.list)).stack = s.canvas.stack :=
      Canvas.stack_issue_of_not_changesState hkept offset s.canvas
    exact congrArg SaveStack.top ((stack_accepted hc hv _ offset s).trans hissue)
  | @link i edge s t hedge hoffers =>
    obtain ⟨hstack, part, hpart, hsees⟩ := hoffers.sees hc hv hbelow
    have htop : t.canvas.top = s.canvas.top := congrArg SaveStack.top hstack
    refine ⟨[part], hsees, ?_⟩
    rw [htop]
    exact .link hpart
  | missing hidle => exact .of_idles hidle
  | pass hturns => exact playsOn_pass hc hv hbelow hturns
  | trans _ _ ih ih' => exact ih.trans ih'

/-- Between its properties and its end the node is rejected, or its content is handed out. -/
theorem Inside.playsOn (hinside : v.Inside below s t) :
    v.PlaysOn s t ∨ v.node.isRejectedIn s.canvas.displayState = true ∧
      t.seen = s.seen ++ [.rejected v.level v.key s.canvas.displayState] := by
  cases hinside with
  | rejected hidle hrejected hreject =>
    exact .inr ⟨hrejected, seen_of_rejected hv hidle hreject⟩
  | drawn hbefore hcontent =>
    have hsorted : v.PlaysOn s
        { s with held := Sibling.holdElevated (v.frame.nodes.children v.key) s.held } :=
      .of_eq rfl rfl
    have hstart := hsorted.trans ((hbefore 0).playsOn hc hv hbelow)
    exact .inl (hstart.trans (hcontent.playsOn hc hv hbelow))

/-- What is seen of the walk of a node between entering and leaving it. -/
theorem Runs.clips (hnode : v.frame.nodes.get? v.key = some v.node)
    (hlist : v.node.shown? = some v.list) (hruns : v.Runs below s t) :
    ∃ log, t.seen = s.seen ++ log ∧ Clips v.frame v.level v.key
      (.entered v.level v.key :: (log ++ [.left v.level v.key])) := by
  cases hruns with
  | @run s₀ s₁ s₂ s₃ hstart hopens hinside hend =>
    have hshown : v.node.shown?.isSome := Option.isSome_iff_exists.mpr ⟨_, hlist⟩
    obtain ⟨before, after, hbefore, hafter, hseen⟩ :=
      hopens.exists_around hv hstart hend s.canvas.saveCount
    rcases hinside.playsOn hc hv hbelow with ⟨parts, hsees, hplays⟩ | ⟨hrejected, hseen₂⟩
    · have hclips : Clips v.frame v.level v.key _ :=
        .drawn hnode hshown hbefore hplays hsees.descent hafter
      exact ⟨_, hseen _ hsees.seen, by simpa using hclips⟩
    · have hclips : Clips v.frame v.level v.key _ :=
        .rejected hnode hshown hrejected hbefore hafter
      exact ⟨_, hseen _ hseen₂, by simpa using hclips⟩

end

end Visit

/-! ### Walks -/

/-- A walk of recorded contents hands out every child out of place under the clip of its pass: what
is projected to a node under the bounds of the node alone. -/
theorem visit_clipped {h : Handler ω} (hn : h.Neutral) (hc : h.Carries) {f : Frame}
    (hrecorded : f.nodes.AllRecorded) {levels level : Nat} {key : Key}
    {s t : Stage (ω × List Sight)} (hvisit : visit h.watched f levels level key s = .ok () t) :
    Clipped f level key s t := by
  refine visit_induct hn.watched (fun levels level key s t hvisit hwalked => ?_) hvisit
  refine ⟨((visit_places hn hc hrecorded levels level key s).of_eq_ok hvisit).1, ?_⟩
  cases hwalked with
  | @blank _ _ node _ s₁ s₂ _ hnode hblank henter hidle hleave =>
    obtain ⟨-, hseen₁⟩ := (hc.enter_ends level key node s).of_eq_ok henter
    obtain ⟨-, hseen⟩ := (hc.leave_ends level key node s₂).of_eq_ok hleave
    have hseen₂ : s₂.seen = s₁.seen := congrArg Prod.snd hidle.gathered
    refine ⟨_, ?_, .blank hnode hblank⟩
    rw [hseen, hseen₂, hseen₁, List.append_assoc]
    rfl
  | @shown v _ s₁ s₂ _ hhandler hframe hnode hlist henter hruns hleave =>
    subst hframe
    obtain ⟨-, hseen₁⟩ := (hc.enter_ends v.level v.key v.node s).of_eq_ok henter
    obtain ⟨-, hseen⟩ := (hc.leave_ends v.level v.key v.node s₂).of_eq_ok hleave
    obtain ⟨log, hseen₂, hclips⟩ :=
      hruns.clips hc hhandler (fun _ _ _ hbelow => hbelow.2) hnode hlist
    refine ⟨_, ?_, hclips⟩
    rw [hseen, hseen₂, hseen₁]
    simp

end RetainedScene
