import RetainedScene.Proofs.Scene.Checks
import RetainedScene.Proofs.Walk.Clips
import RetainedScene.Proofs.Walk.Keeping
import RetainedScene.Proofs.Walk.Runs

/-!
# What the passes hand out

The pass below zero hands out the draws of its children in their order, the pass from zero on their
shadows and draws run by run, each pass between a clip to the node's bounds and a restore, and
nothing at all if it is left out (`Visit.emits_drawBelow`, `Visit.emits_drawAbove`).  Every child is
descended into in its turn, whatever was held back before (`Visit.Yields`).  A pass can only end
early where it descends into a child, and what it has handed out until then is what comes before
(`Visit.Breaks`).

The handler may be any that leaves alone which links are held back.
-/

namespace RetainedScene

variable {ω : Type}

/-- The operation that the part hands out. -/
def Part.op : Part → Operation
  | own op _ _ => op
  | descent ref edge _ _ => .child ref edge

namespace Sibling

/-- The operation that draws a child. -/
def drawOp (c : Sibling) : Operation := .child c.ref c.edge

/-- The shadow of a child, if it casts one. -/
def shadowOp? (c : Sibling) : Option Operation := c.shadow?.map fun s => .property (.shadow s)

/-- The operations of a run: the shadows that its children cast, and then their draws. -/
def runOps (run : List Sibling) : List Operation := run.filterMap shadowOp? ++ run.map drawOp

/-- The operations of a turn. -/
def Turn.ops : Turn → List Operation
  | .shadow c => c.shadowOp?.toList
  | .content c => [c.drawOp]

theorem flatMap_ops_runTurns (run : List Sibling) :
    (runTurns run).flatMap Turn.ops = runOps run := by
  rw [runTurns, runOps, List.flatMap_append, List.flatMap_map, List.flatMap_map,
    List.filterMap_eq_flatMap_toList, List.map_eq_flatMap]
  rfl

/-- The operations of a schedule, run by run. -/
theorem flatMap_ops_schedule (cs : List Sibling) :
    (schedule [] 0 cs).flatMap Turn.ops = (runs cs).flatMap runOps := by
  rw [schedule_eq_runs, List.flatMap_assoc]
  exact List.flatMap_congr fun run _ => flatMap_ops_runTurns run

end Sibling

namespace Visit

/-- The walk of a node with content, under watch. -/
def watching (h : Handler ω) (f : Frame) (levels level : Nat) (key : Key) (node : Node)
    (list : DisplayList) : Visit (ω × List Sight) :=
  ⟨h.watched, f, visit h.watched f levels, level, key, node, list⟩

/-- If the part draws a child, the child is descended into, and what is seen of it is seen of a walk
of its node a level further in. -/
def Descends (v : Visit (ω × List Sight)) : Part → Prop
  | .own op _ _ => op.isChild = false
  | .descent _ edge _ log => ∃ s t, v.descend (v.level + 1) edge.child s = .ok () t ∧
      t.seen = s.seen ++ log

/-- In between the operations are handed out one after another, and each child among them is
descended into. -/
def Yields (v : Visit (ω × List Sight)) (ops : List Operation) (before after : List Sight) : Prop :=
  ∃ parts : List Part, after = before ++ parts.flatMap (Part.sights v.level v.key) ∧
    parts.map Part.op = ops ∧ ∀ part ∈ parts, v.Descends part

/-- A walk that was to hand out the operations has ended in an error at one of the children: no
level was left for it, or its own walk has ended in the error.  The operations before the child were
handed out, and so was the child. -/
def Breaks (v : Visit (ω × List Sight)) (ops : List Operation) (before : List Sight) (e : Fatal)
    (t : Stage (ω × List Sight)) : Prop :=
  ∃ done ref edge rest reached state, ops = done ++ .child ref edge :: rest ∧
    v.Yields done before reached ∧
    ((e = .overflow ∧ levelCount ≤ v.level + 1 ∧
        t.seen = reached ++ [.handed v.level v.key (.child ref edge) state false]) ∨
      ∃ s log, v.descend (v.level + 1) edge.child s = .error e t ∧ t.seen = s.seen ++ log ∧
        s.seen = reached ++ [.handed v.level v.key (.child ref edge) state false])

/-- The part of a walk hands out the operations, or ends at a child among them. -/
structure Emits (v : Visit (ω × List Sight)) (m : Walk (ω × List Sight) Unit)
    (ops : List Operation) (s : Stage (ω × List Sight)) : Prop where
  ends : m.Ends s (fun _ t => v.Yields ops s.seen t.seen) fun e t => v.Breaks ops s.seen e t

/-- The operations of a pass that begins in a stage, none if the pass is left out. -/
def passOps (v : Visit ω) (s : Stage ω) (reached : Bool) (ops : List Operation) : List Operation :=
  if reached then .property (.clipRect v.properties.bounds .intersect) ::
    (ops ++ [.property (.restoreTo s.canvas.saveCount)])
  else []

/-! ### Sequences -/

variable {v : Visit (ω × List Sight)} {ops ops' : List Operation} {seen seen' seen'' : List Sight}
  {s : Stage (ω × List Sight)}

theorem Yields.nil (v : Visit (ω × List Sight)) (seen : List Sight) : v.Yields [] seen seen :=
  ⟨[], (List.append_nil seen).symm, rfl, fun _ h => nomatch h⟩

theorem Yields.trans (h : v.Yields ops seen seen') (h' : v.Yields ops' seen' seen'') :
    v.Yields (ops ++ ops') seen seen'' := by
  obtain ⟨parts, rfl, rfl, hparts⟩ := h
  obtain ⟨parts', rfl, rfl, hparts'⟩ := h'
  refine ⟨parts ++ parts', by simp, List.map_append, fun part hpart => ?_⟩
  exact (List.mem_append.mp hpart).elim (hparts part) (hparts' part)

/-- What was to come after the error does not matter. -/
theorem Breaks.append {e : Fatal} (h : v.Breaks ops seen e s) (ops' : List Operation) :
    v.Breaks (ops ++ ops') seen e s := by
  obtain ⟨done, ref, edge, rest, reached, state, rfl, h⟩ := h
  exact ⟨done, ref, edge, rest ++ ops', reached, state, by simp, h⟩

theorem Breaks.of_yields {e : Fatal} (h : v.Yields ops seen seen') (h' : v.Breaks ops' seen' e s) :
    v.Breaks (ops ++ ops') seen e s := by
  obtain ⟨done, ref, edge, rest, reached, state, rfl, hyields, h'⟩ := h'
  exact ⟨ops ++ done, ref, edge, rest, reached, state, by simp, h.trans hyields, h'⟩

theorem Emits.bind {m : Walk (ω × List Sight) Unit} {k : Unit → Walk (ω × List Sight) Unit}
    (h : v.Emits m ops s) (hk : ∀ t, v.Emits (k ()) ops' t) :
    v.Emits (m >>= k) (ops ++ ops') s where
  ends := by
    refine Walk.Ends.bind (h.ends.mono (fun _ _ h => h) fun _ _ hbreaks => hbreaks.append ops')
      fun _ t hyields => ?_
    exact (hk t).ends.mono (fun _ _ h => hyields.trans h) fun _ _ h => .of_yields hyields h

theorem Emits.pure (s : Stage (ω × List Sight)) : v.Emits (pure ()) [] s := ⟨.nil v s.seen⟩

/-- What is done for each element of a list. -/
theorem Emits.forM {γ : Type} {l : List γ} {k : γ → Walk (ω × List Sight) Unit}
    {op : γ → List Operation} (hk : ∀ x s, v.Emits (k x) (op x) s) (s : Stage (ω × List Sight)) :
    v.Emits (l.forM k) (l.flatMap op) s := by
  induction l generalizing s with
  | nil => exact .pure s
  | cons x l ih => exact (hk x s).bind fun t => ih t

/-! ### Handing out -/

section

variable {h : Handler ω} (hheld : ∀ level key op offset clip s,
  (h.accept level key op offset clip s).held = s.held) (hv : v.handler = h.watched)
  (hdescend : ∀ key, (v.descend (v.level + 1) key).Keeps fun s t => s.seen <+: t.seen)

include hv

theorem emits_give (op : PropertyOp) (s : Stage (ω × List Sight)) :
    v.Emits (v.give op) [.property op] s := by
  refine ⟨Walk.Ends.modify ⟨[.own (.property op) s.canvas.displayState false],
    seen_accepted hv (.property op) 0 s, rfl, fun part hpart => ?_⟩⟩
  obtain rfl := List.mem_singleton.mp hpart
  exact rfl

include hheld hdescend

/-- A child that is not held back is handed out and descended into. -/
theorem emits_offer {ref : EdgeRef} {edge : Edge} (hfree : s.held.contains ref = false)
    (offset : Int) : v.Emits (v.offer (.child ref edge) offset) [.child ref edge] s := by
  have hseen : (v.accepted (.child ref edge) offset s).seen =
      s.seen ++ [.handed v.level v.key (.child ref edge) s.canvas.displayState false] := by
    rw [seen_accepted hv, Operation.isHeld, hfree]
  have hheld : (v.accepted (.child ref edge) offset s).held = s.held := by
    unfold accepted
    rw [hv]
    exact hheld _ _ _ _ _ _
  unfold Visit.offer
  refine ⟨Walk.Ends.modify_bind (Walk.Ends.get_bind ?_)⟩
  show Walk.Ends (if (v.accepted (.child ref edge) offset s).held.contains ref = true then _ else _)
    (v.accepted (.child ref edge) offset s) _ _
  rw [hheld, hfree, if_neg Bool.false_ne_true]
  unfold innerLevel
  split
  · have hkeeps := hdescend edge.child (v.accepted (.child ref edge) offset s)
    show Walk.Ends (v.descend (v.level + 1) edge.child) (v.accepted (.child ref edge) offset s) _ _
    unfold Walk.Ends at hkeeps ⊢
    cases hm : v.descend (v.level + 1) edge.child (v.accepted (.child ref edge) offset s) with
    | ok a t =>
      rw [hm] at hkeeps
      obtain ⟨log, hlog⟩ := hkeeps
      refine ⟨[.descent ref edge s.canvas.displayState log], ?_, rfl, fun part hpart => ?_⟩
      · rw [← hlog, hseen, List.append_assoc]
        simp [Part.sights]
      · obtain rfl := List.mem_singleton.mp hpart
        exact ⟨_, t, hm, hlog.symm⟩
    | error e t =>
      rw [hm] at hkeeps
      obtain ⟨log, hlog⟩ := hkeeps
      exact ⟨[], ref, edge, [], s.seen, s.canvas.displayState, rfl, .nil v s.seen,
        .inr ⟨_, log, hm, hlog.symm, hseen⟩⟩
  · next hlevel =>
    exact Walk.Ends.throw ⟨[], ref, edge, [], s.seen, s.canvas.displayState, rfl, .nil v s.seen,
      .inl ⟨rfl, Nat.le_of_not_lt hlevel, hseen⟩⟩

/-- A child that is placed is let go for its draw. -/
theorem emits_place (ref : EdgeRef) (edge : Edge) (transform : Matrix)
    (s : Stage (ω × List Sight)) :
    v.Emits (v.place ref edge transform) [.child ref edge] s := by
  refine ⟨Walk.Ends.saveCount_bind (Walk.Ends.onCanvas_bind (Walk.Ends.modify_bind
    (Walk.Ends.saveCount_bind (Emits.ends ?_))))⟩
  have hfree (s : Stage (ω × List Sight)) : (s.letGo ref).held.contains ref = false := by
    simp [Stage.letGo]
  exact (emits_offer hheld hv hdescend (hfree _) _).bind fun _ =>
    ⟨Walk.Ends.modify_bind (Walk.Ends.onCanvas (.nil v _))⟩

/-- The turns of a pass, each as it comes. -/
theorem emits_take (turn : Sibling.Turn) (s : Stage (ω × List Sight)) :
    v.Emits (v.take turn) turn.ops s := by
  cases turn with
  | shadow c =>
    simp only [take, Sibling.Turn.ops, Sibling.shadowOp?]
    cases c.shadow? with
    | none => exact .pure s
    | some shadow => exact emits_give hv _ s
  | content c => exact emits_place hheld hv hdescend c.ref c.edge c.edge.transform s

omit hheld hdescend in
/-- What is drawn under a clip to the bounds comes between the clip and a restore. -/
theorem emits_clipped {body : Walk (ω × List Sight) Unit} (hbody : ∀ s, v.Emits body ops s)
    (s : Stage (ω × List Sight)) :
    v.Emits (v.clipped .intersect body) (v.passOps s true ops) s := by
  refine ⟨Walk.Ends.saveCount_bind (Walk.Ends.onCanvas_bind (Emits.ends ?_))⟩
  refine (emits_give hv (.clipRect v.properties.bounds .intersect) _).bind fun t => ?_
  exact (hbody t).bind fun t => emits_give hv _ t

theorem emits_drawBelow (sorted : List Sibling) (s : Stage (ω × List Sight)) :
    v.Emits (v.drawBelow sorted) (v.passOps s (Sibling.reachesBelow sorted)
      ((Sibling.below sorted).map Sibling.drawOp)) s := by
  unfold drawBelow
  split
  · next hreaches =>
    rw [hreaches, List.map_eq_flatMap]
    exact emits_clipped hv (Emits.forM fun c s => emits_place hheld hv hdescend _ _ _ s) s
  · next hreaches =>
    rw [Bool.not_eq_true] at hreaches
    rw [hreaches]
    exact .pure s

theorem emits_drawAbove (sorted : List Sibling) (s : Stage (ω × List Sight)) :
    v.Emits (v.drawAbove sorted) (v.passOps s (Sibling.reachesAbove sorted)
      ((Sibling.runs (Sibling.above sorted)).flatMap Sibling.runOps)) s := by
  unfold drawAbove
  split
  · next hreaches =>
    rw [hreaches, ← Sibling.flatMap_ops_schedule]
    exact emits_clipped hv (Emits.forM fun turn s => emits_take hheld hv hdescend turn s) s
  · next hreaches =>
    rw [Bool.not_eq_true] at hreaches
    rw [hreaches]
    exact .pure s

end

/-! ### Walks -/

/-- What is seen of a walk is only added to. -/
theorem visit_adds_seen (h : Handler ω) (f : Frame) (levels level : Nat) (key : Key) :
    (visit h.watched f levels level key).Keeps fun s t => s.seen <+: t.seen := by
  have hsees := visit_sees (h := h) (f := f) (P := fun _ => True) (fun _ _ => trivial)
    (fun _ _ _ => trivial) (fun _ _ => trivial) (fun _ _ _ _ _ _ _ _ => trivial) levels level key
  exact fun s => (hsees s).mono (fun _ _ ⟨log, hlog, _⟩ => ⟨log, hlog.symm⟩)
    fun _ _ ⟨log, hlog, _⟩ => ⟨log, hlog.symm⟩

/-- The passes over children by height, begun in any stage.  The pass from zero on hands out the
shadows and draws of the children at or above zero run by run, the pass below zero the draws of the
children before them, and a pass that is left out has none to hand out.  Two cursors come to the
same turns and never point outside the list. -/
theorem passes_emit_runs {h : Handler ω} (hheld : ∀ level key op offset clip s,
      (h.accept level key op offset clip s).held = s.held)
    (f : Frame) (levels level : Nat) (key : Key) (node : Node) (list : DisplayList)
    {sorted : List Sibling}
    (hsorted : sorted.Pairwise fun a b => a.height.totalRank ≤ b.height.totalRank)
    (s : Stage (ω × List Sight)) :
    let v := watching h f levels level key node list
    let first := sorted.findIdx fun c => 0 ≤ c.height
    v.Emits (v.drawAbove sorted) (v.passOps s (Sibling.reachesAbove sorted)
        ((Sibling.runs (Sibling.above sorted)).flatMap Sibling.runOps)) s ∧
      (Sibling.reachesAbove sorted = false → Sibling.above sorted = []) ∧
      Sibling.cursorTurns? sorted sorted.length first first 0 =
        some (Sibling.schedule [] 0 (Sibling.above sorted)) ∧
      v.Emits (v.drawBelow sorted) (v.passOps s (Sibling.reachesBelow sorted)
        ((Sibling.below sorted).map Sibling.drawOp)) s ∧
      (Sibling.reachesBelow sorted = false → Sibling.below sorted = []) ∧
      Sibling.cursorTurns? sorted first first 0 0 =
        some ((Sibling.below sorted).map .content) := by
  intro v first
  have hfirst : first ≤ sorted.length := List.findIdx_le_length
  have hdescend := visit_adds_seen h f levels (level + 1)
  refine ⟨emits_drawAbove hheld rfl hdescend sorted s, Sibling.above_eq_nil_of_ranks hsorted, ?_,
    emits_drawBelow hheld rfl hdescend sorted s, Sibling.below_eq_nil, ?_⟩
  · rw [Sibling.cursorTurns?_eq (le_refl _) hfirst, Sibling.above_eq_drop,
      List.drop_eq_nil_of_le (by rw [List.length_take]; omega)]
  · rw [Sibling.cursorTurns?_of_exhausted (Nat.zero_le _) hfirst, Sibling.below_eq_take,
      List.drop_zero]

end Visit

/-! ### Steps of a stair -/

namespace Stairs

/-- A step of some height, with a link to it. -/
def step (index : Nat) (elevation : Single) (castsShadow : Bool) : Sibling :=
  ⟨⟨Ripple.list, index⟩, ⟨Ripple.card, .identity⟩, { elevation, castsShadow }⟩

/-- One step is below zero.  The three that follow are close to each other, and the one in the
middle casts no shadow. -/
def steps : List Sibling :=
  [step 3 (-1) true, step 0 1 true, step 4 1.05 false, step 1 1.1 true, step 2 2 true]

theorem pairwise_steps : steps.Pairwise fun a b => a.height.totalRank ≤ b.height.totalRank := by
  decide +kernel

theorem runs_steps : Sibling.runs (Sibling.above steps) =
    [[step 0 1 true, step 4 1.05 false, step 1 1.1 true], [step 2 2 true]] := by
  decide +kernel

/-- The step without a shadow does not part the run. -/
theorem passes_emit_runs_steps :
    Handler.immediate.Neutral ∧
    (steps.Pairwise fun a b => a.height.totalRank ≤ b.height.totalRank) ∧
    let v := Visit.watching .immediate Ripple.world.frame 1 0 Ripple.list ⟨"stairs", {}, none⟩ {}
    let s := Ripple.world.stage .unbounded ((), [])
    v.Emits (v.drawAbove steps) (v.passOps s true
      (Sibling.runOps [step 0 1 true, step 4 1.05 false, step 1 1.1 true] ++
        Sibling.runOps [step 2 2 true])) s ∧
      v.Emits (v.drawBelow steps) (v.passOps s true [(step 3 (-1) true).drawOp]) s := by
  obtain ⟨habove, -, -, hbelow, -⟩ := Visit.passes_emit_runs Handler.immediate_neutral.held
    Ripple.world.frame 1 0 Ripple.list ⟨"stairs", {}, none⟩ {} pairwise_steps
    (Ripple.world.stage .unbounded ((), []))
  have hreachesAbove : Sibling.reachesAbove steps = true := by decide +kernel
  have hreachesBelow : Sibling.reachesBelow steps = true := by decide +kernel
  have hsteps : Sibling.below steps = [step 3 (-1) true] := by decide +kernel
  rw [runs_steps, hreachesAbove, List.flatMap_cons, List.flatMap_cons, List.flatMap_nil,
    List.append_nil] at habove
  rw [hsteps, hreachesBelow, List.map_cons, List.map_nil] at hbelow
  exact ⟨Handler.immediate_neutral, pairwise_steps, habove, hbelow⟩

end Stairs

end RetainedScene
