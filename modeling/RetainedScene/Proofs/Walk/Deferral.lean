import RetainedScene.Proofs.Walk.Watched

/-!
# Deferred drawing draws the same frame

A deferred walk and an immediate one, begun in the same state, take the same way: they see the same
(`Deferral.alike`), up to the end or to the error that both end in.  What is handed out and draws is
a `Draw`.  The immediate walk makes a call for it on its canvas; the deferred one keeps it in its
plan with the display state of that moment, and makes none on its own canvas.

`draws_flush` says what a plan draws on a canvas: the draws of its entries, whatever the canvas was.
The states that the walk saved, restored or changed by itself are not in the plan, so the canvas
that a plan is carried out on drifts from the one it was made with.  No draw depends on that, as
each sets the display state that it was recorded with.
-/

namespace RetainedScene

/-! ### Draws -/

/-- A draw of a node, with the display state of that moment. -/
structure Draw where
  key : Key
  ink : Ink
  state : DisplayState
  deriving DecidableEq

def Draw.call (d : Draw) : Call := d.ink.call d.state

/-- The draw that is handed out. -/
def Sight.draw? : Sight → Option Draw
  | handed _ key op state _ => op.ink?.map fun ink => ⟨key, ink, state⟩
  | _ => none

/-- All draws that are handed out. -/
def Sight.draws (log : List Sight) : List Draw := log.filterMap draw?

/-- The draw of an entry of a plan. -/
def PlanEntry.draw? : PlanEntry → Option (Ink × DisplayState)
  | draw op state _ => op.ink?.map (·, state)
  | barrier _ _ => none

namespace Plan

/-- The draws of a plan. -/
def draws (p : Plan) : List (Ink × DisplayState) := p.entries.toList.filterMap PlanEntry.draw?

/-- The barriers of a plan change state. -/
def IsSound (p : Plan) : Prop :=
  ∀ op offset, PlanEntry.barrier op offset ∈ p.entries → op.changesState = true

theorem draws_addBarrier (p : Plan) (op : Operation) (offset : Int) :
    (p.addBarrier op offset).draws = p.draws := by
  simp [draws, addBarrier, PlanEntry.draw?]

theorem IsSound.addBarrier {p : Plan} (hp : p.IsSound) {op : Operation}
    (hop : op.changesState = true) (offset : Int) : (p.addBarrier op offset).IsSound := by
  intro op' offset' hm
  rcases Array.mem_push.mp hm with hm | hm
  · exact hp op' offset' hm
  · cases hm
    exact hop

theorem draws_addDraw (p : Plan) {op : Operation} {ink : Ink} (hink : op.ink? = some ink)
    (state : DisplayState) (clip : Bool) :
    (p.addDraw op state clip).draws = p.draws ++ [(ink, state)] := by
  obtain ⟨kind, hkind⟩ : ∃ kind, op.batchKind? = some kind :=
    Option.isSome_iff_exists.mp (by rw [← op.isSome_ink?, hink]; rfl)
  simp [draws, addDraw, hkind, PlanEntry.draw?, hink]

theorem IsSound.addDraw {p : Plan} (hp : p.IsSound) (op : Operation) (state : DisplayState)
    (clip : Bool) : (p.addDraw op state clip).IsSound := by
  unfold Plan.addDraw
  cases op.batchKind? with
  | none => exact hp
  | some kind =>
    intro op' offset' hm
    rcases Array.mem_push.mp hm with hm | hm
    · exact hp op' offset' hm
    · cases hm

end Plan

namespace Canvas

theorem draws_play (c : Canvas) {entry : PlanEntry}
    (h : ∀ op offset, entry = .barrier op offset → op.changesState = true) :
    (c.play entry).draws = c.draws ++ (entry.draw?.map fun d => d.1.call d.2).toList := by
  cases entry with
  | draw op state clipToBounds =>
    show ((c.setDisplayState state).issue 0 op).draws = _
    rw [draws_issue, Operation.drawnUnder, PlanEntry.draw?, Option.map_map]
    rfl
  | barrier op offset =>
    show (c.issue offset op).draws = _
    rw [(Quiet.issue (h op offset rfl) offset).draws]
    exact (List.append_nil _).symm

theorem draws_foldl_play {entries : List PlanEntry}
    (h : ∀ op offset, PlanEntry.barrier op offset ∈ entries → op.changesState = true)
    (c : Canvas) : (entries.foldl play c).draws
      = c.draws ++ (entries.filterMap PlanEntry.draw?).map fun d => d.1.call d.2 := by
  induction entries generalizing c with
  | nil => simp
  | cons entry entries ih =>
    have hentry : ∀ op offset, entry = .barrier op offset → op.changesState = true :=
      fun op offset he => h op offset (he ▸ List.mem_cons_self)
    rw [List.foldl_cons, ih fun op offset hm => h op offset (List.mem_cons_of_mem _ hm),
      draws_play c hentry, List.append_assoc]
    cases hdraw : entry.draw? <;> simp [hdraw]

/-- A plan draws the same on every canvas. -/
theorem draws_flush (c : Canvas) {p : Plan} (hp : p.IsSound) :
    (c.flush p).draws = c.draws ++ p.draws.map fun d => d.1.call d.2 := by
  unfold flush
  rw [← Array.foldl_toList]
  exact draws_foldl_play (fun op offset hm => hp op offset (Array.mem_toList_iff.mp hm)) c

end Canvas

/-- Writes entries one after another. -/
def RecentOps.writeAll (r : RecentOps) (entries : List (Nat × String)) : RecentOps :=
  entries.foldl (fun r e => r.write e.1 e.2) r

theorem RecentOps.writeAll_concat (r : RecentOps) (entries : List (Nat × String)) (level : Nat)
    (name : String) :
    r.writeAll (entries ++ [(level, name)]) = (r.writeAll entries).write level name :=
  List.foldl_append

/-! ### The two walks -/

/-- The stages of an immediate and a deferred walk that were begun on canvases with the given draws
and with the given recent operations: what the one has drawn the other has in its plan. -/
structure Deferral (asked : Option Level) (before : List Call) (recent : RecentOps)
    (s : Stage (Unit × List Sight)) (t : Stage (Plan × List Sight)) : Prop where
  stack : s.canvas.stack = t.canvas.stack
  layerAlpha : s.canvas.layerAlpha = t.canvas.layerAlpha
  held : s.held = t.held
  asked_left : s.journal.asked = asked
  asked_right : t.journal.asked = asked
  written : ∃ entries, s.recent = recent.writeAll entries ∧ t.recent = recent.writeAll entries
  seen : s.seen = t.seen
  drawn : s.canvas.draws = before ++ (Sight.draws s.seen).map Draw.call
  planned : t.gathered.1.draws = (Sight.draws t.seen).map fun d => (d.ink, d.state)
  tracked : t.canvas.draws = before
  sound : t.gathered.1.IsSound

namespace Deferral

variable {asked : Option Level} {before : List Call} {recent : RecentOps}
  {s : Stage (Unit × List Sight)} {t : Stage (Plan × List Sight)} {op : Operation}

theorem displayState (h : Deferral asked before recent s t) :
    s.canvas.displayState = t.canvas.displayState := by
  rw [Canvas.displayState, Canvas.displayState, Canvas.top, Canvas.top, h.stack, h.layerAlpha]

theorem onCanvas (h : Deferral asked before recent s t) {f : Canvas → Canvas}
    (hf : Canvas.Quiet f) : Deferral asked before recent (s.onCanvas f) (t.onCanvas f) :=
  { h with
    stack := hf.stack h.stack
    layerAlpha := hf.layerAlpha h.layerAlpha
    drawn := (hf.draws _).trans h.drawn
    tracked := (hf.draws _).trans h.tracked }

/-- Both see something that is not a draw. -/
theorem see (h : Deferral asked before recent s t) {x : Sight} (hx : x.draw? = none) :
    Deferral asked before recent (s.gather fun g => (g.1, g.2 ++ [x]))
      (t.gather fun g => (g.1, g.2 ++ [x])) := by
  have hdraws (seen : List Sight) : Sight.draws (seen ++ [x]) = Sight.draws seen := by
    simp [Sight.draws, hx]
  exact { h with
    seen := congrArg (· ++ [x]) h.seen
    drawn := by rw [Stage.seen, Stage.gather, hdraws]; exact h.drawn
    planned := by rw [Stage.seen, Stage.gather, hdraws]; exact h.planned }

/-- An operation that changes state is carried out on both canvases. -/
theorem issue (h : Deferral asked before recent s t) (hop : op.changesState = true) (offset : Int) :
    Deferral asked before recent (s.onCanvas (·.issue offset op))
      ((t.onCanvas (·.issue offset op)).gather fun g => (g.1.addBarrier op offset, g.2)) :=
  { h.onCanvas (Canvas.Quiet.issue hop offset) with
    planned := (Plan.draws_addBarrier _ op offset).trans h.planned
    sound := h.sound.addBarrier hop offset }

/-- An operation that draws is carried out on one canvas and kept in the plan of the other. -/
theorem draw (h : Deferral asked before recent s t) (hop : op.changesState = false) {ink : Ink}
    (hink : op.ink? = some ink) (offset : Int) (clip : Bool) {x : Sight} {key : Key}
    (hx : x.draw? = some ⟨key, ink, t.canvas.displayState⟩) :
    Deferral asked before recent
      ((s.onCanvas (·.issue offset op)).gather fun g => (g.1, g.2 ++ [x]))
      (t.gather fun g => (g.1.addDraw op t.canvas.displayState clip, g.2 ++ [x])) := by
  have hdraws (seen : List Sight) : Sight.draws (seen ++ [x])
      = Sight.draws seen ++ [⟨key, ink, t.canvas.displayState⟩] := by
    simp [Sight.draws, hx]
  exact { h with
    stack := by
      show (s.canvas.issue offset op).stack = _
      rw [Canvas.issue_of_not_changesState hop, Canvas.stack_foldl_call]
      exact h.stack
    layerAlpha := by
      show (s.canvas.issue offset op).layerAlpha = _
      rw [Canvas.issue_of_not_changesState hop, Canvas.layerAlpha_foldl_call]
      exact h.layerAlpha
    seen := congrArg (· ++ [x]) h.seen
    drawn := by
      show (s.canvas.issue offset op).draws = before ++ (Sight.draws (s.seen ++ [x])).map Draw.call
      rw [Canvas.draws_issue, h.drawn, hdraws, h.displayState, Operation.drawnUnder, hink,
        List.map_append, List.append_assoc]
      rfl
    planned := by
      show (t.gathered.1.addDraw op _ clip).draws = (Sight.draws (t.seen ++ [x])).map _
      rw [Plan.draws_addDraw _ hink, hdraws, h.planned, List.map_append]
      rfl
    sound := h.sound.addDraw _ _ _ }

/-- What neither changes state nor draws is left alone by both. -/
theorem idle (h : Deferral asked before recent s t) (hop : op.changesState = false)
    (hink : op.ink? = none) (offset : Int) :
    Deferral asked before recent (s.onCanvas (·.issue offset op)) t := by
  have hissue : s.onCanvas (·.issue offset op) = s := by
    show { s with canvas := s.canvas.issue offset op } = s
    rw [Canvas.issue_of_not_changesState hop, Operation.drawnUnder, hink]
    rfl
  rw [hissue]
  exact h

theorem log_right (h : Deferral asked before recent s t) (e : Event) :
    Deferral asked before recent s (t.log e) := { h with }

theorem accept (h : Deferral asked before recent s t) (level : Nat) (key : Key) (op : Operation)
    (offset : Int) (clip : Bool) : Deferral asked before recent
      (Handler.immediate.watched.accept level key op offset clip s)
      (Handler.deferred.watched.accept level key op offset clip t) := by
  have hsight : Sight.handed level key op s.canvas.displayState (op.isHeld s.held)
      = .handed level key op t.canvas.displayState (op.isHeld t.held) := by
    rw [h.displayState, h.held]
  show Deferral asked before recent
    ((s.unwatched.onCanvas (·.issue offset op)).watched (s.seen ++ [_])) _
  rw [hsight]
  -- both see the operation under one display state, as no call changes it in between
  have hquiet (hink : op.ink? = none) :
      Sight.draw? (.handed level key op t.canvas.displayState (op.isHeld t.held)) = none := by
    rw [Sight.draw?, hink]
    rfl
  have hrest : Deferral asked before recent
      ((s.unwatched.onCanvas (·.issue offset op)).watched
        (s.seen ++ [.handed level key op t.canvas.displayState (op.isHeld t.held)]))
      ((if op.changesState then
          (t.unwatched.onCanvas (·.issue offset op)).gather (·.addBarrier op offset)
        else if op.batchKind?.isSome then
          t.unwatched.gather (·.addDraw op t.canvas.displayState clip)
        else t.unwatched.log (.notDeferred op.name)).watched
          (t.seen ++ [.handed level key op t.canvas.displayState (op.isHeld t.held)])) := by
    rw [← op.isSome_ink?]
    cases hop : op.changesState with
    | true => exact (h.issue hop offset).see (hquiet (Operation.ink?_of_changesState hop))
    | false =>
      cases hink : op.ink? with
      | some ink => exact h.draw hop hink offset clip (by rw [Sight.draw?, hink]; rfl)
      | none => exact ((h.idle hop hink offset).log_right _).see (hquiet hink)
  cases op with
  | child ref edge => exact (h.idle rfl rfl offset).see rfl
  | recorded op list => exact hrest
  | property op => exact hrest

end Deferral

theorem Walk.log_apply {ω : Type} {s : Stage ω} {e : Event} (h : s.journal.refuses e = false) :
    Walk.log e s = .ok () (s.log e) := by
  show (if s.journal.refuses e = true then _ else _ : Walk ω Unit) s = _
  rw [h]
  rfl

/-- Whatever the scene, an immediate and a deferred walk that begin in the same state see the same
and end alike. -/
theorem Deferral.alike (asked : Option Level) (before : List Call) (recent : RecentOps) :
    Handler.Alike (Deferral asked before recent) asked Handler.immediate.watched
      Handler.deferred.watched where
  stack h := h.stack
  held h := h.held
  asked_left h := h.asked_left
  asked_right h := h.asked_right
  onCanvas h hf := h.onCanvas hf
  hold f h := { h with held := congrArg f h.held }
  log e h := { h with }
  logOp level name h := { h with
    written := by
      obtain ⟨entries, hs, ht⟩ := h.written
      refine ⟨entries ++ [(level, name)], ?_, ?_⟩
      · rw [RecentOps.writeAll_concat, ← hs]
        rfl
      · rw [RecentOps.writeAll_concat, ← ht]
        rfl }
  accept level key op offset clip h := h.accept level key op offset clip
  enter level key node :=
    (Walk.Alike.modify fun s t h => h.see (x := .entered level key) rfl).bind fun _ _ s t h =>
      ⟨rfl, trivial, { h with drawn := (Canvas.draws_call_of_not_isDraw _ rfl).trans h.drawn }⟩
  reject level key node :=
    (Walk.Alike.modify fun s t h => by
      rw [h.displayState]
      exact h.see rfl).bind fun _ _ s t h => ⟨rfl, trivial, h⟩
  leave level key node hadmits := by
    have hend : Walk.Alike (Deferral asked before recent) (fun _ => True)
        (Handler.immediate.leave level key node).unseen
        (Handler.deferred.leave level key node).unseen := by
      intro s t h
      have hlog : Handler.immediate.leave level key node s.unwatched
          = .ok () ((s.unwatched.onCanvas (·.endMark)).log (.nodeReplayed level node.name)) :=
        Walk.log_apply (Journal.not_refuses_of_admits rfl (h.asked_left ▸ hadmits))
      unfold Walk.unseen
      rw [hlog]
      exact ⟨rfl, trivial,
        { h with drawn := (Canvas.draws_call_of_not_isDraw _ rfl).trans h.drawn }⟩
    exact hend.bind fun _ _ => Walk.Alike.modify fun s t h => h.see (x := .left level key) rfl

end RetainedScene
