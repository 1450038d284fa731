import RetainedScene.Proofs.Walk.Course
import RetainedScene.Proofs.Walk.Placed

/-!
# The calls of an immediate walk

An immediate walk makes its calls on the canvas, and marks every node from before its walk to after
it.  The marks are properly nested, and from one mark to the other that goes with it as many states
are restored as were saved (`Canvas.Logs`, `visit_logs`).  The count is followed through the calls:
`Call.countAfter` is what a call makes of it.
-/

namespace RetainedScene

open Relation

/-! ### Calls -/

/-- The call marks where a node begins or ends. -/
def Call.isMark : Call → Bool
  | startMark _ | endMark => true
  | _ => false

/-- The save count of a canvas after a call. -/
def Call.countAfter (count : Nat) : Call → Nat
  | save .. | saveLayer .. => count + 1
  | restore => max (count - 1) 1
  | restoreTo limit => min count (max limit 1).toNat
  | _ => count

/-- Calls that lead from one save count to another.  In between marks are properly nested, and those
that go with each other have the same save count. -/
inductive Bracketed : Nat → List Call → Nat → Prop
  | nil (count : Nat) : Bracketed count [] count
  | call {k : Call} {log : List Call} {n m : Nat} (hk : k.isMark = false)
    (hlog : Bracketed (k.countAfter n) log m) : Bracketed n (k :: log) m
  | marked {name : String} {inside log : List Call} {n m : Nat} (hinside : Bracketed n inside n)
    (hlog : Bracketed n log m) : Bracketed n (.startMark name :: (inside ++ .endMark :: log)) m

theorem Bracketed.append {n m l : Nat} {log log' : List Call} (h : Bracketed n log m)
    (h' : Bracketed m log' l) : Bracketed n (log ++ log') l := by
  induction h with
  | nil => exact h'
  | call hk _ ih => exact .call hk (ih h')
  | @marked name inside log n m hinside _ _ ih =>
    have hall : Bracketed n (.startMark name :: (inside ++ .endMark :: (log ++ log'))) l :=
      .marked hinside (ih h')
    simpa using hall

/-- From one state of a canvas to another there were calls with marks that are properly nested. -/
def Canvas.Logs (c d : Canvas) : Prop :=
  ∃ log, d.calls.toList = c.calls.toList ++ log ∧ Bracketed c.saveCount log d.saveCount

namespace Canvas.Logs

variable {c d e : Canvas}

theorem trans (h : c.Logs d) (h' : d.Logs e) : c.Logs e := by
  obtain ⟨log, hcalls, hlog⟩ := h
  obtain ⟨log', hcalls', hlog'⟩ := h'
  exact ⟨log ++ log', by rw [hcalls', hcalls, List.append_assoc], hlog.append hlog'⟩

/-- There was no call. -/
theorem of_eq (hcalls : d.calls = c.calls) (hcount : d.saveCount = c.saveCount) : c.Logs d :=
  ⟨[], by rw [hcalls, List.append_nil], hcount ▸ .nil c.saveCount⟩

theorem refl (c : Canvas) : c.Logs c := of_eq rfl rfl

/-- There was one call. -/
theorem of_call {k : Call} (hk : k.isMark = false) (hcalls : d.calls = c.calls.push k)
    (hcount : d.saveCount = k.countAfter c.saveCount) : c.Logs d := by
  refine ⟨[k], by rw [hcalls, Array.toList_push], .call hk ?_⟩
  rw [hcount]
  exact .nil _

theorem clipRect (c : Canvas) (rect : Rect) (mode : ClipMode) : c.Logs (c.clipRect rect mode) :=
  of_call rfl rfl rfl

theorem clipOutline (c : Canvas) (outline : Outline) : c.Logs (c.clipOutline outline) := by
  unfold Canvas.clipOutline
  cases outline.bounds with
  | none => exact refl c
  | some bounds => exact of_call rfl rfl rfl

theorem saveLayer (c : Canvas) (bounds : Rect) (alpha : UInt8) (flags : SaveFlags) :
    c.Logs (c.saveLayer bounds alpha flags) := by
  unfold Canvas.saveLayer
  dsimp only
  split
  · exact of_call rfl rfl rfl
  · exact of_call rfl rfl rfl

theorem restore (c : Canvas) : c.Logs c.restore := of_call rfl rfl c.stack.saveCount_restore

theorem restoreTo (c : Canvas) (count : Int) : c.Logs (c.restoreTo count) :=
  of_call rfl rfl (c.stack.saveCount_restoreTo count)

/-- What is carried out is no mark. -/
theorem issue (c : Canvas) (offset : Int) (op : Operation) : c.Logs (c.issue offset op) := by
  cases op with
  | child ref edge => exact refl c
  | property op =>
    cases op with
    | restoreTo count => exact restoreTo c _
    | saveLayer bounds alpha flags => exact saveLayer c bounds alpha flags
    | clipOutline outline => exact clipOutline c outline
    | _ => exact of_call rfl rfl rfl
  | recorded op list =>
    cases op with
    | restore => exact restore c
    | restoreTo count => exact restoreTo c _
    | translate dx dy => exact of_eq rfl rfl
    | concat i => exact elim_of _ (refl c) fun m => of_eq rfl rfl
    | clipPath i mode => exact elim_of _ (refl c) fun path => clipRect c path.bounds mode
    | clipRegion i mode => exact elim_of _ (refl c) fun region => clipRect c region.bounds mode
    | child i => exact refl c
    | _ => exact of_call rfl rfl rfl

/-- A node is marked around calls that leave the save count as it was. -/
theorem marked {name : String} (h : (c.startMark name).Logs d)
    (hcount : d.saveCount = c.saveCount) : c.Logs d.endMark := by
  obtain ⟨inside, hcalls, hinside⟩ := h
  refine ⟨.startMark name :: (inside ++ [.endMark]), ?_, ?_⟩
  · show (d.calls.push .endMark).toList = _
    rw [Array.toList_push, hcalls]
    simp [startMark, call]
  · have hinside : Bracketed c.saveCount inside c.saveCount := hcount ▸ hinside
    have hall : Bracketed c.saveCount (.startMark name :: (inside ++ .endMark :: [])) c.saveCount :=
      .marked hinside (.nil c.saveCount)
    exact hcount.symm ▸ hall

end Canvas.Logs

/-! ### Walks -/

namespace Visit

variable {v : Visit (Unit × List Sight)}
  {below : Key → Stage (Unit × List Sight) → Stage (Unit × List Sight) → Prop}
  {s t : Stage (Unit × List Sight)} {ref : EdgeRef} {edge : Edge} {offset : Int}
  {ops : List DrawOp} {layer : Option Single}
  (hv : v.handler = Handler.immediate.watched)
  (hbelow : ∀ key s t, below key s t → s.canvas.Logs t.canvas)

include hv

theorem logs_accepted (op : Operation) (offset : Int) (s : Stage (Unit × List Sight)) :
    s.canvas.Logs (v.accepted op offset s).canvas := by
  unfold accepted
  rw [hv]
  exact .issue s.canvas offset op

theorem Opens.logs (h : v.Opens layer s t) : s.canvas.Logs t.canvas := by
  induction h with
  | idle hidle => exact hidle.canvas ▸ .refl _
  | adjusted f s => exact .of_eq rfl rfl
  | layer s => exact .of_eq rfl rfl
  | given hop s => exact logs_accepted hv _ 0 s
  | trans _ _ ih ih' => exact ih.trans ih'

include hbelow

theorem Offers.logs (h : v.Offers below ref edge offset s t) : s.canvas.Logs t.canvas := by
  cases h with
  | held hheld => exact logs_accepted hv _ offset s
  | descent hfree hdescent => exact (logs_accepted hv _ offset s).trans (hbelow _ _ _ hdescent)

theorem Turns.logs {mode : ClipMode} (h : v.Turns below mode s t) : s.canvas.Logs t.canvas := by
  cases h with
  | idle hidle => exact hidle.canvas ▸ .refl _
  | shadow shadow s => exact logs_accepted hv _ 0 s
  | placed _ hoffers =>
    -- the save before the child and the restore after it are calls on the canvas as well
    have hsave : s.canvas.Logs (s.canvas.save .matrix) := .of_call rfl rfl rfl
    have hconcat (m : Matrix) : (s.canvas.save .matrix).Logs ((s.canvas.save .matrix).concat m) :=
      .of_eq rfl rfl
    have hinside := (hsave.trans (hconcat _)).trans (hoffers.logs hv hbelow)
    exact hinside.trans (.restoreTo _ _)

theorem Course.logs (h : v.Course below offset ops s t) : s.canvas.Logs t.canvas := by
  induction h with
  | idle hidle => exact hidle.canvas ▸ .refl _
  | own hop s => exact logs_accepted hv _ offset s
  | link _ hoffers => exact hoffers.logs hv hbelow
  | missing hidle => exact hidle.canvas ▸ .refl _
  | @pass mode s t hturns =>
    have hsave : s.canvas.Logs (s.canvas.save .matrixClip) := .of_call rfl rfl rfl
    have hbegin := hsave.trans (logs_accepted hv (.property (.clipRect v.properties.bounds mode)) 0
      (s.onCanvas (·.save .matrixClip)))
    refine Canvas.Logs.trans ?_ (logs_accepted hv _ 0 t)
    induction hturns with
    | refl => exact hbegin
    | tail _ hturn ih => exact ih.trans (hturn.logs hv hbelow)
  | trans _ _ ih ih' => exact ih.trans ih'

theorem Inside.logs (h : v.Inside below s t) : s.canvas.Logs t.canvas := by
  cases h with
  | rejected hidle _ hreject =>
    rw [hv] at hreject
    cases hreject
    exact hidle.canvas ▸ .refl _
  | drawn hbefore hcontent => exact ((hbefore 0).logs hv hbelow).trans (hcontent.logs hv hbelow)

theorem Runs.logs (h : v.Runs below s t) : s.canvas.Logs t.canvas := by
  cases h with
  | @run s₀ s₁ s₂ s₃ hstart hopens hinside hend =>
    have hsave : s.canvas.Logs (v.accepted (.property (.save .matrixClip)) 0 s₀).canvas :=
      hstart.canvas ▸ logs_accepted hv _ 0 s₀
    have hcontent := (hsave.trans (hopens.logs hv)).trans (hinside.logs hv hbelow)
    rw [← hend.canvas] at hcontent
    exact (hcontent.trans (logs_accepted hv _ 0 s₃)).trans (.of_eq rfl rfl)

end Visit

theorem Handler.immediate_leave_ends (level : Nat) (key : Key) (node : Node)
    (s : Stage (Unit × List Sight)) : (Handler.immediate.watched.leave level key node).EndsAs s
      fun _ t => t.canvas = s.canvas.endMark :=
  (Walk.Ends.unseen (Walk.Ends.onCanvas_bind (Walk.Ends.log rfl fun _ => trivial))).bind
    fun _ _ h => Walk.Ends.modify h

/-- In an immediate walk of recorded contents the marks of the calls are properly nested, and
between those of a node as many states are restored as were saved. -/
theorem visit_logs {f : Frame} (hrecorded : f.nodes.AllRecorded) {levels level : Nat} {key : Key}
    {s t : Stage (Unit × List Sight)}
    (hvisit : visit Handler.immediate.watched f levels level key s = .ok () t) :
    s.canvas.Logs t.canvas := by
  have hn := Handler.immediate_neutral
  refine visit_induct hn.watched (P := fun _ _ s t => s.canvas.Logs t.canvas)
    (fun levels level key s t hvisit hwalked => ?_) hvisit
  have hstack : t.canvas.stack = s.canvas.stack :=
    ((visit_places hn Handler.immediate_carries hrecorded levels level key s).of_eq_ok hvisit).1
  -- whatever is between the marks, the node leaves the states as they were
  have hmarked {node : Node} {s₂ : Stage (Unit × List Sight)}
      (hinside : (s.canvas.startMark node.name).Logs s₂.canvas)
      (hleave : Handler.immediate.watched.leave level key node s₂ = .ok () t) :
      s.canvas.Logs t.canvas := by
    have hend := (Handler.immediate_leave_ends level key node s₂).of_eq_ok hleave
    rw [hend] at hstack ⊢
    exact hinside.marked (congrArg SaveStack.saveCount hstack)
  cases hwalked with
  | blank hnode hblank henter hidle hleave =>
    cases henter
    exact hmarked (hidle.canvas ▸ .refl _) hleave
  | shown hhandler hframe hnode hlist henter hruns hleave =>
    cases henter
    exact hmarked (hruns.logs hhandler fun _ _ _ h => h.2) hleave

end RetainedScene
