import RetainedScene.Walk.Visit

/-!
# Canvas operations that draw nothing

A quiet operation on a canvas draws nothing, and the state that it leaves depends on the state
that it finds and not on the calls made before.  Everything that a walk does to its canvas by
itself is quiet; what is handed to the handler is quiet when it changes state (`Quiet.issue`), and
else adds the one call that draws it (`draws_issue`).
-/

namespace RetainedScene

/-- The operation draws nothing, and the state it leaves depends on the state alone. -/
structure Canvas.Quiet (f : Canvas → Canvas) : Prop where
  stack : ∀ {c d : Canvas}, c.stack = d.stack → (f c).stack = (f d).stack
  layerAlpha : ∀ {c d : Canvas}, c.layerAlpha = d.layerAlpha → (f c).layerAlpha = (f d).layerAlpha
  draws : ∀ c : Canvas, (f c).draws = c.draws

namespace Canvas

theorem draws_call (c : Canvas) (k : Call) :
    (c.call k).draws = c.draws ++ [k].filter Call.isDraw := by
  simp [draws, call]

theorem draws_call_of_not_isDraw (c : Canvas) {k : Call} (hk : k.isDraw = false) :
    (c.call k).draws = c.draws := by
  simp [draws_call, hk]

namespace Quiet

theorem comp {f g : Canvas → Canvas} (hg : Quiet g) (hf : Quiet f) : Quiet fun c => g (f c) where
  stack h := hg.stack (hf.stack h)
  layerAlpha h := hg.layerAlpha (hf.layerAlpha h)
  draws c := (hg.draws _).trans (hf.draws c)

protected theorem id : Quiet fun c => c where
  stack h := h
  layerAlpha h := h
  draws _ := rfl

theorem ite {p : Prop} [Decidable p] {f g : Canvas → Canvas} (hf : Quiet f) (hg : Quiet g) :
    Quiet fun c => if p then f c else g c := by
  by_cases h : p
  · simpa only [h, if_true] using hf
  · simpa only [h, if_false] using hg

/-- Changing the saved states and then making a call that draws nothing. -/
theorem ofStack (g : SaveStack Snapshot → SaveStack Snapshot) (k : SaveStack Snapshot → Call)
    (hk : ∀ s, (k s).isDraw = false) :
    Quiet fun c => { c with stack := g c.stack }.call (k c.stack) where
  stack h := congrArg g h
  layerAlpha h := h
  draws _ := draws_call_of_not_isDraw _ (hk _)

theorem modify (g : Snapshot → Snapshot) : Quiet (·.modify g) where
  stack h := congrArg (SaveStack.modify · g) h
  layerAlpha h := h
  draws _ := rfl

theorem save (flags : SaveFlags) : Quiet (·.save flags) :=
  ofStack SaveStack.save (fun s => .save flags s.saveCount) fun _ => rfl

theorem restore : Quiet restore := ofStack SaveStack.restore (fun _ => .restore) fun _ => rfl

theorem restoreTo (count : Int) : Quiet (·.restoreTo count) :=
  ofStack (·.restoreTo count) (fun _ => .restoreTo count) fun _ => rfl

theorem concat (m : Matrix) : Quiet (·.concat m) := modify _

theorem translate (dx dy : Single) : Quiet (·.translate dx dy) := modify _

theorem scaleAlpha (alpha : Single) : Quiet (·.scaleAlpha alpha) := modify _

theorem setLayerAlpha (alpha : Single) : Quiet (·.setLayerAlpha alpha) where
  stack h := h
  layerAlpha _ := rfl
  draws _ := rfl

theorem clipRect (rect : Rect) (mode : ClipMode) : Quiet (·.clipRect rect mode) :=
  ofStack (fun s => s.modify ({ · with clip := some (s.top.clipTo rect mode) }))
    (fun s => .clipRect (s.top.clipTo rect mode) mode) fun _ => rfl

theorem clipOutline (outline : Outline) : Quiet (·.clipOutline outline) := by
  cases h : outline.bounds with
  | none => simpa only [Canvas.clipOutline, h] using Quiet.id
  | some bounds =>
    simp only [Canvas.clipOutline, h]
    exact ofStack (fun s => s.modify ({ · with clip := some (s.top.narrowed bounds) }))
      (fun s => .clipOutline (s.top.narrowed bounds)) fun _ => rfl

theorem saveLayer (bounds : Rect) (alpha : UInt8) (flags : SaveFlags) :
    Quiet (·.saveLayer bounds alpha flags) := by
  let faded (s : SaveStack Snapshot) : SaveStack Snapshot :=
    s.save.modify fun t => { t with alpha := t.alpha * (Single.ofByte alpha / 255) }
  by_cases h : flags.contains .clipToLayer = true
  · simp only [Canvas.saveLayer, h, if_true]
    exact ofStack
      (fun s => (faded s).modify ({ · with clip := some ((faded s).top.narrowed bounds) }))
      (fun _ => .saveLayer bounds alpha flags) fun _ => rfl
  · simp only [Canvas.saveLayer, h]
    exact ofStack faded (fun _ => .saveLayer bounds alpha flags) fun _ => rfl

/-- The transforms of a node's properties. -/
theorem transformed (p : Properties) : Quiet (Visit.transformed p) := by
  refine (Quiet.ite Quiet.id (Quiet.ite (translate _ _) (concat _))).comp ?_
  cases p.fixedMatrix? with
  | none => exact Quiet.ite (translate _ _) Quiet.id
  | some fixed => exact (concat fixed).comp (Quiet.ite (translate _ _) Quiet.id)

end Quiet

end Canvas

/-! ### Issuing operations -/

/-- What is drawn: an operation of content, or a shadow. -/
inductive Ink where
  | content (op : DrawOp)
  | shadow (s : Shadow)
  deriving DecidableEq

/-- The call that draws under a display state. -/
def Ink.call (state : DisplayState) : Ink → Call
  | content op =>
    .draw op.name op.label? state.snapshot.transform (state.snapshot.alpha * state.layerAlpha)
  | shadow s =>
    .shadow s.caster (state.snapshot.transform * s.flat) (state.snapshot.alpha * s.alpha)

theorem Ink.isDraw_call (i : Ink) (state : DisplayState) : (i.call state).isDraw = true := by
  cases i <;> rfl

namespace Operation

/-- What an operation draws, if it draws anything of its own. -/
def ink? : Operation → Option Ink
  | recorded op _ => op.batchKind?.map fun _ => .content op
  | property (.shadow s) => some (.shadow s)
  | _ => none

/-- What draws something has a batch that it goes into. -/
theorem isSome_ink? (op : Operation) : op.ink?.isSome = op.batchKind?.isSome := by
  cases op with
  | recorded op list => exact Option.isSome_map
  | child ref edge => rfl
  | property op => cases op <;> rfl

theorem ink?_of_changesState {op : Operation} (hop : op.changesState = true) : op.ink? = none := by
  cases op with
  | recorded op list =>
    have hkind : op.batchKind? = none := op.batchKind?_eq_none_iff.2 (Or.inl hop)
    simp [ink?, hkind]
  | child ref edge => rfl
  | property op =>
    cases op with
    | shadow s => simp [changesState] at hop
    | _ => rfl

/-- The calls that draw an operation under a display state. -/
def drawnUnder (op : Operation) (state : DisplayState) : List Call :=
  (op.ink?.map (·.call state)).toList

end Operation

namespace Canvas

theorem Quiet.elim {α : Type} (a : Option α) {f : α → Canvas → Canvas} (hf : ∀ x, Quiet (f x)) :
    Quiet fun c => a.elim c fun x => f x c := by
  cases a with
  | none => exact .id
  | some x => exact hf x

/-- An operation that changes state is quiet. -/
theorem Quiet.issue {op : Operation} (hop : op.changesState = true) (offset : Int) :
    Quiet (·.issue offset op) := by
  cases op with
  | child ref edge => simp [Operation.changesState] at hop
  | property op =>
    cases op with
    | save flags => exact .save flags
    | restoreTo count => exact .restoreTo _
    | saveLayer bounds alpha flags => exact .saveLayer bounds alpha flags
    | clipRect rect mode => exact .clipRect rect mode
    | clipOutline outline => exact .clipOutline outline
    | shadow s => simp [Operation.changesState] at hop
  | recorded op list =>
    cases op with
    | save flags => exact .save flags
    | restore => exact .restore
    | restoreTo count => exact .restoreTo _
    | translate dx dy => exact .translate dx dy
    | concat i => exact .elim _ fun m => .concat m
    | clipRect rect mode => exact .clipRect rect mode
    | clipPath i mode => exact .elim _ fun path => .clipRect path.bounds mode
    | clipRegion i mode => exact .elim _ fun region => .clipRect region.bounds mode
    | _ => simp [Operation.changesState, DrawOp.changesState] at hop

/-- What does not change state leaves it as it is, and makes the calls that draw it. -/
theorem issue_of_not_changesState {op : Operation} (hop : op.changesState = false) (offset : Int)
    (c : Canvas) : c.issue offset op = (op.drawnUnder c.displayState).foldl call c := by
  cases op with
  | child ref edge => rfl
  | property op =>
    cases op with
    | shadow s => rfl
    | _ => simp [Operation.changesState] at hop
  | recorded op list =>
    cases op with
    | save | restore | restoreTo | translate | concat | clipRect | clipPath | clipRegion =>
      simp [Operation.changesState, DrawOp.changesState] at hop
    | _ => rfl

theorem isDraw_of_mem_drawnUnder {op : Operation} {state : DisplayState} {k : Call}
    (hk : k ∈ op.drawnUnder state) : k.isDraw = true := by
  obtain ⟨i, -, rfl⟩ := Option.map_eq_some_iff.mp (Option.mem_toList.mp hk)
  exact i.isDraw_call state

theorem drawnUnder_of_changesState {op : Operation} (hop : op.changesState = true)
    (state : DisplayState) : op.drawnUnder state = [] := by
  rw [Operation.drawnUnder, Operation.ink?_of_changesState hop]
  rfl

theorem draws_foldl_call {ks : List Call} (hks : ∀ k ∈ ks, k.isDraw = true) (c : Canvas) :
    (ks.foldl call c).draws = c.draws ++ ks := by
  induction ks generalizing c with
  | nil => simp
  | cons k ks ih =>
    have hk : k.isDraw = true := hks k List.mem_cons_self
    rw [List.foldl_cons, ih fun x hx => hks x (List.mem_cons_of_mem _ hx), draws_call]
    simp [hk]

/-- What an operation adds to the draws of a canvas depends on the display state only. -/
theorem draws_issue (c : Canvas) (offset : Int) (op : Operation) :
    (c.issue offset op).draws = c.draws ++ op.drawnUnder c.displayState := by
  cases hop : op.changesState with
  | true => rw [(Quiet.issue hop offset).draws, drawnUnder_of_changesState hop, List.append_nil]
  | false =>
    rw [issue_of_not_changesState hop, draws_foldl_call fun k hk => isDraw_of_mem_drawnUnder hk]

theorem stack_foldl_call (ks : List Call) (c : Canvas) : (ks.foldl call c).stack = c.stack := by
  induction ks generalizing c with
  | nil => rfl
  | cons k ks ih => exact ih _

theorem layerAlpha_foldl_call (ks : List Call) (c : Canvas) :
    (ks.foldl call c).layerAlpha = c.layerAlpha := by
  induction ks generalizing c with
  | nil => rfl
  | cons k ks ih => exact ih _

end Canvas

end RetainedScene
