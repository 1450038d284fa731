import RetainedScene.Proofs.Canvas.Stack

/-!
# Saves and restores in any order

A canvas takes requests in any order, restores without a save and restores to any count among them.
To a plain list of states a request may be one too many: it looks for the state in force, and there
is none (`Canvas.Request.onStates`).  That never comes to pass, as a canvas keeps its last state.

A save gives the count before it as a token.  Whatever is asked of the canvas after it, the states
of that time stay below all others while more states are left than the token says, so that a restore
to the token brings them back (`Canvas.restoreTo_token`).

States are counted in natural numbers: no memory has room for more of them than a word can count.
-/

namespace RetainedScene

/-- The state that a layer begins with. -/
def Snapshot.inLayer (s : Snapshot) (bounds : Rect) (alpha : UInt8) (flags : SaveFlags) :
    Snapshot :=
  let fainter := { s with alpha := s.alpha * (Single.ofByte alpha / 255) }
  if flags.contains .clipToLayer then { fainter with clip := some (fainter.narrowed bounds) }
  else fainter

namespace Canvas

/-! ### Requests -/

/-- All that a canvas can be asked for. -/
inductive Request where
  | save (flags : SaveFlags)
  | restore
  | restoreTo (count : Int)
  | translate (dx dy : Single)
  | concat (m : Matrix)
  | setLayerAlpha (alpha : Single)
  | scaleAlpha (alpha : Single)
  | reject (rect : Rect)
  | saveLayer (bounds : Rect) (alpha : UInt8) (flags : SaveFlags)
  | clipRect (rect : Rect) (mode : ClipMode)
  | clipOutline (outline : Outline)
  | draw (op : DrawOp)
  | drawShadow (caster : Key) (transform : Matrix) (alpha : Single)
  | readDisplayState
  | setDisplayState (state : DisplayState)
  | startMark (name : String)
  | endMark

def serve (c : Canvas) : Request → Canvas
  | .save flags => c.save flags
  | .restore => c.restore
  | .restoreTo count => c.restoreTo count
  | .translate dx dy => c.translate dx dy
  | .concat m => c.concat m
  | .setLayerAlpha alpha => c.setLayerAlpha alpha
  | .scaleAlpha alpha => c.scaleAlpha alpha
  | .saveLayer bounds alpha flags => c.saveLayer bounds alpha flags
  | .clipRect rect mode => c.clipRect rect mode
  | .clipOutline outline => c.clipOutline outline
  | .draw op => c.draw op
  | .drawShadow caster transform alpha => c.drawShadow caster transform alpha
  | .setDisplayState state => c.setDisplayState state
  | .startMark name => c.startMark name
  | .endMark => c.endMark
  -- what is only read changes nothing
  | .reject _ | .readDisplayState => c

def serveAll (c : Canvas) (requests : List Request) : Canvas := requests.foldl serve c

/-- The count that a request which saves gives back, to restore to later. -/
def token? (c : Canvas) : Request → Option Nat
  | .save _ | .saveLayer .. => some c.saveCount
  | _ => none

/-- All states, the one in force first. -/
def states (c : Canvas) : List Snapshot := c.stack.top :: c.stack.below

/-- Changes the first of a list of states, if there is one. -/
def changeFirst (f : Snapshot → Snapshot) : List Snapshot → Option (List Snapshot)
  | [] => none
  | top :: below => some (f top :: below)

/-- What a request makes of a list of states, none if it looks for the first one in vain. -/
def Request.onStates (states : List Snapshot) : Request → Option (List Snapshot)
  | .save _ => states.head?.map (· :: states)
  | .restore => some (if 1 < states.length then states.tail else states)
  | .restoreTo count => some (states.drop (states.length - (max count 1).toNat))
  | .translate dx dy =>
    changeFirst (fun s => { s with transform := s.transform * Matrix.translation dx dy 0 }) states
  | .concat m => changeFirst (fun s => { s with transform := s.transform * m }) states
  | .scaleAlpha alpha => changeFirst (fun s => { s with alpha := s.alpha * alpha }) states
  | .saveLayer bounds alpha flags =>
    states.head?.map fun top => top.inLayer bounds alpha flags :: states
  | .clipRect rect mode =>
    changeFirst (fun s => { s with clip := some (s.clipTo rect mode) }) states
  | .clipOutline outline => match outline.bounds with
    | none => some states
    | some bounds => changeFirst (fun s => { s with clip := some (s.narrowed bounds) }) states
  | .setDisplayState state => changeFirst (fun _ => state.snapshot) states
  | .reject _ | .draw _ | .drawShadow .. | .readDisplayState => states.head?.map fun _ => states
  | .setLayerAlpha _ | .startMark _ | .endMark => some states

variable {c : Canvas} {b : SaveStack Snapshot}

/-! ### There is always a state in force -/

theorem length_states (c : Canvas) : c.states.length = c.saveCount := c.stack.saveCount_eq.symm

theorem states_saveLayer (c : Canvas) (bounds : Rect) (alpha : UInt8) (flags : SaveFlags) :
    (c.saveLayer bounds alpha flags).states = c.top.inLayer bounds alpha flags :: c.states := by
  unfold saveLayer Snapshot.inLayer
  dsimp only
  split <;> rfl

theorem states_restoreTimes (s : SaveStack Snapshot) {n : Nat} (hn : n ≤ s.below.length) :
    (s.restoreTimes n).top :: (s.restoreTimes n).below = (s.top :: s.below).drop n := by
  induction n generalizing s with
  | zero => rfl
  | succ n ih =>
    rcases s with ⟨top, _ | ⟨saved, rest⟩, depth, hdepth⟩
    · exact absurd hn (Nat.not_succ_le_zero n)
    · exact ih _ (Nat.le_of_succ_le_succ hn)

theorem states_restoreTo (c : Canvas) (count : Int) : (c.restoreTo count).states =
    c.states.drop (c.states.length - (max count 1).toNat) := by
  rw [length_states]
  refine states_restoreTimes c.stack ?_
  have := c.stack.saveCount_eq
  omega

theorem states_restore (c : Canvas) : c.restore.states =
    if 1 < c.states.length then c.states.tail else c.states := by
  rcases c with ⟨⟨top, _ | ⟨saved, rest⟩, depth, hdepth⟩, layerAlpha, calls⟩
  · rfl
  · rw [if_pos (by simp [states])]
    rfl

/-- On the states of a canvas no request looks for a state in vain. -/
theorem onStates_states (c : Canvas) (request : Request) :
    request.onStates c.states = some (c.serve request).states := by
  cases request with
  | restore => exact congrArg some (states_restore c).symm
  | restoreTo count => exact congrArg some (states_restoreTo c count).symm
  | saveLayer bounds alpha flags => exact congrArg some (states_saveLayer c bounds alpha flags).symm
  | clipOutline outline =>
    simp only [Request.onStates, serve, clipOutline]
    cases outline.bounds <;> rfl
  | _ => rfl

theorem foldlM_onStates_states (c : Canvas) (requests : List Request) :
    requests.foldlM Request.onStates c.states = some (c.serveAll requests).states := by
  induction requests generalizing c with
  | nil => rfl
  | cons request requests ih =>
    rw [List.foldlM_cons, onStates_states]
    exact ih (c.serve request)

/-! ### What was saved comes back -/

theorem isSavedIn_saveLayer (h : b.IsSavedIn c.stack) (bounds : Rect) (alpha : UInt8)
    (flags : SaveFlags) : b.IsSavedIn (c.saveLayer bounds alpha flags).stack := by
  have hbelow := (List.cons.inj (states_saveLayer c bounds alpha flags)).2
  unfold SaveStack.IsSavedIn
  rw [hbelow]
  exact h.push

/-- A request that leaves more states than were saved leaves those that were saved. -/
theorem isSavedIn_serve (h : b.IsSavedIn c.stack) {request : Request}
    (hcount : b.saveCount < (c.serve request).saveCount) :
    b.IsSavedIn (c.serve request).stack := by
  cases request with
  | save flags => exact h.push
  | restore =>
    refine h.of_suffix ?_ hcount
    rw [serve, restore, call, SaveStack.below_restore]
    exact List.drop_suffix 1 _
  | restoreTo count =>
    -- the count may be any, but more states are left than were saved
    refine h.of_suffix ?_ hcount
    rw [serve, restoreTo, call, SaveStack.restoreTo, SaveStack.below_restoreTimes]
    exact List.drop_suffix _ _
  | saveLayer bounds alpha flags => exact isSavedIn_saveLayer h bounds alpha flags
  | clipOutline outline =>
    simp only [serve, clipOutline]
    cases outline.bounds <;> exact h
  | _ => exact h

theorem isSavedIn_serveAll (h : b.IsSavedIn c.stack) {requests : List Request}
    (hcount : ∀ k ≤ requests.length, b.saveCount < (c.serveAll (requests.take k)).saveCount) :
    b.IsSavedIn (c.serveAll requests).stack := by
  induction requests generalizing c with
  | nil => exact h
  | cons request requests ih =>
    have hfirst := hcount 1 (Nat.succ_pos _)
    rw [List.take_succ_cons, List.take_zero] at hfirst
    exact ih (isSavedIn_serve h hfirst) fun k hk => hcount (k + 1) (Nat.succ_le_succ hk)

/-- A request that gives a token saves the states. -/
theorem isSavedIn_of_token {opening : Request} {token : Nat}
    (htoken : c.token? opening = some token) :
    token = c.saveCount ∧ c.stack.IsSavedIn (c.serve opening).stack := by
  cases opening with
  | save flags => exact ⟨(Option.some.inj htoken).symm, .save c.stack⟩
  | saveLayer bounds alpha flags =>
    have hbelow := (List.cons.inj (states_saveLayer c bounds alpha flags)).2
    refine ⟨(Option.some.inj htoken).symm, ?_⟩
    unfold SaveStack.IsSavedIn
    rw [serve, hbelow]
    exact List.suffix_rfl
  | _ => cases htoken

/-- Of all requests, in any order, none looks for a state in force in vain, and there is always a
state to count.  A save gives its token, and while what is asked for after it leaves more states
than the token says, a restore to the token brings back the states of the time of the save. -/
theorem restoreTo_token (c : Canvas) :
    (∀ requests : List Request,
      requests.foldlM Request.onStates c.states = some (c.serveAll requests).states ∧
        (c.serveAll requests).states.length = (c.serveAll requests).saveCount ∧
        1 ≤ (c.serveAll requests).saveCount) ∧
    ∀ (opening : Request) (token : Nat), c.token? opening = some token →
      token = c.saveCount ∧ ∀ requests : List Request,
        (∀ k ≤ requests.length,
          token < ((c.serve opening).serveAll (requests.take k)).saveCount) →
        (((c.serve opening).serveAll requests).restoreTo token).stack = c.stack := by
  refine ⟨fun requests => ⟨foldlM_onStates_states c requests, length_states _,
    SaveStack.saveCount_pos _⟩, fun opening token htoken => ?_⟩
  -- the states lie below those of the first request, and stay there through the others
  obtain ⟨rfl, hsaved⟩ := isSavedIn_of_token htoken
  exact ⟨rfl, fun requests hcount => (isSavedIn_serveAll hsaved hcount).restoreTo⟩

/-- Requests after a layer was saved, with restores that bring back none of its states. -/
def layerRequests : List Request :=
  [.translate 5 0, .save .matrixClip, .scaleAlpha 0.5, .clipRect (.ofSize 10 10) .intersect,
    .restoreTo 2, .setDisplayState {}, .save .matrix, .concat .identity, .restore, .restoreTo 7]

theorem restoreTo_token_layer :
    ((((ofSize 100 100).serve (.saveLayer (.ofSize 50 50) 127 .clipToLayer)).serveAll
      layerRequests).restoreTo 1).stack = (ofSize 100 100).stack := by
  obtain ⟨-, hrestores⟩ := (restoreTo_token (ofSize 100 100)).2
    (.saveLayer (.ofSize 50 50) 127 .clipToLayer) 1 rfl
  exact hrestores layerRequests (by decide +kernel)

end Canvas

end RetainedScene
