import RetainedScene.Proofs.Walk.Ends
import RetainedScene.Walk.Play

/-!
# Watched walks

A watched handler does what the handler does and notes down what it is told of: the nodes that
are entered, rejected and left, and the operations that are handed out.  A rejected node and an
operation are noted with the display state of that moment, and a child with whether its link was
held back.  A child that is handed out is descended into exactly when it is not held back.

Watching changes nothing (`World.walk_watched`): the walk that is watched is the walk that is
taken.  `World.sights` is what is seen of a walk, up to its end or to the error it ends in.
-/

namespace RetainedScene

/-- What is seen of a walk. -/
inductive Sight where
  | entered (level : Nat) (key : Key)
  | handed (level : Nat) (key : Key) (op : Operation) (state : DisplayState) (held : Bool)
  | rejected (level : Nat) (key : Key) (state : DisplayState)
  | left (level : Nat) (key : Key)
  deriving DecidableEq

/-- The node clips to its bounds, and in the display state they are certainly outside the clip. -/
def Node.isRejectedIn (node : Node) (state : DisplayState) : Bool :=
  node.properties.clipToBounds && state.snapshot.rejects node.properties.bounds

theorem Node.isRejectedIn_displayState (node : Node) (c : Canvas) :
    node.isRejectedIn c.displayState =
      (node.properties.clipToBounds && c.stack.top.rejects node.properties.bounds) := rfl

variable {ω α : Type}

/-! ### Watching -/

namespace Stage

/-- The stage without what was seen. -/
def unwatched (s : Stage (ω × List Sight)) : Stage ω where
  canvas := s.canvas
  held := s.held
  recent := s.recent
  journal := s.journal
  gathered := s.gathered.1

def seen (s : Stage (ω × List Sight)) : List Sight := s.gathered.2

/-- The stage together with what was seen. -/
def watched (s : Stage ω) (seen : List Sight) : Stage (ω × List Sight) where
  canvas := s.canvas
  held := s.held
  recent := s.recent
  journal := s.journal
  gathered := (s.gathered, seen)

end Stage

namespace Walk

/-- Notes down a sight of the display state. -/
def see (x : DisplayState → Sight) : Walk (ω × List Sight) Unit :=
  modify fun s => s.gather fun g => (g.1, g.2 ++ [x s.canvas.displayState])

/-- A part of a walk in which nothing is seen. -/
def unseen (m : Walk ω α) : Walk (ω × List Sight) α := fun s =>
  match m s.unwatched with
  | .ok a t => .ok a (t.watched s.seen)
  | .error e t => .error e (t.watched s.seen)

end Walk

/-- The link of a child that is handed out is held back. -/
def Operation.isHeld (op : Operation) (held : EdgeSet) : Bool :=
  match op with
  | child ref _ => held.contains ref
  | _ => false

/-- Does what a handler does and notes down what it is told of. -/
def Handler.watched (h : Handler ω) : Handler (ω × List Sight) where
  accept level key op offset clipToBounds s :=
    (h.accept level key op offset clipToBounds s.unwatched).watched
      (s.seen ++ [.handed level key op s.canvas.displayState (op.isHeld s.held)])
  enter level key node := do
    Walk.see fun _ => .entered level key
    (h.enter level key node).unseen
  reject level key node := do
    Walk.see (.rejected level key)
    (h.reject level key node).unseen
  leave level key node := do
    (h.leave level key node).unseen
    Walk.see fun _ => .left level key

/-! ### Watching changes nothing -/

/-- The first stage is the second one with something seen. -/
def Stage.Watches (asked : Option Level) (s : Stage (ω × List Sight)) (t : Stage ω) : Prop :=
  t = s.unwatched ∧ t.journal.asked = asked

theorem Walk.Neutral.alike_unseen {level : Nat} {m : Walk ω Unit} (hm : m.Neutral level)
    (asked : Option Level) :
    Walk.Alike (Stage.Watches asked) (fun _ => True) m.unseen m := by
  rintro s t ⟨rfl, hasked⟩
  have hm := hm s.unwatched
  unfold Walk.Ends at hm
  unfold Walk.unseen
  cases h : m s.unwatched with
  | ok a t' => rw [h] at hm; exact ⟨rfl, trivial, rfl, hm.2.trans hasked⟩
  | error e t' => rw [h] at hm; exact ⟨rfl, rfl, hm.1.trans hasked⟩

theorem Walk.alike_see_left (asked : Option Level) (x : DisplayState → Sight) :
    Walk.Alike (Stage.Watches (ω := ω) asked) (fun _ => True) (Walk.see x) (pure ()) := by
  rintro s t ⟨rfl, hasked⟩
  exact ⟨rfl, trivial, rfl, hasked⟩

theorem Handler.Neutral.watched_alike {h : Handler ω} (hn : h.Neutral) (asked : Option Level) :
    Handler.Alike (Stage.Watches asked) asked h.watched h where
  stack := by rintro s t ⟨rfl, _⟩; rfl
  held := by rintro s t ⟨rfl, _⟩; rfl
  asked_left := by rintro s t ⟨rfl, hasked⟩; exact hasked
  asked_right := And.right
  onCanvas := by rintro s t f ⟨rfl, hasked⟩ _; exact ⟨rfl, hasked⟩
  hold := by rintro s t f ⟨rfl, hasked⟩; exact ⟨rfl, hasked⟩
  log := by rintro s t e ⟨rfl, hasked⟩; exact ⟨rfl, hasked⟩
  logOp := by rintro s t level name ⟨rfl, hasked⟩; exact ⟨rfl, hasked⟩
  accept := by
    rintro s t level key op offset clip ⟨rfl, hasked⟩
    exact ⟨rfl, (hn.asked _ _ _ _ _ _).trans hasked⟩
  enter level key node :=
    (Walk.alike_see_left asked _).bind fun _ _ => (hn.enter level key node).alike_unseen asked
  reject level key node :=
    (Walk.alike_see_left asked _).bind fun _ _ => (hn.reject level key node).alike_unseen asked
  leave level key node _ := by
    rw [← bind_pure_unit (x := h.leave level key node)]
    exact ((hn.leave level key node).alike_unseen asked).bind fun _ _ =>
      Walk.alike_see_left asked _

theorem Walk.Ends.unseen {m : Walk ω α} {s : Stage (ω × List Sight)}
    {fine : α → Stage (ω × List Sight) → Prop} {failed : Fatal → Stage (ω × List Sight) → Prop}
    (h : m.Ends s.unwatched (fun a t => fine a (t.watched s.seen))
      fun e t => failed e (t.watched s.seen)) : m.unseen.Ends s fine failed := by
  unfold Walk.Ends Walk.unseen at *
  cases hm : m s.unwatched with
  | ok a t => rw [hm] at h; exact h
  | error e t => rw [hm] at h; exact h

/-- A neutral handler is neutral under watch. -/
theorem Handler.Neutral.watched {h : Handler ω} (hn : h.Neutral) : h.watched.Neutral where
  held level key op offset clip s := hn.held level key op offset clip s.unwatched
  asked level key op offset clip s := hn.asked level key op offset clip s.unwatched
  enter level key node _ := Walk.Ends.modify_bind (Walk.Ends.unseen (hn.enter level key node _))
  reject level key node _ := Walk.Ends.modify_bind (Walk.Ends.unseen (hn.reject level key node _))
  leave level key node _ :=
    (Walk.Ends.unseen (hn.leave level key node _)).bind fun _ _ ht => Walk.Ends.modify ht

/-! ### What moves nothing -/

/-- Nothing was seen, let go or held back in between. -/
def Stage.Unmoved (s t : Stage (ω × List Sight)) : Prop := t.held = s.held ∧ t.seen = s.seen

theorem Journal.isLimit_of_refuses {j : Journal} {e : Event} {bound : Nat}
    (he : e.indent ≤ bound) (hr : j.refuses e = true) : Fatal.marginTooWide.IsLimit bound := by
  have hmargin : Text.hasMargin e.indent = false := by
    simp only [Journal.refuses, Bool.and_eq_true, Bool.not_eq_true'] at hr
    exact hr.2
  have := Text.lt_of_not_hasMargin hmargin
  exact ⟨rfl, by omega⟩

theorem Walk.log_ends {s : Stage (ω × List Sight)} {e : Event} {bound : Nat}
    (he : e.indent ≤ bound) : (Walk.log e).Ends s (fun _ t => s.Unmoved t)
      fun e _ => e.IsLimit bound :=
  Walk.Ends.log ⟨rfl, rfl⟩ (Journal.isLimit_of_refuses he)

/-- A neutral part of a handler's work moves nothing. -/
theorem Walk.Neutral.unseen_ends {level bound : Nat} {m : Walk ω Unit} (hm : m.Neutral level)
    (hlevel : level ≤ bound) (s : Stage (ω × List Sight)) :
    m.unseen.Ends s (fun _ t => s.Unmoved t) fun e _ => e.IsLimit bound := by
  refine Walk.Ends.unseen ((hm s.unwatched).mono (fun _ t ht => ⟨ht.1, rfl⟩) fun e t he => ?_)
  obtain ⟨-, rfl, hadmits⟩ := he
  refine ⟨rfl, ?_⟩
  have hmargin : Text.hasMargin level = false := by
    rw [← Bool.not_eq_true]
    exact fun h => hadmits fun _ => h
  have := Text.lt_of_not_hasMargin hmargin
  omega

/-- Entering a node under watch is seen and moves nothing. -/
theorem Handler.watched_enter_ends (h : Handler ω) (hn : h.Neutral) {level bound : Nat}
    (hlevel : level ≤ bound) (key : Key) (node : Node) (s : Stage (ω × List Sight)) :
    (h.watched.enter level key node).Ends s
      (fun _ t => t.held = s.held ∧ t.seen = s.seen ++ [.entered level key])
      fun e _ => e.IsLimit bound :=
  Walk.Ends.modify_bind ((hn.enter level key node).unseen_ends hlevel _)

/-- Leaving a node under watch is seen and moves nothing. -/
theorem Handler.watched_leave_ends (h : Handler ω) (hn : h.Neutral) {level bound : Nat}
    (hlevel : level ≤ bound) (key : Key) (node : Node) (s : Stage (ω × List Sight)) :
    (h.watched.leave level key node).Ends s
      (fun _ t => t.held = s.held ∧ t.seen = s.seen ++ [.left level key])
      fun e _ => e.IsLimit bound := by
  refine ((hn.leave level key node).unseen_ends hlevel _).bind fun _ t ⟨hheld, hseen⟩ => ?_
  exact Walk.Ends.modify ⟨hheld, congrArg (· ++ [_]) hseen⟩

theorem Walk.seen_of_unseen {m : Walk ω α} {s t : Stage (ω × List Sight)} {a : α}
    (h : m.unseen s = .ok a t) : t.seen = s.seen := by
  unfold unseen at h
  cases hm : m s.unwatched with
  | ok b t' =>
    rw [hm] at h
    cases h
    rfl
  | error e t' =>
    rw [hm] at h
    cases h

/-- A reject under watch is seen with the display state. -/
theorem Handler.seen_of_reject {h : Handler ω} {level : Nat} {key : Key} {node : Node}
    {s t : Stage (ω × List Sight)} (hreject : h.watched.reject level key node s = .ok () t) :
    t.seen = s.seen ++ [.rejected level key s.canvas.displayState] := by
  have hunseen : (h.reject level key node).unseen (s.gather fun g =>
    (g.1, g.2 ++ [.rejected level key s.canvas.displayState])) = .ok () t := hreject
  exact Walk.seen_of_unseen hunseen

/-! ### Watched walks in a world -/

namespace World

theorem walk_apply (h : Handler ω) (start : ω) (canvas : Canvas) (level : Nat) (key : Key)
    (w : World) : walk h start canvas level key w =
      match visit h w.frame (levelCount - level) level key (w.stage canvas start) with
      | .ok _ s => .ok (s.canvas, s.gathered) (w.afterWalk s)
      | .error fatal s => fail fatal (w.afterWalk s) := by
  simp only [walk, run, bind, EStateM.bind, get_apply]
  cases visit h w.frame (levelCount - level) level key (w.stage canvas start) <;> rfl

/-- A failing operation changes nothing but the journal. -/
theorem fail_apply {α : Type} (fatal : Fatal) (w : World) : (fail fatal : Action α) w =
    .error fatal (if fatal.isMistake then w.log (.failed fatal) else w) := by
  unfold fail
  cases fatal.isMistake <;> rfl

/-- What is seen of a walk of a node in a world. -/
def sights (w : World) (h : Handler ω) (start : ω) (canvas : Canvas) (level : Nat) (key : Key) :
    List Sight :=
  match visit h.watched w.frame (levelCount - level) level key (w.stage canvas (start, [])) with
  | .ok _ s | .error _ s => s.seen

theorem watched_ends {h : Handler ω} (hn : h.Neutral) (w : World) (start : ω) (canvas : Canvas)
    (level : Nat) (key : Key) :
    Walk.SameEnd (Stage.Watches w.shared.journal.asked) (fun _ => True)
      (visit h.watched w.frame (levelCount - level) level key (w.stage canvas (start, [])))
      (visit h w.frame (levelCount - level) level key (w.stage canvas start)) :=
  (hn.watched_alike _).visit w.frame _ _ _ _ _ ⟨rfl, rfl⟩

/-- A walk is what its watched walk comes to, as far as it goes beyond what is seen. -/
theorem walk_eq {h : Handler ω} (hn : h.Neutral) (w : World) (start : ω) (canvas : Canvas)
    (level : Nat) (key : Key) : walk h start canvas level key w =
      match visit h.watched w.frame (levelCount - level) level key (w.stage canvas (start, [])) with
      | .ok _ s => .ok (s.canvas, s.gathered.1) (w.afterWalk s)
      | .error fatal s => fail fatal (w.afterWalk s) := by
  rw [walk_apply]
  have hends := watched_ends hn w start canvas level key
  revert hends
  generalize visit h.watched w.frame (levelCount - level) level key (w.stage canvas (start, [])) = m
  generalize visit h w.frame (levelCount - level) level key (w.stage canvas start) = n
  intro hends
  cases m with
  | ok a s =>
    cases n with
    | ok b t =>
      obtain ⟨_, _, rfl, _⟩ := hends
      rfl
    | error e t => exact hends.elim
  | error e s =>
    cases n with
    | ok b t => exact hends.elim
    | error e' t =>
      obtain ⟨rfl, rfl, _⟩ := hends
      rfl

/-- Watching a walk changes nothing about it. -/
theorem walk_watched {h : Handler ω} (hn : h.Neutral) (start : ω) (canvas : Canvas) (level : Nat)
    (key : Key) :
    (fun result => (result.1, result.2.1)) <$> walk h.watched (start, []) canvas level key
      = walk h start canvas level key := by
  funext w
  show EStateM.map _ (walk h.watched (start, []) canvas level key) w = _
  unfold EStateM.map
  rw [walk_apply, walk_eq hn]
  cases visit h.watched w.frame (levelCount - level) level key (w.stage canvas (start, [])) with
  | ok a s => rfl
  | error e s =>
    simp only [fail_apply]

end World

end RetainedScene
