import Mathlib.Tactic.SplitIfs
import RetainedScene.Proofs.Walk.Alike
import RetainedScene.Walk.Immediate
import RetainedScene.Walk.Plan

/-!
# How walks end

`Walk.Ends` says of a walk from a stage that it ends with a result, in a stage as expected, or in
an error as expected.  It is proved along the text of a walk: `Ends.bind` at a sequence, `Ends.log`
at an event, and so on.

A handler is neutral when it leaves alone which links are held back and what the reader of the
journal asks for, and fails by a refused margin only.  Immediate and deferred drawing are neutral.
-/

namespace RetainedScene

namespace Walk

variable {ω α β : Type}

def Ends (m : Walk ω α) (s : Stage ω) (fine : α → Stage ω → Prop)
    (failed : Fatal → Stage ω → Prop) : Prop :=
  match m s with
  | .ok a t => fine a t
  | .error e t => failed e t

namespace Ends

variable {s : Stage ω} {fine : α → Stage ω → Prop} {failed : Fatal → Stage ω → Prop}

theorem mono {m : Walk ω α} {fine' : α → Stage ω → Prop} {failed' : Fatal → Stage ω → Prop}
    (h : m.Ends s fine failed) (hfine : ∀ a t, fine a t → fine' a t)
    (hfailed : ∀ e t, failed e t → failed' e t) : m.Ends s fine' failed' := by
  unfold Ends at h ⊢
  cases hm : m s with
  | ok a t => rw [hm] at h; exact hfine a t h
  | error e t => rw [hm] at h; exact hfailed e t h

theorem imp {m : Walk ω α} {fine' : α → Stage ω → Prop} (h : m.Ends s fine failed)
    (hfine : ∀ a t, fine a t → fine' a t) : m.Ends s fine' failed :=
  h.mono hfine fun _ _ hfailed => hfailed

theorem bind {m : Walk ω α} {k : α → Walk ω β} {fine' : β → Stage ω → Prop}
    (h : m.Ends s fine failed) (hk : ∀ a t, fine a t → (k a).Ends t fine' failed) :
    (m >>= k).Ends s fine' failed := by
  unfold Ends at h
  show Ends (EStateM.bind m k) s fine' failed
  unfold Ends EStateM.bind
  cases hm : m s with
  | ok a t => rw [hm] at h; exact hk a t h
  | error e t => rw [hm] at h; exact h

theorem pure {a : α} (h : fine a s) : Ends (pure a) s fine failed := h

theorem throw {e : Fatal} (h : failed e s) : Ends (throw e) s fine failed := h

theorem modify_bind {f : Stage ω → Stage ω} {k : PUnit → Walk ω α}
    (h : (k ()).Ends (f s) fine failed) : Ends (modify f >>= k) s fine failed := h

theorem modify {f : Stage ω → Stage ω} {fine : Unit → Stage ω → Prop} (h : fine () (f s)) :
    Ends (modify f) s fine failed := h

theorem onCanvas {f : Canvas → Canvas} {fine : Unit → Stage ω → Prop}
    (h : fine () (s.onCanvas f)) : (Walk.onCanvas f).Ends s fine failed := h

theorem lift_bind {result : Except Fatal α} {a : α} {k : α → Walk ω β}
    {fine : β → Stage ω → Prop} (hr : result = .ok a) (h : (k a).Ends s fine failed) :
    (Walk.lift result >>= k).Ends s fine failed := by
  subst hr
  exact h

theorem get_bind {k : Stage ω → Walk ω α} (h : (k s).Ends s fine failed) :
    (get >>= k).Ends s fine failed := h

theorem onCanvas_bind {f : Canvas → Canvas} {k : Unit → Walk ω α}
    (h : (k ()).Ends (s.onCanvas f) fine failed) : (Walk.onCanvas f >>= k).Ends s fine failed := h

theorem saveCount_bind {k : Nat → Walk ω α} (h : (k s.canvas.saveCount).Ends s fine failed) :
    (Walk.saveCount >>= k).Ends s fine failed := h

theorem log {e : Event} {fine : Unit → Stage ω → Prop} (h : fine () (s.log e))
    (hfailed : s.journal.refuses e = true → failed .marginTooWide s) :
    (Walk.log e).Ends s fine failed := by
  refine get_bind ?_
  cases hr : s.journal.refuses e with
  | true => exact hfailed hr
  | false => exact h

end Ends

end Walk

/-- Reporting an event changes the journal at most. -/
theorem Visit.report_ends {ω : Type} (v : Visit ω) {e : Event} {s : Stage ω}
    {failed : Fatal → Stage ω → Prop}
    (hfailed : s.journal.refuses e = true → failed .marginTooWide s) :
    (v.report e).Ends s (fun _ t => ∃ journal, t = { s with journal }) failed := by
  unfold report
  split
  · exact Walk.Ends.log ⟨_, rfl⟩ hfailed
  · exact Walk.Ends.pure ⟨s.journal, rfl⟩

/-! ### Limits -/

/-- The error is a limit, and one that needs nodes to be nested that deep. -/
def Fatal.IsLimit (bound : Nat) (e : Fatal) : Prop := e.isMistake = false ∧ 32767 < bound

theorem Text.lt_of_not_hasMargin {level : Nat} (h : Text.hasMargin level = false) :
    32767 < level := by
  unfold Text.hasMargin Text.widestMargin at h
  have := of_decide_eq_false h
  omega

/-! ### Neutral handlers -/

/-- The part of a handler's work at a level leaves alone what a walk goes by. -/
def Walk.Neutral {ω : Type} (level : Nat) (m : Walk ω Unit) : Prop :=
  ∀ s, m.Ends s (fun _ t => t.held = s.held ∧ t.journal.asked = s.journal.asked)
    fun e t => t.journal.asked = s.journal.asked ∧ e = .marginTooWide ∧
      ¬ Journal.Admits s.journal.asked level

structure Handler.Neutral {ω : Type} (h : Handler ω) : Prop where
  held : ∀ level key op offset clip s, (h.accept level key op offset clip s).held = s.held
  asked : ∀ level key op offset clip s,
    (h.accept level key op offset clip s).journal.asked = s.journal.asked
  enter : ∀ level key node, (h.enter level key node).Neutral level
  reject : ∀ level key node, (h.reject level key node).Neutral level
  leave : ∀ level key node, (h.leave level key node).Neutral level

theorem Walk.Neutral.onCanvas {ω : Type} (level : Nat) (f : Canvas → Canvas) :
    (Walk.onCanvas f : Walk ω Unit).Neutral level := fun _ => ⟨rfl, rfl⟩

theorem Walk.Neutral.pure {ω : Type} (level : Nat) : (pure () : Walk ω Unit).Neutral level :=
  fun _ => ⟨rfl, rfl⟩

theorem Handler.immediate_neutral : Handler.immediate.Neutral where
  held _ _ _ _ _ _ := rfl
  asked _ _ _ _ _ _ := rfl
  enter level _ _ := .onCanvas level _
  reject level _ _ := .pure level
  leave level key node := by
    intro s
    refine Walk.Ends.bind (Walk.Neutral.onCanvas level (·.endMark) s) fun _ t ht => ?_
    refine Walk.Ends.log ht fun hr => ⟨ht.2, rfl, fun hadmits => ?_⟩
    rw [← ht.2] at hadmits
    rw [Journal.not_refuses_of_admits rfl hadmits] at hr
    cases hr

theorem Handler.deferred_neutral : Handler.deferred.Neutral where
  held _ _ op _ _ _ := by
    cases op with
    | child ref edge => rfl
    | recorded op list => simp only [Handler.deferred]; split_ifs <;> rfl
    | property op => simp only [Handler.deferred]; split_ifs <;> rfl
  asked _ _ op _ _ _ := by
    cases op with
    | child ref edge => rfl
    | recorded op list => simp only [Handler.deferred]; split_ifs <;> rfl
    | property op => simp only [Handler.deferred]; split_ifs <;> rfl
  enter level _ _ := .pure level
  reject level _ _ := .pure level
  leave level _ _ := .pure level

end RetainedScene
