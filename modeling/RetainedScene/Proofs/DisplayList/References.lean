import Mathlib.Data.List.Perm.Basic
import RetainedScene.DisplayList.Recorder
import RetainedScene.Proofs.DisplayList.Recorded

/-!
# What recorded content refers to

A command that is recorded adds the references that it makes to those of the list, and the owned
ones among them to the owned ones (`Recorder.perform_adds`); one that is refused makes none
(`Recorder.references_of_refused`).  Recording spends nothing.
-/

namespace RetainedScene

/-- The references of a command whose resources go with the content: those of an owned bitmap and of
the shaders of paints. -/
def Command.owned : Command → List ResourceId
  | rect _ paint | roundRect _ _ _ paint | circle _ _ paint | text _ _ paint | path _ _ paint =>
    paint.shader.toList
  | bitmap _ _ paint | patch _ _ paint => (paint.bind (·.shader)).toList
  | ownedBitmap id _ paint => id :: (paint.bind (·.shader)).toList
  | _ => []

theorem Command.owned_subset (command : Command) : command.owned ⊆ command.references := by
  cases command with
  | path path source paint => exact List.subset_append_right _ _
  | bitmap id target paint => exact List.subset_cons_self _ _
  | patch id target paint => exact List.subset_cons_self _ _
  | layer id x y => exact List.nil_subset _
  | _ => exact List.Subset.refl _

/-- References and owned references are added to those that there are. -/
structure References.Adds (r r' : References) (ids mine : List ResourceId) : Prop where
  all : r'.all.Perm (ids ++ r.all)
  owned : r'.owned.Perm (mine ++ r.owned)

namespace References.Adds

variable {r r' r'' : References} {ids ids' mine mine' : List ResourceId}

theorem none (r : References) : r.Adds r [] [] := ⟨.refl _, .refl _⟩

theorem trans (h : r.Adds r' ids mine) (h' : r'.Adds r'' ids' mine') :
    r.Adds r'' (ids ++ ids') (mine ++ mine') where
  all := by
    refine (h'.all.trans (h.all.append_left ids')).trans ?_
    rw [← List.append_assoc]
    exact List.perm_append_comm.append_right _
  owned := by
    refine (h'.owned.trans (h.owned.append_left mine')).trans ?_
    rw [← List.append_assoc]
    exact List.perm_append_comm.append_right _

/-- A reference of a kind that is only given back. -/
theorem borrow (id : ResourceId)
    (hborrowed : ∀ a, r'.borrowed.count a = [id].count a + r.borrowed.count a)
    (howned : r'.owned = r.owned) : r.Adds r' [id] [] where
  all := by
    refine List.perm_iff_count.mpr fun a => ?_
    unfold References.all
    rw [howned, List.count_append, List.count_append, List.count_append, hborrowed, Nat.add_assoc]
  owned := howned ▸ .refl _

/-- A reference of a kind whose resource goes with the content. -/
theorem own (id : ResourceId) (hborrowed : r'.borrowed = r.borrowed)
    (howned : ∀ a, r'.owned.count a = [id].count a + r.owned.count a) : r.Adds r' [id] [id] where
  all := by
    refine List.perm_iff_count.mpr fun a => ?_
    unfold References.all
    rw [hborrowed, List.count_append, List.count_append, List.count_append, howned,
      Nat.add_left_comm]
  owned := List.perm_iff_count.mpr fun a => (howned a).trans List.count_append.symm

end References.Adds

namespace Recorder

variable {r r' : Recorder} {command : Command}

theorem addPaint_adds (r : Recorder) (paint : Paint) : r.list.references.Adds
    (r.addPaint paint).list.references paint.shader.toList paint.shader.toList := by
  unfold addPaint
  cases paint.shader with
  | none => exact .none _
  | some shader =>
    refine .own shader rfl fun a => ?_
    simp only [References.owned, Array.toList_push, List.count_append]
    omega

theorem addPainted?_adds (r : Recorder) (paint : Option Paint) (op : Option Nat → DrawOp) :
    r.list.references.Adds (r.addPainted? paint op).list.references
      (paint.bind (·.shader)).toList (paint.bind (·.shader)).toList := by
  cases paint with
  | none => exact .none _
  | some paint => exact r.addPaint_adds paint

/-- References are added, and then those of a paint. -/
theorem addReferences_adds {f : References → References} {ids mine : List ResourceId}
    (h : r.list.references.Adds (f r.list.references) ids mine) (paint : Option Paint)
    (op : Option Nat → DrawOp) : r.list.references.Adds
      ((r.addReferences f).addPainted? paint op).list.references
      (ids ++ (paint.bind (·.shader)).toList) (mine ++ (paint.bind (·.shader)).toList) :=
  h.trans (addPainted?_adds (r.addReferences f) paint op)

/-- A command that is recorded adds its references. -/
theorem perform_adds (h : r.perform command = .ok r') :
    r.list.references.Adds r'.list.references command.references command.owned := by
  cases command with
  | restore =>
    simp only [perform] at h
    split at h <;> cases h
    exact .none _
  | restoreTo count =>
    simp only [perform] at h
    split at h <;> cases h
    exact .none _
  | receive =>
    simp only [perform] at h
    split at h <;> cases h
    exact .none _
  | rect rect paint =>
    obtain rfl := Except.ok.inj h
    exact r.addPaint_adds paint
  | roundRect rect rx ry paint =>
    obtain rfl := Except.ok.inj h
    exact r.addPaint_adds paint
  | circle center radius paint =>
    obtain rfl := Except.ok.inj h
    exact r.addPaint_adds paint
  | text text origin paint =>
    obtain rfl := Except.ok.inj h
    exact r.addPaint_adds paint
  | path path source paint =>
    obtain rfl := Except.ok.inj h
    cases source with
    | none => exact addPaint_adds _ paint
    | some id =>
      let copied : Recorder := { r with list := { r.list with paths := r.list.paths.push path } }
      let referred := copied.addReferences fun refs =>
        { refs with sourcePaths := refs.sourcePaths.push id }
      have hsource : r.list.references.Adds referred.list.references [id] [] := by
        refine .borrow id (fun a => ?_) rfl
        simp only [referred, copied, References.borrowed, addReferences, Array.toList_push,
          List.count_append]
        omega
      exact hsource.trans (referred.addPaint_adds paint)
  | bitmap id target paint =>
    obtain rfl := Except.ok.inj h
    refine r.addReferences_adds (.borrow id (fun a => ?_) rfl) paint _
    simp only [References.borrowed, Array.toList_push, List.count_append]
    omega
  | ownedBitmap id target paint =>
    obtain rfl := Except.ok.inj h
    refine r.addReferences_adds (.own id rfl fun a => ?_) paint _
    simp only [References.owned, Array.toList_push, List.count_append]
    omega
  | patch id target paint =>
    obtain rfl := Except.ok.inj h
    refine r.addReferences_adds (.borrow id (fun a => ?_) rfl) paint _
    simp only [References.borrowed, Array.toList_push, List.count_append]
    omega
  | layer id x y =>
    obtain rfl := Except.ok.inj h
    refine .borrow id (fun a => ?_) rfl
    simp only [References.borrowed, addReferences, addOp, Array.toList_push, List.count_append]
    omega
  | _ =>
    obtain rfl := Except.ok.inj h
    exact .none _

theorem perform_spent (h : r.perform command = .ok r') : r'.list.spent = r.list.spent := by
  cases command with
  | restore =>
    simp only [perform] at h
    split at h <;> cases h
    rfl
  | restoreTo count =>
    simp only [perform] at h
    split at h <;> cases h
    rfl
  | receive =>
    simp only [perform] at h
    split at h <;> cases h
    rfl
  | path path source paint =>
    obtain rfl := Except.ok.inj h
    cases source <;> rfl
  | bitmap id target paint =>
    obtain rfl := Except.ok.inj h
    cases paint <;> rfl
  | ownedBitmap id target paint =>
    obtain rfl := Except.ok.inj h
    cases paint <;> rfl
  | patch id target paint =>
    obtain rfl := Except.ok.inj h
    cases paint <;> rfl
  | _ =>
    obtain rfl := Except.ok.inj h
    rfl

/-- A command that is refused refers to nothing. -/
theorem references_of_refused {e : RecordError} (h : r.perform command = .error e) :
    command.references = [] ∧ command.owned = [] := by
  cases command <;> first | exact ⟨rfl, rfl⟩ | cases h

/-! ### Recordings -/

theorem performAll_concat (r : Recorder) (commands : List Command) (command : Command) :
    r.performAll (commands ++ [command]) =
      ((r.performAll commands).perform command).toOption.getD (r.performAll commands) :=
  List.foldl_concat ..

/-- The recorder has been given commands, of which it may have refused some. -/
def IsBegun (r : Recorder) : Prop := ∃ commands, r = performAll {} commands

theorem IsBegun.empty : ({} : Recorder).IsBegun := ⟨[], rfl⟩

theorem IsBegun.perform (h : r.IsBegun) (command : Command) :
    ((r.perform command).toOption.getD r).IsBegun := by
  obtain ⟨commands, rfl⟩ := h
  exact ⟨commands ++ [command], (performAll_concat {} commands command).symm⟩

theorem IsBegun.not_spent (h : r.IsBegun) : r.list.spent = false := by
  obtain ⟨commands, rfl⟩ := h
  exact performAll_induct (fun _ _ _ hspent hr => (perform_spent hr).trans hspent) rfl commands

end Recorder

/-- The list is as a recorder has finished it. -/
def DisplayList.IsFinished (l : DisplayList) : Prop :=
  ∃ r : Recorder, r.IsBegun ∧ r.finish = .ok l

namespace DisplayList.IsFinished

variable {l : DisplayList}

theorem not_spent (h : l.IsFinished) : l.spent = false := by
  obtain ⟨r, hr, hfinish⟩ := h
  obtain ⟨-, rfl⟩ := Recorder.finish_eq_ok_iff.mp hfinish
  exact hr.not_spent

end DisplayList.IsFinished

end RetainedScene
