import RetainedScene.Proofs.Cache.Entries
import RetainedScene.Proofs.DisplayList.References
import RetainedScene.Proofs.DisplayList.Saves
import RetainedScene.Proofs.World.Lifetime

/-!
# Refusals

A recorder refuses a command exactly when the commands before it call for that: `Progress` counts
the saves that are open and the operations that were recorded, and reads off them whether and why a
command is refused (`Progress.refusal?`), and whether a recording may be finished.

A refused command changes nothing, neither the recorder nor the cache, so a recording comes to the
same without it.  A recording that cannot be finished gives its references back, and that leaves the
entry of every resource as it was before the recording unless the recording owned it
(`Shared.recording_refusals`).
-/

namespace RetainedScene

open Cache

/-! ### How far a recording has come -/

/-- What decides whether a command is refused. -/
structure Progress where
  openSaves : Nat := 0
  ops : Nat := 0
  deriving DecidableEq

namespace Progress

/-- Why a command is refused, if it is. -/
def refusal? (p : Progress) : Command → Option RecordError
  | .restore => if p.openSaves = 0 then some .restoreWithoutSave else none
  | .restoreTo count => if count < 1 then some (.invalidCount count) else none
  | .receive => if p.ops = 0 then some .receiveWithoutOps else none
  | _ => none

/-- What a command comes to that is not refused. -/
def after (p : Progress) : Command → Progress
  | .save _ => ⟨p.openSaves + 1, p.ops + 1⟩
  | .restore => ⟨p.openSaves - 1, p.ops + 1⟩
  | .restoreTo count => ⟨min p.openSaves (count.toNat - 1), p.ops + 1⟩
  | .receive => p
  | _ => ⟨p.openSaves, p.ops + 1⟩

/-- What a command comes to; one that is refused comes to nothing. -/
def step (p : Progress) (command : Command) : Progress :=
  match p.refusal? command with
  | some _ => p
  | none => p.after command

/-- The commands that are not refused. -/
def accepted (p : Progress) : List Command → List Command
  | [] => []
  | command :: commands =>
    match p.refusal? command with
    | some _ => p.accepted commands
    | none => command :: (p.after command).accepted commands

/-- Why a recording cannot be finished, if it cannot. -/
def unfinished? (p : Progress) : Option RecordError :=
  if p.openSaves = 0 then none else some (.openSaves p.openSaves)

variable {p : Progress} {command : Command} {e : RecordError}

theorem step_of_refused (h : p.refusal? command = some e) : p.step command = p := by
  rw [step, h]

theorem step_of_accepted (h : p.refusal? command = none) : p.step command = p.after command := by
  rw [step, h]

/-- None of the commands that are left is refused. -/
theorem refusal?_of_accepted {commands before later : List Command}
    (h : p.accepted commands = before ++ command :: later) :
    (before.foldl step p).refusal? command = none := by
  induction commands generalizing p before with
  | nil =>
    rw [accepted, eq_comm, List.append_eq_nil_iff] at h
    cases h.2
  | cons first commands ih =>
    rw [accepted] at h
    cases hfirst : p.refusal? first with
    | some e =>
      rw [hfirst] at h
      exact ih h
    | none =>
      rw [hfirst] at h
      cases before with
      | nil =>
        obtain ⟨rfl, -⟩ := List.cons.inj h
        exact hfirst
      | cons _ before =>
        obtain ⟨rfl, hrest⟩ := List.cons.inj h
        rw [List.foldl_cons, step_of_accepted hfirst]
        exact ih hrest

end Progress

/-! ### Recorders -/

namespace Recorder

variable {r r' : Recorder} {p : Progress} {command : Command}

/-- The recorder has come as far as it should. -/
structure Tracks (r : Recorder) (p : Progress) : Prop where
  saves : r.saves.depth = p.openSaves
  ops : r.list.ops.size = p.ops

namespace Tracks

theorem empty : ({} : Recorder).Tracks {} := ⟨rfl, rfl⟩

theorem saves_isEmpty_iff (h : r.Tracks p) : r.saves.below.isEmpty ↔ p.openSaves = 0 := by
  rw [List.isEmpty_iff_length_eq_zero, ← r.saves.depth_eq, h.saves]

theorem ops_isEmpty_iff (h : r.Tracks p) : r.list.ops.isEmpty ↔ p.ops = 0 := by
  rw [Array.isEmpty_iff_size_eq_zero, h.ops]

/-- A command is refused when it is to be, and for that reason. -/
theorem perform_eq_error_iff (h : r.Tracks p) {e : RecordError} :
    r.perform command = .error e ↔ p.refusal? command = some e := by
  cases command with
  | restore =>
    rw [perform, Progress.refusal?, if_congr h.saves_isEmpty_iff rfl rfl]
    split_ifs <;> simp
  | restoreTo count =>
    rw [perform, Progress.refusal?]
    split_ifs <;> simp
  | receive =>
    rw [perform, Progress.refusal?, if_congr h.ops_isEmpty_iff rfl rfl]
    split_ifs <;> simp
  | _ => exact iff_of_false (fun h => by cases h) fun h => by cases h

theorem push (h : r.Tracks p) {op : DrawOp} {openSaves : Nat}
    (hops : r'.list.ops = r.list.ops.push op) (hsaves : r'.saves.depth = openSaves) :
    r'.Tracks ⟨openSaves, p.ops + 1⟩ := by
  refine ⟨hsaves, ?_⟩
  rw [hops, Array.size_push, h.ops]

/-- The saves are as they were. -/
theorem pushSame (h : r.Tracks p) {op : DrawOp} (hops : r'.list.ops = r.list.ops.push op)
    (hsaves : r'.saves.depth = r.saves.depth) : r'.Tracks ⟨p.openSaves, p.ops + 1⟩ :=
  h.push hops (hsaves.trans h.saves)

theorem perform (h : r.Tracks p) (hr : r.perform command = .ok r') :
    r'.Tracks (p.after command) := by
  cases command with
  | save flags =>
    obtain rfl := Except.ok.inj hr
    exact h.push rfl (congrArg (· + 1) h.saves)
  | restore =>
    simp only [Recorder.perform] at hr
    split at hr <;> cases hr
    exact h.push rfl (r.saves.depth_restore.trans (congrArg (· - 1) h.saves))
  | restoreTo count =>
    simp only [Recorder.perform] at hr
    split at hr
    · cases hr
    · next hcount =>
      obtain rfl := Except.ok.inj hr
      exact h.push rfl ((r.saves.depth_restoreTo hcount).trans (congrArg (min · _) h.saves))
  | receive =>
    simp only [Recorder.perform] at hr
    split at hr <;> cases hr
    exact ⟨h.saves, h.ops⟩
  | path path source paint =>
    obtain rfl := Except.ok.inj hr
    cases source <;> exact h.pushSame rfl rfl
  | bitmap id target paint =>
    obtain rfl := Except.ok.inj hr
    cases paint <;> exact h.pushSame rfl rfl
  | ownedBitmap id target paint =>
    obtain rfl := Except.ok.inj hr
    cases paint <;> exact h.pushSame rfl rfl
  | patch id target paint =>
    obtain rfl := Except.ok.inj hr
    cases paint <;> exact h.pushSame rfl rfl
  | _ =>
    obtain rfl := Except.ok.inj hr
    exact h.pushSame rfl rfl

theorem step (h : r.Tracks p) : ((r.perform command).toOption.getD r).Tracks (p.step command) := by
  cases hr : r.perform command with
  | error e =>
    rw [Progress.step_of_refused (h.perform_eq_error_iff.mp hr)]
    exact h
  | ok r' =>
    have hnone : p.refusal? command = none := by
      refine Option.eq_none_iff_forall_ne_some.mpr fun e he => ?_
      rw [h.perform_eq_error_iff.mpr he] at hr
      cases hr
    rw [Progress.step_of_accepted hnone]
    exact h.perform hr

theorem finish_eq_error_iff (h : r.Tracks p) {e : RecordError} :
    r.finish = .error e ↔ p.unfinished? = some e := by
  have hdepth : r.saves.below.length = p.openSaves := r.saves.depth_eq.symm.trans h.saves
  unfold finish Progress.unfinished?
  rw [if_congr h.saves_isEmpty_iff rfl rfl, hdepth]
  split_ifs <;> simp

end Tracks

/-- The references that commands make are added, refused commands making none. -/
theorem performAll_adds (r : Recorder) (commands : List Command) :
    r.list.references.Adds (r.performAll commands).list.references
      (commands.flatMap Command.references) (commands.flatMap Command.owned) := by
  induction commands generalizing r with
  | nil => exact .none _
  | cons command commands ih =>
    have hfirst : r.list.references.Adds ((r.perform command).toOption.getD r).list.references
        command.references command.owned := by
      cases hr : r.perform command with
      | error e =>
        obtain ⟨hreferences, howned⟩ := references_of_refused hr
        rw [hreferences, howned]
        exact .none _
      | ok r' => exact perform_adds hr
    exact hfirst.trans (ih _)

end Recorder

/-! ### Recording on a cache -/

namespace Shared

variable {c : Shared} {r : Recorder} {p : Progress} {command : Command} {e : RecordError}

/-- Gives a recorder commands, one after the other; it stays as it is where one is refused. -/
def record (c : Shared) (r : Recorder) : List Command → Recorder × Shared
  | [] => (r, c)
  | command :: commands =>
    (c.perform r command).2.record ((c.perform r command).1.toOption.getD r) commands

theorem perform_fst (c : Shared) (r : Recorder) (command : Command) :
    (c.perform r command).1 = r.perform command := by
  unfold perform
  cases r.perform command <;> rfl

theorem perform_of_refused (h : r.perform command = .error e) (c : Shared) :
    c.perform r command = (.error e, c) := by
  unfold perform
  rw [h]

/-- A command takes its references; one that is refused makes none. -/
theorem perform_snd (c : Shared) (r : Recorder) (command : Command) :
    (c.perform r command).2 = command.references.foldl retain c := by
  unfold perform
  cases hr : r.perform command with
  | error e => rw [(Recorder.references_of_refused hr).1]; rfl
  | ok r' => rfl

theorem record_concat (c : Shared) (r : Recorder) (commands : List Command) (command : Command) :
    c.record r (commands ++ [command]) =
      (c.record r commands).2.record (c.record r commands).1 [command] := by
  induction commands generalizing c r with
  | nil => rfl
  | cons first commands ih => exact ih _ _

theorem record_fst (c : Shared) (r : Recorder) (commands : List Command) :
    (c.record r commands).1 = r.performAll commands := by
  induction commands generalizing c r with
  | nil => rfl
  | cons command commands ih => rw [record, ih, perform_fst]; rfl

/-- All that the cache is asked for is to take the references. -/
theorem cache_record (c : Shared) (r : Recorder) (commands : List Command) :
    (c.record r commands).2.cache =
      ((commands.flatMap Command.references).map Act.retain).foldl act c.cache := by
  induction commands generalizing c r with
  | nil => rfl
  | cons command commands ih =>
    rw [record, ih, perform_snd, List.flatMap_cons, List.map_append, List.foldl_append]
    congr 1
    rw [List.map_eq_flatMap]
    exact cache_foldl cache_retain c

/-- An entry counts the references that the commands made to its resource. -/
theorem find?_record (c : Shared) (r : Recorder) (commands : List Command) (id : ResourceId) :
    (c.record r commands).2.cache.find? id = (c.cache.find? id).map fun entry =>
      { entry with references :=
          entry.references + (commands.flatMap Command.references).count id } := by
  rw [cache_record]
  exact find?_foldl_retain _ _ id

/-- On the way a recording counts no more references to a resource than at its end. -/
theorem references_record_le {before commands : List Command} (h : before <+: commands)
    {id : ResourceId} {entry entry' : CacheEntry} (hentry : c.cache.find? id = some entry)
    (hentry' : (c.record r before).2.cache.find? id = some entry') : entry'.references ≤
      entry.references + (commands.flatMap Command.references).count id := by
  obtain ⟨later, rfl⟩ := h
  rw [find?_record, hentry] at hentry'
  obtain rfl := Option.some.inj hentry'
  rw [List.flatMap_append, List.count_append]
  exact Nat.add_le_add_left (Nat.le_add_right _ _) _

theorem tracks_record (h : r.Tracks p) (c : Shared) (commands : List Command) :
    (c.record r commands).1.Tracks (commands.foldl Progress.step p) := by
  induction commands generalizing c r p with
  | nil => exact h
  | cons command commands ih =>
    refine ih ?_ _
    rw [perform_fst]
    exact h.step

/-- Without the commands that are refused a recording comes to the same. -/
theorem record_accepted (h : r.Tracks p) (c : Shared) (commands : List Command) :
    c.record r (p.accepted commands) = c.record r commands := by
  induction commands generalizing c r p with
  | nil => rfl
  | cons command commands ih =>
    rw [Progress.accepted, record]
    cases hp : p.refusal? command with
    | some e =>
      rw [perform_of_refused (h.perform_eq_error_iff.mpr hp)]
      exact ih h c
    | none =>
      have hafter : Recorder.Tracks _ (p.step command) := h.step
      rw [Progress.step_of_accepted hp, ← perform_fst c] at hafter
      exact ih hafter _

/-- A recording that cannot be finished leaves the entry of a resource that it did not own as it was
before. -/
theorem find?_finish_of_refused {commands : List Command} {id : ResourceId}
    (hc : c.cache.NoneDead) (hid : id ∉ commands.flatMap Command.owned)
    (h : ((c.record {} commands).2.finish (c.record {} commands).1).1 = .error e) :
    ((c.record {} commands).2.finish (c.record {} commands).1).2.cache.find? id =
      c.cache.find? id := by
  have hlist := record_fst c {} commands
  have hbegun : (c.record {} commands).1.IsBegun := ⟨commands, hlist⟩
  obtain ⟨hall, howned⟩ := Recorder.performAll_adds {} commands
  rw [← hlist] at hall howned
  have hid' : id ∉ (c.record {} commands).1.list.references.owned := fun hmem =>
    hid (((List.append_nil _).symm ▸ howned).mem_iff.mp hmem)
  have hcount : (commands.flatMap Command.references).count id =
      (c.record {} commands).1.list.references.borrowed.count id := by
    have hcount := hall.count_eq id
    rw [References.all, List.count_append, List.count_eq_zero.mpr hid', Nat.add_zero,
      List.count_append] at hcount
    exact hcount.symm
  unfold finish at h ⊢
  cases hfinish : (c.record {} commands).1.finish with
  | ok l =>
    rw [hfinish] at h
    cases h
  | error e =>
    dsimp only
    rw [cache_returnReferences hbegun.not_spent, cache_record, ← List.foldl_append]
    exact find?_take_give hc hcount hid'

theorem finish_eq_error_iff (h : r.Tracks p) :
    (c.finish r).1 = .error e ↔ p.unfinished? = some e := by
  rw [← h.finish_eq_error_iff]
  unfold finish
  cases r.finish <;> simp

/-- A recording on a cache is refused commands exactly as its progress says, and for the reasons
that it says, and a command that is refused changes neither the recorder nor what is shared.  So the
recording comes to the same without those commands, and then none is refused.  It cannot be finished
exactly when saves are open, and is told how many.  Counts of references have 32 bits, and none
leaves them while the references that there were before and those that the commands make come to
fewer than 2^32.  If the recording cannot be finished, and the cache was only asked for its
references in the meantime, the entry of a resource that it did not own is as it was before. -/
theorem recording_refusals {past : List Act} (hcache : c.cache = past.foldl act {})
    (commands : List Command) :
    let s := c.record {} commands
    let p := commands.foldl Progress.step {}
    (∀ command e, (s.2.perform s.1 command).1 = .error e ↔ p.refusal? command = some e) ∧
    (∀ command e, (s.2.perform s.1 command).1 = .error e →
      (s.2.perform s.1 command).2 = s.2 ∧ c.record {} (commands ++ [command]) = s) ∧
    (c.record {} (Progress.accepted {} commands) = s ∧
      ∀ before command later, Progress.accepted {} commands = before ++ command :: later →
        ∃ r', ((c.record {} before).2.perform (c.record {} before).1 command).1 = .ok r') ∧
    (∀ e, (s.2.finish s.1).1 = .error e ↔ 0 < p.openSaves ∧ e = .openSaves p.openSaves) ∧
    (∀ id entry, c.cache.find? id = some entry →
      entry.references + (commands.flatMap Command.references).count id < UInt32.size →
      ∀ before entry', before <+: commands →
        (c.record {} before).2.cache.find? id = some entry' → entry'.references < UInt32.size) ∧
    ∀ e, (s.2.finish s.1).1 = .error e → ∀ id ∉ commands.flatMap Command.owned,
      (s.2.finish s.1).2.cache.find? id = c.cache.find? id := by
  have htracks (commands : List Command) :
      (c.record {} commands).1.Tracks (commands.foldl Progress.step {}) :=
    tracks_record .empty c commands
  refine ⟨fun command e => ?_, fun command e he => ?_, ⟨record_accepted .empty c commands,
    fun before command later hsplit => ?_⟩, fun e => ?_,
    fun id entry hentry hroom before entry' hbefore hentry' =>
      Nat.lt_of_le_of_lt (references_record_le hbefore hentry hentry') hroom, fun e he id hid => ?_⟩
  · rw [perform_fst]
    exact (htracks commands).perform_eq_error_iff
  · have hrefused := perform_of_refused ((perform_fst _ _ _).symm.trans he)
      (c.record {} commands).2
    refine ⟨by rw [hrefused], ?_⟩
    rw [record_concat, record, record, hrefused]
    rfl
  · rw [perform_fst]
    cases hr : (c.record {} before).1.perform command with
    | ok r' => exact ⟨r', rfl⟩
    | error e =>
      have hrefused := (htracks before).perform_eq_error_iff.mp hr
      rw [Progress.refusal?_of_accepted hsplit] at hrefused
      cases hrefused
  · rw [finish_eq_error_iff (htracks commands), Progress.unfinished?]
    split_ifs with hclosed
    · exact iff_of_false nofun fun h => Nat.ne_of_gt h.1 hclosed
    · rw [Option.some.injEq, eq_comm, and_iff_right (Nat.pos_of_ne_zero hclosed)]
  · refine find?_finish_of_refused ?_ hid he
    rw [hcache]
    exact NoneDead.empty.foldl past

/-- A layer is referred to by a list and destroyed. -/
def borrowing : Shared where
  cache := [.register .layer 128, .register .bitmap 64, .retain ⟨0⟩, .destroy ⟨0⟩].foldl act {}

/-- The layer is recorded under every kind that is only given back, a bitmap is recorded as owned,
and four commands are refused on the way; two saves are never restored. -/
def fumbled : List Command := [
  .restore, .receive, .layer ⟨0⟩ 0 0, .patch ⟨0⟩ (.ofSize 4 4) none, .restoreTo 0, .save .matrix,
  .bitmap ⟨0⟩ (.ofSize 4 4) none, .restore, .restore, .save .matrix, .receive,
  .ownedBitmap ⟨1⟩ (.ofSize 4 4) none, .save .matrix, .layer ⟨0⟩ 2 2]

/-- It is told of the two saves, and the layer is referred to by the list alone again.  There was
room to count the references to the layer. -/
theorem fumbled_leaves_layer :
    let s := borrowing.record {} fumbled
    (s.2.finish s.1).1 = .error (.openSaves 2) ∧
      (∀ before entry, before <+: fumbled →
        (borrowing.record {} before).2.cache.find? ⟨0⟩ = some entry →
        entry.references < UInt32.size) ∧
      (s.2.finish s.1).2.cache.find? ⟨0⟩ = some ⟨.layer, 128, 1, true⟩ := by
  have hcache : borrowing.cache =
      [.register .layer 128, .register .bitmap 64, .retain ⟨0⟩, .destroy ⟨0⟩].foldl act {} := rfl
  have hopen : (fumbled.foldl Progress.step {}).openSaves = 2 := by decide
  have hlayer : borrowing.cache.find? ⟨0⟩ = some ⟨.layer, 128, 1, true⟩ := by decide
  obtain ⟨-, -, -, hfinish, hroom, hleaves⟩ := recording_refusals hcache fumbled
  have hrefused := (hfinish (.openSaves 2)).mpr ⟨hopen ▸ Nat.two_pos, by rw [hopen]⟩
  exact ⟨hrefused, hroom _ _ hlayer (by decide), (hleaves _ hrefused ⟨0⟩ (by decide)).trans hlayer⟩

end Shared

end RetainedScene
