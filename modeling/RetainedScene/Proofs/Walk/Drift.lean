import RetainedScene.Proofs.Walk.Course
import RetainedScene.Proofs.Walk.Deferral
import RetainedScene.Proofs.Walk.Fading

/-!
# How a plan moves the states of a canvas

A plan holds what was handed out to change state, and not the saves and restores that the walk makes
by itself.  So the canvas that a plan is carried out on drifts from the one that it was made with:
it has fewer states saved while children are drawn out of place, and more after them.

What bounds the drift is that restores count from the bottom.  Between the save of a node and its
restore nothing restores to a lower count than that of the save, and never has the canvas more
states saved than the one that the plan was made with, but for the one or two saves around a child
out of place (`Stage.Drifts`).  So the entries of a node keep what was saved before them, and on a
canvas with as many states as the one that the plan was made with they lead back to its states
(`visit_returns`).
-/

namespace RetainedScene

open Relation

/-! ### Stacks -/

namespace SaveStack

variable {α : Type} {s : SaveStack α} {base : List α}

/-- A restore to a count keeps what was saved at that count. -/
theorem suffix_restoreTo (h : base <:+ s.below) {count : Int} (hcount : base.length < count) :
    base <:+ (s.restoreTo count).below := by
  obtain ⟨saved, hsaved⟩ := h
  have hlength := congrArg List.length hsaved
  rw [List.length_append] at hlength
  rw [restoreTo, below_restoreTimes, ← hsaved, List.drop_append_of_le_length]
  · exact List.suffix_append _ _
  · rw [saveCount_eq]
    omega

end SaveStack

/-! ### Entries -/

namespace PlanEntry

/-- A draw of the plan draws something. -/
def IsApt : PlanEntry → Prop
  | draw op _ _ => op.ink?.isSome
  | barrier _ _ => True

end PlanEntry

namespace Canvas

/-- Carries out entries of a plan. -/
def playAll (c : Canvas) (entries : List PlanEntry) : Canvas := entries.foldl play c

theorem playAll_append (c : Canvas) (entries entries' : List PlanEntry) :
    c.playAll (entries ++ entries') = (c.playAll entries).playAll entries' := List.foldl_append

theorem saveCount_eq_below (c : Canvas) : c.saveCount = c.stack.below.length + 1 :=
  c.stack.saveCount_eq

theorem saveCount_of_below_eq {c d : Canvas} (h : c.stack.below = d.stack.below) :
    c.saveCount = d.saveCount := by
  rw [saveCount_eq_below, saveCount_eq_below, h]

theorem saveCount_of_restored {c d : Canvas} {count : Nat}
    (h : d.stack = c.stack.restoreTo count) (hcount : 0 < count) :
    d.saveCount = min c.saveCount count := by
  unfold saveCount
  rw [h, SaveStack.saveCount_restoreTo]
  omega

/-- Draws leave the alpha of the layer as it was when the last one of them was recorded. -/
theorem layerAlpha_playAll (c : Canvas) {entries : List PlanEntry}
    (h : ∀ entry ∈ entries, entry.IsApt) : (c.playAll entries).layerAlpha =
      ((entries.filterMap PlanEntry.draw?).getLast?.map (·.2.layerAlpha)).getD c.layerAlpha := by
  induction entries using List.reverseRecOn with
  | nil => rfl
  | append_singleton entries entry ih =>
    have hentries := ih fun entry hmem => h entry (List.mem_append_left _ hmem)
    rw [playAll_append, List.filterMap_append]
    cases entry with
    | barrier op offset =>
      have hnone : [PlanEntry.barrier op offset].filterMap PlanEntry.draw? = [] := rfl
      rw [hnone, List.append_nil, ← hentries]
      exact layerAlpha_issue _ offset op
    | draw op state clip =>
      have hink : op.ink?.isSome := h (.draw op state clip) (by simp)
      obtain ⟨ink, hink⟩ := Option.isSome_iff_exists.mp hink
      have hdraw : [PlanEntry.draw op state clip].filterMap PlanEntry.draw? = [(ink, state)] := by
        simp [PlanEntry.draw?, hink]
      rw [hdraw, List.getLast?_concat]
      exact layerAlpha_issue _ 0 op

end Canvas

namespace PlanEntry

/-- On a canvas with at most so many states the entries keep what is saved, and in the end there are
at most so many again. -/
def Spare (bound : Nat) (entries : List PlanEntry) : Prop :=
  ∀ c : Canvas, c.saveCount ≤ bound →
    c.stack.below <:+ (c.playAll entries).stack.below ∧ (c.playAll entries).saveCount ≤ bound

variable {bound : Nat} {entries entries' : List PlanEntry}

theorem Spare.nil (bound : Nat) : Spare bound [] := fun _ hc => ⟨List.suffix_rfl, hc⟩

theorem Spare.append (h : Spare bound entries) (h' : Spare bound entries') :
    Spare bound (entries ++ entries') := by
  intro c hc
  obtain ⟨hkept, hcount⟩ := h c hc
  obtain ⟨hkept', hcount'⟩ := h' _ hcount
  rw [Canvas.playAll_append]
  exact ⟨hkept.trans hkept', hcount'⟩

/-- Entries that leave alone what is saved. -/
theorem Spare.of_below_eq (h : ∀ c : Canvas, (c.playAll entries).stack.below = c.stack.below) :
    Spare bound entries := by
  intro c hc
  rw [h c, Canvas.saveCount_of_below_eq (h c)]
  exact ⟨List.suffix_rfl, hc⟩

/-- Whatever was saved meanwhile, a restore to the count brings the canvas back below it. -/
theorem Spare.of_restored (hbound : 0 < bound)
    (hkept : ∀ c : Canvas, c.saveCount ≤ bound →
      c.stack.below <:+ (c.playAll entries).stack.below)
    (hrestored : ∀ c : Canvas, (c.playAll entries').stack = c.stack.restoreTo bound) :
    Spare bound (entries ++ entries') := by
  intro c hc
  have hlength := c.saveCount_eq_below
  rw [Canvas.playAll_append, Canvas.saveCount_of_restored (hrestored _) hbound, hrestored]
  exact ⟨SaveStack.suffix_restoreTo (hkept c hc) (by omega), Nat.min_le_right _ _⟩

end PlanEntry

namespace Stage

/-- The entries were added to the plan. -/
structure Plans (entries : List PlanEntry) (s t : Stage (Plan × List Sight)) : Prop where
  entries_eq : t.gathered.1.entries.toList = s.gathered.1.entries.toList ++ entries
  apt : ∀ entry ∈ entries, entry.IsApt

/-- The count of states is as it was, and entries were added to the plan that spare what is saved on
canvases with at most so many states. -/
def Drifts (bound : Nat) (s t : Stage (Plan × List Sight)) : Prop :=
  t.canvas.saveCount = s.canvas.saveCount ∧ ∃ entries, Plans entries s t ∧
    PlanEntry.Spare bound entries

/-- The entries that were added to the plan lead back to the states of every canvas that has as many
as the one that the plan is made with. -/
def Returns (s t : Stage (Plan × List Sight)) : Prop :=
  t.canvas.saveCount = s.canvas.saveCount ∧ ∃ entries, Plans entries s t ∧
    PlanEntry.Spare s.canvas.saveCount entries ∧
      ∀ c : Canvas, c.saveCount = s.canvas.saveCount → (c.playAll entries).stack = c.stack

variable {bound : Nat} {s t u : Stage (Plan × List Sight)} {entries entries' : List PlanEntry}

theorem Plans.trans (h : Plans entries s t) (h' : Plans entries' t u) :
    Plans (entries ++ entries') s u where
  entries_eq := by rw [h'.entries_eq, h.entries_eq, List.append_assoc]
  apt entry hmem := (List.mem_append.mp hmem).elim (h.apt entry) (h'.apt entry)

/-- Nothing was planned. -/
theorem Plans.of_eq (h : t.gathered.1 = s.gathered.1) : Plans [] s t where
  entries_eq := by rw [h, List.append_nil]
  apt _ hmem := nomatch hmem

theorem Plans.of_idles (h : s.Idles t) : Plans [] s t := .of_eq (congrArg Prod.fst h.gathered)

theorem Drifts.trans (h : Drifts bound s t) (h' : Drifts bound t u) : Drifts bound s u := by
  obtain ⟨hcount, entries, hplans, hspare⟩ := h
  obtain ⟨hcount', entries', hplans', hspare'⟩ := h'
  exact ⟨hcount'.trans hcount, _, hplans.trans hplans', hspare.append hspare'⟩

theorem Drifts.of_idles (bound : Nat) (h : s.Idles t) : Drifts bound s t :=
  ⟨congrArg Canvas.saveCount h.canvas, [], .of_idles h, .nil bound⟩

theorem Returns.drifts (h : Returns s t) : Drifts s.canvas.saveCount s t := by
  obtain ⟨hcount, entries, hplans, hspare, -⟩ := h
  exact ⟨hcount, entries, hplans, hspare⟩

/-- Nothing was planned. -/
theorem Returns.of_eq (hcount : t.canvas.saveCount = s.canvas.saveCount)
    (hplan : t.gathered.1 = s.gathered.1) : Returns s t :=
  ⟨hcount, [], .of_eq hplan, .nil _, fun _ _ => rfl⟩

end Stage

/-! ### Operations on a canvas -/

namespace Canvas

/-- The canvas has a base saved and at least so many states over it, and altogether at most so many
more than the bound. -/
structure IsAbove (base : List Snapshot) (bound depth : Nat) (c : Canvas) : Prop where
  saved : ∃ saved, c.stack.below = saved ++ base ∧ depth ≤ saved.length
  count : c.saveCount ≤ bound + depth

namespace IsAbove

variable {base : List Snapshot} {bound depth depth' : Nat} {c d : Canvas}

theorem of_below_eq (h : c.IsAbove base bound depth) (hbelow : d.stack.below = c.stack.below) :
    d.IsAbove base bound depth where
  saved := hbelow ▸ h.saved
  count := saveCount_of_below_eq hbelow ▸ h.count

theorem spare {entries : List PlanEntry} (h : c.IsAbove base bound depth)
    (hentries : PlanEntry.Spare (bound + depth) entries) :
    (c.playAll entries).IsAbove base bound depth := by
  obtain ⟨⟨added, hadded⟩, hcount⟩ := hentries c h.count
  obtain ⟨saved, hsaved, hdepth⟩ := h.saved
  refine ⟨⟨added ++ saved, ?_, ?_⟩, hcount⟩
  · rw [← hadded, hsaved, List.append_assoc]
  · rw [List.length_append]
    omega

theorem save (h : c.IsAbove base bound depth) (flags : SaveFlags) :
    (c.save flags).IsAbove base bound (depth + 1) := by
  obtain ⟨saved, hsaved, hdepth⟩ := h.saved
  exact ⟨⟨c.top :: saved, congrArg (c.top :: ·) hsaved, Nat.succ_le_succ hdepth⟩,
    Nat.succ_le_succ h.count⟩

theorem restore (h : c.IsAbove base bound depth) (hpos : depth ≠ 0) :
    c.restore.IsAbove base bound (depth - 1) := by
  obtain ⟨saved, hsaved, hdepth⟩ := h.saved
  obtain ⟨first, saved, rfl⟩ := List.exists_cons_of_length_pos (by omega : 0 < saved.length)
  have hbelow : c.restore.stack.below = saved ++ base := by
    show c.stack.restore.below = _
    rw [SaveStack.below_restore, hsaved]
    rfl
  have hlength := congrArg List.length hsaved
  have hcount := h.count
  rw [saveCount_eq_below, hlength] at hcount
  refine ⟨⟨saved, hbelow, ?_⟩, ?_⟩
  · rw [List.length_cons] at hdepth
    omega
  · rw [saveCount_eq_below, hbelow]
    rw [List.cons_append, List.length_cons] at hcount
    omega

/-- A recorded restore to a count keeps the base, and what it says over it. -/
theorem restoreTo (h : c.IsAbove base bound depth) (hbase : base.length < bound) {count : Int}
    (hcount : ¬ count < 1) :
    (c.restoreTo ((bound : Int) - 1 + count)).IsAbove base bound (min depth (count.toNat - 1)) := by
  obtain ⟨saved, hsaved, hdepth⟩ := h.saved
  have hbound := h.count
  have hlength := congrArg List.length hsaved
  rw [List.length_append] at hlength
  rw [saveCount_eq_below, hlength] at hbound
  have htimes : c.stack.saveCount - (max ((bound : Int) - 1 + count) 1).toNat =
      saved.length + base.length + 1 - (bound - 1 + count.toNat) := by
    rw [SaveStack.saveCount_eq, hlength]
    omega
  have hbelow : (c.restoreTo ((bound : Int) - 1 + count)).stack.below =
      saved.drop (saved.length + base.length + 1 - (bound - 1 + count.toNat)) ++ base := by
    show (c.stack.restoreTo _).below = _
    rw [SaveStack.restoreTo, SaveStack.below_restoreTimes, htimes, hsaved]
    exact List.drop_append_of_le_length (by omega)
  refine ⟨⟨_, hbelow, ?_⟩, ?_⟩
  · rw [List.length_drop]
    omega
  · rw [saveCount_eq_below, hbelow, List.length_append, List.length_drop]
    omega

/-- An operation of balanced content keeps the base that the content was begun over. -/
theorem issueRecorded (h : c.IsAbove base bound depth) (hbase : base.length < bound)
    {list : DisplayList} {op : DrawOp} (hop : op.saves? depth = some depth') :
    (c.issueRecorded list ((bound : Int) - 1) op).IsAbove base bound depth' := by
  cases op with
  | save flags =>
    obtain rfl := Option.some.inj hop
    exact h.save flags
  | restore =>
    simp only [DrawOp.saves?] at hop
    split at hop
    · cases hop
    · next hdepth =>
      obtain rfl := Option.some.inj hop
      exact h.restore hdepth
  | restoreTo count =>
    simp only [DrawOp.saves?] at hop
    split at hop
    · cases hop
    · next hcount =>
      obtain rfl := Option.some.inj hop
      exact h.restoreTo hbase hcount
  | concat i => exact Option.some.inj hop ▸ elim_of _ h fun _ => h.of_below_eq rfl
  | clipPath i mode => exact Option.some.inj hop ▸ elim_of _ h fun _ => h.of_below_eq rfl
  | clipRegion i mode => exact Option.some.inj hop ▸ elim_of _ h fun _ => h.of_below_eq rfl
  | _ => exact Option.some.inj hop ▸ h.of_below_eq rfl

end IsAbove

/-- The save count after an operation of balanced content. -/
theorem saveCount_issueRecorded {c : Canvas} {bound depth depth' : Nat} {list : DisplayList}
    {op : DrawOp} (hcount : c.saveCount = bound + depth) (hbound : 0 < bound)
    (hop : op.saves? depth = some depth') :
    (c.issueRecorded list ((bound : Int) - 1) op).saveCount = bound + depth' := by
  have hlength : c.stack.below.length + 1 = bound + depth := c.saveCount_eq_below.symm.trans hcount
  have h : c.IsAbove (c.stack.below.drop depth) bound depth := by
    refine ⟨⟨c.stack.below.take depth, (List.take_append_drop _ _).symm, ?_⟩, hcount.le⟩
    rw [List.length_take]
    omega
  have hbase : (c.stack.below.drop depth).length + 1 = bound := by
    rw [List.length_drop]
    omega
  -- over a base that takes the whole bound there is room for no more states
  have hissued : (c.issueRecorded list ((bound : Int) - 1) op).IsAbove (c.stack.below.drop depth)
      bound depth' := h.issueRecorded (by omega) hop
  obtain ⟨saved, hsaved, hdepth⟩ := hissued.saved
  refine Nat.le_antisymm hissued.count ?_
  rw [saveCount_eq_below, hsaved, List.length_append]
  omega

/-- An operation of a node's properties, other than a restore, saves a state or saves none. -/
theorem exists_saves {op : PropertyOp} (hop : ∀ count, op ≠ .restoreTo count) :
    ∃ n, ∀ c : Canvas, c.stack.below <:+ (c.issue 0 (.property op)).stack.below ∧
      (c.issue 0 (.property op)).saveCount = c.saveCount + n := by
  have hnone {f : Canvas → Canvas} (hf : ∀ c, (f c).stack.below = c.stack.below) :
      ∃ n, ∀ c : Canvas, c.stack.below <:+ (f c).stack.below ∧
        (f c).saveCount = c.saveCount + n := by
    refine ⟨0, fun c => ?_⟩
    rw [hf c]
    exact ⟨List.suffix_rfl, saveCount_of_below_eq (hf c)⟩
  cases op with
  | save flags => exact ⟨1, fun c => ⟨List.suffix_cons _ _, rfl⟩⟩
  | restoreTo count => exact absurd rfl (hop count)
  | saveLayer bounds alpha flags =>
    refine ⟨1, fun c => ?_⟩
    have hbelow : (c.saveLayer bounds alpha flags).stack.below = c.top :: c.stack.below := by
      unfold saveLayer
      dsimp only
      split <;> rfl
    have hcount : (c.saveLayer bounds alpha flags).saveCount = c.saveCount + 1 :=
      saveCount_of_below_eq (d := c.save .matrix) hbelow
    exact ⟨hbelow ▸ List.suffix_cons _ _, hcount⟩
  | clipRect rect mode => exact hnone fun _ => rfl
  | clipOutline outline =>
    refine hnone fun c => ?_
    show (c.clipOutline outline).stack.below = _
    unfold clipOutline
    cases outline.bounds <;> rfl
  | shadow shadow => exact hnone fun _ => rfl

end Canvas

/-! ### What is handed out -/

/-- What is handed out is planned, and moves the saved states of the canvas that the plan is carried
out on as it moves those of the canvas that it is made with. -/
structure Operation.Planned (op : Operation) (offset : Int) (entries : List PlanEntry) : Prop where
  apt : ∀ entry ∈ entries, entry.IsApt
  playAll : op.changesState = true → ∀ c : Canvas, c.playAll entries = c.issue offset op
  below : ∀ c : Canvas, (c.playAll entries).stack.below = (c.issue offset op).stack.below

namespace Operation.Planned

variable {op : Operation}

theorem barrier (op : Operation) (offset : Int) : op.Planned offset [.barrier op offset] where
  apt _ hmem := List.mem_singleton.mp hmem ▸ trivial
  playAll _ _ := rfl
  below _ := rfl

theorem draw (hop : op.changesState = false) (hink : op.ink?.isSome) (offset : Int)
    (state : DisplayState) (clip : Bool) : op.Planned offset [.draw op state clip] where
  apt _ hmem := List.mem_singleton.mp hmem ▸ hink
  playAll h := absurd h (Bool.not_eq_true _ ▸ hop)
  below c := by
    rw [Canvas.stack_issue_of_not_changesState hop]
    show ((c.setDisplayState state).issue 0 op).stack.below = _
    rw [Canvas.stack_issue_of_not_changesState hop]
    rfl

theorem nil (hop : op.changesState = false) (offset : Int) : op.Planned offset [] where
  apt _ hmem := nomatch hmem
  playAll h := absurd h (Bool.not_eq_true _ ▸ hop)
  below c := by
    rw [Canvas.stack_issue_of_not_changesState hop]
    rfl

end Operation.Planned

theorem Handler.deferred_plans (level : Nat) (key : Key) (op : Operation) (offset : Int)
    (clip : Bool) (s : Stage Plan) : ∃ entries, op.Planned offset entries ∧
      (Handler.deferred.accept level key op offset clip s).gathered.entries.toList =
        s.gathered.entries.toList ++ entries := by
  have hrest : ∃ entries, op.Planned offset entries ∧
      (if op.changesState then (s.onCanvas (·.issue offset op)).gather (·.addBarrier op offset)
        else if op.batchKind?.isSome then s.gather (·.addDraw op s.canvas.displayState clip)
        else s.log (.notDeferred op.name)).gathered.entries.toList =
        s.gathered.entries.toList ++ entries := by
    cases hop : op.changesState with
    | true => exact ⟨_, .barrier op offset, Array.toList_push⟩
    | false =>
      cases hkind : op.batchKind? with
      | none => exact ⟨[], .nil hop offset, (List.append_nil _).symm⟩
      | some kind =>
        refine ⟨_, .draw hop (by rw [op.isSome_ink?, hkind]; rfl) offset s.canvas.displayState clip,
          ?_⟩
        show (s.gathered.addDraw op s.canvas.displayState clip).entries.toList = _
        rw [Plan.addDraw, hkind]
        exact Array.toList_push
  cases op with
  | child ref edge => exact ⟨[], .nil rfl offset, (List.append_nil _).symm⟩
  | recorded op list => exact hrest
  | property op => exact hrest

namespace Visit

variable {v : Visit (Plan × List Sight)} {s t : Stage (Plan × List Sight)}
  {below : Key → Stage (Plan × List Sight) → Stage (Plan × List Sight) → Prop} {ref : EdgeRef}
  {edge : Edge} {offset : Int} {ops : List DrawOp} {layer : Option Single}
  (hv : v.handler = Handler.deferred.watched)

include hv

theorem exists_plans (op : Operation) (offset : Int) (s : Stage (Plan × List Sight)) :
    ∃ entries, op.Planned offset entries ∧ Stage.Plans entries s (v.accepted op offset s) ∧
      (v.accepted op offset s).canvas.stack = (s.canvas.issue offset op).stack := by
  obtain ⟨entries, hplanned, hentries⟩ := Handler.deferred_plans v.level v.key op offset
    v.properties.clipToBounds s.unwatched
  refine ⟨entries, hplanned, ⟨?_, hplanned.apt⟩, ?_⟩
  · unfold accepted
    rw [hv]
    exact hentries
  · unfold accepted
    rw [hv]
    exact Handler.deferred_carries.accept _ _ _ _ _ _

/-- What leaves the saved states of every canvas alone spares them. -/
theorem drifts_accepted {op : Operation}
    (hop : ∀ c : Canvas, (c.issue offset op).stack.below = c.stack.below) (bound : Nat)
    (s : Stage (Plan × List Sight)) : s.Drifts bound (v.accepted op offset s) := by
  obtain ⟨entries, hplanned, hplans, hstack⟩ := exists_plans hv op offset s
  refine ⟨Canvas.saveCount_of_below_eq ((congrArg _ hstack).trans (hop _)), entries, hplans, ?_⟩
  exact .of_below_eq fun c => (hplanned.below c).trans (hop c)

/-- A restore to a count is planned. -/
theorem exists_restoreTo (count : Nat) (s : Stage (Plan × List Sight)) :
    ∃ entries, Stage.Plans entries s (v.accepted (.property (.restoreTo count)) 0 s) ∧
      (v.accepted (.property (.restoreTo count)) 0 s).canvas.stack =
        s.canvas.stack.restoreTo count ∧
      ∀ c : Canvas, (c.playAll entries).stack = c.stack.restoreTo count := by
  obtain ⟨entries, hplanned, hplans, hstack⟩ := exists_plans hv (.property (.restoreTo count)) 0 s
  have hissue (c : Canvas) :
      (c.issue 0 (.property (.restoreTo count))).stack = c.stack.restoreTo count := by
    show c.stack.restoreTo (0 + count) = _
    rw [Int.zero_add]
  refine ⟨entries, hplans, hstack.trans (hissue _), fun c => ?_⟩
  rw [hplanned.playAll rfl]
  exact hissue c

/-! #### Children -/

section

variable (hbelow : ∀ key s t, below key s t → s.Drifts s.canvas.saveCount t)

include hbelow

theorem Offers.drifts (h : v.Offers below ref edge offset s t) :
    s.Drifts s.canvas.saveCount t := by
  have haccepted : s.Drifts s.canvas.saveCount (v.accepted (.child ref edge) offset s) :=
    drifts_accepted hv (fun _ => rfl) _ s
  cases h with
  | held hheld => exact haccepted
  | descent hfree hdescent => exact haccepted.trans (haccepted.1 ▸ hbelow _ _ _ hdescent)

theorem Turns.drifts {mode : ClipMode} (h : v.Turns below mode s t) :
    s.Drifts (s.canvas.saveCount + 1) t := by
  cases h with
  | idle hidle => exact .of_idles _ hidle
  | shadow shadow s => exact drifts_accepted hv (fun _ => rfl) _ s
  | @placed ref edge transform offset s t _ hoffers =>
    -- the save around the child is not in the plan, so that the plan may have a state less saved
    obtain ⟨hcount, entries, hplans, hspare⟩ := hoffers.drifts hv hbelow
    refine ⟨?_, entries, ⟨hplans.entries_eq, hplans.apt⟩, hspare⟩
    have hsaved : t.canvas.saveCount = s.canvas.saveCount + 1 := hcount
    show (t.canvas.stack.restoreTo s.canvas.saveCount).saveCount = _
    rw [SaveStack.saveCount_restoreTo]
    have hpos := s.canvas.stack.saveCount_pos
    unfold Canvas.saveCount at hsaved ⊢
    omega

/-! #### Content -/

theorem drifts_pass {mode : ClipMode} (hturns : ReflTransGen (v.Turns below mode)
      (v.accepted (.property (.clipRect v.properties.bounds mode)) 0
        (s.onCanvas (·.save .matrixClip))) t) : s.Drifts s.canvas.saveCount
      (v.accepted (.property (.restoreTo s.canvas.saveCount)) 0 t) := by
  -- neither the save of the pass nor that around a child is in the plan
  have hinside : (s.onCanvas (·.save .matrixClip)).Drifts (s.canvas.saveCount + 2) t := by
    induction hturns with
    | refl => exact drifts_accepted hv (fun _ => rfl) _ _
    | @tail m u _ hturn ih =>
      have hcount : m.canvas.saveCount = s.canvas.saveCount + 1 := ih.1
      have hturn := hturn.drifts hv hbelow
      rw [hcount] at hturn
      exact ih.trans hturn
  obtain ⟨hcount, entries, hplans, hspare⟩ := hinside
  obtain ⟨entries', hplans', hstack, hrestored⟩ := exists_restoreTo hv s.canvas.saveCount t
  have hall := hplans.trans hplans'
  have hpos : 0 < s.canvas.saveCount := s.canvas.stack.saveCount_pos
  refine ⟨?_, entries ++ entries', ⟨hall.entries_eq, hall.apt⟩,
    .of_restored hpos (fun c hc => (hspare c (by omega)).1) hrestored⟩
  have hsaved : t.canvas.saveCount = s.canvas.saveCount + 1 := hcount
  rw [Canvas.saveCount_of_restored hstack hpos, hsaved]
  exact Nat.min_eq_right (Nat.le_succ _)

/-- Entries of content lead from one number of open saves to another, over any base. -/
theorem Course.drifts {bound depth depth' : Nat} (hbound : 0 < bound)
    (h : v.Course below ((bound : Int) - 1) ops s t)
    (hops : ops.foldlM DrawOp.saves? depth = some depth')
    (hcount : s.canvas.saveCount = bound + depth) :
    t.canvas.saveCount = bound + depth' ∧ ∃ entries, Stage.Plans entries s t ∧
      ∀ (base : List Snapshot) (c : Canvas), base.length < bound →
        c.IsAbove base bound depth → (c.playAll entries).IsAbove base bound depth' := by
  have hspare {s t : Stage (Plan × List Sight)} {depth : Nat}
      (hcount : s.canvas.saveCount = bound + depth) (h : s.Drifts s.canvas.saveCount t) :
      t.canvas.saveCount = bound + depth ∧ ∃ entries, Stage.Plans entries s t ∧
        ∀ (base : List Snapshot) (c : Canvas), base.length < bound →
          c.IsAbove base bound depth → (c.playAll entries).IsAbove base bound depth := by
    obtain ⟨hcount', entries, hplans, hspare⟩ := h
    exact ⟨hcount'.trans hcount, entries, hplans, fun base c _ hc => hc.spare (hcount ▸ hspare)⟩
  generalize hoffset : (bound : Int) - 1 = offset at h
  induction h generalizing depth depth' with
  | idle hidle =>
    obtain rfl := Option.some.inj hops
    exact hspare hcount (.of_idles _ hidle)
  | @own op hop s =>
    subst hoffset
    have hop : op.saves? depth = some depth' := by simpa using hops
    obtain ⟨entries, hplanned, hplans, hstack⟩ :=
      exists_plans hv (.recorded op v.list) ((bound : Int) - 1) s
    refine ⟨?_, entries, hplans, fun base c hbase hc => ?_⟩
    · refine (congrArg SaveStack.saveCount hstack).trans ?_
      exact Canvas.saveCount_issueRecorded hcount hbound hop
    · exact (hc.issueRecorded hbase hop).of_below_eq (hplanned.below c)
  | @link i edge s t _ hoffers =>
    obtain rfl : depth = depth' := by simpa [DrawOp.saves?] using hops
    exact hspare hcount (hoffers.drifts hv hbelow)
  | missing hidle =>
    obtain rfl : depth = depth' := by simpa [DrawOp.saves?] using hops
    exact hspare hcount (.of_idles _ hidle)
  | pass hturns =>
    obtain rfl := Option.some.inj hops
    exact hspare hcount (drifts_pass hv hbelow hturns)
  | trans _ _ ih ih' =>
    rw [List.foldlM_append] at hops
    obtain ⟨mid, hops, hops'⟩ := Option.bind_eq_some_iff.mp hops
    obtain ⟨hcount, entries, hplans, habove⟩ := ih hops hcount
    obtain ⟨hcount, entries', hplans', habove'⟩ := ih' hops' hcount
    refine ⟨hcount, _, hplans.trans hplans', fun base c hbase hc => ?_⟩
    rw [Canvas.playAll_append]
    exact habove' base _ hbase (habove base c hbase hc)

theorem Inside.drifts (hlist : v.list.IsBalanced) (h : v.Inside below s t) :
    s.Drifts s.canvas.saveCount t := by
  cases h with
  | @rejected s' _ hidle _ hreject =>
    have hplan : s'.gathered.1 = s.gathered.1 := congrArg Prod.fst hidle.gathered
    rw [hv] at hreject
    cases hreject
    exact ⟨congrArg Canvas.saveCount hidle.canvas, [], .of_eq hplan, .nil _⟩
  | @drawn m _ hbefore hcontent =>
    have hpos : 0 < s.canvas.saveCount := s.canvas.stack.saveCount_pos
    have hstart : s.canvas.saveCount = s.canvas.saveCount + 0 := rfl
    have hbefore := hbefore ((s.canvas.saveCount : Int) - 1)
    have hcount := (hbefore.drifts hv hbelow hpos rfl hstart).1
    rw [Nat.add_zero] at hcount
    rw [hcount] at hcontent
    obtain ⟨hcount, entries, hplans, habove⟩ :=
      (hbefore.trans hcontent).drifts hv hbelow hpos hlist hstart
    refine ⟨hcount, entries, ⟨hplans.entries_eq, hplans.apt⟩, fun c hc => ?_⟩
    have hbase : c.stack.below.length < s.canvas.saveCount := by
      have := c.saveCount_eq_below
      omega
    obtain ⟨⟨saved, hsaved, -⟩, hcount⟩ :=
      habove c.stack.below c hbase ⟨⟨[], rfl, Nat.le_refl 0⟩, hc⟩
    exact ⟨⟨saved, hsaved.symm⟩, hcount⟩

end

/-! #### The whole visit -/

theorem Opens.drifts (h : v.Opens layer s t) : ∃ n entries, Stage.Plans entries s t ∧
    t.canvas.saveCount = s.canvas.saveCount + n ∧ ∀ c : Canvas,
      c.stack.below <:+ (c.playAll entries).stack.below ∧
        (c.playAll entries).saveCount = c.saveCount + n := by
  induction h with
  | idle hidle =>
    exact ⟨0, [], .of_idles hidle, congrArg Canvas.saveCount hidle.canvas,
      fun _ => ⟨List.suffix_rfl, rfl⟩⟩
  | adjusted f s => exact ⟨0, [], .of_eq rfl, rfl, fun _ => ⟨List.suffix_rfl, rfl⟩⟩
  | layer s => exact ⟨0, [], .of_eq rfl, rfl, fun _ => ⟨List.suffix_rfl, rfl⟩⟩
  | @given op hop s =>
    obtain ⟨n, hsaves⟩ := Canvas.exists_saves hop
    obtain ⟨entries, hplanned, hplans, hstack⟩ := exists_plans hv (.property op) 0 s
    refine ⟨n, entries, hplans, ?_, fun c => ?_⟩
    · exact (congrArg SaveStack.saveCount hstack).trans (hsaves s.canvas).2
    · rw [Canvas.saveCount_of_below_eq (hplanned.below c), hplanned.below c]
      exact hsaves c
  | trans _ _ ih ih' =>
    obtain ⟨n, entries, hplans, hcount, hsaves⟩ := ih
    obtain ⟨n', entries', hplans', hcount', hsaves'⟩ := ih'
    refine ⟨n + n', _, hplans.trans hplans', ?_, fun c => ?_⟩
    · rw [hcount', hcount, Nat.add_assoc]
    · rw [Canvas.playAll_append, (hsaves' _).2, (hsaves c).2, Nat.add_assoc]
      exact ⟨(hsaves c).1.trans (hsaves' _).1, rfl⟩

theorem Runs.returns (hbelow : ∀ key s t, below key s t → s.Drifts s.canvas.saveCount t)
    (hlist : v.list.IsBalanced) (h : v.Runs below s t) : s.Returns t := by
  cases h with
  | @run s₀ s₁ s₂ s₃ hstart hopens hinside hend =>
    obtain ⟨saving, hplanned, hsaving, hstack⟩ :=
      exists_plans hv (.property (.save .matrixClip)) 0 s₀
    obtain ⟨n, opening, hopening, hopened, hsaves⟩ := hopens.drifts hv
    obtain ⟨hdrawn, drawing, hdrawing, hspare⟩ := hinside.drifts hv hbelow hlist
    obtain ⟨restoring, hrestoring, hrestore, hrestored⟩ := exists_restoreTo hv s.canvas.saveCount s₃
    have hpos : 0 < s.canvas.saveCount := s.canvas.stack.saveCount_pos
    -- the canvas that the plan is made with has the save of the node, and those of its properties
    have hsaved : s₁.canvas.saveCount = s.canvas.saveCount + 1 + n := by
      rw [hopened, ← hstart.canvas]
      exact congrArg (· + n) (congrArg SaveStack.saveCount hstack)
    have hend' : s₃.canvas.saveCount = s₁.canvas.saveCount := hend.canvas ▸ hdrawn
    have hplans := ((((Stage.Plans.of_idles hstart).trans hsaving).trans hopening).trans
      (hdrawing.trans (.of_idles hend))).trans hrestoring
    -- the entries up to the restore keep the save of the node on every canvas
    have hkept (c : Canvas) (hc : c.saveCount ≤ s.canvas.saveCount) :
        c.stack.IsSavedIn (c.playAll ([] ++ saving ++ opening ++ (drawing ++ []))).stack := by
      rw [List.nil_append, List.append_nil, Canvas.playAll_append, Canvas.playAll_append,
        hplanned.playAll rfl]
      obtain ⟨hopened, hcount⟩ := hsaves (c.save .matrixClip)
      have hcount : _ = c.saveCount + 1 + n := hcount
      exact hopened.trans (hspare _ (by omega)).1
    refine ⟨?_, _, ⟨hplans.entries_eq, hplans.apt⟩, .of_restored hpos (fun c hc => ?_) hrestored,
      fun c hc => ?_⟩
    · refine (Canvas.saveCount_of_restored hrestore hpos).trans ?_
      omega
    · exact (List.suffix_cons _ _).trans (hkept c hc)
    · rw [Canvas.playAll_append, hrestored, ← hc]
      exact (hkept c hc.le).restoreTo

end Visit

/-- The walk of a node of recorded contents into a plan: whatever the canvas that the entries are
carried out on, they keep what it had saved, and lead back to its states. -/
theorem visit_returns {f : Frame} (hrecorded : f.nodes.AllRecorded) {levels level : Nat} {key : Key}
    {s t : Stage (Plan × List Sight)}
    (hvisit : visit Handler.deferred.watched f levels level key s = .ok () t) : s.Returns t := by
  refine visit_induct Handler.deferred_neutral.watched (P := fun _ _ s t => s.Returns t)
    (fun levels level key s t _ hwalked => ?_) hvisit
  cases hwalked with
  | @blank _ _ node _ s₁ s₂ _ hnode hblank henter hidle hleave =>
    have hplan : s₂.gathered.1 = s₁.gathered.1 := congrArg Prod.fst hidle.gathered
    cases henter
    cases hleave
    exact .of_eq (congrArg Canvas.saveCount hidle.canvas) hplan
  | @shown v _ s₁ s₂ _ hhandler hframe hnode hlist henter hruns hleave =>
    subst hframe
    have hlist := (hrecorded v.key v.node v.list hnode (Node.content_of_shown? hlist)).isBalanced
    obtain ⟨hcount, entries, hplans, hspare, hrestored⟩ :=
      hruns.returns hhandler (fun _ _ _ h => h.2.drifts) hlist
    -- entering and leaving a node plans nothing
    cases henter
    cases hleave
    exact ⟨hcount, entries, ⟨hplans.entries_eq, hplans.apt⟩, hspare, hrestored⟩

end RetainedScene
