import Mathlib.Data.List.SplitBy
import RetainedScene.Walk.Elevation

/-!
# Runs of elevated children

Children by height fall into runs: `Sibling.runs` cuts a list wherever a child is not less than
`shadowGap` above the one before it.  In a run all shadows come before all content, and the runs
come one after another (`Sibling.schedule_eq_runs`).  This is so for any list and any heights, and
whether a child casts a shadow plays no part in it.

The same turns come from two cursors on one list, one at the next shadow and one at the next
content (`Sibling.cursorTurns?`).  The children between the cursors are those that have had their
shadows and wait for their content: with this invariant no cursor ever points outside the list
(`Sibling.cursorTurns?_eq`).
-/

namespace RetainedScene

namespace Sibling

/-! ### Runs -/

/-- The second child is less than the gap above the first one, by the difference of their heights.
So is one that is below it, and none that has no difference to it. -/
def isNear (a b : Sibling) : Bool := b.height - a.height < shadowGap

/-- The longest parts of a list in which each child is near the one before it. -/
def runs (cs : List Sibling) : List (List Sibling) := cs.splitBy isNear

/-- The shadows of a run, and then its content. -/
def runTurns (run : List Sibling) : List Turn := run.map .shadow ++ run.map .content

/-- A child that follows closely has its shadow next. -/
theorem schedule_of_near {waiting rest : List Sibling} {last : Single} {c : Sibling}
    (h : waiting = [] ∨ c.height - last < shadowGap) :
    schedule waiting last (c :: rest) = .shadow c :: schedule (waiting ++ [c]) c.height rest :=
  if_pos (h.imp_left List.isEmpty_iff.mpr)

/-- Nothing that comes up has a shadow on the plane of the child whose shadow came last. -/
def EndsRun (last : Single) (rest : List Sibling) : Prop :=
  ∀ d ∈ rest.head?, ¬ d.height - last < shadowGap

/-- At the end of a run the first child that waits has its content next. -/
theorem schedule_of_endsRun {waiting rest : List Sibling} {last : Single} {c : Sibling}
    (h : EndsRun last rest) :
    schedule (c :: waiting) last rest = .content c :: schedule waiting last rest := by
  cases rest with
  | nil => rfl
  | cons d rest =>
    have hfar := h d rfl
    cases waiting with
    | nil => simp [schedule, hfar]
    | cons _ _ => simp [schedule, hfar]

/-- At the end of a run all that wait have their content. -/
theorem schedule_append_content {waiting rest : List Sibling} {last : Single}
    (h : EndsRun last rest) :
    schedule waiting last rest = waiting.map .content ++ schedule [] last rest := by
  induction waiting with
  | nil => rfl
  | cons c waiting ih =>
    rw [schedule_of_endsRun h, ih]
    rfl

/-- Which shadow came last does not matter when nothing waits. -/
theorem schedule_nil_waiting (last last' : Single) (cs : List Sibling) :
    schedule [] last cs = schedule [] last' cs := by
  cases cs with
  | nil => rfl
  | cons c cs => rw [schedule_of_near (.inl rfl), schedule_of_near (.inl rfl)]

/-- The shadows of a run come one after another. -/
theorem schedule_append_shadows {run rest : List Sibling} {waiting : List Sibling} {a : Sibling}
    (hrun : (a :: run).IsChain fun x y => isNear x y)
    (hrest : EndsRun ((a :: run).getLast (List.cons_ne_nil a run)).height rest) :
    schedule waiting a.height (run ++ rest) =
      run.map .shadow ++ ((waiting ++ run).map .content ++ schedule [] 0 rest) := by
  induction run generalizing a waiting with
  | nil =>
    have hrest : EndsRun a.height rest := hrest
    rw [List.nil_append, schedule_append_content hrest, schedule_nil_waiting _ 0, List.append_nil]
    rfl
  | cons b run ih =>
    obtain ⟨hnear, hrun⟩ := List.isChain_cons_cons.mp hrun
    rw [List.cons_append, schedule_of_near (.inr (of_decide_eq_true hnear)), ih hrun ?_]
    · simp
    · rwa [List.getLast_cons (List.cons_ne_nil b run)] at hrest

/-- A list of runs, each followed by a child that is not near, is drawn run by run. -/
theorem schedule_flatten {ms : List (List Sibling)} (hne : [] ∉ ms)
    (hchain : ∀ m ∈ ms, m.IsChain fun x y => isNear x y)
    (hbreak : ms.IsChain fun m m' => ∃ h h', isNear (m.getLast h) (m'.head h') = false) :
    schedule [] 0 ms.flatten = ms.flatMap runTurns := by
  induction ms with
  | nil => rfl
  | cons m ms ih =>
    obtain ⟨a, run, rfl⟩ : ∃ a run, m = a :: run :=
      List.exists_cons_of_ne_nil fun h => hne (h ▸ List.mem_cons_self)
    have ih := ih (fun h => hne (List.mem_cons_of_mem _ h))
      (fun m hm => hchain m (List.mem_cons_of_mem _ hm)) hbreak.tail
    have hends : EndsRun ((a :: run).getLast (List.cons_ne_nil a run)).height ms.flatten := by
      intro d hd
      cases ms with
      | nil => cases hd
      | cons m' ms =>
        obtain ⟨_, h', hfar⟩ := (List.isChain_cons_cons.mp hbreak).1
        obtain ⟨b, run', rfl⟩ := List.exists_cons_of_ne_nil h'
        obtain rfl : b = d := Option.some.inj hd
        exact of_decide_eq_false hfar
    rw [List.flatten_cons, List.cons_append, schedule_of_near (.inl rfl),
      schedule_append_shadows (hchain _ List.mem_cons_self) hends, ih]
    simp [runTurns]

/-- Children are drawn run by run. -/
theorem schedule_eq_runs (cs : List Sibling) : schedule [] 0 cs = (runs cs).flatMap runTurns := by
  have h := schedule_flatten (List.nil_notMem_splitBy isNear cs)
    (fun _ => List.isChain_of_mem_splitBy) (List.isChain_getLast_head_splitBy isNear cs)
  rwa [List.flatten_splitBy] at h

/-! ### Two cursors -/

section Cursors

variable {cs : List Sibling} {stop shadow content : Nat} {last : Single} {c : Sibling}

/-- The turn that the cursors have come to, none if the one that is read points outside the list.
The cursor at the shadows is read up to `stop`. -/
def turnAt? (cs : List Sibling) (stop shadow content : Nat) (last : Single) : Option Turn := do
  if shadow < stop then
    let c ← cs[shadow]?
    if shadow = content ∨ c.height - last < shadowGap then return .shadow c
  return .content (← cs[content]?)

theorem shadow_eq_of_turnAt? (h : turnAt? cs stop shadow content last = some (.shadow c)) :
    shadow < stop ∧ cs[shadow]? = some c ∧ (shadow = content ∨ c.height - last < shadowGap) := by
  unfold turnAt? at h
  split_ifs at h with hstop
  · cases hc : cs[shadow]? with
    | none => simp [hc] at h
    | some d =>
      by_cases hnear : shadow = content ∨ d.height - last < shadowGap
      · obtain rfl : d = c := by simpa [hc, hnear] using h
        exact ⟨hstop, rfl, hnear⟩
      · cases hd : cs[content]? <;> simp [hc, hnear, hd] at h
  · cases hd : cs[content]? <;> simp [hd] at h

theorem content_eq_of_turnAt? (h : turnAt? cs stop shadow content last = some (.content c)) :
    cs[content]? = some c ∧ ∀ d, shadow < stop → cs[shadow]? = some d →
      ¬ (shadow = content ∨ d.height - last < shadowGap) := by
  unfold turnAt? at h
  split_ifs at h with hstop
  · cases hc : cs[shadow]? with
    | none => simp [hc] at h
    | some d =>
      by_cases hnear : shadow = content ∨ d.height - last < shadowGap
      · simp [hc, hnear] at h
      · refine ⟨by simpa [hc, hnear, Option.bind_eq_some_iff] using h, fun d' _ hd' => ?_⟩
        obtain rfl := Option.some.inj hd'
        exact hnear
  · exact ⟨by simpa [Option.bind_eq_some_iff] using h, fun d hlt => absurd hlt hstop⟩

/-- The turns of two cursors up to `stop`, none if one of them comes to point outside the list. -/
def cursorTurns? (cs : List Sibling) (stop shadow content : Nat) (last : Single) :
    Option (List Turn) :=
  if shadow < stop ∨ content < stop then
    match h : turnAt? cs stop shadow content last with
    | none => none
    | some (.shadow c) => (cursorTurns? cs stop (shadow + 1) content c.height).map (.shadow c :: ·)
    | some (.content c) => (cursorTurns? cs stop shadow (content + 1) last).map (.content c :: ·)
  else some []
termination_by stop - shadow + (cs.length - content)
decreasing_by
  · have := (shadow_eq_of_turnAt? h).1
    omega
  · have := (List.getElem?_eq_some_iff.mp (content_eq_of_turnAt? h).1).1
    omega

theorem cursorTurns?_of_shadow (h : turnAt? cs stop shadow content last = some (.shadow c)) :
    cursorTurns? cs stop shadow content last =
      (cursorTurns? cs stop (shadow + 1) content c.height).map (.shadow c :: ·) := by
  rw [cursorTurns?, if_pos (.inl (shadow_eq_of_turnAt? h).1)]
  split <;> rename_i h' <;> rw [h] at h' <;> cases h'
  rfl

theorem cursorTurns?_of_content (hturn : shadow < stop ∨ content < stop)
    (h : turnAt? cs stop shadow content last = some (.content c)) :
    cursorTurns? cs stop shadow content last =
      (cursorTurns? cs stop shadow (content + 1) last).map (.content c :: ·) := by
  rw [cursorTurns?, if_pos hturn]
  split <;> rename_i h' <;> rw [h] at h' <;> cases h'
  rfl

/-- While children wait or are to come, there is a turn. -/
theorem exists_turnAt? (last : Single) (hstop : stop ≤ cs.length) (hle : content ≤ shadow)
    (hturn : shadow < stop ∨ content < stop) :
    ∃ turn, turnAt? cs stop shadow content last = some turn := by
  have hcontent : content < cs.length := by omega
  unfold turnAt?
  split_ifs with hshadow
  · rw [List.getElem?_eq_getElem (by omega : shadow < cs.length),
      List.getElem?_eq_getElem hcontent]
    by_cases hnear : shadow = content ∨ cs[shadow].height - last < shadowGap <;> simp [hnear]
  · simp [List.getElem?_eq_getElem hcontent]

/-- The children that the cursors have between them, when the one at the contents moves on. -/
theorem take_drop_of_content (hlt : content < shadow) (hc : cs[content]? = some c) :
    (cs.take shadow).drop content = c :: (cs.take shadow).drop (content + 1) := by
  obtain ⟨hlen, rfl⟩ := List.getElem?_eq_some_iff.mp hc
  rw [List.drop_eq_getElem_cons (by rw [List.length_take]; omega), List.getElem_take]

/-- Two cursors never leave the list, and come to the turns of the schedule.  What is between them
waits for its content. -/
theorem cursorTurns?_eq (hle : content ≤ shadow) (hlen : shadow ≤ cs.length) :
    cursorTurns? cs cs.length shadow content last =
      some (schedule ((cs.take shadow).drop content) last (cs.drop shadow)) := by
  generalize hmeasure : cs.length - shadow + (cs.length - content) = measure
  induction measure generalizing shadow content last with
  | zero =>
    rw [cursorTurns?, if_neg (by omega), List.drop_eq_nil_of_le (by omega : cs.length ≤ shadow),
      List.drop_eq_nil_of_le (by rw [List.length_take]; omega)]
    rfl
  | succ measure ih =>
    have hturn : shadow < cs.length ∨ content < cs.length := by omega
    obtain ⟨turn, hat⟩ := exists_turnAt? last (le_refl cs.length) hle hturn
    cases turn with
    | shadow c =>
      obtain ⟨hlt, hc, hnear⟩ := shadow_eq_of_turnAt? hat
      obtain ⟨_, rfl⟩ := List.getElem?_eq_some_iff.mp hc
      have hwaiting : (cs.take (shadow + 1)).drop content =
          (cs.take shadow).drop content ++ [cs[shadow]] := by
        rw [List.take_succ_eq_append_getElem hlt, List.drop_append_of_le_length
          (by rw [List.length_take]; omega)]
      rw [cursorTurns?_of_shadow hat, ih (by omega) (by omega) (by omega), hwaiting,
        List.drop_eq_getElem_cons hlt, schedule_of_near]
      · rfl
      · refine hnear.imp_left fun heq => List.drop_eq_nil_of_le ?_
        rw [List.length_take]
        omega
    | content c =>
      obtain ⟨hc, hfar⟩ := content_eq_of_turnAt? hat
      obtain ⟨hcontent, -⟩ := List.getElem?_eq_some_iff.mp hc
      -- cursors at one child would have its shadow next
      have hlt : content < shadow := by
        by_contra hge
        obtain rfl : content = shadow := by omega
        exact hfar c hcontent hc (.inl rfl)
      have hends : EndsRun last (cs.drop shadow) := by
        intro d hd hnear
        rw [List.head?_drop] at hd
        exact hfar d (List.getElem?_eq_some_iff.mp hd).1 hd (.inr hnear)
      rw [cursorTurns?_of_content hturn hat, ih (by omega) hlen (by omega),
        take_drop_of_content hlt hc, schedule_of_endsRun hends]
      rfl

/-- When the cursor at the shadows has come to its end, the contents up to there are left. -/
theorem cursorTurns?_of_exhausted (hle : content ≤ stop) (hstop : stop ≤ cs.length) :
    cursorTurns? cs stop stop content last = some (((cs.take stop).drop content).map .content) := by
  induction hk : stop - content generalizing content with
  | zero =>
    rw [cursorTurns?, if_neg (by omega), List.drop_eq_nil_of_le (by rw [List.length_take]; omega)]
    rfl
  | succ k ih =>
    have hlt : content < stop := by omega
    have hc : cs[content]? = some cs[content] := List.getElem?_eq_getElem (by omega)
    have hat : turnAt? cs stop stop content last = some (.content cs[content]) := by
      simp [turnAt?, hc]
    rw [cursorTurns?_of_content (.inr hlt) hat, ih (by omega) (by omega),
      take_drop_of_content hlt hc]
    rfl

end Cursors

end Sibling

end RetainedScene
