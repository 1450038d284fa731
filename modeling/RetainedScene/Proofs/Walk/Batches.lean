import RetainedScene.Proofs.Scene.Checks
import RetainedScene.Proofs.Walk.Keeping
import RetainedScene.Proofs.Walk.Walkable
import RetainedScene.Proofs.World.Safety

/-!
# Batches partition the draws of a plan

A plan is made by calls that add draws and barriers; a call is written as the entry that it would
add, and a draw that has no kind is left out.  After any calls the batches of the plan are
`Plan.Partitioned`: they are runs of draws of one kind, in order and without a draw in two of them
or in none, and each run is as long as it can be.

A call may make the last run longer, begin a new one or end the last one (`Batch.AreRuns.grow`,
`begin`, `skip`).  Which of them it does is decided by the flag and the last batch of the plan, and
`Plan.Batched` says what these are for: in an open plan the last batch ends where the entries end,
and in a plan that is not open the last entry has no kind.

A walk makes such calls, with barriers that change state (`World.plan_of_walk`), so carrying out its
plan draws as often as there are draws in it (`Plan.batches_partition`).
-/

namespace RetainedScene

/-! ### Runs -/

namespace Batch

/-- The position after the last one of the batch. -/
def stop (b : Batch) : Nat := b.start + b.length

/-- The position is one of the batch. -/
def Holds (b : Batch) (i : Nat) : Prop := b.start ≤ i ∧ i < b.stop

/-- Batches, the last one first, are the longest runs of positions of one kind. -/
structure AreRuns (kindAt : Nat → Option BatchKind) (size : Nat) (batches : List Batch) : Prop where
  nonempty : ∀ b ∈ batches, 0 < b.length
  ordered : batches.Pairwise fun later earlier => earlier.stop ≤ later.start
  within : ∀ b ∈ batches, b.stop ≤ size
  only : ∀ b ∈ batches, ∀ i, b.Holds i → kindAt i = some b.kind
  all : ∀ i kind, kindAt i = some kind → ∃ b ∈ batches, b.Holds i
  maximal : ∀ i kind, kindAt i = some kind → kindAt (i + 1) = some kind →
    ∃ b ∈ batches, b.Holds i ∧ b.Holds (i + 1)

namespace AreRuns

variable {kindAt kindAt' : Nat → Option BatchKind} {size i : Nat} {kind : BatchKind} {last : Batch}
  {batches rest : List Batch}

theorem lt_size (h : AreRuns kindAt size batches) (hi : kindAt i = some kind) : i < size := by
  obtain ⟨b, hb, hholds⟩ := h.all i kind hi
  exact Nat.lt_of_lt_of_le hholds.2 (h.within b hb)

/-- The positions of a batch are as they were when there are more. -/
theorem only_of_more (h : AreRuns kindAt size batches) {more : Option BatchKind}
    (hkind : ∀ i, kindAt' i = if i = size then more else kindAt i) {b : Batch} (hb : b ∈ batches)
    (hi : b.Holds i) : kindAt' i = some b.kind := by
  rw [hkind, if_neg (Nat.ne_of_lt (Nat.lt_of_lt_of_le hi.2 (h.within b hb)))]
  exact h.only b hb i hi

/-- One position more is of no kind. -/
theorem skip (h : AreRuns kindAt size batches)
    (hkind : ∀ i, kindAt' i = if i = size then none else kindAt i) :
    AreRuns kindAt' (size + 1) batches := by
  have hold {i : Nat} {kind : BatchKind} (hi : kindAt' i = some kind) : kindAt i = some kind := by
    rw [hkind] at hi
    split_ifs at hi
    exact hi
  exact {
    nonempty := h.nonempty
    ordered := h.ordered
    within := fun b hb => Nat.le_succ_of_le (h.within b hb)
    only := fun b hb i hi => h.only_of_more hkind hb hi
    all := fun i kind hi => h.all i kind (hold hi)
    maximal := fun i kind hi hi' => h.maximal i kind (hold hi) (hold hi') }

/-- One position more is of the kind of the batch that ends there. -/
theorem grow (h : AreRuns kindAt size (last :: rest)) (hstop : last.stop = size)
    (hkind : ∀ i, kindAt' i = if i = size then some last.kind else kindAt i) :
    AreRuns kindAt' (size + 1) ({ last with length := last.length + 1 } :: rest) := by
  have hlength := h.nonempty last List.mem_cons_self
  have hgrown (i : Nat) : Holds { last with length := last.length + 1 } i ↔
      last.Holds i ∨ i = size := by
    unfold Holds stop at *
    dsimp only at *
    omega
  have hkept {P : Batch → Prop} (hlast : P last → P { last with length := last.length + 1 })
      (h : ∃ b ∈ last :: rest, P b) :
      ∃ b ∈ { last with length := last.length + 1 } :: rest, P b := by
    obtain ⟨b, hb, hP⟩ := h
    rcases List.mem_cons.mp hb with rfl | hrest
    · exact ⟨_, List.mem_cons_self, hlast hP⟩
    · exact ⟨b, List.mem_cons_of_mem _ hrest, hP⟩
  refine ⟨?_, List.pairwise_cons.mpr (List.pairwise_cons.mp h.ordered), ?_, ?_, fun i kind hi => ?_,
    fun i kind hi hi' => ?_⟩
  · exact List.forall_mem_cons.mpr ⟨Nat.succ_pos _, (List.forall_mem_cons.mp h.nonempty).2⟩
  · refine List.forall_mem_cons.mpr ⟨Nat.le_of_eq (congrArg (· + 1) hstop), fun b hb => ?_⟩
    exact Nat.le_succ_of_le (h.within b (List.mem_cons_of_mem _ hb))
  · refine List.forall_mem_cons.mpr ⟨fun i hi => ?_, fun b hb i hi => ?_⟩
    · rcases (hgrown i).mp hi with hold | rfl
      · exact h.only_of_more (b := last) hkind List.mem_cons_self hold
      · rw [hkind, if_pos rfl]
    · exact h.only_of_more hkind (List.mem_cons_of_mem _ hb) hi
  · rw [hkind] at hi
    split_ifs at hi with hnew
    · exact ⟨_, List.mem_cons_self, (hgrown i).mpr (.inr hnew)⟩
    · exact hkept (fun hlast => (hgrown i).mpr (.inl hlast)) (h.all i kind hi)
  · rw [hkind] at hi hi'
    split_ifs at hi hi' with hnew hnew' hnew'
    · omega
    · exact absurd (h.lt_size hi') (by omega)
    -- the position before the new one is that of the batch which ends there
    · refine ⟨_, List.mem_cons_self, (hgrown i).mpr (.inl ?_), (hgrown _).mpr (.inr hnew')⟩
      unfold Holds stop at *
      omega
    · exact hkept (fun hlast => ⟨(hgrown i).mpr (.inl hlast.1), (hgrown _).mpr (.inl hlast.2)⟩)
        (h.maximal i kind hi hi')

/-- One position more is of another kind than the one before it. -/
theorem begin (h : AreRuns kindAt size batches) (hother : ∀ i, i + 1 = size → kindAt i ≠ some kind)
    (hkind : ∀ i, kindAt' i = if i = size then some kind else kindAt i) :
    AreRuns kindAt' (size + 1) (⟨kind, size, 1⟩ :: batches) := by
  have hnew (i : Nat) : Holds ⟨kind, size, 1⟩ i ↔ i = size := by
    unfold Holds stop
    dsimp only
    omega
  refine ⟨?_, List.pairwise_cons.mpr ⟨h.within, h.ordered⟩, ?_, ?_, fun i kind hi => ?_,
    fun i kind hi hi' => ?_⟩
  · exact List.forall_mem_cons.mpr ⟨Nat.one_pos, h.nonempty⟩
  · refine List.forall_mem_cons.mpr ⟨Nat.le_refl _, fun b hb => ?_⟩
    exact Nat.le_succ_of_le (h.within b hb)
  · refine List.forall_mem_cons.mpr ⟨fun i hi => ?_, fun b hb i hi => ?_⟩
    · rw [hkind, if_pos ((hnew i).mp hi)]
    · exact h.only_of_more hkind hb hi
  · rw [hkind] at hi
    split_ifs at hi with heq
    · exact ⟨_, List.mem_cons_self, (hnew i).mpr heq⟩
    · obtain ⟨b, hb, hholds⟩ := h.all i kind hi
      exact ⟨b, List.mem_cons_of_mem _ hb, hholds⟩
  · rw [hkind] at hi hi'
    split_ifs at hi hi' with heq heq' heq'
    · omega
    · exact absurd (h.lt_size hi') (by omega)
    · exact absurd (hi.trans hi'.symm) (hother i heq')
    · obtain ⟨b, hb, hholds⟩ := h.maximal i kind hi hi'
      exact ⟨b, List.mem_cons_of_mem _ hb, hholds⟩

end AreRuns

end Batch

/-! ### Calls -/

namespace PlanEntry

def isDraw : PlanEntry → Bool
  | draw .. => true
  | barrier .. => false

/-- The kind of batch that a draw goes into. -/
def kind? : PlanEntry → Option BatchKind
  | draw op .. => op.batchKind?
  | barrier .. => none

/-- The call adds an entry: it is not for a draw without a kind. -/
def isKept : PlanEntry → Bool
  | draw op .. => op.batchKind?.isSome
  | barrier .. => true

/-- The entry is a barrier, and yet draws. -/
def drawsAsBarrier : PlanEntry → Bool
  | draw .. => false
  | barrier op _ => op.batchKind?.isSome

/-- The call is one that a walk makes: a draw has a kind, and a barrier changes state. -/
def IsDeferred : PlanEntry → Prop
  | draw op .. => op.batchKind?.isSome = true
  | barrier op _ => op.changesState = true

theorem IsDeferred.isKept {e : PlanEntry} (h : e.IsDeferred) : e.isKept = true := by
  cases e with
  | draw op state clip => exact h
  | barrier op offset => rfl

/-- What changes state does not draw. -/
theorem IsDeferred.drawsAsBarrier_eq {e : PlanEntry} (h : e.IsDeferred) :
    e.drawsAsBarrier = false := by
  cases e with
  | draw op state clip => rfl
  | barrier op offset =>
    rw [drawsAsBarrier, ← op.isSome_ink?, Operation.ink?_of_changesState h]
    rfl

end PlanEntry

namespace Plan

variable {p : Plan} {kind : BatchKind} {e : PlanEntry} {calls : List PlanEntry} {i : Nat}

/-- Makes a call. -/
def add (p : Plan) : PlanEntry → Plan
  | .draw op state clipToBounds => p.addDraw op state clipToBounds
  | .barrier op offset => p.addBarrier op offset

/-- The plan that calls make, one after the other. -/
def ofCalls (calls : List PlanEntry) : Plan := calls.foldl add {}

/-- The kind of the draw at a position. -/
def kindAt? (p : Plan) (i : Nat) : Option BatchKind := p.entries[i]?.bind PlanEntry.kind?

/-- The batches of a plan are the longest runs of draws of one kind, in order. -/
structure Partitioned (p : Plan) : Prop where
  nonempty : ∀ b ∈ p.batches, 0 < b.length
  increasing : p.batches.reverse.Pairwise fun b b' => b.start < b'.start ∧ b.stop ≤ b'.start
  within : ∀ b ∈ p.batches, b.stop ≤ p.entries.size
  /-- A batch holds nothing but draws of its kind. -/
  only : ∀ b ∈ p.batches, ∀ i, b.Holds i → ∃ op state clip,
    p.entries[i]? = some (.draw op state clip) ∧ op.batchKind? = some b.kind
  /-- Every draw is in a batch. -/
  all : ∀ i op state clip, p.entries[i]? = some (.draw op state clip) → ∃ b ∈ p.batches, b.Holds i
  /-- Neighbours of the same kind are in the same batch. -/
  maximal : ∀ i op state clip op' state' clip', p.entries[i]? = some (.draw op state clip) →
    p.entries[i + 1]? = some (.draw op' state' clip') → op.batchKind? = op'.batchKind? →
    ∃ b ∈ p.batches, b.Holds i ∧ b.Holds (i + 1)
  /-- No batch goes over a barrier. -/
  unbroken : ∀ i op offset, p.entries[i]? = some (.barrier op offset) →
    ∀ b ∈ p.batches, ¬ b.Holds i
  drawCount : p.drawCount = p.entries.toList.countP PlanEntry.isDraw

theorem kindAt?_of_push {q : Plan} (h : q.entries = p.entries.push e) (i : Nat) :
    q.kindAt? i = if i = p.entries.size then e.kind? else p.kindAt? i := by
  unfold kindAt?
  rw [h, Array.getElem?_push]
  split_ifs <;> rfl

theorem kindAt?_eq_some_iff : p.kindAt? i = some kind ↔ ∃ op state clip,
    p.entries[i]? = some (.draw op state clip) ∧ op.batchKind? = some kind := by
  rw [kindAt?, Option.bind_eq_some_iff]
  constructor
  · rintro ⟨entry, hentry, hkind⟩
    cases entry with
    | draw op state clip => exact ⟨op, state, clip, hentry, hkind⟩
    | barrier op offset => cases hkind
  · rintro ⟨op, state, clip, hentry, hkind⟩
    exact ⟨_, hentry, hkind⟩

/-- A draw goes into the last batch, or begins a new one where it cannot. -/
theorem extend_cases (kind : BatchKind) (index : Nat) (isOpen : Bool) (batches : List Batch) :
    (∃ last rest, batches = last :: rest ∧ last.kind = kind ∧ isOpen = true ∧
      extend kind index isOpen batches = { last with length := last.length + 1 } :: rest) ∨
    ((∀ last rest, batches = last :: rest → isOpen = true → last.kind ≠ kind) ∧
      extend kind index isOpen batches = ⟨kind, index, 1⟩ :: batches) := by
  cases batches with
  | nil => exact .inr ⟨nofun, rfl⟩
  | cons last rest =>
    by_cases hfits : isOpen = true ∧ last.kind = kind
    · exact .inl ⟨last, rest, rfl, hfits.2, hfits.1, if_pos hfits⟩
    · refine .inr ⟨fun last' rest' heq hopen hkind => hfits ⟨hopen, ?_⟩, if_neg hfits⟩
      obtain ⟨rfl, -⟩ := List.cons.inj heq
      exact hkind

/-- One draw more is counted. -/
theorem drawCount_extend (kind : BatchKind) (index : Nat) (isOpen : Bool) (batches : List Batch) :
    (extend kind index isOpen batches).foldr (fun batch count => batch.length + count) 0 =
      batches.foldr (fun batch count => batch.length + count) 0 + 1 := by
  obtain ⟨last, rest, rfl, -, -, hextend⟩ | ⟨-, hextend⟩ := extend_cases kind index isOpen batches
  · rw [hextend, List.foldr_cons, List.foldr_cons]
    exact Nat.succ_add _ _
  · rw [hextend, List.foldr_cons]
    exact Nat.add_comm 1 _

/-! ### What every call keeps -/

structure Batched (p : Plan) : Prop where
  runs : Batch.AreRuns p.kindAt? p.entries.size p.batches
  kept : ∀ e ∈ p.entries.toList, e.isKept
  /-- The last batch of an open plan goes to the end. -/
  opened : p.isOpen = true → ∃ last rest, p.batches = last :: rest ∧ last.stop = p.entries.size
  /-- The last entry of another plan has no kind. -/
  closed : p.isOpen = false → ∀ i, i + 1 = p.entries.size → p.kindAt? i = none
  drawCount : p.drawCount = p.entries.toList.countP PlanEntry.isDraw

theorem Batched.empty : ({} : Plan).Batched := by
  have hkind {i : Nat} {kind : BatchKind} : ({} : Plan).kindAt? i ≠ some kind := by
    simp [kindAt?]
  refine ⟨⟨fun _ h => (nomatch h), .nil, fun _ h => (nomatch h), fun _ h => (nomatch h),
    fun _ _ h => absurd h hkind, fun _ _ h => absurd h hkind⟩, fun _ h => (nomatch h),
    fun h => (nomatch h), fun _ i h => absurd h (Nat.succ_ne_zero i), rfl⟩

namespace Batched

theorem kept_of_push (h : p.Batched) (he : e.isKept) :
    ∀ e' ∈ (p.entries.push e).toList, e'.isKept := by
  intro e' he'
  rw [Array.toList_push] at he'
  rcases List.mem_append.mp he' with hold | hnew
  · exact h.kept e' hold
  · rw [List.mem_singleton.mp hnew]
    exact he

/-- A barrier ends the last batch. -/
theorem addBarrier (h : p.Batched) (op : Operation) (offset : Int) :
    (p.addBarrier op offset).Batched := by
  have hkind : ∀ i, (p.addBarrier op offset).kindAt? i =
      if i = p.entries.size then none else p.kindAt? i :=
    kindAt?_of_push (e := .barrier op offset) rfl
  have hsize : (p.addBarrier op offset).entries.size = p.entries.size + 1 := Array.size_push _
  refine ⟨?_, h.kept_of_push rfl, nofun, fun _ i hi => ?_, ?_⟩
  · rw [hsize]
    exact h.runs.skip hkind
  · rw [hkind, if_pos (Nat.succ.inj (hi.trans hsize))]
  · show p.drawCount = (p.entries.push _).toList.countP _
    rw [Array.toList_push, List.countP_append]
    exact h.drawCount

/-- A draw of a kind is added to the last batch, or begins one. -/
theorem addDraw (h : p.Batched) (op : Operation) (state : DisplayState) (clip : Bool) :
    (p.addDraw op state clip).Batched := by
  cases hop : op.batchKind? with
  | none =>
    rw [Plan.addDraw, hop]
    exact h
  | some kind =>
    have hadded : p.addDraw op state clip = ⟨p.entries.push (.draw op state clip),
        extend kind p.entries.size p.isOpen p.batches, true⟩ := by
      rw [Plan.addDraw, hop]
    generalize p.addDraw op state clip = q at hadded ⊢
    have hentries : q.entries = p.entries.push (.draw op state clip) := by rw [hadded]
    have hbatches : q.batches = extend kind p.entries.size p.isOpen p.batches := by rw [hadded]
    have hopen : q.isOpen = true := by rw [hadded]
    have hsize : q.entries.size = p.entries.size + 1 := by rw [hentries, Array.size_push]
    have hkind : ∀ i, q.kindAt? i = if i = p.entries.size then some kind else p.kindAt? i := by
      intro i
      rw [kindAt?_of_push hentries, PlanEntry.kind?, hop]
    have hruns : Batch.AreRuns q.kindAt? q.entries.size q.batches ∧
        ∃ last rest, q.batches = last :: rest ∧ last.stop = q.entries.size := by
      rw [hsize, hbatches]
      obtain ⟨last, rest, hp, rfl, hpopen, hextend⟩ | ⟨hother, hextend⟩ :=
        extend_cases kind p.entries.size p.isOpen p.batches
      · obtain ⟨last', rest', hp', hstop⟩ := h.opened hpopen
        obtain ⟨rfl, rfl⟩ := List.cons.inj (hp.symm.trans hp')
        have hruns := h.runs
        rw [hp] at hruns
        rw [hextend]
        exact ⟨hruns.grow hstop hkind, _, rest, rfl, congrArg (· + 1) hstop⟩
      · rw [hextend]
        refine ⟨h.runs.begin (fun i hi hsame => ?_) hkind, _, _, rfl, rfl⟩
        cases hpopen : p.isOpen with
        | false =>
          rw [h.closed hpopen i hi] at hsame
          cases hsame
        | true =>
          -- the entry before it is in the last batch, which is of another kind
          obtain ⟨last, rest, hp, hstop⟩ := h.opened hpopen
          have hmem : last ∈ p.batches := hp ▸ List.mem_cons_self
          have hlength := h.runs.nonempty last hmem
          have hholds : last.Holds i := by
            unfold Batch.Holds Batch.stop at *
            omega
          rw [h.runs.only last hmem i hholds, Option.some.injEq] at hsame
          exact hother last rest hp hpopen hsame
    refine ⟨hruns.1, ?_, fun _ => hruns.2, fun hclosed => ?_, ?_⟩
    · rw [hentries]
      exact h.kept_of_push (by rw [PlanEntry.isKept, hop]; rfl)
    · cases hopen.symm.trans hclosed
    · rw [hentries, Array.toList_push, List.countP_append, ← h.drawCount]
      unfold Plan.drawCount
      rw [hbatches, drawCount_extend]
      rfl

theorem add (h : p.Batched) (e : PlanEntry) : (p.add e).Batched := by
  cases e with
  | draw op state clip => exact h.addDraw op state clip
  | barrier op offset => exact h.addBarrier op offset

theorem foldl (h : p.Batched) (calls : List PlanEntry) : (calls.foldl Plan.add p).Batched := by
  induction calls generalizing p with
  | nil => exact h
  | cons e calls ih => exact ih (h.add e)

theorem partitioned (h : p.Batched) : p.Partitioned where
  nonempty := h.runs.nonempty
  increasing := by
    refine List.pairwise_reverse.mpr (h.runs.ordered.imp_of_mem fun {b b'} _ hb' hle => ?_)
    have hlength := h.runs.nonempty b' hb'
    unfold Batch.stop at *
    omega
  within := h.runs.within
  only b hb i hi := kindAt?_eq_some_iff.mp (h.runs.only b hb i hi)
  all i op state clip hentry := by
    have hkept := h.kept _ (List.mem_of_getElem? ((Array.getElem?_toList ..).trans hentry))
    obtain ⟨kind, hkind⟩ := Option.isSome_iff_exists.mp hkept
    exact h.runs.all i kind (kindAt?_eq_some_iff.mpr ⟨op, state, clip, hentry, hkind⟩)
  maximal i op state clip op' state' clip' hentry hentry' hsame := by
    have hkept := h.kept _ (List.mem_of_getElem? ((Array.getElem?_toList ..).trans hentry))
    obtain ⟨kind, hkind⟩ := Option.isSome_iff_exists.mp hkept
    exact h.runs.maximal i kind (kindAt?_eq_some_iff.mpr ⟨op, state, clip, hentry, hkind⟩)
      (kindAt?_eq_some_iff.mpr ⟨op', state', clip', hentry', hsame ▸ hkind⟩)
  unbroken i op offset hentry b hb hholds := by
    obtain ⟨op', state, clip, hdraw, -⟩ := kindAt?_eq_some_iff.mp (h.runs.only b hb i hholds)
    rw [hentry] at hdraw
    cases hdraw
  drawCount := h.drawCount

end Batched

/-- The entries are the calls, without draws that have no kind. -/
theorem toList_entries_foldl (p : Plan) (calls : List PlanEntry) :
    (calls.foldl add p).entries.toList = p.entries.toList ++ calls.filter PlanEntry.isKept := by
  induction calls generalizing p with
  | nil => exact (List.append_nil _).symm
  | cons e calls ih =>
    have hfirst : (p.add e).entries.toList = p.entries.toList ++ [e].filter PlanEntry.isKept := by
      cases e with
      | draw op state clip =>
        unfold add addDraw
        cases hop : op.batchKind? with
        | none => simp [PlanEntry.isKept, hop]
        | some kind => simp [PlanEntry.isKept, hop]
      | barrier op offset => exact Array.toList_push
    rw [List.foldl_cons, ih, hfirst, List.append_assoc, ← List.filter_append]
    rfl

end Plan

/-! ### Carrying out a plan -/

theorem Operation.length_drawnUnder (op : Operation) (state : DisplayState) :
    (op.drawnUnder state).length = if op.batchKind?.isSome then 1 else 0 := by
  rw [drawnUnder, ← op.isSome_ink?]
  cases op.ink? <;> rfl

namespace Canvas

theorem length_draws_issue (c : Canvas) (offset : Int) (op : Operation) :
    (c.issue offset op).draws.length = c.draws.length + if op.batchKind?.isSome then 1 else 0 := by
  rw [draws_issue, List.length_append, Operation.length_drawnUnder]

/-- A draw makes one call that draws, and a barrier none unless its operation draws. -/
theorem length_draws_play (c : Canvas) {e : PlanEntry} (he : e.isKept) :
    (c.play e).draws.length = c.draws.length + (if e.isDraw then 1 else 0) +
      if e.drawsAsBarrier then 1 else 0 := by
  cases e with
  | draw op state clip =>
    have hdrawn := (c.setDisplayState state).length_draws_issue 0 op
    rw [if_pos (show op.batchKind?.isSome = true from he)] at hdrawn
    exact hdrawn
  | barrier op offset => exact c.length_draws_issue offset op

theorem length_draws_foldl_play {entries : List PlanEntry} (h : ∀ e ∈ entries, e.isKept)
    (c : Canvas) : (entries.foldl play c).draws.length = c.draws.length +
      entries.countP PlanEntry.isDraw + entries.countP PlanEntry.drawsAsBarrier := by
  induction entries generalizing c with
  | nil => rfl
  | cons e entries ih =>
    obtain ⟨he, hrest⟩ := List.forall_mem_cons.mp h
    rw [List.foldl_cons, ih hrest, length_draws_play c he, List.countP_cons, List.countP_cons]
    omega

end Canvas

namespace Plan

variable {calls : List PlanEntry}

theorem ofCalls_batched (calls : List PlanEntry) : (ofCalls calls).Batched :=
  Batched.empty.foldl calls

theorem toList_entries_ofCalls (calls : List PlanEntry) :
    (ofCalls calls).entries.toList = calls.filter PlanEntry.isKept :=
  toList_entries_foldl {} calls

/-- A barrier that draws is kept. -/
theorem countP_drawsAsBarrier_filter (calls : List PlanEntry) :
    (calls.filter PlanEntry.isKept).countP PlanEntry.drawsAsBarrier =
      calls.countP PlanEntry.drawsAsBarrier := by
  rw [List.countP_filter]
  refine List.countP_congr fun e _ => ?_
  cases e <;> simp [PlanEntry.drawsAsBarrier, PlanEntry.isKept]

/-- Carrying out a plan draws its draws, and the barriers that draw. -/
theorem length_draws_flush (c : Canvas) (calls : List PlanEntry) :
    (c.flush (ofCalls calls)).draws.length = c.draws.length + (ofCalls calls).drawCount +
      calls.countP PlanEntry.drawsAsBarrier := by
  have h := ofCalls_batched calls
  unfold Canvas.flush
  rw [← Array.foldl_toList, Canvas.length_draws_foldl_play h.kept, h.drawCount,
    toList_entries_ofCalls, countP_drawsAsBarrier_filter]

theorem countP_drawsAsBarrier_of_isDeferred (h : ∀ e ∈ calls, e.IsDeferred) :
    calls.countP PlanEntry.drawsAsBarrier = 0 := by
  refine List.countP_eq_zero.mpr fun e he => ?_
  rw [(h e he).drawsAsBarrier_eq]
  exact Bool.false_ne_true

end Plan

/-! ### The calls of a walk -/

/-- The plan of the second stage is that of the first one after calls that a walk makes. -/
def Stage.Adds (s t : Stage Plan) : Prop :=
  ∃ calls : List PlanEntry, t.gathered = calls.foldl Plan.add s.gathered ∧
    ∀ e ∈ calls, e.IsDeferred

namespace Stage.Adds

variable {s t u : Stage Plan}

theorem of_eq (h : t.gathered = s.gathered) : s.Adds t := ⟨[], h, fun _ he => nomatch he⟩

theorem refl (s : Stage Plan) : s.Adds s := .of_eq rfl

theorem single {e : PlanEntry} (he : e.IsDeferred) (h : t.gathered = s.gathered.add e) :
    s.Adds t :=
  ⟨[e], h, List.forall_mem_singleton.mpr he⟩

theorem trans (h : s.Adds t) (h' : t.Adds u) : s.Adds u := by
  obtain ⟨calls, ht, hcalls⟩ := h
  obtain ⟨calls', hu, hcalls'⟩ := h'
  refine ⟨calls ++ calls', ?_, List.forall_mem_append.mpr ⟨hcalls, hcalls'⟩⟩
  rw [hu, ht, List.foldl_append]

end Stage.Adds

/-- What is handed out makes one call or none. -/
theorem Handler.deferred_adds (level : Nat) (key : Key) (op : Operation) (offset : Int)
    (clip : Bool) (s : Stage Plan) :
    s.Adds (Handler.deferred.accept level key op offset clip s) := by
  have hown : s.Adds (if op.changesState then
      (s.onCanvas (·.issue offset op)).gather (·.addBarrier op offset)
    else if op.batchKind?.isSome then
      s.gather (·.addDraw op s.canvas.displayState clip)
    else s.log (.notDeferred op.name)) := by
    split_ifs with hstate hkind
    · exact .single (e := .barrier op offset) hstate rfl
    · exact .single (e := .draw op s.canvas.displayState clip) hkind rfl
    · exact .of_eq rfl
  cases op with
  | child ref edge => exact .refl s
  | recorded op list => exact hown
  | property op => exact hown

theorem visit_adds (f : Frame) (levels level : Nat) (key : Key) :
    (visit .deferred f levels level key).Keeps Stage.Adds := by
  refine visit_keeps (h := .deferred) (R := fun _ => Stage.Adds) (fun _ _ => .refl _)
    (fun _ _ _ _ => .trans) (fun _ _ _ => .of_eq rfl) (fun _ _ _ s => Stage.Adds.refl s)
    (fun _ _ _ s => Stage.Adds.refl s) ?_ levels level key
  rintro v hv - - - hdescend
  exact {
    refl := fun _ => .refl _
    trans := fun _ _ _ => .trans
    canvas := fun _ _ => .of_eq rfl
    held := fun _ _ => .of_eq rfl
    recent := fun _ _ _ => .of_eq rfl
    log := fun _ _ _ => .of_eq rfl
    accept := fun s op offset _ => by
      unfold Visit.accepted
      rw [hv]
      exact Handler.deferred_adds _ _ op offset _ s
    reject := by
      rw [hv]
      exact fun s => Stage.Adds.refl s
    descend := hdescend }

namespace World

variable {w w' : World} {canvas : Canvas} {level : Nat} {key : Key}

/-- A walk adds to the plan that it begins with by calls. -/
theorem plan_of_walk {p : Plan} {result : Canvas × Plan}
    (h : walk .deferred p canvas level key w = .ok result w') :
    ∃ calls : List PlanEntry, result.2 = calls.foldl Plan.add p ∧ ∀ e ∈ calls, e.IsDeferred := by
  have hends := visit_adds w.frame (levelCount - level) level key (w.stage canvas p)
  unfold Walk.Ends at hends
  rw [walk_apply] at h
  cases hvisit : visit .deferred w.frame (levelCount - level) level key (w.stage canvas p) with
  | ok a t =>
    rw [hvisit] at h hends
    cases h
    exact hends
  | error e t =>
    rw [hvisit] at h
    dsimp only at h
    rw [fail_apply] at h
    cases h

end World

namespace Plan

/-- After any calls the batches of a plan are the longest runs of draws of one kind, and carrying it
out draws as often as there are draws, and once more for each barrier that draws.  A walk makes
calls without such barriers, on the plan that it begins with, and so the plan of a node or a frame
draws what its batches count. -/
theorem batches_partition :
    (∀ calls : List PlanEntry,
      (ofCalls calls).entries.toList = calls.filter PlanEntry.isKept ∧
      (ofCalls calls).Partitioned ∧
      ∀ canvas : Canvas, (canvas.flush (ofCalls calls)).draws.length = canvas.draws.length +
        (ofCalls calls).drawCount + calls.countP PlanEntry.drawsAsBarrier) ∧
    (∀ (before : List PlanEntry) (w w' : World) (canvas : Canvas) (level : Nat) (key : Key)
      (result : Canvas × Plan),
      World.walk .deferred (ofCalls before) canvas level key w = .ok result w' →
      ∃ calls, result.2 = ofCalls (before ++ calls) ∧ ∀ e ∈ calls, e.IsDeferred) ∧
    ∀ (w w' : World) (canvas : Canvas) (result : Canvas × Plan),
      ((∃ level key, World.planNode canvas level key w = .ok result w') ∨
        ∃ root, World.plan canvas root w = .ok result w') →
      (∃ calls, result.2 = ofCalls calls ∧ result.2.entries.toList = calls ∧
        ∀ e ∈ calls, e.IsDeferred) ∧
      result.2.Partitioned ∧
      ∀ canvas' : Canvas, (canvas'.flush result.2).draws.length =
        canvas'.draws.length + result.2.drawCount := by
  have hwalk (before : List PlanEntry) (w w' : World) (canvas : Canvas) (level : Nat) (key : Key)
      (result : Canvas × Plan)
      (h : World.walk .deferred (ofCalls before) canvas level key w = .ok result w') :
      ∃ calls, result.2 = ofCalls (before ++ calls) ∧ ∀ e ∈ calls, e.IsDeferred := by
    obtain ⟨calls, hresult, hcalls⟩ := World.plan_of_walk h
    exact ⟨calls, hresult.trans List.foldl_append.symm, hcalls⟩
  refine ⟨fun calls => ⟨toList_entries_ofCalls calls, (ofCalls_batched calls).partitioned,
    fun canvas => length_draws_flush canvas calls⟩, hwalk, fun w w' canvas result h => ?_⟩
  obtain ⟨level, key, w₁, hplan⟩ : ∃ level key w₁,
      World.walk .deferred (ofCalls []) canvas level key w = .ok result w₁ := by
    rcases h with ⟨level, key, h⟩ | ⟨root, h⟩
    · exact ⟨level, key, w', h⟩
    · obtain ⟨w₁, -, hplan, -⟩ := World.planNode_of_plan h
      exact ⟨0, root, w₁, hplan⟩
  obtain ⟨calls, hresult, hcalls⟩ := hwalk [] w w₁ canvas level key result hplan
  rw [List.nil_append] at hresult
  rw [hresult]
  refine ⟨⟨calls, rfl, ?_, hcalls⟩, (ofCalls_batched calls).partitioned, fun canvas' => ?_⟩
  · rw [toList_entries_ofCalls]
    exact List.filter_eq_self.mpr fun e he => (hcalls e he).isKept
  · rw [length_draws_flush, countP_drawsAsBarrier_of_isDeferred hcalls, Nat.add_zero]

end Plan

namespace Ripple

/-- Two texts and a rectangle, and one more rectangle after a clip. -/
def caption : List PlanEntry := [
  .draw (.recorded (.text "a" .zero 0) {}) {} true,
  .draw (.recorded (.text "a" .zero 0) {}) {} true,
  .draw (.recorded (.rect (.ofSize 1 1) 0) {}) {} true,
  .barrier (.property (.clipRect (.ofSize 1 1) .intersect)) 0,
  .draw (.recorded (.rect (.ofSize 1 1) 0) {}) {} true]

/-- Nothing was routed yet. -/
theorem walkable : world.frame.Walkable list :=
  Frame.walkable_of_unprojected live isTree.acyclic fun key _ => by
    simp [Frame.projectedAt, World.frame, world]

/-- The rectangle after the clip has a batch of its own, and the list is added to the same plan or
to a new one. -/
theorem batches_partition_list :
    (Plan.ofCalls caption).batches.reverse = [⟨.text, 0, 2⟩, ⟨.shape, 2, 1⟩, ⟨.shape, 4, 1⟩] ∧
    (Plan.ofCalls caption).Partitioned ∧
    (Canvas.flush {} (Plan.ofCalls caption)).draws.length = 4 ∧
    (∃ tracked calls w', World.walk .deferred (Plan.ofCalls caption) {} 0 list world =
      .ok (tracked, Plan.ofCalls (caption ++ calls)) w') ∧
    ∃ tracked p w', World.planNode {} 0 list world = .ok (tracked, p) w' ∧ p.Partitioned ∧
      (Canvas.flush {} p).draws.length = p.drawCount := by
  obtain ⟨hcalls, hwalks, hplans⟩ := Plan.batches_partition
  obtain ⟨-, hpartitioned, hflush⟩ := hcalls caption
  have hcompletes (start : Plan) : ∃ result w',
      World.walk .deferred start {} 0 list world = .ok result w' := by
    obtain ⟨result, w', hwalk, -⟩ := (World.walk_completes Handler.deferred_neutral walkable start
      {} 0).exists_of_le (walkable.add_depth_lt (by decide))
    exact ⟨result, w', hwalk⟩
  refine ⟨rfl, hpartitioned, hflush {}, ?_, ?_⟩
  · obtain ⟨⟨tracked, p⟩, w', hwalk⟩ := hcompletes (Plan.ofCalls caption)
    obtain ⟨calls, rfl, -⟩ := hwalks caption world w' {} 0 list (tracked, p) hwalk
    exact ⟨tracked, calls, w', hwalk⟩
  · obtain ⟨⟨tracked, p⟩, w', hplan⟩ := hcompletes {}
    obtain ⟨-, hp, hdraws⟩ := hplans world w' {} (tracked, p) (.inl ⟨0, list, hplan⟩)
    exact ⟨tracked, p, w', hplan, hp, (hdraws {}).trans (Nat.zero_add _)⟩

end Ripple

end RetainedScene
