import Mathlib.Logic.Function.Basic
import RetainedScene.Proofs.Node.Handles
import RetainedScene.Proofs.Session.Teardown

/-!
# Nodes by their keys

To those who use a scene its nodes are known by their keys.  A `Ledger` is all that there is to know
of them: which keys were handed out, which nodes were destroyed, what was last set for each key, and
which nodes are queued to be destroyed.  `Ledger.Step` says how a request is answered and what it
makes of the ledger.  Nothing in it speaks of slots: a key that is handed out is a new one, a
request for a node that is not live is refused and changes nothing, and a flush destroys the queued
nodes in order, up to the first one that is not live when its turn comes.

Whatever is asked of a world, mistakes included, it answers as the ledger says, and what is found in
it is what the ledger tells (`World.answers_by_ledger`).  This is so although slots are used again:
their versions tell the keys of one slot apart.
-/

namespace RetainedScene

structure Ledger where
  /-- The keys that were handed out, the last one first. -/
  issued : List Key := []
  /-- The keys whose nodes were destroyed, the last one first. -/
  destroyed : List Key := []
  /-- What was last set for a key. -/
  node : Key → Node := default
  /-- The keys whose nodes are to be destroyed, the first one queued first. -/
  queue : List Key := []

namespace Ledger

/-! ### Requests -/

inductive Request where
  | create (name : String)
  | setProperties (key : Key) (properties : Properties)
  | editProperties (key : Key) (f : Properties → Properties)
  | setContent (key : Key) (content : Option DisplayList)
  | destroy (key : Key)
  | destroyLater (key : Key)
  | flush

inductive Answer where
  | done
  | created (key : Key)
  | flushed (count : Nat)
  deriving DecidableEq

/-- The key was handed out, and its node was not destroyed since. -/
def Live (l : Ledger) (key : Key) : Prop := key ∈ l.issued ∧ key ∉ l.destroyed

instance (l : Ledger) (key : Key) : Decidable (l.Live key) :=
  inferInstanceAs (Decidable (_ ∧ _))

/-- A key is handed out for a new node. -/
def create (l : Ledger) (key : Key) (name : String) : Ledger :=
  { l with issued := key :: l.issued, node := Function.update l.node key { name } }

/-- The node of one key is changed. -/
def edit (l : Ledger) (key : Key) (f : Node → Node) : Ledger :=
  { l with node := Function.update l.node key (f (l.node key)) }

/-- The nodes of keys are destroyed, one after the other. -/
def destroy (l : Ledger) (keys : List Key) : Ledger :=
  { l with destroyed := keys.reverse ++ l.destroyed }

/-- How a request is answered, and what it makes of a ledger. -/
inductive Step (l : Ledger) : Request → Except Fatal Answer → Ledger → Prop
  | created (name : String) {key : Key} (hnew : key ∉ l.issued) :
    Step l (.create name) (.ok (.created key)) (l.create key name)
  | propertiesSet {key : Key} (hlive : l.Live key) (properties : Properties) :
    Step l (.setProperties key properties) (.ok .done) (l.edit key ({ · with properties }))
  | propertiesNotSet {key : Key} (hdead : ¬l.Live key) (properties : Properties) :
    Step l (.setProperties key properties) (.error (.usedAfterDestruction key)) l
  | propertiesEdited {key : Key} (hlive : l.Live key) (f : Properties → Properties) :
    Step l (.editProperties key f) (.ok .done)
      (l.edit key fun node => { node with properties := f node.properties })
  | propertiesNotEdited {key : Key} (hdead : ¬l.Live key) (f : Properties → Properties) :
    Step l (.editProperties key f) (.error (.usedAfterDestruction key)) l
  | contentSet {key : Key} (hlive : l.Live key) (content : Option DisplayList) :
    Step l (.setContent key content) (.ok .done) (l.edit key ({ · with content }))
  | contentNotSet {key : Key} (hdead : ¬l.Live key) (content : Option DisplayList) :
    Step l (.setContent key content) (.error (.usedAfterDestruction key)) l
  | destroyed {key : Key} (hlive : l.Live key) :
    Step l (.destroy key) (.ok .done) (l.destroy [key])
  | notDestroyed {key : Key} (hdead : ¬l.Live key) :
    Step l (.destroy key) (.error (.destroyedTwice key)) l
  | queued (key : Key) :
    Step l (.destroyLater key) (.ok .done) { l with queue := l.queue ++ [key] }
  /-- Every queued node is live when its turn comes. -/
  | flushed (hlive : ∀ key ∈ l.queue, l.Live key) (hnodup : l.queue.Nodup) :
    Step l .flush (.ok (.flushed l.queue.length)) { l.destroy l.queue with queue := [] }
  /-- One is not live when its turn comes: it was not before, or it is queued twice. -/
  | notFlushed {before after : List Key} {key : Key} (hqueue : l.queue = before ++ key :: after)
    (hlive : ∀ key ∈ before, l.Live key) (hnodup : before.Nodup)
    (hdead : l.Live key → key ∈ before) :
    Step l .flush (.error (.destroyedTwice key)) { l.destroy before with queue := [] }

/-- How requests are answered, one after the other, also when some are refused. -/
inductive Run : Ledger → List Request → List (Except Fatal Answer) → Ledger → Prop
  | nil (l : Ledger) : Run l [] [] l
  | cons {l l' l'' : Ledger} {request : Request} {answer : Except Fatal Answer}
    {requests : List Request} {answers : List (Except Fatal Answer)}
    (hstep : Step l request answer l') (hrest : Run l' requests answers l'') :
    Run l (request :: requests) (answer :: answers) l''

/-- What is found in a world is what a ledger tells. -/
structure Describes (l : Ledger) (w : World) : Prop where
  contains : ∀ key, w.scene.nodes.contains key = decide (l.Live key)
  get? : ∀ key, w.scene.nodes.get? key = if l.Live key then some (l.node key) else none
  node : ∀ key, NodeStore.node w.scene.nodes key =
    if l.Live key then .ok (l.node key) else .error (.drawnAfterDestruction key)
  queue : w.shared.pending.toList = l.queue

end Ledger

namespace World

/-- Carries out a request. -/
def serve : Ledger.Request → Action Ledger.Answer
  | .create name => fun w =>
    let (key, w) := w.createNode name
    .ok (.created key) w
  | .setProperties key properties => do
    setProperties key properties
    pure .done
  | .editProperties key f => do
    editProperties key f
    pure .done
  | .setContent key content => do
    setContent key content
    pure .done
  | .destroy key => do
    destroy key
    pure .done
  | .destroyLater key => do
    modify (destroyLater key)
    pure .done
  | .flush => do
    let count ← flushDestruction
    pure (.flushed count)

/-- How a request is answered, and the world after it. -/
def answer (w : World) (request : Ledger.Request) : Except Fatal Ledger.Answer × World :=
  match serve request w with
  | .ok answer w' => (.ok answer, w')
  | .error e w' => (.error e, w')

/-- How requests are answered, one after the other, and the world after them.  A request that is
refused does not keep the later ones from being served. -/
def answers (w : World) : List Ledger.Request → List (Except Fatal Ledger.Answer) × World
  | [] => ([], w)
  | request :: requests =>
    let (first, w) := w.answer request
    let (rest, w) := w.answers requests
    (first :: rest, w)

end World

/-! ### What a world and its ledger have in common -/

@[simp] theorem Shared.pending_lose (c : Shared) (l : DisplayList) :
    (c.lose l).pending = c.pending := by
  unfold lose
  split <;> rfl

theorem World.pending_refilled (w : World) (key : Key) (node : Node)
    (content : Option DisplayList) :
    (w.refilled key node content).shared.pending = w.shared.pending := by
  unfold refilled
  cases node.content <;> cases content
  · rfl
  · rfl
  · exact Shared.pending_tearDown _ _
  · exact Shared.pending_tearDown _ _

/-- The answer to a request that comes to an operation without a result. -/
theorem World.answer_of_done {request : Ledger.Request} {m : Action Unit}
    (h : serve request = (do m; pure .done)) (w : World) : w.answer request =
      match m w with
      | .ok _ w' => (.ok .done, w')
      | .error e w' => (.error e, w') := by
  rw [answer, h]
  show (match EStateM.bind m (fun _ => pure Ledger.Answer.done) w with
    | .ok answer w' => (.ok answer, w')
    | .error e w' => (.error e, w') : Except Fatal Ledger.Answer × World) = _
  unfold EStateM.bind
  cases m w <;> rfl

namespace Ledger

variable {l : Ledger} {w w' : World} {key : Key} {keys : List Key}

/-- The ledger tells of the world, and of the keys that its store has handed out. -/
structure Matches (l : Ledger) (w : World) : Prop where
  handedOut : w.scene.nodes.HandedOut l.issued
  destroyed : ∀ key ∈ l.destroyed, key ∈ l.issued
  get? : ∀ key, w.scene.nodes.get? key = if l.Live key then some (l.node key) else none
  queue : w.shared.pending.toList = l.queue

theorem live_destroy : (l.destroy keys).Live key ↔ l.Live key ∧ key ∉ keys := by
  simp only [Live, destroy, List.mem_append, List.mem_reverse, not_or]
  tauto

theorem destroy_cons (l : Ledger) (key : Key) (keys : List Key) :
    (l.destroy [key]).destroy keys = l.destroy (key :: keys) := by
  simp [destroy]

namespace Matches

theorem empty (hscene : w.scene = {}) (hpending : w.shared.pending = #[]) :
    ({} : Ledger).Matches w where
  handedOut := hscene ▸ .empty
  destroyed _ hkey := nomatch hkey
  get? key := by
    have hdead : ¬({} : Ledger).Live key := fun h => nomatch h.1
    rw [if_neg hdead, hscene, Option.eq_none_iff_forall_ne_some]
    intro node hnode
    cases Arena.HandedOut.empty.mem hnode
  queue := by rw [hpending]

theorem get?_of_live (h : l.Matches w) (hlive : l.Live key) :
    w.scene.nodes.get? key = some (l.node key) := by rw [h.get?, if_pos hlive]

theorem get?_of_dead (h : l.Matches w) (hdead : ¬l.Live key) :
    w.scene.nodes.get? key = none := by rw [h.get?, if_neg hdead]

theorem remove?_of_dead (h : l.Matches w) (hdead : ¬l.Live key) :
    w.scene.nodes.remove? key = none := by
  rw [Arena.remove?, h.get?_of_dead hdead, Option.map_none]

theorem describes (h : l.Matches w) : l.Describes w where
  contains key := by
    rw [Arena.contains, h.get?]
    split_ifs with hlive <;> simp [hlive]
  get? := h.get?
  node key := by
    rw [NodeStore.node, h.get?]
    split_ifs <;> rfl
  queue := h.queue

/-- What is shared may change as long as the queue stays. -/
theorem onShared (h : l.Matches w) {f : Shared → Shared}
    (hf : (f w.shared).pending = w.shared.pending) : l.Matches (w.onShared f) :=
  ⟨h.handedOut, h.destroyed, h.get?, (congrArg Array.toList hf).trans h.queue⟩

theorem createNode (h : l.Matches w) (name : String) :
    (l.create (w.createNode name).1 name).Matches (w.createNode name).2 where
  handedOut := h.handedOut.insert { name }
  destroyed key hkey := List.mem_cons_of_mem _ (h.destroyed key hkey)
  get? key := by
    have hget := Arena.get?_insert h.handedOut.wellFormed { name } key
    have hnew : (w.createNode name).1 ∉ l.issued := h.handedOut.not_mem { name }
    by_cases hkey : key = (w.createNode name).1
    · -- a new key is not among the destroyed ones, which were all handed out before
      have hlive : (l.create (w.createNode name).1 name).Live key :=
        ⟨hkey ▸ List.mem_cons_self, fun hdestroyed => hnew (hkey ▸ h.destroyed key hdestroyed)⟩
      have hnode : (l.create (w.createNode name).1 name).node key = { name } := by
        rw [hkey]
        exact Function.update_self ..
      rw [if_pos hlive, hnode]
      exact hget.trans (if_pos hkey)
    · have hlive : (l.create (w.createNode name).1 name).Live key ↔ l.Live key :=
        and_congr_left' (List.mem_cons.trans (or_iff_right hkey))
      have hnode : (l.create (w.createNode name).1 name).node key = l.node key :=
        Function.update_of_ne hkey ..
      rw [hnode]
      simp only [hlive]
      exact (hget.trans (if_neg hkey)).trans (h.get? key)
  queue := h.queue

/-- A change of the node of one key leaves the nodes of the others alone. -/
theorem edit (h : l.Matches w) (hlive : l.Live key) {f : Node → Node}
    (hnodes : w'.scene.nodes = w.scene.nodes.update key f)
    (hpending : w'.shared.pending = w.shared.pending) : (l.edit key f).Matches w' where
  handedOut := hnodes ▸ h.handedOut.update key f
  destroyed := h.destroyed
  get? other := by
    show _ = if l.Live other then some (Function.update l.node key (f (l.node key)) other) else none
    rw [hnodes]
    by_cases hkey : other = key
    · subst hkey
      rw [Arena.get?_update, h.get?_of_live hlive, if_pos hlive, Function.update_self]
      rfl
    · rw [Arena.get?_update_of_ne _ hkey, h.get?, Function.update_of_ne hkey]
  queue := (congrArg Array.toList hpending).trans h.queue

theorem emptied (h : l.Matches w) {node : Node} {nodes : NodeStore}
    (hremove : w.scene.nodes.remove? key = some (node, nodes)) :
    (l.destroy [key]).Matches (w.emptied key node nodes) where
  handedOut := h.handedOut.remove? hremove
  destroyed other hother := by
    rcases List.mem_append.mp hother with hkey | hbefore
    · obtain rfl : other = key := by simpa using hkey
      exact h.handedOut.mem (Arena.remove?_eq_some_iff.mp hremove).1
    · exact h.destroyed other hbefore
  get? other := by
    show nodes.get? other = if (l.destroy [key]).Live other then some (l.node other) else none
    rw [Arena.get?_remove? hremove, h.get?]
    simp only [live_destroy, List.mem_singleton]
    by_cases hkey : other = key <;> simp [hkey]
  queue := (congrArg Array.toList (World.pending_emptied ..)).trans h.queue

/-! ### Operations on one node -/

/-- The properties of a node are changed, or there is no such node and nothing comes of it. -/
theorem editProperties (h : l.Matches w) (key : Key) (f : Properties → Properties) :
    (l.Live key ∧ ∃ w', World.editProperties key f w = .ok () w' ∧
      (l.edit key fun node => { node with properties := f node.properties }).Matches w') ∨
    ¬l.Live key ∧ ∃ w', World.editProperties key f w = .error (.usedAfterDestruction key) w' ∧
      l.Matches w' := by
  by_cases hlive : l.Live key
  · have hnode := h.get?_of_live hlive
    exact .inl ⟨hlive, _, World.editProperties_eq_ok_iff.mpr ⟨⟨_, hnode⟩, rfl⟩,
      h.edit hlive rfl rfl⟩
  · exact .inr ⟨hlive, _, World.editProperties_eq_error (h.get?_of_dead hlive) f,
      h.onShared (f := (·.log _)) rfl⟩

theorem setContent (h : l.Matches w) (key : Key) (content : Option DisplayList) :
    (l.Live key ∧ ∃ w', World.setContent key content w = .ok () w' ∧
      (l.edit key ({ · with content })).Matches w') ∨
    ¬l.Live key ∧ ∃ w', World.setContent key content w = .error (.usedAfterDestruction key) w' ∧
      l.Matches w' := by
  by_cases hlive : l.Live key
  · have hnode := h.get?_of_live hlive
    exact .inl ⟨hlive, _, World.setContent_eq_ok_iff.mpr ⟨_, hnode, rfl⟩,
      h.edit hlive rfl (World.pending_refilled ..)⟩
  · refine .inr ⟨hlive, _, World.setContent_eq_error (h.get?_of_dead hlive) content, ?_⟩
    refine (h.onShared (f := (·.log _)) rfl).onShared ?_
    cases content <;> simp

theorem destroy (h : l.Matches w) (key : Key) :
    (l.Live key ∧ ∃ w', World.destroy key w = .ok () w' ∧ (l.destroy [key]).Matches w') ∨
    ¬l.Live key ∧ ∃ w', World.destroy key w = .error (.destroyedTwice key) w' ∧ l.Matches w' := by
  by_cases hlive : l.Live key
  · have hremove := Arena.remove?_eq_some_iff.mpr ⟨h.get?_of_live hlive, rfl⟩
    exact .inl ⟨hlive, _, World.destroy_eq_ok_iff.mpr ⟨_, _, hremove, rfl⟩, h.emptied hremove⟩
  · exact .inr ⟨hlive, _, World.destroy_eq_error (h.remove?_of_dead hlive),
      h.onShared (f := (·.log _)) rfl⟩

/-! ### Flushing -/

/-- The nodes of keys are destroyed in order, up to the first one that is not live. -/
theorem forM_destroy (h : l.Matches w) (keys : List Key) :
    (∃ w', keys.forM World.destroy w = .ok () w' ∧ (∀ key ∈ keys, l.Live key) ∧ keys.Nodup ∧
      (l.destroy keys).Matches w') ∨
    ∃ before key after w', keys = before ++ key :: after ∧ (∀ key ∈ before, l.Live key) ∧
      before.Nodup ∧ (l.Live key → key ∈ before) ∧
      keys.forM World.destroy w = .error (.destroyedTwice key) w' ∧
      (l.destroy before).Matches w' := by
  induction keys generalizing l w with
  | nil => exact .inl ⟨w, rfl, fun _ hkey => (nomatch hkey), .nil, h⟩
  | cons key keys ih =>
    have hcons : (key :: keys).forM World.destroy w =
        EStateM.bind (World.destroy key) (fun _ => keys.forM World.destroy) w := rfl
    rw [hcons, EStateM.bind]
    rcases h.destroy key with ⟨hlive, w₁, hfirst, hw₁⟩ | ⟨hdead, w₁, hfirst, hw₁⟩
    · rw [hfirst]
      -- what is live after the first is gone was live before, and is another one
      have hlater {keys : List Key} (hall : ∀ k ∈ keys, (l.destroy [key]).Live k) :
          (∀ k ∈ key :: keys, l.Live k) ∧ key ∉ keys := by
        simp only [live_destroy, List.mem_singleton] at hall
        exact ⟨List.forall_mem_cons.mpr ⟨hlive, fun k hk => (hall k hk).1⟩,
          fun hk => (hall key hk).2 rfl⟩
      rcases ih hw₁ with ⟨w', hrest, hall, hnodup, hw'⟩ |
        ⟨before, twice, after, w', rfl, hall, hnodup, hdead, hrest, hw'⟩
      · obtain ⟨hkeys, hnew⟩ := hlater hall
        exact .inl
          ⟨w', hrest, hkeys, List.nodup_cons.mpr ⟨hnew, hnodup⟩, destroy_cons l key _ ▸ hw'⟩
      · -- a key that comes twice is among those before, or is the first one
        obtain ⟨hkeys, hnew⟩ := hlater hall
        refine .inr ⟨key :: before, twice, after, w', rfl, hkeys,
          List.nodup_cons.mpr ⟨hnew, hnodup⟩, fun htwice => ?_, hrest, destroy_cons l key _ ▸ hw'⟩
        rw [List.mem_cons, or_iff_not_imp_left]
        exact fun hne => hdead (live_destroy.mpr ⟨htwice, by simpa using hne⟩)
    · rw [hfirst]
      exact .inr ⟨[], key, keys, w₁, rfl, fun _ hk => (nomatch hk), .nil,
        fun hlive => absurd hlive hdead, rfl, hw₁⟩

/-- Flushing empties the queue, whatever comes of it. -/
theorem flush (h : l.Matches w) : ∃ l', Step l .flush (w.answer .flush).1 l' ∧
    l'.Matches (w.answer .flush).2 := by
  have hcleared : ({ l with queue := [] } : Ledger).Matches
      (w.onShared fun c => { c with pending := #[] }) :=
    ⟨h.handedOut, h.destroyed, h.get?, rfl⟩
  have hserve : World.serve .flush w = EStateM.bind (EStateM.bind (l.queue.forM World.destroy)
      fun _ => pure w.shared.pending.size) (fun count => pure (.flushed count))
      (w.onShared fun c => { c with pending := #[] }) := by
    rw [← h.queue]
    rfl
  have hsize : w.shared.pending.size = l.queue.length := by rw [← h.queue, Array.length_toList]
  rw [World.answer, hserve, hsize, EStateM.bind, EStateM.bind]
  rcases hcleared.forM_destroy l.queue with ⟨w', hrun, hall, hnodup, hw'⟩ |
    ⟨before, key, after, w', hqueue, hall, hnodup, hdead, hrun, hw'⟩
  · rw [hrun]
    exact ⟨_, .flushed hall hnodup, hw'⟩
  · rw [hrun]
    exact ⟨_, .notFlushed hqueue hall hnodup hdead, hw'⟩

/-! ### Answers -/

/-- A request is answered as the ledger says, and the ledger tells of the world after it. -/
theorem answer (h : l.Matches w) (request : Request) :
    ∃ l', Step l request (w.answer request).1 l' ∧ l'.Matches (w.answer request).2 := by
  cases request with
  | create name => exact ⟨_, .created name (h.handedOut.not_mem { name }), h.createNode name⟩
  | setProperties key properties =>
    rw [World.answer_of_done (m := World.editProperties key fun _ => properties) rfl]
    rcases h.editProperties key fun _ => properties with ⟨hlive, w', hedit, hw'⟩ |
      ⟨hdead, w', hedit, hw'⟩
    · rw [hedit]
      exact ⟨_, .propertiesSet hlive properties, hw'⟩
    · rw [hedit]
      exact ⟨_, .propertiesNotSet hdead properties, hw'⟩
  | editProperties key f =>
    rw [World.answer_of_done (m := World.editProperties key f) rfl]
    rcases h.editProperties key f with ⟨hlive, w', hedit, hw'⟩ | ⟨hdead, w', hedit, hw'⟩
    · rw [hedit]
      exact ⟨_, .propertiesEdited hlive f, hw'⟩
    · rw [hedit]
      exact ⟨_, .propertiesNotEdited hdead f, hw'⟩
  | setContent key content =>
    rw [World.answer_of_done (m := World.setContent key content) rfl]
    rcases h.setContent key content with ⟨hlive, w', hset, hw'⟩ | ⟨hdead, w', hset, hw'⟩
    · rw [hset]
      exact ⟨_, .contentSet hlive content, hw'⟩
    · rw [hset]
      exact ⟨_, .contentNotSet hdead content, hw'⟩
  | destroy key =>
    rw [World.answer_of_done (m := World.destroy key) rfl]
    rcases h.destroy key with ⟨hlive, w', hdestroy, hw'⟩ | ⟨hdead, w', hdestroy, hw'⟩
    · rw [hdestroy]
      exact ⟨_, .destroyed hlive, hw'⟩
    · rw [hdestroy]
      exact ⟨_, .notDestroyed hdead, hw'⟩
  | destroyLater key =>
    refine ⟨_, .queued key, h.handedOut, h.destroyed, h.get?, ?_⟩
    show (w.shared.pending.push key).toList = l.queue ++ [key]
    rw [Array.toList_push, h.queue]
  | flush => exact h.flush

/-- So are all requests, one after the other. -/
theorem answers (h : l.Matches w) (requests : List Request) :
    ∃ l', Run l requests (w.answers requests).1 l' ∧ l'.Matches (w.answers requests).2 := by
  induction requests generalizing l w with
  | nil => exact ⟨l, .nil l, h⟩
  | cons request requests ih =>
    obtain ⟨l₁, hstep, h₁⟩ := h.answer request
    obtain ⟨l', hrest, h'⟩ := ih h₁
    exact ⟨l', .cons hstep hrest, h'⟩

end Matches

end Ledger

namespace World

/-- Whatever is asked of a world that began empty, it answers as the ledger says, and what is found
in it is what the ledger tells.  The versions of the keys fit a word of 32 bits, unless a slot is
used more than `2 ^ 31` times. -/
theorem answers_by_ledger {settings : Settings} {asked : Option Level} {w : World}
    (hw : World.ofSettings settings asked = .ok w) (requests : List Ledger.Request) :
    ∃ l, Ledger.Run {} requests (w.answers requests).1 l ∧ l.Describes (w.answers requests).2 ∧
      ∀ key ∈ l.issued, Arena.uses l.issued key.slot ≤ 0x80000000 → key.version < 0x100000000 := by
  have hempty : w.shared.pending = #[] := by
    unfold World.ofSettings at hw
    cases hrecent : RecentOps.ofCapacity settings.recentCapacity with
    | error e => rw [hrecent] at hw; cases hw
    | ok recent => rw [hrecent] at hw; cases hw; rfl
  obtain ⟨l, hrun, hl⟩ :=
    (Ledger.Matches.empty (eq_empty_of_ofSettings hw).1 hempty).answers requests
  exact ⟨l, hrun, hl.describes, fun key hkey => hl.handedOut.version_lt hkey⟩

/-- A bud takes the slot of a leaf that has gone.  It is then queued twice to go as well. -/
def season : List Ledger.Request := [
  .create "leaf", .destroy ⟨1, 1⟩, .create "bud", .setProperties ⟨1, 1⟩ { alpha := 0 },
  .setContent ⟨1, 3⟩ (some {}), .destroyLater ⟨1, 3⟩, .create "twig", .destroyLater ⟨1, 3⟩, .flush,
  .destroy ⟨2, 1⟩]

/-- What is meant for the leaf is refused and does not come to the bud, and the flush is refused
when the bud is to go a second time. -/
theorem season_by_ledger : ∃ l, l.Describes (({} : World).answers season).2 ∧ Ledger.Run {} season [
    .ok (.created ⟨1, 1⟩), .ok .done, .ok (.created ⟨1, 3⟩),
    .error (.usedAfterDestruction ⟨1, 1⟩), .ok .done, .ok .done, .ok (.created ⟨2, 1⟩), .ok .done,
    .error (.destroyedTwice ⟨1, 3⟩), .ok .done] l := by
  have hw : World.ofSettings {} (some .warn) = .ok {} := rfl
  obtain ⟨l, hrun, hl, -⟩ := answers_by_ledger hw season
  exact ⟨l, hl, hrun⟩

end World

end RetainedScene
