import RetainedScene.Proofs.Cache.Balance
import RetainedScene.Proofs.Node.Values
import RetainedScene.Scene.Lifetime

/-!
# What a change of a node comes to

Changing, filling and destroying a node goes well exactly when the node is there, and then the world
is this one (`editProperties_eq_ok_iff`, `setContent_eq_ok_iff`, `destroy_eq_ok_iff`).  When content
is torn down, all that the cache is asked for is to take its references back
(`Shared.cache_tearDown`); so it is with a queue of nodes that are destroyed one after the other
(`Destroys.cache_eq`).
-/

namespace RetainedScene

open Cache

/-! ### The cache -/

/-- The acts that give back the references of a list. -/
def DisplayList.returns (l : DisplayList) : List Act :=
  Act.giving l.references.borrowed l.references.owned

/-- What holds nothing has nothing to give back. -/
theorem DisplayList.returns_eq_nil {l : DisplayList} (hspent : l.spent = false)
    (hheld : l.held = 0) : l.returns = [] := by
  have hall : l.references.all = [] := by
    unfold held at hheld
    rw [hspent] at hheld
    exact List.length_eq_zero_iff.mp hheld
  obtain ⟨hborrowed, howned⟩ := List.append_eq_nil_iff.mp hall
  rw [returns, hborrowed, howned]
  rfl

theorem Cache.eq_of_retain_unknown {c c' : Cache} {id : ResourceId}
    (h : c.retain id = (.unknown, c')) : c' = c := by
  unfold retain at h
  cases hfind : c.find? id <;> rw [hfind] at h <;> cases h
  rfl

theorem Cache.eq_of_release_unknown {c c' : Cache} {id : ResourceId}
    (h : c.release id = (.unknown, c')) : c' = c := by
  unfold release at h
  cases hfind : c.find? id with
  | none =>
    rw [hfind] at h
    cases h
    rfl
  | some entry =>
    rw [hfind] at h
    dsimp only [settle] at h
    split at h <;> cases h

namespace Shared

@[simp] theorem cache_log (c : Shared) (e : Event) : (c.log e).cache = c.cache := rfl

@[simp] theorem cache_logOutcome (c : Shared) (id : ResourceId) (outcome : Outcome) :
    (c.logOutcome id outcome).cache = c.cache := by
  cases outcome <;> rfl

@[simp] theorem cache_removeFunctors (c : Shared) (count : Nat) :
    (c.removeFunctors count).cache = c.cache := rfl

@[simp] theorem cache_retain (c : Shared) (id : ResourceId) :
    (c.retain id).cache = c.cache.act (.retain id) := by
  show _ = (c.cache.retain id).2
  unfold retain
  rcases h : c.cache.retain id with ⟨outcome, cache⟩
  cases outcome with
  | unknown => exact (eq_of_retain_unknown h).symm
  | kept => rfl
  | left entry => rfl

@[simp] theorem cache_release (c : Shared) (id : ResourceId) :
    (c.release id).cache = c.cache.act (.release id) := by
  show _ = (c.cache.release id).2
  unfold release
  rcases h : c.cache.release id with ⟨outcome, cache⟩
  cases outcome with
  | unknown => exact (eq_of_release_unknown h).symm
  | kept => rfl
  | left entry => rfl

@[simp] theorem cache_destroyResource (c : Shared) (id : ResourceId) :
    (c.destroyResource id).cache = c.cache.act (.destroy id) := cache_logOutcome _ _ _

theorem cache_foldl {α : Type} {f : Shared → α → Shared} {g : α → List Act} {l : List α}
    (h : ∀ c a, (f c a).cache = (g a).foldl act c.cache) (c : Shared) :
    (l.foldl f c).cache = (l.flatMap g).foldl act c.cache := by
  induction l generalizing c with
  | nil => rfl
  | cons a l ih => rw [List.foldl_cons, ih, h, List.flatMap_cons, List.foldl_append]

theorem cache_returnReferences {l : DisplayList} (h : l.spent = false) (c : Shared) :
    (c.returnReferences l).cache = l.returns.foldl act c.cache := by
  have hborrowed (c : Shared) : (l.references.borrowed.foldl release c).cache =
      (l.references.borrowed.map .release).foldl act c.cache := by
    rw [List.map_eq_flatMap]
    exact cache_foldl cache_release c
  unfold returnReferences DisplayList.returns Act.giving
  rw [if_neg (by simp [h]), cache_log, List.foldl_append, ← hborrowed]
  refine cache_foldl (fun c id => ?_) _
  simp

theorem cache_tearDown {l : DisplayList} (h : l.spent = false) (c : Shared) :
    (c.tearDown l).cache = l.returns.foldl act c.cache := by
  unfold tearDown
  rw [if_neg (by simp [h]), cache_returnReferences h, cache_removeFunctors]

theorem lose_eq_self {l : DisplayList} (h : l.held = 0) (c : Shared) : c.lose l = c := by
  unfold lose
  rw [if_neg (by omega)]

/-- The content of a node is torn down, if it has any. -/
theorem cache_elim_tearDown {content : Option DisplayList}
    (h : ∀ l ∈ content, l.spent = false) (c : Shared) :
    (content.elim c c.tearDown).cache =
      (content.toList.flatMap DisplayList.returns).foldl act c.cache := by
  cases content with
  | none => rfl
  | some l =>
    rw [Option.toList_some, List.flatMap_singleton]
    exact cache_tearDown (h l rfl) c

end Shared

/-! ### The contents of a store -/

namespace NodeStore

variable {nodes nodes' : NodeStore} {key : Key} {node : Node}

/-- The contents of all nodes. -/
def contents (nodes : NodeStore) : List DisplayList := nodes.values.filterMap (·.content)

def contentAt? (nodes : NodeStore) (key : Key) : Option DisplayList :=
  (nodes.get? key).bind (·.content)

theorem contentAt?_of_get? (hnode : nodes.get? key = some node) :
    nodes.contentAt? key = node.content := by
  rw [contentAt?, hnode, Option.bind_some]

theorem mem_contents_of_get? {l : DisplayList} (hnode : nodes.get? key = some node)
    (hl : node.content = some l) : l ∈ nodes.contents :=
  List.mem_filterMap.mpr ⟨node, Arena.mem_values_of_get? hnode, hl⟩

theorem filterMap_content_cons (node : Node) (rest : List Node) :
    (node :: rest).filterMap (·.content) =
      node.content.toList ++ rest.filterMap (·.content) := by
  cases h : node.content <;> simp [h]

/-- A new node has no content. -/
theorem contents_insert (h : nodes.WellFormed) (name : String) :
    (NodeStore.contents (nodes.insert { name }).2).Perm nodes.contents :=
  (Arena.values_insert h _).filterMap _

theorem contents_update (hnode : nodes.get? key = some node) (f : Node → Node) : ∃ rest,
    nodes.contents.Perm (node.content.toList ++ rest) ∧
      (NodeStore.contents (nodes.update key f)).Perm ((f node).content.toList ++ rest) := by
  obtain ⟨rest, hbefore, hafter⟩ := Arena.values_update hnode f
  refine ⟨rest.filterMap (·.content), ?_, ?_⟩
  · rw [← filterMap_content_cons]
    exact hbefore.filterMap _
  · rw [← filterMap_content_cons]
    exact hafter.filterMap _

theorem contents_remove? (h : nodes.remove? key = some (node, nodes')) :
    nodes.contents.Perm (node.content.toList ++ nodes'.contents) := by
  unfold contents
  rw [← filterMap_content_cons]
  exact (Arena.values_remove? h).filterMap _

end NodeStore

/-! ### Operations on nodes -/

namespace World

variable {w w' : World} {key : Key} {keys : List Key}

/-- A world begins with an empty scene and an empty cache. -/
theorem eq_empty_of_ofSettings {settings : Settings} {asked : Option Level}
    (h : World.ofSettings settings asked = .ok w) : w.scene = {} ∧ w.shared.cache = {} := by
  unfold World.ofSettings at h
  cases hrecent : RecentOps.ofCapacity settings.recentCapacity with
  | error e => rw [hrecent] at h; cases h
  | ok recent => rw [hrecent] at h; cases h; exact ⟨rfl, rfl⟩

/-- The acts that give back what the content of a node refers to. -/
def returnsAt (w : World) (key : Key) : List Act :=
  (w.scene.nodes.contentAt? key).toList.flatMap DisplayList.returns

theorem returnsAt_of_get? {node : Node} (hnode : w.scene.nodes.get? key = some node) :
    w.returnsAt key = node.content.toList.flatMap DisplayList.returns := by
  rw [returnsAt, NodeStore.contentAt?_of_get? hnode]

/-- The world after the content of a node was replaced. -/
def refilled (w : World) (key : Key) (node : Node) (content : Option DisplayList) : World :=
  ((w.onShared fun c => node.content.elim c c.tearDown).onShared fun c =>
    content.elim c fun l => c.addFunctors l.functors).install key content

/-- The world after a node was taken out of the store. -/
def emptied (w : World) (key : Key) (node : Node) (nodes : NodeStore) : World :=
  ((w.onScene fun s => { nodes, routing := s.routing.forget key }).onShared fun c =>
    node.content.elim c c.tearDown).log (.nodeDestroyed key node.name)

theorem nodeToChange_eq (w : World) (key : Key) : nodeToChange key w =
    match w.scene.nodes.get? key with
    | some node => .ok node w
    | none => .error (.usedAfterDestruction key)
        (w.log (.failed (.usedAfterDestruction key))) := by
  show (match w.scene.nodes.get? key with
    | some node => pure node
    | none => fail (.usedAfterDestruction key) : Action Node) w = _
  cases w.scene.nodes.get? key <;> rfl

theorem editProperties_eq_ok_iff {f : Properties → Properties} :
    editProperties key f w = .ok () w' ↔ (∃ node, w.scene.nodes.get? key = some node) ∧
      w' = w.updateNode key fun node => { node with properties := f node.properties } := by
  show EStateM.bind (nodeToChange key) _ w = _ ↔ _
  unfold EStateM.bind
  rw [nodeToChange_eq]
  cases hnode : w.scene.nodes.get? key with
  | none => simp
  | some node =>
    constructor
    · intro h
      cases h
      exact ⟨⟨node, rfl⟩, rfl⟩
    · rintro ⟨-, rfl⟩
      rfl

theorem setContent_eq_ok_iff {content : Option DisplayList} :
    setContent key content w = .ok () w' ↔
      ∃ node, w.scene.nodes.get? key = some node ∧ w' = w.refilled key node content := by
  unfold setContent
  simp only [bind, EStateM.bind, get_apply]
  cases hnode : w.scene.nodes.get? key with
  | none =>
    constructor
    · intro h
      cases h
    · rintro ⟨node, h, -⟩
      cases h
  | some node =>
    constructor
    · intro h
      cases h
      exact ⟨node, rfl, rfl⟩
    · rintro ⟨node', h, rfl⟩
      obtain rfl := Option.some.inj h
      rfl

theorem destroy_eq_ok_iff : destroy key w = .ok () w' ↔
    ∃ node nodes, w.scene.nodes.remove? key = some (node, nodes) ∧
      w' = w.emptied key node nodes := by
  unfold destroy
  simp only [bind, EStateM.bind, get_apply]
  cases hremove : w.scene.nodes.remove? key with
  | none =>
    constructor
    · intro h
      cases h
    · rintro ⟨node, nodes, h, -⟩
      cases h
  | some taken =>
    obtain ⟨node, nodes⟩ := taken
    constructor
    · intro h
      cases h
      exact ⟨node, nodes, rfl, rfl⟩
    · rintro ⟨node', nodes', h, rfl⟩
      cases h
      rfl

/-- One after the other, the nodes of keys are destroyed. -/
inductive Destroys : World → List Key → World → Prop
  | nil (w : World) : Destroys w [] w
  | cons {w w' : World} {key : Key} {keys : List Key} {node : Node} {nodes : NodeStore}
    (hremove : w.scene.nodes.remove? key = some (node, nodes))
    (hrest : Destroys (w.emptied key node nodes) keys w') : Destroys w (key :: keys) w'

theorem forM_destroy_eq_ok_iff : keys.forM destroy w = .ok () w' ↔ Destroys w keys w' := by
  induction keys generalizing w with
  | nil =>
    constructor
    · intro h
      cases h
      exact .nil _
    · intro h
      cases h
      rfl
  | cons key keys ih =>
    show EStateM.bind (destroy key) (fun _ => keys.forM destroy) w = _ ↔ _
    unfold EStateM.bind
    constructor
    · intro h
      cases hdestroy : destroy key w with
      | error e w₁ => rw [hdestroy] at h; cases h
      | ok _ w₁ =>
        rw [hdestroy] at h
        obtain ⟨node, nodes, hremove, rfl⟩ := destroy_eq_ok_iff.mp hdestroy
        exact .cons hremove (ih.mp h)
    · intro h
      cases h with
      | cons hremove hrest =>
        rw [destroy_eq_ok_iff.mpr ⟨_, _, hremove, rfl⟩]
        exact ih.mpr hrest

theorem flushDestruction_eq_ok_iff {count : Nat} : flushDestruction w = .ok count w' ↔
    count = w.shared.pending.size ∧ Destroys (w.onShared fun c => { c with pending := #[] })
      w.shared.pending.toList w' := by
  rw [← forM_destroy_eq_ok_iff]
  show EStateM.bind (w.shared.pending.toList.forM destroy)
    (fun _ => pure w.shared.pending.size) (w.onShared fun c => { c with pending := #[] }) = _ ↔ _
  unfold EStateM.bind
  cases w.shared.pending.toList.forM destroy (w.onShared fun c => { c with pending := #[] }) with
  | error e w₁ => simp
  | ok _ w₁ =>
    constructor
    · intro h
      cases h
      exact ⟨rfl, rfl⟩
    · rintro ⟨rfl, h⟩
      cases h
      rfl

/-! #### Nodes that are destroyed one after the other -/

/-- The nodes that are destroyed were there. -/
theorem Destroys.exists_node (h : Destroys w keys w') (hkey : key ∈ keys) :
    ∃ node, w.scene.nodes.get? key = some node := by
  induction h with
  | nil => cases hkey
  | @cons w w' first keys node nodes hremove _ ih =>
    rcases List.mem_cons.mp hkey with rfl | hmem
    · exact ⟨node, (Arena.remove?_eq_some_iff.mp hremove).1⟩
    · obtain ⟨node', hnode'⟩ := ih hmem
      have hget : nodes.get? key = some node' := hnode'
      rw [Arena.get?_remove? hremove] at hget
      split_ifs at hget
      exact ⟨node', hget⟩

theorem Destroys.wellFormed (h : Destroys w keys w') (hw : w.scene.nodes.WellFormed) :
    w'.scene.nodes.WellFormed := by
  induction h with
  | nil => exact hw
  | cons hremove _ ih => exact ih (hw.remove? hremove)

/-- What is destroyed later is not touched by what is destroyed before. -/
theorem contentAt?_emptied {node : Node} {nodes : NodeStore} {first : Key}
    (hremove : w.scene.nodes.remove? first = some (node, nodes))
    (hrest : Destroys (w.emptied first node nodes) keys w') (hkey : key ∈ keys) :
    nodes.contentAt? key = w.scene.nodes.contentAt? key := by
  obtain ⟨node', hnode'⟩ := hrest.exists_node hkey
  have hget : nodes.get? key = some node' := hnode'
  have hsame := Arena.get?_remove? hremove key
  unfold NodeStore.contentAt?
  rw [hget] at hsame ⊢
  split_ifs at hsame
  rw [← hsame]

/-- The contents of the nodes go, and nothing else. -/
theorem Destroys.contents_perm (h : Destroys w keys w') : w.scene.nodes.contents.Perm
    (keys.flatMap (fun key => (w.scene.nodes.contentAt? key).toList) ++
      w'.scene.nodes.contents) := by
  induction h with
  | nil => exact .refl _
  | @cons w w' first keys node nodes hremove hrest ih =>
    have hfirst : w.scene.nodes.contentAt? first = node.content :=
      NodeStore.contentAt?_of_get? (Arena.remove?_eq_some_iff.mp hremove).1
    have hlater : keys.flatMap (fun key => (nodes.contentAt? key).toList) =
        keys.flatMap fun key => (w.scene.nodes.contentAt? key).toList :=
      List.flatMap_congr fun key hkey => by rw [contentAt?_emptied hremove hrest hkey]
    rw [List.flatMap_cons, hfirst, List.append_assoc, ← hlater]
    exact (NodeStore.contents_remove? hremove).trans (ih.append_left _)

theorem cache_refilled {node : Node} (hspent : ∀ l ∈ node.content, l.spent = false) (w : World)
    (key : Key) (content : Option DisplayList) : (w.refilled key node content).shared.cache =
      (node.content.toList.flatMap DisplayList.returns).foldl act w.shared.cache := by
  refine Eq.trans ?_ (Shared.cache_elim_tearDown hspent w.shared)
  cases content <;> rfl

theorem cache_emptied {node : Node} (hspent : ∀ l ∈ node.content, l.spent = false)
    (w : World) (key : Key) (nodes : NodeStore) : (w.emptied key node nodes).shared.cache =
      (node.content.toList.flatMap DisplayList.returns).foldl act w.shared.cache :=
  Shared.cache_elim_tearDown hspent _

/-- All that the cache is asked for is to take the references of the contents back. -/
theorem Destroys.cache_eq (h : Destroys w keys w')
    (hspent : ∀ l ∈ w.scene.nodes.contents, l.spent = false) :
    w'.shared.cache = (keys.flatMap w.returnsAt).foldl act w.shared.cache := by
  induction h with
  | nil => rfl
  | @cons w w' first keys node nodes hremove hrest ih =>
    have hnode := (Arena.remove?_eq_some_iff.mp hremove).1
    have hlater : keys.flatMap (w.emptied first node nodes).returnsAt =
        keys.flatMap w.returnsAt :=
      List.flatMap_congr fun key hkey => by
        unfold returnsAt
        rw [← contentAt?_emptied hremove hrest hkey]
        rfl
    have hspent' (l : DisplayList) (hl : l ∈ nodes.contents) : l.spent = false :=
      hspent l ((NodeStore.contents_remove? hremove).mem_iff.mpr (List.mem_append_right _ hl))
    rw [ih hspent', hlater, List.flatMap_cons, List.foldl_append, returnsAt_of_get? hnode,
      cache_emptied fun l hl => hspent l (NodeStore.mem_contents_of_get? hnode hl)]

end World

end RetainedScene
