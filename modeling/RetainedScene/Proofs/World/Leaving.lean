import Mathlib.Data.List.Infix
import RetainedScene.Proofs.Cache.Entries
import RetainedScene.Proofs.World.Lifetime

/-!
# When a resource leaves

Whatever a cache is asked for, in balance or not, what leaves it is told to the journal, with its
kind, at the act that lets it go (`Shared.Follows`).  A resource leaves at the first act after which
its destruction has been asked for and its count of references is zero, and it does not come back
(`find?_later`).  So each resource that was registered is either still there or was told of once
(`Shared.resources_leave_once`).

The count of references is that of `tally`, which reads off the acts after the registration what is
retained and released; there is nothing to release when it is zero.
-/

namespace RetainedScene

open Cache

/-! ### The count of a resource -/

namespace Cache

variable {c : Cache} {id : ResourceId} {a : Act} {acts : List Act}

/-- What an act makes of the count of references to a resource. -/
def Act.count (id : ResourceId) (n : Nat) : Act → Nat
  | retain other => if other = id then n + 1 else n
  | release other => if other = id then n - 1 else n
  | register .. | destroy _ => n

/-- The count of references to a resource, after acts that begin with none. -/
def tally (id : ResourceId) (acts : List Act) : Nat := acts.foldl (Act.count id) 0

/-- After these acts a resource is to be gone: its destruction has been asked for, and no reference
is left. -/
def Due (id : ResourceId) (acts : List Act) : Prop := .destroy id ∈ acts ∧ tally id acts = 0

instance : Decidable (Due id acts) := inferInstanceAs (Decidable (_ ∧ _))

/-- The entry of a resource after acts that it has outlasted. -/
def outlasting (id : ResourceId) (kind : ResourceKind) (bytes : Nat) (acts : List Act) :
    CacheEntry :=
  ⟨kind, bytes, tally id acts, decide (.destroy id ∈ acts)⟩

theorem tally_concat (id : ResourceId) (acts : List Act) (a : Act) :
    tally id (acts ++ [a]) = a.count id (tally id acts) := List.foldl_concat _ _ _ _

theorem Act.count_of_about?_ne (h : a.about? ≠ some id) (n : Nat) : a.count id n = n := by
  cases a with
  | retain other | release other => exact if_neg fun heq => h (congrArg some heq)
  | register | destroy => rfl

theorem mem_concat_of_about?_ne (h : a.about? ≠ some id) :
    .destroy id ∈ acts ++ [a] ↔ .destroy id ∈ acts := by
  rw [List.mem_append, List.mem_singleton, or_iff_left]
  rintro rfl
  exact h rfl

theorem settled_outlasting (id : ResourceId) (kind : ResourceKind) (bytes : Nat)
    (acts : List Act) : settled (outlasting id kind bytes acts) =
      if Due id acts then none else some (outlasting id kind bytes acts) := by
  refine if_congr ?_ rfl rfl
  rw [and_comm]
  exact and_congr_left' decide_eq_true_iff

/-- An act lets the resource that it is about go exactly when it is due. -/
theorem Act.change_outlasting (habout : a.about? = some id) (kind : ResourceKind) (bytes : Nat)
    (acts : List Act) : a.change (outlasting id kind bytes acts) =
      if Due id (acts ++ [a]) then none else some (outlasting id kind bytes (acts ++ [a])) := by
  rw [← settled_outlasting]
  unfold outlasting
  rw [tally_concat]
  cases a with
  | register => cases habout
  | retain other =>
    obtain rfl := Option.some.inj habout
    simp [change, settled, count]
  | release other =>
    obtain rfl := Option.some.inj habout
    simp [change, count]
  | destroy other =>
    obtain rfl := Option.some.inj habout
    simp [change, count]

/-- What has become of a resource that was just registered is read off the acts since then: it went
when it was first due, and else its entry counts the references. -/
theorem find?_later {kind : ResourceKind} {bytes : Nat} (hnew : c.find? id = some { kind, bytes })
    (later : List Act) : (later.foldl act c).find? id =
      if ∃ part ∈ later.inits, Due id part then none
      else some (outlasting id kind bytes later) := by
  induction later using List.reverseRecOn with
  | nil =>
    rw [if_neg]
    · exact hnew
    · rintro ⟨part, hpart, hdue⟩
      rw [List.mem_singleton.mp hpart] at hdue
      cases hdue.1
  | append_singleton later a ih =>
    have hinits : (later ++ [a]).inits = later.inits ++ [later ++ [a]] := by
      simp [List.inits_append]
    have hstep := find?_act (a := a) (.inl (knows_foldl (knows_of_find? hnew) later))
    rw [List.foldl_concat, hstep, ih]
    have hdue : (∃ part ∈ (later ++ [a]).inits, Due id part) ↔
        (∃ part ∈ later.inits, Due id part) ∨ Due id (later ++ [a]) := by
      rw [hinits]
      simp only [List.mem_append, List.mem_singleton, or_and_right, exists_or, exists_eq_left]
    by_cases hgone : ∃ part ∈ later.inits, Due id part
    · rw [if_pos hgone, if_pos (hdue.mpr (.inl hgone)), Option.bind_none, ite_self]
    · have hspared : ¬ Due id later := fun h =>
        hgone ⟨later, (List.mem_inits _ _).mpr List.prefix_rfl, h⟩
      rw [if_neg hgone, Option.bind_some]
      by_cases habout : a.about? = some id
      · rw [if_pos habout, Act.change_outlasting habout kind bytes later]
        exact if_congr (by rw [hdue, or_iff_right hgone]) rfl rfl
      · -- another act leaves the entry and its count as they are
        have hsame : outlasting id kind bytes (later ++ [a]) = outlasting id kind bytes later := by
          simp only [outlasting, tally_concat, Act.count_of_about?_ne habout,
            mem_concat_of_about?_ne habout]
        have hspared' : ¬ Due id (later ++ [a]) := by
          unfold Due
          rwa [tally_concat, Act.count_of_about?_ne habout, mem_concat_of_about?_ne habout]
        rw [if_neg habout, if_neg (mt hdue.mp (not_or.mpr ⟨hgone, hspared'⟩)), hsame]

/-! ### The ids that are given out -/

/-- The ids that acts give out, in order. -/
def given (c : Cache) : List Act → List ResourceId
  | [] => []
  | .register kind bytes :: acts =>
    (c.register kind bytes).1 :: (c.act (.register kind bytes)).given acts
  | a :: acts => (c.act a).given acts

theorem knows_act_iff_of_about? (h : a.about?.isSome) : (c.act a).knows id ↔ c.knows id := by
  obtain ⟨other, hother⟩ := Option.isSome_iff_exists.mp h
  rw [act_eq_edit hother, knows_edit]

theorem knows_register_iff (kind : ResourceKind) (bytes : Nat) :
    (c.act (.register kind bytes)).knows id ↔
      c.knows id ∨ id = (c.register kind bytes).1 := by
  rcases id with ⟨n⟩
  unfold knows act register
  rw [decide_eq_true_eq, decide_eq_true_eq, Array.size_push, Nat.lt_succ_iff_lt_or_eq,
    ResourceId.mk.injEq]

/-- A new id is none of those that were given out before. -/
theorem not_knows_register (c : Cache) (kind : ResourceKind) (bytes : Nat) :
    ¬ c.knows (c.register kind bytes).1 := by
  unfold knows register
  rw [decide_eq_true_eq]
  exact Nat.lt_irrefl _

theorem knows_foldl_iff (c : Cache) (acts : List Act) :
    (acts.foldl act c).knows id ↔ c.knows id ∨ id ∈ c.given acts := by
  induction acts generalizing c with
  | nil => exact (or_iff_left List.not_mem_nil).symm
  | cons a acts ih =>
    rw [List.foldl_cons, ih]
    cases a with
    | register kind bytes => rw [knows_register_iff, given, List.mem_cons, or_assoc]
    | retain | release | destroy => rw [knows_act_iff_of_about? rfl]; rfl

theorem not_knows_of_mem_given (h : id ∈ c.given acts) : ¬ c.knows id := by
  induction acts generalizing c with
  | nil => cases h
  | cons a acts ih =>
    cases a with
    | register kind bytes =>
      rcases List.mem_cons.mp h with rfl | hlater
      · exact not_knows_register c kind bytes
      · exact fun hknows => ih hlater (knows_act hknows _)
    | retain | release | destroy => exact fun hknows => ih h (knows_act hknows _)

/-- No id is given out twice. -/
theorem nodup_given (c : Cache) (acts : List Act) : (c.given acts).Nodup := by
  induction acts generalizing c with
  | nil => exact List.nodup_nil
  | cons a acts ih =>
    cases a with
    | register kind bytes =>
      refine List.nodup_cons.mpr ⟨fun hmem => not_knows_of_mem_given hmem ?_, ih _⟩
      exact (knows_register_iff kind bytes).mpr (.inr rfl)
    | retain | release | destroy => exact ih _

/-- What leaves was given out. -/
theorem knows_of_mem_leavings {leaver : ResourceId × ResourceKind} (h : leaver ∈ c.leavings acts) :
    (acts.foldl act c).knows leaver.1 := by
  induction acts generalizing c with
  | nil => cases h
  | cons a acts ih =>
    rcases List.mem_append.mp h with hfirst | hlater
    · obtain ⟨-, entry, hfind, -⟩ := leaving?_eq_some_iff.mp (Option.mem_toList.mp hfirst)
      exact knows_foldl (knows_act (knows_of_find? hfind) a) acts
    · exact ih hlater

end Cache

/-! ### What the journal is told -/

/-- The resource that an event tells has left. -/
def Event.leaver? : Event → Option (ResourceId × ResourceKind)
  | resourceLeft id kind _ => some (id, kind)
  | _ => none

namespace Shared

variable {c c' c'' : Shared} {acts acts' : List Act} {id : ResourceId} {a : Act}

/-- Does what the cache is asked for. -/
def obey (c : Shared) : Act → Shared
  | .register kind bytes => (c.register kind bytes).2
  | .retain id => c.retain id
  | .release id => c.release id
  | .destroy id => c.destroyResource id

/-- The cache did these acts, and the journal was told what left it. -/
structure Follows (c : Shared) (acts : List Act) (c' : Shared) : Prop where
  cache : c'.cache = acts.foldl act c.cache
  told : c'.journal.resourcesLeft = c.journal.resourcesLeft ++ c.cache.leavings acts

theorem resourcesLeft_log (c : Shared) (e : Event) :
    (c.log e).journal.resourcesLeft = c.journal.resourcesLeft ++ e.leaver?.toList := by
  show (c.journal.events.push e).toList.filterMap _ = _
  rw [Array.toList_push, List.filterMap_append]
  cases e <;> rfl

namespace Follows

/-- Nothing is asked of the cache, and nothing is entered. -/
theorem of_eq (hcache : c'.cache = c.cache) (hjournal : c'.journal = c.journal) :
    c.Follows [] c' := by
  refine ⟨hcache, ?_⟩
  rw [hjournal]
  exact (List.append_nil _).symm

theorem refl (c : Shared) : c.Follows [] c := of_eq rfl rfl

theorem trans (h : c.Follows acts c') (h' : c'.Follows acts' c'') :
    c.Follows (acts ++ acts') c'' := by
  refine ⟨?_, ?_⟩
  · rw [h'.cache, h.cache, List.foldl_append]
  · rw [h'.told, h.told, h.cache, leavings_append, List.append_assoc]

/-- Other events may be entered. -/
theorem log (h : c.Follows acts c') {e : Event} (he : e.leaver? = none) :
    c.Follows acts (c'.log e) := by
  refine ⟨h.cache, ?_⟩
  rw [resourcesLeft_log, he, h.told]
  exact List.append_nil _

theorem foldl {α : Type} {f : Shared → α → Shared} {g : α → List Act} {l : List α}
    (h : ∀ c a, Follows c (g a) (f c a)) (c : Shared) : c.Follows (l.flatMap g) (l.foldl f c) := by
  induction l generalizing c with
  | nil => exact refl c
  | cons a l ih =>
    rw [List.flatMap_cons]
    exact (h c a).trans (ih _)

end Follows

/-- Settling an entry lets it go, and tells of it, if nothing is left of it. -/
theorem resourcesLeft_settle (c : Shared) (id : ResourceId) (entry : CacheEntry) :
    ({ c with cache := (c.cache.settle id entry).2 }.logOutcome id
      (c.cache.settle id entry).1).journal.resourcesLeft = c.journal.resourcesLeft ++
        (if (settled entry).isNone then some (id, entry.kind) else none).toList := by
  unfold settle settled
  split_ifs
  · exact resourcesLeft_log _ _
  · contradiction
  · contradiction
  · exact (List.append_nil _).symm

theorem follows_register (c : Shared) (kind : ResourceKind) (bytes : Nat) :
    c.Follows [.register kind bytes] (c.register kind bytes).2 :=
  ⟨rfl, (List.append_nil _).symm⟩

theorem follows_retain (c : Shared) (id : ResourceId) : c.Follows [.retain id] (c.retain id) := by
  refine ⟨cache_retain c id, ?_⟩
  have hnone : c.cache.leaving? (.retain id) = none := by
    unfold leaving?
    cases c.cache.find? id <;> simp [Act.about?, Act.change]
  rw [leavings, hnone]
  unfold retain
  split
  · exact resourcesLeft_log _ _
  · exact (List.append_nil _).symm

theorem follows_release (c : Shared) (id : ResourceId) :
    c.Follows [.release id] (c.release id) := by
  refine ⟨cache_release c id, ?_⟩
  rw [leavings, leavings, List.append_nil]
  show _ = _ ++ ((c.cache.find? id).bind _).toList
  unfold release Cache.release
  cases hfind : c.cache.find? id with
  | none => exact resourcesLeft_log _ _
  | some entry =>
    rw [Option.bind_some]
    refine Eq.trans ?_ (resourcesLeft_settle c id _)
    dsimp only
    unfold settle
    split_ifs <;> rfl

theorem follows_destroyResource (c : Shared) (id : ResourceId) :
    c.Follows [.destroy id] (c.destroyResource id) := by
  refine ⟨cache_destroyResource c id, ?_⟩
  rw [leavings, leavings, List.append_nil]
  show _ = _ ++ ((c.cache.find? id).bind _).toList
  unfold destroyResource Cache.destroy
  cases hfind : c.cache.find? id with
  | none => exact (List.append_nil _).symm
  | some entry =>
    rw [Option.bind_some]
    exact resourcesLeft_settle c id _

theorem follows_obey (c : Shared) (a : Act) : c.Follows [a] (c.obey a) := by
  cases a with
  | register kind bytes => exact follows_register c kind bytes
  | retain id => exact follows_retain c id
  | release id => exact follows_release c id
  | destroy id => exact follows_destroyResource c id

theorem follows_obeying (c : Shared) (acts : List Act) : c.Follows acts (acts.foldl obey c) := by
  have h := Follows.foldl (l := acts) follows_obey c
  rwa [List.flatMap_singleton'] at h

theorem follows_returnReferences {l : DisplayList} (h : l.spent = false) (c : Shared) :
    c.Follows l.returns (c.returnReferences l) := by
  have hborrowed (c : Shared) : c.Follows (l.references.borrowed.map .release)
      (l.references.borrowed.foldl release c) := by
    rw [List.map_eq_flatMap]
    exact .foldl follows_release c
  have howned (c : Shared) :
      c.Follows (l.references.owned.flatMap fun id => [.release id, .destroy id])
      (l.references.owned.foldl (fun c id => (c.release id).destroyResource id) c) :=
    .foldl (fun c id => (follows_release c id).trans (follows_destroyResource _ id)) c
  unfold returnReferences
  rw [if_neg (by simp [h])]
  exact ((hborrowed c).trans (howned _)).log rfl

theorem follows_tearDown {l : DisplayList} (h : l.spent = false) (c : Shared) :
    c.Follows l.returns (c.tearDown l) := by
  unfold tearDown
  rw [if_neg (by simp [h])]
  have h := follows_returnReferences h (c.removeFunctors l.functors)
  exact ⟨h.cache, h.told⟩

/-- Warns of a reference that is taken or given back where there is no resource. -/
def warn (c : Shared) : Act → Shared
  | .retain id => c.log (.unknownRetained id)
  | .release id => c.log (.unknownReleased id)
  | .register .. | .destroy _ => c

/-- An act about an id that is not in the cache changes nothing. -/
theorem obey_of_not_contains (habout : a.about? = some id) (h : ¬ c.cache.contains id) :
    c.obey a = c.warn a := by
  have hnone : c.cache.find? id = none := Option.not_isSome_iff_eq_none.mp h
  cases a with
  | register => cases habout
  | retain other =>
    obtain rfl := Option.some.inj habout
    simp only [obey, warn, retain, Cache.retain, hnone]
  | release other =>
    obtain rfl := Option.some.inj habout
    simp only [obey, warn, release, Cache.release, hnone]
  | destroy other =>
    obtain rfl := Option.some.inj habout
    simp only [obey, destroyResource, Cache.destroy, hnone]
    rfl

/-! ### All that a cache is asked for -/

/-- The cache that began with nothing, and what the journal was told of it. -/
theorem obeying_of_empty (hcache : c.cache = {}) (hleft : c.journal.resourcesLeft = [])
    (acts : List Act) : (acts.foldl obey c).cache = acts.foldl act {} ∧
      (acts.foldl obey c).journal.resourcesLeft = leavings {} acts := by
  have hall := follows_obeying c acts
  refine ⟨hcache ▸ hall.cache, ?_⟩
  rw [hall.told, hleft, hcache, List.nil_append]

/-- What has become of a resource that was registered, and what the journal was told of it. -/
theorem fate_of_registered {before later : List Act} {kind : ResourceKind} {bytes : Nat}
    (hcache : c.cache = {}) (hleft : c.journal.resourcesLeft = [])
    (hacts : acts = before ++ .register kind bytes :: later)
    (hid : id = ((before.foldl obey c).register kind bytes).1) :
    (acts.foldl obey c).cache.find? id =
        (if ∃ part ∈ later.inits, Due id part then none
          else some (outlasting id kind bytes later)) ∧
      (acts.foldl obey c).journal.resourcesLeft.filter (·.1 = id) =
        if (acts.foldl obey c).cache.contains id then [] else [(id, kind)] := by
  obtain ⟨hbefore, -⟩ := obeying_of_empty hcache hleft before
  obtain ⟨hall, htold⟩ := obeying_of_empty hcache hleft acts
  have hnew : ((before.foldl act {}).act (.register kind bytes)).find? id =
      some { kind, bytes } := by
    rw [hid, ← hbefore]
    exact (find?_register _ _ _ _).trans (if_pos rfl)
  have hsplit : acts.foldl act {} =
      later.foldl act ((before.foldl act {}).act (.register kind bytes)) := by
    rw [hacts, List.foldl_append, List.foldl_cons]
  refine ⟨?_, ?_⟩
  · rw [hall, hsplit, find?_later hnew]
  · -- it was not there before it was registered, so nothing was told of it
    have hearlier : (leavings {} before).filter (·.1 = id) = [] := by
      refine List.filter_eq_nil_iff.mpr fun leaver hleaver hleaves => ?_
      have hknown := knows_of_mem_leavings hleaver
      rw [of_decide_eq_true hleaves, hid, ← hbefore] at hknown
      exact not_knows_register _ kind bytes hknown
    rw [htold, hall, hsplit, hacts, leavings_append, List.filter_append, hearlier, List.nil_append,
      leavings]
    refine (filter_leavings (.inl (knows_of_find? hnew))).trans ?_
    rw [hnew]
    rfl

/-- A cache that began with nothing never keeps what is dead and never lets a resource go twice,
whatever it is asked for.

* No entry is doomed and not referred to.
* A resource that was registered is gone once it was due after some of the acts since then, and else
  its entry has its kind and its size, counts its references, and is doomed if its destruction has
  been asked for; the journal was told of it once, with its kind, if it is gone, and else never.
* Nothing else is in the cache or was told of.  No id is given out twice, and one whose resource has
  left does not come back.
* An act lets at most one resource go, and tells of just that one.  An act about an id that is not
  there changes nothing, but may be warned of. -/
theorem resources_leave_once (hcache : c.cache = {}) (hleft : c.journal.resourcesLeft = [])
    (acts : List Act) :
    let s := acts.foldl obey c
    (∀ id entry, s.cache.find? id = some entry → entry.doomed → 0 < entry.references) ∧
    (∀ before kind bytes later id, acts = before ++ .register kind bytes :: later →
      id = ((before.foldl obey c).register kind bytes).1 →
      s.cache.find? id = (if ∃ part ∈ later.inits, Due id part then none
        else some (outlasting id kind bytes later)) ∧
      s.journal.resourcesLeft.filter (·.1 = id) =
        if s.cache.contains id then [] else [(id, kind)]) ∧
    (∀ id, s.cache.contains id ∨ (∃ kind, (id, kind) ∈ s.journal.resourcesLeft) →
      id ∈ given {} acts) ∧
    (given {} acts).Nodup ∧
    (∀ id ∈ given {} acts, ¬ s.cache.contains id →
      ∀ more : List Act, ¬ (more.foldl obey s).cache.contains id) ∧
    (∀ a, ∃ leaver? : Option (ResourceId × ResourceKind),
      (s.obey a).journal.resourcesLeft = s.journal.resourcesLeft ++ leaver?.toList ∧
      ∀ id kind, leaver? = some (id, kind) ↔
        (∃ entry, s.cache.find? id = some entry ∧ entry.kind = kind) ∧
          ¬ (s.obey a).cache.contains id) ∧
    ∀ a id, a.about? = some id → ¬ s.cache.contains id → s.obey a = s.warn a := by
  obtain ⟨hall, htold⟩ := obeying_of_empty hcache hleft acts
  have hgiven (id : ResourceId) : (acts.foldl obey c).cache.knows id ↔ id ∈ given {} acts := by
    rw [hall, knows_foldl_iff]
    exact or_iff_right (by simp [knows])
  refine ⟨?_, fun before kind bytes later id hacts hid => fate_of_registered hcache hleft hacts hid,
    fun id hid => ?_, nodup_given {} acts, fun id hid hgone more => ?_, fun a => ?_,
    fun a id habout hgone => obey_of_not_contains habout hgone⟩
  · rw [hall]
    exact NoneDead.empty.foldl acts
  · rw [← hgiven]
    rcases hid with hcontains | ⟨kind, hmem⟩
    · exact not_imp_not.mp not_contains_of_not_knows hcontains
    · rw [htold] at hmem
      rw [hall]
      exact knows_of_mem_leavings hmem
  · rw [(follows_obeying _ more).cache]
    exact not_contains_foldl (.inl ((hgiven id).mpr hid)) hgone
  · have hstep := follows_obey (acts.foldl obey c) a
    refine ⟨(acts.foldl obey c).cache.leaving? a, ?_, fun id kind => ?_⟩
    · rw [hstep.told, leavings, leavings, List.append_nil]
    · rw [leaving?_eq_some_iff_contains, hstep.cache]
      rfl

/-- A bitmap is destroyed while it is referred to, given back once too often, and asked for again; a
shader is given back without a reference to it, and destroyed twice. -/
def careless : List Act := [
  .register .bitmap 64, .register .shader 16, .retain ⟨0⟩, .destroy ⟨0⟩, .release ⟨1⟩, .retain ⟨0⟩,
  .release ⟨0⟩, .release ⟨0⟩, .release ⟨0⟩, .retain ⟨0⟩, .destroy ⟨1⟩, .destroy ⟨1⟩, .release ⟨7⟩]

/-- Both are gone in the end, and were told of once. -/
theorem careless_leave_once :
    let s := careless.foldl obey {}
    s.cache.find? ⟨0⟩ = none ∧ s.journal.resourcesLeft.filter (·.1 = ⟨0⟩) = [(⟨0⟩, .bitmap)] ∧
      s.cache.find? ⟨1⟩ = none ∧ s.journal.resourcesLeft.filter (·.1 = ⟨1⟩) = [(⟨1⟩, .shader)] := by
  have hcache : ({} : Shared).cache = {} := rfl
  have hleft : ({} : Shared).journal.resourcesLeft = [] := rfl
  have hfate := (resources_leave_once hcache hleft careless).2.1
  obtain ⟨hbitmap, hbitmapTold⟩ := hfate [] .bitmap 64 _ ⟨0⟩ rfl rfl
  obtain ⟨hshader, hshaderTold⟩ := hfate [.register .bitmap 64] .shader 16 _ ⟨1⟩ rfl rfl
  rw [if_pos (by decide)] at hbitmap hshader
  rw [contains, hbitmap] at hbitmapTold
  rw [contains, hshader] at hshaderTold
  exact ⟨hbitmap, hbitmapTold, hshader, hshaderTold⟩

end Shared

end RetainedScene
