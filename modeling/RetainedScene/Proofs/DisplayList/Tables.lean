import RetainedScene.Proofs.Session.Functors

/-!
# The tables of recorded content

Content is well formed when its operations and its tables agree: what an operation names by an index
is there, the child operations name the links from the first to the last, the functor operations are
counted, and the references are those of the operations and paints, in their order.

A recorder fills the tables first and adds the operation last.  In between the references are ahead
of the operations by those that are `due` to the one to come (`DisplayList.Tabled`), and each step
of a command is one lemma.  Every command keeps content well formed, so whatever a recorder was
given, its list is well formed at any time (`Recorder.IsBegun.wellFormed`).
-/

namespace RetainedScene

/-! ### What operations refer to -/

namespace DrawOp

def bitmap? : DrawOp → Option ResourceId
  | bitmap id _ _ => some id
  | _ => none

def patch? : DrawOp → Option ResourceId
  | patch id _ _ => some id
  | _ => none

def layer? : DrawOp → Option ResourceId
  | layer id _ _ => some id
  | _ => none

end DrawOp

namespace DisplayList

/-- Whatever the operation names by an index is in its table. -/
def Resolves (l : DisplayList) : DrawOp → Prop
  | .concat i => i < l.matrices.size
  | .clipPath i _ => i < l.paths.size
  | .clipRegion i _ => i < l.regions.size
  | .rect _ i | .roundRect _ _ _ i | .circle _ _ i | .text _ _ i => i < l.paints.size
  | .path i j => i < l.paths.size ∧ j < l.paints.size
  | .bitmap _ _ i | .patch _ _ i => ∀ j ∈ i, j < l.paints.size
  | .child i => i < l.children.size
  | _ => True

/-- The operations and the tables agree. -/
structure WellFormed (l : DisplayList) : Prop extends l.WellLinked where
  resolves : ∀ op ∈ l.ops.toList, l.Resolves op
  functors : l.functors = l.functorOps
  patches : l.references.patches.toList = l.ops.toList.filterMap DrawOp.patch?
  layers : l.references.layers.toList = l.ops.toList.filterMap DrawOp.layer?
  bitmaps : (l.references.bitmaps.toList ++ l.references.ownedBitmaps.toList).Perm
    (l.ops.toList.filterMap DrawOp.bitmap?)
  shaders : l.references.shaders.toList = l.paints.toList.filterMap Paint.shader

/-! ### Filling tables -/

/-- No table is shorter. -/
structure Widens (l l' : DisplayList) : Prop where
  children : l.children.size ≤ l'.children.size
  paints : l.paints.size ≤ l'.paints.size
  paths : l.paths.size ≤ l'.paths.size
  regions : l.regions.size ≤ l'.regions.size
  matrices : l.matrices.size ≤ l'.matrices.size

variable {l l' : DisplayList}

theorem Widens.refl (l : DisplayList) : l.Widens l :=
  ⟨Nat.le_refl _, Nat.le_refl _, Nat.le_refl _, Nat.le_refl _, Nat.le_refl _⟩

theorem Resolves.mono {op : DrawOp} (h : l.Resolves op) (hwidens : l.Widens l') :
    l'.Resolves op := by
  obtain ⟨hchildren, hpaints, hpaths, hregions, hmatrices⟩ := hwidens
  cases op with
  | path i j => exact ⟨Nat.lt_of_lt_of_le h.1 hpaths, Nat.lt_of_lt_of_le h.2 hpaints⟩
  | bitmap id target i => exact fun j hj => Nat.lt_of_lt_of_le (h j hj) hpaints
  | patch id target i => exact fun j hj => Nat.lt_of_lt_of_le (h j hj) hpaints
  | concat i => exact Nat.lt_of_lt_of_le h hmatrices
  | clipPath i mode => exact Nat.lt_of_lt_of_le h hpaths
  | clipRegion i mode => exact Nat.lt_of_lt_of_le h hregions
  | child i => exact Nat.lt_of_lt_of_le h hchildren
  | rect rect i => exact Nat.lt_of_lt_of_le h hpaints
  | roundRect rect rx ry i => exact Nat.lt_of_lt_of_le h hpaints
  | circle center radius i => exact Nat.lt_of_lt_of_le h hpaints
  | text text origin i => exact Nat.lt_of_lt_of_le h hpaints
  | _ => trivial

/-- The references are those of the operations and paints, and of what is due for an operation to
come. -/
structure Tabled (l : DisplayList) (patches layers bitmaps : List ResourceId) : Prop where
  resolves : ∀ op ∈ l.ops.toList, l.Resolves op
  patches : l.references.patches.toList = l.ops.toList.filterMap DrawOp.patch? ++ patches
  layers : l.references.layers.toList = l.ops.toList.filterMap DrawOp.layer? ++ layers
  bitmaps : (l.references.bitmaps.toList ++ l.references.ownedBitmaps.toList).Perm
    (l.ops.toList.filterMap DrawOp.bitmap? ++ bitmaps)
  shaders : l.references.shaders.toList = l.paints.toList.filterMap Paint.shader

namespace Tabled

variable {patches layers bitmaps : List ResourceId}

/-- Tables may grow, other than that of paints. -/
theorem widen (h : l.Tabled patches layers bitmaps) (hwidens : l.Widens l') (hops : l'.ops = l.ops)
    (hpaints : l'.paints = l.paints) (hreferences : l'.references = l.references) :
    l'.Tabled patches layers bitmaps := by
  obtain ⟨hresolves, hpatches, hlayers, hbitmaps, hshaders⟩ := h
  rw [← hops] at hresolves hpatches hlayers hbitmaps
  rw [← hreferences] at hpatches hlayers hbitmaps hshaders
  rw [← hpaints] at hshaders
  exact ⟨fun op hop => (hresolves op hop).mono hwidens, hpatches, hlayers, hbitmaps, hshaders⟩

/-- A paint is added together with its shader. -/
theorem addPaint {r : Recorder} (h : r.list.Tabled patches layers bitmaps) (paint : Paint) :
    (r.addPaint paint).list.Tabled patches layers bitmaps := by
  have hwidens : r.list.Widens (r.addPaint paint).list :=
    { Widens.refl r.list with paints := by simp [Recorder.addPaint] }
  have hshaders : (r.addPaint paint).list.references.shaders.toList =
      (r.list.paints.push paint).toList.filterMap Paint.shader := by
    rw [Array.toList_push, List.filterMap_append, ← h.shaders]
    unfold Recorder.addPaint
    cases hshader : paint.shader <;> simp [hshader]
  have hother : (r.addPaint paint).list.references =
      { r.list.references with shaders := (r.addPaint paint).list.references.shaders } := by
    unfold Recorder.addPaint
    cases paint.shader <;> rfl
  refine ⟨fun op hop => (h.resolves op hop).mono hwidens, ?_, ?_, ?_, hshaders⟩
  · rw [hother]
    exact h.patches
  · rw [hother]
    exact h.layers
  · rw [hother]
    exact h.bitmaps

/-- The operation that was due is added. -/
theorem addOp {r : Recorder} {op : DrawOp}
    (h : r.list.Tabled op.patch?.toList op.layer?.toList op.bitmap?.toList)
    (hop : r.list.Resolves op) : (r.addOp op).list.Tabled [] [] [] := by
  have hpush (f : DrawOp → Option ResourceId) :
      (r.addOp op).list.ops.toList.filterMap f ++ [] =
        r.list.ops.toList.filterMap f ++ (f op).toList := by
    rw [Recorder.addOp, Array.toList_push, List.filterMap_append, List.append_nil]
    cases hf : f op <;> simp [hf]
  refine ⟨fun op' hop' => ?_, ?_, ?_, ?_, h.shaders⟩
  · rw [Recorder.addOp, Array.toList_push] at hop'
    have hwidens : r.list.Widens (r.addOp op).list := { Widens.refl r.list with }
    rcases List.mem_append.mp hop' with hmem | hmem
    · exact (h.resolves op' hmem).mono hwidens
    · exact List.mem_singleton.mp hmem ▸ hop.mono hwidens
  · exact h.patches.trans (hpush _).symm
  · exact h.layers.trans (hpush _).symm
  · exact h.bitmaps.trans (.of_eq (hpush _).symm)

/-- A paint is added, and then the operation that names it. -/
theorem addPainted {r : Recorder} {op : Nat → DrawOp} (paint : Paint)
    (h : r.list.Tabled (op r.list.paints.size).patch?.toList (op r.list.paints.size).layer?.toList
      (op r.list.paints.size).bitmap?.toList)
    (hop : r.list.paints.size < (r.addPaint paint).list.paints.size →
      (r.addPaint paint).list.Resolves (op r.list.paints.size)) :
    (r.addPainted paint op).list.Tabled [] [] [] :=
  (h.addPaint paint).addOp (hop (by simp [Recorder.addPaint]))

theorem addPainted? {r : Recorder} {op : Option Nat → DrawOp} (paint : Option Paint)
    (h : ∀ i, r.list.Tabled (op i).patch?.toList (op i).layer?.toList (op i).bitmap?.toList)
    (hop : ∀ (l : DisplayList) i, (∀ j ∈ i, j < l.paints.size) → l.Resolves (op i)) :
    (r.addPainted? paint op).list.Tabled [] [] [] := by
  cases paint with
  | none => exact (h none).addOp (hop _ _ fun _ hj => nomatch hj)
  | some paint =>
    refine addPainted paint (h _) fun hpaint => hop _ _ fun j hj => ?_
    exact Option.mem_some_iff.mp hj ▸ hpaint

theorem bitmaps_append (h : l.Tabled [] [] []) (id : ResourceId) :
    ((l.references.bitmaps.toList ++ l.references.ownedBitmaps.toList) ++ [id]).Perm
      (l.ops.toList.filterMap DrawOp.bitmap? ++ [id]) := by
  have hbitmaps := h.bitmaps
  rw [List.append_nil] at hbitmaps
  exact hbitmaps.append_right [id]

/-- A bitmap becomes due. -/
theorem dueBitmap (h : l.Tabled [] [] []) (id : ResourceId) :
    Tabled { l with references := { l.references with
      bitmaps := l.references.bitmaps.push id } } [] [] [id] where
  resolves := h.resolves
  patches := h.patches
  layers := h.layers
  bitmaps := by
    -- it comes before the bitmaps that go with the content
    refine List.Perm.trans ?_ (h.bitmaps_append id)
    rw [Array.toList_push, List.append_assoc, List.append_assoc]
    exact List.perm_append_comm.append_left _
  shaders := h.shaders

theorem dueOwnedBitmap (h : l.Tabled [] [] []) (id : ResourceId) :
    Tabled { l with references := { l.references with
      ownedBitmaps := l.references.ownedBitmaps.push id } } [] [] [id] where
  resolves := h.resolves
  patches := h.patches
  layers := h.layers
  bitmaps := by
    refine List.Perm.trans ?_ (h.bitmaps_append id)
    rw [Array.toList_push, List.append_assoc]
  shaders := h.shaders

/-- A patch becomes due. -/
theorem duePatch (h : l.Tabled [] [] []) (id : ResourceId) :
    Tabled { l with references := { l.references with
      patches := l.references.patches.push id } } [id] [] [] where
  resolves := h.resolves
  patches := by
    rw [Array.toList_push, h.patches, List.append_nil]
  layers := h.layers
  bitmaps := h.bitmaps
  shaders := h.shaders

/-- A layer becomes due. -/
theorem dueLayer (h : l.Tabled [] [] []) (id : ResourceId) :
    Tabled { l with references := { l.references with
      layers := l.references.layers.push id } } [] [id] [] where
  resolves := h.resolves
  patches := h.patches
  layers := by
    rw [Array.toList_push, h.layers, List.append_nil]
  bitmaps := h.bitmaps
  shaders := h.shaders

/-- The paths that a path is copied from are not followed. -/
theorem addSource (h : l.Tabled patches layers bitmaps) (id : ResourceId) :
    Tabled { l with references := { l.references with
      sourcePaths := l.references.sourcePaths.push id } } patches layers bitmaps :=
  ⟨h.resolves, h.patches, h.layers, h.bitmaps, h.shaders⟩

/-- Every command that is recorded keeps the tables in step with the operations. -/
theorem perform {r r' : Recorder} {command : Command} (h : r.list.Tabled [] [] [])
    (hr : r.perform command = .ok r') : r'.list.Tabled [] [] [] := by
  cases command with
  | restore =>
    simp only [Recorder.perform] at hr
    split at hr <;> cases hr
    exact addOp h trivial
  | restoreTo count =>
    simp only [Recorder.perform] at hr
    split at hr <;> cases hr
    exact addOp h trivial
  | concat matrix =>
    obtain rfl := Except.ok.inj hr
    exact addOp (h.widen { Widens.refl r.list with matrices := by simp } rfl rfl rfl)
      (by simp [Resolves])
  | clipPath path mode =>
    obtain rfl := Except.ok.inj hr
    exact addOp (h.widen { Widens.refl r.list with paths := by simp } rfl rfl rfl)
      (by simp [Resolves])
  | clipRegion region mode =>
    obtain rfl := Except.ok.inj hr
    exact addOp (h.widen { Widens.refl r.list with regions := by simp } rfl rfl rfl)
      (by simp [Resolves])
  | rect rect paint =>
    obtain rfl := Except.ok.inj hr
    exact addPainted paint h id
  | roundRect rect rx ry paint =>
    obtain rfl := Except.ok.inj hr
    exact addPainted paint h id
  | circle center radius paint =>
    obtain rfl := Except.ok.inj hr
    exact addPainted paint h id
  | text text origin paint =>
    obtain rfl := Except.ok.inj hr
    exact addPainted paint h id
  | path path source paint =>
    obtain rfl := Except.ok.inj hr
    have hcopied : Tabled { r.list with paths := r.list.paths.push path } [] [] [] :=
      h.widen { Widens.refl r.list with paths := by simp } rfl rfl rfl
    -- the path is in its table before its source and its paint are added
    have hpath (r' : Recorder) (hpaths : r'.list.paths = r.list.paths.push path) :
        r.list.paths.size < (r'.addPaint paint).list.paths.size := by
      simp [Recorder.addPaint, hpaths]
    cases source with
    | none => exact addPainted paint hcopied fun hpaint => ⟨hpath _ rfl, hpaint⟩
    | some id =>
      exact addPainted paint (hcopied.addSource id) fun hpaint => ⟨hpath _ rfl, hpaint⟩
  | bitmap id target paint =>
    obtain rfl := Except.ok.inj hr
    exact addPainted? paint (fun _ => h.dueBitmap id) fun _ _ hpaint => hpaint
  | ownedBitmap id target paint =>
    obtain rfl := Except.ok.inj hr
    exact addPainted? paint (fun _ => h.dueOwnedBitmap id) fun _ _ hpaint => hpaint
  | patch id target paint =>
    obtain rfl := Except.ok.inj hr
    exact addPainted? paint (fun _ => h.duePatch id) fun _ _ hpaint => hpaint
  | layer id x y =>
    obtain rfl := Except.ok.inj hr
    exact addOp (h.dueLayer id) trivial
  | functor handle =>
    obtain rfl := Except.ok.inj hr
    exact addOp (h.widen { Widens.refl r.list with } rfl rfl rfl) trivial
  | child key =>
    obtain rfl := Except.ok.inj hr
    exact addOp (h.widen { Widens.refl r.list with children := by simp } rfl rfl rfl)
      (by simp [Resolves])
  | receive =>
    simp only [Recorder.perform] at hr
    split at hr <;> cases hr
    exact h.widen { Widens.refl r.list with } rfl rfl rfl
  | _ =>
    obtain rfl := Except.ok.inj hr
    exact addOp h trivial

end Tabled

/-! ### Well-formed content -/

theorem WellFormed.of_tabled (h : l.Tabled [] [] []) (hlinked : l.WellLinked)
    (hfunctors : l.functors = l.functorOps) : l.WellFormed where
  toWellLinked := hlinked
  resolves := h.resolves
  functors := hfunctors
  patches := h.patches.trans (List.append_nil _)
  layers := h.layers.trans (List.append_nil _)
  bitmaps := h.bitmaps.trans (.of_eq (List.append_nil _))
  shaders := h.shaders

theorem tabled_empty : Tabled {} [] [] [] where
  resolves _ h := nomatch h
  patches := rfl
  layers := rfl
  bitmaps := .refl _
  shaders := rfl

theorem wellLinked_empty : WellLinked {} := ⟨rfl, fun _ h => nomatch h⟩

end DisplayList

/-- Whatever a recorder was given, the list that it is at is well formed. -/
theorem Recorder.IsBegun.wellFormed {r : Recorder} (h : r.IsBegun) : r.list.WellFormed := by
  obtain ⟨commands, rfl⟩ := h
  have htabled : (performAll {} commands).list.Tabled [] [] [] :=
    performAll_induct (fun _ _ _ => DisplayList.Tabled.perform) DisplayList.tabled_empty commands
  have hlinked : (performAll {} commands).list.WellLinked :=
    performAll_induct (fun _ _ _ => DisplayList.WellLinked.perform) DisplayList.wellLinked_empty
      commands
  exact .of_tabled htabled hlinked
    (performAll_induct (fun _ _ _ => DisplayList.functors_perform) rfl commands)

theorem DisplayList.IsFinished.wellFormed {l : DisplayList} (h : l.IsFinished) : l.WellFormed := by
  obtain ⟨r, hr, hfinish⟩ := h
  obtain ⟨-, rfl⟩ := Recorder.finish_eq_ok_iff.mp hfinish
  exact hr.wellFormed

end RetainedScene
