import Tyo3.FreshSignals
import Tyo3.KeyedQueues
import Tyo3.OrphanCollection

/-!
# Eager layers

A commit invalidates what it changed: every layer resolves the keys of the
dirty entities, hands the ones that moved to the scheduler, and the scheduler
makes their artifacts. All keys are resolved before anything is made, work is
told apart by layer and input hash, and what was worked on once is never
worked on again. So a layer is complete after a commit when the keys of its
dirty entities can be resolved before it and none of them waits for a hash
that another one waits for or that was worked on before.
-/

namespace Tyo3.EagerLayers

open FiniteMaps JsonValues DerivedLayers DerivedReads FreshSignals KeyedQueues Runs

open TracedLayers (LayerState Produced)

open OrphanCollection (iterLayers)

/-! ## Invalidation -/

/-- What a commit changed, with the head it leads to. -/
structure Commit where
  /-- The snapshot of the head. -/
  snap : Snapshot
  /-- Entities that were affected. -/
  dirty : Finset String
  /-- Entities that were deleted. -/
  deleted : Finset String
  /-- A deleted entity is not part of the head. -/
  gone : ∀ id ∈ deleted, snap.graph.symbol id = none
  /-- What the producers end with. -/
  producers : Producers

/-- The kind of an entity, empty for an unknown one. -/
def kindForId (snap : Snapshot) (id : String) : String :=
  match snap.graph.symbol id with
  | some node => symbolKindStr node.kind
  | none => ""

/-- What tells work items apart. -/
def workKey (item : WorkItem) : String × String := (item.layerName, item.inputHash)

/-- Let an artifact wait to be made. -/
def enqueue (scheduler : RecomputeScheduler) (layer : DerivedLayer) (id inputHash : String) :
    RecomputeScheduler :=
  { scheduler with
    pending := add workKey scheduler.done scheduler.pending ⟨layer.name, id, inputHash⟩ }

section Passes

variable (keys : Keying) (dag : DerivationDAG) (commit : Commit)

/-- Invalidate one entity of a layer. An error that is not caught ends the
pass. -/
def invalidateId (layer : DerivedLayer) (σ : DagState) (id : String) :
    DagState × Option ResolveError :=
  if !layer.appliesTo (kindForId commit.snap id) then (σ, none)
  else match resolve keys dag σ commit.snap layer id with
    | .error e => if caught e then (σ, none) else (σ, some e)
    | .ok (_, inputHash) =>
      if (σ.layers layer.name).bindings.lookup id = some inputHash then (σ, none)
      else if layer.recompute = "eager" then
        ({ σ with scheduler := enqueue σ.scheduler layer id inputHash }, none)
      else (σ, none)

/-- Invalidate some entities of a layer. -/
def invalidateIds (layer : DerivedLayer) : List String → DagState → DagState × Option ResolveError
  | [], σ => (σ, none)
  | id :: ids, σ =>
    match invalidateId keys dag commit layer σ id with
    | (σ', some e) => (σ', some e)
    | (σ', none) => invalidateIds layer ids σ'

/-- Forget the deleted entities of a layer. -/
def dropDeleted (layer : DerivedLayer) (σ : DagState) : DagState :=
  σ.setLayer layer.name ((keys.iter.order commit.deleted).foldl LayerState.drop
    (σ.layers layer.name))

/-- Invalidate the layers one after the other. -/
def invalidateLayers : List DerivedLayer → DagState → DagState × Option ResolveError
  | [], σ => (σ, none)
  | layer :: layers, σ =>
    if layer.isTraced then invalidateLayers layers (dropDeleted keys commit layer σ)
    else match invalidateIds keys dag commit layer (keys.iter.order commit.dirty) σ with
      | (σ', some e) => (σ', some e)
      | (σ', none) => invalidateLayers layers (dropDeleted keys commit layer σ')

/-- Make one artifact. Whatever goes wrong marks the entity, and the work is
done in any case. -/
def processItem (layer : DerivedLayer) (σ : DagState) (item : WorkItem) : DagState :=
  if (layer.name, item.inputHash) ∈ σ.scheduler.done then σ
  else
    let s := σ.layers layer.name
    let σ' :=
      match resolve keys dag σ commit.snap layer item.durableId with
      | .error _ => σ.setLayer layer.name (markFailed s item.durableId)
      | .ok (input, _) =>
        match commit.producers.produceArtifact layer commit.snap item.durableId input with
        | .artifact artifact =>
          match put s (layer.storeKey item.inputHash) artifact with
          | some stored => σ.setLayer layer.name
              (bind stored item.durableId item.inputHash (layer.storeKey item.inputHash))
          | none => σ.setLayer layer.name (markFailed s item.durableId)
        | .nothing => σ
        | .raised => σ.setLayer layer.name (markFailed s item.durableId)
    σ'.addDone layer.name item.inputHash

/-- Make the artifacts of a layer. -/
def processLayer (σ : DagState) (layer : DerivedLayer) : DagState :=
  (σ.scheduler.pending.filter fun item => item.layerName = layer.name).foldl
    (processItem keys dag commit layer) σ

/-- Make all artifacts that wait, in the order of the layers. -/
def processAll (σ : DagState) : DagState :=
  if σ.scheduler.pending.isEmpty then σ
  else
    let σ' := (iterLayers dag).foldl (processLayer keys dag commit) σ
    { σ' with scheduler := { σ'.scheduler with pending := [] } }

/-- Invalidate what a commit changed and make the artifacts of eager layers. -/
def invalidate (σ : DagState) : DagState × Option ResolveError :=
  if dag.layers.isEmpty then (σ, none)
  else match invalidateLayers keys dag commit (iterLayers dag) σ with
    | (σ', some e) => (σ', some e)
    | (σ', none) => (processAll keys dag commit σ', none)

end Passes

/-! ## What is handed to the scheduler -/

section Marking

variable (keys : Keying) (dag : DerivationDAG) (commit : Commit)

/-- The work that an entity of a layer gives. -/
def wantedItem (σ : DagState) (layer : DerivedLayer) (id : String) : Option WorkItem :=
  if !layer.appliesTo (kindForId commit.snap id) then none
  else match resolve keys dag σ commit.snap layer id with
    | .error _ => none
    | .ok (_, inputHash) =>
      if (σ.layers layer.name).bindings.lookup id = some inputHash then none
      else if layer.recompute = "eager" then some ⟨layer.name, id, inputHash⟩ else none

/-- The work that a layer gives. -/
def wantedItems (σ : DagState) (layer : DerivedLayer) : List WorkItem :=
  if layer.isTraced then []
  else (keys.iter.order commit.dirty).filterMap (wantedItem keys dag commit σ layer)

/-- The artifacts, the bindings of the entities of the head and the work that
was done are as they were. -/
structure Kept (σ τ : DagState) : Prop where
  /-- The artifacts. -/
  artifacts : τ.artifacts = σ.artifacts
  /-- The bindings. -/
  bindings : ∀ name id, (commit.snap.graph.symbol id).isSome = true →
    (τ.layers name).bindings.lookup id = (σ.layers name).bindings.lookup id
  /-- The work. -/
  done : τ.scheduler.done = σ.scheduler.done

variable {keys dag commit} {σ τ τ' : DagState}

theorem Kept.resolve_eq (h : Kept commit σ τ) (layer : DerivedLayer) (id : String) :
    resolve keys dag τ commit.snap layer id = resolve keys dag σ commit.snap layer id := by
  unfold resolve
  rw [h.artifacts]

/-- One entity hands over what it gives. -/
theorem invalidateId_kept (h : Kept commit σ τ) {layer : DerivedLayer} {id : String}
    (hrun : invalidateId keys dag commit layer τ id = (τ', none)) :
    Kept commit σ τ' ∧ τ'.scheduler.pending = addAll workKey σ.scheduler.done τ.scheduler.pending
      (wantedItem keys dag commit σ layer id).toList := by
  unfold invalidateId at hrun
  unfold wantedItem
  by_cases happlies : (!layer.appliesTo (kindForId commit.snap id)) = true
  · rw [if_pos happlies] at hrun ⊢
    obtain rfl := (Prod.mk.inj hrun).1
    exact ⟨h, rfl⟩
  · rw [if_neg happlies] at hrun ⊢
    rw [h.resolve_eq] at hrun
    cases hresolve : resolve keys dag σ commit.snap layer id with
    | error e =>
      rw [hresolve] at hrun
      dsimp only at hrun
      split_ifs at hrun
      · obtain rfl := (Prod.mk.inj hrun).1
        exact ⟨h, rfl⟩
      · cases (Prod.mk.inj hrun).2
    | ok found =>
      obtain ⟨input, hash⟩ := found
      rw [hresolve] at hrun
      dsimp only at hrun ⊢
      have hnode := Option.isSome_iff_exists.mpr (symbol_of_resolveInput hresolve)
      rw [h.bindings layer.name id hnode] at hrun
      split_ifs at hrun ⊢
      · obtain rfl := (Prod.mk.inj hrun).1
        exact ⟨h, rfl⟩
      · obtain rfl := (Prod.mk.inj hrun).1
        refine ⟨⟨h.artifacts, h.bindings, h.done⟩, ?_⟩
        rw [← h.done]
        rfl
      · obtain rfl := (Prod.mk.inj hrun).1
        exact ⟨h, rfl⟩

/-- Some entities hand over what they give. -/
theorem invalidateIds_kept {layer : DerivedLayer} {ids : List String} (h : Kept commit σ τ)
    (hrun : invalidateIds keys dag commit layer ids τ = (τ', none)) :
    Kept commit σ τ' ∧ τ'.scheduler.pending = addAll workKey σ.scheduler.done τ.scheduler.pending
      (ids.filterMap (wantedItem keys dag commit σ layer)) := by
  induction ids generalizing τ with
  | nil =>
    obtain rfl := (Prod.mk.inj hrun).1
    exact ⟨h, rfl⟩
  | cons id ids ih =>
    rw [invalidateIds] at hrun
    cases hfirst : invalidateId keys dag commit layer τ id with
    | mk next raised =>
      rw [hfirst] at hrun
      cases raised with
      | some e => cases (Prod.mk.inj hrun).2
      | none =>
        obtain ⟨hkept, hpending⟩ := invalidateId_kept h hfirst
        obtain ⟨hkept', hpending'⟩ := ih hkept hrun
        refine ⟨hkept', ?_⟩
        rw [hpending', hpending, ← addAll_append]
        cases hwanted : wantedItem keys dag commit σ layer id with
        | none => rw [List.filterMap_cons_none hwanted]; rfl
        | some item => rw [List.filterMap_cons_some hwanted]; rfl

theorem lookup_foldl_drop {id : String} (ids : List String) (hid : id ∉ ids) (s : LayerState) :
    (ids.foldl LayerState.drop s).bindings.lookup id = s.bindings.lookup id := by
  induction ids generalizing s with
  | nil => rfl
  | cons first ids ih =>
    have hne : id ≠ first := fun heq => hid (heq ▸ List.mem_cons_self)
    rw [List.foldl_cons, ih fun hin => hid (List.mem_cons_of_mem _ hin)]
    exact Finmap.lookup_erase_ne hne

theorem store_foldl_drop (ids : List String) (s : LayerState) :
    (ids.foldl LayerState.drop s).store = s.store := by
  induction ids generalizing s with
  | nil => rfl
  | cons first ids ih => exact ih (s.drop first)

/-- Forgetting deleted entities keeps the others. -/
theorem Kept.dropDeleted (h : Kept commit σ τ) (layer : DerivedLayer) :
    Kept commit σ (dropDeleted keys commit layer τ) := by
  refine ⟨?_, fun name id hnode => ?_, h.done⟩
  · rw [← h.artifacts]
    exact DagState.artifacts_setLayer (store_foldl_drop _ _)
  · rw [← h.bindings name id hnode]
    unfold EagerLayers.dropDeleted
    rw [DagState.layers_setLayer]
    by_cases hsame : name = layer.name
    · have hid : id ∉ keys.iter.order commit.deleted := by
        intro hin
        rw [commit.gone id ((HashOrder.mem_order _ _ _).mp hin)] at hnode
        cases hnode
      rw [hsame, Function.update_self]
      exact lookup_foldl_drop _ hid _
    · rw [Function.update_of_ne hsame]

/-- The layers hand over what they give, in their order. -/
theorem invalidateLayers_kept {layers : List DerivedLayer} (h : Kept commit σ τ)
    (hrun : invalidateLayers keys dag commit layers τ = (τ', none)) :
    Kept commit σ τ' ∧ τ'.scheduler.pending = addAll workKey σ.scheduler.done τ.scheduler.pending
      (layers.flatMap (wantedItems keys dag commit σ)) := by
  induction layers generalizing τ with
  | nil =>
    obtain rfl := (Prod.mk.inj hrun).1
    exact ⟨h, rfl⟩
  | cons layer layers ih =>
    rw [invalidateLayers] at hrun
    rw [List.flatMap_cons, addAll_append]
    unfold wantedItems
    split_ifs at hrun ⊢
    · obtain ⟨hkept, hpending⟩ := ih (h.dropDeleted layer) hrun
      exact ⟨hkept, hpending⟩
    · cases hids : invalidateIds keys dag commit layer (keys.iter.order commit.dirty) τ with
      | mk next raised =>
        rw [hids] at hrun
        cases raised with
        | some e => cases (Prod.mk.inj hrun).2
        | none =>
          obtain ⟨hkept, hpending⟩ := invalidateIds_kept h hids
          obtain ⟨hkept', hpending'⟩ := ih (hkept.dropDeleted layer) hrun
          refine ⟨hkept', ?_⟩
          rw [hpending']
          congr 1

end Marking

/-! ## What the scheduler makes -/

/-- An entity is bound in a layer to a hash, and the artifact is there. -/
def Bound (σ : DagState) (layer : DerivedLayer) (id hash : String) : Prop :=
  (σ.layers layer.name).bindings.lookup id = some hash ∧
    (σ.artifacts layer.name (layer.storeKey hash)).isSome = true

section Processing

variable {keys : Keying} {dag : DerivationDAG} {commit : Commit} {σ : DagState}

/-- An item that was done changes nothing; any other one changes its layer and
is done then. -/
theorem processItem_cases (layer : DerivedLayer) (σ : DagState) (item : WorkItem) :
    (layer.name, item.inputHash) ∈ σ.scheduler.done ∧ processItem keys dag commit layer σ item = σ ∨
    (layer.name, item.inputHash) ∉ σ.scheduler.done ∧ ∃ s',
      processItem keys dag commit layer σ item =
        (σ.setLayer layer.name s').addDone layer.name item.inputHash ∧
      (s' = σ.layers layer.name ∨ s' = markFailed (σ.layers layer.name) item.durableId ∨
        ∃ artifact stored,
          put (σ.layers layer.name) (layer.storeKey item.inputHash) artifact = some stored ∧
          s' = bind stored item.durableId item.inputHash (layer.storeKey item.inputHash)) := by
  have hself : σ.setLayer layer.name (σ.layers layer.name) = σ := by
    unfold DagState.setLayer
    rw [Function.update_eq_self]
  unfold processItem
  by_cases hdone : (layer.name, item.inputHash) ∈ σ.scheduler.done
  · rw [if_pos hdone]
    exact .inl ⟨hdone, rfl⟩
  · rw [if_neg hdone]
    refine .inr ⟨hdone, ?_⟩
    cases resolve keys dag σ commit.snap layer item.durableId with
    | error e => exact ⟨_, rfl, .inr (.inl rfl)⟩
    | ok found =>
      obtain ⟨input, hash⟩ := found
      dsimp only
      cases commit.producers.produceArtifact layer commit.snap item.durableId input with
      | nothing => exact ⟨σ.layers layer.name, by rw [hself], .inl rfl⟩
      | raised => exact ⟨_, rfl, .inr (.inl rfl)⟩
      | artifact artifact =>
        dsimp only
        cases hput : put (σ.layers layer.name) (layer.storeKey item.inputHash) artifact with
        | none => exact ⟨_, rfl, .inr (.inl rfl)⟩
        | some stored => exact ⟨_, rfl, .inr (.inr ⟨artifact, stored, hput, rfl⟩)⟩

theorem pending_processItem (layer : DerivedLayer) (σ : DagState) (item : WorkItem) :
    (processItem keys dag commit layer σ item).scheduler.pending = σ.scheduler.pending := by
  rcases @processItem_cases keys dag commit layer σ item with ⟨-, heq⟩ | ⟨-, s', heq, -⟩
  · rw [heq]
  · rw [heq]
    rfl

/-- Only the key of the item is new among the work that was done. -/
theorem mem_done_processItem {layer : DerivedLayer} {item : WorkItem} {key : String × String}
    (h : key ∈ (processItem keys dag commit layer σ item).scheduler.done) :
    key ∈ σ.scheduler.done ∨ key = (layer.name, item.inputHash) := by
  rcases @processItem_cases keys dag commit layer σ item with ⟨-, heq⟩ | ⟨-, s', heq, -⟩
  · rw [heq] at h
    exact .inl h
  · rw [heq] at h
    exact (Finset.mem_insert.mp h).symm

/-- Artifacts are only added. -/
theorem artifacts_processItem {layer : DerivedLayer} {item : WorkItem} {name key : String}
    {found : Bytes} (h : σ.artifacts name key = some found) :
    (processItem keys dag commit layer σ item).artifacts name key = some found := by
  rcases @processItem_cases keys dag commit layer σ item with ⟨-, heq⟩ | ⟨-, s', heq, hs⟩
  · rw [heq]
    exact h
  · rw [heq, DagState.artifacts_addDone]
    rcases hs with rfl | rfl | ⟨artifact, stored, hput, rfl⟩
    · rw [DagState.artifacts_setLayer rfl]
      exact h
    · rw [artifacts_markFailed]
      exact h
    · unfold DagState.artifacts at h ⊢
      rw [DagState.layers_setLayer]
      by_cases hsame : name = layer.name
      · rw [hsame] at h ⊢
        rw [Function.update_self]
        exact (put_spec hput).2.2.2.2.2.1 key found h
      · rw [Function.update_of_ne hsame]
        exact h

/-- Only the artifact of the item is new. -/
theorem artifacts_processItem_of_ne {layer : DerivedLayer} {item : WorkItem} {name key : String}
    (h : layer.name = name → layer.storeKey item.inputHash ≠ key) :
    (processItem keys dag commit layer σ item).artifacts name key = σ.artifacts name key := by
  rcases @processItem_cases keys dag commit layer σ item with ⟨-, heq⟩ | ⟨-, s', heq, hs⟩
  · rw [heq]
  · rw [heq, DagState.artifacts_addDone]
    rcases hs with rfl | rfl | ⟨artifact, stored, hput, rfl⟩
    · rw [DagState.artifacts_setLayer rfl]
    · rw [artifacts_markFailed]
    · unfold DagState.artifacts
      rw [DagState.layers_setLayer]
      by_cases hsame : name = layer.name
      · have hkey := (h hsame.symm).symm
        rw [hsame, Function.update_self]
        exact (put_spec hput).2.2.2.2.2.2 key hkey
      · rw [Function.update_of_ne hsame]

/-- An item of another entity, or of the same hash, keeps a binding. -/
theorem Bound.processItem {layer other : DerivedLayer} {id hash : String} {item : WorkItem}
    (h : Bound σ layer id hash)
    (hitem : other.name = layer.name → item.durableId = id → item.inputHash = hash) :
    Bound (processItem keys dag commit other σ item) layer id hash := by
  obtain ⟨hbinding, hartifact⟩ := h
  obtain ⟨found, hfound⟩ := Option.isSome_iff_exists.mp hartifact
  refine ⟨?_, by rw [artifacts_processItem hfound]; rfl⟩
  rcases @processItem_cases keys dag commit other σ item with ⟨-, heq⟩ | ⟨-, s', heq, hs⟩
  · rw [heq]
    exact hbinding
  · rw [heq, DagState.layers_addDone, DagState.layers_setLayer]
    by_cases hsame : layer.name = other.name
    · rw [hsame] at hbinding ⊢
      rw [Function.update_self]
      rcases hs with rfl | rfl | ⟨artifact, stored, hput, rfl⟩
      · exact hbinding
      · exact hbinding
      · dsimp only [DerivedReads.bind]
        rw [(put_spec hput).2.1, lookup_insert_ite]
        split_ifs with hid
        · rw [hitem hsame.symm hid.symm]
        · exact hbinding
    · rw [Function.update_of_ne hsame]
      exact hbinding

/-- Work on some items, each with its layer. -/
def processPairs (keys : Keying) (dag : DerivationDAG) (commit : Commit) (σ : DagState)
    (pairs : List (DerivedLayer × WorkItem)) : DagState :=
  pairs.foldl (fun σ pair => processItem keys dag commit pair.1 σ pair.2) σ

theorem artifacts_processPairs {pairs : List (DerivedLayer × WorkItem)} {name key : String}
    {found : Bytes} (h : σ.artifacts name key = some found) :
    (processPairs keys dag commit σ pairs).artifacts name key = some found := by
  induction pairs generalizing σ with
  | nil => exact h
  | cons pair pairs ih => exact ih (artifacts_processItem h)

theorem Bound.processPairs {pairs : List (DerivedLayer × WorkItem)} {layer : DerivedLayer}
    {id hash : String} (h : Bound σ layer id hash)
    (hpairs : ∀ pair ∈ pairs, pair.1.name = layer.name → pair.2.durableId = id →
      pair.2.inputHash = hash) :
    Bound (processPairs keys dag commit σ pairs) layer id hash := by
  induction pairs generalizing σ with
  | nil => exact h
  | cons pair pairs ih =>
    exact ih (h.processItem (hpairs pair List.mem_cons_self))
      fun other hother => hpairs other (List.mem_cons_of_mem _ hother)

/-- The items of the layers in their order. -/
def pairsOf (pending : List WorkItem) (layers : List DerivedLayer) :
    List (DerivedLayer × WorkItem) :=
  layers.flatMap fun layer =>
    (pending.filter fun item => item.layerName = layer.name).map (Prod.mk layer)

theorem foldl_processItem (layer : DerivedLayer) (items : List WorkItem) (σ : DagState) :
    items.foldl (processItem keys dag commit layer) σ =
      processPairs keys dag commit σ (items.map (Prod.mk layer)) := by
  unfold processPairs
  rw [List.foldl_map]

theorem pending_processPairs (pairs : List (DerivedLayer × WorkItem)) (σ : DagState) :
    (processPairs keys dag commit σ pairs).scheduler.pending = σ.scheduler.pending := by
  induction pairs generalizing σ with
  | nil => rfl
  | cons pair pairs ih => exact (ih _).trans (pending_processItem _ _ _)

theorem foldl_processLayer (layers : List DerivedLayer) (σ : DagState) :
    layers.foldl (processLayer keys dag commit) σ =
      processPairs keys dag commit σ (pairsOf σ.scheduler.pending layers) := by
  induction layers generalizing σ with
  | nil => rfl
  | cons layer layers ih =>
    have hfirst : processLayer keys dag commit σ layer = processPairs keys dag commit σ
        ((σ.scheduler.pending.filter fun item => item.layerName = layer.name).map
          (Prod.mk layer)) := foldl_processItem layer _ σ
    have hsplit : pairsOf σ.scheduler.pending (layer :: layers) =
        (σ.scheduler.pending.filter fun item => item.layerName = layer.name).map (Prod.mk layer) ++
          pairsOf σ.scheduler.pending layers := List.flatMap_cons
    rw [List.foldl_cons, ih, hfirst, pending_processPairs, hsplit]
    exact List.foldl_append.symm

/-- An item whose key was not done is made and bound, when its input is
resolved and no other artifact is in its place. -/
theorem bound_of_processItem {layer : DerivedLayer} {id hash : String}
    (hdone : (layer.name, hash) ∉ σ.scheduler.done) {input : GenInput} {found : String}
    (hresolve : resolve keys dag σ commit.snap layer id = .ok (input, found)) {artifact : Bytes}
    (hmade : commit.producers.produceArtifact layer commit.snap id input = .artifact artifact)
    (hfree : ∀ existing, σ.artifacts layer.name (layer.storeKey hash) = some existing →
      existing = artifact) :
    Bound (processItem keys dag commit layer σ ⟨layer.name, id, hash⟩) layer id hash := by
  have hput : ∃ stored, put (σ.layers layer.name) (layer.storeKey hash) artifact = some stored := by
    cases hnone : put (σ.layers layer.name) (layer.storeKey hash) artifact with
    | some stored => exact ⟨stored, rfl⟩
    | none =>
      obtain ⟨existing, hexisting, hother⟩ := put_eq_none_iff.mp hnone
      exact absurd (hfree existing hexisting) hother
  obtain ⟨stored, hstored⟩ := hput
  unfold processItem
  rw [if_neg hdone]
  simp only [hresolve, hmade, hstored]
  unfold Bound
  rw [DagState.artifacts_addDone, DagState.layers_addDone]
  unfold DagState.artifacts
  rw [DagState.layers_setLayer, Function.update_self]
  refine ⟨Finmap.lookup_insert _, ?_⟩
  dsimp only [DerivedReads.bind]
  rw [(put_spec hstored).1]
  rfl

/-- Of the items of a pass, one is worked on before any other one has its key,
and stays bound. -/
theorem bound_of_mem_pairs {pairs : List (DerivedLayer × WorkItem)} {layer : DerivedLayer}
    {id hash : String} (hmem : (layer, (⟨layer.name, id, hash⟩ : WorkItem)) ∈ pairs)
    (hnamed : ∀ pair ∈ pairs, pair.2.layerName = pair.1.name)
    (hlayers : ∀ pair ∈ pairs, pair.1.name = layer.name → pair.1 = layer)
    (hkeys : ∀ pair ∈ pairs, workKey pair.2 = (layer.name, hash) → pair.2 = ⟨layer.name, id, hash⟩)
    (hids : ∀ pair ∈ pairs, pair.1.name = layer.name → pair.2.durableId = id →
      pair.2.inputHash = hash)
    (hdone : (layer.name, hash) ∉ σ.scheduler.done) {input : GenInput} {found : String}
    (hresolve : resolve keys dag σ commit.snap layer id = .ok (input, found)) {artifact : Bytes}
    (hmade : commit.producers.produceArtifact layer commit.snap id input = .artifact artifact)
    (hfree : ∀ existing, σ.artifacts layer.name (layer.storeKey hash) = some existing →
      existing = artifact) :
    Bound (processPairs keys dag commit σ pairs) layer id hash := by
  induction pairs generalizing σ with
  | nil => cases hmem
  | cons pair pairs ih =>
    have hrest : ∀ {P : DerivedLayer × WorkItem → Prop}, (∀ other ∈ pair :: pairs, P other) →
        ∀ other ∈ pairs, P other := fun hall other hother => hall other (List.mem_cons_of_mem _ hother)
    by_cases hfirst : pair = (layer, ⟨layer.name, id, hash⟩)
    · -- its turn: the rest keeps the binding
      have hbound : Bound (processItem keys dag commit pair.1 σ pair.2) layer id hash := by
        rw [hfirst]
        exact bound_of_processItem hdone hresolve hmade hfree
      have hkept : Bound (processPairs keys dag commit (processItem keys dag commit pair.1 σ pair.2)
          pairs) layer id hash := hbound.processPairs (hrest hids)
      exact hkept
    · -- another item: it has another key
      have hother : (pair.1.name, pair.2.inputHash) ≠ (layer.name, hash) := by
        intro heq
        have hname := hnamed pair List.mem_cons_self
        have hitem := hkeys pair List.mem_cons_self (by unfold workKey; rw [hname]; exact heq)
        have hlayer := hlayers pair List.mem_cons_self (Prod.mk.inj heq).1
        exact hfirst (Prod.ext hlayer hitem)
      have hin : (layer, (⟨layer.name, id, hash⟩ : WorkItem)) ∈ pairs := by
        rcases List.mem_cons.mp hmem with heq | hin
        · exact absurd heq.symm hfirst
        · exact hin
      have hplace : ∀ key, pair.1.name = layer.name → key = layer.storeKey hash →
          pair.1.storeKey pair.2.inputHash ≠ key := by
        intro key hname hkey heq
        rw [hkey, hlayers pair List.mem_cons_self hname] at heq
        exact hother (Prod.ext hname (layer.storeKey_injective heq))
      refine ih hin (hrest hnamed) (hrest hlayers) (hrest hkeys) (hrest hids) (fun hmem => ?_)
        (resolveInput_mono (fun _ _ _ => artifacts_processItem) hresolve) fun existing hexisting => ?_
      · rcases mem_done_processItem hmem with hold | heq
        · exact hdone hold
        · exact hother heq.symm
      · rw [artifacts_processItem_of_ne fun hname => hplace _ hname rfl] at hexisting
        exact hfree existing hexisting

end Processing

/-! ## One commit -/

/-- The layers of a graph are eager and not traced, and are found under their
names. -/
structure EagerDag (dag : DerivationDAG) : Prop where
  /-- A layer is found under its name. -/
  named : ∀ name layer, dag.layerMap.lookup name = some layer → layer.name = name
  /-- It is one of the layers. -/
  listed : ∀ layer ∈ iterLayers dag, layer ∈ dag.layers
  /-- It is eager. -/
  eager : ∀ layer ∈ iterLayers dag, layer.recompute = "eager"
  /-- It is not traced. -/
  untraced : ∀ layer ∈ iterLayers dag, layer.isTraced = false

/-- Producers that always give an artifact. -/
def Succeeds (producers : Producers) : Prop :=
  ∀ layer snap id input, ∃ artifact, producers.produceArtifact layer snap id input = .artifact artifact

section Commits

variable (keys : Keying) (dag : DerivationDAG) (commit : Commit) (σ : DagState)

/-- Every dirty entity of the head is bound in every layer that applies to it
to its key, and the artifact is there. -/
def Complete : Prop :=
  ∀ layer ∈ iterLayers dag, ∀ id ∈ commit.dirty, (commit.snap.graph.symbol id).isSome = true →
    layer.appliesTo (kindForId commit.snap id) = true →
      ∃ input hash, resolve keys dag σ commit.snap layer id = .ok (input, hash) ∧
        Bound σ layer id hash

/-- No key raises an error that ends the pass. -/
def Quiet : Prop :=
  ∀ layer ∈ iterLayers dag, ∀ id ∈ commit.dirty,
    layer.appliesTo (kindForId commit.snap id) = true → ∀ e,
      resolve keys dag σ commit.snap layer id = .error e → caught e = true

/-- An entity is bound to its key and the artifact is there; or nothing was done
for the key yet, no dirty entity before it waits for the same hash, and no other
artifact is in its place. -/
def Waiting (layer : DerivedLayer) (id : String) (input : GenInput) (hash : String) : Prop :=
  Bound σ layer id hash ∨
    (σ.layers layer.name).bindings.lookup id ≠ some hash ∧
    (layer.name, hash) ∉ σ.scheduler.done ∧
    (∀ other ∈ (keys.iter.order commit.dirty).takeWhile (· ≠ id),
      wantedItem keys dag commit σ layer other ≠ some ⟨layer.name, other, hash⟩) ∧
    ∀ existing, σ.artifacts layer.name (layer.storeKey hash) = some existing →
      commit.producers.produceArtifact layer commit.snap id input = .artifact existing

/-- The key of an entity is resolved before anything is made, and its artifact
is there or can be made. -/
def Ready (layer : DerivedLayer) (id : String) : Prop :=
  ∃ input hash, resolve keys dag σ commit.snap layer id = .ok (input, hash) ∧
    Waiting keys dag commit σ layer id input hash

/-- Every dirty entity of the head is ready in every layer that applies to
it. -/
def Prepared : Prop :=
  ∀ layer ∈ iterLayers dag, ∀ id ∈ commit.dirty, (commit.snap.graph.symbol id).isSome = true →
    layer.appliesTo (kindForId commit.snap id) = true → Ready keys dag commit σ layer id

end Commits

section Steps

variable {keys : Keying} {dag : DerivationDAG} {commit : Commit} {σ τ : DagState}

theorem wantedItem_eq_some {layer : DerivedLayer} {id : String} {item : WorkItem}
    (h : wantedItem keys dag commit σ layer id = some item) :
    ∃ input, item.layerName = layer.name ∧ item.durableId = id ∧
      resolve keys dag σ commit.snap layer id = .ok (input, item.inputHash) := by
  unfold wantedItem at h
  by_cases happlies : (!layer.appliesTo (kindForId commit.snap id)) = true
  · rw [if_pos happlies] at h
    cases h
  rw [if_neg happlies] at h
  cases hresolve : resolve keys dag σ commit.snap layer id with
  | error e =>
    rw [hresolve] at h
    cases h
  | ok found =>
    obtain ⟨input, hash⟩ := found
    rw [hresolve] at h
    dsimp only at h
    split_ifs at h
    obtain rfl := Option.some.inj h
    exact ⟨input, rfl, rfl, rfl⟩

/-- The work of a layer has its name and the key of an entity. -/
theorem mem_wantedItems {layer : DerivedLayer} {item : WorkItem}
    (h : item ∈ wantedItems keys dag commit σ layer) :
    item.layerName = layer.name ∧ ∃ input,
      resolve keys dag σ commit.snap layer item.durableId = .ok (input, item.inputHash) := by
  unfold wantedItems at h
  split_ifs at h
  · cases h
  · obtain ⟨id, -, hsome⟩ := List.mem_filterMap.mp h
    obtain ⟨input, hname, hid, hresolve⟩ := wantedItem_eq_some hsome
    rw [← hid] at hresolve
    exact ⟨hname, input, hresolve⟩

theorem eq_of_name_eq (hdag : EagerDag dag) {layer other : DerivedLayer}
    (hlayer : layer ∈ iterLayers dag) (hother : other ∈ iterLayers dag)
    (h : other.name = layer.name) : other = layer := by
  obtain ⟨name, -, hlookup⟩ := List.mem_filterMap.mp hlayer
  obtain ⟨name', -, hlookup'⟩ := List.mem_filterMap.mp hother
  have hname := hdag.named name layer hlookup
  have hname' := hdag.named name' other hlookup'
  rw [← hname', h, hname, hlookup] at hlookup'
  exact (Option.some.inj hlookup').symm

theorem mem_pairsOf {pending : List WorkItem} {layers : List DerivedLayer}
    {pair : DerivedLayer × WorkItem} :
    pair ∈ pairsOf pending layers ↔
      pair.1 ∈ layers ∧ pair.2 ∈ pending ∧ pair.2.layerName = pair.1.name := by
  unfold pairsOf
  rw [List.mem_flatMap]
  constructor
  · rintro ⟨layer, hlayer, hpair⟩
    obtain ⟨item, hitem, rfl⟩ := List.mem_map.mp hpair
    have hfilter := List.mem_filter.mp hitem
    exact ⟨hlayer, hfilter.1, of_decide_eq_true hfilter.2⟩
  · rintro ⟨hlayer, hitem, hname⟩
    exact ⟨pair.1, hlayer, List.mem_map.mpr
      ⟨pair.2, List.mem_filter.mpr ⟨hitem, decide_eq_true hname⟩, rfl⟩⟩

/-- A quiet key ends no pass. -/
theorem invalidateId_quiet (hquiet : Quiet keys dag commit σ) {layer : DerivedLayer}
    (hlayer : layer ∈ iterLayers dag) {id : String} (hid : id ∈ commit.dirty)
    (hkept : Kept commit σ τ) : ∃ τ', invalidateId keys dag commit layer τ id = (τ', none) := by
  unfold invalidateId
  by_cases happlies : (!layer.appliesTo (kindForId commit.snap id)) = true
  · rw [if_pos happlies]
    exact ⟨_, rfl⟩
  · rw [if_neg happlies, hkept.resolve_eq]
    cases hresolve : resolve keys dag σ commit.snap layer id with
    | error e =>
      have hcaught := hquiet layer hlayer id hid (by simpa using happlies) e hresolve
      dsimp only
      rw [if_pos hcaught]
      exact ⟨_, rfl⟩
    | ok found =>
      dsimp only
      split_ifs
      · exact ⟨_, rfl⟩
      · exact ⟨_, rfl⟩
      · exact ⟨_, rfl⟩

theorem invalidateIds_quiet (hquiet : Quiet keys dag commit σ) {layer : DerivedLayer}
    (hlayer : layer ∈ iterLayers dag) {ids : List String} (hids : ∀ id ∈ ids, id ∈ commit.dirty)
    (hkept : Kept commit σ τ) : ∃ τ', invalidateIds keys dag commit layer ids τ = (τ', none) := by
  induction ids generalizing τ with
  | nil => exact ⟨τ, rfl⟩
  | cons id ids ih =>
    obtain ⟨next, hnext⟩ := invalidateId_quiet hquiet hlayer (hids id List.mem_cons_self) hkept
    rw [invalidateIds, hnext]
    exact ih (fun other hother => hids other (List.mem_cons_of_mem _ hother))
      (invalidateId_kept hkept hnext).1

/-- A quiet pass comes to its end. -/
theorem invalidateLayers_quiet (hquiet : Quiet keys dag commit σ) {layers : List DerivedLayer}
    (hlayers : ∀ layer ∈ layers, layer ∈ iterLayers dag) (hkept : Kept commit σ τ) :
    ∃ τ', invalidateLayers keys dag commit layers τ = (τ', none) := by
  induction layers generalizing τ with
  | nil => exact ⟨τ, rfl⟩
  | cons layer layers ih =>
    have hrest := fun other hother => hlayers other (List.mem_cons_of_mem _ hother)
    rw [invalidateLayers]
    split_ifs
    · exact ih hrest (hkept.dropDeleted layer)
    · obtain ⟨next, hnext⟩ := invalidateIds_quiet hquiet (hlayers layer List.mem_cons_self)
        (fun id hid => (HashOrder.mem_order keys.iter _ id).mp hid) hkept
      rw [hnext]
      exact ih hrest ((invalidateIds_kept hkept hnext).1.dropDeleted layer)

theorem layers_processAll (τ : DagState) :
    (processAll keys dag commit τ).layers =
      (processPairs keys dag commit τ (pairsOf τ.scheduler.pending (iterLayers dag))).layers := by
  unfold processAll
  split_ifs with hempty
  · have hpairs : pairsOf τ.scheduler.pending (iterLayers dag) = [] := by
      refine List.eq_nil_iff_forall_not_mem.mpr fun pair hpair => ?_
      rw [List.isEmpty_iff.mp hempty, mem_pairsOf] at hpair
      exact List.not_mem_nil hpair.2.1
    rw [hpairs]
    rfl
  · rw [foldl_processLayer]

/-- The work of an entity that waits for a hash of its own is let in. -/
theorem mem_pending_of_ready (hdag : EagerDag dag) {layer : DerivedLayer}
    (hlayer : layer ∈ iterLayers dag) {id hash : String} (hid : id ∈ commit.dirty)
    (hwanted : wantedItem keys dag commit σ layer id = some ⟨layer.name, id, hash⟩)
    (hdone : (layer.name, hash) ∉ σ.scheduler.done)
    (hearlier : ∀ other ∈ (keys.iter.order commit.dirty).takeWhile (· ≠ id),
      wantedItem keys dag commit σ layer other ≠ some ⟨layer.name, other, hash⟩) :
    (⟨layer.name, id, hash⟩ : WorkItem) ∈ addAll workKey σ.scheduler.done []
      ((iterLayers dag).flatMap (wantedItems keys dag commit σ)) := by
  obtain ⟨before, after, hlayers, hfirst⟩ := List.eq_append_cons_of_mem hlayer
  obtain ⟨ids, ids', horder, hnew⟩ :=
    List.eq_append_cons_of_mem ((HashOrder.mem_order keys.iter commit.dirty id).mpr hid)
  have htake : (keys.iter.order commit.dirty).takeWhile (· ≠ id) = ids := by
    have hall : ∀ other ∈ ids, decide (other ≠ id) = true := by
      intro other hother
      rw [decide_eq_true_iff]
      exact fun heq => hnew (heq ▸ hother)
    rw [horder, List.takeWhile_append_of_pos hall]
    simp
  have hitems : wantedItems keys dag commit σ layer =
      ids.filterMap (wantedItem keys dag commit σ layer) ++
        ⟨layer.name, id, hash⟩ :: ids'.filterMap (wantedItem keys dag commit σ layer) := by
    unfold wantedItems
    rw [if_neg (by rw [hdag.untraced layer hlayer]; simp), horder, List.filterMap_append,
      List.filterMap_cons_some hwanted]
  rw [hlayers, List.flatMap_append, List.flatMap_cons, hitems, List.append_assoc, List.cons_append,
    ← List.append_assoc]
  refine mem_addAll_of_first hdone List.not_mem_nil fun item hitem => ?_
  rcases List.mem_append.mp hitem with hin | hin
  · -- an item of an earlier layer has another name
    obtain ⟨other, hother, hin⟩ := List.mem_flatMap.mp hin
    have hlisted : other ∈ iterLayers dag := by
      rw [hlayers]
      exact List.mem_append_left _ hother
    intro hkey
    have hsame : other = layer := eq_of_name_eq hdag hlayer hlisted
      ((mem_wantedItems hin).1.symm.trans (Prod.mk.inj hkey).1)
    exact hfirst (hsame ▸ hother)
  · -- an item of an earlier entity has another hash
    obtain ⟨other, hother, hsome⟩ := List.mem_filterMap.mp hin
    obtain ⟨-, hname, hsame, -⟩ := wantedItem_eq_some hsome
    intro hkey
    have hhash : item.inputHash = hash := (Prod.mk.inj hkey).2
    have heq : item = ⟨layer.name, other, hash⟩ := by
      cases item
      simp only [WorkItem.mk.injEq]
      exact ⟨hname, hsame, hhash⟩
    rw [heq] at hsome
    exact hearlier other (htake ▸ hother) hsome

/-- The work of a pass belongs to entities and has their keys. -/
theorem resolve_of_mem_pairs (hdag : EagerDag dag) {layer : DerivedLayer}
    (hlayer : layer ∈ iterLayers dag) {pending : List WorkItem}
    (hwork : pending = addAll workKey σ.scheduler.done []
      ((iterLayers dag).flatMap (wantedItems keys dag commit σ)))
    {pair : DerivedLayer × WorkItem} (hpair : pair ∈ pairsOf pending (iterLayers dag))
    (hname : pair.1.name = layer.name) :
    ∃ input, resolve keys dag σ commit.snap layer pair.2.durableId =
      .ok (input, pair.2.inputHash) := by
  obtain ⟨-, hitem, hnamed⟩ := mem_pairsOf.mp hpair
  rw [hwork] at hitem
  rcases mem_or_of_mem_addAll hitem with hnil | ⟨hin, -⟩
  · exact absurd hnil List.not_mem_nil
  · obtain ⟨giver, hgiver, hin⟩ := List.mem_flatMap.mp hin
    obtain ⟨hgiverName, input, hresolve⟩ := mem_wantedItems hin
    have hsame : giver = layer :=
      eq_of_name_eq hdag hlayer hgiver (by rw [← hgiverName, hnamed, hname])
    rw [hsame] at hresolve
    exact ⟨input, hresolve⟩

/-- An entity that is ready is bound once the work of the pass is made. -/
theorem bound_of_ready (hdag : EagerDag dag) (hsucceeds : Succeeds commit.producers)
    (hkept : Kept commit σ τ) (hwork : τ.scheduler.pending = addAll workKey σ.scheduler.done []
      ((iterLayers dag).flatMap (wantedItems keys dag commit σ))) {layer : DerivedLayer}
    (hlayer : layer ∈ iterLayers dag) {id : String} (hid : id ∈ commit.dirty)
    (hnode : (commit.snap.graph.symbol id).isSome = true)
    (happlies : layer.appliesTo (kindForId commit.snap id) = true) {input : GenInput} {hash : String}
    (hresolve : resolve keys dag σ commit.snap layer id = .ok (input, hash))
    (hready : Waiting keys dag commit σ layer id input hash) :
    Bound (processPairs keys dag commit τ (pairsOf τ.scheduler.pending (iterLayers dag))) layer id
      hash := by
  have hids : ∀ pair ∈ pairsOf τ.scheduler.pending (iterLayers dag), pair.1.name = layer.name →
      pair.2.durableId = id → pair.2.inputHash = hash := by
    intro pair hpair hname hsame
    obtain ⟨input', hresolve'⟩ := resolve_of_mem_pairs hdag hlayer hwork hpair hname
    rw [hsame, hresolve] at hresolve'
    exact (Prod.mk.inj (Except.ok.inj hresolve')).2.symm
  rcases hready with hbefore | ⟨hbinding, hdone, hearlier, hfree⟩
  · refine Bound.processPairs ?_ hids
    unfold Bound
    rw [hkept.bindings layer.name id hnode, hkept.artifacts]
    exact hbefore
  · have hwanted : wantedItem keys dag commit σ layer id = some ⟨layer.name, id, hash⟩ := by
      unfold wantedItem
      rw [if_neg (by rw [happlies]; simp), hresolve]
      dsimp only
      rw [if_neg hbinding, if_pos (hdag.eager layer hlayer)]
    have hmem := mem_pending_of_ready hdag hlayer hid hwanted hdone hearlier
    rw [← hwork] at hmem
    have hnodup : (τ.scheduler.pending.map workKey).Nodup := by
      rw [hwork]
      exact nodup_addAll List.nodup_nil
    obtain ⟨artifact, hmade⟩ := hsucceeds layer commit.snap id input
    refine bound_of_mem_pairs (mem_pairsOf.mpr ⟨hlayer, hmem, rfl⟩)
      (fun pair hpair => (mem_pairsOf.mp hpair).2.2) (fun pair hpair hname => ?_)
      (fun pair hpair hkey => ?_) hids (by rw [hkept.done]; exact hdone)
      (by rw [hkept.resolve_eq]; exact hresolve) hmade fun existing hexisting => ?_
    · exact eq_of_name_eq hdag hlayer (mem_pairsOf.mp hpair).1 hname
    · exact List.inj_on_of_nodup_map hnodup (mem_pairsOf.mp hpair).2.1 hmem hkey
    · rw [hkept.artifacts] at hexisting
      have hsame := hfree existing hexisting
      rw [hmade] at hsame
      exact (Produced.artifact.inj hsame).symm

/-- A layer is complete after a commit for which its dirty entities were
ready. -/
theorem complete_invalidate (hdag : EagerDag dag) (hpending : σ.scheduler.pending = [])
    (hquiet : Quiet keys dag commit σ) (hsucceeds : Succeeds commit.producers)
    (hprepared : Prepared keys dag commit σ) :
    Complete keys dag commit (invalidate keys dag commit σ).1 := by
  intro layer hlayer id hid hnode happlies
  obtain ⟨τ, hτ⟩ := @invalidateLayers_quiet keys dag commit σ σ hquiet (iterLayers dag)
    (fun _ h => h) ⟨rfl, fun _ _ _ => rfl, rfl⟩
  obtain ⟨hkept, hwork⟩ := @invalidateLayers_kept keys dag commit σ σ τ (iterLayers dag)
    ⟨rfl, fun _ _ _ => rfl, rfl⟩ hτ
  rw [hpending] at hwork
  have hsome : dag.layers.isEmpty = false := by
    rw [List.isEmpty_eq_false_iff]
    exact List.ne_nil_of_mem (hdag.listed layer hlayer)
  have hafter : (invalidate keys dag commit σ).1 = processAll keys dag commit τ := by
    unfold invalidate
    rw [if_neg (by rw [hsome]; simp), hτ]
  have hartifacts : (processAll keys dag commit τ).artifacts = (processPairs keys dag commit τ
      (pairsOf τ.scheduler.pending (iterLayers dag))).artifacts := by
    unfold DagState.artifacts
    rw [layers_processAll]
  obtain ⟨input, hash, hresolve, hready⟩ := hprepared layer hlayer id hid hnode happlies
  refine ⟨input, hash, ?_, ?_⟩
  · rw [hafter]
    refine resolveInput_mono (fun name key artifact h => ?_) hresolve
    rw [hartifacts]
    refine artifacts_processPairs ?_
    rw [hkept.artifacts]
    exact h
  · unfold Bound
    rw [hafter, hartifacts, layers_processAll]
    exact bound_of_ready hdag hsucceeds hkept hwork hlayer hid hnode happlies hresolve hready

/-- A quiet commit leaves no work. -/
theorem pending_invalidate (hpending : σ.scheduler.pending = []) (hquiet : Quiet keys dag commit σ) :
    (invalidate keys dag commit σ).1.scheduler.pending = [] := by
  obtain ⟨τ, hτ⟩ := @invalidateLayers_quiet keys dag commit σ σ hquiet (iterLayers dag)
    (fun _ h => h) ⟨rfl, fun _ _ _ => rfl, rfl⟩
  unfold invalidate
  split_ifs
  · exact hpending
  · rw [hτ]
    dsimp only
    unfold processAll
    split_ifs with hempty
    · exact List.isEmpty_iff.mp hempty
    · rfl

/-- Work that does not wait leaves the scheduler its items. -/
theorem pending_recomputeNow {producers : Producers} {snap : Snapshot} {layer : DerivedLayer}
    {id : String} {made : Option Bytes} {σ' : DagState}
    (h : recomputeNow keys producers dag σ snap layer id = .ok (made, σ')) :
    σ'.scheduler.pending = σ.scheduler.pending := by
  obtain ⟨input, hash, -, ⟨_, _, -, -, -, heq⟩ | ⟨-, ⟨_, -, -, heq⟩ | ⟨-, heq⟩ | ⟨-, heq⟩⟩⟩ :=
    recomputeNow_cases h
  · rw [heq]
    rfl
  · rw [heq]
    rfl
  · rw [heq]
  · rw [heq]
    rfl

/-- A read gives the scheduler no work. -/
theorem pending_derived {producers : Producers} {snap : Snapshot} {name id : String} :
    (derived keys producers dag σ snap name id).2.1.scheduler.pending = σ.scheduler.pending := by
  unfold derived
  split_ifs
  · rfl
  · cases dag.layer name with
    | error e => rfl
    | ok layer =>
      dsimp only
      unfold derivedOf
      by_cases htraced : layer.isTraced = true
      · rw [if_pos htraced]
        rfl
      · rw [if_neg htraced]
        cases resolve keys dag σ snap layer id with
        | error e => rfl
        | ok input =>
          dsimp only
          cases (σ.layers layer.name).store.lookup (layer.storeKey input.2) with
          | some artifact => rfl
          | none =>
            dsimp only
            by_cases hserving : layer.serving = "stale"
            · rw [if_pos hserving]
            · rw [if_neg hserving]
              cases hmade : recomputeNow keys producers dag σ snap layer id with
              | error e => rfl
              | ok found =>
                obtain ⟨made, σ'⟩ := found
                cases made with
                | none => exact pending_recomputeNow hmade
                | some artifact => exact pending_recomputeNow hmade

/-- The worker gives the scheduler no work. -/
theorem pending_recomputeOne {producers : Producers} {pin : ℕ → Option Snapshot} {subscribed : Bool}
    {name id : String} {revision : ℕ} :
    (recomputeOne keys producers dag pin subscribed σ name id revision).1.scheduler.pending =
      σ.scheduler.pending := by
  unfold recomputeOne
  cases pin revision with
  | none => rfl
  | some snap =>
    dsimp only
    split_ifs
    · rfl
    · cases dag.layer name with
      | error e => rfl
      | ok layer =>
        dsimp only
        by_cases htraced : layer.isTraced = true
        · rw [if_pos htraced]
          cases derivedTraced keys producers snap layer (σ.layers layer.name) id .produce with
          | mk s reply =>
            cases reply with
            | conflict key => rfl
            | value artifact status => rfl
        · rw [if_neg htraced]
          cases hmade : recomputeNow keys producers dag σ snap layer id with
          | error e => rfl
          | ok found => exact pending_recomputeNow hmade

end Steps

/-! ## Runs -/

/-- What happens to the derived layers of a session. -/
inductive Step where
  | commit (commit : Commit)
  | read (snap : Snapshot) (name id : String) (producers : Producers)
  /-- The worker works on one value. -/
  | work (pin : ℕ → Option Snapshot) (subscribed : Bool) (name id : String) (revision : ℕ)
    (producers : Producers)
  /-- An artifact of a layer is collected. -/
  | collect (name key : String)

section Runs

variable (keys : Keying) (dag : DerivationDAG)

/-- The state after a step. -/
def takeStep (σ : DagState) : Step → DagState
  | .commit commit => (invalidate keys dag commit σ).1
  | .read snap name id producers => (derived keys producers dag σ snap name id).2.1
  | .work pin subscribed name id revision producers =>
    (recomputeOne keys producers dag pin subscribed σ name id revision).1
  | .collect name key =>
    σ.setLayer name { σ.layers name with store := (σ.layers name).store.erase key }

/-- A commit raises nothing, and when its producers succeed its entities are
ready. -/
def Meets (σ : DagState) : Step → Prop
  | .commit commit => Quiet keys dag commit σ ∧
      (Succeeds commit.producers → Prepared keys dag commit σ)
  | .read _ _ _ _ | .work _ _ _ _ _ _ | .collect _ _ => True

/-- The layers are complete after a commit whose producers succeed. -/
def CompleteAfter (σ : DagState) : Step → Prop
  | .commit commit => Succeeds commit.producers →
      Complete keys dag commit (takeStep keys dag σ (.commit commit))
  | .read _ _ _ _ | .work _ _ _ _ _ _ | .collect _ _ => True

variable {keys dag}

theorem pending_takeStep {σ : DagState} (hpending : σ.scheduler.pending = []) {step : Step}
    (hmeets : Meets keys dag σ step) : (takeStep keys dag σ step).scheduler.pending = [] := by
  cases step with
  | commit commit => exact pending_invalidate hpending hmeets.1
  | read snap name id producers =>
    rw [← hpending]
    exact pending_derived
  | work pin subscribed name id revision producers =>
    rw [← hpending]
    exact pending_recomputeOne
  | collect name key => exact hpending

/-- In a run of commits, reads, work of the worker and collections in which no
commit raises and the dirty entities are ready at every commit, the eager
layers are complete after every commit whose producers succeed. -/
theorem eager_complete (hdag : EagerDag dag) {σ : DagState} (hpending : σ.scheduler.pending = [])
    (steps : List Step) (h : Along (takeStep keys dag) (Meets keys dag) σ steps) :
    Along (takeStep keys dag) (CompleteAfter keys dag) σ steps := by
  induction steps generalizing σ with
  | nil => trivial
  | cons step steps ih =>
    obtain ⟨hmeets, hrest⟩ := h
    refine ⟨?_, ih (pending_takeStep hpending hmeets) hrest⟩
    cases step with
    | commit commit =>
      intro hsucceeds
      exact complete_invalidate hdag hpending hmeets.1 hsucceeds (hmeets.2 hsucceeds)
    | read snap name id producers => trivial
    | work pin subscribed name id revision producers => trivial
    | collect name key => trivial

end Runs

/-! ## One function, and two that read alike -/

/-- A layer that is worked on at every commit. -/
def summaryLayer : DerivedLayer where
  name := "summary"
  dependsOn := ["code"]
  generatorVersion := "1"
  hashProfile := "structure"
  serving := "stale"
  recompute := "eager"
  keyLocality := .local_
  entityKinds := none

/-- The layer alone. -/
def summaryDag : DerivationDAG :=
  ⟨[summaryLayer], (∅ : FMap String DerivedLayer).insert "summary" summaryLayer, ["summary"]⟩

/-- The only layer is eager and not traced. -/
theorem eagerDag_summary : EagerDag summaryDag := by
  have hlayers : iterLayers summaryDag = [summaryLayer] := rfl
  refine ⟨fun name layer hlayer => ?_, ?_, ?_, ?_⟩
  · dsimp only [summaryDag] at hlayer
    rw [lookup_insert_ite] at hlayer
    split_ifs at hlayer with hname
    · rw [hname, ← Option.some.inj hlayer]
      rfl
    · rw [Finmap.lookup_empty] at hlayer
      cases hlayer
  · rw [hlayers]
    simp [summaryDag]
  · rw [hlayers]
    simp [summaryLayer]
  · rw [hlayers]
    simp [summaryLayer, DerivedLayer.isTraced]

/-- Two functions with the same text. -/
def twinFunctions : Snapshot where
  graph := { symbols := ((∅ : FMap String SymbolNode).insert "f"
               (TracedReads.functionNode "1" TracedReads.decimal_one)).insert "g"
               (TracedReads.functionNode "1" TracedReads.decimal_one)
             uses := ∅
             known := by simp }
  entitySource := fun _ => ""

/-- A commit to a head whose producers all give the same artifact. -/
def commitOf (snap : Snapshot) (dirty : Finset String) : Commit :=
  ⟨snap, dirty, ∅, by simp, alike (.artifact [1])⟩

/-- A commit of one function leaves it with its artifact. -/
theorem function_complete :
    Complete plainKeying summaryDag (commitOf oneFunction {"f"})
      (takeStep plainKeying summaryDag emptyState (.commit (commitOf oneFunction {"f"}))) := by
  have hresolve : ∃ input, resolve plainKeying summaryDag emptyState oneFunction summaryLayer "f" =
      .ok (input, "1") := ⟨_, rfl⟩
  obtain ⟨input, hinput⟩ := hresolve
  have hlayers : iterLayers summaryDag = [summaryLayer] := rfl
  have hsucceeds : Succeeds (commitOf oneFunction {"f"}).producers := fun _ _ _ _ => ⟨[1], rfl⟩
  have hquiet : Quiet plainKeying summaryDag (commitOf oneFunction {"f"}) emptyState := by
    intro layer hlayer id hid _ e he
    rw [hlayers, List.mem_singleton] at hlayer
    rw [hlayer, Finset.mem_singleton.mp hid] at he
    cases hinput.symm.trans he
  have hprepared : Prepared plainKeying summaryDag (commitOf oneFunction {"f"}) emptyState := by
    intro layer hlayer id hid _ _
    rw [hlayers, List.mem_singleton] at hlayer
    rw [hlayer, Finset.mem_singleton.mp hid]
    refine ⟨input, "1", hinput, .inr ⟨by decide +kernel, by decide +kernel, ?_, ?_⟩⟩
    · decide +kernel
    · intro existing hexisting
      cases hexisting
  exact (eager_complete eagerDag_summary rfl [.commit (commitOf oneFunction {"f"})]
    ⟨⟨hquiet, fun _ => hprepared⟩, trivial⟩).1 hsucceeds

/-- Of two functions with one hash only the first is worked on, and a commit
leaves the second without its artifact. -/
theorem twin_incomplete :
    EagerDag summaryDag ∧ Succeeds (commitOf twinFunctions {"f", "g"}).producers ∧
    ¬ Along (takeStep plainKeying summaryDag) (CompleteAfter plainKeying summaryDag) emptyState
      [.commit (commitOf twinFunctions {"f", "g"})] := by
  have hsucceeds : Succeeds (commitOf twinFunctions {"f", "g"}).producers :=
    fun _ _ _ _ => ⟨[1], rfl⟩
  refine ⟨eagerDag_summary, hsucceeds, fun hall => ?_⟩
  obtain ⟨input, hash, -, hbinding, -⟩ := hall.1 hsucceeds summaryLayer List.mem_cons_self "g"
    (by decide) (by decide +kernel) (by decide +kernel)
  have hunbound : ((takeStep plainKeying summaryDag emptyState
      (.commit (commitOf twinFunctions {"f", "g"}))).layers "summary").bindings.lookup "g" =
        none := by
    decide +kernel
  cases hunbound.symm.trans hbinding

end Tyo3.EagerLayers
