import Tyo3.DriftedKeys
import Tyo3.SnapshotDiffs

/-!
# Catching up after eviction

A subscriber that lost deltas asks for the diff between the last revision it
read and the head. When that revision is evicted, the diff is taken from an
earlier one whose number is computed from the head and the cap. That number
lies one below the window of retained revisions, so as soon as the window is
full the diff of the head with itself is returned instead, and it is empty.
-/

namespace Tyo3.RescanBaselines

open AuthoredHistory CodeDiffs CodeLayer CommitAtomicity CommitFunnel CommitPlan ContentStore
  DerivedLayers Entities FiniteMaps GraphNodes IdentityAnchors JsonValues KeyedChanges
  PinnedIdentity ProjectSessions RetainedRevisions Runs SessionRegistries SnapshotDiffs Snapshots

open DriftedKeys.DerivedLayerView (LayerDiff)

/-- A snapshot of the session. -/
abbrev Pinned := Snapshots.Snapshot

/-! ## Diffs of snapshots -/

/-- No id and no edge differs. -/
def isEmptyCode (diff : CodeDiff) : Bool :=
  decide (diff.added = ∅ ∧ diff.removed = ∅ ∧ diff.changed = ∅ ∧ diff.moved = ∅ ∧
    diff.edgesAdded = ∅ ∧ diff.edgesRemoved = ∅)

/-- No id of a derived layer differs. -/
def isEmptyLayer (diff : LayerDiff) : Bool :=
  decide (diff.added = ∅ ∧ diff.removed = ∅ ∧ diff.drifted = ∅)

/-- What changed in an authored layer. -/
structure AuthoredDiff where
  /-- Name of the layer. -/
  layer : String
  /-- Ids with a record at the later revision only. -/
  added : Finset DurableId
  /-- Ids with another value or another revision of it. -/
  changed : Finset DurableId
  /-- Ids with another status. -/
  reviewChanged : Finset DurableId
  /-- Ids with a record at the earlier revision only. -/
  removed : Finset DurableId

/-- No id of an authored layer differs. -/
def isEmptyAuthored (diff : AuthoredDiff) : Bool :=
  decide (diff.added = ∅ ∧ diff.changed = ∅ ∧ diff.reviewChanged = ∅ ∧ diff.removed = ∅)

/-- The diff of all layers. -/
structure SnapshotDiff where
  /-- Revision it starts from. -/
  beforeRevision : Revision
  /-- Revision it ends at. -/
  afterRevision : Revision
  /-- The code. -/
  code : CodeDiff
  /-- The derived layers, in dependency order. -/
  derived : List LayerDiff
  /-- The authored layers with a change. -/
  authored : List AuthoredDiff

/-- Nothing differs in any layer. -/
def SnapshotDiff.isEmpty (diff : SnapshotDiff) : Bool :=
  isEmptyCode diff.code && diff.derived.all isEmptyLayer && diff.authored.all isEmptyAuthored

/-- The entities that a derived layer applies to. -/
def derivedIds (cfg : LayerConfig) (g : Layer) : Finset DurableId :=
  (entityIds g).filter fun id => cfg.entityKinds = [] ∨
    ∃ node ∈ entityNode g id, symbolKindStr node.kind ∈ cfg.entityKinds

/-- The hash that the view of a derived layer compares. An empty hash counts
as a missing one. -/
def cacheKey (profile : String) (g : Layer) (id : DurableId) : Option String :=
  match g.nodes.lookup id with
  | none => none
  | some node => ((node.contentHashes.lookup profile).filter (· ≠ "")).or node.contentHash

/-- The diff of a derived layer. -/
def derivedDiff (name : String) (cfg : LayerConfig) (after before : Layer) : LayerDiff :=
  let profile := orElse cfg.hashProfile "structure"
  { layer := name
    added := derivedIds cfg after \ derivedIds cfg before
    removed := derivedIds cfg before \ derivedIds cfg after
    drifted := (derivedIds cfg after ∩ derivedIds cfg before).filter fun id =>
      cacheKey profile after id ≠ cacheKey profile before id }

section Computing

variable (crates : Crates) (engine : Engine)

/-- The entities with a record of an authored layer: those that do not read as
absent. -/
def authoredIds (s : Pinned) (layer : String) : Finset DurableId :=
  (entityIds (graph crates engine s)).filter fun id => (s.authoredValue layer id).status ≠ "absent"

/-- The diff of an authored layer. -/
def computeAuthoredDiff (after before : Pinned) (layer : String) : AuthoredDiff :=
  let afterIds := authoredIds crates engine after layer
  let beforeIds := authoredIds crates engine before layer
  { layer := layer
    added := afterIds \ beforeIds
    changed := (afterIds ∩ beforeIds).filter fun id =>
      (after.authoredValue layer id).revision ≠ (before.authoredValue layer id).revision ∨
        (after.authoredValue layer id).value ≠ (before.authoredValue layer id).value
    reviewChanged := (afterIds ∩ beforeIds).filter fun id =>
      (after.authoredValue layer id).status ≠ (before.authoredValue layer id).status
    removed := beforeIds \ afterIds }

/-- The declared layers of an origin, in the order of a list of names. -/
def layersOf (cfg : TyConfig) (origin : String) (names : List String) :
    List (String × LayerConfig) :=
  names.filterMap fun name => ((cfg.layers.lookup name).filter fun lcfg =>
    lcfg.origin = origin).map (Prod.mk name)

variable (cfg : TyConfig)

/-- The diff of two snapshots. -/
def compute (after before : Pinned) : Except String SnapshotDiff :=
  if before.revision > after.revision then
    .error ("before.revision (" ++ toString before.revision ++ ") > after.revision (" ++
      toString after.revision ++ ")")
  else
    .ok
      { beforeRevision := before.revision
        afterRevision := after.revision
        code := computeCodeDiff (graph crates engine after) (graph crates engine before)
        derived := (layersOf cfg "derived" cfg.topoOrder).map fun (name, lcfg) =>
          derivedDiff name lcfg (graph crates engine after) (graph crates engine before)
        authored := ((layersOf cfg "authored" (HashOrder.increasing.order cfg.layers.keys)).map
          fun (name, _) => computeAuthoredDiff crates engine after before name).filter
            fun diff => !isEmptyAuthored diff }

/-! ## Catching up -/

/-- The diff of the head with a revision, if that revision is retained. -/
def diffFrom (head : HeadState) (revision : Revision) : Except String SnapshotDiff :=
  match snapshot head (some revision) with
  | .error e => .error e
  | .ok before => compute crates engine cfg (headSnapshot head) before

/-- Catch up with the head from the last revision that was read. Every error
falls through to the next baseline: the revision below the head by the cap,
then the head itself. -/
def rescanFrom (head : HeadState) (lastSeen : Option Revision) : Except String SnapshotDiff :=
  match lastSeen.bind fun revision => (diffFrom crates engine cfg head revision).toOption with
  | some diff => .ok diff
  | none =>
    -- natural subtraction is the maximum with zero
    let earliest := head.store.revision - head.store.retainCap
    match (if earliest < head.store.revision then
        (diffFrom crates engine cfg head earliest).toOption else none) with
    | some diff => .ok diff
    | none => compute crates engine cfg (headSnapshot head) (headSnapshot head)

end Computing

/-! ## Empty diffs -/

/-- What a code diff compares of an id. -/
def shownNode (g : Layer) (id : DurableId) : Option (Option String × String × String) :=
  (entityNode g id).map fun node => (node.contentHash, node.file, node.qualifiedName)

/-- What the diff of a derived layer compares of an id. -/
def derivedReading (cfg : LayerConfig) (g : Layer) (id : DurableId) : Option (Option String) :=
  if id ∈ derivedIds cfg g then some (cacheKey (orElse cfg.hashProfile "structure") g id) else none

/-- What the diff of an authored layer compares of an id. -/
def authoredReading (crates : Crates) (engine : Engine) (s : Pinned) (layer : String)
    (id : DurableId) : Option (Revision × Option Json × String) :=
  if id ∈ authoredIds crates engine s layer then
    some ((s.authoredValue layer id).revision, (s.authoredValue layer id).value,
      (s.authoredValue layer id).status)
  else none

/-- A conditional value is there exactly under its condition. -/
theorem mem_iff_exists_ite {ι κ : Type*} [DecidableEq ι] {A : Finset ι} {f : ι → κ} (i : ι) :
    i ∈ A ↔ ∃ k, (if i ∈ A then some (f i) else none) = some k := by
  by_cases hi : i ∈ A
  · exact iff_of_true hi ⟨f i, if_pos hi⟩
  · refine iff_of_false hi fun ⟨k, hk⟩ => ?_
    rw [if_neg hi] at hk
    cases hk

theorem mem_derivedIds {cfg : LayerConfig} {g : Layer} (id : DurableId) :
    id ∈ derivedIds cfg g ↔ ∃ key, derivedReading cfg g id = some key := mem_iff_exists_ite id

theorem mem_authoredIds {crates : Crates} {engine : Engine} {s : Pinned} {layer : String}
    (id : DurableId) :
    id ∈ authoredIds crates engine s layer ↔
      ∃ read, authoredReading crates engine s layer id = some read := by
  unfold authoredReading
  exact @mem_iff_exists_ite _ _ _ _ (fun id => ((s.authoredValue layer id).revision,
    (s.authoredValue layer id).value, (s.authoredValue layer id).status)) id

theorem mem_entityIds_iff_shown {g : Layer} (id : DurableId) :
    id ∈ entityIds g ↔ ∃ shown, shownNode g id = some shown := by
  rw [mem_entityIds]
  unfold shownNode
  cases entityNode g id with
  | none => simp
  | some node => simp

/-- A code diff is empty when the graphs show the same entities and edges. -/
theorem isEmptyCode_iff (after before : Layer) :
    isEmptyCode (computeCodeDiff after before) = true ↔
      (∀ id, shownNode after id = shownNode before id) ∧ edgeSet after = edgeSet before := by
  have hcommon : (∀ id ∈ entityIds after ∩ entityIds before,
      shownNode after id = shownNode before id) ↔
      (computeCodeDiff after before).changed = ∅ ∧ (computeCodeDiff after before).moved = ∅ := by
    unfold computeCodeDiff
    dsimp only
    rw [Finset.filter_eq_empty_iff, Finset.filter_eq_empty_iff, ← forall₂_and]
    refine forall₂_congr fun id hid => ?_
    obtain ⟨a, ha⟩ := mem_entityIds.mp (Finset.mem_inter.mp hid).1
    obtain ⟨b, hb⟩ := mem_entityIds.mp (Finset.mem_inter.mp hid).2
    unfold shownNode compareNodes
    rw [ha, hb]
    simp only [Option.map_some, Option.some.injEq, Prod.mk.injEq, decide_eq_true_eq]
    tauto
  have hedges : edgeSet after = edgeSet before ↔
      edgeSet after \ edgeSet before = ∅ ∧ edgeSet before \ edgeSet after = ∅ := by
    rw [Finset.sdiff_eq_empty_iff_subset, Finset.sdiff_eq_empty_iff_subset]
    exact ⟨fun h => ⟨h.subset, h.symm.subset⟩, fun h => h.1.antisymm h.2⟩
  rw [forall_eq_iff_of_keys mem_entityIds_iff_shown mem_entityIds_iff_shown, hcommon, hedges]
  unfold isEmptyCode
  rw [decide_eq_true_eq]
  unfold computeCodeDiff
  dsimp only
  tauto

/-- The diff of a derived layer is empty when the graphs read the same. -/
theorem isEmptyLayer_iff (name : String) (cfg : LayerConfig) (after before : Layer) :
    isEmptyLayer (derivedDiff name cfg after before) = true ↔
      ∀ id, derivedReading cfg after id = derivedReading cfg before id := by
  have hcommon : (∀ id ∈ derivedIds cfg after ∩ derivedIds cfg before,
      derivedReading cfg after id = derivedReading cfg before id) ↔
      (derivedDiff name cfg after before).drifted = ∅ := by
    unfold derivedDiff
    dsimp only
    rw [Finset.filter_eq_empty_iff]
    refine forall₂_congr fun id hid => ?_
    unfold derivedReading
    rw [if_pos (Finset.mem_inter.mp hid).1, if_pos (Finset.mem_inter.mp hid).2, Option.some_inj,
      not_not]
  rw [forall_eq_iff_of_keys mem_derivedIds mem_derivedIds, hcommon]
  unfold isEmptyLayer
  rw [decide_eq_true_eq]
  rfl

/-- The diff of an authored layer is empty when the snapshots read the same. -/
theorem isEmptyAuthored_iff (crates : Crates) (engine : Engine) (after before : Pinned)
    (layer : String) :
    isEmptyAuthored (computeAuthoredDiff crates engine after before layer) = true ↔
      ∀ id, authoredReading crates engine after layer id =
        authoredReading crates engine before layer id := by
  have hcommon : (∀ id ∈ authoredIds crates engine after layer ∩
        authoredIds crates engine before layer,
      authoredReading crates engine after layer id =
        authoredReading crates engine before layer id) ↔
      (computeAuthoredDiff crates engine after before layer).changed = ∅ ∧
        (computeAuthoredDiff crates engine after before layer).reviewChanged = ∅ := by
    unfold computeAuthoredDiff
    dsimp only
    rw [Finset.filter_eq_empty_iff, Finset.filter_eq_empty_iff, ← forall₂_and]
    refine forall₂_congr fun id hid => ?_
    unfold authoredReading
    rw [if_pos (Finset.mem_inter.mp hid).1, if_pos (Finset.mem_inter.mp hid).2, Option.some_inj,
      Prod.mk.injEq, Prod.mk.injEq]
    tauto
  rw [forall_eq_iff_of_keys mem_authoredIds mem_authoredIds, hcommon]
  unfold isEmptyAuthored
  rw [decide_eq_true_eq]
  unfold computeAuthoredDiff
  dsimp only
  tauto

section Baselines

variable (crates : Crates) (engine : Engine) (cfg : TyConfig)

/-- Nothing differs between two snapshots: the entities with their hashes and
places, the edges, and what every derived and authored layer reads. -/
structure Same (after before : Pinned) : Prop where
  /-- The entities. -/
  entities : ∀ id, shownNode (graph crates engine after) id = shownNode (graph crates engine before) id
  /-- The edges. -/
  edges : edgeSet (graph crates engine after) = edgeSet (graph crates engine before)
  /-- The derived layers. -/
  derived : ∀ layer ∈ layersOf cfg "derived" cfg.topoOrder, ∀ id,
    derivedReading layer.2 (graph crates engine after) id =
      derivedReading layer.2 (graph crates engine before) id
  /-- The authored layers. -/
  authored : ∀ layer ∈ layersOf cfg "authored" (HashOrder.increasing.order cfg.layers.keys), ∀ id,
    authoredReading crates engine after layer.1 id = authoredReading crates engine before layer.1 id

variable {crates engine cfg}

/-- A computed diff is empty exactly when nothing differs. -/
theorem isEmpty_compute {after before : Pinned} {diff : SnapshotDiff}
    (h : compute crates engine cfg after before = .ok diff) :
    diff.isEmpty = true ↔ Same crates engine cfg after before := by
  unfold compute at h
  split at h
  · cases h
  · cases h
    unfold SnapshotDiff.isEmpty
    dsimp only
    have hfilter : ∀ diffs : List AuthoredDiff,
        (diffs.filter fun diff => !isEmptyAuthored diff).all isEmptyAuthored =
          diffs.all isEmptyAuthored := by
      intro diffs
      rw [List.all_filter]
      refine congrArg diffs.all (funext fun diff => ?_)
      cases isEmptyAuthored diff <;> rfl
    rw [hfilter, Bool.and_eq_true, Bool.and_eq_true, isEmptyCode_iff, List.all_map, List.all_map,
      List.all_eq_true, List.all_eq_true]
    simp only [Function.comp_apply, isEmptyLayer_iff, isEmptyAuthored_iff]
    exact ⟨fun h => ⟨h.1.1.1, h.1.1.2, h.1.2, h.2⟩,
      fun h => ⟨⟨⟨h.entities, h.edges⟩, h.derived⟩, h.authored⟩⟩

/-- A diff of the head with a snapshot that the session pins. It is empty only
if nothing differs between the two. -/
structure Compares (crates : Crates) (engine : Engine) (cfg : TyConfig) (head : HeadState)
    (before : Pinned) (diff : SnapshotDiff) : Prop where
  /-- The session pins the snapshot. -/
  pinned : ∃ revision, snapshot head revision = .ok before
  /-- The diff starts from its revision. -/
  beforeRevision : diff.beforeRevision = before.revision
  /-- The diff ends at the head. -/
  afterRevision : diff.afterRevision = head.store.revision
  /-- An empty diff means that nothing differs. -/
  empty : diff.isEmpty = true → Same crates engine cfg (headSnapshot head) before

/-- A diff that reports everything starts from revision zero, where nothing
existed, and has all entities of the head as added. -/
def ReportsEverything (crates : Crates) (engine : Engine) (head : HeadState)
    (diff : SnapshotDiff) : Prop :=
  diff.beforeRevision = 0 ∧
    diff.code.added = entityIds (graph crates engine (headSnapshot head))

/-- What a subscriber that catches up is owed: the diff with the revision it
read last while that one is retained, else the diff with the oldest retained
revision or a report of everything. -/
structure CatchesUp (crates : Crates) (engine : Engine) (cfg : TyConfig) (head : HeadState)
    (lastSeen : Option Revision) (diff : SnapshotDiff) : Prop where
  /-- The last revision is retained. -/
  retained : ∀ revision, lastSeen = some revision → head.store.generationAt revision ≠ none →
    ∃ before, before.revision = revision ∧ Compares crates engine cfg head before diff
  /-- The last revision is evicted, or there is none. -/
  evicted : (∀ revision, lastSeen = some revision → head.store.generationAt revision = none) →
    (∃ before, before.revision = head.store.oldestRetained ∧
      Compares crates engine cfg head before diff) ∨ ReportsEverything crates engine head diff

/-- A diff with a pinned snapshot that is not ahead of the head. -/
theorem compares_of_pinned {head : HeadState} {revision : Option Revision} {before : Pinned}
    (hpin : snapshot head revision = .ok before) (hle : before.revision ≤ head.store.revision) :
    ∃ diff, compute crates engine cfg (headSnapshot head) before = .ok diff ∧
      Compares crates engine cfg head before diff := by
  have hahead : ¬before.revision > (headSnapshot head).revision := not_lt.mpr hle
  have hcompute : ∃ diff, compute crates engine cfg (headSnapshot head) before = .ok diff ∧
      diff.beforeRevision = before.revision ∧ diff.afterRevision = head.store.revision := by
    unfold compute
    rw [if_neg hahead]
    exact ⟨_, rfl, rfl, rfl⟩
  obtain ⟨diff, hdiff, hbefore, hafter⟩ := hcompute
  exact ⟨diff, hdiff, ⟨revision, hpin⟩, hbefore, hafter, (isEmpty_compute hdiff).mp⟩

/-- The diff with a retained revision. -/
theorem diffFrom_retained {head : HeadState} (hdated : Dated head.store) {revision : Revision}
    (hkept : head.store.generationAt revision ≠ none) :
    ∃ diff before, diffFrom crates engine cfg head revision = .ok diff ∧
      before.revision = revision ∧ Compares crates engine cfg head before diff := by
  obtain ⟨generation, hgeneration⟩ := Option.ne_none_iff_exists'.mp hkept
  have hpin : snapshot head (some revision) = .ok (pin head generation revision none false) := by
    simp only [snapshot, hgeneration]
  obtain ⟨diff, hdiff, hcompares⟩ := @compares_of_pinned crates engine cfg head _ _ hpin
    (hdated.past revision generation hgeneration)
  refine ⟨diff, _, ?_, rfl, hcompares⟩
  unfold diffFrom
  rw [hpin]
  exact hdiff

/-- There is no diff with an evicted revision. -/
theorem diffFrom_evicted {head : HeadState} {revision : Revision}
    (hgone : head.store.generationAt revision = none) :
    (diffFrom crates engine cfg head revision).toOption = none := by
  unfold diffFrom snapshot
  dsimp only
  rw [hgone]
  rfl

end Baselines

/-! ## The window of a session -/

/-- What a session keeps of its store: the window, for a positive cap, and a
head above revision zero. -/
structure Kept (s : Store) : Prop where
  /-- The window. -/
  window : 1 ≤ s.retainCap → Windowed s
  /-- Opening has published a revision. -/
  opened : 1 ≤ s.revision

/-- A publication keeps it. -/
theorem Kept.publishes {s s' : Store} (hp : Publishes s s') (h : Kept s) : Kept s' := by
  refine ⟨fun hcap => ?_, ?_⟩
  · rw [hp.cap] at hcap
    exact (hp.windowed hcap (h.window hcap)).1
  · rw [hp.revision]
    exact Nat.le_add_left 1 s.revision

/-- The store of every head of a session. -/
theorem kept_of_reachable {crates : Crates} {head : HeadState} (h : Reachable crates head) :
    Kept head.store := by
  induction h with
  | opened hopen =>
    rw [store_openHead hopen]
    have hpublishes : ∀ (s : Store) changes, Publishes s (s.applyBatch changes) :=
      fun s changes => ⟨rfl, rfl, rfl⟩
    refine ⟨fun hcap => ?_, Nat.le_add_left 1 0⟩
    unfold Store.ingestProject at hcap ⊢
    rw [(hpublishes _ _).cap] at hcap
    exact ((hpublishes _ _).windowed hcap (windowed_withRetainCap hcap)).1
  | step hreach a ih =>
    cases a with
    | registerAuthoredLayer name history reviewOnChange => exact ih
    | faultInject stage => exact ih
    | reload => exact ih
    | commit env m =>
      unfold Action.run
      dsimp only
      rcases store_commit crates env (inStep_of_reachable hreach) m with hp | ⟨counter, hcounter⟩
      · exact ih.publishes hp
      · rw [hcounter]
        exact ⟨fun hcap => ⟨(ih.window hcap).head, (ih.window hcap).window,
          (ih.window hcap).oldest⟩, ih.opened⟩

/-- While nothing is evicted, the revision below the head by the cap is the
lower end of the window. -/
theorem windowStart_of_lt {cap head : ℕ} (h : head < cap) : windowStart cap head = head - cap := by
  unfold windowStart
  omega

/-- Once the window is full, the revision below the head by the cap lies just
below its lower end. -/
theorem windowStart_of_le {cap head : ℕ} (h : cap ≤ head) :
    windowStart cap head = head - cap + 1 := by
  unfold windowStart
  omega

/-- The head is the lower end of a full window for a cap of one. -/
theorem windowStart_eq_head_iff {cap head : ℕ} (h : cap ≤ head) :
    windowStart cap head = head ↔ cap = 1 := by
  rw [windowStart_of_le h]
  omega

/-- A revision is retained when it lies in the window. -/
theorem generationAt_ne_none_iff {s : Store} (h : Windowed s) (revision : Revision) :
    s.generationAt revision ≠ none ↔
      s.oldestRetained ≤ revision ∧ revision < s.revision + 1 := by
  rw [Option.ne_none_iff_exists', h.oldest, ← Finset.mem_Ico, ← h.window]
  exact (mem_keys_iff _ _).symm

/-! ## The baseline -/

section Results

variable {crates : Crates} {engine : Engine} {cfg : TyConfig} {head : HeadState}
  {lastSeen : Option Revision}

/-- While the last revision is retained, it is the baseline. -/
theorem rescanFrom_retained (hdated : Dated head.store) {revision : Revision}
    (hkept : head.store.generationAt revision ≠ none) :
    ∃ diff before, rescanFrom crates engine cfg head (some revision) = .ok diff ∧
      before.revision = revision ∧ Compares crates engine cfg head before diff := by
  obtain ⟨diff, before, hdiff, hrevision, hcompares⟩ :=
    @diffFrom_retained crates engine cfg head hdated revision hkept
  refine ⟨diff, before, ?_, hrevision, hcompares⟩
  unfold rescanFrom
  rw [Option.bind_some, hdiff]
  rfl

/-- The lookup of the last revision fails when it is evicted. -/
theorem lastSeen_evicted
    (hgone : ∀ revision, lastSeen = some revision → head.store.generationAt revision = none) :
    (lastSeen.bind fun revision => (diffFrom crates engine cfg head revision).toOption) = none := by
  cases lastSeen with
  | none => rfl
  | some revision => exact diffFrom_evicted (hgone revision rfl)

/-- Otherwise a retained revision below the head by the cap is the baseline. -/
theorem rescanFrom_earliest (hdated : Dated head.store)
    (hgone : ∀ revision, lastSeen = some revision → head.store.generationAt revision = none)
    (hlt : head.store.revision - head.store.retainCap < head.store.revision)
    (hkept : head.store.generationAt (head.store.revision - head.store.retainCap) ≠ none) :
    ∃ diff before, rescanFrom crates engine cfg head lastSeen = .ok diff ∧
      before.revision = head.store.revision - head.store.retainCap ∧
      Compares crates engine cfg head before diff := by
  obtain ⟨diff, before, hdiff, hrevision, hcompares⟩ :=
    @diffFrom_retained crates engine cfg head hdated _ hkept
  refine ⟨diff, before, ?_, hrevision, hcompares⟩
  unfold rescanFrom
  rw [lastSeen_evicted hgone]
  dsimp only
  rw [if_pos hlt, hdiff]
  rfl

/-- When that revision is evicted, the head is compared with itself. -/
theorem rescanFrom_fallback
    (hgone : ∀ revision, lastSeen = some revision → head.store.generationAt revision = none)
    (hevicted : head.store.generationAt (head.store.revision - head.store.retainCap) = none) :
    ∃ diff, rescanFrom crates engine cfg head lastSeen = .ok diff ∧
      Compares crates engine cfg head (headSnapshot head) diff := by
  have hself : snapshot head none = .ok (headSnapshot head) := rfl
  obtain ⟨diff, hdiff, hcompares⟩ := @compares_of_pinned crates engine cfg head _ _ hself le_rfl
  refine ⟨diff, ?_, hcompares⟩
  unfold rescanFrom
  rw [lastSeen_evicted hgone]
  dsimp only
  rw [diffFrom_evicted hevicted, ite_self]
  exact hdiff

/-- In every session with a positive cap, catching up gives a subscriber what
it is owed exactly when its last revision is retained, or no revision was ever
evicted, or the head is the only retained revision. Otherwise the baseline
that is tried lies one below the oldest retained revision. -/
theorem rescanFrom_catchesUp_iff (h : Reachable crates head) (hcap : 1 ≤ head.store.retainCap)
    (engine : Engine) (cfg : TyConfig) (lastSeen : Option Revision) :
    (∃ diff, rescanFrom crates engine cfg head lastSeen = .ok diff ∧
      CatchesUp crates engine cfg head lastSeen diff) ↔
      (∃ revision, lastSeen = some revision ∧ head.store.generationAt revision ≠ none) ∨
        head.store.revision < head.store.retainCap ∨ head.store.retainCap = 1 := by
  have hdated := dated_of_reachable h
  have hkept := kept_of_reachable h
  have hwindow := hkept.window hcap
  have hopened := hkept.opened
  have holdest : head.store.oldestRetained =
      windowStart head.store.retainCap head.store.revision := hwindow.oldest
  by_cases hseen : ∃ revision, lastSeen = some revision ∧ head.store.generationAt revision ≠ none
  · refine iff_of_true ?_ (.inl hseen)
    obtain ⟨revision, hlast, hretained⟩ := hseen
    obtain ⟨diff, before, hdiff, hrevision, hcompares⟩ :=
      @rescanFrom_retained crates engine cfg head hdated revision hretained
    rw [hlast]
    refine ⟨diff, hdiff, ⟨fun other hother _ => ?_, fun hgone => ?_⟩⟩
    · cases hother
      exact ⟨before, hrevision, hcompares⟩
    · exact absurd (hgone revision rfl) hretained
  · have hgone : ∀ revision, lastSeen = some revision →
        head.store.generationAt revision = none := by
      intro revision hlast
      by_contra hretained
      exact hseen ⟨revision, hlast, hretained⟩
    -- what is owed without a retained last revision
    have howed : ∀ diff, CatchesUp crates engine cfg head lastSeen diff ↔
        (∃ before, before.revision = head.store.oldestRetained ∧
          Compares crates engine cfg head before diff) ∨
        ReportsEverything crates engine head diff := by
      intro diff
      refine ⟨fun hcatch => hcatch.evicted hgone, fun hcase => ⟨fun revision hlast hretained => ?_,
        fun _ => hcase⟩⟩
      exact absurd (hgone revision hlast) hretained
    rw [or_iff_right hseen]
    by_cases hfull : head.store.retainCap ≤ head.store.revision
    · have hevicted : head.store.generationAt
          (head.store.revision - head.store.retainCap) = none := by
        by_contra hretained
        have hin := ((generationAt_ne_none_iff hwindow _).mp hretained).1
        rw [holdest, windowStart_of_le hfull] at hin
        exact Nat.not_succ_le_self _ hin
      obtain ⟨diff, hdiff, hcompares⟩ :=
        @rescanFrom_fallback crates engine cfg head lastSeen hgone hevicted
      have hself : diff.beforeRevision = head.store.revision := hcompares.beforeRevision
      constructor
      · rintro ⟨found, hfound, hcatch⟩
        rw [hdiff] at hfound
        cases hfound
        rcases (howed diff).mp hcatch with ⟨before, hrevision, hbefore⟩ | hall
        · have hstart : head.store.oldestRetained = head.store.revision :=
            hrevision.symm.trans (hbefore.beforeRevision.symm.trans hself)
          rw [holdest] at hstart
          exact .inr ((windowStart_eq_head_iff hfull).mp hstart)
        · have hzero : head.store.revision = 0 := hself.symm.trans hall.1
          rw [hzero] at hopened
          exact absurd hopened (Nat.not_succ_le_zero 0)
      · intro hcase
        have hone : head.store.retainCap = 1 := hcase.resolve_left (not_lt.mpr hfull)
        refine ⟨diff, hdiff, (howed diff).mpr (.inl ⟨headSnapshot head, ?_, hcompares⟩)⟩
        rw [holdest]
        exact ((windowStart_eq_head_iff hfull).mpr hone).symm
    · have hlt : head.store.revision - head.store.retainCap < head.store.revision :=
        Nat.sub_lt hopened hcap
      have hstart := windowStart_of_lt (not_le.mp hfull)
      have hretained : head.store.generationAt
          (head.store.revision - head.store.retainCap) ≠ none := by
        refine (generationAt_ne_none_iff hwindow _).mpr ⟨?_, hlt.trans (Nat.lt_succ_self _)⟩
        rw [holdest, hstart]
      obtain ⟨diff, before, hdiff, hrevision, hcompares⟩ :=
        @rescanFrom_earliest crates engine cfg head lastSeen hdated hgone hlt hretained
      refine iff_of_true ⟨diff, hdiff, (howed diff).mpr (.inl ⟨before, ?_, hcompares⟩)⟩
        (.inl (not_le.mp hfull))
      rw [hrevision, holdest, hstart]

end Results

/-! ## A window of two revisions -/

/-- Open the note project without layers and with two retained revisions. -/
def openCapped : OpenRequest := { openProfiled with config := ⟨["code"], ∅⟩, retainCap := 2 }

/-- The runtime configuration of a project without layers. -/
def noLayers : TyConfig := ⟨∅, ["code"]⟩

/-- The head after two edits of the variable. -/
def editedHead (start : HeadState) : HeadState :=
  run (commitStep noteCrates) start [syncText "x = 100", syncText "x = 10000"]

/-- Whether the head after two edits has a cap of two, has evicted the first
revision and keeps the second one. -/
def cappedAtTwo (start : HeadState) : Bool :=
  let head := editedHead start
  decide (head.store.retainCap = 2) && decide (head.store.revision = 3) &&
    (head.store.generationAt 1).isNone && (head.store.generationAt 2).isSome &&
    decide (head.store.oldestRetained = 2)

/-- Commits lead to heads of the session. -/
theorem reachable_editedHead {start : HeadState} (h : Reachable noteCrates start) :
    Reachable noteCrates (editedHead start) :=
  (h.step (.commit _ _)).step (.commit _ _)

/-- A subscriber that read the second of three revisions last catches up. -/
theorem second_revision_catches_up :
    ∃ start, runSessions noteCrates ⟨["p"]⟩ [.open_ openCapped] = .opened start ∧
      ∃ diff, rescanFrom noteCrates profiledEngine noLayers (editedHead start) (some 2) = .ok diff ∧
        CatchesUp noteCrates profiledEngine noLayers (editedHead start) (some 2) diff := by
  have htest : opensTo cappedAtTwo (runSessions noteCrates ⟨["p"]⟩ [.open_ openCapped]) = true := by
    decide +kernel
  obtain ⟨start, hstart, hchecks⟩ := exists_of_opensTo htest
  unfold cappedAtTwo at hchecks
  simp only [Bool.and_eq_true, decide_eq_true_eq] at hchecks
  obtain ⟨⟨⟨⟨hcap, -⟩, -⟩, hsecond⟩, -⟩ := hchecks
  have hreach := reachable_editedHead (sound_runSessions hstart).1
  refine ⟨start, hstart, (rescanFrom_catchesUp_iff hreach (by rw [hcap]; decide) profiledEngine
    noLayers (some 2)).mpr (.inl ⟨2, rfl, ?_⟩)⟩
  exact Option.isSome_iff_ne_none.mp hsecond

/-- Whether catching up from the first revision is empty and starts from the
head, while the diff with the oldest retained revision has the variable as
changed. -/
def hidesEdit (start : HeadState) : Bool :=
  let head := editedHead start
  match rescanFrom noteCrates profiledEngine noLayers head (some 1),
      diffFrom noteCrates profiledEngine noLayers head 2 with
  | .ok diff, .ok full => diff.isEmpty && decide (diff.beforeRevision = 3) &&
      decide ("A" ∈ full.code.changed)
  | _, _ => false

/-- After two edits with a cap of two, the subscriber that read the first
revision last gets an empty diff, although the variable differs between the
oldest retained revision and the head. -/
theorem first_revision_hides_edit :
    ∃ start diff full, runSessions noteCrates ⟨["p"]⟩ [.open_ openCapped] = .opened start ∧
      (editedHead start).store.retainCap = 2 ∧ (editedHead start).store.oldestRetained = 2 ∧
      rescanFrom noteCrates profiledEngine noLayers (editedHead start) (some 1) = .ok diff ∧
      diff.isEmpty = true ∧
      diffFrom noteCrates profiledEngine noLayers (editedHead start) 2 = .ok full ∧
      "A" ∈ full.code.changed ∧
      ¬CatchesUp noteCrates profiledEngine noLayers (editedHead start) (some 1) diff := by
  have htest : opensTo (fun start => cappedAtTwo start && hidesEdit start)
      (runSessions noteCrates ⟨["p"]⟩ [.open_ openCapped]) = true := by decide +kernel
  obtain ⟨start, hstart, hchecks⟩ := exists_of_opensTo htest
  obtain ⟨hcapped, hhides⟩ := Bool.and_eq_true_iff.mp hchecks
  unfold cappedAtTwo at hcapped
  simp only [Bool.and_eq_true, decide_eq_true_eq] at hcapped
  obtain ⟨⟨⟨⟨hcap, -⟩, hfirst⟩, -⟩, holdest⟩ := hcapped
  unfold hidesEdit at hhides
  dsimp only at hhides
  split at hhides
  · rename_i diff full hdiff hfull
    simp only [Bool.and_eq_true, decide_eq_true_eq] at hhides
    obtain ⟨⟨hempty, hbefore⟩, hchanged⟩ := hhides
    refine ⟨start, diff, full, hstart, hcap, holdest, hdiff, hempty, hfull, hchanged, ?_⟩
    intro hcatch
    have hgone : ∀ revision, some 1 = some revision →
        (editedHead start).store.generationAt revision = none := by
      intro revision hrevision
      cases hrevision
      exact Option.isNone_iff_eq_none.mp hfirst
    rcases hcatch.evicted hgone with ⟨before, hrevision, hcompares⟩ | hall
    · have htwo : diff.beforeRevision = 2 :=
        hcompares.beforeRevision.trans (hrevision.trans holdest)
      rw [hbefore] at htwo
      exact absurd htwo (by decide)
    · have hzero : diff.beforeRevision = 0 := hall.1
      rw [hbefore] at hzero
      exact absurd hzero (by decide)
  · cases hhides

end Tyo3.RescanBaselines
