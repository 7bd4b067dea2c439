import Tyo3.CommitPlan

/-!
# The commit funnel

Every write runs as one staged transaction. The staged content is shown to
the engine, identity is reconciled, the code layer is produced and the
sidecar is written, each of which may fail; the revision is published last.
A failed commit restores what it had moved.
-/

namespace Tyo3.CommitFunnel

open AuthoredStore CodeLayer CodeLayerBuilder CommitPlan ContentStore DocumentSymbols Entities
  FiniteMaps IdentityAnchors IdentityPersistence IdentityReconciliation JsonValues SystemPaths
  TextSearch

/-! ## Reading the engine -/

/-- Python files among the indexed ones. -/
def sourceFiles (crates : Crates) (answers : Answers) : List SystemPath :=
  answers.files.filter (isPySource crates.pyExtension)

/-- The entities of one file. -/
def fileEntities (answers : Answers) (file : SystemPath) : List Entity :=
  collectEntitiesForest (answers.contentHash file) file.asStr none none
    (answers.documentSymbols file)

/-- The entities of the indexed files of a set, file by file in path order. -/
def extractEntitiesFor (crates : Crates) (answers : Answers) (files : Finset String) :
    List Entity :=
  (((sourceFiles crates answers).filter fun p => p.asStr ∈ files).insertionSort
    fun p q => p.asStr ≤ q.asStr).flatMap (fileEntities answers)

/-- The entities of the whole project. -/
def extractEntities (crates : Crates) (answers : Answers) : List Entity :=
  extractEntitiesFor crates answers ((sourceFiles crates answers).map SystemPath.asStr).toFinset

/-- What the builder of the code layer reads: the answers of the engine, the
symbols with the ids of the registry. -/
def outputs (crates : Crates) (answers : Answers) (head : HeadState) : Outputs where
  root := head.root.asStr
  files := (sourceFiles crates answers).map SystemPath.asStr
  symbols native :=
    ((sourceFiles crates answers).find? fun p => p.asStr = native).map fun p =>
      collectSymbolsForest
        { filePath := native
          registry := head.registry
          rangeOf := answers.rangeOf p
          profileHashes := answers.profileHashes p
          profiles := head.hashProfiles
          defaultProfile := head.defaultHashProfile } none none (answers.documentSymbols p)
  occurrences := answers.occurrences
  gotoDefinition := answers.gotoDefinition
  supertypes := answers.supertypes

/-! ## Identity delta -/

/-- A move: the same id at another path. -/
structure MovedBinding where
  /-- The id. -/
  id : DurableId
  /-- Path before. -/
  oldQualifiedPath : String
  /-- Path after. -/
  newQualifiedPath : String
  /-- File before. -/
  oldFile : String
  /-- File after. -/
  newFile : String
  deriving DecidableEq, Repr

/-- The classes of ids of one reconciliation. -/
structure ReconcileClasses where
  /-- Minted ids. -/
  created : List DurableId
  /-- Ids whose hash changed. -/
  changed : List DurableId
  /-- Retired ids. -/
  deleted : List DurableId
  /-- Moves. -/
  moved : List MovedBinding
  deriving DecidableEq, Repr

/-- The file part of a qualified path. -/
def fileOfQualifiedPath (qualifiedPath : String) : String :=
  ((splitOnce "::" qualifiedPath).map Prod.fst).getD qualifiedPath

/-- Classify one binding. An exact or structural binding counts as a change
only when the hash differs. -/
def classifyBinding (byPath : FMap String Entity) (classes : ReconcileClasses)
    (cell : String × Binding) : ReconcileClasses :=
  let entity := byPath.lookup cell.1
  match cell.2 with
  | .minted id => { classes with created := classes.created ++ [id] }
  | .exact id oldHash | .struct id _ oldHash =>
    if entity.map Entity.contentHash ≠ some oldHash then
      { classes with changed := classes.changed ++ [id] }
    else classes
  | .moved id oldPath _ =>
    { classes with moved := classes.moved ++ [
      { id := id
        oldQualifiedPath := oldPath
        newQualifiedPath := cell.1
        oldFile := fileOfQualifiedPath oldPath
        newFile := (entity.map Entity.file).getD (fileOfQualifiedPath cell.1) }] }

/-- Classify the bindings of a reconciliation. -/
def classify (recon : Reconciliation) (entities : List Entity) : ReconcileClasses :=
  let byPath := entities.foldl (fun m e => m.insert e.qualifiedPath e) (∅ : FMap String Entity)
  recon.bindings.foldl (classifyBinding byPath) ⟨[], [], recon.retired, []⟩

/-- The ids with a record in an authored layer that asks for review. -/
def monitoredIds (config : ValidatedConfig) (authored : AuthoredMap) : Finset String :=
  config.topoOrder.foldl (fun monitored name =>
    match config.layers.lookup name with
    | some cfg =>
      if cfg.origin = .authored ∧ cfg.reviewOnChange = true then
        monitored ∪ idsInLayer authored name
      else monitored
    | none => monitored) ∅

/-- The monitored ones of two lists of ids. -/
def computeAuthoredLifecycle (config : ValidatedConfig) (authored : AuthoredMap)
    (nrIds orphIds : List DurableId) : List DurableId × List DurableId :=
  (nrIds.filter fun id => id ∈ monitoredIds config authored,
    orphIds.filter fun id => id ∈ monitoredIds config authored)

/-- What a commit says about ids. -/
structure IdentityDelta where
  /-- Minted ids. -/
  createdIds : List DurableId
  /-- Ids whose hash changed. -/
  changedIds : List DurableId
  /-- Retired ids. -/
  deletedIds : List DurableId
  /-- Moves. -/
  moved : List MovedBinding
  /-- Changed and deleted ids with everything that depends on them. -/
  affectedIds : List DurableId
  /-- Files of the affected ids. -/
  affectedFiles : List String
  /-- Ids flagged for review. -/
  needsReview : List DurableId
  /-- Retired ids. -/
  orphaned : List DurableId
  /-- Number of extracted entities. -/
  extracted : ℕ
  /-- Number of scoped files. -/
  scopeFiles : ℕ
  /-- Flagged ids with a monitored record. -/
  authoredNeedsReview : List DurableId
  /-- Retired ids with a monitored record. -/
  authoredOrphaned : List DurableId
  deriving DecidableEq, Repr

/-- The delta of a commit that reconciles nothing. -/
def IdentityDelta.default : IdentityDelta := ⟨[], [], [], [], [], [], [], [], 0, 0, [], []⟩

/-- The entities a reconciliation with the given scope extracts. -/
def scopedEntities (crates : Crates) (answers : Answers) (scope : Option (Finset String)) :
    List Entity :=
  match scope with
  | some files => extractEntitiesFor crates answers files
  | none => extractEntities crates answers

/-- Extract the entities of the scope and reconcile them at a revision. -/
def runIdentityReconciliation (crates : Crates) (env : Env) (head : HeadState)
    (scope : Option (Finset String)) (nextRev : Revision) : IdentityDelta × HeadState :=
  let entities := scopedEntities crates (env.engine.answers head.overlay) scope
  let result := reconcileImpl env.iter env.mint head.registry entities nextRev scope
  let recon := result.1
  let classes := classify recon entities
  let lifecycle := computeAuthoredLifecycle head.config head.authored recon.needsReview
    recon.retired
  ({ createdIds := classes.created
     changedIds := classes.changed
     deletedIds := classes.deleted
     moved := classes.moved
     affectedIds := []
     affectedFiles := []
     needsReview := recon.needsReview
     orphaned := recon.retired
     extracted := entities.length
     scopeFiles := (scope.map Finset.card).getD 0
     authoredNeedsReview := lifecycle.1
     authoredOrphaned := lifecycle.2 }, { head with registry := result.2 })

/-! ## Producing the code layer -/

/-- A native path relative to the root, absent outside of it. -/
def nativeToGraph (root native : String) : Option String :=
  match stripPrefix root native with
  | none => none
  | some rest =>
    let rest := (stripPrefix "/" rest).getD rest
    if rest = "" then none else some rest

/-- Produce the next layer: scoped over the previous one, or built from
nothing after a rescan, for an unscoped write and over an empty layer. -/
def produceLayer (out : Outputs) (prev : Layer) (staged : StagedCommit) : Layer :=
  match staged.scope with
  | some scope =>
    if staged.rescan = false ∧ prev.isEmpty = false then
      buildScoped out prev (((HashOrder.increasing.order scope).filterMap
        (nativeToGraph out.root)).toFinset)
    else build out
  | none => build out

/-- The ids a commit affects: the closure of the changed and the deleted ones. -/
def affectedIdsOf (next prev : Layer) (identity : IdentityDelta) : List DurableId :=
  HashOrder.increasing.order (next.affectedClosureWithDeleted prev
    (identity.changedIds ++ identity.deletedIds).toFinset identity.deletedIds.toFinset)

/-- The files of nodes inside the project. -/
def affectedFilesOf (next : Layer) (ids : List DurableId) : List String :=
  HashOrder.increasing.order ((((ids.filterMap next.nodes.lookup).map NodeData.file).filter
    fun file => file ≠ externalFile).toFinset)

/-! ## The staged transaction -/

/-- Write a file of the sidecar, completely or not at all. -/
def writeAtomic (env : Env) (head : HeadState) (path : SystemPath) (bytes : Bytes) :
    Except String HeadState :=
  match env.writeFault path with
  | some e => .error e
  | none => .ok { head with sidecar := head.sidecar.insert path bytes }

/-- The error of an armed fault at a stage. -/
def checkFault (armed : Option String) (stage : String) : Except CommitError Unit :=
  if armed = some stage then
    let message := "injected commit fault at stage " ++ debugStr stage
    .error (if stage = "identity_persist" ∨ stage = "authored_persist" then .sidecarWrite message
      else .commitFailed message)
  else .ok ()

/-- Serialise and store the registry. -/
def persistIdentity (crates : Crates) (env : Env) (head : HeadState) :
    Except CommitError HeadState :=
  match toBytes crates.codec head.registry with
  | .error e => .error (.commitFailed ("failed to serialise identity registry: " ++ e))
  | .ok bytes =>
    match writeAtomic env head head.identityDbPath bytes with
    | .error e => .error (.sidecarWrite ("failed to persist identity registry at " ++
        debugStr head.identityDbPath.asStr ++ ": " ++ e))
    | .ok head => .ok head

/-- Reconcile identity, produce the code layer and store the registry. The
state holds what was moved when a step failed. -/
def identityStage (crates : Crates) (env : Env) (head : HeadState) (staged : StagedCommit)
    (nextRev : Revision) (armed : Option String) : Except CommitError IdentityDelta × HeadState :=
  if staged.reconcile then
    let (identity, head) := runIdentityReconciliation crates env head staged.scope nextRev
    let prev := head.codeLayer
    let next := produceLayer (outputs crates (env.engine.answers head.overlay) head) prev staged
    let affected := affectedIdsOf next prev identity
    let identity := { identity with
      affectedIds := affected, affectedFiles := affectedFilesOf next affected }
    let head := { head with codeLayer := next }
    match checkFault armed "code_layer" with
    | .error e => (.error e, head)
    | .ok () =>
      match checkFault armed "identity_persist" with
      | .error e => (.error e, head)
      | .ok () =>
        match persistIdentity crates env head with
        | .error e => (.error e, head)
        | .ok head => (.ok identity, head)
  else (.ok IdentityDelta.default, head)

/-- Store the authored record of the plan, if it has one. -/
def authoredStage (env : Env) (head : HeadState) (staged : StagedCommit)
    (armed : Option String) : Except CommitError HeadState :=
  match staged.authored with
  | none => .ok head
  | some ap =>
    match checkFault armed "authored_persist" with
    | .error e => .error e
    | .ok () =>
      match writeAtomic env head ap.recordPath ap.bytes with
      | .error e => .error (.sidecarWrite ("failed to persist authored record at " ++
          debugStr ap.recordPath.asStr ++ ": " ++ e))
      | .ok head => .ok head

/-- Publish the revision, swap in the authored records and update the set of
unsaved buffers. -/
def publishTail (head : HeadState) (staged : StagedCommit) : HeadState :=
  { head with
    store := head.store.publishStaged staged.stagedGen
    authored := match staged.authored with
      | some ap => ap.nextStore
      | none => head.authored
    unsavedOverlays := (head.unsavedOverlays ∪ staged.unsavedInsert.toFinset) \
      staged.unsavedRemove.toFinset }

/-- What a commit reports. -/
structure CommitDelta where
  /-- The published revision. -/
  revision : Revision
  /-- What the commit says about ids. -/
  identity : IdentityDelta
  /-- Ids with a new authored version. -/
  authoredIds : List DurableId
  /-- Edited files relative to the root. -/
  touchedFiles : List String
  /-- Created paths. -/
  created : List String
  /-- Changed paths. -/
  changed : List String
  /-- Deleted paths. -/
  deleted : List String
  /-- Whether everything may have changed. -/
  rescan : Bool
  /-- Whether the project changed. -/
  projectChanged : Bool
  /-- Whether the standard library changed. -/
  customStdlibChanged : Bool

/-- Assemble the report of a commit. -/
def buildCommitDelta (revision : Revision) (root : SystemPath) (staged : StagedCommit)
    (identity : IdentityDelta) (flags : Bool × Bool) : CommitDelta where
  revision := revision
  identity := identity
  authoredIds := (staged.authored.map fun ap => [ap.id]).getD []
  touchedFiles := (staged.created ++ staged.changed ++ staged.deleted).map fun p =>
    (nativeToGraph root.asStr p).getD p
  created := staged.created
  changed := staged.changed
  deleted := staged.deleted
  rescan := staged.rescan
  projectChanged := flags.1
  customStdlibChanged := flags.2

/-- Run a staged commit, publishing the revision last. -/
def runStaged (crates : Crates) (env : Env) (head : HeadState) (staged : StagedCommit)
    (armed : Option String) : Except CommitError CommitDelta × HeadState :=
  let nextRev := head.store.nextRevision
  let head := { head with overlay := staged.stagedGen }
  let flags := if staged.events = [] then (false, false)
    else env.engine.applyChanges head.overlay staged.events
  match identityStage crates env head staged nextRev armed with
  | (.error e, head) => (.error e, head)
  | (.ok identity, head) =>
    match authoredStage env head staged armed with
    | .error e => (.error e, head)
    | .ok head =>
      let head := publishTail head staged
      (.ok (buildCommitDelta head.store.revision head.root staged identity flags), head)

/-- What a failed commit restores. -/
structure Baseline where
  /-- The published generation. -/
  publishedGen : ContentMap
  /-- The registry. -/
  registry : IdentityRegistry
  /-- The authored records. -/
  authored : AuthoredMap
  /-- The code layer. -/
  codeLayer : Layer

/-- Restore the baseline. -/
def rollback (head : HeadState) (base : Baseline) : HeadState :=
  { head with
    overlay := base.publishedGen
    registry := base.registry
    authored := base.authored
    codeLayer := base.codeLayer }

/-- Commit a write. Nothing is reported when there is nothing to do. -/
def commit (crates : Crates) (env : Env) (head : HeadState) (mutation : Mutation) :
    Except CommitError (Option CommitDelta) × HeadState :=
  match buildPlan crates env head mutation with
  | (.error e, head) => (.error e, head)
  | (.ok none, head) => (.ok none, head)
  | (.ok (some staged), head) =>
    let base : Baseline := ⟨head.store.generation, head.registry, head.authored, head.codeLayer⟩
    let armed := head.armedFault
    match runStaged crates env { head with armedFault := none } staged armed with
    | (.ok dto, head) => (.ok (some dto), head)
    | (.error e, head) => (.error e, rollback head base)

/-! ## Opening and the other transitions -/

/-- A head over a store, its engine reading the published generation. -/
def buildHeadWithConfig (root : SystemPath) (store : Store) (registry : IdentityRegistry)
    (config : ValidatedConfig) (hashProfiles : Finset String) (defaultHashProfile : String)
    (sidecar : FMap SystemPath Bytes) : HeadState where
  root := root
  store := store
  overlay := store.generation
  registry := registry
  hashProfiles := hashProfiles
  defaultHashProfile := defaultHashProfile
  config := config
  authored := ∅
  codeLayer := Layer.new
  unsavedOverlays := ∅
  armedFault := none
  sidecar := sidecar

/-- What opening a project reads from its sidecar. -/
structure Opening where
  /-- Project root. -/
  root : SystemPath
  /-- The stored registry, or the empty one. -/
  registry : IdentityRegistry
  /-- The stored authored records. -/
  authored : AuthoredMap
  /-- The configuration. -/
  config : ValidatedConfig
  /-- How many generations are kept. -/
  retainCap : ℕ
  /-- Names of the hash profiles. -/
  hashProfiles : Finset String
  /-- Name of the default hash profile. -/
  defaultHashProfile : String
  /-- The files of the sidecar. -/
  sidecar : FMap SystemPath Bytes

/-- Open a project: read it into the first revision, reconcile identity,
build the code layer and store the registry. -/
def openHead (crates : Crates) (env : Env) (o : Opening) : Except CommitError HeadState :=
  let store := (Store.withRetainCap o.retainCap).ingestProject crates.walk env.disk o.root
    (isProjectRelevant crates.pyExtension)
  let head := buildHeadWithConfig o.root store o.registry o.config o.hashProfiles
    o.defaultHashProfile o.sidecar
  let head := (runIdentityReconciliation crates env head none store.revision).2
  let head := { head with
    codeLayer := build (outputs crates (env.engine.answers head.overlay) head) }
  match persistIdentity crates env head with
  | .error e => .error e
  | .ok head => .ok { head with authored := o.authored }

/-- Rebuild the head over the same store, registry and configuration. -/
def reload (head : HeadState) : HeadState :=
  buildHeadWithConfig head.root head.store head.registry head.config head.hashProfiles
    head.defaultHashProfile head.sidecar

/-- One operation on a head. -/
inductive Action where
  | commit (env : Env) (mutation : Mutation)
  | registerAuthoredLayer (name : String) (history reviewOnChange : Bool)
  | faultInject (stage : String)
  | reload

/-- The head after an operation, whether it succeeds or not. -/
def Action.run (crates : Crates) (head : HeadState) : Action → HeadState
  | .commit env mutation => (CommitFunnel.commit crates env head mutation).2
  | .registerAuthoredLayer name history reviewOnChange =>
    { head with
      config := (head.config.registerAuthoredLayer name history reviewOnChange).getD head.config }
  | .faultInject stage => { head with armedFault := some stage }
  | .reload => CommitFunnel.reload head

/-- The heads of all sessions. -/
inductive Reachable (crates : Crates) : HeadState → Prop
  | opened {env : Env} {o : Opening} {head : HeadState} (h : openHead crates env o = .ok head) :
    Reachable crates head
  | step {head : HeadState} (h : Reachable crates head) (a : Action) :
    Reachable crates (a.run crates head)

/-! ## Projects of listed files -/

/-- Libraries for a project whose files are among a list: the walker finds
every listed entry of the disk. -/
def listedCrates (paths : List SystemPath) : Crates where
  codec := Codec.reading .null
  pyExtension extension := ["py", "pyi", "ipynb"].contains extension
  walk disk root := paths.filter fun p => p.isUnder root && (disk.lookup p).isSome

/-- An engine that indexes the listed files with a text and finds one
variable in each, hashed by the length of the text. -/
def listedEngine (paths : List SystemPath) : Engine where
  answers content :=
    { files := paths.filter fun p => (content.textAt p).isSome
      exists_ := fun p => (content.textAt p).isSome
      documentSymbols := fun _ => [.node ⟨"x", .variable_, ⟨0, 1⟩, ⟨0, 1⟩⟩ []]
      contentHash := fun p _ => Fin.ofNat _ ((content.textAt p).getD "").length
      profileHashes := fun _ _ => ∅
      rangeOf := fun _ _ => moduleRange
      occurrences := fun _ => some []
      gotoDefinition := fun _ _ => none
      supertypes := fun _ _ => none }
  applyChanges _ _ := (false, false)

/-- Surroundings without faults. -/
def listedEnv (paths : List SystemPath) (disk : Disk) : Env where
  engine := listedEngine paths
  disk := disk
  writeFault _ := none
  iter := HashOrder.increasing
  mint k := String.ofList (List.replicate (k + 1) 'A')

/-- Opening a directory without a sidecar. -/
def freshOpening (root : SystemPath) : Opening where
  root := root
  registry := IdentityRegistry.empty
  authored := ∅
  config := ⟨[], ∅⟩
  retainCap := 64
  hashProfiles := ∅
  defaultHashProfile := "default"
  sidecar := ∅

/-- The head of a project of listed files after opening. -/
def listedHead (paths : List SystemPath) (disk : Disk) (root : SystemPath) : HeadState :=
  match openHead (listedCrates paths) (listedEnv paths disk) (freshOpening root) with
  | .ok head => head
  | .error _ => buildHeadWithConfig root (Store.withRetainCap 0) IdentityRegistry.empty
      ⟨[], ∅⟩ ∅ "" ∅

/-- Opening a project of listed files succeeds. -/
theorem listedHead_reachable (paths : List SystemPath) (disk : Disk) (root : SystemPath) :
    Reachable (listedCrates paths) (listedHead paths disk root) := by
  have hopen : openHead (listedCrates paths) (listedEnv paths disk) (freshOpening root) =
      .ok (listedHead paths disk root) := rfl
  exact .opened hopen

end Tyo3.CommitFunnel
