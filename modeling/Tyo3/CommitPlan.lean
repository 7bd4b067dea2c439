import Tyo3.AuthoredStore
import Tyo3.CodeLayerBuilder
import Tyo3.ContentStore
import Tyo3.DocumentSymbols
import Tyo3.IdentityPersistence

/-!
# Plans of commits

A write is planned before anything observable moves: the next generation is
staged, events are classified, disk is read and an authored record is
serialised. The analysis engine answers as a function of the content it
reads; the disk, its faults, the engine and the supply of ids belong to the
surroundings of one commit.
-/

namespace Tyo3.CommitPlan

open AuthoredStore CodeLayer CodeLayerBuilder ContentStore Entities FiniteMaps IdentityAnchors
  JsonValues SystemPaths

/-- What a created event says about the path. -/
inductive CreatedKind where
  | file | directory | any
  deriving DecidableEq, Repr

/-- What a changed event says about the path. -/
inductive ChangedKind where
  | fileContent | fileMetadata | any
  deriving DecidableEq, Repr

/-- What a deleted event says about the path. -/
inductive DeletedKind where
  | file | directory | any
  deriving DecidableEq, Repr

/-- A change the engine is told about. -/
inductive ChangeEvent where
  | opened (path : SystemPath)
  | created (path : SystemPath) (kind : CreatedKind)
  | changed (path : SystemPath) (kind : ChangedKind)
  | deleted (path : SystemPath) (kind : DeletedKind)
  | createdVirtual (path : String)
  | changedVirtual (path : String)
  | deletedVirtual (path : String)
  | rescan
  deriving DecidableEq, Repr

/-- The path of an event on disk. -/
def ChangeEvent.systemPath : ChangeEvent → Option SystemPath
  | .opened path => some path
  | .created path _ => some path
  | .changed path _ => some path
  | .deleted path _ => some path
  | _ => none

/-- Whether an event says that everything may have changed. -/
def ChangeEvent.isRescan (event : ChangeEvent) : Bool := decide (event = .rescan)

/-- The answers of the engine over one content. -/
structure Answers where
  /-- The indexed files. -/
  files : List SystemPath
  /-- Whether a file is known to the engine and exists. -/
  exists_ : SystemPath → Bool
  /-- The symbols of a file with their nesting. -/
  documentSymbols : SystemPath → List SymbolTree
  /-- The hash of a definition under the policy of the code layer. -/
  contentHash : SystemPath → TextRange → ContentHash
  /-- The hashes of a definition by profile. -/
  profileHashes : SystemPath → TextRange → FMap String ContentHash
  /-- Lines and columns of a range. -/
  rangeOf : SystemPath → TextRange → Range
  /-- The names of a file with their targets, by the text of its path. -/
  occurrences : String → Option (List NameOccurrence)
  /-- Files of the definitions found from a position. -/
  gotoDefinition : String → Position → Option (List String)
  /-- Direct supertypes of the class at a position. -/
  supertypes : String → Position → Option (List Supertype)

/-- The engine: its answers and the two flags of an applied batch are
functions of the content it reads. -/
structure Engine where
  /-- Answers over a content. -/
  answers : ContentMap → Answers
  /-- Whether a batch of events changed the project, and the standard library. -/
  applyChanges : ContentMap → List ChangeEvent → Bool × Bool

/-- What the program takes from libraries. -/
structure Crates where
  /-- The JSON library. -/
  codec : Codec
  /-- The extensions of Python source files. -/
  pyExtension : String → Bool
  /-- The entries the directory walker lists under its ignore rules. -/
  walk : Disk → SystemPath → List SystemPath

/-- The surroundings of one commit. -/
structure Env where
  /-- The engine. -/
  engine : Engine
  /-- The disk. -/
  disk : Disk
  /-- The error of an atomic write to a path, absent when it succeeds. -/
  writeFault : SystemPath → Option String
  /-- Order of the anchor store. -/
  iter : HashOrder DurableId
  /-- Supply of fresh ids. -/
  mint : ℕ → DurableId

/-- The live head of a session with the files it owns. -/
structure HeadState where
  /-- Project root. -/
  root : SystemPath
  /-- The content store. -/
  store : Store
  /-- The content the engine reads. -/
  overlay : ContentMap
  /-- The identity registry. -/
  registry : IdentityRegistry
  /-- Names of the hash profiles. -/
  hashProfiles : Finset String
  /-- Name of the default hash profile. -/
  defaultHashProfile : String
  /-- The configuration. -/
  config : ValidatedConfig
  /-- The authored records. -/
  authored : AuthoredMap
  /-- The code layer. -/
  codeLayer : Layer
  /-- Paths with an unsaved buffer. -/
  unsavedOverlays : Finset SystemPath
  /-- The stage an armed fault fires at. -/
  armedFault : Option String
  /-- The files of the sidecar directory. -/
  sidecar : FMap SystemPath Bytes

/-- Path of the stored registry. -/
def HeadState.identityDbPath (head : HeadState) : SystemPath :=
  head.root.join [".tyo3", "identity.db"]

/-- Directory of the stored records of a layer. -/
def HeadState.authoredDir (head : HeadState) (layer : String) : SystemPath :=
  head.root.join [".tyo3", "authored", layer]

/-- Path of a stored record. -/
def HeadState.recordPath (head : HeadState) (layer id : String) : SystemPath :=
  (head.authoredDir layer).join [id ++ ".json"]

/-- Errors of a commit with their messages. -/
inductive CommitError where
  | commitFailed (message : String)
  | sidecarWrite (message : String)
  | config (message : String)
  | value (message : String)
  deriving DecidableEq, Repr

/-- A text in quotes with its special characters escaped. -/
def debugStr (text : String) : String :=
  "\"" ++ String.join (text.toList.map fun c =>
    if c = '"' then "\\\"" else if c = '\\' then "\\\\" else if c = '\n' then "\\n"
    else if c = '\r' then "\\r" else if c = '\t' then "\\t" else if c = '\x00' then "\\0"
    else String.singleton c) ++ "\""

/-- The scope of identity reconciliation: the Python files among the paths of
the events. No such file means that everything is reconciled. -/
def identityScopeFromEvents (pyExtension : String → Bool) (events : List ChangeEvent) :
    Option (Finset String) :=
  let scope := (((events.filterMap ChangeEvent.systemPath).filter
    (isPySource pyExtension)).map SystemPath.asStr).toFinset
  if scope = ∅ then none else some scope

/-- A write, apart from how it is committed. -/
inductive Mutation where
  | overlay (changes : List Change) (events : List ChangeEvent) (created changed : List String)
      (unsaved : List SystemPath)
  | syncPath (abs : SystemPath)
  | syncAll
  | author (layer id : String) (value : Json)
  | poll (events : List ChangeEvent)

/-- An authored record staged for persistence. -/
structure AuthoredPlan where
  /-- The records after the commit. -/
  nextStore : AuthoredMap
  /-- Where the record is written. -/
  recordPath : SystemPath
  /-- What is written there. -/
  bytes : Bytes
  /-- Durable id of the record. -/
  id : String

/-- The next state of a commit. -/
structure StagedCommit where
  /-- The next generation. -/
  stagedGen : ContentMap
  /-- Events for the engine. -/
  events : List ChangeEvent
  /-- Paths reported as created. -/
  created : List String
  /-- Paths reported as changed. -/
  changed : List String
  /-- Paths reported as deleted. -/
  deleted : List String
  /-- Whether everything may have changed. -/
  rescan : Bool
  /-- Scope of identity reconciliation. -/
  scope : Option (Finset String)
  /-- Whether identity is reconciled and persisted. -/
  reconcile : Bool
  /-- Record to persist. -/
  authored : Option AuthoredPlan
  /-- Paths that gain an unsaved buffer. -/
  unsavedInsert : List SystemPath
  /-- Paths that lose their unsaved buffer. -/
  unsavedRemove : List SystemPath

/-- A plan that reconciles identity over a generation and says nothing else. -/
def StagedCommit.reconciling (stagedGen : ContentMap) (events : List ChangeEvent)
    (scope : Option (Finset String)) : StagedCommit where
  stagedGen := stagedGen
  events := events
  created := []
  changed := []
  deleted := []
  rescan := false
  scope := scope
  reconcile := true
  authored := none
  unsavedInsert := []
  unsavedRemove := []

/-- The write for the result of a disk read. -/
def diskChange (path : SystemPath) : Except ReadError String → Change
  | .ok text => .insert path text
  | .error _ => .delete path

/-- What a batch of watcher events comes to. -/
structure PollBatch where
  /-- Writes of the kept events. -/
  storeChanges : List Change
  /-- Kept events. -/
  keptEvents : List ChangeEvent
  /-- Paths of created events. -/
  created : List String
  /-- Paths of changed events. -/
  changed : List String
  /-- Paths of deleted events. -/
  deleted : List String

/-- Fold one watcher event into the batch. An event without a path, an event
at an unsaved buffer and an opened event are dropped. -/
def pollEvent (disk : Disk) (unsaved : Finset SystemPath) (batch : PollBatch)
    (event : ChangeEvent) : PollBatch :=
  match event.systemPath with
  | none => batch
  | some path =>
    if path ∈ unsaved then batch
    else
      let diskText := readToString disk path
      match event with
      | .created _ _ =>
        { batch with
          created := batch.created ++ [path.asStr]
          storeChanges := batch.storeChanges ++ [diskChange path diskText]
          keptEvents := batch.keptEvents ++ [event] }
      | .deleted _ _ =>
        { batch with
          deleted := batch.deleted ++ [path.asStr]
          storeChanges := batch.storeChanges ++ [.delete path]
          keptEvents := batch.keptEvents ++ [event] }
      | .changed _ _ =>
        { batch with
          changed := batch.changed ++ [path.asStr]
          storeChanges := batch.storeChanges ++ [diskChange path diskText]
          keptEvents := batch.keptEvents ++ [event] }
      | _ => batch

/-- Plan a batch of watcher events. Nothing is planned when no event is kept. -/
def buildPollPlan (crates : Crates) (env : Env) (head : HeadState) (events : List ChangeEvent) :
    Option StagedCommit × HeadState :=
  if events = [] then (none, head)
  else if events.any ChangeEvent.isRescan then
    (some { StagedCommit.reconciling head.store.stageUnchanged [.rescan] none with
      rescan := true }, head)
  else
    let batch := events.foldl (pollEvent env.disk head.unsavedOverlays) ⟨[], [], [], [], []⟩
    if batch.keptEvents = [] then (none, head)
    else
      let staged := head.store.stage batch.storeChanges
      (some { StagedCommit.reconciling staged.1 batch.keptEvents
          (identityScopeFromEvents crates.pyExtension batch.keptEvents) with
        created := batch.created
        changed := batch.changed
        deleted := batch.deleted }, { head with store := staged.2 })

/-- Plan a sync of one path: the write, the event and the three reported
lists of paths. -/
def syncPathChange (env : Env) (head : HeadState) (abs : SystemPath) :
    Change × ChangeEvent × List String × List String × List String :=
  match readToString env.disk abs with
  | .ok text =>
    if (env.engine.answers head.overlay).exists_ abs then
      (.insert abs text, .changed abs .any, [], [abs.asStr], [])
    else (.insert abs text, .created abs .file, [abs.asStr], [], [])
  | .error _ => (.delete abs, .deleted abs .any, [], [], [abs.asStr])

/-- Plan an authored write: validate the layer and the id, stamp the hash of
the entity and serialise the record. -/
def authorPlan (crates : Crates) (head : HeadState) (layer id : String) (value : Json) :
    Except CommitError StagedCommit :=
  match head.config.authoredLayerConfig layer with
  | none => .error (.config ("'" ++ layer ++ "' is not a declared authored layer"))
  | some lcfg =>
    match head.registry.get id with
    | none => .error (.value
        ("durable id '" ++ id ++ "' is not known to the identity registry"))
    | some anchor =>
      let version : AuthoredVersion := ⟨value, head.store.nextRevision, some anchor.contentHash⟩
      let nextStore := AuthoredStore.put head.authored layer id version lcfg.history
      let rec_ := (nextStore.lookup (layer, id)).getD ⟨version, []⟩
      match recordBytes crates.codec layer id rec_ with
      | .error e => .error (.commitFailed ("failed to serialise authored record: " ++ e))
      | .ok bytes => .ok
          { StagedCommit.reconciling head.store.stageUnchanged [] none with
            reconcile := false
            authored := some ⟨nextStore, head.recordPath layer id, bytes, id⟩ }

/-- Plan a write. Only the version counter of the store may move. -/
def buildPlan (crates : Crates) (env : Env) (head : HeadState) :
    Mutation → Except CommitError (Option StagedCommit) × HeadState
  | .overlay changes events created changed unsaved =>
    let staged := head.store.stage changes
    (.ok (some { StagedCommit.reconciling staged.1 events
        (identityScopeFromEvents crates.pyExtension events) with
      created := created
      changed := changed
      unsavedInsert := unsaved }), { head with store := staged.2 })
  | .syncPath abs =>
    let (change, event, created, changed, deleted) := syncPathChange env head abs
    let staged := head.store.stage [change]
    let rescan := isProjectConfigFile abs
    let scope := if rescan then none else identityScopeFromEvents crates.pyExtension [event]
    (.ok (some { StagedCommit.reconciling staged.1 [event] scope with
      created := created
      changed := changed
      deleted := deleted
      rescan := rescan
      unsavedRemove := [abs] }), { head with store := staged.2 })
  | .syncAll =>
    let staged := head.store.stageReingest crates.walk env.disk head.root
      (isProjectRelevant crates.pyExtension) head.unsavedOverlays
    (.ok (some { StagedCommit.reconciling staged.1 [.rescan] none with
      rescan := true }), { head with store := staged.2 })
  | .author layer id value => ((authorPlan crates head layer id value).map some, head)
  | .poll events =>
    let plan := buildPollPlan crates env head events
    (.ok plan.1, plan.2)

end Tyo3.CommitPlan
