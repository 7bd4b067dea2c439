import Tyo3.ArtifactFiles
import Tyo3.RetainedRevisions
import Tyo3.TracedLayers

/-!
# Derived reads and the collection of orphans

A read of a layer that is not traced resolves its key first and then looks the
artifact up, or makes it. The collection recomputes the keys of every entity
at every retained revision, adds the keys of the last good artifacts, and hands
them to the store of each layer that asks for it. What the layers compute with
is an argument: the digest, the decoder of bytes, the order of collections and
the generators.
-/

namespace Tyo3.OrphanCollection

open FiniteMaps JsonValues Tyo3.Configuration DerivedLayers ArtifactFiles ContentStore
  RetainedRevisions

open TracedLayers (Status Produced)

/-- What the derived layers compute with. -/
structure Runtime where
  /-- The digest of bytes. -/
  hashBytes : Bytes → String
  /-- It is a text of thirty-two letters and digits. -/
  digest : ∀ bytes, (hashBytes bytes).length = 32 ∧
    ∀ c ∈ (hashBytes bytes).toList, c.isAlphanum = true
  /-- Read bytes as text. -/
  decode : Bytes → String
  /-- The bytes of a text are read as that text. -/
  decode_utf8 : ∀ text, decode (utf8 text) = text
  /-- The order in which a collection is visited. -/
  iter : HashOrder String
  /-- The generators and producers of the layers. -/
  produceArtifact : DerivedLayer → Snapshot → String → GenInput → Produced

/-- The state of a layer. -/
structure LayerState where
  /-- Its artifacts. -/
  store : FsStore
  /-- Input hash last served, by entity. -/
  bindings : FMap String String
  /-- Store key of the last good artifact, by entity. -/
  lastGood : FMap String String
  /-- Entities whose last production failed. -/
  failed : Finset String

/-- The states of the layers by name. Every layer has a store of its own. -/
abbrev DagState := String → LayerState

/-- The artifacts of all layers. -/
def DagState.artifacts (σ : DagState) : Artifacts := fun name key => (σ name).store.get key

/-! ## Reads -/

/-- What a read returns or raises. -/
inductive Reply where
  | value (artifact : Option Bytes) (status : Status)
  | raised (error : ResolveError)
  deriving DecidableEq, Repr

/-- Errors that a missing key or attribute raises. -/
def caught : ResolveError → Bool
  | .noDependency | .recursion => false
  | .absentEntity _ | .noContentHash _ _ | .unknownLayer _ | .absentNode _ | .noUpstreamHash _ _
  | .noUpstreamArtifact _ _ => true

/-- Note what was served for an entity. -/
def LayerState.bind (s : LayerState) (id inputHash storeKey : String) : LayerState :=
  { s with bindings := s.bindings.insert id inputHash, lastGood := s.lastGood.insert id storeKey
           failed := s.failed.erase id }

/-- Note a failed production. -/
def LayerState.markFailed (s : LayerState) (id : String) : LayerState :=
  { s with failed := insert id s.failed }

/-- Serve the last good artifact of an entity. -/
def serveLastGood (s : LayerState) (id : String) : Reply :=
  match (s.lastGood.lookup id).bind s.store.get with
  | some artifact => .value (some artifact) (if id ∈ s.failed then .failed else .stale)
  | none => .value none (if id ∈ s.failed then .failed else .absent)

section Reading

variable (rt : Runtime) (dag : DerivationDAG) (σ : DagState) (snap : Snapshot)

/-- The input of a layer for an entity, with its key. -/
def resolve (layer : DerivedLayer) (id : String) : Except ResolveError (GenInput × String) :=
  resolveInput rt.hashBytes rt.iter rt.decode dag σ.artifacts snap layer id

/-- Make the artifact of an entity now. An artifact of a key is never
replaced; the failed attempt to do so counts as a failed production. -/
def recomputeNow (layer : DerivedLayer) (id : String) :
    Except ResolveError (Option Bytes × DagState) := do
  let (input, inputHash) ← resolve rt dag σ snap layer id
  let state := σ layer.name
  let key := layer.storeKey inputHash
  match rt.produceArtifact layer snap id input with
  | .artifact artifact =>
    match state.store.get key with
    | some existing =>
      if existing ≠ artifact then
        return (none, Function.update σ layer.name (state.markFailed id))
      return (some artifact, Function.update σ layer.name (state.bind id inputHash key))
    | none =>
      let stored := { state with store := state.store.put key artifact }
      return (some artifact, Function.update σ layer.name (stored.bind id inputHash key))
  | .nothing => return (none, σ)
  | .raised => return (none, Function.update σ layer.name (state.markFailed id))

/-- Read the value of an entity under a layer that is not traced. -/
def derived (name id : String) : Reply × DagState :=
  if dag.layers.isEmpty then (.value none .absent, σ)
  else match dag.layer name with
    | .error e => (.raised e, σ)
    | .ok layer =>
      match resolve rt dag σ snap layer id with
      | .error e => (if caught e then .value none .absent else .raised e, σ)
      | .ok (_, inputHash) =>
        match (σ layer.name).store.get (layer.storeKey inputHash) with
        | some artifact => (.value (some artifact) .fresh, σ)
        | none =>
          if layer.serving = "stale" then (serveLastGood (σ layer.name) id, σ)
          else match recomputeNow rt dag σ snap layer id with
            | .error e => (.raised e, σ)
            | .ok (some artifact, σ') => (.value (some artifact) .fresh, σ')
            | .ok (none, σ') => (serveLastGood (σ' layer.name) id, σ')

end Reading

/-! ## The session -/

/-- A `stores` table at runtime. -/
structure StoreConfig where
  /-- What happens to values without an entity. -/
  gc : String

/-- The runtime configuration of a session. -/
structure SessionConfig where
  /-- The layers. -/
  layers : FMap String LayerConfig
  /-- The stores. -/
  stores : FMap String StoreConfig

/-- The snapshots that a session can pin. -/
structure Session where
  /-- The content store with its retained generations. -/
  contents : Store
  /-- It was opened with a cap and went through calls. -/
  opened : ∃ cap operations, contents = runAll (Store.withRetainCap cap) operations
  /-- The graph of a snapshot without a revision, none when it cannot be
  built. -/
  headGraph : Option Snapshot
  /-- The graph of a snapshot at a retained revision, none when it cannot be
  built. -/
  graphAt : ℕ → Option Snapshot

/-- The graph of a snapshot at a revision, none also for an evicted one. -/
def Session.snapshotAt (session : Session) (revision : ℕ) : Option Snapshot :=
  (session.contents.generationAt revision).bind fun _ => session.graphAt revision

/-- A graph that reads can be pinned to. -/
def Session.Readable (session : Session) (snap : Snapshot) : Prop :=
  session.headGraph = some snap ∨ ∃ revision, session.snapshotAt revision = some snap

/-- The oldest revision that the collection looks at. -/
def Session.oldest (session : Session) : ℕ :=
  session.contents.revision + 1 - session.contents.retainCap

/-- The snapshots that the collection looks at: the head and the retained
revisions before it. -/
def Session.retained (session : Session) (head : Snapshot) : List Snapshot :=
  head :: (List.range' session.oldest (session.contents.revision - session.oldest)).filterMap
    session.snapshotAt

/-! ## The collection -/

/-- Whether the store of a layer asks for the collection. -/
def collectsOrphans (cfg : SessionConfig) (layer : DerivedLayer) : Bool :=
  match (cfg.layers.lookup layer.name).bind LayerConfig.store with
  | none => false
  | some store => store ≠ "" && (cfg.stores.lookup store).any fun storeCfg => storeCfg.gc = "orphans"

/-- The layers in dependency order. -/
def iterLayers (dag : DerivationDAG) : List DerivedLayer :=
  dag.topoOrder.filterMap dag.layerMap.lookup

section Collecting

variable (rt : Runtime) (cfg : SessionConfig) (dag : DerivationDAG)

/-- Add the key of one node of a graph. -/
def addKey (σ : DagState) (layer : DerivedLayer) (candidate : Snapshot) (keys : Finset String)
    (id : String) : Except ResolveError (Finset String) :=
  match candidate.graph.symbol id with
  | none => .ok keys
  | some node =>
    if layer.appliesTo (symbolKindStr node.kind) then
      match resolve rt dag σ candidate layer id with
      | .error e => if caught e then .ok keys else .error e
      | .ok (_, inputHash) => .ok (insert (layer.storeKey inputHash) keys)
    else .ok keys

/-- The keys of all entities of the retained graphs. -/
def reachableKeys (σ : DagState) (layer : DerivedLayer) (candidates : List Snapshot) :
    Except ResolveError (Finset String) :=
  candidates.foldlM (fun keys candidate =>
    (rt.iter.order candidate.graph.symbols.keys).foldlM (addKey rt dag σ layer candidate) keys) ∅

/-- The keys of the last good artifacts of the version of a layer. -/
def lastGoodKeys (layer : DerivedLayer) (s : LayerState) : Finset String :=
  (s.lastGood.keys.biUnion fun id => (s.lastGood.lookup id).toFinset).filter
    fun key => (partitionKey key).2 = layer.generatorVersion

/-- Collect one layer, given the keys of the entities. -/
def gcStore (σ : DagState) (layer : DerivedLayer) (keys : Finset String) : DagState :=
  Function.update σ layer.name { σ layer.name with
    store := (σ layer.name).store.prune rt.decode rt.iter
      (keys ∪ lastGoodKeys layer (σ layer.name)) }

/-- Collect the layers one after the other. An error that is not caught ends
the collection where it is. -/
def collectLayers (candidates : List Snapshot) :
    List DerivedLayer → DagState → DagState × Option ResolveError
  | [], σ => (σ, none)
  | layer :: layers, σ =>
    if !collectsOrphans cfg layer || layer.isTraced then collectLayers candidates layers σ
    else match reachableKeys rt dag σ layer candidates with
      | .error e => (σ, some e)
      | .ok keys => collectLayers candidates layers (gcStore rt σ layer keys)

/-- Collect the orphaned artifacts of a session. -/
def gcOrphans (session : Session) (σ : DagState) : DagState × Option ResolveError :=
  if dag.layers.isEmpty then (σ, none)
  else match session.headGraph with
    | none => (σ, none)
    | some head => collectLayers rt cfg dag (session.retained head) (iterLayers dag) σ

end Collecting

end Tyo3.OrphanCollection
