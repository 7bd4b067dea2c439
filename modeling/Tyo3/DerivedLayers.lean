import Tyo3.CodeLayer
import Tyo3.Configuration

/-!
# Derived layers at runtime

The layer runtime reads the configuration as JSON, fills in defaults of its
own and builds one runtime layer for each derived layer. An input of a layer
is an entity of the pinned graph or the artifact of an upstream layer, and its
hash is the cache key. The digest of bytes is an argument; artifacts are looked
up by layer and store key.
-/

namespace Tyo3.DerivedLayers

open FiniteMaps JsonValues Tyo3.Configuration

open CodeLayer (SymbolKindDto)

/-! ## The pinned graph -/

/-- The text of a kind, as the nodes of the graph carry it. -/
def symbolKindStr : SymbolKindDto → String
  | .module_ => "module"
  | .class_ => "class_"
  | .function => "function"
  | .method => "method"
  | .constructor => "constructor"
  | .variable_ => "variable"
  | .constant => "constant"
  | .field => "field"
  | .parameter => "parameter"
  | .property => "property"
  | .typeParameter => "type_parameter"
  | .import_ => "import_"
  | .unknown => "unknown"

/-- A node of the graph. -/
structure SymbolNode where
  /-- Kind of the symbol. -/
  kind : SymbolKindDto
  /-- Content hashes by profile. -/
  contentHashes : FMap String String
  /-- A hash is a number in decimal digits. -/
  decimal : ∀ profile hash, contentHashes.lookup profile = some hash →
    hash ≠ "" ∧ ∀ c ∈ hash.toList, c.isDigit = true

/-- The graph of a snapshot. -/
structure PinnedGraph where
  /-- Nodes by durable id. -/
  symbols : FMap String SymbolNode
  /-- Direct dependencies, from the dependant to what it uses. -/
  uses : Finset (String × String)
  /-- Both ends are nodes. -/
  known : ∀ edge ∈ uses, edge.1 ∈ symbols.keys ∧ edge.2 ∈ symbols.keys

namespace PinnedGraph

/-- The node of an id. -/
def symbol (g : PinnedGraph) (id : String) : Option SymbolNode := g.symbols.lookup id

/-- What an entity uses directly. -/
def dependencies (g : PinnedGraph) (id : String) : Finset String :=
  (g.uses.filter fun edge => edge.1 = id).image Prod.snd

/-- What uses an entity directly. -/
def dependents (g : PinnedGraph) (id : String) : Finset String :=
  (g.uses.filter fun edge => edge.2 = id).image Prod.fst

/-- The hash of an id under a profile, empty without a node or a hash. -/
def hashOf (g : PinnedGraph) (profile id : String) : String :=
  ((g.symbol id).bind fun node => node.contentHashes.lookup profile).getD ""

end PinnedGraph

/-- A pinned snapshot as the producers read it. -/
structure Snapshot where
  /-- The graph at the revision. -/
  graph : PinnedGraph
  /-- Source text of an entity. -/
  entitySource : String → String

/-- The bytes of a text. -/
def utf8 (text : String) : Bytes := text.toUTF8.data.toList

/-- The text that is hashed for some ids: each with its hash, by id, with a
zero character between them. -/
def pairsText (g : PinnedGraph) (profile : String) (ids : Finset String) : String :=
  String.intercalate "\x00"
    ((HashOrder.increasing.order ids).map fun id => id ++ "=" ++ g.hashOf profile id)

/-- One walk over what an entity uses, directly or not. The frontier is a
stack; an id enters the closure when it is pushed. -/
def closureLoop (iter : HashOrder String) (g : PinnedGraph) (start : String) :
    ℕ → Finset String → List String → Finset String
  | 0, closure, _ => closure
  | _ + 1, closure, [] => closure
  | fuel + 1, closure, current :: frontier =>
    let fresh := (iter.order (g.dependencies current)).filter fun id => id ≠ start ∧ id ∉ closure
    closureLoop iter g start fuel (closure ∪ fresh.toFinset) (fresh.reverse ++ frontier)

/-- Everything an entity uses. Every id is pushed once at most. -/
def dependencyClosure (iter : HashOrder String) (g : PinnedGraph) (start : String) :
    Finset String :=
  closureLoop iter g start (g.symbols.keys.card + 1) ∅ [start]

/-! ## The configuration at runtime -/

/-- A layer as the runtime reads it. -/
structure LayerConfig where
  /-- Where the values come from. -/
  origin : String
  /-- Declared dependencies. -/
  dependsOn : List String
  /-- Name of the generator. -/
  generator : Option String
  /-- Version of the generator. -/
  generatorVersion : Option String
  /-- Hash profile of its keys. -/
  hashProfile : Option String
  /-- Name of the store. -/
  store : Option String
  /-- How a stale read is served. -/
  serving : String
  /-- When values are computed again. -/
  recompute : String
  /-- What a cache key covers. -/
  keyLocality : String
  /-- Entity kinds it applies to. -/
  entityKinds : List String
  /-- Whether earlier authored versions are kept. -/
  history : Bool
  /-- Whether a changed body asks for review. -/
  reviewOnChange : Bool

/-- The runtime configuration: what the layers need of it. -/
structure TyConfig where
  /-- Layers by name. -/
  layers : FMap String LayerConfig
  /-- Layers in dependency order. -/
  topoOrder : List String

/-- A field of an object. -/
def field (key : String) : Json → Option Json
  | .obj fields => fields.lookup key
  | _ => none

/-- A truth value. -/
def asBool : Json → Option Bool
  | .bool value => some value
  | _ => none

/-- The texts of an array; a missing array has none. -/
def texts : Option Json → Option (List String)
  | none => some []
  | some value => value.asArray.bind fun items => items.mapM Json.asStr

/-- Read one layer. A missing required key is an error. -/
def layer (data : Json) : Option LayerConfig := do
  let origin ← (field "origin" data).bind Json.asStr
  let dependsOn ← texts (field "depends_on" data)
  let serving ← (field "serving" data).bind Json.asStr
  let recompute ← (field "recompute" data).bind Json.asStr
  let entityKinds ← texts (field "entity_kinds" data)
  let history ← (field "history" data).bind asBool
  let reviewOnChange ← (field "review_on_change" data).bind asBool
  let keyLocality := ((field "key_locality" data).bind Json.asStr).getD ""
  return {
    origin, dependsOn, serving, recompute, entityKinds, history, reviewOnChange
    generator := (field "generator" data).bind Json.asStr
    generatorVersion := (field "generator_version" data).bind Json.asStr
    hashProfile := (field "hash_profile" data).bind Json.asStr
    store := (field "store" data).bind Json.asStr
    keyLocality := if keyLocality = "" then "local" else keyLocality }

/-- Read the layers named in the order. -/
def readLayers (rawLayers : Json) (names : List String) : Option (FMap String LayerConfig) :=
  names.foldlM (fun layers name =>
    match field name rawLayers with
    | some data => if name = "code" then some layers else (layer data).map (layers.insert name)
    | none => some layers) ∅

/-- Read the configuration. -/
def fromJson (data : Json) : Option TyConfig := do
  let raw ← field "raw" data
  let topoOrder ← texts (field "topo_order" data)
  let layers ← readLayers ((field "layers" raw).getD (.obj [])) topoOrder
  return { layers, topoOrder }

/-- The JSON projection of a validated configuration. -/
def configJson (cfg : ValidatedConfig) : Json :=
  .obj [("raw", rawJson cfg.raw), ("topo_order", strings cfg.topoOrder)]

/-- What a cache key covers. -/
inductive Locality where
  | local_ | semantic | reverseSemantic | traced
  deriving DecidableEq, Repr

/-- The meaning of a locality's text; a text without one is local. -/
def Locality.ofText (text : String) : Locality :=
  if text = "semantic" then .semantic
  else if text = "reverse-semantic" then .reverseSemantic
  else if text = "traced" then .traced
  else .local_

/-- The runtime of one derived layer: its contract. -/
structure DerivedLayer where
  /-- Name of the layer. -/
  name : String
  /-- Declared dependencies. -/
  dependsOn : List String
  /-- Version of the generator. -/
  generatorVersion : String
  /-- Hash profile of its keys. -/
  hashProfile : String
  /-- How a stale read is served. -/
  serving : String
  /-- When values are computed again. -/
  recompute : String
  /-- What a cache key covers. -/
  keyLocality : Locality
  /-- Entity kinds it applies to, none for all. -/
  entityKinds : Option (Finset String)

/-- A text, or another one when it is missing or empty. -/
def orElse (text : Option String) (default : String) : String :=
  if text.getD "" = "" then default else text.getD ""

namespace DerivedLayer

/-- The runtime layer of a configured one. -/
def fromConfig (name : String) (cfg : LayerConfig) : DerivedLayer where
  name := name
  dependsOn := cfg.dependsOn
  generatorVersion := orElse cfg.generatorVersion "v0"
  hashProfile := orElse cfg.hashProfile "structure"
  serving := cfg.serving
  recompute := cfg.recompute
  keyLocality := Locality.ofText cfg.keyLocality
  entityKinds := if cfg.entityKinds = [] then none else some cfg.entityKinds.toFinset

/-- Whether the layer is derived from code alone. -/
def isCodeDerived (layer : DerivedLayer) : Bool := layer.dependsOn = ["code"]

/-- Whether keys cover what a producer read. -/
def isTraced (layer : DerivedLayer) : Bool := layer.keyLocality = .traced ∧ layer.isCodeDerived

/-- Whether entities of a kind are processed. -/
def appliesTo (layer : DerivedLayer) (kind : String) : Bool :=
  match layer.entityKinds with
  | none => true
  | some kinds => kind ∈ kinds

/-- The store key of an input hash. -/
def storeKey (layer : DerivedLayer) (inputHash : String) : String :=
  inputHash ++ ":" ++ layer.generatorVersion

/-- Under one version a store key has one input hash. -/
theorem storeKey_injective (layer : DerivedLayer) : Function.Injective layer.storeKey := by
  intro hash hash' h
  unfold storeKey at h
  rwa [String.append_left_inj, String.append_left_inj] at h

end DerivedLayer

/-! ## The graph of layers -/

/-- The derived layers of a session. -/
structure DerivationDAG where
  /-- Layers in dependency order. -/
  layers : List DerivedLayer
  /-- Layers by name. -/
  layerMap : FMap String DerivedLayer
  /-- Names in dependency order. -/
  topoOrder : List String

/-- Build the graph; every dependency other than code is a derived layer. -/
def DerivationDAG.init (layers : List DerivedLayer) (topoOrder : List String) :
    Except String DerivationDAG :=
  let layerMap := layers.foldl (fun m layer => m.insert layer.name layer)
    (∅ : FMap String DerivedLayer)
  match layers.findSome? fun layer => (layer.dependsOn.find? fun dep =>
      dep ≠ "code" ∧ layerMap.lookup dep = none).map (Prod.mk layer.name) with
  | some (name, dep) => .error ("Layer '" ++ name ++ "' depends on unknown layer '" ++ dep ++ "'")
  | none => .ok ⟨layers, layerMap, topoOrder⟩

/-- The derived layers of a configuration, in dependency order. Authored
layers are no part of the graph. -/
def derivedLayers (config : TyConfig) : List DerivedLayer :=
  config.topoOrder.filterMap fun name =>
    if name = "code" then none
    else match config.layers.lookup name with
      | none => none
      | some cfg =>
        if cfg.origin = "authored" then none else some (DerivedLayer.fromConfig name cfg)

/-- The graph of a session without registered layers. -/
def DerivationDAG.fromSession (config : TyConfig) : Except String DerivationDAG :=
  DerivationDAG.init (derivedLayers config) config.topoOrder

/-! ## Inputs -/

/-- Why an input is not resolved. -/
inductive ResolveError where
  /-- The entity is not part of the snapshot. -/
  | absentEntity (id : String)
  /-- The entity has no hash under the profile of the layer. -/
  | noContentHash (id profile : String)
  /-- The first of no dependencies was asked for. -/
  | noDependency
  /-- No derived layer has the name. -/
  | unknownLayer (name : String)
  /-- The node of an absent entity was asked for its hashes. -/
  | absentNode (id : String)
  /-- The upstream layer has no key for the entity. -/
  | noUpstreamHash (id layer : String)
  /-- The upstream layer has no artifact for the entity. -/
  | noUpstreamArtifact (id layer : String)
  /-- The upstream chain never ends. -/
  | recursion
  deriving DecidableEq, Repr

/-- The input of a generator. -/
structure GenInput where
  /-- The entity. -/
  durableId : String
  /-- The text it works on. -/
  source : String
  /-- Kind of the entity. -/
  kind : Option SymbolKindDto

/-- The artifacts of a session, by layer and store key. -/
abbrev Artifacts := String → String → Option Bytes

/-- A derived layer by name. -/
def DerivationDAG.layer (dag : DerivationDAG) (name : String) : Except ResolveError DerivedLayer :=
  match dag.layerMap.lookup name with
  | some layer => .ok layer
  | none => .error (.unknownLayer name)

section Resolving

variable (hashBytes : Bytes → String) (iter : HashOrder String) (decode : Bytes → String)
  (dag : DerivationDAG) (caches : Artifacts) (snap : Snapshot)

/-- The key of an entity of the code under a layer. -/
def codeHash (layer : DerivedLayer) (id contentHash : String) : String :=
  match layer.keyLocality with
  | .semantic => hashBytes (utf8 (contentHash ++ "\x00" ++ hashBytes (utf8
      (pairsText snap.graph layer.hashProfile (dependencyClosure iter snap.graph id)))))
  | .reverseSemantic => hashBytes (utf8 (contentHash ++ "\x00" ++ hashBytes (utf8
      (pairsText snap.graph layer.hashProfile (snap.graph.dependents id)))))
  | .local_ | .traced => contentHash

/-- The key of an entity under an upstream layer, none when an artifact on the
way is missing. -/
def resolveUpstreamHash (id : String) : ℕ → DerivedLayer → Except ResolveError (Option String)
  | 0, _ => .error .recursion
  | fuel + 1, upstream =>
    if upstream.isCodeDerived then
      match snap.graph.symbol id with
      | none => .error (.absentNode id)
      | some node => .ok (node.contentHashes.lookup upstream.hashProfile)
    else
      match upstream.dependsOn with
      | [] => .error .noDependency
      | name :: _ => do
        let upUp ← dag.layer name
        match ← resolveUpstreamHash id fuel upUp with
        | none => return none
        | some hash => return (caches upUp.name (upUp.storeKey hash)).map hashBytes

/-- The input of a layer for an entity, with its key. -/
def resolveInput (layer : DerivedLayer) (id : String) : Except ResolveError (GenInput × String) :=
  if layer.isCodeDerived then
    match snap.graph.symbol id with
    | none => .error (.absentEntity id)
    | some node =>
      match node.contentHashes.lookup layer.hashProfile with
      | none => .error (.noContentHash id layer.hashProfile)
      | some contentHash =>
        .ok (⟨id, snap.entitySource id, some node.kind⟩,
          codeHash hashBytes iter snap layer id contentHash)
  else
    match layer.dependsOn with
    | [] => .error .noDependency
    | name :: _ => do
      let upstream ← dag.layer name
      match ← resolveUpstreamHash hashBytes dag caches snap id (dag.topoOrder.length + 1)
          upstream with
      | none => throw (.noUpstreamHash id name)
      | some hash =>
        match caches upstream.name (upstream.storeKey hash) with
        | none => throw (.noUpstreamArtifact id name)
        | some artifact => return (⟨id, decode artifact, none⟩, hashBytes artifact)

end Resolving

/-! ## Resolved inputs -/

section Resolved

variable {hashBytes : Bytes → String} {iter : HashOrder String} {decode : Bytes → String}
  {dag : DerivationDAG} {caches : Artifacts} {snap : Snapshot} {id hash : String}

/-- An upstream layer has a key by the hash of the entity, or by the artifact of
the layer above it. -/
theorem resolveUpstreamHash_ok_iff {fuel : ℕ} {upstream : DerivedLayer} :
    resolveUpstreamHash hashBytes dag caches snap id (fuel + 1) upstream = .ok (some hash) ↔
      (upstream.isCodeDerived = true ∧ ∃ node, snap.graph.symbol id = some node ∧
        node.contentHashes.lookup upstream.hashProfile = some hash) ∨
      upstream.isCodeDerived = false ∧ ∃ name others upUp upHash artifact,
        upstream.dependsOn = name :: others ∧ dag.layer name = .ok upUp ∧
        resolveUpstreamHash hashBytes dag caches snap id fuel upUp = .ok (some upHash) ∧
        caches upUp.name (upUp.storeKey upHash) = some artifact ∧ hash = hashBytes artifact := by
  rw [resolveUpstreamHash]
  by_cases hcode : upstream.isCodeDerived = true
  · rw [if_pos hcode]
    cases hnode : snap.graph.symbol id with
    | none => simp [hcode]
    | some node => simp [hcode]
  · rw [if_neg hcode]
    rw [Bool.not_eq_true] at hcode
    cases hdeps : upstream.dependsOn with
    | nil => simp [hcode]
    | cons name others =>
      cases hfound : dag.layer name with
      | error e => simp [hcode, hfound, Bind.bind, Except.bind]
      | ok upUp =>
        cases hup : resolveUpstreamHash hashBytes dag caches snap id fuel upUp with
        | error e => simp [hcode, hfound, hup, Bind.bind, Except.bind]
        | ok asked =>
          cases asked with
          | none => simp [hcode, hfound, hup, Bind.bind, Except.bind, pure, Except.pure]
          | some upHash =>
            simp [hcode, hfound, hup, Bind.bind, Except.bind, pure, Except.pure, eq_comm]

/-- An input is resolved from the code, or from the artifact of the layer
above. -/
theorem resolveInput_ok_iff {layer : DerivedLayer} {input : GenInput} :
    resolveInput hashBytes iter decode dag caches snap layer id = .ok (input, hash) ↔
      (layer.isCodeDerived = true ∧ ∃ node content, snap.graph.symbol id = some node ∧
        node.contentHashes.lookup layer.hashProfile = some content ∧
        input = ⟨id, snap.entitySource id, some node.kind⟩ ∧
        hash = codeHash hashBytes iter snap layer id content) ∨
      layer.isCodeDerived = false ∧ ∃ name others upstream upHash artifact,
        layer.dependsOn = name :: others ∧ dag.layer name = .ok upstream ∧
        resolveUpstreamHash hashBytes dag caches snap id (dag.topoOrder.length + 1) upstream =
          .ok (some upHash) ∧
        caches upstream.name (upstream.storeKey upHash) = some artifact ∧
        input = ⟨id, decode artifact, none⟩ ∧ hash = hashBytes artifact := by
  unfold resolveInput
  by_cases hcode : layer.isCodeDerived = true
  · rw [if_pos hcode]
    cases hnode : snap.graph.symbol id with
    | none => simp [hcode]
    | some node =>
      cases hcontent : node.contentHashes.lookup layer.hashProfile with
      | none => simp [hcode, hcontent]
      | some content => simp [hcode, hcontent, eq_comm]
  · rw [if_neg hcode]
    rw [Bool.not_eq_true] at hcode
    cases hdeps : layer.dependsOn with
    | nil => simp [hcode]
    | cons name others =>
      cases hfound : dag.layer name with
      | error e => simp [hcode, hfound, Bind.bind, Except.bind]
      | ok upstream =>
        cases hup : resolveUpstreamHash hashBytes dag caches snap id (dag.topoOrder.length + 1)
            upstream with
        | error e => simp [hcode, hfound, hup, Bind.bind, Except.bind]
        | ok asked =>
          cases asked with
          | none => simp [hcode, hfound, hup, Bind.bind, Except.bind, throw, throwThe,
              MonadExceptOf.throw]
          | some upHash =>
            cases hartifact : caches upstream.name (upstream.storeKey upHash) with
            | none => simp [hcode, hfound, hup, hartifact, Bind.bind, Except.bind, throw, throwThe,
                MonadExceptOf.throw]
            | some artifact =>
              simp [hcode, hfound, hup, hartifact, Bind.bind, Except.bind, pure, Except.pure,
                eq_comm]

/-- An upstream layer has a key for an entity of the graph only. -/
theorem symbol_of_resolveUpstreamHash {fuel : ℕ} {upstream : DerivedLayer}
    (h : resolveUpstreamHash hashBytes dag caches snap id fuel upstream = .ok (some hash)) :
    ∃ node, snap.graph.symbol id = some node := by
  induction fuel generalizing upstream hash with
  | zero => cases h
  | succ fuel ih =>
    rcases resolveUpstreamHash_ok_iff.mp h with
      ⟨-, node, hnode, -⟩ | ⟨-, _, _, upUp, upHash, _, -, -, hup, -, -⟩
    · exact ⟨node, hnode⟩
    · exact ih hup

/-- Only an entity of the graph has an input. -/
theorem symbol_of_resolveInput {layer : DerivedLayer} {input : GenInput}
    (h : resolveInput hashBytes iter decode dag caches snap layer id = .ok (input, hash)) :
    ∃ node, snap.graph.symbol id = some node := by
  rcases resolveInput_ok_iff.mp h with
    ⟨-, node, _, hnode, -⟩ | ⟨-, _, _, upstream, upHash, _, -, -, hup, -⟩
  · exact ⟨node, hnode⟩
  · exact symbol_of_resolveUpstreamHash hup

end Resolved

end Tyo3.DerivedLayers
