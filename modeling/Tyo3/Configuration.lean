import Tyo3.AuthoredStore

/-!
# The project configuration and its validation

The typed tree of the configuration file with its defaults, the order of the
layers by dependency and the checks a configuration passes before a project
opens. A sorted map is visited in the order of its keys. The first failed
check is the error; a check names the key it is about.
-/

namespace Tyo3.Configuration

open FiniteMaps JsonValues

open AuthoredStore (LayerOrigin)

/-- The schema version this release reads. -/
def currentSchemaVersion : ℕ := 1

/-- Why a configuration is rejected. -/
inductive ConfigError where
  | unknownVersion (version : ℕ)
  | danglingRef (key target : String)
  | reservedName (name : String)
  | cycle (cycle : String)
  | originViolation (text : String)
  | unknownKind (kind : String)
  | dimMismatch (text : String)
  | secretInline (key : String)
  | parse (text : String)
  | undefinedEnv (name : String)
  | blockingOverflow (policy : String)
  | invalidValue (key value allowed : String)
  deriving DecidableEq, Repr

/-- A chain of fallible steps succeeds when its parts do. -/
theorem bind_ok {ε α β : Type} {first : Except ε α} {rest : α → Except ε β} {result : β}
    (h : first >>= rest = .ok result) :
    ∃ value, first = .ok value ∧ rest value = .ok result := by
  cases first with
  | error e => exact absurd h (by simp [bind, Except.bind])
  | ok value => exact ⟨value, rfl, h⟩

/-- A step on the result of a fallible one succeeds when that one does. -/
theorem map_ok {α β : Type} {first : Except ConfigError α} {f : α → β} {result : β}
    (h : first.map f = .ok result) : ∃ value, first = .ok value ∧ f value = result := by
  cases first with
  | error e => cases h
  | ok value => exact ⟨value, rfl, Except.ok.inj h⟩

/-! ## The typed tree -/

/-- The `project` table. -/
structure ProjectCfg where
  /-- Name of the project. -/
  name : Option String := none

/-- The `spine` table. -/
structure SpineCfg where
  /-- How many revisions are kept for time travel. -/
  retainCap : ℕ := 256
  /-- Hash profile of layers that name none. -/
  defaultHashProfile : String := "structure"

/-- What the canonical rendering keeps. -/
structure HashProfileCfg where
  /-- Whether white space is ignored. -/
  whitespaceInsensitive : Bool := true
  /-- Whether trailing commas are ignored. -/
  normalizeTrailingCommas : Bool := true
  /-- Whether comments count. -/
  includeComments : Bool := false
  /-- Whether docstrings count. -/
  includeDocstrings : Bool := false

/-- The `hashing` table. -/
structure HashingCfg where
  /-- Hash profiles by name. -/
  profiles : FMap String HashProfileCfg := ∅

/-- How a derived read behaves when the cached value is stale. -/
inductive ServingMode where
  | stale | block
  deriving DecidableEq, Repr

/-- When a derived value is computed again. -/
inductive RecomputeMode where
  | lazy | eager
  deriving DecidableEq, Repr

/-- What the cache key of a derived value covers. -/
inductive KeyLocality where
  | local_ | semantic
  deriving DecidableEq, Repr

/-- A `layers` table. -/
structure LayerCfg where
  /-- Where the values of the layer come from. -/
  origin : LayerOrigin
  /-- Layers it is computed from. -/
  dependsOn : List String := []
  /-- Generator of a derived layer. -/
  generator : Option String := none
  /-- Version of the generator. -/
  generatorVersion : Option String := none
  /-- Hash profile of its keys. -/
  hashProfile : Option String := none
  /-- Store of a derived layer. -/
  store : Option String := none
  /-- How a stale read is served. -/
  serving : ServingMode := .block
  /-- When values are computed again. -/
  recompute : RecomputeMode := .lazy
  /-- What a cache key covers. -/
  keyLocality : Option KeyLocality := none
  /-- Entity kinds it applies to, all when empty. -/
  entityKinds : List String := []
  /-- Whether earlier authored versions are kept. -/
  history : Bool := true
  /-- Whether a changed body asks for review. -/
  reviewOnChange : Bool := true

/-- A `generators` table. -/
structure GeneratorCfg where
  /-- Kind of generator. -/
  generatorType : Option String := none
  /-- Python callable. -/
  callable : Option String := none
  /-- Command line. -/
  command : List String := []
  /-- Address of a service. -/
  endpoint : Option String := none
  /-- Model name. -/
  model : Option String := none
  /-- Dimension of the vectors it makes. -/
  dim : Option ℕ := none
  /-- Inputs of one call. -/
  batchSize : Option ℕ := none
  /-- Calls at one time. -/
  concurrency : Option ℕ := none
  /-- Time limit of a call. -/
  timeoutMs : Option ℕ := none

/-- What happens to values without an entity. -/
inductive GcPolicy where
  | orphans | never
  deriving DecidableEq, Repr

/-- A `stores` table. -/
structure StoreCfg where
  /-- Kind of store. -/
  backend : String
  /-- Place on disk. -/
  path : Option String := none
  /-- Address of a service. -/
  url : Option String := none
  /-- Distance of vectors. -/
  metric : Option String := none
  /-- Dimension of the vectors it holds. -/
  dim : Option ℕ := none
  /-- What happens to values without an entity. -/
  gc : GcPolicy := .never

/-- The `coordination.bus` table. -/
structure BusCfg where
  /-- Events a subscriber may be behind. -/
  queueCapacity : ℕ := 1024
  /-- What happens to a subscriber that is further behind. -/
  overflow : String := "coalesce"

/-- The `coordination.watcher` table. -/
structure WatcherCfg where
  /-- Whether the watcher runs. -/
  enabled : Bool := false
  /-- Quiet time before a batch of events. -/
  debounceMs : ℕ := 200

/-- The `coordination` table. -/
structure CoordinationCfg where
  /-- The event bus. -/
  bus : BusCfg := {}
  /-- The watcher. -/
  watcher : WatcherCfg := {}

/-- The `code_graph` table. -/
structure CodeGraphCfg where
  /-- Granularity of the affected set. -/
  precision : String := "container"
  /-- Where a narrower set is computed. -/
  refinement : String := "async"

/-- The `sidecar` table. -/
structure SidecarCfg where
  /-- Whether the cache is kept out of version control. -/
  gitignoreCache : Bool := true

/-- The whole configuration file. -/
structure RawConfig where
  /-- Version of the file's schema. -/
  schemaVersion : ℕ
  /-- The `project` table. -/
  project : ProjectCfg := {}
  /-- The `spine` table. -/
  spine : SpineCfg := {}
  /-- The `hashing` table. -/
  hashing : HashingCfg := {}
  /-- Layers by name. -/
  layers : FMap String LayerCfg := ∅
  /-- Generators by name. -/
  generators : FMap String GeneratorCfg := ∅
  /-- Stores by name. -/
  stores : FMap String StoreCfg := ∅
  /-- The `coordination` table. -/
  coordination : CoordinationCfg := {}
  /-- The `code_graph` table. -/
  codeGraph : CodeGraphCfg := {}
  /-- The `sidecar` table. -/
  sidecar : SidecarCfg := {}

/-- The configuration of a project without a configuration file. -/
def RawConfig.defaults : RawConfig where
  schemaVersion := currentSchemaVersion
  hashing := ⟨(∅ : FMap String HashProfileCfg).insert "structure" {}⟩

/-- A configuration that passed all checks. -/
structure ValidatedConfig where
  /-- The file. -/
  raw : RawConfig
  /-- Layers in dependency order. -/
  topoOrder : List String

/-- The entries of a sorted map, by increasing key. -/
def entries {V : Type*} (m : FMap String V) : List (String × V) :=
  (HashOrder.increasing.order m.keys).filterMap fun key => (m.lookup key).map (Prod.mk key)

/-! ## The order of the layers -/

/-- Declared dependencies; a derived layer without any is derived from code. -/
def effectiveDependsOn (layer : LayerCfg) : List String :=
  if layer.origin = .derived ∧ layer.dependsOn = [] then ["code"] else layer.dependsOn

/-- Counts of open dependencies and, for each layer, the layers waiting for
it. -/
structure DependencyTable where
  /-- Number of dependencies not yet listed. -/
  incoming : FMap String ℕ
  /-- Layers that wait for a layer, once for each time they name it. -/
  outgoing : FMap String (List String)

/-- Count one dependency of a layer. -/
def addDependency (raw : RawConfig) (name : String) (table : DependencyTable) (dep : String) :
    Except ConfigError DependencyTable :=
  if dep ≠ "code" ∧ raw.layers.lookup dep = none then
    .error (.danglingRef ("layers." ++ name ++ ".depends_on") dep)
  else .ok
    { incoming := table.incoming.insert name ((table.incoming.lookup name).getD 0 + 1)
      outgoing := table.outgoing.insert dep ((table.outgoing.lookup dep).getD [] ++ [name]) }

/-- All nodes start with no open dependency. -/
def startTable (raw : RawConfig) : DependencyTable where
  incoming := (HashOrder.increasing.order raw.layers.keys).foldl (fun m name => m.insert name 0)
    ((∅ : FMap String ℕ).insert "code" 0)
  outgoing := ∅

/-- Count the dependencies of all layers. -/
def dependencyTable (raw : RawConfig) : Except ConfigError DependencyTable :=
  (entries raw.layers).foldlM
    (fun table entry => (effectiveDependsOn entry.2).foldlM (addDependency raw entry.1) table)
    (startTable raw)

/-- The state of the loop that lists the layers. -/
structure Listing where
  /-- Number of dependencies not yet listed. -/
  incoming : FMap String ℕ
  /-- Layers without open dependencies, sorted. -/
  ready : List String
  /-- Layers listed so far. -/
  order : List String

/-- Count one dependency of a waiting layer as listed. The counter is a
64-bit word. -/
def settle (l : Listing) (target : String) : Listing :=
  let count := ((l.incoming.lookup target).getD 0 + (2 ^ 64 - 1)) % 2 ^ 64
  let incoming := l.incoming.insert target count
  if count = 0 then { l with incoming := incoming
                             ready := (l.ready ++ [target]).insertionSort (· ≤ ·) }
  else { l with incoming := incoming }

/-- List the first ready layer until none is ready. -/
def listLayers (outgoing : FMap String (List String)) : ℕ → Listing → Listing
  | 0, l => l
  | fuel + 1, l =>
    match l.ready with
    | [] => l
    | node :: ready =>
      listLayers outgoing fuel
        (((outgoing.lookup node).getD []).insertionSort (· ≤ ·) |>.foldl settle
          { l with ready := ready, order := l.order ++ [node] })

/-- The layers with every dependency before its dependants. -/
def topoOrder (raw : RawConfig) : Except ConfigError (List String) := do
  let table ← dependencyTable raw
  let ready := ((entries table.incoming).filter fun entry => entry.2 = 0).map Prod.fst
  let listing := listLayers table.outgoing table.incoming.keys.card
    ⟨table.incoming, ready.insertionSort (· ≤ ·), []⟩
  if listing.order.length ≠ table.incoming.keys.card then
    let remaining := ((entries listing.incoming).filter fun entry => 0 < entry.2).map Prod.fst
    .error (.cycle (String.intercalate " -> " remaining))
  else .ok listing.order

/-! ## Values that look like secrets -/

/-- Enough letters and digits of every kind for a random token. -/
def highEntropyish (s : String) : Bool :=
  let chars := s.toList
  28 ≤ (chars.filter Char.isAlphanum).length && chars.any Char.isLower && chars.any Char.isUpper &&
    chars.any Char.isDigit

/-- Whether a text looks like a secret. -/
def looksLikeSecret (s : String) : Bool :=
  "sk-".toList.isPrefixOf s.toList || "AKIA".toList.isPrefixOf s.toList ||
    (32 ≤ s.utf8ByteSize && highEntropyish s)

mutual

/-- Reject a value that holds a secret, with the place of the first one. -/
def lintSecretValue (path : String) : Json → Except ConfigError Unit
  | .str s => if looksLikeSecret s then .error (.secretInline path) else .ok ()
  | .arr items => lintSecretItems path 0 items
  | .obj fields => lintSecretFields path fields
  | .null => .ok ()
  | .bool _ => .ok ()
  | .nat _ => .ok ()
  | .real _ => .ok ()

/-- Check the items of an array from an index on. -/
def lintSecretItems (path : String) (idx : ℕ) : List Json → Except ConfigError Unit
  | [] => .ok ()
  | item :: items =>
    match lintSecretValue (path ++ "[" ++ toString idx ++ "]") item with
    | .ok () => lintSecretItems path (idx + 1) items
    | .error e => .error e

/-- Check the fields of an object. -/
def lintSecretFields (path : String) : List (String × Json) → Except ConfigError Unit
  | [] => .ok ()
  | (key, item) :: fields =>
    match lintSecretValue (path ++ "." ++ key) item with
    | .ok () => lintSecretFields path fields
    | .error e => .error e

end

/-- An optional text. -/
def optStr : Option String → Json
  | some s => .str s
  | none => .null

/-- An optional number. -/
def optNat : Option ℕ → Json
  | some n => .nat n
  | none => .null

/-- A list of texts. -/
def strings (texts : List String) : Json := .arr (texts.map Json.str)

/-- A map of tables. -/
def tables {V : Type} (json : V → Json) (m : FMap String V) : Json :=
  .obj ((entries m).map fun entry => (entry.1, json entry.2))

/-- The JSON form of a hash profile. The fields of a JSON object stand in the
order of their names. -/
def hashProfileJson (p : HashProfileCfg) : Json :=
  .obj [("include_comments", .bool p.includeComments),
    ("include_docstrings", .bool p.includeDocstrings),
    ("normalize_trailing_commas", .bool p.normalizeTrailingCommas),
    ("whitespace_insensitive", .bool p.whitespaceInsensitive)]

/-- The JSON form of an origin. -/
def originJson : LayerOrigin → Json
  | .derived => .str "derived"
  | .authored => .str "authored"

/-- The JSON form of a serving mode. -/
def servingJson : ServingMode → Json
  | .stale => .str "stale"
  | .block => .str "block"

/-- The JSON form of a recompute mode. -/
def recomputeJson : RecomputeMode → Json
  | .lazy => .str "lazy"
  | .eager => .str "eager"

/-- The JSON form of a key locality. -/
def keyLocalityJson : Option KeyLocality → Json
  | some .local_ => .str "local"
  | some .semantic => .str "semantic"
  | none => .null

/-- The JSON form of a collection policy. -/
def gcJson : GcPolicy → Json
  | .orphans => .str "orphans"
  | .never => .str "never"

/-- The JSON form of a layer. -/
def layerJson (l : LayerCfg) : Json :=
  .obj [("depends_on", strings l.dependsOn), ("entity_kinds", strings l.entityKinds),
    ("generator", optStr l.generator), ("generator_version", optStr l.generatorVersion),
    ("hash_profile", optStr l.hashProfile), ("history", .bool l.history),
    ("key_locality", keyLocalityJson l.keyLocality), ("origin", originJson l.origin),
    ("recompute", recomputeJson l.recompute), ("review_on_change", .bool l.reviewOnChange),
    ("serving", servingJson l.serving), ("store", optStr l.store)]

/-- The JSON form of a generator. -/
def generatorJson (g : GeneratorCfg) : Json :=
  .obj [("batch_size", optNat g.batchSize), ("callable", optStr g.callable),
    ("command", strings g.command), ("concurrency", optNat g.concurrency), ("dim", optNat g.dim),
    ("endpoint", optStr g.endpoint), ("model", optStr g.model),
    ("timeout_ms", optNat g.timeoutMs), ("type", optStr g.generatorType)]

/-- The JSON form of a store. -/
def storeJson (s : StoreCfg) : Json :=
  .obj [("backend", .str s.backend), ("dim", optNat s.dim), ("gc", gcJson s.gc),
    ("metric", optStr s.metric), ("path", optStr s.path), ("url", optStr s.url)]

/-- The JSON form of the whole configuration. -/
def rawJson (raw : RawConfig) : Json :=
  .obj [("code_graph", .obj [("precision", .str raw.codeGraph.precision),
      ("refinement", .str raw.codeGraph.refinement)]),
    ("coordination", .obj [
      ("bus", .obj [("overflow", .str raw.coordination.bus.overflow),
        ("queue_capacity", .nat raw.coordination.bus.queueCapacity)]),
      ("watcher", .obj [("debounce_ms", .nat raw.coordination.watcher.debounceMs),
        ("enabled", .bool raw.coordination.watcher.enabled)])]),
    ("generators", tables generatorJson raw.generators),
    ("hashing", .obj [("profiles", tables hashProfileJson raw.hashing.profiles)]),
    ("layers", tables layerJson raw.layers),
    ("project", .obj [("name", optStr raw.project.name)]),
    ("schema_version", .nat raw.schemaVersion),
    ("sidecar", .obj [("gitignore_cache", .bool raw.sidecar.gitignoreCache)]),
    ("spine", .obj [("default_hash_profile", .str raw.spine.defaultHashProfile),
      ("retain_cap", .nat raw.spine.retainCap)]),
    ("stores", tables storeJson raw.stores)]

/-- Reject a configuration that holds a secret. -/
def lintSecrets (raw : RawConfig) : Except ConfigError Unit := lintSecretValue "$" (rawJson raw)

/-! ## Validation -/

/-- The entity kinds a layer may name. -/
def knownKinds : List String :=
  ["module", "class", "function", "method", "constructor", "variable", "constant", "field",
    "parameter", "property", "type_parameter", "import"]

/-- Whether a kind may be named. -/
def isKnownKind (kind : String) : Bool := knownKinds.contains kind

/-- Run a check on every layer in the order of their names. -/
def forLayers (raw : RawConfig) (check : String → LayerCfg → Except ConfigError Unit) :
    Except ConfigError Unit :=
  (entries raw.layers).forM fun entry => check entry.1 entry.2

/-- A named table of a derived layer is required and declared. -/
def checkReference {V : Type} (name field : String) (declared : FMap String V) :
    Option String → Except ConfigError Unit
  | none => .error (.originViolation
      ("layers." ++ name ++ "." ++ field ++ " is required for derived layers"))
  | some target =>
    if declared.lookup target |>.isNone then
      .error (.danglingRef ("layers." ++ name ++ "." ++ field) target)
    else .ok ()

/-- The hash profile of a layer, or the default one, is declared. -/
def checkHashProfile (raw : RawConfig) (name : String) (layer : LayerCfg) :
    Except ConfigError Unit :=
  let profile := layer.hashProfile.getD raw.spine.defaultHashProfile
  if (raw.hashing.profiles.lookup profile).isNone then
    .error (.danglingRef ("layers." ++ name ++ ".hash_profile") profile)
  else .ok ()

/-- A derived layer has a declared generator and a declared store. -/
def checkDerived (raw : RawConfig) (name : String) (layer : LayerCfg) : Except ConfigError Unit :=
  if layer.origin = .derived then do
    checkReference name "generator" raw.generators layer.generator
    checkReference name "store" raw.stores layer.store
  else .ok ()

/-- No layer depends on an authored one. -/
def checkDependencies (raw : RawConfig) (name : String) (layer : LayerCfg) :
    Except ConfigError Unit :=
  (effectiveDependsOn layer).forM fun dep =>
    match raw.layers.lookup dep with
    | some depLayer =>
      if depLayer.origin = .authored then
        .error (.originViolation
          ("layers." ++ name ++ ".depends_on references authored layer " ++ dep))
      else .ok ()
    | none => .ok ()

/-- A derived layer names the version of its generator; an authored one sets
no key of derived layers. -/
def checkOrigin (name : String) (layer : LayerCfg) : Except ConfigError Unit :=
  match layer.origin with
  | .derived =>
    if layer.generatorVersion.getD "" = "" then
      .error (.originViolation
        ("layers." ++ name ++ ".generator_version is required for derived layers"))
    else .ok ()
  | .authored =>
    if layer.dependsOn ≠ [] ∨ layer.generator.isSome ∨ layer.generatorVersion.isSome ∨
        layer.hashProfile.isSome ∨ layer.store.isSome then
      .error (.originViolation
        ("layers." ++ name ++ " is authored but defines derived-only keys"))
    else .ok ()

/-- The kinds of a layer are known. -/
def checkKinds (name : String) (layer : LayerCfg) : Except ConfigError Unit :=
  layer.entityKinds.forM fun kind =>
    if isKnownKind kind then .ok ()
    else .error (.unknownKind ("layers." ++ name ++ ".entity_kinds contains " ++ kind))

/-- The generator and the store of a layer agree on the dimension. -/
def checkDimensions (raw : RawConfig) (name : String) (layer : LayerCfg) :
    Except ConfigError Unit :=
  match layer.generator, layer.store with
  | some generator, some store =>
    match (raw.generators.lookup generator).bind GeneratorCfg.dim,
        (raw.stores.lookup store).bind StoreCfg.dim with
    | some generatorDim, some storeDim =>
      if generatorDim ≠ storeDim then
        .error (.dimMismatch ("layers." ++ name ++ ": generator " ++ generator ++ " dim " ++
          toString generatorDim ++ " != store " ++ store ++ " dim " ++ toString storeDim))
      else .ok ()
    | _, _ => .ok ()
  | _, _ => .ok ()

/-- A setting has one of its allowed values. -/
def checkAllowed (key allowed : String) (values : List String) (value : String) :
    Except ConfigError Unit :=
  if values.contains value then .ok () else .error (.invalidValue key value allowed)

/-- Check a configuration and order its layers. -/
def validate (raw : RawConfig) : Except ConfigError ValidatedConfig := do
  if raw.schemaVersion ≠ currentSchemaVersion then
    throw (.unknownVersion raw.schemaVersion)
  if (raw.hashing.profiles.lookup raw.spine.defaultHashProfile).isNone then
    throw (.danglingRef "spine.default_hash_profile" raw.spine.defaultHashProfile)
  forLayers raw (checkHashProfile raw)
  forLayers raw (checkDerived raw)
  if (raw.layers.lookup "code").isSome then
    throw (.reservedName "code")
  let order ← topoOrder raw
  forLayers raw (checkDependencies raw)
  forLayers raw checkOrigin
  forLayers raw checkKinds
  forLayers raw (checkDimensions raw)
  -- A slow subscriber must not stall the writer.
  if !(["coalesce", "drop_and_mark_lagged", "error_and_close"].contains
      raw.coordination.bus.overflow) then
    throw (.blockingOverflow raw.coordination.bus.overflow)
  checkAllowed "code_graph.precision" "container, method" ["container", "method"]
    raw.codeGraph.precision
  checkAllowed "code_graph.refinement" "sync, async" ["sync", "async"] raw.codeGraph.refinement
  lintSecrets raw
  return ⟨raw, order⟩

end Tyo3.Configuration
