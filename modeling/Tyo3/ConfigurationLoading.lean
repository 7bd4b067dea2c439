import Tyo3.Configuration
import Tyo3.TomlValues

/-!
# Loading the configuration

The committed file and the local overlay are merged table by table,
references to names are replaced by the values of the names, and the result is
read into the typed tree. The TOML library parses texts; the derived reader of
the tree follows the declarations of its records.
-/

namespace Tyo3.ConfigurationLoading

open FiniteMaps Tyo3.Configuration TomlValues

open AuthoredStore (LayerOrigin)

/-! ## References -/

/-- Replace references in a text, from inside the name of a reference or from
outside of one. -/
def expandChars (resolve : String → Option String) :
    Option (List Char) → List Char → Except ConfigError (List Char)
  | none, '$' :: '\x7b' :: rest => expandChars resolve (some []) rest
  | none, c :: rest => (expandChars resolve none rest).map (c :: ·)
  | none, [] => .ok []
  | some name, '\x7d' :: rest =>
    match resolve (String.ofList name) with
    | some value => (expandChars resolve none rest).map (value.toList ++ ·)
    | none => .error (.undefinedEnv (String.ofList name))
  | some name, c :: rest => expandChars resolve (some (name ++ [c])) rest
  -- an open reference is left as it stands
  | some name, [] => .ok ('$' :: '\x7b' :: name)

/-- Replace the references in a text. -/
def expandString (resolve : String → Option String) (s : String) : Except ConfigError String :=
  (expandChars resolve none s.toList).map String.ofList

mutual

/-- Replace the references in the texts of a value. -/
def expandValue (resolve : String → Option String) : Toml → Except ConfigError Toml
  | .string s => (expandString resolve s).map Toml.string
  | .array items => (expandItems resolve items).map Toml.array
  | .table fields => (expandFields resolve fields).map Toml.table
  | .integer value => .ok (.integer value)
  | .float text => .ok (.float text)
  | .boolean value => .ok (.boolean value)
  | .datetime text => .ok (.datetime text)

/-- Replace the references in values. -/
def expandItems (resolve : String → Option String) : List Toml → Except ConfigError (List Toml)
  | [] => .ok []
  | item :: items => do
    let item ← expandValue resolve item
    let items ← expandItems resolve items
    return item :: items

/-- Replace the references in the values of fields. -/
def expandFields (resolve : String → Option String) :
    List (String × Toml) → Except ConfigError (List (String × Toml))
  | [] => .ok []
  | (key, item) :: fields => do
    let item ← expandValue resolve item
    let fields ← expandFields resolve fields
    return (key, item) :: fields

end

/-! ## Files -/

/-- The fields of a table with one inserted. -/
def insertField (fields : List (String × Toml)) (field : String × Toml) : List (String × Toml) :=
  if field.1 ∈ fields.map Prod.fst then
    fields.map fun f => if f.1 = field.1 then field else f
  else fields ++ [field]

/-- Overlay a value; the fields of a table replace those of the same name. -/
def shallowMerge : Toml → Toml → Toml
  | .table base, .table overlay => .table (overlay.foldl insertField base)
  | _, overlay => overlay

/-- A file: absent, unreadable with the text of the error, or read. -/
abbrev File := Option (Except String String)

/-- The TOML library. -/
structure TomlLibrary where
  /-- Parse a text. -/
  fromStr : String → Except String Toml
  /-- A table is a map. -/
  keyed : ∀ text v, fromStr text = .ok v → v.Keyed
  /-- The text of the error when a value does not fit the typed tree. -/
  complaint : Toml → String

/-- Where the values of names come from. -/
structure Assignment where
  /-- The environment. -/
  env : String → Option String
  /-- The file of secrets. -/
  secrets : File

/-- The two configuration files. -/
structure ConfigFiles where
  /-- The committed file. -/
  config : File
  /-- The local overlay. -/
  configLocal : File

/-- Read and parse a file that is there. -/
def parseFile (lib : TomlLibrary) (file : Except String String) : Except ConfigError Toml :=
  match file with
  | .error e => .error (.parse e)
  | .ok text =>
    match lib.fromStr text with
    | .error e => .error (.parse e)
    | .ok value => .ok value

/-- The texts of the top fields of the file of secrets. -/
def loadSecrets (lib : TomlLibrary) : File → Except ConfigError (List (String × String))
  | none => .ok []
  | some file => do
    match ← parseFile lib file with
    | .table fields => return fields.filterMap fun f => (readString f.2).map (Prod.mk f.1)
    | _ => return []

/-- The value of a name: the environment comes first. -/
def resolve (env : String → Option String) (secrets : List (String × String)) (name : String) :
    Option String :=
  (env name).or (secrets.lookup name)

/-- The committed value with the local overlay. -/
def mergedValue (lib : TomlLibrary) (committed : Except String String) (configLocal : File) :
    Except ConfigError Toml := do
  let value ← parseFile lib committed
  match configLocal with
  | none => return value
  | some file => return shallowMerge value (← parseFile lib file)

/-! ## The typed tree -/

/-- The bound of a 32-bit number. -/
def readU32 : Toml → Option ℕ := readUnsigned (2 ^ 32)

/-- The bound of a 64-bit number. -/
def readU64 : Toml → Option ℕ := readUnsigned (2 ^ 64)

/-- The `project` table. -/
def readProject (v : Toml) : Option ProjectCfg := do
  let fields ← readFields [("name", false)] v
  let name ← optional readString fields "name"
  return { name := name }

/-- The `spine` table. -/
def readSpine (v : Toml) : Option SpineCfg := do
  let fields ← readFields [("retain_cap", true), ("default_hash_profile", true)] v
  let retainCap ← defaulted readU64 256 fields "retain_cap"
  let defaultHashProfile ← defaulted readString "structure" fields "default_hash_profile"
  return { retainCap := retainCap, defaultHashProfile := defaultHashProfile }

/-- A hash profile. -/
def readHashProfile (v : Toml) : Option HashProfileCfg := do
  let fields ← readFields [("whitespace_insensitive", true), ("normalize_trailing_commas", true),
    ("include_comments", true), ("include_docstrings", true)] v
  let whitespaceInsensitive ← defaulted readBool true fields "whitespace_insensitive"
  let normalizeTrailingCommas ← defaulted readBool true fields "normalize_trailing_commas"
  let includeComments ← defaulted readBool false fields "include_comments"
  let includeDocstrings ← defaulted readBool false fields "include_docstrings"
  return { whitespaceInsensitive := whitespaceInsensitive,
           normalizeTrailingCommas := normalizeTrailingCommas,
           includeComments := includeComments, includeDocstrings := includeDocstrings }

/-- The `hashing` table. -/
def readHashing (v : Toml) : Option HashingCfg := do
  let fields ← readFields [("profiles", true)] v
  let profiles ← defaulted (readMap readHashProfile) ∅ fields "profiles"
  return { profiles := profiles }

/-- An origin. -/
def readOrigin : Toml → Option LayerOrigin :=
  readVariant [("derived", .derived), ("authored", .authored)]

/-- A serving mode. -/
def readServing : Toml → Option ServingMode := readVariant [("stale", .stale), ("block", .block)]

/-- A recompute mode. -/
def readRecompute : Toml → Option RecomputeMode := readVariant [("lazy", .lazy), ("eager", .eager)]

/-- A key locality. -/
def readKeyLocality : Toml → Option KeyLocality :=
  readVariant [("local", .local_), ("semantic", .semantic)]

/-- A collection policy. -/
def readGc : Toml → Option GcPolicy := readVariant [("orphans", .orphans), ("never", .never)]

/-- A layer. -/
def readLayer (v : Toml) : Option LayerCfg := do
  let fields ← readFields [("origin", false), ("depends_on", true), ("generator", false),
    ("generator_version", false), ("hash_profile", false), ("store", false), ("serving", true),
    ("recompute", true), ("key_locality", true), ("entity_kinds", true), ("history", true),
    ("review_on_change", true)] v
  let origin ← required readOrigin fields "origin"
  let dependsOn ← defaulted (readVec readString) [] fields "depends_on"
  let generator ← optional readString fields "generator"
  let generatorVersion ← optional readString fields "generator_version"
  let hashProfile ← optional readString fields "hash_profile"
  let store ← optional readString fields "store"
  let serving ← defaulted readServing .block fields "serving"
  let recompute ← defaulted readRecompute .lazy fields "recompute"
  let keyLocality ← optional readKeyLocality fields "key_locality"
  let entityKinds ← defaulted (readVec readString) [] fields "entity_kinds"
  let history ← defaulted readBool true fields "history"
  let reviewOnChange ← defaulted readBool true fields "review_on_change"
  return { origin := origin, dependsOn := dependsOn, generator := generator,
           generatorVersion := generatorVersion, hashProfile := hashProfile, store := store,
           serving := serving, recompute := recompute, keyLocality := keyLocality,
           entityKinds := entityKinds, history := history, reviewOnChange := reviewOnChange }

/-- A generator. -/
def readGenerator (v : Toml) : Option GeneratorCfg := do
  let fields ← readFields [("type", false), ("callable", false), ("command", true),
    ("endpoint", false), ("model", false), ("dim", false), ("batch_size", false),
    ("concurrency", false), ("timeout_ms", false)] v
  let generatorType ← optional readString fields "type"
  let callable ← optional readString fields "callable"
  let command ← defaulted (readVec readString) [] fields "command"
  let endpoint ← optional readString fields "endpoint"
  let model ← optional readString fields "model"
  let dim ← optional readU64 fields "dim"
  let batchSize ← optional readU64 fields "batch_size"
  let concurrency ← optional readU64 fields "concurrency"
  let timeoutMs ← optional readU64 fields "timeout_ms"
  return { generatorType := generatorType, callable := callable, command := command,
           endpoint := endpoint, model := model, dim := dim, batchSize := batchSize,
           concurrency := concurrency, timeoutMs := timeoutMs }

/-- A store. -/
def readStore (v : Toml) : Option StoreCfg := do
  let fields ← readFields [("backend", false), ("path", false), ("url", false), ("metric", false),
    ("dim", false), ("gc", true)] v
  let backend ← required readString fields "backend"
  let path ← optional readString fields "path"
  let url ← optional readString fields "url"
  let metric ← optional readString fields "metric"
  let dim ← optional readU64 fields "dim"
  let gc ← defaulted readGc .never fields "gc"
  return { backend := backend, path := path, url := url, metric := metric, dim := dim, gc := gc }

/-- The `coordination.bus` table. -/
def readBus (v : Toml) : Option BusCfg := do
  let fields ← readFields [("queue_capacity", true), ("overflow", true)] v
  let queueCapacity ← defaulted readU64 1024 fields "queue_capacity"
  let overflow ← defaulted readString "coalesce" fields "overflow"
  return { queueCapacity := queueCapacity, overflow := overflow }

/-- The `coordination.watcher` table. -/
def readWatcher (v : Toml) : Option WatcherCfg := do
  let fields ← readFields [("enabled", true), ("debounce_ms", true)] v
  let enabled ← defaulted readBool false fields "enabled"
  let debounceMs ← defaulted readU64 200 fields "debounce_ms"
  return { enabled := enabled, debounceMs := debounceMs }

/-- The `coordination` table. -/
def readCoordination (v : Toml) : Option CoordinationCfg := do
  let fields ← readFields [("bus", true), ("watcher", true)] v
  let bus ← defaulted readBus {} fields "bus"
  let watcher ← defaulted readWatcher {} fields "watcher"
  return { bus := bus, watcher := watcher }

/-- The `code_graph` table. -/
def readCodeGraph (v : Toml) : Option CodeGraphCfg := do
  let fields ← readFields [("precision", true), ("refinement", true)] v
  let precision ← defaulted readString "container" fields "precision"
  let refinement ← defaulted readString "async" fields "refinement"
  return { precision := precision, refinement := refinement }

/-- The `sidecar` table. -/
def readSidecar (v : Toml) : Option SidecarCfg := do
  let fields ← readFields [("gitignore_cache", true)] v
  let gitignoreCache ← defaulted readBool true fields "gitignore_cache"
  return { gitignoreCache := gitignoreCache }

/-- The whole file. -/
def tryInto (v : Toml) : Option RawConfig := do
  let fields ← readFields [("schema_version", false), ("project", true), ("spine", true),
    ("hashing", true), ("layers", true), ("generators", true), ("stores", true),
    ("coordination", true), ("code_graph", true), ("sidecar", true)] v
  let schemaVersion ← required readU32 fields "schema_version"
  let project ← defaulted readProject {} fields "project"
  let spine ← defaulted readSpine {} fields "spine"
  let hashing ← defaulted readHashing {} fields "hashing"
  let layers ← defaulted (readMap readLayer) ∅ fields "layers"
  let generators ← defaulted (readMap readGenerator) ∅ fields "generators"
  let stores ← defaulted (readMap readStore) ∅ fields "stores"
  let coordination ← defaulted readCoordination {} fields "coordination"
  let codeGraph ← defaulted readCodeGraph {} fields "code_graph"
  let sidecar ← defaulted readSidecar {} fields "sidecar"
  return { schemaVersion := schemaVersion, project := project, spine := spine, hashing := hashing,
           layers := layers, generators := generators, stores := stores,
           coordination := coordination, codeGraph := codeGraph, sidecar := sidecar }

/-- A file without the profile `structure` gets the built-in one. -/
def seedStructure (raw : RawConfig) : RawConfig :=
  match raw.hashing.profiles.lookup "structure" with
  | some _ => raw
  | none => { raw with hashing := ⟨raw.hashing.profiles.insert "structure" {}⟩ }

/-- Expand the merged value and read it. -/
def readExpanded (lib : TomlLibrary) (merged : Toml) (a : Assignment) :
    Except ConfigError RawConfig := do
  let secrets ← loadSecrets lib a.secrets
  let value ← expandValue (resolve a.env secrets) merged
  match tryInto value with
  | some raw => return seedStructure raw
  | none => .error (.parse (lib.complaint value))

/-- Load the configuration; without a committed file it is the default one. -/
def load (lib : TomlLibrary) (files : ConfigFiles) (a : Assignment) :
    Except ConfigError RawConfig :=
  match files.config with
  | none => .ok .defaults
  | some committed => do
    let merged ← mergedValue lib committed files.configLocal
    readExpanded lib merged a

end Tyo3.ConfigurationLoading
