import Tyo3.CommitOutcomes

/-!
# Snapshots

A snapshot pins a generation, the current one or a retained one. The
registry, the authored records and the configuration are those of the head at
the moment it is taken, also when it pins an older generation. The code layer
is taken along only with the current generation.
-/

namespace Tyo3.Snapshots

open AuthoredStore CodeLayer CommitFunnel CommitOutcomes CommitPlan ContentStore Entities
  FiniteMaps IdentityAnchors JsonValues SystemPaths

/-- A pinned view. -/
structure Snapshot where
  /-- Project root. -/
  root : SystemPath
  /-- The pinned content. -/
  generation : ContentMap
  /-- The pinned revision. -/
  revision : Revision
  /-- The identity registry. -/
  registry : IdentityRegistry
  /-- The authored records. -/
  authored : AuthoredMap
  /-- The configuration. -/
  config : ValidatedConfig
  /-- Names of the hash profiles. -/
  hashProfiles : Finset String
  /-- Name of the default hash profile. -/
  defaultHashProfile : String
  /-- The code layer, absent when it is built on demand. -/
  codeLayer : Option Layer
  /-- Whether the current generation is pinned. -/
  isHead : Bool

/-- The code layer of a head, absent while it is the empty one of a new
head. -/
def servableCodeLayer (head : HeadState) : Option Layer :=
  if head.codeLayer.isEmpty then none else some head.codeLayer

/-- A snapshot over a generation. -/
def pin (head : HeadState) (generation : ContentMap) (revision : Revision)
    (codeLayer : Option Layer) (isHead : Bool) : Snapshot where
  root := head.root
  generation := generation
  revision := revision
  registry := head.registry
  authored := head.authored
  config := head.config
  hashProfiles := head.hashProfiles
  defaultHashProfile := head.defaultHashProfile
  codeLayer := codeLayer
  isHead := isHead

/-- The snapshot of the current revision. -/
def headSnapshot (head : HeadState) : Snapshot :=
  pin head head.store.capture head.store.revision (servableCodeLayer head) true

/-- Take a snapshot, of the current revision or of a retained one. -/
def snapshot (head : HeadState) : Option Revision → Except String Snapshot
  | none => .ok (headSnapshot head)
  | some r =>
    match head.store.generationAt r with
    | none => .error ("revision " ++ toString r ++ " is no longer retained (oldest retained: " ++
        toString head.store.oldestRetained ++ ")")
    | some generation => .ok (pin head generation r none false)

/-- A snapshot of a retained revision keeps the head of the moment. -/
theorem snapshot_some {head : HeadState} {r : Revision} {s : Snapshot}
    (h : snapshot head (some r) = .ok s) :
    ∃ generation, head.store.generationAt r = some generation ∧
      s = pin head generation r none false := by
  unfold snapshot at h
  dsimp only at h
  split at h
  · cases h
  · rename_i generation hgeneration
    cases h
    exact ⟨generation, hgeneration, rfl⟩

/-! ## Reads of identity -/

/-- The id bound to a qualified path. -/
def Snapshot.byPath (s : Snapshot) (path : String) : Option DurableId := s.registry.byPath.lookup path

/-- The qualified path of an id. -/
def Snapshot.locate (s : Snapshot) (id : DurableId) : Option String :=
  (s.registry.get id).map Anchor.qualifiedPath

/-- The orphaned ids, in the order of the anchor store. -/
def Snapshot.orphaned (iter : HashOrder DurableId) (s : Snapshot) : List DurableId :=
  (iter.order s.registry.byId.keys).filter fun id =>
    decide (s.registry.statusOf id = some .orphaned)

/-- Whether the record of an id in a layer was written for another body than
the one of its live anchor. -/
def flagged (authored : AuthoredMap) (registry : IdentityRegistry) (layer id : String) : Bool :=
  match authored.lookup (layer, id) with
  | none => false
  | some rec =>
    match rec.current.reviewedHash, registry.get id with
    | some reviewed, some anchor =>
      decide (anchor.status ≠ .orphaned) && decide (reviewed ≠ anchor.contentHash)
    | _, _ => false

/-- The flagged ids of all authored layers that ask for review, sorted. -/
def needsReviewIds (config : ValidatedConfig) (authored : AuthoredMap)
    (registry : IdentityRegistry) : List DurableId :=
  HashOrder.increasing.order ((config.topoOrder.flatMap fun name =>
    match config.layers.lookup name with
    | none => []
    | some cfg =>
      if cfg.origin = .authored ∧ cfg.reviewOnChange = true then
        (HashOrder.increasing.order (idsInLayer authored name)).filter (flagged authored registry name)
      else []).toFinset)

/-- The ids to be reviewed. -/
def Snapshot.needsReview (s : Snapshot) : List DurableId :=
  needsReviewIds s.config s.authored s.registry

/-! ## Reads of authored values -/

/-- The status of an authored value, from the anchor of its id. -/
def deriveAuthoredStatus (config : ValidatedConfig) (registry : IdentityRegistry)
    (layer id : String) (reviewed : Option ContentHash) : String :=
  if ((config.layers.lookup layer).map LayerCfg.reviewOnChange).getD false = false then "present"
  else if registry.statusOf id = some .orphaned then "orphaned"
  else match reviewed, (registry.get id).map Anchor.contentHash with
    | some r, some c => if r ≠ c then "needs_review" else "present"
    | _, _ => "present"

/-- What a read of an authored value returns. -/
structure AuthoredValue where
  /-- Layer of the value. -/
  layer : String
  /-- Durable id of the value. -/
  durableId : String
  /-- The value, if there is one. -/
  value : Option Json
  /-- Its status. -/
  status : String
  /-- Revision that wrote it, else the pinned one. -/
  revision : Revision
  deriving DecidableEq

/-- The version a snapshot reads: a head snapshot falls back to the current
version when none is old enough. -/
def Snapshot.versionOf (s : Snapshot) (layer id : String) : Option AuthoredVersion :=
  if s.isHead then (valueAt s.authored layer id s.revision).or (value s.authored layer id)
  else valueAt s.authored layer id s.revision

/-- Read an authored value. -/
def Snapshot.authoredValue (s : Snapshot) (layer id : String) : AuthoredValue :=
  match s.versionOf layer id with
  | some version =>
    ⟨layer, id, some version.value,
      deriveAuthoredStatus s.config s.registry layer id version.reviewedHash, version.revision⟩
  | none => ⟨layer, id, none, "absent", s.revision⟩

/-- The versions of a record with their revisions, oldest first; a snapshot of
the past leaves out those stamped later. -/
def Snapshot.authoredHistory (s : Snapshot) (layer id : String) : List (Json × Revision) :=
  match s.authored.lookup (layer, id) with
  | none => []
  | some rec =>
    ((rec.history ++ [rec.current]).filter fun v =>
      s.isHead || decide (v.revision ≤ s.revision)).map fun v => (v.value, v.revision)

/-- The value that is read is the payload of the version. -/
theorem Snapshot.value_authoredValue (s : Snapshot) (layer id : String) :
    (s.authoredValue layer id).value = (s.versionOf layer id).map AuthoredVersion.value := by
  unfold Snapshot.authoredValue
  cases s.versionOf layer id with
  | none => rfl
  | some version => rfl

end Tyo3.Snapshots
