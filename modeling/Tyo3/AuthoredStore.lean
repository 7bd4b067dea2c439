import Tyo3.Entities
import Tyo3.FiniteMaps
import Tyo3.JsonValues

/-!
# Authored records

An authored value belongs to a layer and a durable id. The store keeps the
current version and, where the layer asks for it, the versions before it. A
record is persisted as one JSON document.
-/

namespace Tyo3.AuthoredStore

open Entities FiniteMaps JsonValues

/-- One version of an authored value. -/
structure AuthoredVersion where
  /-- The payload. -/
  value : Json
  /-- Revision that wrote it. -/
  revision : Revision
  /-- Content hash of the entity when it was written. -/
  reviewedHash : Option ContentHash
  deriving DecidableEq

/-- The current version with the earlier ones, newest last. -/
structure AuthoredRecord where
  /-- Current version. -/
  current : AuthoredVersion
  /-- Earlier versions. -/
  history : List AuthoredVersion
  deriving DecidableEq

/-- Records by layer and durable id. -/
abbrev AuthoredMap := FMap (String × String) AuthoredRecord

/-- Insert a version. The previous current version moves to the history when
the layer keeps one, else the history is dropped. -/
def put (m : AuthoredMap) (layer id : String) (version : AuthoredVersion) (keepHistory : Bool) :
    AuthoredMap :=
  let history := match m.lookup (layer, id) with
    | some prev => if keepHistory then prev.history ++ [prev.current] else []
    | none => []
  m.insert (layer, id) ⟨version, history⟩

/-- The current version, whatever its revision. -/
def value (m : AuthoredMap) (layer id : String) : Option AuthoredVersion :=
  (m.lookup (layer, id)).map AuthoredRecord.current

/-- The newest version stamped at a revision or before it: the current one
first, then the history from its end. -/
def valueAt (m : AuthoredMap) (layer id : String) (revision : Revision) :
    Option AuthoredVersion :=
  match m.lookup (layer, id) with
  | none => none
  | some rec =>
    if rec.current.revision ≤ revision then some rec.current
    else rec.history.reverse.find? fun v => v.revision ≤ revision

/-- Ids with a record in a layer. -/
def idsInLayer (m : AuthoredMap) (layer : String) : Finset String :=
  (m.keys.filter fun key => key.1 = layer).image Prod.snd

/-- On-disk format version. -/
def authoredFormatVersion : ℕ := 2

/-- A hash as 32 hexadecimal digits. -/
def hashHex (hash : ContentHash) : String := hexText 32 hash.val

/-- The stored form of a version; an absent hash is left out. -/
def versionJson (v : AuthoredVersion) : Json :=
  .obj ([("value", v.value), ("revision", .nat v.revision)] ++
    match v.reviewedHash with
    | some hash => [("reviewed_hash", .str (hashHex hash))]
    | none => [])

/-- The stored form of a record; an empty history is left out. -/
def recordJson (layer id : String) (rec : AuthoredRecord) : Json :=
  .obj ([("format_version", .nat authoredFormatVersion), ("layer", .str layer),
      ("durable_id", .str id), ("current", versionJson rec.current)] ++
    if rec.history = [] then [] else [("history", .arr (rec.history.map versionJson))])

/-- Serialise a record, with a newline at the end. -/
def recordBytes (codec : Codec) (layer id : String) (rec : AuthoredRecord) :
    Except String Bytes :=
  match codec.toVecPretty (recordJson layer id rec) with
  | .ok bytes => .ok (bytes ++ [10])
  | .error e => .error e

/-- Where the values of a layer come from. -/
inductive LayerOrigin where
  | derived | authored
  deriving DecidableEq, Repr

/-- The settings of a layer that commits read. -/
structure LayerCfg where
  /-- Where its values come from. -/
  origin : LayerOrigin
  /-- Whether earlier versions are kept. -/
  history : Bool
  /-- Whether a changed body asks for review. -/
  reviewOnChange : Bool
  deriving DecidableEq, Repr

/-- The validated configuration. -/
structure ValidatedConfig where
  /-- Layers in dependency order. -/
  topoOrder : List String
  /-- Declared layers. -/
  layers : FMap String LayerCfg

/-- The settings of a declared authored layer. -/
def ValidatedConfig.authoredLayerConfig (c : ValidatedConfig) (layer : String) : Option LayerCfg :=
  match c.layers.lookup layer with
  | some cfg => if cfg.origin = .authored then some cfg else none
  | none => none

/-- Declare an authored layer. A layer that is authored already stays as it
is; a derived layer of the same name is an error. -/
def ValidatedConfig.registerAuthoredLayer (c : ValidatedConfig) (name : String)
    (history reviewOnChange : Bool) : Option ValidatedConfig :=
  match c.layers.lookup name with
  | some existing => if existing.origin = .authored then some c else none
  | none => some
      { topoOrder := if c.topoOrder.contains name then c.topoOrder else c.topoOrder ++ [name]
        layers := c.layers.insert name ⟨.authored, history, reviewOnChange⟩ }

end Tyo3.AuthoredStore
