import Tyo3.SemanticKeys

/-!
# Drift between two snapshots

The view of a derived layer compares the hash that an entity itself has at two
revisions, while a read asks for a key that may also cover what the entity
uses, what uses it, or the artifact of an upstream layer. For a key that covers
nothing else the two agree as soon as the entity is hashed under the profile
of the layer; every other kind of key moves on its own.
-/

namespace Tyo3.DriftedKeys

open FiniteMaps JsonValues DerivedLayers SemanticKeys

/-! ## The view of a layer -/

/-- A snapshot with what the views read of its nodes. -/
structure ViewedSnapshot extends Snapshot where
  /-- Content hash of a node under the default profile. -/
  contentHash : String → Option String
  /-- Whether a node stands for something outside of the project. -/
  external : String → Bool

/-- Whether a node is an entity of the code. -/
def isEntityNode (id : String) (external : Bool) : Bool :=
  !external && !("<module>".toList.isPrefixOf id.toList)

namespace DerivedLayerView

/-- The entities that a layer applies to. -/
def ids (cfg : LayerConfig) (snap : ViewedSnapshot) : Finset String :=
  snap.graph.symbols.keys.filter fun id =>
    isEntityNode id (snap.external id) ∧
      (cfg.entityKinds = [] ∨ ∃ node, snap.graph.symbol id = some node ∧
        symbolKindStr node.kind ∈ cfg.entityKinds)

/-- The hash that the view compares. -/
def cacheKey (profile : String) (snap : ViewedSnapshot) (id : String) : Option String :=
  match snap.graph.symbol id with
  | none => none
  | some node => (node.contentHashes.lookup profile).or (snap.contentHash id)

/-- What changed in a layer. -/
structure LayerDiff where
  /-- Name of the layer. -/
  layer : String
  /-- New entities. -/
  added : Finset String
  /-- Entities that are gone. -/
  removed : Finset String
  /-- Entities whose compared hash moved. -/
  drifted : Finset String

/-- The change of a layer from one snapshot to another. -/
def diff (name : String) (cfg : LayerConfig) (after before : ViewedSnapshot) : LayerDiff :=
  let profile := orElse cfg.hashProfile "structure"
  { layer := name
    added := ids cfg after \ ids cfg before
    removed := ids cfg before \ ids cfg after
    drifted := (ids cfg after ∩ ids cfg before).filter fun id =>
      cacheKey profile after id ≠ cacheKey profile before id }

end DerivedLayerView

open DerivedLayerView

/-- The view compares the hash under the profile, or else the default one. -/
theorem cacheKey_eq {profile id : String} {snap : ViewedSnapshot}
    (h : id ∈ snap.graph.symbols.keys) :
    cacheKey profile snap id = (profileHash snap.graph profile id).or (snap.contentHash id) := by
  obtain ⟨node, hnode⟩ := (mem_keys_iff _ _).mp h
  have hsymbol : snap.graph.symbol id = some node := hnode
  unfold cacheKey profileHash
  rw [hsymbol]
  rfl

/-! ## The key of a read -/

section Keys

variable (hashBytes : Bytes → String) (iter : HashOrder String) (decode : Bytes → String)
  (dag : DerivationDAG) (caches : Artifacts)

/-- The input hash that a read of a layer asks for. -/
def resolvedKey (snap : Snapshot) (layer : DerivedLayer) (id : String) : Option String :=
  match resolveInput hashBytes iter decode dag caches snap layer id with
  | .ok (_, hash) => some hash
  | .error _ => none

/-- The artifact of the first dependency of a layer. -/
def upstreamArtifact (snap : Snapshot) (layer : DerivedLayer) (id : String) : Option Bytes :=
  match layer.dependsOn with
  | [] => none
  | name :: _ =>
    match dag.layer name with
    | .error _ => none
    | .ok upstream =>
      match resolveUpstreamHash hashBytes dag caches snap id (dag.topoOrder.length + 1) upstream with
      | .error _ => none
      | .ok asked => asked.bind fun hash => caches upstream.name (upstream.storeKey hash)

variable {hashBytes iter decode dag caches}

/-- A layer of code is keyed by the hash of the entity and what the locality
adds. -/
theorem resolvedKey_code {snap : Snapshot} {layer : DerivedLayer} (hcode : layer.isCodeDerived = true)
    (id : String) :
    resolvedKey hashBytes iter decode dag caches snap layer id =
      (profileHash snap.graph layer.hashProfile id).map (codeHash hashBytes iter snap layer id) := by
  unfold resolvedKey resolveInput profileHash
  rw [if_pos hcode]
  cases hnode : snap.graph.symbol id with
  | none => rfl
  | some node =>
    cases hhash : node.contentHashes.lookup layer.hashProfile with
    | none => simp [hhash]
    | some hash => simp [hhash]

/-- A layer over others is keyed by the artifact of its first dependency. -/
theorem resolvedKey_layer {snap : Snapshot} {layer : DerivedLayer}
    (hcode : layer.isCodeDerived = false) (id : String) :
    resolvedKey hashBytes iter decode dag caches snap layer id =
      (upstreamArtifact hashBytes dag caches snap layer id).map hashBytes := by
  unfold resolvedKey resolveInput upstreamArtifact
  rw [if_neg (by rw [hcode]; simp)]
  cases layer.dependsOn with
  | nil => rfl
  | cons name others =>
    cases hfound : dag.layer name with
    | error e => simp [hfound, bind, Except.bind]
    | ok upstream =>
      simp only [hfound, bind, Except.bind]
      cases resolveUpstreamHash hashBytes dag caches snap id (dag.topoOrder.length + 1) upstream with
      | error e => rfl
      | ok asked =>
        cases asked with
        | none => rfl
        | some hash =>
          simp only [Option.bind_some]
          cases caches upstream.name (upstream.storeKey hash) with
          | none => rfl
          | some artifact => rfl

end Keys

/-! ## Drift and keys -/

/-- The keys of an entity at two snapshots are told apart by the hashes that
the view compares. A layer of code covers nothing that moved alone, and a
missing hash has no part in it; under another layer the hash of the entity
moves with the artifact of the upstream one. -/
def Reflected (hashBytes : Bytes → String) (dag : DerivationDAG) (caches : Artifacts)
    (layer : DerivedLayer) (after before : ViewedSnapshot) (id : String) : Prop :=
  if layer.isCodeDerived then
    match profileHash after.graph layer.hashProfile id,
        profileHash before.graph layer.hashProfile id with
    | some hash, some hash' => hash = hash' → SameSurroundings layer after.graph before.graph id
    | none, none => after.contentHash id = before.contentHash id
    | some hash, none => before.contentHash id ≠ some hash
    | none, some hash' => after.contentHash id ≠ some hash'
  else
    (profileHash after.graph layer.hashProfile id).or (after.contentHash id) =
        (profileHash before.graph layer.hashProfile id).or (before.contentHash id) ↔
      upstreamArtifact hashBytes dag caches after.toSnapshot layer id =
        upstreamArtifact hashBytes dag caches before.toSnapshot layer id

/-- A key of the entity's own hash is told apart by it. -/
theorem reflected_of_local {hashBytes : Bytes → String} {dag : DerivationDAG} {caches : Artifacts}
    {layer : DerivedLayer} {after before : ViewedSnapshot} {id : String}
    (hcode : layer.isCodeDerived = true)
    (hlocal : layer.keyLocality = .local_ ∨ layer.keyLocality = .traced)
    (h : (profileHash after.graph layer.hashProfile id).isSome = true)
    (h' : (profileHash before.graph layer.hashProfile id).isSome = true) :
    Reflected hashBytes dag caches layer after before id := by
  obtain ⟨hash, hhash⟩ := Option.isSome_iff_exists.mp h
  obtain ⟨hash', hhash'⟩ := Option.isSome_iff_exists.mp h'
  unfold Reflected SameSurroundings
  rw [if_pos hcode, hhash, hhash']
  intro _
  rcases hlocal with hlocality | hlocality
  · rw [hlocality]
    trivial
  · rw [hlocality]
    trivial

theorem isDigit_profileHash {g : PinnedGraph} {profile id hash : String}
    (h : profileHash g profile id = some hash) : ∀ c ∈ hash.toList, c.isDigit = true := by
  obtain ⟨node, -, hlookup⟩ := Option.bind_eq_some_iff.mp h
  exact (node.decimal profile hash hlookup).2

/-- An entity of both snapshots is in the drift exactly when its key moved, as
long as the compared hashes tell its keys apart, and not otherwise. -/
theorem drifted_iff_reflected {hashBytes : Bytes → String}
    (hinj : Function.Injective hashBytes) (iter : HashOrder String) (decode : Bytes → String)
    (dag : DerivationDAG) (caches : Artifacts) (name : String) (cfg : LayerConfig)
    {after before : ViewedSnapshot} (hafter : ∀ id ∈ after.graph.symbols.keys, Unseparated id)
    (hbefore : ∀ id ∈ before.graph.symbols.keys, Unseparated id) {id : String}
    (hid : id ∈ ids cfg after) (hid' : id ∈ ids cfg before) :
    (id ∈ (diff name cfg after before).drifted ↔
        resolvedKey hashBytes iter decode dag caches after.toSnapshot
            (DerivedLayer.fromConfig name cfg) id ≠
          resolvedKey hashBytes iter decode dag caches before.toSnapshot
            (DerivedLayer.fromConfig name cfg) id) ↔
      Reflected hashBytes dag caches (DerivedLayer.fromConfig name cfg) after before id := by
  have hdrifted : id ∈ (diff name cfg after before).drifted ↔
      (profileHash after.graph (DerivedLayer.fromConfig name cfg).hashProfile id).or
          (after.contentHash id) ≠
        (profileHash before.graph (DerivedLayer.fromConfig name cfg).hashProfile id).or
          (before.contentHash id) := by
    unfold diff
    rw [Finset.mem_filter, Finset.mem_inter, and_iff_right ⟨hid, hid'⟩,
      cacheKey_eq (Finset.mem_filter.mp hid).1, cacheKey_eq (Finset.mem_filter.mp hid').1]
    rfl
  rw [hdrifted]
  generalize DerivedLayer.fromConfig name cfg = layer
  unfold Reflected
  by_cases hcode : layer.isCodeDerived = true
  · rw [if_pos hcode, resolvedKey_code hcode, resolvedKey_code hcode]
    cases hhash : profileHash after.graph layer.hashProfile id with
    | none =>
      cases hhash' : profileHash before.graph layer.hashProfile id with
      | none => simp
      | some hash' => simp
    | some hash =>
      cases hhash' : profileHash before.graph layer.hashProfile id with
      | none => simpa using not_congr eq_comm
      | some hash' =>
        have hkeys := @codeHash_eq_iff hashBytes hinj iter iter after.toSnapshot before.toSnapshot
          hafter hbefore layer id hash hash' (isDigit_profileHash hhash) (isDigit_profileHash hhash')
        simp only [Option.some_or, Option.map_some, ne_eq, Option.some.injEq, hkeys]
        tauto
  · rw [if_neg hcode, Bool.not_eq_true] at *
    rw [resolvedKey_layer hcode, resolvedKey_layer hcode, ne_eq, ne_eq,
      (Option.map_injective hinj).eq_iff, not_iff_not]

/-! ## A function that uses another one -/

/-- A layer of code with a locality. -/
def meaningConfig (locality : String) : LayerConfig :=
  ⟨"derived", ["code"], some "template", some "1", some "structure", some "artifacts", "block",
    "lazy", locality, [], false, false⟩

/-- Two functions that use each other, as the views read them. -/
def viewedMutual (hash : String) (hdecimal : hash ≠ "" ∧ hash.toList.all Char.isDigit = true) :
    ViewedSnapshot where
  toSnapshot := mutualSnapshot hash hdecimal
  contentHash := fun id => profileHash (mutualSnapshot hash hdecimal).graph "structure" id
  external := fun _ => false

/-- The key of a function under a locality. -/
def mutualKey (locality id : String) (snap : ViewedSnapshot) : Option String :=
  resolvedKey bytesText HashOrder.increasing (fun _ => "") ⟨[], ∅, []⟩ (fun _ _ => none)
    snap.toSnapshot (DerivedLayer.fromConfig "meaning" (meaningConfig locality)) id

/-- A changed function drifts under its own hash. -/
theorem drifted_local :
    "b" ∈ (diff "meaning" (meaningConfig "local") (viewedMutual "3" (by decide))
        (viewedMutual "2" (by decide))).drifted ↔
      mutualKey "local" "b" (viewedMutual "3" (by decide)) ≠
        mutualKey "local" "b" (viewedMutual "2" (by decide)) :=
  (drifted_iff_reflected bytesText_injective HashOrder.increasing (fun _ => "") ⟨[], ∅, []⟩
    (fun _ _ => none) "meaning" (meaningConfig "local") (by decide +kernel) (by decide +kernel)
    (by decide +kernel) (by decide +kernel)).mpr
    (reflected_of_local rfl (.inl rfl) (by decide +kernel) (by decide +kernel))

/-- A semantic key moves without drift. -/
theorem semantic_not_drifted :
    "a" ∈ ids (meaningConfig "semantic") (viewedMutual "3" (by decide)) ∧
    "a" ∈ ids (meaningConfig "semantic") (viewedMutual "2" (by decide)) ∧
    mutualKey "semantic" "a" (viewedMutual "3" (by decide)) ≠
      mutualKey "semantic" "a" (viewedMutual "2" (by decide)) ∧
    "a" ∉ (diff "meaning" (meaningConfig "semantic") (viewedMutual "3" (by decide))
      (viewedMutual "2" (by decide))).drifted := by
  decide +kernel

end Tyo3.DriftedKeys
