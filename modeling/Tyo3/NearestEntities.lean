import Mathlib.Data.List.TakeWhile
import Tyo3.DriftedKeys
import Tyo3.FirstMatches

/-!
# Nearest entities

A search asks the vector store of a layer and turns the keys it finds into
entities. The way back goes over every content hash of every node: a key is
cut at its first colon, and what stands before it is looked up among the
hashes of all profiles. The version in the key and what else the hash of a key
may cover are left out. An entity keyed by its content hash is found by its key
as long as no hit with another version, or with the hash of another profile,
comes before this key. An entity keyed by a digest is never found by its key.
-/

namespace Tyo3.NearestEntities

open FiniteMaps JsonValues DerivedLayers ArtifactFiles SemanticKeys DriftedKeys FirstMatches

open TracedLayers (tracedFingerprint)

/-! ## The way back -/

section Inverse

variable (nodes profiles : HashOrder String) (g : PinnedGraph)

/-- Note an entity under a hash. -/
def addId (id : String) (found : FMap String (List String)) (hash : String) :
    FMap String (List String) :=
  found.insert hash ((found.lookup hash).getD [] ++ [id])

/-- Note an entity under the hashes of its node. -/
def addNode (found : FMap String (List String)) (id : String) : FMap String (List String) :=
  match g.symbol id with
  | none => found
  | some node =>
    ((profiles.order node.contentHashes.keys).filterMap node.contentHashes.lookup).foldl
      (addId id) found

/-- The entities by hash. -/
def hashToIds : FMap String (List String) :=
  (nodes.order g.symbols.keys).foldl (addNode profiles g) ∅

/-- The entities of a store key. -/
def idsOf (key : String) : List String :=
  ((hashToIds nodes profiles g).lookup (partitionKey key).1).getD []

/-- Whether a node has a hash under some profile. -/
def hasHash (id hash : String) : Bool :=
  match g.symbol id with
  | none => false
  | some node => decide (∃ profile ∈ node.contentHashes.keys,
      node.contentHashes.lookup profile = some hash)

theorem mem_foldl_addId {id other hash : String} (hashes : List String)
    (found : FMap String (List String)) :
    other ∈ ((hashes.foldl (addId id) found).lookup hash).getD [] ↔
      other ∈ (found.lookup hash).getD [] ∨ other = id ∧ hash ∈ hashes := by
  induction hashes generalizing found with
  | nil => simp
  | cons first hashes ih =>
    have hadd : other ∈ ((addId id found first).lookup hash).getD [] ↔
        other ∈ (found.lookup hash).getD [] ∨ other = id ∧ hash = first := by
      unfold addId
      rw [lookup_insert_ite]
      by_cases hsame : hash = first
      · rw [if_pos hsame, Option.getD_some, List.mem_append, List.mem_singleton, hsame]
        simp
      · rw [if_neg hsame]
        simp [hsame]
    rw [List.foldl_cons, ih, hadd, List.mem_cons]
    tauto

theorem mem_addNode {id other hash : String} (found : FMap String (List String)) :
    other ∈ ((addNode profiles g found id).lookup hash).getD [] ↔
      other ∈ (found.lookup hash).getD [] ∨ other = id ∧ hasHash g id hash = true := by
  unfold addNode hasHash
  cases hnode : g.symbol id with
  | none => simp
  | some node =>
    dsimp only
    rw [mem_foldl_addId, List.mem_filterMap, decide_eq_true_eq]
    simp only [HashOrder.mem_order]

theorem mem_foldl_addNode {other hash : String} (ids : List String)
    (found : FMap String (List String)) :
    other ∈ ((ids.foldl (addNode profiles g) found).lookup hash).getD [] ↔
      other ∈ (found.lookup hash).getD [] ∨ other ∈ ids ∧ hasHash g other hash = true := by
  induction ids generalizing found with
  | nil => simp
  | cons first ids ih =>
    rw [List.foldl_cons, ih, mem_addNode, List.mem_cons, or_and_right, or_assoc]
    refine or_congr_right (or_congr_left ?_)
    constructor
    · rintro ⟨heq, hhash⟩
      exact ⟨heq, heq ▸ hhash⟩
    · rintro ⟨heq, hhash⟩
      exact ⟨heq, heq ▸ hhash⟩

/-- The entities of a key are the nodes that have its hash. -/
theorem mem_idsOf {id key : String} :
    id ∈ idsOf nodes profiles g key ↔ hasHash g id (partitionKey key).1 = true := by
  unfold idsOf hashToIds
  rw [mem_foldl_addNode, HashOrder.mem_order]
  constructor
  · rintro (hnone | hnode)
    · exact absurd hnone List.not_mem_nil
    · exact hnode.2
  · intro hhash
    refine .inr ⟨?_, hhash⟩
    unfold hasHash at hhash
    cases hnode : g.symbol id with
    | none =>
      rw [hnode] at hhash
      cases hhash
    | some node => exact (mem_keys_iff _ _).mpr ⟨node, hnode⟩

end Inverse

/-! ## The search -/

section Search

variable {α : Type} (nodes profiles : HashOrder String) (dag : DerivationDAG)
  (backed : DerivedLayer → Bool)

/-- The layer that is searched: the one asked for, or else the first one with
a vector store. -/
def searchedLayer (asked : Option String) : Option String :=
  asked.or (dag.topoOrder.find? fun name => (dag.layerMap.lookup name).any backed)

/-- Search a layer, given what its store finds. -/
def nearest (snap : Snapshot) (asked : Option String) (results : List (String × α)) :
    Except ResolveError (List (String × α)) :=
  if dag.layers.isEmpty then .ok []
  else match searchedLayer dag backed asked with
    | none => .ok []
    | some name => do
      let layer ← dag.layer name
      if !backed layer then return []
      else if results.isEmpty then return []
      else return mapHits (idsOf nodes profiles snap.graph) results

/-- A search goes to the vector store of a layer. -/
structure Searched (asked : Option String) (layer : DerivedLayer) : Prop where
  /-- There are layers. -/
  layers : dag.layers ≠ []
  /-- The layer is found by name. -/
  found : ∃ name, searchedLayer dag backed asked = some name ∧ dag.layer name = .ok layer
  /-- It has a vector store. -/
  vectors : backed layer = true

theorem nearest_eq {snap : Snapshot} {asked : Option String} {layer : DerivedLayer}
    (h : Searched dag backed asked layer) (results : List (String × α)) :
    nearest nodes profiles dag backed snap asked results =
      .ok (mapHits (idsOf nodes profiles snap.graph) results) := by
  obtain ⟨name, hname, hlayer⟩ := h.found
  unfold nearest
  rw [if_neg (by rw [List.isEmpty_iff]; exact h.layers), hname]
  simp only [hlayer, bind, Except.bind, h.vectors]
  cases results with
  | nil => rfl
  | cons first results => rfl

end Search

/-! ## The key of an entity -/

section Keys

variable (hashBytes : Bytes → String) (iter : HashOrder String) (decode : Bytes → String)
  (dag : DerivationDAG) (caches : Artifacts) (reads : String → Option (Finset String))
  (snap : Snapshot) (layer : DerivedLayer)

/-- The input hash of an entity: for a traced layer the fingerprint of what its
producer reads, if it makes an artifact, and otherwise what a read resolves. -/
def inputHash (id : String) : Option String :=
  if layer.isTraced then
    match snap.graph.symbol id with
    | none => none
    | some _ => (reads id).map fun readSet =>
        -- the places that refer to an entity have no part in a fingerprint
        tracedFingerprint hashBytes layer.hashProfile ⟨snap.graph, fun _ => []⟩ id readSet
  else resolvedKey hashBytes iter decode dag caches snap layer id

/-- The store key of an entity under a layer. -/
def keyOf (id : String) : Option String :=
  (inputHash hashBytes iter decode dag caches reads snap layer id).map layer.storeKey

end Keys

/-- An entity is keyed by its own content hash: under a local layer of code, and
under a traced one whose producer reads nothing but the entity. -/
def KeyedByContent (reads : String → Option (Finset String)) (layer : DerivedLayer) (id : String) :
    Prop :=
  layer.isCodeDerived = true ∧
    (layer.keyLocality = .local_ ∨ layer.keyLocality = .traced ∧ reads id = some {id})

instance (reads : String → Option (Finset String)) (layer : DerivedLayer) (id : String) :
    Decidable (KeyedByContent reads layer id) := inferInstanceAs (Decidable (_ ∧ _))

section ContentKeys

variable {hashBytes : Bytes → String} {iter : HashOrder String} {decode : Bytes → String}
  {dag : DerivationDAG} {caches : Artifacts} {reads : String → Option (Finset String)}
  {snap : Snapshot} {layer : DerivedLayer} {id : String}

/-- The input hash of an entity keyed by its content hash. -/
theorem inputHash_of_content (h : KeyedByContent reads layer id) {hash : String}
    (hhash : profileHash snap.graph layer.hashProfile id = some hash) :
    inputHash hashBytes iter decode dag caches reads snap layer id = some hash := by
  obtain ⟨hcode, hlocal | ⟨htraced, hreads⟩⟩ := h
  · unfold inputHash
    rw [if_neg (by simp [DerivedLayer.isTraced, hlocal]), resolvedKey_code hcode, hhash]
    simp [codeHash, hlocal]
  · obtain ⟨node, hnode, -⟩ := Option.bind_eq_some_iff.mp hhash
    have hown : snap.graph.hashOf layer.hashProfile id = hash := by
      change (profileHash snap.graph layer.hashProfile id).getD "" = hash
      rw [hhash]
      rfl
    unfold inputHash
    rw [if_pos (by simp [DerivedLayer.isTraced, htraced, hcode]), hnode, hreads]
    simp [tracedFingerprint, TracedLayers.keyInput, TracedLayers.KeyInput.key, hown]

/-- Without a hash under the profile only a traced layer has a key, that of the
empty hash. -/
theorem inputHash_of_no_content (h : KeyedByContent reads layer id)
    (hnone : profileHash snap.graph layer.hashProfile id = none) :
    inputHash hashBytes iter decode dag caches reads snap layer id =
      if layer.keyLocality = .traced ∧ id ∈ snap.graph.symbols.keys then some "" else none := by
  obtain ⟨hcode, hlocal | ⟨htraced, hreads⟩⟩ := h
  · unfold inputHash
    rw [if_neg (by simp [DerivedLayer.isTraced, hlocal]), resolvedKey_code hcode, hnone,
      if_neg (by simp [hlocal])]
    rfl
  · have hown : snap.graph.hashOf layer.hashProfile id = "" := by
      change (profileHash snap.graph layer.hashProfile id).getD "" = ""
      rw [hnone]
      rfl
    unfold inputHash
    rw [if_pos (by simp [DerivedLayer.isTraced, htraced, hcode]), hreads]
    cases hnode : snap.graph.symbol id with
    | none =>
      have hout : id ∉ snap.graph.symbols.keys := by
        intro hin
        obtain ⟨node, hfound⟩ := (mem_keys_iff _ _).mp hin
        have hsome : snap.graph.symbol id = some node := hfound
        rw [hnode] at hsome
        cases hsome
      rw [if_neg fun hboth => hout hboth.2]
    | some node =>
      have hin : id ∈ snap.graph.symbols.keys := (mem_keys_iff _ _).mpr ⟨node, hnode⟩
      rw [if_pos ⟨htraced, hin⟩]
      simp [tracedFingerprint, TracedLayers.keyInput, TracedLayers.KeyInput.key, hown]

end ContentKeys

/-! ## Hits that carry a hash -/

section Hits

variable (g : PinnedGraph)

/-- A hit carries a content hash of an entity: that of any profile, alone or
with any version. -/
def Carries (id hit : String) : Prop :=
  ∃ profile hash, profileHash g profile id = some hash ∧
    (hit = hash ∨ ∃ version, hit = hash ++ ":" ++ version)

variable {g}

/-- A content hash has no colon. -/
theorem plain_profileHash {profile id hash : String} (h : profileHash g profile id = some hash) :
    Plain hash := by
  obtain ⟨node, -, hlookup⟩ := Option.bind_eq_some_iff.mp h
  refine ⟨(node.decimal profile hash hlookup).1, fun c hc => ?_⟩
  simp [Char.isAlphanum, (node.decimal profile hash hlookup).2 c hc]

/-- Before its first colon a plain name is whole. -/
theorem partitionKey_plain {hash : String} (hplain : Plain hash) : (partitionKey hash).1 = hash := by
  have hcolon : ∀ c ∈ hash.toList, decide (c ≠ ':') = true := by
    intro c hc
    rw [decide_eq_true_iff]
    intro heq
    have halnum := hplain.2 c hc
    rw [heq] at halnum
    exact absurd halnum (by decide)
  unfold partitionKey
  rw [List.takeWhile_eq_self_iff.mpr hcolon, String.ofList_toList]

/-- A key is what stands before its first colon, or this with a version. -/
theorem eq_partitionKey (key : String) :
    key = (partitionKey key).1 ∨ ∃ version, key = (partitionKey key).1 ++ ":" ++ version := by
  have hsplit : key.toList = (partitionKey key).1.toList ++ key.toList.dropWhile (· ≠ ':') := by
    unfold partitionKey
    rw [String.toList_ofList, List.takeWhile_append_dropWhile]
  cases hrest : key.toList.dropWhile (· ≠ ':') with
  | nil =>
    rw [hrest, List.append_nil] at hsplit
    exact .inl (String.toList_injective hsplit)
  | cons c rest =>
    have hcolon : c = ':' := by
      have hhead := List.head?_dropWhile_not (· ≠ ':') key.toList
      rw [hrest] at hhead
      simpa using hhead
    refine .inr ⟨String.ofList rest, String.toList_injective ?_⟩
    rw [hsplit, hrest, hcolon, String.toList_append, String.toList_append, String.toList_ofList,
      List.append_assoc]
    simp

/-- The way back takes a hit to the entities of which it carries a hash. -/
theorem hasHash_partitionKey {id hit : String} :
    hasHash g id (partitionKey hit).1 = true ↔ Carries g id hit := by
  have hmeaning : ∀ hash, hasHash g id hash = true ↔
      ∃ profile, profileHash g profile id = some hash := by
    intro hash
    unfold hasHash profileHash
    cases hnode : g.symbol id with
    | none => simp
    | some node =>
      simp only [decide_eq_true_eq, Option.bind_some]
      constructor
      · rintro ⟨profile, -, hlookup⟩
        exact ⟨profile, hlookup⟩
      · rintro ⟨profile, hlookup⟩
        exact ⟨profile, (mem_keys_iff _ _).mpr ⟨hash, hlookup⟩, hlookup⟩
  rw [hmeaning]
  constructor
  · rintro ⟨profile, hhash⟩
    exact ⟨profile, _, hhash, eq_partitionKey hit⟩
  · rintro ⟨profile, hash, hhash, heq | ⟨version, heq⟩⟩
    · rw [heq, partitionKey_plain (plain_profileHash hhash)]
      exact ⟨profile, hhash⟩
    · rw [heq, partitionKey_of_plain (plain_profileHash hhash)]
      exact ⟨profile, hhash⟩

/-- The key of a content hash carries it. -/
theorem carries_storeKey {layer : DerivedLayer} {profile id hash : String}
    (h : profileHash g profile id = some hash) : Carries g id (layer.storeKey hash) :=
  ⟨profile, hash, h, .inr ⟨layer.generatorVersion, rfl⟩⟩

/-- The empty hash is no content hash. -/
theorem not_carries_empty {layer : DerivedLayer} {id : String} :
    ¬ Carries g id (layer.storeKey "") := by
  rintro ⟨profile, hash, hhash, heq⟩
  have hplain := plain_profileHash hhash
  have hpart : (partitionKey (layer.storeKey "")).1 = hash := by
    rcases heq with heq | ⟨version, heq⟩
    · rw [heq, partitionKey_plain hplain]
    · rw [heq, partitionKey_of_plain hplain]
  refine hplain.1 (hpart.symm.trans ?_)
  simp [partitionKey, DerivedLayer.storeKey]

end Hits

/-! ## Right answers -/

section Right

variable (g : PinnedGraph) (layer : DerivedLayer) (keys : List String) (id : String)

/-- Every hit that carries a content hash of an entity, of whatever profile and
version, is the key of a hash with the version of the layer, or comes after
this key. -/
def LedBy (hash : String) : Prop :=
  ∀ earlier hit later, keys = earlier ++ hit :: later → Carries g id hit →
    hash ++ ":" ++ layer.generatorVersion ∈ earlier ++ [hit]

/-- No hit carries a content hash of an entity. -/
def Uncarried : Prop := ∀ hit ∈ keys, ¬ Carries g id hit

/-- What the hits have to be for an entity. Keyed by its content hash, it is led
by the hash under the profile of the layer; without this hash no hit carries
another one, and under a traced layer none is the key of the empty hash. Keyed
by a digest, no hit carries a content hash and none is its key, unless the
digest is a content hash by accident and leads. -/
def Fits (hashBytes : Bytes → String) (iter : HashOrder String) (decode : Bytes → String)
    (dag : DerivationDAG) (caches : Artifacts) (reads : String → Option (Finset String))
    (snap : Snapshot) (layer : DerivedLayer) (keys : List String) (id : String) : Prop :=
  if KeyedByContent reads layer id then
    match profileHash snap.graph layer.hashProfile id with
    | some hash => LedBy snap.graph layer keys id hash
    | none => Uncarried snap.graph keys id ∧ (layer.keyLocality = .traced →
        id ∈ snap.graph.symbols.keys → ":" ++ layer.generatorVersion ∉ keys)
  else
    match inputHash hashBytes iter decode dag caches reads snap layer id with
    | some digest =>
      (Carries snap.graph id (digest ++ ":" ++ layer.generatorVersion) →
        LedBy snap.graph layer keys id digest) ∧
      (¬ Carries snap.graph id (digest ++ ":" ++ layer.generatorVersion) →
        Uncarried snap.graph keys id ∧ digest ++ ":" ++ layer.generatorVersion ∉ keys)
    | none => Uncarried snap.graph keys id

variable {g layer keys id}

theorem uncarried_iff : Uncarried g keys id ↔
    ∀ hit ∈ keys, hasHash g id (partitionKey hit).1 = false := by
  refine forall₂_congr fun hit _ => ?_
  rw [← hasHash_partitionKey, Bool.not_eq_true]

/-- Where the key of a hash carries a content hash, the way back agrees with it
exactly when the hash leads. -/
theorem findIdx?_eq_iff_ledBy {hash : String} (hcarries : Carries g id (layer.storeKey hash)) :
    (keys.findIdx? (fun key => hasHash g id (partitionKey key).1) =
      keys.findIdx? fun key => decide (some (layer.storeKey hash) = some key)) ↔
      LedBy g layer keys id hash := by
  have hplaces := @findIdx?_eq_iff_of_hit _ (fun key => hasHash g id (partitionKey key).1) keys _
    (layer.storeKey hash) (hasHash_partitionKey.mpr hcarries)
  simp only [hasHash_partitionKey] at hplaces
  simp only [Option.some.injEq]
  exact hplaces

/-- Where it carries none, they agree exactly when there is nothing to find. -/
theorem findIdx?_eq_iff_uncarried {hash : String} (hcarries : ¬ Carries g id (layer.storeKey hash)) :
    (keys.findIdx? (fun key => hasHash g id (partitionKey key).1) =
      keys.findIdx? fun key => decide (some (layer.storeKey hash) = some key)) ↔
      Uncarried g keys id ∧ layer.storeKey hash ∉ keys := by
  have hnone : hasHash g id (partitionKey (layer.storeKey hash)).1 = false := by
    rw [← Bool.not_eq_true, hasHash_partitionKey]
    exact hcarries
  simp only [Option.some.injEq]
  rw [uncarried_iff]
  exact @findIdx?_eq_iff_of_not_hit _ (fun key => hasHash g id (partitionKey key).1) keys _
    (layer.storeKey hash) hnone

/-- The way back agrees with the keys of an entity exactly when the hits fit. -/
theorem findIdx?_eq_iff_fits {hashBytes : Bytes → String} {iter : HashOrder String}
    {decode : Bytes → String} {dag : DerivationDAG} {caches : Artifacts}
    {reads : String → Option (Finset String)} {snap : Snapshot} :
    (keys.findIdx? (fun key => hasHash snap.graph id (partitionKey key).1) =
      keys.findIdx? fun key => decide
        (keyOf hashBytes iter decode dag caches reads snap layer id = some key)) ↔
      Fits hashBytes iter decode dag caches reads snap layer keys id := by
  have hno_key : (keys.findIdx? (fun key => hasHash snap.graph id (partitionKey key).1) =
      keys.findIdx? fun key => decide ((none : Option String) = some key)) ↔
      Uncarried snap.graph keys id := by
    simp only [reduceCtorEq, decide_false]
    rw [findIdx?_eq_none_iff_of_never, uncarried_iff]
  unfold Fits keyOf
  by_cases hcontent : KeyedByContent reads layer id
  · rw [if_pos hcontent]
    cases hhash : profileHash snap.graph layer.hashProfile id with
    | some hash =>
      rw [inputHash_of_content hcontent hhash]
      exact findIdx?_eq_iff_ledBy (carries_storeKey hhash)
    | none =>
      rw [inputHash_of_no_content hcontent hhash]
      by_cases htraced : layer.keyLocality = .traced ∧ id ∈ snap.graph.symbols.keys
      · rw [if_pos htraced]
        refine (findIdx?_eq_iff_uncarried not_carries_empty).trans (and_congr_right fun _ => ?_)
        exact ⟨fun hout _ _ => hout, fun hout => hout htraced.1 htraced.2⟩
      · rw [if_neg htraced]
        refine hno_key.trans (and_iff_left_of_imp fun _ hlocality hin => ?_).symm
        exact absurd ⟨hlocality, hin⟩ htraced
  · rw [if_neg hcontent]
    cases inputHash hashBytes iter decode dag caches reads snap layer id with
    | none => exact hno_key
    | some digest =>
      by_cases hcarries : Carries snap.graph id (layer.storeKey digest)
      · refine (findIdx?_eq_iff_ledBy hcarries).trans ?_
        exact ⟨fun hled => ⟨fun _ => hled, fun hnot => absurd hcarries hnot⟩, fun h => h.1 hcarries⟩
      · refine (findIdx?_eq_iff_uncarried hcarries).trans ?_
        exact ⟨fun hnone => ⟨fun hyes => absurd hyes hcarries, fun _ => hnone⟩,
          fun h => h.2 hcarries⟩

end Right

/-- A search gives the entities of the hits by their keys, whatever the scores
are, exactly when the hits fit every id: under a content key they lead with the
hash of the layer's profile and the version of the layer, under a digest they
hold neither the key nor a content hash. -/
theorem nearest_iff {α : Type} [Nontrivial α] (nodes profiles iter : HashOrder String)
    (hashBytes : Bytes → String) (decode : Bytes → String) (caches : Artifacts)
    (reads : String → Option (Finset String)) (snap : Snapshot) {dag : DerivationDAG}
    {backed : DerivedLayer → Bool} {asked : Option String} {layer : DerivedLayer}
    (hsearched : Searched dag backed asked layer) (keys : List String) :
    (∀ results : List (String × α), results.map Prod.fst = keys →
      ∃ found, nearest nodes profiles dag backed snap asked results = .ok found ∧
        Mapped (fun id key => decide
          (keyOf hashBytes iter decode dag caches reads snap layer id = some key)) results found) ↔
    ∀ id, Fits hashBytes iter decode dag caches reads snap layer keys id := by
  have hloop : ∀ results : List (String × α),
      Mapped (fun id key => hasHash snap.graph id (partitionKey key).1) results
        (mapHits (idsOf nodes profiles snap.graph) results) := by
    intro results
    have hmapped := mapped_mapHits (idsOf nodes profiles snap.graph) results
    have hsame : (fun id key => decide (id ∈ idsOf nodes profiles snap.graph key)) =
        fun id key => hasHash snap.graph id (partitionKey key).1 := by
      funext id key
      rw [Bool.eq_iff_iff, decide_eq_true_eq]
      exact mem_idsOf nodes profiles snap.graph
    rw [hsame] at hmapped
    exact hmapped
  have hright := @mapped_iff _ _ _ _ (fun id key => decide
    (keyOf hashBytes iter decode dag caches reads snap layer id = some key)) _ _ hloop keys
  simp only [nearest_eq nodes profiles dag backed hsearched, Except.ok.injEq, exists_eq_left']
  exact hright.trans (forall_congr' fun id => findIdx?_eq_iff_fits)

/-! ## Two versions of a generator -/

/-- A layer of vectors with a version of its generator. -/
def vectorLayer (version : String) : DerivedLayer :=
  DerivedLayer.fromConfig "embeddings" { meaningConfig "local" with generatorVersion := some version }

/-- The layer alone. -/
def vectorDag (version : String) : DerivationDAG :=
  ⟨[vectorLayer version], (∅ : FMap String DerivedLayer).insert "embeddings" (vectorLayer version),
    ["embeddings"]⟩

theorem searched_vectorDag (version : String) :
    Searched (vectorDag version) (fun _ => true) none (vectorLayer version) := by
  have hlookup : (vectorDag version).layerMap.lookup "embeddings" = some (vectorLayer version) :=
    Finmap.lookup_insert _
  refine ⟨List.cons_ne_nil _ _, ⟨"embeddings", ?_, ?_⟩, rfl⟩
  · unfold searchedLayer
    change Option.or none (List.find? _ ["embeddings"]) = _
    simp [hlookup]
  · unfold DerivationDAG.layer
    rw [hlookup]

/-- The key of a function of the sample. -/
def vectorKey (version id : String) : Option String :=
  keyOf bytesText HashOrder.increasing (fun _ => "") (vectorDag version) (fun _ _ => none)
    (fun _ => none) (mutualSnapshot "2" TracedReads.decimal_two) (vectorLayer version) id

/-- A search in the sample. -/
def vectorSearch (version : String) (results : List (String × ℕ)) :
    Except ResolveError (List (String × ℕ)) :=
  nearest HashOrder.increasing HashOrder.increasing (vectorDag version) (fun _ => true)
    (mutualSnapshot "2" TracedReads.decimal_two) none results

/-- A hit of the version in use gives its function. -/
theorem nearest_current : ∃ found, vectorSearch "v2" [("1:v2", 7)] = .ok found ∧
    Mapped (fun id key => decide (vectorKey "v2" id = some key)) [("1:v2", 7)] found := by
  refine (nearest_iff HashOrder.increasing HashOrder.increasing HashOrder.increasing bytesText
    (fun _ => "") (fun _ _ => none) (fun _ => none) (mutualSnapshot "2" (by decide))
    (searched_vectorDag "v2") ["1:v2"]).mpr (fun id => ?_) [("1:v2", 7)] rfl
  have hcontent : KeyedByContent (fun _ => none) (vectorLayer "v2") id := ⟨by decide, .inl rfl⟩
  have huncarried : hasHash (mutualSnapshot "2" (by decide)).graph id "1" = false →
      Uncarried (mutualSnapshot "2" (by decide)).graph ["1:v2"] id := by
    intro hnone
    refine uncarried_iff.mpr fun hit hhit => ?_
    rw [List.mem_singleton.mp hhit]
    exact hnone
  unfold Fits
  rw [if_pos hcontent]
  by_cases hfirst : id = "a"
  · -- the hit is the key of the function
    have hhash : profileHash (mutualSnapshot "2" (by decide)).graph (vectorLayer "v2").hashProfile
        id = some "1" := by
      rw [hfirst]
      decide +kernel
    rw [hhash]
    intro earlier hit later hsplit _
    cases earlier with
    | nil =>
      cases hsplit
      exact List.mem_singleton_self _
    | cons other earlier => cases earlier <;> cases hsplit
  by_cases hsecond : id = "b"
  · have hhash : profileHash (mutualSnapshot "2" (by decide)).graph (vectorLayer "v2").hashProfile
        id = some "2" := by
      rw [hsecond]
      decide +kernel
    rw [hhash]
    have hnone := huncarried (by rw [hsecond]; decide +kernel)
    intro earlier hit later hsplit hcarries
    exact absurd hcarries (hnone hit (by rw [hsplit]; simp))
  have hsymbol : (mutualSnapshot "2" (by decide)).graph.symbol id = none := by
    unfold PinnedGraph.symbol mutualSnapshot
    rw [Finmap.lookup_insert_of_ne _ hsecond, Finmap.lookup_insert_of_ne _ hfirst]
    exact Finmap.lookup_empty id
  have hhash : profileHash (mutualSnapshot "2" (by decide)).graph (vectorLayer "v2").hashProfile
      id = none := by
    unfold profileHash
    rw [hsymbol]
    rfl
  rw [hhash]
  refine ⟨huncarried ?_, fun htraced => nomatch htraced⟩
  unfold hasHash
  rw [hsymbol]

/-- A hit of an older version gives a function whose key is another one. -/
theorem nearest_older :
    vectorSearch "v2" [("1:v1", 7)] = .ok [("a", 7)] ∧ vectorKey "v2" "a" = some "1:v2" ∧
    ¬ Mapped (fun id key => decide (vectorKey "v2" id = some key)) [("1:v1", 7)] [("a", 7)] := by
  refine ⟨by rfl, by decide +kernel, fun h => ?_⟩
  obtain ⟨entry, hentry, hkey⟩ := (h.matched "a").mp List.mem_cons_self
  rw [List.mem_singleton.mp hentry] at hkey
  exact absurd hkey (by decide +kernel)

end Tyo3.NearestEntities
