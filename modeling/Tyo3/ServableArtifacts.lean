import Tyo3.CollectedLayers

/-!
# What the collection keeps

A read of a layer needs the artifacts of the layers below it. The collection
goes by each layer on its own: it keeps the keys of the entities of the kinds
that the layer applies to, with its own locality folded in. What a layer above
asks for is kept as well when the plain content hash of the entity is the key
of some entity of these kinds. Then every read that was fresh stays so. The
last good artifacts and other versions are kept in any case.
-/

namespace Tyo3.ServableArtifacts

open FiniteMaps JsonValues DerivedLayers ArtifactFiles OrphanCollection LayerChains CollectedLayers

open Tyo3.Configuration (bind_ok)

/-! ## Fresh reads -/

section Reads

variable {rt : Runtime} {dag : DerivationDAG} {σ : DagState} {snap : Snapshot} {id : String}
  {layer : DerivedLayer}

/-- A fresh value of an entity: it is stored under the key of the entity, or
made now. -/
def Served (rt : Runtime) (dag : DerivationDAG) (σ : DagState) (snap : Snapshot)
    (layer : DerivedLayer) (id : String) (artifact : Bytes) : Prop :=
  ∃ input hash, resolve rt dag σ snap layer id = .ok (input, hash) ∧
    ((σ layer.name).store.get (layer.storeKey hash) = some artifact ∨
      (σ layer.name).store.get (layer.storeKey hash) = none ∧ layer.serving ≠ "stale" ∧
        rt.produceArtifact layer snap id input = .artifact artifact)

theorem serveLastGood_ne_fresh (s : LayerState) (artifact : Option Bytes) :
    serveLastGood s id ≠ .value artifact .fresh := by
  unfold serveLastGood
  split
  · split_ifs <;> simp
  · split_ifs <;> simp

/-- When a read returns a fresh value. -/
theorem derived_fresh_iff {name : String} (hsome : dag.layers.isEmpty = false)
    (hlayer : dag.layer name = .ok layer) (artifact : Bytes) :
    (derived rt dag σ snap name id).1 = .value (some artifact) .fresh ↔
      Served rt dag σ snap layer id artifact := by
  unfold derived Served
  rw [hsome, hlayer]
  simp only [Bool.false_eq_true, if_false]
  cases hresolve : resolve rt dag σ snap layer id with
  | error e =>
    simp only [reduceCtorEq, false_and, exists_false, iff_false]
    split_ifs <;> simp
  | ok found =>
    obtain ⟨input, hash⟩ := found
    simp only [Except.ok.injEq, Prod.mk.injEq]
    have hone : (∃ input' hash', (input = input' ∧ hash = hash') ∧
        ((σ layer.name).store.get (layer.storeKey hash') = some artifact ∨
          (σ layer.name).store.get (layer.storeKey hash') = none ∧ layer.serving ≠ "stale" ∧
            rt.produceArtifact layer snap id input' = .artifact artifact)) ↔
        ((σ layer.name).store.get (layer.storeKey hash) = some artifact ∨
          (σ layer.name).store.get (layer.storeKey hash) = none ∧ layer.serving ≠ "stale" ∧
            rt.produceArtifact layer snap id input = .artifact artifact) := by
      constructor
      · rintro ⟨_, _, ⟨rfl, rfl⟩, h⟩
        exact h
      · intro h
        exact ⟨input, hash, ⟨rfl, rfl⟩, h⟩
    rw [hone]
    cases hget : (σ layer.name).store.get (layer.storeKey hash) with
    | some stored => simp
    | none =>
      by_cases hstale : layer.serving = "stale"
      · simp [hstale, serveLastGood_ne_fresh]
      · cases hmade : rt.produceArtifact layer snap id input with
        | artifact made =>
          have hrecompute : ∃ σ', recomputeNow rt dag σ snap layer id = .ok (some made, σ') := by
            unfold recomputeNow
            simp only [hresolve, bind, Except.bind, hget, hmade]
            exact ⟨_, rfl⟩
          obtain ⟨σ', hrecompute⟩ := hrecompute
          simp [hstale, hrecompute]
        | nothing =>
          have hrecompute : recomputeNow rt dag σ snap layer id = .ok (none, σ) := by
            unfold recomputeNow
            simp only [hresolve, bind, Except.bind, hmade]
            rfl
          simp [hstale, hrecompute, serveLastGood_ne_fresh]
        | raised =>
          have hrecompute : ∃ σ', recomputeNow rt dag σ snap layer id = .ok (none, σ') := by
            unfold recomputeNow
            simp only [hresolve, bind, Except.bind, hmade]
            exact ⟨_, rfl⟩
          obtain ⟨σ', hrecompute⟩ := hrecompute
          simp [hstale, hrecompute, serveLastGood_ne_fresh]

end Reads

/-! ## The graph of layers -/

section Graph

variable {layers : List DerivedLayer} {topo : List String} {dag : DerivationDAG}
  (hdag : DerivationDAG.init layers topo = .ok dag)
include hdag

/-- A layer is found under its own name, in a graph that is not empty. -/
theorem name_of_layerMap {name : String} {layer : DerivedLayer}
    (h : dag.layerMap.lookup name = some layer) :
    layer.name = name ∧ dag.layers.isEmpty = false := by
  have hfold : ∀ (todo : List DerivedLayer) (m : FMap String DerivedLayer),
      (∀ n l, m.lookup n = some l → l.name = n) →
      ∀ n l, (todo.foldl (fun m layer => m.insert layer.name layer) m).lookup n = some l →
        l.name = n := by
    intro todo
    induction todo with
    | nil => exact fun _ hm => hm
    | cons first todo ih =>
      intro m hm
      refine ih _ fun n l hl => ?_
      rw [lookup_insert_ite] at hl
      split at hl
      · rename_i heq
        rw [heq, ← Option.some.inj hl]
      · exact hm n l hl
  unfold DerivationDAG.init at hdag
  simp only at hdag
  split at hdag
  · cases hdag
  · cases hdag
    refine ⟨hfold layers ∅ (fun n l hl => by cases hl) name layer h, ?_⟩
    cases layers with
    | nil => cases h
    | cons first rest => rfl

theorem layer_of_iterLayers {layer : DerivedLayer} (h : layer ∈ iterLayers dag) :
    dag.layer layer.name = .ok layer ∧ dag.layers.isEmpty = false := by
  obtain ⟨name, -, hlookup⟩ := List.mem_filterMap.mp h
  obtain ⟨hname, hsome⟩ := name_of_layerMap hdag hlookup
  refine ⟨?_, hsome⟩
  unfold DerivationDAG.layer
  rw [hname, hlookup]

/-- The layers of a chain are those of their names. -/
theorem layer_of_chain {layer : DerivedLayer} (hlayer : dag.layer layer.name = .ok layer)
    {chain : List DerivedLayer} (hchain : chainOf dag layer = .ok chain) {up : DerivedLayer}
    (hup : up ∈ chain) : dag.layer up.name = .ok up := by
  obtain ⟨rest, hhead⟩ := chainFrom_head hchain
  rw [hhead] at hup
  rcases List.mem_cons.mp hup with heq | hin
  · rw [heq]
    exact hlayer
  · obtain ⟨before, after, hsplit⟩ := List.append_of_mem hin
    rw [chainOf, hhead, hsplit] at hchain
    obtain ⟨name, hname⟩ := chainFrom_known hchain
    have hlookup : dag.layerMap.lookup name = some up := by
      unfold DerivationDAG.layer at hname
      split at hname
      · rename_i found hfound
        rw [hfound, Except.ok.inj hname]
      · cases hname
    rw [(name_of_layerMap hdag hlookup).1]
    exact hname

end Graph

/-! ## The property and the condition -/

/-- What the collection owes to a layer in a state of the layers. -/
structure Kept (rt : Runtime) (cfg : SessionConfig) (dag : DerivationDAG) (session : Session)
    (layer : DerivedLayer) (σ : DagState) : Prop where
  /-- Reads that were fresh return the same. -/
  fresh : ∀ snap, session.Readable snap → ∀ id node artifact, snap.graph.symbol id = some node →
    layer.appliesTo (symbolKindStr node.kind) = true →
    (derived rt dag σ snap layer.name id).1 = .value (some artifact) .fresh →
    (derived rt dag (gcOrphans rt cfg dag session σ).1 snap layer.name id).1 =
      .value (some artifact) .fresh
  /-- Last good artifacts stay. -/
  lastGood : ∀ id key, (σ layer.name).lastGood.lookup id = some key →
    ((gcOrphans rt cfg dag session σ).1 layer.name).store.get key = (σ layer.name).store.get key
  /-- Artifacts of other versions stay. -/
  versions : ∀ hash version, Plain hash → version ≠ layer.generatorVersion →
    ((gcOrphans rt cfg dag session σ).1 layer.name).store.get (hash ++ ":" ++ version) =
      (σ layer.name).store.get (hash ++ ":" ++ version)

/-- The hash that an entity with a content hash is looked up under: a layer
over code folds in its locality, a layer over others asks below with the plain
hash. -/
def askedFrom (rt : Runtime) (snap : Snapshot) (layer : DerivedLayer) (id hash : String) : String :=
  if layer.isCodeDerived then codeHash rt.hashBytes rt.iter snap layer id hash else hash

/-- Some entity that the collection looks at, of a kind of a layer, is looked
up under a hash. -/
def Covers (rt : Runtime) (candidates : List Snapshot) (up bottom : DerivedLayer) (start : String) :
    Prop :=
  ∃ other ∈ candidates, ∃ id node hash, other.graph.symbol id = some node ∧
    up.appliesTo (symbolKindStr node.kind) = true ∧
    node.contentHashes.lookup bottom.hashProfile = some hash ∧
    askedFrom rt other up id hash = start

/-- Every layer that is collected on the way down from a collected layer looks
at an entity under the hash that is asked for. -/
def Covered (rt : Runtime) (cfg : SessionConfig) (dag : DerivationDAG) (session : Session) : Prop :=
  ∀ head, session.headGraph = some head →
    ∀ layer ∈ iterLayers dag, Collects cfg layer → ∀ snap, session.Readable snap →
    ∀ id node, snap.graph.symbol id = some node →
      layer.appliesTo (symbolKindStr node.kind) = true →
    ∀ chain, chainOf dag layer = .ok chain → ∀ bottom, chain.getLast? = some bottom →
    ∀ hash, node.contentHashes.lookup bottom.hashProfile = some hash →
    ∀ up ∈ chain, Collects cfg up → Listed up.generatorVersion →
      Reached cfg dag (session.retained head) up →
      Covers rt (session.retained head) up bottom (askedFrom rt snap layer id hash)

/-! ## Last good artifacts and other versions -/

section Versions

variable {rt : Runtime} {dag : DerivationDAG} {σ τ : DagState} {layer : DerivedLayer}
  {candidates : List Snapshot} {keys : Finset String}

/-- One step goes by keys of the version of its layer. -/
theorem version_of_kept (hkeys : reachableKeys rt dag τ layer candidates = .ok keys)
    {version : String} (h : version ∈ FsStore.versions (kept τ layer keys)) :
    version = layer.generatorVersion := by
  obtain ⟨key, hkey, hversion⟩ := Finset.mem_image.mp h
  have hin := (Finset.mem_filter.mp hkey).1
  rw [← hversion]
  rcases Finset.mem_union.mp hin with hreached | hgood
  · obtain ⟨candidate, -, id, node, input, hash, hnode, -, hresolve, heq⟩ :=
      (mem_reachableKeys hkeys key).mp hreached
    have hplain := plain_resolve hnode hresolve
    rw [heq]
    unfold DerivedLayer.storeKey
    rw [partitionKey_of_plain hplain]
  · exact (Finset.mem_filter.mp hgood).2

/-- The last good keys of the version of a layer are kept. -/
theorem mem_lastGoodKeys {s : LayerState} {id hash : String} (hplain : Plain hash)
    (h : s.lastGood.lookup id = some (layer.storeKey hash)) :
    layer.storeKey hash ∈ lastGoodKeys layer s := by
  unfold lastGoodKeys
  rw [Finset.mem_filter, Finset.mem_biUnion]
  refine ⟨⟨id, (mem_keys_iff _ _).mpr ⟨_, h⟩, ?_⟩, ?_⟩
  · rw [h]
    simp
  · unfold DerivedLayer.storeKey
    rw [partitionKey_of_plain hplain]

variable {cfg : SessionConfig}

/-- What a run leaves in the store of a layer whatever it collects. -/
structure Spared (layer : DerivedLayer) (σ τ : DagState) : Prop where
  /-- The state stays sound. -/
  sound : Sound τ
  /-- It only loses artifacts. -/
  shrunk : Shrunk σ τ
  /-- Last good artifacts stay. -/
  lastGood : ∀ id key, (σ layer.name).lastGood.lookup id = some key →
    (τ layer.name).store.get key = (σ layer.name).store.get key
  /-- Artifacts of other versions stay. -/
  versions : ∀ hash version, Plain hash → version ≠ layer.generatorVersion →
    (τ layer.name).store.get (hash ++ ":" ++ version) =
      (σ layer.name).store.get (hash ++ ":" ++ version)

theorem Spared.step {other : DerivedLayer} (hname : other.name = layer.name → other = layer)
    (hkeys : reachableKeys rt dag τ other candidates = .ok keys) (h : Spared layer σ τ) :
    Spared layer σ (gcStore rt τ other keys) := by
  have hget : ∀ hash version, Plain hash →
      (other = layer → ¬ Collected (kept τ other keys) hash version) →
      ((gcStore rt τ other keys) layer.name).store.get (hash ++ ":" ++ version) =
        (τ layer.name).store.get (hash ++ ":" ++ version) := by
    intro hash version hplain hnot
    rw [get_gcStore h.sound hplain, if_neg]
    exact fun hboth => hnot (hname hboth.1.symm) hboth.2
  refine ⟨h.sound.gcStore rt other keys, h.shrunk.trans (shrunk_gcStore rt τ other keys), ?_, ?_⟩
  · intro id key hgood
    have hgood' : (τ layer.name).lastGood.lookup id = some key := by
      rw [h.shrunk.lastGood]
      exact hgood
    obtain ⟨hash, version, hplain, heq⟩ := (h.sound layer.name).2 id key hgood'
    rw [← h.lastGood id key hgood, heq]
    refine hget hash version hplain fun hsame hcollected => hcollected.1 ?_
    have hversion := version_of_kept hkeys hcollected.2.1
    rw [heq, hversion, hsame] at hgood'
    rw [hversion, hsame]
    exact Finset.mem_union_right _ (mem_lastGoodKeys hplain hgood')
  · intro hash version hplain hother
    rw [← h.versions hash version hplain hother]
    refine hget hash version hplain fun hsame hcollected => hother ?_
    rw [version_of_kept hkeys hcollected.2.1, hsame]

end Versions

/-! ## Chains that stay intact -/

/-- A chain that gives a hash starts from a content hash. -/
theorem lookup_of_askedHash {hashBytes : Bytes → String} {caches : Artifacts}
    {hashes : FMap String String} {chain : List DerivedLayer} {bottom : DerivedLayer} {asked : String}
    (hlast : chain.getLast? = some bottom)
    (h : askedHash hashBytes caches hashes chain = some asked) :
    ∃ hash, hashes.lookup bottom.hashProfile = some hash := by
  induction chain generalizing asked with
  | nil => cases h
  | cons layer chain ih =>
    cases chain with
    | nil =>
      cases hlast
      exact ⟨asked, h⟩
    | cons upstream chain =>
      rw [askedHash] at h
      obtain ⟨found, hfound, -⟩ := Option.bind_eq_some_iff.mp h
      exact ih (by simpa using hlast) hfound

section Chain

variable {rt : Runtime} {cfg : SessionConfig} {layers : List DerivedLayer} {topo : List String}
  {dag : DerivationDAG} {snap : Snapshot} {id : String} {node : SymbolNode} {layer : DerivedLayer}
  {chain : List DerivedLayer} {candidates : List Snapshot} {σ τ : DagState}

/-- The artifacts that a read asks for are those of an earlier state. -/
structure Intact (rt : Runtime) (snap : Snapshot) (id : String) (node : SymbolNode)
    (layer : DerivedLayer) (chain : List DerivedLayer) (σ τ : DagState) : Prop where
  /-- The state is sound. -/
  sound : Sound τ
  /-- It only lost artifacts. -/
  shrunk : Shrunk σ τ
  /-- Each layer of the chain has what it is asked for. -/
  artifacts : ∀ before up rest hash, chain = before ++ up :: rest →
    ownHash rt.hashBytes rt.iter σ.artifacts snap id node layer (up :: rest) = some hash →
    (τ up.name).store.get (up.storeKey hash) = (σ up.name).store.get (up.storeKey hash)

/-- Along an intact chain the hashes are the same. -/
theorem Intact.ownHash_eq (h : Intact rt snap id node layer chain σ τ) {before : List DerivedLayer}
    {up : DerivedLayer} {rest : List DerivedLayer} (hsplit : chain = before ++ up :: rest) :
    ownHash rt.hashBytes rt.iter τ.artifacts snap id node layer (up :: rest) =
      ownHash rt.hashBytes rt.iter σ.artifacts snap id node layer (up :: rest) := by
  unfold ownHash
  by_cases hcode : layer.isCodeDerived = true
  · rw [if_pos hcode, if_pos hcode]
  · rw [if_neg hcode, if_neg hcode]
    induction rest generalizing before up with
    | nil => rfl
    | cons next rest ih =>
      have hnext : chain = (before ++ [up]) ++ next :: rest := by
        rw [hsplit, List.append_assoc, List.singleton_append]
      rw [askedHash, askedHash, ih hnext]
      cases hasked : askedHash rt.hashBytes σ.artifacts node.contentHashes (next :: rest) with
      | none => rfl
      | some hash =>
        have hown : ownHash rt.hashBytes rt.iter σ.artifacts snap id node layer (next :: rest) =
            some hash := by
          unfold ownHash
          rw [if_neg hcode]
          exact hasked
        have hartifact : τ.artifacts next.name (next.storeKey hash) =
            σ.artifacts next.name (next.storeKey hash) := h.artifacts _ next rest hash hnext hown
        rw [Option.bind_some, Option.bind_some, hartifact]

variable (hnode : snap.graph.symbol id = some node) (hchain : chainOf dag layer = .ok chain)
include hchain

theorem lookup_of_ownHash {caches : Artifacts} {before : List DerivedLayer} {up : DerivedLayer}
    {rest : List DerivedLayer} (hsplit : chain = before ++ up :: rest) {bottom : DerivedLayer}
    (hlast : chain.getLast? = some bottom) {asked : String}
    (hasked : ownHash rt.hashBytes rt.iter caches snap id node layer (up :: rest) = some asked) :
    ∃ hash, node.contentHashes.lookup bottom.hashProfile = some hash := by
  unfold ownHash at hasked
  by_cases hcode : layer.isCodeDerived = true
  · rw [chainFrom_of_code hchain hcode] at hlast
    have hlayer : layer = bottom := Option.some.inj hlast
    rw [if_pos hcode, hlayer] at hasked
    obtain ⟨hash, hhash, -⟩ := Option.map_eq_some_iff.mp hasked
    exact ⟨hash, hhash⟩
  · rw [if_neg hcode] at hasked
    rw [hsplit, List.getLast?_append_of_ne_nil _ (List.cons_ne_nil up rest)] at hlast
    exact lookup_of_askedHash hlast hasked

/-- A covered key on an intact chain is reachable. -/
theorem Intact.mem_reachable (h : Intact rt snap id node layer chain σ τ)
    {before : List DerivedLayer} {up : DerivedLayer} {rest : List DerivedLayer}
    (hsplit : chain = before ++ up :: rest) {asked : String}
    (hasked : ownHash rt.hashBytes rt.iter σ.artifacts snap id node layer (up :: rest) = some asked)
    {bottom : DerivedLayer} (hlast : chain.getLast? = some bottom) {hash : String}
    (hhash : node.contentHashes.lookup bottom.hashProfile = some hash)
    (hcovers : Covers rt candidates up bottom (askedFrom rt snap layer id hash))
    {keys : Finset String} (hkeys : reachableKeys rt dag τ up candidates = .ok keys) :
    up.storeKey asked ∈ keys := by
  obtain ⟨other, hother, id', node', hash', hnode', happlies, hhash', hsame⟩ := hcovers
  have hupchain : chainOf dag up = .ok (up :: rest) := chainFrom_suffix (hsplit ▸ hchain)
  have hlast' : (up :: rest).getLast? = some bottom := by
    rw [hsplit, List.getLast?_append_of_ne_nil _ (List.cons_ne_nil up rest)] at hlast
    exact hlast
  have hcodeOf := chainFrom_code (hsplit ▸ hchain : chainFrom dag _ layer = .ok (before ++ up :: rest))
  have hown : ownHash rt.hashBytes rt.iter τ.artifacts other id' node' up (up :: rest) =
      some asked := by
    have hτ := h.ownHash_eq hsplit
    rw [hasked] at hτ
    unfold askedFrom at hsame
    unfold ownHash at hτ hasked ⊢
    by_cases hup : up.isCodeDerived = true
    · have hrest := hcodeOf.mp hup
      rw [hrest] at hlast' hasked
      have hbottom : up = bottom := Option.some.inj hlast'
      rw [if_pos hup] at hsame ⊢
      rw [hbottom, hhash', Option.map_some, ← hbottom, hsame]
      by_cases hcode : layer.isCodeDerived = true
      · rw [if_pos hcode] at hasked ⊢
        have hlayer : layer = bottom := by
          rw [chainFrom_of_code hchain hcode] at hlast
          exact Option.some.inj hlast
        rw [hlayer, hhash, Option.map_some] at hasked
        rw [hlayer]
        exact hasked
      · rw [if_neg hcode] at hasked ⊢
        rw [askedHash, hbottom, hhash] at hasked
        exact hasked
    · have hcode : ¬ layer.isCodeDerived = true := by
        intro hcode
        have hin : up ∈ chain := by
          rw [hsplit]
          exact List.mem_append_right _ List.mem_cons_self
        rw [chainFrom_of_code hchain hcode, List.mem_singleton] at hin
        exact hup (hin ▸ hcode)
      rw [if_neg hup] at hsame ⊢
      rw [if_neg hcode] at hτ hsame
      rw [← hτ]
      apply askedHash_congr hlast'
      rw [hhash', hhash, hsame]
  obtain ⟨input, hresolve⟩ := (resolveInput_ok_iff_ownHash hnode' hupchain asked).mpr hown
  exact (mem_reachableKeys hkeys _).mpr
    ⟨other, hother, id', node', input, asked, hnode', happlies, hresolve, rfl⟩

/-- A step that covers its layer leaves a chain intact. -/
theorem Intact.step (hdag : DerivationDAG.init layers topo = .ok dag)
    (hlayer : dag.layer layer.name = .ok layer) {other : DerivedLayer}
    (hother : dag.layer other.name = .ok other)
    (hcovers : other ∈ chain → Listed other.generatorVersion → ∀ bottom hash,
      chain.getLast? = some bottom → node.contentHashes.lookup bottom.hashProfile = some hash →
      Covers rt candidates other bottom (askedFrom rt snap layer id hash))
    {keys : Finset String} (hkeys : reachableKeys rt dag τ other candidates = .ok keys)
    (h : Intact rt snap id node layer chain σ τ) :
    Intact rt snap id node layer chain σ (gcStore rt τ other keys) := by
  refine ⟨h.sound.gcStore rt other keys, h.shrunk.trans (shrunk_gcStore rt τ other keys), ?_⟩
  intro before up rest asked hsplit hasked
  have hplain := plain_ownHash hasked
  have hin : up ∈ chain := by
    rw [hsplit]
    exact List.mem_append_right _ List.mem_cons_self
  rw [← h.artifacts before up rest asked hsplit hasked]
  unfold DerivedLayer.storeKey
  rw [get_gcStore h.sound hplain, if_neg]
  rintro ⟨hname, hcollected⟩
  have hsame : up = other := by
    have hup := layer_of_chain hdag hlayer hchain hin
    rw [hname, hother] at hup
    exact (Except.ok.inj hup).symm
  have hlast := List.getLast?_eq_some_getLast (List.ne_nil_of_mem hin)
  obtain ⟨hash, hhash⟩ := lookup_of_ownHash hchain hsplit hlast hasked
  rw [← hsame] at hcollected hcovers hkeys
  have hkey := h.mem_reachable hchain hsplit hasked hlast hhash
    (hcovers hin hcollected.2.2 _ hash hlast hhash) hkeys
  exact hcollected.1 (Finset.mem_union_left _ hkey)

include hnode

/-- What is served over an intact chain is served again. -/
theorem Intact.served (h : Intact rt snap id node layer chain σ τ) {artifact : Bytes}
    (hserved : Served rt dag σ snap layer id artifact) :
    Served rt dag τ snap layer id artifact := by
  obtain ⟨input, hash, hresolve, hget⟩ := hserved
  have hown := (resolveInput_ok_iff_ownHash hnode hchain hash).mp ⟨input, hresolve⟩
  obtain ⟨rest, hhead⟩ := chainFrom_head hchain
  have hsame := h.artifacts [] layer rest hash hhead (hhead ▸ hown)
  rw [← hsame] at hget
  refine ⟨input, hash, ?_, hget⟩
  unfold resolve at hresolve ⊢
  by_cases hcode : layer.isCodeDerived = true
  · rw [resolveInput_code hnode hcode] at hresolve ⊢
    exact hresolve
  · cases rest with
    | nil =>
      have hin : chainFrom dag _ layer = .ok ([] ++ layer :: []) := hhead ▸ hchain
      exact absurd ((chainFrom_code hin).mpr rfl) hcode
    | cons upstream rest =>
      have hchain' : chainOf dag layer = .ok (layer :: upstream :: rest) := hhead ▸ hchain
      have hsplit : chain = [layer] ++ upstream :: rest := hhead
      have hequal := h.ownHash_eq hsplit
      unfold ownHash at hequal
      rw [if_neg hcode, if_neg hcode] at hequal
      obtain ⟨name, hinput⟩ := @resolveInput_chain rt.hashBytes rt.iter rt.decode dag σ.artifacts
        snap id node hnode layer upstream rest hchain'
      obtain ⟨name', hinput'⟩ := @resolveInput_chain rt.hashBytes rt.iter rt.decode dag τ.artifacts
        snap id node hnode layer upstream rest hchain'
      rw [hinput] at hresolve
      rw [hinput', hequal]
      cases hasked : askedHash rt.hashBytes σ.artifacts node.contentHashes (upstream :: rest) with
      | none =>
        rw [hasked] at hresolve
        cases hresolve
      | some asked =>
        have hupstream : τ.artifacts upstream.name (upstream.storeKey asked) =
            σ.artifacts upstream.name (upstream.storeKey asked) := by
          refine h.artifacts [layer] upstream rest asked hsplit ?_
          unfold ownHash
          rw [if_neg hcode]
          exact hasked
        rw [hasked] at hresolve
        simp only at hresolve ⊢
        rw [hupstream]
        cases hartifact : σ.artifacts upstream.name (upstream.storeKey asked) with
        | none =>
          rw [hartifact] at hresolve
          cases hresolve
        | some found =>
          rw [hartifact] at hresolve
          exact hresolve

end Chain

/-! ## Whole collections -/

section Collections

variable {rt : Runtime} {cfg : SessionConfig} {layers : List DerivedLayer} {topo : List String}
  {dag : DerivationDAG} (hdag : DerivationDAG.init layers topo = .ok dag) {session : Session}
  {σ : DagState} (hsound : Sound σ)
include hdag hsound

/-- Last good artifacts and other versions are spared. -/
theorem spared_gcOrphans {layer : DerivedLayer} (hlayer : layer ∈ iterLayers dag) :
    Spared layer σ (gcOrphans rt cfg dag session σ).1 := by
  have hstart : Spared layer σ σ := ⟨hsound, Shrunk.refl σ, fun _ _ _ => rfl, fun _ _ _ _ => rfl⟩
  unfold gcOrphans
  split
  · exact hstart
  · split
    · exact hstart
    · refine collectLayers_keeps (P := fun τ => Spared layer σ τ) (iterLayers dag) ?_ hstart
      intro before other after hsplit _ _ τ keys hkeys hτ
      refine hτ.step (fun hname => ?_) hkeys
      have hother : other ∈ iterLayers dag := by
        rw [hsplit]
        exact List.mem_append_right _ List.mem_cons_self
      have hfound := (layer_of_iterLayers hdag hother).1
      rw [hname, (layer_of_iterLayers hdag hlayer).1] at hfound
      exact (Except.ok.inj hfound).symm

/-- Where every layer is covered, chains stay intact. -/
theorem intact_gcOrphans (hcovered : Covered rt cfg dag session) {layer : DerivedLayer}
    (hlayer : layer ∈ iterLayers dag) (hcollects : Collects cfg layer) {snap : Snapshot}
    (hreadable : session.Readable snap) {id : String} {node : SymbolNode}
    (hnode : snap.graph.symbol id = some node)
    (happlies : layer.appliesTo (symbolKindStr node.kind) = true) {chain : List DerivedLayer}
    (hchain : chainOf dag layer = .ok chain) :
    Intact rt snap id node layer chain σ (gcOrphans rt cfg dag session σ).1 := by
  have hstart : Intact rt snap id node layer chain σ σ :=
    ⟨hsound, Shrunk.refl σ, fun _ _ _ _ _ _ => rfl⟩
  unfold gcOrphans
  split
  · exact hstart
  · cases hhead : session.headGraph with
    | none => exact hstart
    | some head =>
      refine collectLayers_keeps (P := fun τ => Intact rt snap id node layer chain σ τ)
        (iterLayers dag) ?_ hstart
      intro before other after hsplit hbefore hother τ keys hkeys hτ
      have hin : other ∈ iterLayers dag := by
        rw [hsplit]
        exact List.mem_append_right _ List.mem_cons_self
      refine hτ.step hchain hdag (layer_of_iterLayers hdag hlayer).1
        (layer_of_iterLayers hdag hin).1 ?_ hkeys
      intro hup hlisted bottom hash hlast hhash
      exact hcovered head hhead layer hlayer hcollects snap hreadable id node hnode happlies chain
        hchain bottom hlast hash hhash other hup hother hlisted ⟨before, after, hsplit, hbefore⟩

/-- Where every layer is covered, nothing that can be served is lost. -/
theorem kept_of_covered (hcovered : Covered rt cfg dag session) {layer : DerivedLayer}
    (hlayer : layer ∈ iterLayers dag) (hcollects : Collects cfg layer) :
    Kept rt cfg dag session layer σ := by
  have hspared := @spared_gcOrphans rt cfg layers topo dag hdag session σ hsound layer hlayer
  refine ⟨?_, hspared.lastGood, hspared.versions⟩
  intro snap hreadable id node artifact hnode happlies hfresh
  obtain ⟨hfound, hsome⟩ := layer_of_iterLayers hdag hlayer
  rw [derived_fresh_iff hsome hfound] at hfresh ⊢
  cases hchain : chainOf dag layer with
  | error e =>
    obtain ⟨input, hash, hresolve, -⟩ := hfresh
    unfold resolve at hresolve
    rw [resolveInput_error hnode hchain] at hresolve
    cases hresolve
  | ok chain =>
    exact (intact_gcOrphans hdag hsound hcovered hlayer hcollects hreadable hnode happlies
      hchain).served hnode hchain hfresh

omit hdag hsound in
/-- Every revision that can be read, the head apart, is one that the
collection looks at. -/
theorem mem_retained_of_readable {head : Snapshot} (hhead : session.headGraph = some head)
    (hsame : ∀ snap, session.snapshotAt session.contents.revision = some snap → snap = head)
    {snap : Snapshot} (hreadable : session.Readable snap) : snap ∈ session.retained head := by
  rcases hreadable with hnow | ⟨revision, hthen⟩
  · rw [hhead] at hnow
    rw [← Option.some.inj hnow]
    exact List.mem_cons_self
  · obtain ⟨generation, hgeneration, -⟩ := Option.bind_eq_some_iff.mp hthen
    obtain ⟨cap, operations, hopened⟩ := session.opened
    rw [hopened] at hgeneration
    have hwithin := RetainedRevisions.generationAt_within hgeneration
    rw [← hopened] at hwithin
    rcases hwithin with heq | ⟨hold, hpast⟩
    · rw [heq] at hthen
      rw [hsame snap hthen]
      exact List.mem_cons_self
    · refine List.mem_cons_of_mem _ (List.mem_filterMap.mpr ⟨revision, ?_, hthen⟩)
      have hrange : ∀ old now then_ : ℕ, old ≤ then_ → then_ < now →
          old ≤ then_ ∧ then_ < old + (now - old) := by
        intro old now then_ hold hpast
        omega
      rw [List.mem_range'_1]
      exact hrange _ _ _ hold hpast

omit hdag hsound in
/-- Layers are covered when those below a layer apply to its kinds and ask the
code under the plain content hash. A layer over code is always covered. -/
theorem covered_of_matching
    (hsame : ∀ head snap, session.headGraph = some head →
      session.snapshotAt session.contents.revision = some snap → snap = head)
    (hmatching : ∀ layer ∈ iterLayers dag, Collects cfg layer → ∀ chain,
      chainOf dag layer = .ok chain → ∀ up ∈ chain, Collects cfg up → up ≠ layer →
      (∀ kind, layer.appliesTo kind = true → up.appliesTo kind = true) ∧
        (up.isCodeDerived = true → up.keyLocality = .local_)) :
    Covered rt cfg dag session := by
  intro head hhead layer hlayer hcollects snap hreadable id node hnode happlies chain hchain
    bottom hlast hash hhash up hup hupCollects _ _
  have hin := mem_retained_of_readable hhead (fun snap => hsame head snap hhead) hreadable
  by_cases heq : up = layer
  · rw [heq]
    exact ⟨snap, hin, id, node, hash, hnode, happlies, hhash, rfl⟩
  · obtain ⟨hkinds, hlocal⟩ := hmatching layer hlayer hcollects chain hchain up hup hupCollects heq
    refine ⟨snap, hin, id, node, hash, hnode, hkinds _ happlies, hhash, ?_⟩
    have hcode : ¬ layer.isCodeDerived = true := by
      intro hcode
      rw [chainFrom_of_code hchain hcode, List.mem_singleton] at hup
      exact heq hup
    unfold askedFrom
    rw [if_neg hcode]
    split_ifs with hupCode
    · unfold codeHash
      rw [hlocal hupCode]
    · rfl

end Collections

/-! ## States that occur -/

section Runs

variable {rt : Runtime} {cfg : SessionConfig} {dag : DerivationDAG}

/-- A step that only touches one layer keeps a state sound. -/
theorem sound_update {σ : DagState} (hsound : Sound σ) (name : String) {s : LayerState}
    (hmade : Made s.store)
    (hgood : ∀ id key, s.lastGood.lookup id = some key →
      ∃ hash version, Plain hash ∧ key = hash ++ ":" ++ version) :
    Sound (Function.update σ name s) := by
  intro other
  by_cases heq : other = name
  · rw [heq, Function.update_self]
    exact ⟨hmade, hgood⟩
  · rw [Function.update_of_ne heq]
    exact hsound other

/-- What is made now is stored and noted under a plain key. -/
theorem sound_recomputeNow {σ σ' : DagState} {snap : Snapshot} {layer : DerivedLayer} {id : String}
    {made : Option Bytes} (hsound : Sound σ)
    (h : recomputeNow rt dag σ snap layer id = .ok (made, σ')) : Sound σ' := by
  obtain ⟨hstore, hgood⟩ := hsound layer.name
  unfold recomputeNow at h
  obtain ⟨⟨input, hash⟩, hresolve, hrest⟩ := bind_ok h
  obtain ⟨node, hnode⟩ := symbol_of_resolveInput hresolve
  have hplain := plain_resolve hnode hresolve
  have hnoted : ∀ id' key,
      ((σ layer.name).lastGood.insert id (layer.storeKey hash)).lookup id' = some key →
      ∃ hash version, Plain hash ∧ key = hash ++ ":" ++ version := by
    intro id' key hkey
    rw [lookup_insert_ite] at hkey
    split at hkey
    · exact ⟨hash, layer.generatorVersion, hplain, (Option.some.inj hkey).symm⟩
    · exact hgood id' key hkey
  simp only at hrest
  split at hrest
  · split at hrest
    · split at hrest
      · cases hrest
        exact sound_update hsound _ hstore hgood
      · cases hrest
        exact sound_update hsound _ hstore hnoted
    · cases hrest
      exact sound_update hsound _ (made_put hstore hplain _ _) hnoted
  · cases hrest
    exact hsound
  · cases hrest
    exact sound_update hsound _ hstore hgood

/-- A read keeps a state sound. -/
theorem sound_derived {σ : DagState} (hsound : Sound σ) (snap : Snapshot) (name id : String) :
    Sound (derived rt dag σ snap name id).2 := by
  unfold derived
  split_ifs
  · exact hsound
  · split
    · exact hsound
    · split
      · exact hsound
      · split
        · exact hsound
        · split_ifs
          · exact hsound
          · split
            · exact hsound
            · rename_i hmade
              exact sound_recomputeNow hsound hmade
            · rename_i hmade
              exact sound_recomputeNow hsound hmade

/-- The collection keeps a state sound. -/
theorem sound_gcOrphans {σ : DagState} (hsound : Sound σ) (session : Session) :
    Sound (gcOrphans rt cfg dag session σ).1 := by
  unfold gcOrphans
  split_ifs
  · exact hsound
  · split
    · exact hsound
    · refine collectLayers_keeps _ ?_ hsound
      intro _ layer _ _ _ _ τ keys _ hτ
      exact hτ.gcStore rt layer keys

/-- Forget an entity. -/
def LayerState.drop (s : LayerState) (id : String) : LayerState :=
  { s with bindings := s.bindings.erase id, lastGood := s.lastGood.erase id
           failed := s.failed.erase id }

/-- The stores of the layers with nothing noted yet. -/
def reopened (σ : DagState) : DagState := fun name => ⟨(σ name).store, ∅, ∅, ∅⟩

/-- The states of the layers that occur. The stores stay when a session is
closed and another one opens them, with layers of its own. -/
inductive Occurs (rt : Runtime) : DagState → Prop
  | empty : Occurs rt fun _ => ⟨∅, ∅, ∅, ∅⟩
  | read {σ : DagState} (h : Occurs rt σ) (dag : DerivationDAG) (snap : Snapshot)
      (name id : String) : Occurs rt (derived rt dag σ snap name id).2
  | drop {σ : DagState} (h : Occurs rt σ) (name id : String) :
      Occurs rt (Function.update σ name (LayerState.drop (σ name) id))
  | reopen {σ : DagState} (h : Occurs rt σ) : Occurs rt (reopened σ)
  | collect {σ : DagState} (h : Occurs rt σ) (cfg : SessionConfig) (dag : DerivationDAG)
      (session : Session) : Occurs rt (gcOrphans rt cfg dag session σ).1

/-- Every state that occurs is sound. -/
theorem Occurs.sound {σ : DagState} (h : Occurs rt σ) : Sound σ := by
  induction h with
  | empty =>
    intro name
    refine ⟨fun p hp => ?_, fun id key hkey => by cases hkey⟩
    exact absurd hp (Finset.notMem_empty p)
  | read _ dag snap name id ih => exact sound_derived ih snap name id
  | drop _ name id ih =>
    refine sound_update ih name (ih name).1 fun other key hkey => ?_
    unfold LayerState.drop at hkey
    by_cases heq : other = id
    · rw [heq, Finmap.lookup_erase] at hkey
      cases hkey
    · rw [Finmap.lookup_erase_ne heq] at hkey
      exact (ih name).2 other key hkey
  | reopen _ ih => exact fun name => ⟨(ih name).1, fun id key hkey => by cases hkey⟩
  | collect _ cfg dag session ih => exact sound_gcOrphans ih session

end Runs

end Tyo3.ServableArtifacts
