import Tyo3.LayerChains

/-!
# What the collection of orphans does to the stores

The keys that the collection calls reachable are those of the entities that
resolve at one of the snapshots it looks at. One step takes from the store of
one layer what is not reachable and leaves everything else; an error that is
not caught ends the collection. So every layer that is collected stands before
the first one whose chain never ends in code and that applies to some entity.
-/

namespace Tyo3.CollectedLayers

open FiniteMaps JsonValues DerivedLayers ArtifactFiles OrphanCollection LayerChains

/-! ## Gathering keys -/

section Gathering

variable {ι ε K : Type} [DecidableEq K]

/-- The union of fallible sets. -/
def gather (added : ι → Except ε (Finset K)) : List ι → Except ε (Finset K)
  | [] => .ok ∅
  | item :: items =>
    match added item, gather added items with
    | .error e, _ => .error e
    | .ok _, .error e => .error e
    | .ok first, .ok rest => .ok (first ∪ rest)

/-- A loop that adds sets. -/
theorem foldlM_eq_gather (added : ι → Except ε (Finset K)) (items : List ι) (keys : Finset K) :
    items.foldlM (fun keys item => (added item).map (keys ∪ ·)) keys =
      (gather added items).map (keys ∪ ·) := by
  induction items generalizing keys with
  | nil => simp [gather, Except.map, pure, Except.pure]
  | cons item items ih =>
    rw [List.foldlM_cons, gather]
    cases hfirst : added item with
    | error e => rfl
    | ok first =>
      change items.foldlM (fun keys item => (added item).map (keys ∪ ·)) (keys ∪ first) = _
      rw [ih]
      cases hrest : gather added items with
      | error e => rfl
      | ok rest => simp [Except.map, Finset.union_assoc]

/-- Gathering fails with the error of an item, or gives what the items add. -/
theorem gather_cases (added : ι → Except ε (Finset K)) (items : List ι) :
    (∃ item ∈ items, ∃ e, added item = .error e ∧ gather added items = .error e) ∨
      ∃ all, gather added items = .ok all ∧ (∀ item ∈ items, ∃ keys, added item = .ok keys) ∧
        ∀ key, key ∈ all ↔ ∃ item ∈ items, ∃ keys, added item = .ok keys ∧ key ∈ keys := by
  induction items with
  | nil => exact Or.inr ⟨∅, rfl, by simp, by simp⟩
  | cons item items ih =>
    cases hfirst : added item with
    | error e => exact Or.inl ⟨item, List.mem_cons_self, e, hfirst, by rw [gather, hfirst]⟩
    | ok first =>
      rcases ih with ⟨other, hother, e, herror, hall⟩ | ⟨rest, hall, hok, hmem⟩
      · exact Or.inl ⟨other, List.mem_cons_of_mem _ hother, e, herror, by rw [gather, hfirst, hall]⟩
      · refine Or.inr ⟨first ∪ rest, by rw [gather, hfirst, hall], ?_, fun key => ?_⟩
        · intro other hother
          rcases List.mem_cons.mp hother with rfl | hrest
          · exact ⟨first, hfirst⟩
          · exact hok other hrest
        · rw [Finset.mem_union, hmem key, List.exists_mem_cons_iff, hfirst]
          simp

end Gathering

/-! ## Reachable keys -/

section Reaching

variable {rt : Runtime} {cfg : SessionConfig} {dag : DerivationDAG} {σ : DagState}
  {layer : DerivedLayer} {candidates : List Snapshot}

/-- What one node adds. -/
def added (rt : Runtime) (dag : DerivationDAG) (σ : DagState) (layer : DerivedLayer)
    (candidate : Snapshot) (id : String) : Except ResolveError (Finset String) :=
  match candidate.graph.symbol id with
  | none => .ok ∅
  | some node =>
    if layer.appliesTo (symbolKindStr node.kind) then
      match resolve rt dag σ candidate layer id with
      | .error e => if caught e then .ok ∅ else .error e
      | .ok (_, inputHash) => .ok {layer.storeKey inputHash}
    else .ok ∅

theorem addKey_eq (candidate : Snapshot) (keys : Finset String) (id : String) :
    addKey rt dag σ layer candidate keys id =
      (added rt dag σ layer candidate id).map (keys ∪ ·) := by
  unfold addKey added
  cases candidate.graph.symbol id with
  | none => simp [Except.map]
  | some node =>
    dsimp only
    split_ifs
    · cases resolve rt dag σ candidate layer id with
      | error e =>
        dsimp only
        split_ifs
        · simp [Except.map]
        · rfl
      | ok found =>
        dsimp only [Except.map]
        rw [Finset.insert_eq, Finset.union_comm]
    · simp [Except.map]

theorem reachableKeys_eq :
    reachableKeys rt dag σ layer candidates =
      gather (fun candidate => gather (added rt dag σ layer candidate)
        (rt.iter.order candidate.graph.symbols.keys)) candidates := by
  have hinner : ∀ (candidate : Snapshot) (keys : Finset String),
      (rt.iter.order candidate.graph.symbols.keys).foldlM (addKey rt dag σ layer candidate) keys =
        (gather (added rt dag σ layer candidate)
          (rt.iter.order candidate.graph.symbols.keys)).map (keys ∪ ·) := by
    intro candidate keys
    rw [← foldlM_eq_gather]
    congr 1
    funext keys id
    exact addKey_eq candidate keys id
  unfold reachableKeys
  simp only [hinner]
  rw [foldlM_eq_gather]
  cases gather (fun candidate => gather (added rt dag σ layer candidate)
      (rt.iter.order candidate.graph.symbols.keys)) candidates with
  | error e => rfl
  | ok all => simp [Except.map]

/-- The nodes of a graph are visited. -/
theorem mem_visited (candidate : Snapshot) (id : String) :
    id ∈ rt.iter.order candidate.graph.symbols.keys ↔
      ∃ node, candidate.graph.symbol id = some node :=
  (HashOrder.mem_order _ _ _).trans (mem_keys_iff _ _)

/-- The keys fail with the error of a node, or are what the nodes add. -/
theorem reachableKeys_cases (rt : Runtime) (dag : DerivationDAG) (σ : DagState)
    (layer : DerivedLayer) (candidates : List Snapshot) :
    (∃ candidate ∈ candidates, ∃ id e, added rt dag σ layer candidate id = .error e ∧
        reachableKeys rt dag σ layer candidates = .error e) ∨
      ∃ keys, reachableKeys rt dag σ layer candidates = .ok keys ∧
        (∀ candidate ∈ candidates, ∀ id node, candidate.graph.symbol id = some node →
          ∃ all, added rt dag σ layer candidate id = .ok all) ∧
        ∀ key, key ∈ keys ↔ ∃ candidate ∈ candidates, ∃ id node all,
          candidate.graph.symbol id = some node ∧
            added rt dag σ layer candidate id = .ok all ∧ key ∈ all := by
  rw [reachableKeys_eq]
  rcases gather_cases (fun candidate => gather (added rt dag σ layer candidate)
      (rt.iter.order candidate.graph.symbols.keys)) candidates with
    ⟨candidate, hcandidate, e, hinner, hall⟩ | ⟨keys, hall, hok, hmem⟩
  · rcases gather_cases (added rt dag σ layer candidate)
        (rt.iter.order candidate.graph.symbols.keys) with
      ⟨id, _, e', herror, hsame⟩ | ⟨all, hsame, -⟩
    · rw [hinner] at hsame
      cases hsame
      exact Or.inl ⟨candidate, hcandidate, id, e, herror, hall⟩
    · rw [hinner] at hsame
      cases hsame
  · refine Or.inr ⟨keys, hall, fun candidate hcandidate id node hnode => ?_, fun key => ?_⟩
    · obtain ⟨inner, hinner⟩ := hok candidate hcandidate
      rcases gather_cases (added rt dag σ layer candidate)
          (rt.iter.order candidate.graph.symbols.keys) with ⟨_, _, e, _, hsame⟩ | ⟨_, _, hgood, _⟩
      · rw [hinner] at hsame
        cases hsame
      · exact hgood id ((mem_visited candidate id).mpr ⟨node, hnode⟩)
    · rw [hmem key]
      refine exists_congr fun candidate => and_congr_right fun hcandidate => ?_
      rcases gather_cases (added rt dag σ layer candidate)
          (rt.iter.order candidate.graph.symbols.keys) with ⟨_, _, e, _, hsame⟩ | ⟨all, hsame, _, hin⟩
      · obtain ⟨inner, hinner⟩ := hok candidate hcandidate
        rw [hinner] at hsame
        cases hsame
      · constructor
        · intro h
          obtain ⟨inner, hinner, hkey⟩ := h
          rw [hsame] at hinner
          cases hinner
          obtain ⟨id, hid, found, hfound, hkey⟩ := (hin key).mp hkey
          obtain ⟨node, hnode⟩ := (mem_visited candidate id).mp hid
          exact ⟨id, node, found, hnode, hfound, hkey⟩
        · intro h
          obtain ⟨id, node, found, hnode, hfound, hkey⟩ := h
          exact ⟨all, hsame, (hin key).mpr
            ⟨id, (mem_visited candidate id).mpr ⟨node, hnode⟩, found, hfound, hkey⟩⟩

/-- A reachable key is that of an entity that resolves. -/
theorem mem_reachableKeys {keys : Finset String}
    (h : reachableKeys rt dag σ layer candidates = .ok keys) (key : String) :
    key ∈ keys ↔ ∃ candidate ∈ candidates, ∃ id node input hash,
      candidate.graph.symbol id = some node ∧
        layer.appliesTo (symbolKindStr node.kind) = true ∧
        resolve rt dag σ candidate layer id = .ok (input, hash) ∧ key = layer.storeKey hash := by
  rcases reachableKeys_cases rt dag σ layer candidates with
    ⟨_, _, _, e, _, herror⟩ | ⟨all, hall, -, hmem⟩
  · rw [h] at herror
    cases herror
  · rw [h] at hall
    cases hall
    rw [hmem key]
    refine exists_congr fun candidate => and_congr_right fun _ => exists_congr fun id =>
      exists_congr fun node => ?_
    constructor
    · intro hadded
      obtain ⟨found, hnode, hfound, hkey⟩ := hadded
      unfold added at hfound
      rw [hnode] at hfound
      dsimp only at hfound
      split_ifs at hfound with happlies
      · cases hresolve : resolve rt dag σ candidate layer id with
        | error e =>
          rw [hresolve] at hfound
          dsimp only at hfound
          split_ifs at hfound
          cases hfound
          exact absurd hkey (Finset.notMem_empty key)
        | ok pair =>
          rw [hresolve] at hfound
          cases hfound
          exact ⟨pair.1, pair.2, hnode, happlies, rfl, Finset.mem_singleton.mp hkey⟩
      · cases hfound
        exact absurd hkey (Finset.notMem_empty key)
    · intro hresolved
      obtain ⟨input, hash, hnode, happlies, hresolve, rfl⟩ := hresolved
      refine ⟨{layer.storeKey hash}, hnode, ?_, Finset.mem_singleton_self _⟩
      unfold added
      rw [hnode]
      dsimp only
      rw [if_pos happlies, hresolve]

/-- Whether the chain of a layer fails in a way that is not caught. -/
def Breaks (dag : DerivationDAG) (layer : DerivedLayer) : Prop :=
  ∃ e, chainOf dag layer = .error e ∧ caught e = false

/-- Some entity that the collection looks at is of a kind of the layer. -/
def Applied (layer : DerivedLayer) (candidates : List Snapshot) : Prop :=
  ∃ candidate ∈ candidates, ∃ id node, candidate.graph.symbol id = some node ∧
    layer.appliesTo (symbolKindStr node.kind) = true

/-- A node raises an error when the chain of the layer breaks. -/
theorem added_error_iff (candidate : Snapshot) (id : String) :
    (∃ e, added rt dag σ layer candidate id = .error e) ↔
      Breaks dag layer ∧ ∃ node, candidate.graph.symbol id = some node ∧
        layer.appliesTo (symbolKindStr node.kind) = true := by
  unfold added
  cases hnode : candidate.graph.symbol id with
  | none => simp
  | some node =>
    dsimp only
    split_ifs with happlies
    · unfold resolve
      cases hchain : chainOf dag layer with
      | error e =>
        rw [resolveInput_error hnode hchain]
        by_cases hcaught : caught e = true
        · simp [Breaks, hchain, hcaught]
        · simp [Breaks, hchain, hcaught, happlies]
      | ok chain =>
        have hnot : ¬ Breaks dag layer := by
          intro hbreaks
          obtain ⟨e, herror, -⟩ := hbreaks
          rw [hchain] at herror
          cases herror
        rcases @resolveInput_spec rt.hashBytes rt.iter rt.decode _ σ.artifacts candidate id node
            hnode _ _ hchain with ⟨e, herror, hcaught, -⟩ | ⟨input, hash, hok, -⟩
        · simp [herror, hcaught, hnot]
        · simp [hok, hnot]
    · simp [happlies]

/-- The keys are found unless the chain breaks at an entity. -/
theorem reachableKeys_ok_iff (σ : DagState) :
    (∃ keys, reachableKeys rt dag σ layer candidates = .ok keys) ↔
      ¬ (Breaks dag layer ∧ Applied layer candidates) := by
  rcases reachableKeys_cases rt dag σ layer candidates with
    ⟨candidate, hcandidate, id, e, hadded, herror⟩ | ⟨keys, hall, hgood, -⟩
  · obtain ⟨hbreaks, node, hnode, happlies⟩ := (added_error_iff candidate id).mp ⟨e, hadded⟩
    refine iff_of_false (fun h => ?_) fun h =>
      h ⟨hbreaks, candidate, hcandidate, id, node, hnode, happlies⟩
    obtain ⟨keys, hkeys⟩ := h
    rw [herror] at hkeys
    cases hkeys
  · refine iff_of_true ⟨keys, hall⟩ fun h => ?_
    obtain ⟨hbreaks, candidate, hcandidate, id, node, hnode, happlies⟩ := h
    obtain ⟨e, herror⟩ := (@added_error_iff rt dag σ layer candidate id).mpr
      ⟨hbreaks, node, hnode, happlies⟩
    obtain ⟨all, hok⟩ := hgood candidate hcandidate id node hnode
    rw [hok] at herror
    cases herror

end Reaching

/-! ## Sound states -/

/-- Artifacts were stored under keys with plain hashes, and the last good keys
are such keys. -/
def Sound (σ : DagState) : Prop :=
  ∀ name, Made (σ name).store ∧ ∀ id key, (σ name).lastGood.lookup id = some key →
    ∃ hash version, Plain hash ∧ key = hash ++ ":" ++ version

/-- A content hash is plain. -/
theorem plain_contentHash {node : SymbolNode} {profile hash : String}
    (h : node.contentHashes.lookup profile = some hash) : Plain hash := by
  have hdecimal := node.decimal profile hash h
  refine ⟨hdecimal.1, fun c hc => ?_⟩
  have hdigit := hdecimal.2 c hc
  simp [Char.isAlphanum, hdigit]

/-- A digest is plain. -/
theorem plain_hashBytes (rt : Runtime) (bytes : Bytes) : Plain (rt.hashBytes bytes) := by
  refine ⟨fun hempty => ?_, (rt.digest bytes).2⟩
  have hlength := (rt.digest bytes).1
  rw [hempty] at hlength
  exact absurd hlength (by decide)

section Plain

variable {rt : Runtime} {caches : Artifacts} {snap : Snapshot} {id : String} {node : SymbolNode}
  {layer : DerivedLayer} {hash : String}

theorem plain_codeHash (hplain : Plain hash) :
    Plain (codeHash rt.hashBytes rt.iter snap layer id hash) := by
  unfold codeHash
  split
  · exact plain_hashBytes rt _
  · exact plain_hashBytes rt _
  · exact hplain
  · exact hplain

theorem plain_askedHash {chain : List DerivedLayer}
    (h : askedHash rt.hashBytes caches node.contentHashes chain = some hash) : Plain hash := by
  unfold askedHash at h
  split at h
  · cases h
  · exact plain_contentHash h
  · obtain ⟨_, _, hmap⟩ := Option.bind_eq_some_iff.mp h
    obtain ⟨artifact, _, rfl⟩ := Option.map_eq_some_iff.mp hmap
    exact plain_hashBytes rt artifact

theorem plain_ownHash {chain : List DerivedLayer}
    (h : ownHash rt.hashBytes rt.iter caches snap id node layer chain = some hash) :
    Plain hash := by
  unfold ownHash at h
  split_ifs at h
  · obtain ⟨content, hcontent, rfl⟩ := Option.map_eq_some_iff.mp h
    exact plain_codeHash (plain_contentHash hcontent)
  · exact plain_askedHash h

end Plain

/-- The hash of a resolved input is plain. -/
theorem plain_resolve {rt : Runtime} {dag : DerivationDAG} {σ : DagState} {snap : Snapshot}
    {layer : DerivedLayer} {id : String} {node : SymbolNode} {input : GenInput} {hash : String}
    (hnode : snap.graph.symbol id = some node)
    (h : resolve rt dag σ snap layer id = .ok (input, hash)) : Plain hash := by
  unfold resolve at h
  cases hchain : chainOf dag layer with
  | error e =>
    rw [resolveInput_error hnode hchain] at h
    cases h
  | ok chain => exact plain_ownHash ((resolveInput_ok_iff_ownHash hnode hchain hash).mp ⟨input, h⟩)

/-! ## One step -/

section Step

variable {rt : Runtime} {cfg : SessionConfig} {dag : DerivationDAG} {σ σ' : DagState}
  {layer : DerivedLayer} {candidates : List Snapshot} {keys : Finset String}

/-- The keys that one step calls reachable. -/
def kept (σ : DagState) (layer : DerivedLayer) (keys : Finset String) : Finset String :=
  keys ∪ lastGoodKeys layer (σ layer.name)

/-- One step takes from the store of its layer what is collected. -/
theorem get_gcStore (hsound : Sound σ) {hash : String} (hplain : Plain hash) (name version : String) :
    ((gcStore rt σ layer keys) name).store.get (hash ++ ":" ++ version) =
      if name = layer.name ∧ Collected (kept σ layer keys) hash version then none
      else (σ name).store.get (hash ++ ":" ++ version) := by
  unfold gcStore
  by_cases hname : name = layer.name
  · subst hname
    rw [Function.update_self, get_prune rt.decode_utf8 ((hsound _).1.clean _) hplain]
    simp [kept]
  · rw [Function.update_of_ne hname]
    simp [hname]

/-- What a step leaves alone. -/
structure Shrunk (σ σ' : DagState) : Prop where
  /-- The last good keys stay. -/
  lastGood : ∀ name, (σ' name).lastGood = (σ name).lastGood
  /-- Every artifact was there before. -/
  store : ∀ name key artifact, (σ' name).store.get key = some artifact →
    (σ name).store.get key = some artifact

theorem Shrunk.refl (σ : DagState) : Shrunk σ σ := ⟨fun _ => rfl, fun _ _ _ h => h⟩

theorem Shrunk.trans {σ₁ σ₂ σ₃ : DagState} (h : Shrunk σ₁ σ₂) (h' : Shrunk σ₂ σ₃) :
    Shrunk σ₁ σ₃ :=
  ⟨fun name => (h'.lastGood name).trans (h.lastGood name),
    fun name key artifact hget => h.store name key artifact (h'.store name key artifact hget)⟩

theorem shrunk_gcStore (rt : Runtime) (σ : DagState) (layer : DerivedLayer) (keys : Finset String) :
    Shrunk σ (gcStore rt σ layer keys) := by
  unfold gcStore
  refine ⟨fun name => ?_, fun name key artifact hget => ?_⟩
  · by_cases hname : name = layer.name
    · subst hname
      rw [Function.update_self]
    · rw [Function.update_of_ne hname]
  · by_cases hname : name = layer.name
    · subst hname
      rw [Function.update_self] at hget
      exact get_of_get_prune hget
    · rw [Function.update_of_ne hname] at hget
      exact hget

theorem Sound.gcStore (hsound : Sound σ) (rt : Runtime) (layer : DerivedLayer)
    (keys : Finset String) : Sound (gcStore rt σ layer keys) := by
  intro name
  rw [(shrunk_gcStore rt σ layer keys).lastGood name]
  refine ⟨?_, (hsound name).2⟩
  unfold OrphanCollection.gcStore
  by_cases hname : name = layer.name
  · subst hname
    rw [Function.update_self]
    exact made_prune (hsound _).1
  · rw [Function.update_of_ne hname]
    exact (hsound name).1

end Step

/-! ## Whole runs -/

/-- A layer is collected: its store asks for it, and it is not traced. -/
def Collects (cfg : SessionConfig) (layer : DerivedLayer) : Prop :=
  collectsOrphans cfg layer = true ∧ layer.isTraced = false

/-- The collection ends with an error at a layer. -/
def Aborts (cfg : SessionConfig) (dag : DerivationDAG) (candidates : List Snapshot)
    (layer : DerivedLayer) : Prop :=
  Collects cfg layer ∧ Breaks dag layer ∧ Applied layer candidates

/-- The collection gets to a layer. -/
def Reached (cfg : SessionConfig) (dag : DerivationDAG) (candidates : List Snapshot)
    (layer : DerivedLayer) : Prop :=
  ∃ before after, iterLayers dag = before ++ layer :: after ∧
    ∀ other ∈ before, ¬ Aborts cfg dag candidates other

section Run

variable {rt : Runtime} {cfg : SessionConfig} {dag : DerivationDAG} {candidates : List Snapshot}

/-- One layer of a run: it is passed over, it ends the run, or it is
collected. -/
theorem collectLayers_cons (layer : DerivedLayer) (layers : List DerivedLayer) (σ : DagState) :
    (¬ Collects cfg layer ∧ collectLayers rt cfg dag candidates (layer :: layers) σ =
        collectLayers rt cfg dag candidates layers σ) ∨
      (Aborts cfg dag candidates layer ∧
        (collectLayers rt cfg dag candidates (layer :: layers) σ).1 = σ) ∨
      Collects cfg layer ∧ ¬ Aborts cfg dag candidates layer ∧
        ∃ keys, reachableKeys rt dag σ layer candidates = .ok keys ∧
          collectLayers rt cfg dag candidates (layer :: layers) σ =
            collectLayers rt cfg dag candidates layers (gcStore rt σ layer keys) := by
  rw [collectLayers]
  by_cases hcollects : Collects cfg layer
  · have hskip : ¬ (!collectsOrphans cfg layer || layer.isTraced) = true := by
      rw [hcollects.1, hcollects.2]
      decide
    rw [if_neg hskip]
    by_cases hbreaks : Breaks dag layer ∧ Applied layer candidates
    · refine .inr (.inl ⟨⟨hcollects, hbreaks⟩, ?_⟩)
      cases hkeys : reachableKeys rt dag σ layer candidates with
      | error e => rfl
      | ok keys => exact absurd hbreaks ((reachableKeys_ok_iff σ).mp ⟨keys, hkeys⟩)
    · obtain ⟨keys, hkeys⟩ := (@reachableKeys_ok_iff rt dag layer candidates σ).mpr hbreaks
      refine .inr (.inr ⟨hcollects, fun haborts => hbreaks haborts.2, keys, hkeys, ?_⟩)
      rw [hkeys]
  · refine .inl ⟨hcollects, if_pos ?_⟩
    unfold Collects at hcollects
    cases horphans : collectsOrphans cfg layer with
    | false => rfl
    | true =>
      cases htraced : layer.isTraced with
      | true => rfl
      | false => exact absurd ⟨horphans, htraced⟩ hcollects

/-- What every collected layer keeps, a run keeps. -/
theorem collectLayers_keeps {P : DagState → Prop} (layers : List DerivedLayer)
    (hstep : ∀ before layer after, layers = before ++ layer :: after →
      (∀ other ∈ before, ¬ Aborts cfg dag candidates other) → Collects cfg layer →
      ∀ σ keys, reachableKeys rt dag σ layer candidates = .ok keys → P σ →
        P (gcStore rt σ layer keys)) {σ : DagState} (hσ : P σ) :
    P (collectLayers rt cfg dag candidates layers σ).1 := by
  induction layers generalizing σ with
  | nil => exact hσ
  | cons layer layers ih =>
    have hrest : ¬ Aborts cfg dag candidates layer → ∀ {τ}, P τ →
        P (collectLayers rt cfg dag candidates layers τ).1 := by
      intro hgood τ hτ
      refine ih (fun before other after hsplit hbefore => ?_) hτ
      refine hstep (layer :: before) other after (by rw [hsplit]; rfl) ?_
      intro first hfirst
      rcases List.mem_cons.mp hfirst with heq | hin
      · exact heq ▸ hgood
      · exact hbefore first hin
    rcases @collectLayers_cons rt cfg dag candidates layer layers σ with
      ⟨hpassed, heq⟩ | ⟨-, heq⟩ | ⟨hcollects, hgood, keys, hkeys, heq⟩
    · rw [heq]
      exact hrest (fun haborts => hpassed haborts.1) hσ
    · rw [heq]
      exact hσ
    · rw [heq]
      exact hrest hgood (hstep [] layer layers rfl (by simp) hcollects σ keys hkeys hσ)

theorem shrunk_collectLayers (layers : List DerivedLayer) (σ : DagState) :
    Shrunk σ (collectLayers rt cfg dag candidates layers σ).1 :=
  collectLayers_keeps layers
    (fun _ layer _ _ _ _ τ keys _ hτ => hτ.trans (shrunk_gcStore rt τ layer keys)) (Shrunk.refl σ)

/-- A layer that a run gets to is collected, with the artifacts that are left
by then. -/
theorem collectLayers_at {before after : List DerivedLayer} {layer : DerivedLayer}
    (hbefore : ∀ other ∈ before, ¬ Aborts cfg dag candidates other) (hcollects : Collects cfg layer)
    (hgood : ¬ Aborts cfg dag candidates layer) {σ : DagState} (hsound : Sound σ) :
    ∃ τ keys, Sound τ ∧ Shrunk σ τ ∧ reachableKeys rt dag τ layer candidates = .ok keys ∧
      Shrunk (gcStore rt τ layer keys)
        (collectLayers rt cfg dag candidates (before ++ layer :: after) σ).1 := by
  induction before generalizing σ with
  | nil =>
    rcases @collectLayers_cons rt cfg dag candidates layer after σ with
      ⟨hpassed, -⟩ | ⟨haborts, -⟩ | ⟨-, -, keys, hkeys, heq⟩
    · exact absurd hcollects hpassed
    · exact absurd haborts hgood
    · refine ⟨σ, keys, hsound, Shrunk.refl σ, hkeys, ?_⟩
      rw [List.nil_append, heq]
      exact shrunk_collectLayers after _
  | cons first before ih =>
    have hrest : ∀ other ∈ before, ¬ Aborts cfg dag candidates other :=
      fun other hother => hbefore other (List.mem_cons_of_mem _ hother)
    rcases @collectLayers_cons rt cfg dag candidates first (before ++ layer :: after) σ with
      ⟨-, heq⟩ | ⟨haborts, -⟩ | ⟨-, -, keys, -, heq⟩
    · rw [List.cons_append, heq]
      exact ih hrest hsound
    · exact absurd haborts (hbefore first List.mem_cons_self)
    · rw [List.cons_append, heq]
      obtain ⟨τ, found, hτ, hshrunk, hfound, hfinal⟩ := ih hrest (hsound.gcStore rt first keys)
      exact ⟨τ, found, hτ, (shrunk_gcStore rt σ first keys).trans hshrunk, hfound, hfinal⟩

end Run

end Tyo3.CollectedLayers
