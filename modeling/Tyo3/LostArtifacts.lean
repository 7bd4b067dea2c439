import Tyo3.ServableArtifacts

/-!
# What the collection loses

A state in which the layers of one chain hold nothing but what one read asks
for. When the collection gets to a layer of the chain at which no entity is
looked up under the hash that the read asks for, it takes the artifact away,
and the read is no longer fresh. So the collection keeps what can be served,
in every state, exactly when every layer is covered.
-/

namespace Tyo3.LostArtifacts

open FiniteMaps JsonValues DerivedLayers ArtifactFiles OrphanCollection LayerChains CollectedLayers
open ServableArtifacts ContentStore RetainedRevisions

/-! ## Chains -/

section Chains

variable {dag : DerivationDAG} {fuel : ℕ} {layer : DerivedLayer} {rest : List DerivedLayer}

/-- A layer is not below itself. -/
theorem not_mem_below (h : chainFrom dag fuel layer = .ok (layer :: rest)) : layer ∉ rest := by
  intro hin
  obtain ⟨before, after, hsplit⟩ := List.append_of_mem hin
  have hagain := h
  rw [hsplit, ← List.cons_append] at hagain
  have hsuffix := chainFrom_suffix hagain
  rw [h, Except.ok.injEq, List.cons.injEq] at hsuffix
  have hlength := congrArg List.length (hsuffix.2.symm.trans hsplit)
  rw [List.length_append, List.length_cons] at hlength
  omega

/-- A chain that gives a hash has an artifact in every layer below the
first. -/
theorem artifact_of_askedHash {hashBytes : Bytes → String} {caches : Artifacts}
    {hashes : FMap String String} {first : DerivedLayer} {before after : List DerivedLayer}
    {up : DerivedLayer} {asked : String}
    (h : askedHash hashBytes caches hashes (first :: (before ++ up :: after)) = some asked) :
    ∃ hash artifact, askedHash hashBytes caches hashes (up :: after) = some hash ∧
      caches up.name (up.storeKey hash) = some artifact := by
  induction before generalizing first asked with
  | nil =>
    rw [List.nil_append, askedHash] at h
    obtain ⟨hash, hhash, hmap⟩ := Option.bind_eq_some_iff.mp h
    obtain ⟨artifact, hartifact, -⟩ := Option.map_eq_some_iff.mp hmap
    exact ⟨hash, artifact, hhash, hartifact⟩
  | cons next before ih =>
    rw [List.cons_append, askedHash] at h
    obtain ⟨hash, hhash, -⟩ := Option.bind_eq_some_iff.mp h
    exact ih hhash

end Chains

/-! ## A state with one chain -/

/-- The layers of a chain hold one artifact each, and a last good key under
which nothing is stored. -/
def stocked (chain : List DerivedLayer) (asked : DerivedLayer → String)
    (made : DerivedLayer → Bytes) : DagState := fun name =>
  match chain.find? fun l => l.name = name with
  | none => ⟨∅, ∅, ∅, ∅⟩
  | some l => ⟨(∅ : FsStore).put (l.storeKey (asked l)) (made l), ∅,
      (∅ : FMap String String).insert "" (l.storeKey (asked l ++ "0")), ∅⟩

theorem plain_append_zero {hash : String} (h : Plain hash) : Plain (hash ++ "0") := by
  refine ⟨fun hempty => ?_, fun c hc => ?_⟩
  · have hlength := congrArg String.length hempty
    rw [String.length_append] at hlength
    exact absurd hlength (by simp)
  · rw [String.toList_append] at hc
    rcases List.mem_append.mp hc with hin | hzero
    · exact h.2 c hin
    · rw [List.mem_singleton.mp hzero]
      decide

section Stocked

variable {chain : List DerivedLayer} {asked : DerivedLayer → String} {made : DerivedLayer → Bytes}
  (hnames : ∀ l ∈ chain, ∀ l' ∈ chain, l.name = l'.name → l = l')
  (hplain : ∀ l ∈ chain, Plain (asked l))

include hnames in
theorem stocked_of_mem {l : DerivedLayer} (hl : l ∈ chain) :
    stocked chain asked made l.name =
      ⟨(∅ : FsStore).put (l.storeKey (asked l)) (made l), ∅,
        (∅ : FMap String String).insert "" (l.storeKey (asked l ++ "0")), ∅⟩ := by
  have hfind : chain.find? (fun l' => l'.name = l.name) = some l := by
    cases hfound : chain.find? (fun l' => l'.name = l.name) with
    | none =>
      have hnone := List.find?_eq_none.mp hfound l hl
      simp at hnone
    | some l' =>
      have hname : l'.name = l.name := by simpa using List.find?_some hfound
      rw [hnames l' (List.mem_of_find?_eq_some hfound) l hl hname]
  unfold stocked
  rw [hfind]

include hplain in
theorem sound_stocked : Sound (stocked chain asked made) := by
  have hempty : Made (∅ : FsStore) := by
    intro p hp
    rw [Finmap.keys_empty] at hp
    exact absurd hp (Finset.notMem_empty p)
  intro name
  unfold stocked
  cases hfind : chain.find? fun l => l.name = name with
  | none => exact ⟨hempty, fun id key hkey => by cases hkey⟩
  | some l =>
    have hl := hplain l (List.mem_of_find?_eq_some hfind)
    refine ⟨made_put hempty hl _ _, fun id key hkey => ?_⟩
    simp only at hkey
    rw [lookup_insert_ite] at hkey
    split at hkey
    · exact ⟨asked l ++ "0", l.generatorVersion, plain_append_zero hl, (Option.some.inj hkey).symm⟩
    · cases hkey

include hnames hplain

/-- A layer of the chain holds what it is asked for and nothing else of its
version. -/
theorem get_stocked {l : DerivedLayer} (hl : l ∈ chain) {hash : String} (hhash : Plain hash) :
    (stocked chain asked made l.name).store.get (l.storeKey hash) =
      if hash = asked l then some (made l) else none := by
  rw [stocked_of_mem hnames hl]
  unfold FsStore.get FsStore.put
  rw [lookup_insert_ite]
  by_cases heq : hash = asked l
  · rw [if_pos heq, if_pos (by rw [heq])]
  · rw [if_neg heq, if_neg]
    · rfl
    · exact fun hpath => heq (hash_eq_of_path_eq hhash (hplain l hl) hpath)

end Stocked

/-! ## A read over one chain -/

/-- The hash under which a layer of a chain is asked, when every layer below
the first holds the same bytes. -/
def askedIn (rt : Runtime) (start : String) (below : Bytes) (l : DerivedLayer) : String :=
  if l.isCodeDerived then start else rt.hashBytes below

/-- The artifact of the first layer, and that of the others. -/
def madeIn (layer : DerivedLayer) (below own : Bytes) (l : DerivedLayer) : Bytes :=
  if l.name = layer.name then own else below

/-- The state in which one read finds its chain. -/
def stockedFor (rt : Runtime) (layer : DerivedLayer) (chain : List DerivedLayer) (start : String)
    (below own : Bytes) : DagState :=
  stocked chain (askedIn rt start below) (madeIn layer below own)

section Reading

variable {rt : Runtime} {layers : List DerivedLayer} {topo : List String} {dag : DerivationDAG}
  (hdag : DerivationDAG.init layers topo = .ok dag) {layer : DerivedLayer}
  (hlayer : dag.layer layer.name = .ok layer) {snap : Snapshot} {id : String} {node : SymbolNode}
  {chain : List DerivedLayer} (hchain : chainOf dag layer = .ok chain) {bottom : DerivedLayer}
  (hlast : chain.getLast? = some bottom) {hash : String}
  (hhash : node.contentHashes.lookup bottom.hashProfile = some hash) (below own : Bytes)

include hhash in
theorem plain_askedIn (l : DerivedLayer) :
    Plain (askedIn rt (askedFrom rt snap layer id hash) below l) := by
  unfold askedIn askedFrom
  split_ifs
  · exact plain_codeHash (plain_contentHash hhash)
  · exact plain_contentHash hhash
  · exact plain_hashBytes rt below

include hhash in
theorem sound_stockedFor :
    Sound (stockedFor rt layer chain (askedFrom rt snap layer id hash) below own) :=
  sound_stocked fun l _ => plain_askedIn hhash below l

include hdag hlayer hchain in
theorem names_of_chain : ∀ l ∈ chain, ∀ l' ∈ chain, l.name = l'.name → l = l' := by
  intro l hl l' hl' hname
  have hfound := layer_of_chain hdag hlayer hchain hl
  rw [hname, layer_of_chain hdag hlayer hchain hl'] at hfound
  exact (Except.ok.inj hfound).symm

include hdag hlayer hchain hhash

/-- The artifacts of the chain. -/
theorem get_stockedFor {l : DerivedLayer} (hl : l ∈ chain) {asked : String} (hplain : Plain asked) :
    (stockedFor rt layer chain (askedFrom rt snap layer id hash) below own l.name).store.get
        (l.storeKey asked) =
      if asked = askedIn rt (askedFrom rt snap layer id hash) below l then
        some (madeIn layer below own l)
      else none :=
  get_stocked (names_of_chain hdag hlayer hchain) (fun l _ => plain_askedIn hhash below l) hl hplain

theorem artifact_stockedFor {l : DerivedLayer} (hl : l ∈ chain) :
    (stockedFor rt layer chain (askedFrom rt snap layer id hash) below own).artifacts l.name
        (l.storeKey (askedIn rt (askedFrom rt snap layer id hash) below l)) =
      some (madeIn layer below own l) := by
  unfold DagState.artifacts
  rw [get_stockedFor hdag hlayer hchain hhash below own hl (plain_askedIn hhash below l),
    if_pos rfl]

omit hhash in
/-- The layers below the first hold the same bytes. -/
theorem madeIn_below {rest : List DerivedLayer} (hhead : chain = layer :: rest) {up : DerivedLayer}
    (hup : up ∈ rest) : madeIn layer below own up = below := by
  unfold madeIn
  rw [if_neg]
  intro hname
  have heq := names_of_chain hdag hlayer hchain up (hhead ▸ List.mem_cons_of_mem _ hup) layer
    (hhead ▸ List.mem_cons_self) hname
  exact not_mem_below (hhead ▸ hchain : chainFrom dag _ layer = _) (heq ▸ hup)

include hlast

/-- Every layer of the chain is asked under its hash. -/
theorem ownHash_stockedFor {before : List DerivedLayer} {up : DerivedLayer}
    {rest : List DerivedLayer} (hsplit : chain = before ++ up :: rest) :
    ownHash rt.hashBytes rt.iter
        (stockedFor rt layer chain (askedFrom rt snap layer id hash) below own).artifacts snap id
        node layer (up :: rest) =
      some (askedIn rt (askedFrom rt snap layer id hash) below up) := by
  have hcodeOf : ∀ {before : List DerivedLayer} {up : DerivedLayer} {rest : List DerivedLayer},
      chain = before ++ up :: rest → (up.isCodeDerived = true ↔ rest = []) := by
    intro before up rest hsplit
    exact chainFrom_code (hsplit ▸ hchain : chainFrom dag _ layer = _)
  unfold ownHash
  by_cases hcode : layer.isCodeDerived = true
  · have hone := chainFrom_of_code hchain hcode
    rw [hone] at hlast
    have hlayer' : layer = bottom := Option.some.inj hlast
    have hup : up = layer := by
      have hin : up ∈ chain := by
        rw [hsplit]
        exact List.mem_append_right _ List.mem_cons_self
      rw [hone] at hin
      exact List.mem_singleton.mp hin
    rw [if_pos hcode, hup]
    unfold askedIn askedFrom
    rw [if_pos hcode, if_pos hcode]
    rw [← hlayer'] at hhash
    rw [hhash, Option.map_some]
  · rw [if_neg hcode]
    have hstart : askedFrom rt snap layer id hash = hash := if_neg hcode
    induction rest generalizing before up with
    | nil =>
      rw [hsplit, List.getLast?_append_of_ne_nil _ (List.cons_ne_nil up [])] at hlast
      have hbottom : up = bottom := Option.some.inj hlast
      unfold askedIn
      rw [if_pos ((hcodeOf hsplit).mpr rfl), hstart, askedHash, hbottom, hhash]
    | cons next rest ih =>
      have hnext : chain = (before ++ [up]) ++ next :: rest := by
        rw [hsplit, List.append_assoc, List.singleton_append]
      have hin : next ∈ chain := by
        rw [hnext]
        exact List.mem_append_right _ List.mem_cons_self
      have hmade : madeIn layer below own next = below := by
        obtain ⟨tail, hhead⟩ := chainFrom_head hchain
        refine madeIn_below hdag hlayer hchain below own hhead ?_
        have hboth := hsplit.symm.trans hhead
        cases before with
        | nil =>
          rw [List.nil_append, List.cons.injEq] at hboth
          exact hboth.2 ▸ List.mem_cons_self
        | cons first before =>
          rw [List.cons_append, List.cons.injEq] at hboth
          rw [← hboth.2]
          exact List.mem_append_right _ (List.mem_cons_of_mem _ List.mem_cons_self)
      rw [askedHash, ih hnext, Option.bind_some,
        artifact_stockedFor hdag hlayer hchain hhash below own hin, hmade, Option.map_some]
      unfold askedIn
      rw [if_neg]
      intro hup
      have hnil := (hcodeOf hsplit).mp hup
      cases hnil

variable (hnode : snap.graph.symbol id = some node)
include hnode

/-- The read is fresh. -/
theorem served_stockedFor :
    Served rt dag (stockedFor rt layer chain (askedFrom rt snap layer id hash) below own) snap layer
      id own := by
  obtain ⟨rest, hhead⟩ := chainFrom_head hchain
  have hin : layer ∈ chain := by
    rw [hhead]
    exact List.mem_cons_self
  have hasked : ownHash rt.hashBytes rt.iter
      (stockedFor rt layer chain (askedFrom rt snap layer id hash) below own).artifacts snap id node
      layer chain = some (askedIn rt (askedFrom rt snap layer id hash) below layer) := by
    have hown := @ownHash_stockedFor rt layers topo dag hdag layer hlayer snap id node chain hchain
      bottom hlast hash hhash below own [] layer rest hhead
    rw [hhead] at hown ⊢
    exact hown
  obtain ⟨input, hresolve⟩ := (resolveInput_ok_iff_ownHash hnode hchain _).mpr hasked
  refine ⟨input, _, hresolve, .inl ?_⟩
  have hartifact := @artifact_stockedFor rt layers topo dag hdag layer hlayer snap id node chain
    hchain bottom hash hhash below own layer hin
  unfold madeIn at hartifact
  rw [if_pos rfl] at hartifact
  exact hartifact

omit hhash hlast hnode in
/-- In a state with fewer artifacts a layer is asked under the same hash or
not at all. -/
theorem asked_of_shrunk (hlast : chain.getLast? = some bottom)
    (hhash : node.contentHashes.lookup bottom.hashProfile = some hash) {τ : DagState}
    (hshrunk : Shrunk (stockedFor rt layer chain (askedFrom rt snap layer id hash) below own) τ)
    (before : List DerivedLayer) {up : DerivedLayer} {rest : List DerivedLayer}
    (hsplit : chain = before ++ up :: rest) {asked : String}
    (hasked : ownHash rt.hashBytes rt.iter τ.artifacts snap id node layer (up :: rest) =
      some asked) :
    asked = askedIn rt (askedFrom rt snap layer id hash) below up := by
  have hfirst := ownHash_mono (fun name key artifact => hshrunk.store name key artifact) hasked
  have hown := @ownHash_stockedFor rt layers topo dag hdag layer hlayer snap id node chain hchain
    bottom hlast hash hhash below own before up rest hsplit
  exact Option.some.inj (hfirst.symm.trans hown)

/-- What the first layer is made from. -/
def inputIn (rt : Runtime) (snap : Snapshot) (id : String) (node : SymbolNode)
    (layer : DerivedLayer) (below : Bytes) : GenInput :=
  if layer.isCodeDerived then ⟨id, snap.entitySource id, some node.kind⟩
  else ⟨id, rt.decode below, none⟩

/-- In a state with fewer artifacts the first layer has the same input or
none. -/
theorem input_of_shrunk {τ : DagState}
    (hshrunk : Shrunk (stockedFor rt layer chain (askedFrom rt snap layer id hash) below own) τ)
    {input : GenInput} {asked : String}
    (hresolve : resolve rt dag τ snap layer id = .ok (input, asked)) :
    input = inputIn rt snap id node layer below := by
  unfold resolve at hresolve
  unfold inputIn
  by_cases hcode : layer.isCodeDerived = true
  · rw [resolveInput_code hnode hcode] at hresolve
    rw [if_pos hcode]
    split at hresolve
    · cases hresolve
    · exact (Prod.mk.inj (Except.ok.inj hresolve)).1.symm
  · obtain ⟨tail, hhead⟩ := chainFrom_head hchain
    cases tail with
    | nil =>
      have hin : chainFrom dag _ layer = .ok ([] ++ layer :: []) := hhead ▸ hchain
      exact absurd ((chainFrom_code hin).mpr rfl) hcode
    | cons upstream rest =>
      have hin : upstream ∈ chain := by
        rw [hhead]
        exact List.mem_cons_of_mem _ List.mem_cons_self
      obtain ⟨name, hinput⟩ := @resolveInput_chain rt.hashBytes rt.iter rt.decode dag τ.artifacts
        snap id node hnode layer upstream rest (hhead ▸ hchain)
      rw [hinput] at hresolve
      split at hresolve
      · cases hresolve
      rename_i found hfound
      split at hresolve
      · cases hresolve
      rename_i artifact hartifact
      have hown : ownHash rt.hashBytes rt.iter τ.artifacts snap id node layer (upstream :: rest) =
          some found := by
        unfold ownHash
        rw [if_neg hcode]
        exact hfound
      have hasked := asked_of_shrunk hdag hlayer hchain below own hlast hhash hshrunk [layer]
        hhead hown
      rw [hasked] at hartifact
      have hstocked := hshrunk.store _ _ _ hartifact
      have hmade := @artifact_stockedFor rt layers topo dag hdag layer hlayer snap id node chain
        hchain bottom hash hhash below own upstream hin
      unfold DagState.artifacts at hmade
      rw [hstocked, madeIn_below hdag hlayer hchain below own hhead List.mem_cons_self] at hmade
      rw [if_neg hcode, ← Option.some.inj hmade]
      exact (Prod.mk.inj (Except.ok.inj hresolve)).1.symm

/-- Without one artifact of the chain the read is not fresh, unless the first
layer makes the same artifact again. -/
theorem not_served_of_lost {τ : DagState}
    (hshrunk : Shrunk (stockedFor rt layer chain (askedFrom rt snap layer id hash) below own) τ)
    (hown : rt.produceArtifact layer snap id (inputIn rt snap id node layer below) ≠ .artifact own)
    {up : DerivedLayer} (hup : up ∈ chain)
    (hlost : (τ up.name).store.get
      (up.storeKey (askedIn rt (askedFrom rt snap layer id hash) below up)) = none) :
    ¬ Served rt dag τ snap layer id own := by
  rintro ⟨input, asked, hresolve, hget⟩
  obtain ⟨rest, hhead⟩ := chainFrom_head hchain
  have hownτ := (resolveInput_ok_iff_ownHash hnode hchain asked).mp ⟨input, hresolve⟩
  rw [hhead] at hup hownτ
  rcases List.mem_cons.mp hup with heq | hbelow
  · have hasked := asked_of_shrunk hdag hlayer hchain below own hlast hhash hshrunk [] hhead
      hownτ
    rw [heq, ← hasked] at hlost
    rcases hget with hsome | ⟨-, -, hmade⟩
    · rw [hlost] at hsome
      cases hsome
    · rw [input_of_shrunk hdag hlayer hchain hlast hhash below own hnode hshrunk hresolve] at hmade
      exact hown hmade
  · obtain ⟨before, after, hsplit⟩ := List.append_of_mem hbelow
    have hcode : ¬ layer.isCodeDerived = true := by
      intro hcode
      have hone := hhead.symm.trans (chainFrom_of_code hchain hcode)
      rw [hsplit, List.cons.injEq] at hone
      exact List.append_ne_nil_of_right_ne_nil _ (List.cons_ne_nil _ _) hone.2
    unfold ownHash at hownτ
    rw [if_neg hcode, hsplit] at hownτ
    obtain ⟨found, artifact, hfound, hartifact⟩ := artifact_of_askedHash hownτ
    have hup' : ownHash rt.hashBytes rt.iter τ.artifacts snap id node layer (up :: after) =
        some found := by
      unfold ownHash
      rw [if_neg hcode]
      exact hfound
    have hasked := asked_of_shrunk hdag hlayer hchain below own hlast hhash hshrunk
      (layer :: before) (hhead.trans (by rw [hsplit]; rfl)) hup'
    unfold DagState.artifacts at hartifact
    rw [hasked, hlost] at hartifact
    cases hartifact

end Reading

/-! ## Collected artifacts -/

section Collecting

variable {rt : Runtime} {cfg : SessionConfig} {layers : List DerivedLayer} {topo : List String}
  {dag : DerivationDAG} (hdag : DerivationDAG.init layers topo = .ok dag) {layer : DerivedLayer}
  (hlayer : dag.layer layer.name = .ok layer) {snap : Snapshot} {id : String} {node : SymbolNode}
  {chain : List DerivedLayer} (hchain : chainOf dag layer = .ok chain) {bottom : DerivedLayer}
  (hlast : chain.getLast? = some bottom) {hash : String}
  (hhash : node.contentHashes.lookup bottom.hashProfile = some hash) (below own : Bytes)
  {candidates : List Snapshot} {up : DerivedLayer}

theorem version_mem_of_key {l : DerivedLayer} {hash : String} (hplain : Plain hash)
    {keys : Finset String} (h : l.storeKey hash ∈ keys) :
    l.generatorVersion ∈ FsStore.versions keys := by
  unfold FsStore.versions
  refine Finset.mem_image.mpr ⟨l.storeKey hash, Finset.mem_filter.mpr ⟨h, ?_⟩, ?_⟩
  · unfold DerivedLayer.storeKey
    simp
  · unfold DerivedLayer.storeKey
    rw [partitionKey_of_plain hplain]

include hdag hlayer hchain hlast hhash

/-- Without cover no entity is looked up under the hash that the read asks
for. -/
theorem not_mem_reachable {τ : DagState}
    (hshrunk : Shrunk (stockedFor rt layer chain (askedFrom rt snap layer id hash) below own) τ)
    {before rest : List DerivedLayer} (hsplit : chain = before ++ up :: rest)
    (huncovered : ¬ Covers rt candidates up bottom (askedFrom rt snap layer id hash))
    {keys : Finset String} (hkeys : reachableKeys rt dag τ up candidates = .ok keys) :
    up.storeKey (askedIn rt (askedFrom rt snap layer id hash) below up) ∉ keys := by
  intro hin
  obtain ⟨other, hother, id', node', input, asked, hnode', happlies, hresolve, hkey⟩ :=
    (mem_reachableKeys hkeys _).mp hin
  have hsame := up.storeKey_injective hkey
  have hupchain : chainOf dag up = .ok (up :: rest) := chainFrom_suffix (hsplit ▸ hchain)
  have hlast' : (up :: rest).getLast? = some bottom := by
    rw [hsplit, List.getLast?_append_of_ne_nil _ (List.cons_ne_nil up rest)] at hlast
    exact hlast
  have hcodeOf := chainFrom_code (hsplit ▸ hchain : chainFrom dag _ layer = .ok (before ++ up :: rest))
  have hown := (resolveInput_ok_iff_ownHash hnode' hupchain asked).mp ⟨input, hresolve⟩
  unfold ownHash at hown
  by_cases hup : up.isCodeDerived = true
  · -- the key of a layer over code is that of one entity
    rw [hcodeOf.mp hup] at hlast'
    have hbottom : up = bottom := Option.some.inj hlast'
    rw [if_pos hup] at hown
    obtain ⟨hash', hhash', hcode'⟩ := Option.map_eq_some_iff.mp hown
    refine huncovered ⟨other, hother, id', node', hash', hnode', happlies, hbottom ▸ hhash', ?_⟩
    unfold askedFrom
    rw [if_pos hup, hcode', ← hsame]
    unfold askedIn askedFrom
    rw [if_pos hup]
  · -- the layer at the bottom holds one artifact only
    have hcode : ¬ layer.isCodeDerived = true := by
      intro hcode
      have hmem : up ∈ chain := by
        rw [hsplit]
        exact List.mem_append_right _ List.mem_cons_self
      rw [chainFrom_of_code hchain hcode, List.mem_singleton] at hmem
      exact hup (hmem ▸ hcode)
    rw [if_neg hup] at hown
    have hne : rest ≠ [] := fun hnil => hup (hcodeOf.mpr hnil)
    obtain ⟨between, hbetween⟩ : ∃ between, rest = between ++ [bottom] := by
      rw [List.getLast?_cons_of_ne_nil hne] at hlast'
      exact ⟨rest.dropLast, (List.dropLast_append_getLast? bottom hlast').symm⟩
    rw [hbetween] at hown
    obtain ⟨hash', artifact, hhash', hartifact⟩ := artifact_of_askedHash hown
    have hbottom : bottom ∈ chain := List.mem_of_getLast? hlast
    have hstocked := hshrunk.store _ _ _ hartifact
    rw [get_stockedFor hdag hlayer hchain hhash below own hbottom
      (plain_contentHash hhash')] at hstocked
    have hbottomCode : bottom.isCodeDerived = true := by
      have hend : chain = (before ++ up :: between) ++ bottom :: [] := by
        rw [hsplit, hbetween, List.append_assoc, List.cons_append]
      exact (chainFrom_code (hend ▸ hchain : chainFrom dag _ layer = _)).mpr rfl
    split at hstocked
    · rename_i hasked
      refine huncovered ⟨other, hother, id', node', hash', hnode', happlies, hhash', ?_⟩
      unfold askedIn at hasked
      rw [if_pos hbottomCode] at hasked
      unfold askedFrom
      rw [if_neg hup, hasked]
      rfl
    · cases hstocked

/-- A layer of the chain that the collection gets to without cover loses what
the read asks for. -/
theorem lost_of_uncovered (hup : up ∈ chain) (hcollects : Collects cfg up)
    (hlisted : Listed up.generatorVersion) (hreached : Reached cfg dag candidates up)
    (huncovered : ¬ Covers rt candidates up bottom (askedFrom rt snap layer id hash)) :
    ((collectLayers rt cfg dag candidates (iterLayers dag)
        (stockedFor rt layer chain (askedFrom rt snap layer id hash) below own)).1
        up.name).store.get
      (up.storeKey (askedIn rt (askedFrom rt snap layer id hash) below up)) = none := by
  obtain ⟨before, rest, hsplit⟩ := List.append_of_mem hup
  obtain ⟨first, others, hlayers, hbefore⟩ := hreached
  have hnames := names_of_chain hdag hlayer hchain
  have hplain := @plain_askedIn rt layer snap id node bottom hash hhash below up
  have hsound := @sound_stockedFor rt layer snap id node chain bottom hash hhash below own
  have hgood : ¬ Aborts cfg dag candidates up := by
    rintro ⟨-, ⟨e, herror, -⟩, -⟩
    have hupchain : chainOf dag up = .ok (up :: rest) := chainFrom_suffix (hsplit ▸ hchain)
    rw [hupchain] at herror
    cases herror
  obtain ⟨τ, keys, hτ, hshrunk, hkeys, hfinal⟩ := @collectLayers_at rt cfg dag candidates first
    others up hbefore hcollects hgood _ hsound
  rw [← hlayers] at hfinal
  have hgoodKeys : (τ up.name).lastGood =
      (∅ : FMap String String).insert ""
        (up.storeKey (askedIn rt (askedFrom rt snap layer id hash) below up ++ "0")) := by
    rw [hshrunk.lastGood]
    unfold stockedFor
    rw [stocked_of_mem hnames hup]
  have hdecoy : up.storeKey (askedIn rt (askedFrom rt snap layer id hash) below up ++ "0") ∈
      kept τ up keys := by
    refine Finset.mem_union_right _ (@mem_lastGoodKeys up (τ up.name) "" _
      (plain_append_zero hplain) ?_)
    rw [hgoodKeys, lookup_insert_ite, if_pos rfl]
  have hcollected : Collected (kept τ up keys)
      (askedIn rt (askedFrom rt snap layer id hash) below up) up.generatorVersion := by
    refine ⟨fun hin => ?_, version_mem_of_key (plain_append_zero hplain) hdecoy, hlisted⟩
    rcases Finset.mem_union.mp hin with hreachable | hlast'
    · exact not_mem_reachable hdag hlayer hchain hlast hhash below own hshrunk hsplit huncovered
        hkeys hreachable
    · obtain ⟨id', -, hid'⟩ := Finset.mem_biUnion.mp (Finset.mem_filter.mp hlast').1
      rw [hgoodKeys, lookup_insert_ite] at hid'
      split at hid'
      · rw [Option.toFinset_some, Finset.mem_singleton] at hid'
        have hself := up.storeKey_injective hid'
        have hlength := congrArg String.length hself
        rw [String.length_append] at hlength
        simp at hlength
      · exact absurd hid' (Finset.notMem_empty _)
  have hgone : ((gcStore rt τ up keys) up.name).store.get
      (up.storeKey (askedIn rt (askedFrom rt snap layer id hash) below up)) = none := by
    unfold DerivedLayer.storeKey
    rw [get_gcStore hτ hplain, if_pos ⟨rfl, hcollected⟩]
  cases hget : ((collectLayers rt cfg dag candidates (iterLayers dag)
      (stockedFor rt layer chain (askedFrom rt snap layer id hash) below own)).1
      up.name).store.get
      (up.storeKey (askedIn rt (askedFrom rt snap layer id hash) below up)) with
  | none => rfl
  | some artifact =>
    have hbefore' := hfinal.store _ _ _ hget
    rw [hgone] at hbefore'
    cases hbefore'

end Collecting

/-! ## The exact condition -/

section Exact

variable {rt : Runtime} {cfg : SessionConfig} {layers : List DerivedLayer} {topo : List String}
  {dag : DerivationDAG} (hdag : DerivationDAG.init layers topo = .ok dag) {session : Session}

/-- An artifact that a producer does not make. -/
def another : TracedLayers.Produced → Bytes
  | .artifact made => 0 :: made
  | .nothing => []
  | .raised => []

theorem another_ne (produced : TracedLayers.Produced) : produced ≠ .artifact (another produced) := by
  cases produced with
  | artifact made =>
    intro h
    have hlength := congrArg List.length (TracedLayers.Produced.artifact.inj h)
    unfold another at hlength
    rw [List.length_cons] at hlength
    omega
  | nothing => exact fun h => by cases h
  | raised => exact fun h => by cases h

include hdag

/-- Where a layer is not covered, a read is lost in some state. -/
theorem not_kept_of_uncovered {head : Snapshot} (hhead : session.headGraph = some head)
    {layer : DerivedLayer} (hlayer : layer ∈ iterLayers dag) {snap : Snapshot}
    (hreadable : session.Readable snap) {id : String} {node : SymbolNode}
    (hnode : snap.graph.symbol id = some node)
    (happlies : layer.appliesTo (symbolKindStr node.kind) = true) {chain : List DerivedLayer}
    (hchain : chainOf dag layer = .ok chain) {bottom : DerivedLayer}
    (hlast : chain.getLast? = some bottom) {hash : String}
    (hhash : node.contentHashes.lookup bottom.hashProfile = some hash) {up : DerivedLayer}
    (hup : up ∈ chain) (hcollects : Collects cfg up) (hlisted : Listed up.generatorVersion)
    (hreached : Reached cfg dag (session.retained head) up)
    (huncovered : ¬ Covers rt (session.retained head) up bottom (askedFrom rt snap layer id hash)) :
    ∃ σ, Sound σ ∧ ¬ Kept rt cfg dag session layer σ := by
  obtain ⟨hfound, hsome⟩ := layer_of_iterLayers hdag hlayer
  generalize hmade : rt.produceArtifact layer snap id (inputIn rt snap id node layer []) = produced
  have hserved := @served_stockedFor rt layers topo dag hdag layer hfound snap id node chain hchain
    bottom hlast hash hhash [] (another produced) hnode
  refine ⟨stockedFor rt layer chain (askedFrom rt snap layer id hash) [] (another produced),
    sound_stockedFor hhash [] _, fun hkept => ?_⟩
  have hfresh := hkept.fresh snap hreadable id node _ hnode happlies
    ((derived_fresh_iff hsome hfound _).mpr hserved)
  rw [derived_fresh_iff hsome hfound] at hfresh
  unfold gcOrphans at hfresh
  rw [hsome, hhead] at hfresh
  exact not_served_of_lost hdag hfound hchain hlast hhash [] _ hnode
    (shrunk_collectLayers (iterLayers dag) _) (hmade ▸ another_ne produced) hup
    (lost_of_uncovered hdag hfound hchain hlast hhash [] _ hup hcollects hlisted hreached
      huncovered) hfresh

/-- The collection keeps everything that can be served, in every state of the
layers, if and only if every layer is covered. -/
theorem gcOrphans_keeps_iff :
    (∀ layer ∈ iterLayers dag, Collects cfg layer → ∀ σ, Sound σ →
      Kept rt cfg dag session layer σ) ↔ Covered rt cfg dag session := by
  constructor
  · intro hkept head hhead layer hlayer hcollects snap hreadable id node hnode happlies chain hchain
      bottom hlast hash hhash up hup hupCollects hlisted hreached
    by_contra huncovered
    obtain ⟨σ, hsound, hnot⟩ := not_kept_of_uncovered hdag hhead hlayer hreadable hnode happlies
      hchain hlast hhash hup hupCollects hlisted hreached huncovered
    exact hnot (hkept layer hlayer hcollects σ hsound)
  · intro hcovered layer hlayer hcollects σ hsound
    exact kept_of_covered hdag hsound hcovered hlayer hcollects

end Exact

/-! ## Two layers -/

/-- A digest of the first bytes, filled up. -/
def sampleDigest (bytes : Bytes) : String :=
  String.ofList (((bytes.map fun b : UInt8 => PercentCoding.hexDigit (b.toNat % 16)) ++
    List.replicate 32 '0').take 32)

theorem sampleDigest_plain (bytes : Bytes) : (sampleDigest bytes).length = 32 ∧
    ∀ c ∈ (sampleDigest bytes).toList, c.isAlphanum = true := by
  have hdigit : ∀ value < 16, (PercentCoding.hexDigit value).isAlphanum = true := by decide
  unfold sampleDigest
  refine ⟨by simp, fun c hc => ?_⟩
  rw [String.toList_ofList] at hc
  rcases List.mem_append.mp (List.mem_of_mem_take hc) with hbyte | hzero
  · obtain ⟨b, -, hb⟩ := List.mem_map.mp hbyte
    rw [← hb]
    exact hdigit _ (Nat.mod_lt _ (by decide))
  · rw [List.eq_of_mem_replicate hzero]
    decide

/-- Generators that return what they are given. -/
def sampleRuntime : Runtime where
  hashBytes := sampleDigest
  digest := sampleDigest_plain
  decode := sampleDecode
  decode_utf8 := sampleDecode_utf8
  iter := HashOrder.increasing
  produceArtifact := fun _ _ _ input => .artifact (utf8 input.source)

/-- A layer that is collected and made at reads. -/
def sampleLayerConfig (dependency : String) (kinds : List String) : LayerConfig :=
  ⟨"derived", [dependency], some "template", some "v1", some "structure", some "artifacts", "block",
    "lazy", "local", kinds, false, false⟩

/-- Descriptions of the entities of some kinds, and embeddings of them for
all kinds. -/
def sampleConfig (kinds : List String) : TyConfig :=
  ⟨((∅ : FMap String LayerConfig).insert "descriptions" (sampleLayerConfig "code" kinds)).insert
      "embeddings" (sampleLayerConfig "descriptions" []), ["code", "descriptions", "embeddings"]⟩

def sampleSessionConfig (kinds : List String) : SessionConfig :=
  ⟨(sampleConfig kinds).layers, (∅ : FMap String StoreConfig).insert "artifacts" ⟨"orphans"⟩⟩

theorem sampleHashes_decimal (hash : String)
    (h : hash ≠ "" ∧ hash.toList.all Char.isDigit = true) :
    ∀ profile found, ((∅ : FMap String String).insert "structure" hash).lookup profile = some found →
      found ≠ "" ∧ ∀ c ∈ found.toList, c.isDigit = true := by
  intro profile found hfound
  rw [lookup_insert_ite] at hfound
  split at hfound
  · rw [← Option.some.inj hfound]
    exact ⟨h.1, List.all_eq_true.mp h.2⟩
  · cases hfound

/-- A class and a function. -/
def sampleSnapshot : Snapshot where
  graph := ⟨((∅ : FMap String SymbolNode).insert "C"
      ⟨.class_, (∅ : FMap String String).insert "structure" "57",
        sampleHashes_decimal "57" (by decide)⟩).insert "f"
      ⟨.function, (∅ : FMap String String).insert "structure" "75",
        sampleHashes_decimal "75" (by decide)⟩, ∅,
      fun edge h => absurd h (Finset.notMem_empty edge)⟩
  entitySource := fun id => "# " ++ id

/-- A session at its first revision. -/
def sampleSession : Session where
  contents := runAll (Store.withRetainCap 2) []
  opened := ⟨2, [], rfl⟩
  headGraph := some sampleSnapshot
  graphAt := fun _ => some sampleSnapshot

/-- The two layers. -/
def sampleDescriptions (kinds : List String) : DerivedLayer :=
  DerivedLayer.fromConfig "descriptions" (sampleLayerConfig "code" kinds)

def sampleEmbeddings : DerivedLayer :=
  DerivedLayer.fromConfig "embeddings" (sampleLayerConfig "descriptions" [])

def sampleDag (kinds : List String) : DerivationDAG :=
  ⟨[sampleDescriptions kinds, sampleEmbeddings],
    ((∅ : FMap String DerivedLayer).insert "descriptions" (sampleDescriptions kinds)).insert
      "embeddings" sampleEmbeddings, ["code", "descriptions", "embeddings"]⟩

theorem sampleDag_init (kinds : List String) :
    DerivationDAG.init [sampleDescriptions kinds, sampleEmbeddings]
      ["code", "descriptions", "embeddings"] = .ok (sampleDag kinds) := rfl

theorem iterLayers_sampleDag (kinds : List String) :
    iterLayers (sampleDag kinds) = [sampleDescriptions kinds, sampleEmbeddings] := rfl

theorem layer_of_sampleDag {kinds : List String} {name : String} {layer : DerivedLayer}
    (h : (sampleDag kinds).layer name = .ok layer) :
    layer = sampleDescriptions kinds ∨ layer = sampleEmbeddings := by
  unfold DerivationDAG.layer at h
  split at h
  · rename_i found hfound
    unfold sampleDag at hfound
    simp only at hfound
    rw [lookup_insert_ite, lookup_insert_ite] at hfound
    rw [← Except.ok.inj h]
    split at hfound
    · exact .inr (Option.some.inj hfound).symm
    · split at hfound
      · exact .inl (Option.some.inj hfound).symm
      · cases hfound
  · cases h

/-- The state after reads of the class and of the function, in a session that
was closed then. -/
def sampleState (kinds : List String) : DagState :=
  reopened <| [("descriptions", "C"), ("embeddings", "C"), ("descriptions", "f")].foldl
    (fun σ read => (derived sampleRuntime (sampleDag kinds) σ sampleSnapshot read.1 read.2).2)
    fun _ => ⟨∅, ∅, ∅, ∅⟩

/-- Where the descriptions apply to all kinds, every read stays fresh. -/
theorem sample_kept :
    DerivationDAG.fromSession (sampleConfig []) = .ok (sampleDag []) ∧
      ∀ layer ∈ iterLayers (sampleDag []), Collects (sampleSessionConfig []) layer → ∀ σ, Sound σ →
        Kept sampleRuntime (sampleSessionConfig []) (sampleDag []) sampleSession layer σ := by
  refine ⟨rfl, (gcOrphans_keeps_iff (sampleDag_init [])).mpr (covered_of_matching ?_ ?_)⟩
  · intro head snap hhead hsnap
    exact (Option.some.inj hsnap).symm.trans (Option.some.inj hhead)
  · intro layer hlayer _ chain hchain up hup _ _
    have hlayer' := (layer_of_iterLayers (sampleDag_init []) hlayer).1
    rcases layer_of_sampleDag (layer_of_chain (sampleDag_init []) hlayer' hchain hup) with heq | heq
    · rw [heq]
      exact ⟨fun _ _ => rfl, fun _ => rfl⟩
    · rw [heq]
      exact ⟨fun _ _ => rfl, fun _ => rfl⟩

/-- Descriptions for functions alone: the description of a class that was read
is collected, and the embedding that was made from it is no longer found. -/
theorem sample_lost :
    DerivationDAG.fromSession (sampleConfig ["function"]) = .ok (sampleDag ["function"]) ∧
      Occurs sampleRuntime (sampleState ["function"]) ∧
      sampleEmbeddings ∈ iterLayers (sampleDag ["function"]) ∧
      Collects (sampleSessionConfig ["function"]) sampleEmbeddings ∧
      ¬ Kept sampleRuntime (sampleSessionConfig ["function"]) (sampleDag ["function"]) sampleSession
        sampleEmbeddings (sampleState ["function"]) := by
  refine ⟨rfl, ?_, ?_, ⟨by decide +kernel, by decide +kernel⟩, fun hkept => ?_⟩
  · exact .reopen (.read (.read (.read .empty _ _ _ _) _ _ _ _) _ _ _ _)
  · rw [iterLayers_sampleDag]
    exact List.mem_cons_of_mem _ List.mem_cons_self
  · have hbefore : (derived sampleRuntime (sampleDag ["function"]) (sampleState ["function"])
        sampleSnapshot "embeddings" "C").1 = .value (some (utf8 "# C")) .fresh := by
      decide +kernel
    have hafter : (derived sampleRuntime (sampleDag ["function"])
        (gcOrphans sampleRuntime (sampleSessionConfig ["function"]) (sampleDag ["function"])
          sampleSession (sampleState ["function"])).1
        sampleSnapshot "embeddings" "C").1 = .value none .absent := by
      decide +kernel
    have hfresh := hkept.fresh sampleSnapshot (.inl rfl) "C" _ _ rfl rfl hbefore
    exact absurd (hafter.symm.trans hfresh) (by decide)

end Tyo3.LostArtifacts
