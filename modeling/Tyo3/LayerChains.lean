import Tyo3.OrphanCollection

/-!
# The chains of layers that inputs are resolved through

A layer that does not derive from code asks its first dependency for an
artifact, which asks its own, down to a layer that derives from code and is
asked under the plain content hash of the entity. The chain is fixed by the
graph of layers; along it, every artifact gives the hash that the layer above
is asked under.
-/

namespace Tyo3.LayerChains

open FiniteMaps JsonValues DerivedLayers OrphanCollection

open Tyo3.Configuration (bind_ok)

/-- A layer and the layers it is resolved through. -/
def chainFrom (dag : DerivationDAG) : ℕ → DerivedLayer → Except ResolveError (List DerivedLayer)
  | 0, _ => .error .recursion
  | fuel + 1, layer =>
    if layer.isCodeDerived then .ok [layer]
    else match layer.dependsOn with
      | [] => .error .noDependency
      | name :: _ => do
        let upstream ← dag.layer name
        let rest ← chainFrom dag fuel upstream
        return layer :: rest

/-- The chain of a layer. -/
def chainOf (dag : DerivationDAG) (layer : DerivedLayer) : Except ResolveError (List DerivedLayer) :=
  chainFrom dag (dag.topoOrder.length + 2) layer

/-- The hash under which the first layer of a chain is asked for an entity with
some content hashes. -/
def askedHash (hashBytes : Bytes → String) (caches : Artifacts) (hashes : FMap String String) :
    List DerivedLayer → Option String
  | [] => none
  | [layer] => hashes.lookup layer.hashProfile
  | _ :: layer :: layers => (askedHash hashBytes caches hashes (layer :: layers)).bind fun hash =>
    (caches layer.name (layer.storeKey hash)).map hashBytes

section Chains

variable {dag : DerivationDAG} {fuel : ℕ} {layer : DerivedLayer} {chain : List DerivedLayer}

/-- What a chain is: the layer alone, or the layer and the chain of its first
dependency. -/
theorem chainFrom_cases (h : chainFrom dag (fuel + 1) layer = .ok chain) :
    layer.isCodeDerived = true ∧ chain = [layer] ∨
      layer.isCodeDerived = false ∧ ∃ name others upstream rest, layer.dependsOn = name :: others ∧
        dag.layer name = .ok upstream ∧ chainFrom dag fuel upstream = .ok rest ∧
        chain = layer :: rest := by
  rw [chainFrom] at h
  split_ifs at h with hcode
  · cases h
    exact Or.inl ⟨hcode, rfl⟩
  · cases hdeps : layer.dependsOn with
    | nil =>
      rw [hdeps] at h
      cases h
    | cons name others =>
      rw [hdeps] at h
      obtain ⟨upstream, hfound, hrest⟩ := bind_ok h
      obtain ⟨rest, hchain, heq⟩ := bind_ok hrest
      cases heq
      exact Or.inr ⟨Bool.eq_false_iff.mpr hcode, name, others, upstream, rest, rfl, hfound, hchain,
        rfl⟩

/-- The chain of a layer over code. -/
theorem chainFrom_of_code (h : chainFrom dag fuel layer = .ok chain)
    (hcode : layer.isCodeDerived = true) : chain = [layer] := by
  cases fuel with
  | zero => cases h
  | succ fuel =>
    rcases chainFrom_cases h with ⟨-, heq⟩ | ⟨hnot, -⟩
    · exact heq
    · rw [hcode] at hnot
      cases hnot

/-- A chain starts with its layer. -/
theorem chainFrom_head (h : chainFrom dag fuel layer = .ok chain) :
    ∃ rest, chain = layer :: rest := by
  cases fuel with
  | zero => cases h
  | succ fuel =>
    rcases chainFrom_cases h with ⟨-, rfl⟩ | ⟨-, _, _, _, rest, -, -, -, rfl⟩
    · exact ⟨[], rfl⟩
    · exact ⟨rest, rfl⟩

/-- More fuel gives the same chain. -/
theorem chainFrom_mono {more : ℕ} (h : chainFrom dag fuel layer = .ok chain) (hle : fuel ≤ more) :
    chainFrom dag more layer = .ok chain := by
  induction fuel generalizing layer chain more with
  | zero => cases h
  | succ fuel ih =>
    cases more with
    | zero => omega
    | succ more =>
      rcases chainFrom_cases h with ⟨hcode, rfl⟩ |
        ⟨hcode, name, others, upstream, rest, hdeps, hfound, hrest, rfl⟩
      · rw [chainFrom, if_pos hcode]
      · have hmore := ih hrest (by omega : fuel ≤ more)
        rw [chainFrom, if_neg (by rw [hcode]; simp), hdeps]
        simp only [hfound, hmore, bind, Except.bind]
        rfl

/-- The rest of a chain is the chain of the layer it starts with. -/
theorem chainFrom_suffix {before after : List DerivedLayer} {upstream : DerivedLayer}
    (h : chainFrom dag fuel layer = .ok (before ++ upstream :: after)) :
    chainFrom dag fuel upstream = .ok (upstream :: after) := by
  induction fuel generalizing layer before with
  | zero => cases h
  | succ fuel ih =>
    cases before with
    | nil =>
      obtain ⟨rest, hhead⟩ := chainFrom_head h
      cases hhead
      exact h
    | cons first before =>
      rcases chainFrom_cases h with ⟨-, heq⟩ | ⟨-, _, _, up, rest, -, -, hrest, heq⟩
      · simp at heq
      · rw [List.cons_append, List.cons.injEq] at heq
        rw [← heq.2] at hrest
        exact chainFrom_mono (ih hrest) (Nat.le_succ fuel)

/-- Only the last layer of a chain derives from code. -/
theorem chainFrom_code {before after : List DerivedLayer} {upstream : DerivedLayer}
    (h : chainFrom dag fuel layer = .ok (before ++ upstream :: after)) :
    upstream.isCodeDerived = true ↔ after = [] := by
  have hsuffix := chainFrom_suffix h
  cases fuel with
  | zero => cases hsuffix
  | succ fuel =>
    rcases chainFrom_cases hsuffix with ⟨hcode, heq⟩ | ⟨hcode, _, _, up, rest, -, -, hrest, heq⟩
    · rw [List.cons.injEq] at heq
      simp [hcode, heq.2]
    · obtain ⟨tail, rfl⟩ := chainFrom_head hrest
      rw [List.cons.injEq] at heq
      simp [hcode, heq.2]

/-- Every layer of a chain after the first is a layer of the graph. -/
theorem chainFrom_known {before after : List DerivedLayer} {first upstream : DerivedLayer}
    (h : chainFrom dag fuel layer = .ok (first :: (before ++ upstream :: after))) :
    ∃ name, dag.layer name = .ok upstream := by
  induction fuel generalizing layer before first with
  | zero => cases h
  | succ fuel ih =>
    rcases chainFrom_cases h with ⟨-, heq⟩ | ⟨-, name, _, up, rest, -, hfound, hrest, heq⟩
    · simp at heq
    · rw [List.cons.injEq] at heq
      rw [← heq.2] at hrest
      obtain ⟨tail, hhead⟩ := chainFrom_head hrest
      cases before with
      | nil =>
        rw [List.nil_append, List.cons.injEq] at hhead
        rw [hhead.1]
        exact ⟨name, hfound⟩
      | cons next before => exact ih hrest

end Chains

section Resolving

variable {hashBytes : Bytes → String} {iter : HashOrder String} {decode : Bytes → String}
  {dag : DerivationDAG} {caches : Artifacts} {snap : Snapshot} {id : String} {node : SymbolNode}

/-- An upstream layer is asked under the hash that its chain gives. -/
theorem resolveUpstreamHash_eq (hnode : snap.graph.symbol id = some node) (fuel : ℕ)
    (upstream : DerivedLayer) :
    resolveUpstreamHash hashBytes dag caches snap id fuel upstream =
      (chainFrom dag fuel upstream).map (askedHash hashBytes caches node.contentHashes) := by
  induction fuel generalizing upstream with
  | zero => rfl
  | succ fuel ih =>
    rw [resolveUpstreamHash, chainFrom]
    by_cases hcode : upstream.isCodeDerived = true
    · rw [if_pos hcode, if_pos hcode, hnode]
      rfl
    · rw [if_neg hcode, if_neg hcode]
      cases hdeps : upstream.dependsOn with
      | nil => rfl
      | cons name others =>
        cases hfound : dag.layer name with
        | error e =>
          simp only [hfound]
          rfl
        | ok upUp =>
          simp only [hfound, bind, Except.bind, ih upUp]
          cases hchain : chainFrom dag fuel upUp with
          | error e => rfl
          | ok rest =>
            obtain ⟨rest, rfl⟩ := chainFrom_head hchain
            simp only [Except.map, pure, Except.pure, askedHash]
            cases hasked : askedHash hashBytes caches node.contentHashes (upUp :: rest) with
            | none => rfl
            | some hash => rfl

/-- The input of a layer that derives from code. -/
theorem resolveInput_code (hnode : snap.graph.symbol id = some node) {layer : DerivedLayer}
    (hcode : layer.isCodeDerived = true) :
    resolveInput hashBytes iter decode dag caches snap layer id =
      match node.contentHashes.lookup layer.hashProfile with
      | none => .error (.noContentHash id layer.hashProfile)
      | some hash => .ok (⟨id, snap.entitySource id, some node.kind⟩,
          codeHash hashBytes iter snap layer id hash) := by
  unfold resolveInput
  cases hhash : node.contentHashes.lookup layer.hashProfile with
  | none => simp [hcode, hnode, hhash]
  | some hash => simp [hcode, hnode, hhash]

/-- The input of a layer over others. -/
theorem resolveInput_chain (hnode : snap.graph.symbol id = some node) {layer upstream : DerivedLayer}
    {rest : List DerivedLayer} (hchain : chainOf dag layer = .ok (layer :: upstream :: rest)) :
    ∃ name, resolveInput hashBytes iter decode dag caches snap layer id =
      match askedHash hashBytes caches node.contentHashes (upstream :: rest) with
      | none => .error (.noUpstreamHash id name)
      | some hash =>
        match caches upstream.name (upstream.storeKey hash) with
        | none => .error (.noUpstreamArtifact id name)
        | some artifact => .ok (⟨id, decode artifact, none⟩, hashBytes artifact) := by
  rcases chainFrom_cases hchain with
    ⟨-, heq⟩ | ⟨hcode, name, others, up, tail, hdeps, hfound, hrest, heq⟩
  · cases heq
  · obtain ⟨tail', rfl⟩ := chainFrom_head hrest
    cases heq
    refine ⟨name, ?_⟩
    unfold resolveInput
    rw [if_neg (by rw [hcode]; simp), hdeps]
    simp only [bind, Except.bind, hfound, resolveUpstreamHash_eq hnode, hrest, Except.map]
    cases hasked : askedHash hashBytes caches node.contentHashes (upstream :: rest) with
    | none => rfl
    | some hash =>
      dsimp only
      cases hartifact : caches upstream.name (upstream.storeKey hash) with
      | none => rfl
      | some artifact => rfl

/-- Without a chain no input is resolved, for the same reason. -/
theorem resolveInput_error (hnode : snap.graph.symbol id = some node) {layer : DerivedLayer}
    {e : ResolveError} (hchain : chainOf dag layer = .error e) :
    resolveInput hashBytes iter decode dag caches snap layer id = .error e := by
  rw [chainOf, chainFrom] at hchain
  split_ifs at hchain with hcode
  unfold resolveInput
  rw [if_neg hcode]
  cases hdeps : layer.dependsOn with
  | nil =>
    rw [hdeps] at hchain
    cases hchain
    rfl
  | cons name others =>
    rw [hdeps] at hchain
    cases hfound : dag.layer name with
    | error e' =>
      simp only [hfound, bind, Except.bind] at hchain ⊢
      cases hchain
      rfl
    | ok upstream =>
      simp only [hfound, bind, Except.bind, resolveUpstreamHash_eq hnode] at hchain ⊢
      cases hrest : chainFrom dag (dag.topoOrder.length + 1) upstream with
      | error e' =>
        simp only [hrest] at hchain
        cases hchain
        rfl
      | ok rest =>
        simp only [hrest] at hchain
        cases hchain

/-- The hash of the input of a layer for an entity. -/
def ownHash (hashBytes : Bytes → String) (iter : HashOrder String) (caches : Artifacts)
    (snap : Snapshot) (id : String) (node : SymbolNode) (layer : DerivedLayer)
    (chain : List DerivedLayer) : Option String :=
  if layer.isCodeDerived then
    (node.contentHashes.lookup layer.hashProfile).map (codeHash hashBytes iter snap layer id)
  else askedHash hashBytes caches node.contentHashes chain

/-- With a chain an input is resolved when its hash is there, and the errors
are caught. -/
theorem resolveInput_spec (hnode : snap.graph.symbol id = some node) {layer : DerivedLayer}
    {chain : List DerivedLayer} (hchain : chainOf dag layer = .ok chain) :
    (∃ e, resolveInput hashBytes iter decode dag caches snap layer id = .error e ∧
        caught e = true ∧ ownHash hashBytes iter caches snap id node layer chain = none) ∨
      ∃ input hash, resolveInput hashBytes iter decode dag caches snap layer id = .ok (input, hash) ∧
        ownHash hashBytes iter caches snap id node layer chain = some hash := by
  unfold ownHash
  rcases chainFrom_cases hchain with ⟨hcode, rfl⟩ |
    ⟨hcode, _, _, upstream, rest, -, -, hrest, rfl⟩
  · rw [if_pos hcode, resolveInput_code hnode hcode]
    cases hhash : node.contentHashes.lookup layer.hashProfile with
    | none => exact Or.inl ⟨_, rfl, rfl, rfl⟩
    | some hash => exact Or.inr ⟨_, _, rfl, rfl⟩
  · obtain ⟨rest, rfl⟩ := chainFrom_head hrest
    rw [if_neg (by rw [hcode]; simp), askedHash]
    obtain ⟨name, hinput⟩ :=
      @resolveInput_chain hashBytes iter decode _ caches snap id node hnode _ _ _ hchain
    rw [hinput]
    cases hasked : askedHash hashBytes caches node.contentHashes (upstream :: rest) with
    | none => exact Or.inl ⟨_, rfl, rfl, rfl⟩
    | some hash =>
      simp only [Option.bind_some]
      cases hartifact : caches upstream.name (upstream.storeKey hash) with
      | none => exact Or.inl ⟨_, rfl, rfl, rfl⟩
      | some artifact => exact Or.inr ⟨_, _, rfl, rfl⟩

/-- An input with its hash. -/
theorem resolveInput_ok_iff_ownHash (hnode : snap.graph.symbol id = some node) {layer : DerivedLayer}
    {chain : List DerivedLayer} (hchain : chainOf dag layer = .ok chain) (hash : String) :
    (∃ input, resolveInput hashBytes iter decode dag caches snap layer id = .ok (input, hash)) ↔
      ownHash hashBytes iter caches snap id node layer chain = some hash := by
  rcases @resolveInput_spec hashBytes iter decode _ caches snap id node hnode _ _ hchain with
    ⟨e, herror, -, hnone⟩ | ⟨input, found, hok, hown⟩
  · simp [herror, hnone]
  · simp [hok, hown]

end Resolving

section Asking

variable {hashBytes : Bytes → String} {caches caches' : Artifacts} {hashes hashes' : FMap String String}

/-- The hash that a chain gives depends on one content hash of the entity. -/
theorem askedHash_congr {chain : List DerivedLayer} {bottom : DerivedLayer}
    (hlast : chain.getLast? = some bottom)
    (hsame : hashes.lookup bottom.hashProfile = hashes'.lookup bottom.hashProfile) :
    askedHash hashBytes caches hashes chain = askedHash hashBytes caches hashes' chain := by
  induction chain with
  | nil => rfl
  | cons layer chain ih =>
    cases chain with
    | nil =>
      cases hlast
      exact hsame
    | cons upstream chain =>
      rw [askedHash, askedHash, ih (by simpa using hlast)]

/-- Fewer artifacts give the same hash or none. -/
theorem askedHash_mono (hfewer : ∀ name key artifact, caches' name key = some artifact →
      caches name key = some artifact) {chain : List DerivedLayer} {hash : String}
    (h : askedHash hashBytes caches' hashes chain = some hash) :
    askedHash hashBytes caches hashes chain = some hash := by
  induction chain generalizing hash with
  | nil => cases h
  | cons layer chain ih =>
    cases chain with
    | nil => exact h
    | cons upstream chain =>
      rw [askedHash] at h ⊢
      obtain ⟨found, hfound, hmap⟩ := Option.bind_eq_some_iff.mp h
      obtain ⟨artifact, hartifact, rfl⟩ := Option.map_eq_some_iff.mp hmap
      rw [ih hfound, Option.bind_some, hfewer _ _ _ hartifact, Option.map_some]

theorem ownHash_mono {iter : HashOrder String} {snap : Snapshot} {id : String} {node : SymbolNode}
    {layer : DerivedLayer} (hfewer : ∀ name key artifact, caches' name key = some artifact →
      caches name key = some artifact) {chain : List DerivedLayer} {hash : String}
    (h : ownHash hashBytes iter caches' snap id node layer chain = some hash) :
    ownHash hashBytes iter caches snap id node layer chain = some hash := by
  unfold ownHash at h ⊢
  split_ifs at h ⊢
  · exact h
  · exact askedHash_mono hfewer h

end Asking

end Tyo3.LayerChains
