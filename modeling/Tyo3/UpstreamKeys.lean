import Tyo3.DerivedReads
import Tyo3.DriftedKeys

/-!
# Keys of layers over layers

A layer over other layers is keyed by an artifact of the first layer it
declares. That artifact is not looked up under the key that a read of the
upstream layer uses: a layer of code is asked under the plain content hash of
the entity. For local keys and for layers over layers this is the same key, and
the artifact is the one that was read; a semantic, reverse-semantic or traced
layer has its artifacts elsewhere. The other declared layers have no part in
the key.
-/

namespace Tyo3.UpstreamKeys

open FiniteMaps JsonValues DerivedLayers DerivedReads SemanticKeys DriftedKeys

/-! ## Graphs of layers -/

/-- The order of the names is one of the dependencies: no layer is called
code, and a layer stands after the layers it declares. -/
structure Ordered (dag : DerivationDAG) : Prop where
  /-- The name of the code is taken. -/
  code : dag.layerMap.lookup "code" = none
  /-- Every layer has a place. -/
  listed : ∀ name layer, dag.layerMap.lookup name = some layer → name ∈ dag.topoOrder
  /-- It is after the layers it declares. -/
  before : ∀ name layer, dag.layerMap.lookup name = some layer → ∀ dep ∈ layer.dependsOn,
    (dag.layerMap.lookup dep).isSome = true → dag.topoOrder.idxOf dep < dag.topoOrder.idxOf name

theorem lookup_of_layer {dag : DerivationDAG} {name : String} {layer : DerivedLayer}
    (h : dag.layer name = .ok layer) : dag.layerMap.lookup name = some layer := by
  unfold DerivationDAG.layer at h
  cases hlookup : dag.layerMap.lookup name with
  | none =>
    rw [hlookup] at h
    cases h
  | some found =>
    rw [hlookup] at h
    rw [Except.ok.inj h]

section Fuel

variable {hashBytes : Bytes → String} {dag : DerivationDAG} {caches : Artifacts} {snap : Snapshot}
  {id : String}

/-- The walk up the chain ends at the place of the layer at the latest. -/
theorem resolveUpstreamHash_fuel (hordered : Ordered dag) {fuel fuel' : ℕ} {name : String}
    {upstream : DerivedLayer} (hlayer : dag.layer name = .ok upstream)
    (h : dag.topoOrder.idxOf name < fuel) (h' : dag.topoOrder.idxOf name < fuel') :
    resolveUpstreamHash hashBytes dag caches snap id fuel upstream =
      resolveUpstreamHash hashBytes dag caches snap id fuel' upstream := by
  induction fuel generalizing fuel' name upstream with
  | zero => omega
  | succ fuel ih =>
    cases fuel' with
    | zero => omega
    | succ fuel' =>
      rw [resolveUpstreamHash, resolveUpstreamHash]
      split_ifs with hcode
      · rfl
      · cases hdeps : upstream.dependsOn with
        | nil => rfl
        | cons dep others =>
          cases hfound : dag.layer dep with
          | error e => simp only [hfound, Bind.bind, Except.bind]
          | ok upUp =>
            have hbefore := hordered.before name upstream (lookup_of_layer hlayer) dep
              (by rw [hdeps]; exact List.mem_cons_self)
              (by rw [lookup_of_layer hfound]; rfl)
            have hsame := @ih fuel' dep upUp hfound (by omega) (by omega)
            simp only [hfound, Bind.bind, Except.bind, hsame]

/-- A layer over layers is asked under the key of its own reads. -/
theorem asked_of_layer (hordered : Ordered dag) {iter : HashOrder String} {decode : Bytes → String}
    {name : String} {upstream : DerivedLayer} (hlayer : dag.layer name = .ok upstream)
    (hcode : upstream.isCodeDerived = false) {input : GenInput} {hash : String}
    (h : resolveInput hashBytes iter decode dag caches snap upstream id = .ok (input, hash)) :
    resolveUpstreamHash hashBytes dag caches snap id (dag.topoOrder.length + 1) upstream =
      .ok (some hash) := by
  have hplace : dag.topoOrder.idxOf name < dag.topoOrder.length :=
    List.idxOf_lt_length_of_mem (hordered.listed name upstream (lookup_of_layer hlayer))
  rcases resolveInput_ok_iff.mp h with
    ⟨hcode', -⟩ | ⟨-, dep, others, upUp, upHash, artifact, hdeps, hfound, hup, hkey, -, hhash⟩
  · rw [hcode] at hcode'
    cases hcode'
  · have hbefore := hordered.before name upstream (lookup_of_layer hlayer) dep
      (by rw [hdeps]; exact List.mem_cons_self) (by rw [lookup_of_layer hfound]; rfl)
    rw [@resolveUpstreamHash_fuel hashBytes dag caches snap id hordered
      (dag.topoOrder.length + 1) dag.topoOrder.length dep upUp hfound (by omega) (by omega)] at hup
    exact resolveUpstreamHash_ok_iff.mpr
      (.inr ⟨hcode, dep, others, upUp, upHash, artifact, hdeps, hfound, hup, hkey, hhash⟩)

/-- A local layer of code is asked under the key of its own reads. -/
theorem asked_of_local {iter : HashOrder String} {decode : Bytes → String}
    {upstream : DerivedLayer} (hcode : upstream.isCodeDerived = true)
    (hlocal : upstream.keyLocality = .local_) {input : GenInput} {hash : String}
    (h : resolveInput hashBytes iter decode dag caches snap upstream id = .ok (input, hash)) :
    resolveUpstreamHash hashBytes dag caches snap id (dag.topoOrder.length + 1) upstream =
      .ok (some hash) := by
  rcases resolveInput_ok_iff.mp h with
    ⟨-, node, content, hnode, hcontent, -, hkey⟩ | ⟨hcode', -⟩
  · unfold codeHash at hkey
    rw [hlocal] at hkey
    rw [hkey]
    exact resolveUpstreamHash_ok_iff.mpr (.inl ⟨hcode, node, hnode, hcontent⟩)
  · rw [hcode] at hcode'
    cases hcode'

end Fuel

/-! ## Reads of all upstream layers -/

section Reads

variable (keys : Keying) (producers : Producers) (dag : DerivationDAG)

/-- Read an entity under some layers, one after the other. -/
def readLayers (snap : Snapshot) (id : String) : List String → DagState → List Reply × DagState
  | [], σ => ([], σ)
  | name :: names, σ =>
    let (reply, σ', _) := derived keys producers dag σ snap name id
    let (replies, σ'') := readLayers snap id names σ'
    (reply :: replies, σ'')

/-- The layers that a layer declares besides the code. -/
def upstreamNames (layer : DerivedLayer) : List String := layer.dependsOn.filter (· ≠ "code")

/-- Fresh replies with some artifacts. -/
def freshReplies (artifacts : List Bytes) : List Reply :=
  artifacts.map fun artifact => .value (some artifact) .fresh

variable {keys producers dag}

theorem artifacts_derived {σ : DagState} {snap : Snapshot} {id asked name key : String}
    {found : Bytes} (h : σ.artifacts name key = some found) :
    (derived keys producers dag σ snap asked id).2.1.artifacts name key = some found := by
  unfold derived
  split_ifs
  · exact h
  · cases dag.layer asked with
    | error e => exact h
    | ok layer => exact artifacts_derivedOf h

/-- Reads only add to the artifacts. -/
theorem artifacts_readLayers {snap : Snapshot} {id : String} (names : List String) {σ : DagState}
    {name key : String} {found : Bytes} (h : σ.artifacts name key = some found) :
    (readLayers keys producers dag snap id names σ).2.artifacts name key = some found := by
  induction names generalizing σ with
  | nil => exact h
  | cons first names ih => exact ih (artifacts_derived h)

/-- The first of some fresh reads that is not traced has its artifact under its
key afterwards. -/
theorem stored_of_readLayers {snap : Snapshot} {id first : String} {names : List String}
    {σ : DagState} {artifacts : List Bytes} {layer : DerivedLayer}
    (hlayer : dag.layer first = .ok layer) (htraced : layer.isTraced = false)
    (h : (readLayers keys producers dag snap id (first :: names) σ).1 = freshReplies artifacts) :
    ∃ artifact input hash, artifacts.head? = some artifact ∧
      resolve keys dag σ snap layer id = .ok (input, hash) ∧
      (readLayers keys producers dag snap id (first :: names) σ).2.artifacts layer.name
        (layer.storeKey hash) = some artifact := by
  cases artifacts with
  | nil => cases h
  | cons artifact artifacts =>
    have hfirst : (derived keys producers dag σ snap first id).1 = .value (some artifact) .fresh :=
      (List.cons.inj h).1
    unfold derived at hfirst
    split_ifs at hfirst with hempty
    · cases hfirst
    · rw [hlayer] at hfirst
      obtain ⟨input, hash, hresolve, hstored⟩ := stored_of_fresh htraced hfirst
      have hread : derived keys producers dag σ snap first id =
          derivedOf keys producers dag σ snap layer id := by
        unfold derived
        rw [if_neg hempty, hlayer]
      rw [← hread] at hstored
      exact ⟨artifact, input, hash, rfl, hresolve, artifacts_readLayers names hstored⟩

end Reads

/-! ## What a key covers -/

section Covering

variable (keys : Keying) (dag : DerivationDAG) (σ : DagState)

/-- The input of a layer is resolved at two snapshots, and equal keys have
equal artifacts of all upstream layers. -/
def Tracks (layer : DerivedLayer) (id : String) (snap snap' : Snapshot)
    (artifacts artifacts' : List Bytes) : Prop :=
  ∃ input hash input' hash', resolve keys dag σ snap layer id = .ok (input, hash) ∧
    resolve keys dag σ snap' layer id = .ok (input', hash') ∧
    (hash = hash' → artifacts = artifacts')

/-- The artifact of a layer of code under the content hash of an entity. -/
def plainArtifact (snap : Snapshot) (layer : DerivedLayer) (id : String) : Option Bytes :=
  (profileHash snap.graph layer.hashProfile id).bind fun hash =>
    σ.artifacts layer.name (layer.storeKey hash)

/-- The first layer that is declared is a derived one and stands for all of
them. A layer of code whose keys are not local needs artifacts under the plain
content hashes, and these stand for the others. -/
def Covered (layer : DerivedLayer) (id : String) (snap snap' : Snapshot)
    (artifacts artifacts' : List Bytes) : Prop :=
  ∃ first others upstream, layer.dependsOn = first :: others ∧ dag.layer first = .ok upstream ∧
    if upstream.isCodeDerived ∧ upstream.keyLocality ≠ .local_ then
      ∃ artifact artifact', plainArtifact σ snap upstream id = some artifact ∧
        plainArtifact σ snap' upstream id = some artifact' ∧
        (artifact = artifact' → artifacts = artifacts')
    else artifacts.head? = artifacts'.head? → artifacts = artifacts'

variable {keys dag σ}

/-- The input of a layer over layers is the artifact of the first one. -/
theorem resolve_layer {layer : DerivedLayer} (hcode : layer.isCodeDerived = false) {snap : Snapshot}
    {id hash : String} :
    (∃ input, resolve keys dag σ snap layer id = .ok (input, hash)) ↔
      (upstreamArtifact keys.hashBytes dag σ.artifacts snap layer id).map keys.hashBytes =
        some hash := by
  have hkey := @resolvedKey_layer keys.hashBytes keys.iter keys.decode dag σ.artifacts snap layer
    hcode id
  rw [← hkey]
  unfold resolvedKey resolve
  cases resolveInput keys.hashBytes keys.iter keys.decode dag σ.artifacts snap layer id with
  | error e => simp
  | ok found => simp [Prod.ext_iff]

/-- With a digest without collisions the keys are those of the artifacts. -/
theorem tracks_iff_artifacts (hinj : Function.Injective keys.hashBytes) {layer : DerivedLayer}
    (hcode : layer.isCodeDerived = false) {id : String} {snap snap' : Snapshot}
    {artifacts artifacts' : List Bytes} :
    Tracks keys dag σ layer id snap snap' artifacts artifacts' ↔
      ∃ artifact artifact',
        upstreamArtifact keys.hashBytes dag σ.artifacts snap layer id = some artifact ∧
        upstreamArtifact keys.hashBytes dag σ.artifacts snap' layer id = some artifact' ∧
        (artifact = artifact' → artifacts = artifacts') := by
  unfold Tracks
  constructor
  · rintro ⟨input, hash, input', hash', h, h', himplies⟩
    obtain ⟨artifact, hartifact, hhash⟩ := Option.map_eq_some_iff.mp
      ((resolve_layer hcode).mp ⟨input, h⟩)
    obtain ⟨artifact', hartifact', hhash'⟩ := Option.map_eq_some_iff.mp
      ((resolve_layer hcode).mp ⟨input', h'⟩)
    refine ⟨artifact, artifact', hartifact, hartifact', fun hsame => himplies ?_⟩
    rw [← hhash, ← hhash', hsame]
  · rintro ⟨artifact, artifact', hartifact, hartifact', himplies⟩
    obtain ⟨input, h⟩ := (resolve_layer hcode).mpr (by rw [hartifact]; rfl)
    obtain ⟨input', h'⟩ := (resolve_layer hcode).mpr (by rw [hartifact']; rfl)
    exact ⟨input, _, input', _, h, h', fun hsame => himplies (hinj hsame)⟩

/-- The first layer that is declared, if it is a derived one. -/
def firstUpstream (dag : DerivationDAG) (layer : DerivedLayer) : Option DerivedLayer :=
  layer.dependsOn.head?.bind fun first => (dag.layer first).toOption

theorem firstUpstream_eq {layer upstream : DerivedLayer} {first : String} {others : List String}
    (hdeps : layer.dependsOn = first :: others) (hlayer : dag.layer first = .ok upstream) :
    firstUpstream dag layer = some upstream := by
  unfold firstUpstream
  rw [hdeps, List.head?_cons, Option.bind_some, hlayer]
  rfl

theorem exists_of_firstUpstream {layer upstream : DerivedLayer}
    (h : firstUpstream dag layer = some upstream) :
    ∃ first others, layer.dependsOn = first :: others ∧ dag.layer first = .ok upstream := by
  unfold firstUpstream at h
  obtain ⟨first, hfirst, hlayer⟩ := Option.bind_eq_some_iff.mp h
  obtain ⟨others, hdeps⟩ := List.head?_eq_some_iff.mp hfirst
  refine ⟨first, others, hdeps, ?_⟩
  cases hfound : dag.layer first with
  | error e =>
    rw [hfound] at hlayer
    cases hlayer
  | ok found =>
    rw [hfound] at hlayer
    rw [Option.some.inj hlayer]

/-- Without it no artifact is looked up. -/
theorem upstreamArtifact_none {layer : DerivedLayer} (h : firstUpstream dag layer = none)
    {snap : Snapshot} {id : String} :
    upstreamArtifact keys.hashBytes dag σ.artifacts snap layer id = none := by
  unfold upstreamArtifact
  cases hdeps : layer.dependsOn with
  | nil => rfl
  | cons first others =>
    cases hlayer : dag.layer first with
    | error e => simp only [hlayer]
    | ok upstream =>
      rw [firstUpstream_eq hdeps hlayer] at h
      cases h

theorem covered_cons {layer upstream : DerivedLayer} {first : String} {others : List String}
    (hdeps : layer.dependsOn = first :: others) (hlayer : dag.layer first = .ok upstream)
    {id : String} {snap snap' : Snapshot} {artifacts artifacts' : List Bytes} :
    Covered dag σ layer id snap snap' artifacts artifacts' ↔
      if upstream.isCodeDerived ∧ upstream.keyLocality ≠ .local_ then
        ∃ artifact artifact', plainArtifact σ snap upstream id = some artifact ∧
          plainArtifact σ snap' upstream id = some artifact' ∧
          (artifact = artifact' → artifacts = artifacts')
      else artifacts.head? = artifacts'.head? → artifacts = artifacts' := by
  constructor
  · rintro ⟨first', others', upstream', hdeps', hlayer', hcovered⟩
    rw [hdeps] at hdeps'
    obtain ⟨rfl, rfl⟩ := List.cons.inj hdeps'
    rw [hlayer] at hlayer'
    obtain rfl := Except.ok.inj hlayer'
    exact hcovered
  · exact fun hcovered => ⟨first, others, upstream, hdeps, hlayer, hcovered⟩

/-- The artifact that is looked up for a layer. -/
theorem upstreamArtifact_cons {layer upstream : DerivedLayer} {first : String}
    {others : List String} (hdeps : layer.dependsOn = first :: others)
    (hlayer : dag.layer first = .ok upstream) {snap : Snapshot} {id : String} {asked : Option String}
    (h : resolveUpstreamHash keys.hashBytes dag σ.artifacts snap id (dag.topoOrder.length + 1)
      upstream = .ok asked) :
    upstreamArtifact keys.hashBytes dag σ.artifacts snap layer id =
      asked.bind fun hash => σ.artifacts upstream.name (upstream.storeKey hash) := by
  unfold upstreamArtifact
  rw [hdeps]
  simp only [hlayer, h]

/-- A layer of code is asked under the plain content hash. -/
theorem upstreamArtifact_code {layer upstream : DerivedLayer} {first : String}
    {others : List String} (hdeps : layer.dependsOn = first :: others)
    (hlayer : dag.layer first = .ok upstream) (hcode : upstream.isCodeDerived = true)
    (snap : Snapshot) (id : String) :
    upstreamArtifact keys.hashBytes dag σ.artifacts snap layer id =
      plainArtifact σ snap upstream id := by
  unfold upstreamArtifact plainArtifact profileHash
  rw [hdeps]
  simp only [hlayer, resolveUpstreamHash]
  rw [if_pos hcode]
  cases snap.graph.symbol id with
  | none => rfl
  | some node => rfl

end Covering

section Main

variable {keys : Keying} {dag : DerivationDAG}

/-- After fresh reads the artifact of a layer whose keys are local, or that is
over layers, is the one that was read. -/
theorem upstreamArtifact_of_read (hordered : Ordered dag) {σ σ' : DagState} {snap : Snapshot}
    {id first : String} {others : List String} {layer upstream : DerivedLayer}
    (hdeps : layer.dependsOn = first :: others) (hlayer : dag.layer first = .ok upstream)
    (hplain : ¬ (upstream.isCodeDerived = true ∧ upstream.keyLocality ≠ .local_))
    (hmore : ∀ name key artifact, σ.artifacts name key = some artifact →
      σ'.artifacts name key = some artifact) {artifact : Bytes} {input : GenInput} {hash : String}
    (hresolve : resolve keys dag σ snap upstream id = .ok (input, hash))
    (hstored : σ'.artifacts upstream.name (upstream.storeKey hash) = some artifact) :
    upstreamArtifact keys.hashBytes dag σ'.artifacts snap layer id = some artifact := by
  have hresolve' : resolveInput keys.hashBytes keys.iter keys.decode dag σ'.artifacts snap upstream
      id = .ok (input, hash) := resolveInput_mono hmore hresolve
  have hasked : resolveUpstreamHash keys.hashBytes dag σ'.artifacts snap id
      (dag.topoOrder.length + 1) upstream = .ok (some hash) := by
    by_cases hcode : upstream.isCodeDerived = true
    · have hlocal : upstream.keyLocality = .local_ := by
        by_contra hother
        exact hplain ⟨hcode, hother⟩
      exact asked_of_local hcode hlocal hresolve'
    · rw [Bool.not_eq_true] at hcode
      exact asked_of_layer hordered hlayer hcode hresolve'
  rw [upstreamArtifact_cons hdeps hlayer hasked, Option.bind_some, hstored]

/-- After fresh reads of all upstream layers at two snapshots, the keys of a
layer over layers are there and tell the artifacts apart exactly when the first
layer it declares stands for all of them, with artifacts where it is asked. -/
theorem tracks_iff_covered (hinj : Function.Injective keys.hashBytes) (hordered : Ordered dag)
    {producers producers' : Producers} {σ : DagState} {snap snap' : Snapshot} {id : String}
    {layer : DerivedLayer} (hcode : layer.isCodeDerived = false) {artifacts artifacts' : List Bytes}
    (hreads : (readLayers keys producers dag snap id (upstreamNames layer) σ).1 =
      freshReplies artifacts)
    (hreads' : (readLayers keys producers' dag snap' id (upstreamNames layer)
      (readLayers keys producers dag snap id (upstreamNames layer) σ).2).1 =
        freshReplies artifacts') :
    Tracks keys dag (readLayers keys producers' dag snap' id (upstreamNames layer)
        (readLayers keys producers dag snap id (upstreamNames layer) σ).2).2
        layer id snap snap' artifacts artifacts' ↔
      Covered dag (readLayers keys producers' dag snap' id (upstreamNames layer)
        (readLayers keys producers dag snap id (upstreamNames layer) σ).2).2
        layer id snap snap' artifacts artifacts' := by
  rw [tracks_iff_artifacts hinj hcode]
  generalize hσ : (readLayers keys producers dag snap id (upstreamNames layer) σ).2 = σ₁ at *
  generalize hσ' : (readLayers keys producers' dag snap' id (upstreamNames layer) σ₁).2 = σ₂ at *
  cases hfirst : firstUpstream dag layer with
  | none =>
    have hnone : ∀ snap, upstreamArtifact keys.hashBytes dag σ₂.artifacts snap layer id = none :=
      fun snap => upstreamArtifact_none hfirst
    have hnot : ¬ Covered dag σ₂ layer id snap snap' artifacts artifacts' := by
      rintro ⟨first, others, upstream, hdeps, hlayer, -⟩
      rw [firstUpstream_eq hdeps hlayer] at hfirst
      cases hfirst
    rw [hnone]
    exact iff_of_false (fun h => by obtain ⟨_, _, hsome, -⟩ := h; cases hsome) hnot
  | some upstream =>
    obtain ⟨first, others, hdeps, hlayer⟩ := exists_of_firstUpstream hfirst
    rw [covered_cons hdeps hlayer]
    split_ifs with hplain
    · rw [upstreamArtifact_code hdeps hlayer hplain.1, upstreamArtifact_code hdeps hlayer hplain.1]
    · have hnames : upstreamNames layer = first :: others.filter (· ≠ "code") := by
        have hcodeless : first ≠ "code" := by
          intro heq
          have hlookup := lookup_of_layer hlayer
          rw [heq, hordered.code] at hlookup
          cases hlookup
        unfold upstreamNames
        rw [hdeps, List.filter_cons_of_pos (by simpa using hcodeless)]
      have htraced : upstream.isTraced = false := by
        by_contra htraced
        have hboth : upstream.keyLocality = .traced ∧ upstream.isCodeDerived = true := by
          simpa [DerivedLayer.isTraced] using htraced
        exact hplain ⟨hboth.2, by rw [hboth.1]; decide⟩
      have hmore' : ∀ name key artifact, σ₁.artifacts name key = some artifact →
          σ₂.artifacts name key = some artifact := by
        intro name key artifact h
        rw [← hσ']
        exact artifacts_readLayers _ h
      have hmore : ∀ name key artifact, σ.artifacts name key = some artifact →
          σ₂.artifacts name key = some artifact := by
        intro name key artifact h
        refine hmore' name key artifact ?_
        rw [← hσ]
        exact artifacts_readLayers _ h
      rw [hnames] at hreads hreads' hσ hσ'
      obtain ⟨artifact, input, hash, hhead, hresolve, hstored⟩ :=
        stored_of_readLayers hlayer htraced hreads
      obtain ⟨artifact', input', hash', hhead', hresolve', hstored'⟩ :=
        stored_of_readLayers hlayer htraced hreads'
      rw [hσ] at hstored
      rw [hσ'] at hstored'
      rw [upstreamArtifact_of_read hordered hdeps hlayer hplain hmore hresolve
          (hmore' _ _ _ hstored),
        upstreamArtifact_of_read hordered hdeps hlayer hplain hmore' hresolve' hstored',
        hhead, hhead']
      simp

end Main

/-! ## Layers over one layer and over two -/

/-- A layer that is made at reads. -/
def readLayer (name : String) (dependsOn : List String) (locality : Locality) : DerivedLayer :=
  ⟨name, dependsOn, "1", "structure", "block", "lazy", locality, none⟩

/-- A layer of code, one more, and a layer over layers. -/
def threeLayers (locality : Locality) (dependsOn : List String) : DerivationDAG :=
  ⟨[readLayer "heads" ["code"] locality, readLayer "bodies" ["code"] .local_,
      readLayer "summary" dependsOn .local_],
    (((∅ : FMap String DerivedLayer).insert "heads" (readLayer "heads" ["code"] locality)).insert
      "bodies" (readLayer "bodies" ["code"] .local_)).insert
      "summary" (readLayer "summary" dependsOn .local_),
    ["heads", "bodies", "summary"]⟩

theorem ordered_threeLayers (locality : Locality) :
    Ordered (threeLayers locality ["heads"]) := by
  have hlayers : ∀ name layer, (threeLayers locality ["heads"]).layerMap.lookup name = some layer →
      name = "summary" ∧ layer.dependsOn = ["heads"] ∨
      (name = "bodies" ∨ name = "heads") ∧ layer.dependsOn = ["code"] := by
    intro name layer h
    unfold threeLayers at h
    rw [lookup_insert_ite, lookup_insert_ite, lookup_insert_ite] at h
    split_ifs at h with hsummary hbodies hheads
    · exact .inl ⟨hsummary, by rw [← Option.some.inj h]; rfl⟩
    · exact .inr ⟨.inl hbodies, by rw [← Option.some.inj h]; rfl⟩
    · exact .inr ⟨.inr hheads, by rw [← Option.some.inj h]; rfl⟩
    · cases h
  have hcode : (threeLayers locality ["heads"]).layerMap.lookup "code" = none := by
    unfold threeLayers
    rw [lookup_insert_ite, lookup_insert_ite, lookup_insert_ite]
    rfl
  have horder : (threeLayers locality ["heads"]).topoOrder = ["heads", "bodies", "summary"] := rfl
  refine ⟨hcode, fun name layer h => ?_, fun name layer h dep hdep hknown => ?_⟩
  · rcases hlayers name layer h with ⟨hname, -⟩ | ⟨hname | hname, -⟩
    · rw [hname, horder]
      decide
    · rw [hname, horder]
      decide
    · rw [hname, horder]
      decide
  · rcases hlayers name layer h with ⟨hname, hdeps⟩ | ⟨-, hdeps⟩
    · rw [hdeps] at hdep
      rw [hname, List.mem_singleton.mp hdep, horder]
      decide
    · rw [hdeps] at hdep
      rw [List.mem_singleton.mp hdep, hcode] at hknown
      cases hknown

/-- Heads are all alike, and any other artifact is the content hash. -/
def hashProducers : Producers where
  produceCode _ _ id := (.nothing, {id})
  produceArtifact layer snap id _ :=
    .artifact (if layer.name = "heads" then [0] else utf8 (snap.graph.hashOf "structure" id))

/-- Keys with a digest without collisions. -/
def textKeying : Keying := ⟨bytesText, HashOrder.increasing, fun _ => ""⟩

/-- The reads of the upstream layers of the third layer at a version of the
changed function. -/
def readSample (locality : Locality) (dependsOn : List String) (snap : Snapshot) (σ : DagState) :
    List Reply × DagState :=
  readLayers textKeying hashProducers (threeLayers locality dependsOn) snap "b"
    (upstreamNames (readLayer "summary" dependsOn .local_)) σ

/-- The layers before any read. -/
def unread : DagState := ⟨fun _ => ⟨∅, ∅, ∅, ∅, ∅⟩, ⟨∅, []⟩⟩

/-- The reads at the first and the second version. -/
def readBoth (locality : Locality) (dependsOn : List String) : List Reply × List Reply × DagState :=
  let first := readSample locality dependsOn (mutualSnapshot "2" TracedReads.decimal_two) unread
  let second := readSample locality dependsOn (mutualSnapshot "3" TracedReads.decimal_three) first.2
  (first.1, second.1, second.2)

/-- The key of a layer over a local one tells its artifacts apart. -/
theorem tracks_local : (readBoth .local_ ["heads"]).1 = freshReplies [[0]] ∧
    (readBoth .local_ ["heads"]).2.1 = freshReplies [[0]] ∧
    Tracks textKeying (threeLayers .local_ ["heads"]) (readBoth .local_ ["heads"]).2.2
      (readLayer "summary" ["heads"] .local_) "b" (mutualSnapshot "2" (by decide))
      (mutualSnapshot "3" (by decide)) [[0]] [[0]] := by
  have hreads : (readBoth .local_ ["heads"]).1 = freshReplies [[0]] := by decide +kernel
  have hreads' : (readBoth .local_ ["heads"]).2.1 = freshReplies [[0]] := by decide +kernel
  refine ⟨hreads, hreads', (@tracks_iff_covered textKeying (threeLayers .local_ ["heads"])
    bytesText_injective (ordered_threeLayers .local_) hashProducers hashProducers unread
    (mutualSnapshot "2" (by decide)) (mutualSnapshot "3" (by decide)) "b"
    (readLayer "summary" ["heads"] .local_) rfl [[0]] [[0]] hreads hreads').mpr ?_⟩
  refine ⟨"heads", [], readLayer "heads" ["code"] .local_, rfl, rfl, ?_⟩
  rw [if_neg (by decide)]
  exact fun _ => rfl

/-- Over a semantic layer no key is found although the read is fresh, and the
second of two layers may change under one key. -/
theorem upstream_untracked :
    ((readBoth .semantic ["heads"]).1 = freshReplies [[0]] ∧
      (readBoth .semantic ["heads"]).2.1 = freshReplies [[0]] ∧
      ¬ Tracks textKeying (threeLayers .semantic ["heads"]) (readBoth .semantic ["heads"]).2.2
        (readLayer "summary" ["heads"] .local_) "b" (mutualSnapshot "2" (by decide))
        (mutualSnapshot "3" (by decide)) [[0]] [[0]]) ∧
    (readBoth .local_ ["heads", "bodies"]).1 = freshReplies [[0], utf8 "2"] ∧
      (readBoth .local_ ["heads", "bodies"]).2.1 = freshReplies [[0], utf8 "3"] ∧
      ¬ Tracks textKeying (threeLayers .local_ ["heads", "bodies"])
        (readBoth .local_ ["heads", "bodies"]).2.2 (readLayer "summary" ["heads", "bodies"] .local_)
        "b" (mutualSnapshot "2" (by decide)) (mutualSnapshot "3" (by decide)) [[0], utf8 "2"]
        [[0], utf8 "3"] := by
  refine ⟨⟨by decide +kernel, by decide +kernel, ?_⟩, by decide +kernel, by decide +kernel, ?_⟩
  · rintro ⟨input, hash, _, _, h, -, -⟩
    have hnone : (resolve textKeying (threeLayers .semantic ["heads"])
        (readBoth .semantic ["heads"]).2.2 (mutualSnapshot "2" (by decide))
        (readLayer "summary" ["heads"] .local_) "b").toOption.isNone = true := by decide +kernel
    rw [h] at hnone
    cases hnone
  · rintro ⟨input, hash, input', hash', h, h', himplies⟩
    have hkeys : ((resolve textKeying (threeLayers .local_ ["heads", "bodies"])
        (readBoth .local_ ["heads", "bodies"]).2.2 (mutualSnapshot "2" (by decide))
        (readLayer "summary" ["heads", "bodies"] .local_) "b").toOption.map Prod.snd) =
      ((resolve textKeying (threeLayers .local_ ["heads", "bodies"])
        (readBoth .local_ ["heads", "bodies"]).2.2 (mutualSnapshot "3" (by decide))
        (readLayer "summary" ["heads", "bodies"] .local_) "b").toOption.map Prod.snd) := by
      decide +kernel
    rw [h, h'] at hkeys
    exact absurd (himplies (Option.some.inj hkeys)) (by decide +kernel)

end Tyo3.UpstreamKeys
