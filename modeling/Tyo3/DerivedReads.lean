import Tyo3.TracedLayers

/-!
# Reads of derived layers

A session holds the states of all its derived layers and the scheduler that
makes artifacts. A read of a traced layer checks what was read last time, and
a read of any other layer resolves its key first. What a producer ends with is
an argument of every call, since a producer may answer differently each time
it is run. Artifacts are only ever added, so a key that was resolved once is
resolved again.
-/

namespace Tyo3.DerivedReads

open FiniteMaps JsonValues DerivedLayers

open TracedLayers (LayerState Status Produced OnMiss View selfHealCheck putAndBind
  tracedServeLastGood tracedFingerprint)

/-! ## State -/

/-- What keys are made with. -/
structure Keying where
  /-- The digest of bytes. -/
  hashBytes : Bytes → String
  /-- The order in which a collection is visited. -/
  iter : HashOrder String
  /-- Read bytes as text. -/
  decode : Bytes → String

/-- What the producers of the layers end with. -/
structure Producers where
  /-- The producer of a traced layer, with what it read. -/
  produceCode : DerivedLayer → Snapshot → String → Produced × Finset String
  /-- The producer or generator of any other layer. -/
  produceArtifact : DerivedLayer → Snapshot → String → GenInput → Produced

/-- An artifact to be made. -/
structure WorkItem where
  /-- The layer. -/
  layerName : String
  /-- The entity it is made for. -/
  durableId : String
  /-- Its input hash. -/
  inputHash : String
  deriving DecidableEq, Repr

/-- The scheduler. Lazy items are noted by the source and never looked at. -/
structure RecomputeScheduler where
  /-- Layers and input hashes that were worked on. -/
  done : Finset (String × String)
  /-- Items that wait. -/
  pending : List WorkItem

/-- The derived layers of a session. -/
structure DagState where
  /-- The states of the layers by name. -/
  layers : String → LayerState
  /-- The scheduler. -/
  scheduler : RecomputeScheduler

namespace DagState

/-- The artifacts of all layers. -/
def artifacts (σ : DagState) : Artifacts := fun name key => (σ.layers name).store.lookup key

/-- Change the state of a layer. -/
def setLayer (σ : DagState) (name : String) (s : LayerState) : DagState :=
  { σ with layers := Function.update σ.layers name s }

/-- Note that a key was worked on. -/
def addDone (σ : DagState) (name inputHash : String) : DagState :=
  { σ with scheduler := { σ.scheduler with done := insert (name, inputHash) σ.scheduler.done } }

@[simp] theorem layers_setLayer (σ : DagState) (name : String) (s : LayerState) :
    (σ.setLayer name s).layers = Function.update σ.layers name s := rfl

@[simp] theorem layers_addDone (σ : DagState) (name inputHash : String) :
    (σ.addDone name inputHash).layers = σ.layers := rfl

@[simp] theorem artifacts_addDone (σ : DagState) (name inputHash : String) :
    (σ.addDone name inputHash).artifacts = σ.artifacts := rfl

/-- A change that keeps the store of a layer keeps all artifacts. -/
theorem artifacts_setLayer {σ : DagState} {name : String} {s : LayerState}
    (h : s.store = (σ.layers name).store) : (σ.setLayer name s).artifacts = σ.artifacts := by
  funext other key
  unfold artifacts
  rw [layers_setLayer]
  by_cases hsame : other = name
  · rw [hsame, Function.update_self, h]
  · rw [Function.update_of_ne hsame]

end DagState

/-- Note what was served for an entity. -/
def bind (s : LayerState) (id inputHash storeKey : String) : LayerState :=
  { s with bindings := s.bindings.insert id inputHash, lastGood := s.lastGood.insert id storeKey
           failed := s.failed.erase id }

/-- Note a failed production. -/
def markFailed (s : LayerState) (id : String) : LayerState :=
  { s with failed := insert id s.failed }

theorem artifacts_markFailed (σ : DagState) (name id : String) :
    (σ.setLayer name (markFailed (σ.layers name) id)).artifacts = σ.artifacts :=
  DagState.artifacts_setLayer rfl

/-- Store an artifact; an artifact of a key is never replaced. -/
def put (s : LayerState) (key : String) (artifact : Bytes) : Option LayerState :=
  match s.store.lookup key with
  | some existing => if existing ≠ artifact then none else some s
  | none => some { s with store := s.store.insert key artifact }

/-- What can be stored is there afterwards, and only it is new. -/
theorem put_spec {s s' : LayerState} {key : String} {artifact : Bytes}
    (h : put s key artifact = some s') :
    s'.store.lookup key = some artifact ∧ s'.bindings = s.bindings ∧ s'.readSets = s.readSets ∧
      s'.failed = s.failed ∧ s'.lastGood = s.lastGood ∧
      (∀ other found, s.store.lookup other = some found → s'.store.lookup other = some found) ∧
      ∀ other, other ≠ key → s'.store.lookup other = s.store.lookup other := by
  unfold put at h
  cases hkey : s.store.lookup key with
  | some existing =>
    rw [hkey] at h
    dsimp only at h
    split_ifs at h with hother
    have hsame : existing = artifact := not_not.mp hother
    obtain rfl := Option.some.inj h
    rw [hkey, hsame]
    exact ⟨rfl, rfl, rfl, rfl, rfl, fun _ _ h => h, fun _ _ => rfl⟩
  | none =>
    rw [hkey] at h
    obtain rfl := Option.some.inj h
    refine ⟨Finmap.lookup_insert _, rfl, rfl, rfl, rfl, fun other found hfound => ?_,
      fun other hother => ?_⟩
    · have hne : other ≠ key := by
        intro heq
        rw [heq, hkey] at hfound
        cases hfound
      rw [Finmap.lookup_insert_of_ne _ hne]
      exact hfound
    · exact Finmap.lookup_insert_of_ne _ hother

/-- What is not stored has another artifact in its place. -/
theorem put_eq_none_iff {s : LayerState} {key : String} {artifact : Bytes} :
    put s key artifact = none ↔ ∃ existing, s.store.lookup key = some existing ∧
      existing ≠ artifact := by
  unfold put
  cases hkey : s.store.lookup key with
  | some existing => simp
  | none => simp

/-! ## Reads -/

/-- What a read returns or raises. -/
inductive Reply where
  | value (artifact : Option Bytes) (status : Status)
  /-- The cache holds another artifact under the key. -/
  | conflict (key : String)
  | raised (error : ResolveError)
  deriving DecidableEq, Repr

/-- The reply of a traced layer. -/
def Reply.ofTraced : TracedLayers.Reply → Reply
  | .value artifact status => .value artifact status
  | .conflict key => .conflict key

/-- Whether a reply is a fresh value. -/
def Reply.isFresh : Reply → Bool
  | .value _ .fresh => true
  | .value _ _ | .conflict _ | .raised _ => false

/-- Errors that a missing key or attribute raises. -/
def caught : ResolveError → Bool
  | .noDependency | .recursion => false
  | .absentEntity _ | .noContentHash _ _ | .unknownLayer _ | .absentNode _ | .noUpstreamHash _ _
  | .noUpstreamArtifact _ _ => true

/-- What the keys of a traced layer see of a snapshot. -/
def viewOf (snap : Snapshot) : View := ⟨snap.graph, fun _ => []⟩

section Reading

variable (keys : Keying) (producers : Producers) (dag : DerivationDAG) (σ : DagState)
  (snap : Snapshot)

/-- The input of a layer for an entity, with its key. -/
def resolve (layer : DerivedLayer) (id : String) : Except ResolveError (GenInput × String) :=
  resolveInput keys.hashBytes keys.iter keys.decode dag σ.artifacts snap layer id

/-- Read the value of an entity under a traced layer. -/
def derivedTraced (layer : DerivedLayer) (s : LayerState) (id : String) (onMiss : OnMiss) :
    LayerState × TracedLayers.Reply :=
  if (snap.graph.symbol id).isNone then (s, .value none .absent)
  else match selfHealCheck keys.hashBytes layer s (viewOf snap) id with
    | some artifact => (s, .value (some artifact) .fresh)
    | none =>
      match onMiss with
      | .serveStale => (s, tracedServeLastGood s id)
      | .produce =>
        match producers.produceCode layer snap id with
        | (.artifact artifact, readSet) =>
          putAndBind keys.hashBytes layer s (viewOf snap) id artifact readSet
        | (.nothing, _) => (s, tracedServeLastGood s id)
        | (.raised, _) => (markFailed s id, tracedServeLastGood (markFailed s id) id)

/-- Make the artifact of an entity now. The attempt to replace an artifact
counts as a failed production. -/
def recomputeNow (layer : DerivedLayer) (id : String) :
    Except ResolveError (Option Bytes × DagState) := do
  let (input, inputHash) ← resolve keys dag σ snap layer id
  let s := σ.layers layer.name
  match producers.produceArtifact layer snap id input with
  | .artifact artifact =>
    match put s (layer.storeKey inputHash) artifact with
    | some stored =>
      return (some artifact, (σ.setLayer layer.name
        (bind stored id inputHash (layer.storeKey inputHash))).addDone layer.name inputHash)
    | none => return (none, σ.setLayer layer.name (markFailed s id))
  | .nothing => return (none, σ)
  | .raised => return (none, σ.setLayer layer.name (markFailed s id))

/-- Read the value of an entity under a layer, and whether work is handed to
the worker. -/
def derivedOf (layer : DerivedLayer) (id : String) : Reply × DagState × Bool :=
  if layer.isTraced then
    let onMiss := if layer.serving = "stale" then OnMiss.serveStale else .produce
    let (s, reply) := derivedTraced keys producers snap layer (σ.layers layer.name) id onMiss
    (.ofTraced reply, σ.setLayer layer.name s,
      layer.serving = "stale" && !(Reply.ofTraced reply).isFresh)
  else match resolve keys dag σ snap layer id with
    | .error e => (if caught e then .value none .absent else .raised e, σ, false)
    | .ok (_, inputHash) =>
      match (σ.layers layer.name).store.lookup (layer.storeKey inputHash) with
      | some artifact => (.value (some artifact) .fresh, σ, false)
      | none =>
        if layer.serving = "stale" then
          (.ofTraced (tracedServeLastGood (σ.layers layer.name) id), σ, true)
        else match recomputeNow keys producers dag σ snap layer id with
          | .error e => (.raised e, σ, false)
          | .ok (some artifact, σ') => (.value (some artifact) .fresh, σ', false)
          | .ok (none, σ') => (.ofTraced (tracedServeLastGood (σ'.layers layer.name) id), σ', false)

/-- Read the value of an entity at a snapshot. -/
def derived (name id : String) : Reply × DagState × Bool :=
  if dag.layers.isEmpty then (.value none .absent, σ, false)
  else match dag.layer name with
    | .error e => (.raised e, σ, false)
    | .ok layer => derivedOf keys producers dag σ snap layer id

end Reading

/-! ## What reads keep -/

/-- The last good artifact is never served as fresh. -/
theorem not_isFresh_lastGood (s : LayerState) (id : String) :
    (Reply.ofTraced (tracedServeLastGood s id)).isFresh = false := by
  unfold tracedServeLastGood
  cases (s.lastGood.lookup id).bind s.store.lookup with
  | none => by_cases hfailed : id ∈ s.failed <;> simp [hfailed, Reply.ofTraced, Reply.isFresh]
  | some artifact => by_cases hfailed : id ∈ s.failed <;> simp [hfailed, Reply.ofTraced, Reply.isFresh]

section Recomputing

variable {keys : Keying} {producers : Producers} {dag : DerivationDAG} {σ σ' : DagState}
  {snap : Snapshot} {layer : DerivedLayer} {id : String}

/-- An artifact is made and bound, or nothing is stored. -/
theorem recomputeNow_cases {made : Option Bytes}
    (h : recomputeNow keys producers dag σ snap layer id = .ok (made, σ')) :
    ∃ input hash, resolve keys dag σ snap layer id = .ok (input, hash) ∧
      ((∃ artifact stored, producers.produceArtifact layer snap id input = .artifact artifact ∧
          put (σ.layers layer.name) (layer.storeKey hash) artifact = some stored ∧
          made = some artifact ∧ σ' = (σ.setLayer layer.name
            (bind stored id hash (layer.storeKey hash))).addDone layer.name hash) ∨
        made = none ∧
        ((∃ artifact, producers.produceArtifact layer snap id input = .artifact artifact ∧
            put (σ.layers layer.name) (layer.storeKey hash) artifact = none ∧
            σ' = σ.setLayer layer.name (markFailed (σ.layers layer.name) id)) ∨
          producers.produceArtifact layer snap id input = .nothing ∧ σ' = σ ∨
          producers.produceArtifact layer snap id input = .raised ∧
            σ' = σ.setLayer layer.name (markFailed (σ.layers layer.name) id))) := by
  unfold recomputeNow at h
  cases hresolve : resolve keys dag σ snap layer id with
  | error e =>
    rw [hresolve] at h
    cases h
  | ok found =>
    obtain ⟨input, hash⟩ := found
    refine ⟨input, hash, rfl, ?_⟩
    simp only [hresolve, Bind.bind, Except.bind] at h
    cases hmade : producers.produceArtifact layer snap id input with
    | artifact artifact =>
      rw [hmade] at h
      dsimp only at h
      cases hput : put (σ.layers layer.name) (layer.storeKey hash) artifact with
      | some stored =>
        rw [hput] at h
        obtain ⟨rfl, rfl⟩ := Prod.mk.inj (Except.ok.inj h)
        exact .inl ⟨artifact, stored, rfl, hput, rfl, rfl⟩
      | none =>
        rw [hput] at h
        obtain ⟨rfl, rfl⟩ := Prod.mk.inj (Except.ok.inj h)
        exact .inr ⟨rfl, .inl ⟨artifact, rfl, hput, rfl⟩⟩
    | nothing =>
      rw [hmade] at h
      obtain ⟨rfl, rfl⟩ := Prod.mk.inj (Except.ok.inj h)
      exact .inr ⟨rfl, .inr (.inl ⟨rfl, rfl⟩)⟩
    | raised =>
      rw [hmade] at h
      obtain ⟨rfl, rfl⟩ := Prod.mk.inj (Except.ok.inj h)
      exact .inr ⟨rfl, .inr (.inr ⟨rfl, rfl⟩)⟩

/-- A run of the producer is only refused when the input is not resolved. -/
theorem recomputeNow_of_resolve {input : GenInput} {hash : String}
    (h : resolve keys dag σ snap layer id = .ok (input, hash)) :
    ∃ made σ', recomputeNow keys producers dag σ snap layer id = .ok (made, σ') := by
  unfold recomputeNow
  simp only [h, Bind.bind, Except.bind]
  cases producers.produceArtifact layer snap id input with
  | artifact artifact =>
    dsimp only
    cases put (σ.layers layer.name) (layer.storeKey hash) artifact with
    | some stored => exact ⟨_, _, rfl⟩
    | none => exact ⟨_, _, rfl⟩
  | nothing => exact ⟨_, _, rfl⟩
  | raised => exact ⟨_, _, rfl⟩

/-- A recomputation only adds to the artifacts. -/
theorem artifacts_recomputeNow {made : Option Bytes}
    (h : recomputeNow keys producers dag σ snap layer id = .ok (made, σ')) :
    ∀ name key artifact, σ.artifacts name key = some artifact →
      σ'.artifacts name key = some artifact := by
  intro name key artifact hkey
  obtain ⟨input, hash, -, ⟨produced, stored, -, hput, -, heq⟩ | ⟨-, hkept⟩⟩ := recomputeNow_cases h
  · obtain ⟨-, -, -, -, -, hmore, -⟩ := put_spec hput
    rw [heq, DagState.artifacts_addDone]
    unfold DagState.artifacts at hkey ⊢
    rw [DagState.layers_setLayer]
    by_cases hsame : name = layer.name
    · rw [hsame] at hkey ⊢
      rw [Function.update_self]
      exact hmore key artifact hkey
    · rw [Function.update_of_ne hsame]
      exact hkey
  · have hsame : σ'.artifacts = σ.artifacts := by
      rcases hkept with ⟨_, -, -, heq⟩ | ⟨-, heq⟩ | ⟨-, heq⟩
      · rw [heq, artifacts_markFailed]
      · rw [heq]
      · rw [heq, artifacts_markFailed]
    rw [hsame]
    exact hkey

end Recomputing

section Growing

variable {hashBytes : Bytes → String} {dag : DerivationDAG} {caches caches' : Artifacts}
  (hmore : ∀ name key artifact, caches name key = some artifact → caches' name key = some artifact)
include hmore

/-- A hash that an upstream layer was asked under is the same with more
artifacts. -/
theorem resolveUpstreamHash_mono {snap : Snapshot} {id : String} (fuel : ℕ)
    (upstream : DerivedLayer) {hash : String}
    (h : resolveUpstreamHash hashBytes dag caches snap id fuel upstream = .ok (some hash)) :
    resolveUpstreamHash hashBytes dag caches' snap id fuel upstream = .ok (some hash) := by
  induction fuel generalizing upstream hash with
  | zero => cases h
  | succ fuel ih =>
    rw [resolveUpstreamHash_ok_iff] at h ⊢
    rcases h with hcode |
      ⟨hcode, name, others, upUp, upHash, artifact, hdeps, hfound, hup, hkey, hhash⟩
    · exact .inl hcode
    · exact .inr ⟨hcode, name, others, upUp, upHash, artifact, hdeps, hfound, ih upUp hup,
        hmore _ _ _ hkey, hhash⟩

/-- An input that was resolved is resolved to the same with more artifacts. -/
theorem resolveInput_mono {iter : HashOrder String} {decode : Bytes → String} {snap : Snapshot}
    {layer : DerivedLayer} {id : String} {input : GenInput} {hash : String}
    (h : resolveInput hashBytes iter decode dag caches snap layer id = .ok (input, hash)) :
    resolveInput hashBytes iter decode dag caches' snap layer id = .ok (input, hash) := by
  rw [resolveInput_ok_iff] at h ⊢
  rcases h with hcode |
    ⟨hcode, name, others, upstream, upHash, artifact, hdeps, hfound, hup, hkey, hinput⟩
  · exact .inl hcode
  · exact .inr ⟨hcode, name, others, upstream, upHash, artifact, hdeps, hfound,
      resolveUpstreamHash_mono hmore _ upstream hup, hmore _ _ _ hkey, hinput⟩

end Growing

/-! ## When a read is fresh -/

section Fresh

variable (keys : Keying) (producers : Producers) (dag : DerivationDAG) (σ : DagState)
  (snap : Snapshot) (layer : DerivedLayer) (id : String)

/-- A read of a traced layer is fresh when what was read last time did not
move, or when it waits for the producer and gets an artifact that can be
stored. -/
theorem derivedOf_traced_isFresh (htraced : layer.isTraced = true) :
    (derivedOf keys producers dag σ snap layer id).1.isFresh = true ↔
      (snap.graph.symbol id).isSome = true ∧
      ((selfHealCheck keys.hashBytes layer (σ.layers layer.name) (viewOf snap) id).isSome = true ∨
        layer.serving ≠ "stale" ∧ ∃ artifact readSet,
          producers.produceCode layer snap id = (.artifact artifact, readSet) ∧
          ∀ existing, (σ.layers layer.name).store.lookup (layer.storeKey (tracedFingerprint
            keys.hashBytes layer.hashProfile (viewOf snap) id readSet)) = some existing →
              existing = artifact) := by
  unfold derivedOf derivedTraced
  rw [if_pos htraced]
  dsimp only
  cases hnode : snap.graph.symbol id with
  | none => simp [Reply.ofTraced, Reply.isFresh]
  | some node =>
    cases hheal : selfHealCheck keys.hashBytes layer (σ.layers layer.name) (viewOf snap) id with
    | some artifact => simp [Reply.ofTraced, Reply.isFresh]
    | none =>
      by_cases hserving : layer.serving = "stale"
      · simp [hserving, not_isFresh_lastGood]
      · cases hmade : producers.produceCode layer snap id with
        | mk made readSet =>
          cases made with
          | nothing => simp [hserving, not_isFresh_lastGood]
          | raised => simp [hserving, not_isFresh_lastGood]
          | artifact artifact =>
            simp only [putAndBind]
            cases hkey : (σ.layers layer.name).store.lookup (layer.storeKey (tracedFingerprint
                keys.hashBytes layer.hashProfile (viewOf snap) id readSet)) with
            | none => simp [hserving, hkey, Reply.ofTraced, Reply.isFresh]
            | some existing =>
              by_cases hsame : existing = artifact
              · simp [hserving, hkey, hsame, Reply.ofTraced, Reply.isFresh]
              · simp [hserving, hkey, hsame, Reply.ofTraced, Reply.isFresh]

/-- A read of any other layer is fresh when its key is resolved and has an
artifact, or when it waits for the producer and gets one. -/
theorem derivedOf_isFresh (htraced : layer.isTraced = false) :
    (derivedOf keys producers dag σ snap layer id).1.isFresh = true ↔
      ∃ input hash, resolve keys dag σ snap layer id = .ok (input, hash) ∧
        (((σ.layers layer.name).store.lookup (layer.storeKey hash)).isSome = true ∨
          layer.serving ≠ "stale" ∧
            ∃ artifact, producers.produceArtifact layer snap id input = .artifact artifact) := by
  unfold derivedOf
  rw [if_neg (by rw [htraced]; simp)]
  cases hresolve : resolve keys dag σ snap layer id with
  | error e => by_cases hcaught : caught e = true <;> simp [hcaught, Reply.isFresh]
  | ok found =>
    obtain ⟨input, hash⟩ := found
    dsimp only
    cases hkey : (σ.layers layer.name).store.lookup (layer.storeKey hash) with
    | some artifact => simp [hkey, Reply.isFresh]
    | none =>
      by_cases hserving : layer.serving = "stale"
      · simp [hserving, hkey, not_isFresh_lastGood]
      · rw [if_neg hserving]
        obtain ⟨made, σ', hmade⟩ := @recomputeNow_of_resolve keys producers dag σ snap layer id
          input hash hresolve
        rw [hmade]
        obtain ⟨input', hash', hresolve', hcases⟩ := recomputeNow_cases hmade
        rw [hresolve] at hresolve'
        obtain ⟨rfl, rfl⟩ := Prod.mk.inj (Except.ok.inj hresolve')
        rcases hcases with ⟨artifact, stored, hproduced, -, rfl, -⟩ | ⟨rfl, hkept⟩
        · simp [hkey, hserving, hproduced, Reply.isFresh]
        · rcases hkept with ⟨artifact, hproduced, hput, -⟩ | ⟨hproduced, -⟩ | ⟨hproduced, -⟩
          · obtain ⟨existing, hexisting, -⟩ := put_eq_none_iff.mp hput
            rw [hkey] at hexisting
            cases hexisting
          · simp [hkey, hserving, hproduced, not_isFresh_lastGood]
          · simp [hkey, hserving, hproduced, not_isFresh_lastGood]

/-- No work is handed to the worker for a fresh value. -/
theorem not_enqueued_of_isFresh
    (h : (derivedOf keys producers dag σ snap layer id).1.isFresh = true) :
    (derivedOf keys producers dag σ snap layer id).2.2 = false := by
  by_cases htraced : layer.isTraced = true
  · unfold derivedOf at h ⊢
    rw [if_pos htraced] at h ⊢
    dsimp only at h ⊢
    rw [h]
    simp
  · unfold derivedOf at h ⊢
    rw [if_neg htraced] at h ⊢
    cases hresolve : resolve keys dag σ snap layer id with
    | error e => rfl
    | ok found =>
      obtain ⟨input, hash⟩ := found
      rw [hresolve] at h
      dsimp only at h ⊢
      cases hkey : (σ.layers layer.name).store.lookup (layer.storeKey hash) with
      | some artifact => rfl
      | none =>
        rw [hkey] at h
        dsimp only at h ⊢
        by_cases hserving : layer.serving = "stale"
        · rw [if_pos hserving, not_isFresh_lastGood] at h
          cases h
        · rw [if_neg hserving]
          cases recomputeNow keys producers dag σ snap layer id with
          | error e => rfl
          | ok made =>
            obtain ⟨made, σ'⟩ := made
            cases made with
            | none => rfl
            | some artifact => rfl

end Fresh

/-! ## What a fresh read leaves -/

section After

variable {keys : Keying} {producers : Producers} {dag : DerivationDAG} {σ : DagState}
  {snap : Snapshot} {layer : DerivedLayer} {id : String}

/-- A traced read only adds to the artifacts. -/
theorem store_derivedTraced (s : LayerState) (onMiss : OnMiss) {key : String} {found : Bytes}
    (h : s.store.lookup key = some found) :
    (derivedTraced keys producers snap layer s id onMiss).1.store.lookup key = some found := by
  unfold derivedTraced
  split_ifs
  · exact h
  · cases selfHealCheck keys.hashBytes layer s (viewOf snap) id with
    | some artifact => exact h
    | none =>
      cases onMiss with
      | serveStale => exact h
      | produce =>
        cases producers.produceCode layer snap id with
        | mk made readSet =>
          cases made with
          | nothing => exact h
          | raised => exact h
          | artifact artifact =>
            simp only [putAndBind]
            cases hkey : s.store.lookup (layer.storeKey (tracedFingerprint keys.hashBytes
                layer.hashProfile (viewOf snap) id readSet)) with
            | some existing =>
              dsimp only
              split_ifs
              · exact h
              · exact h
            | none =>
              dsimp only [LayerState.bindTraced]
              rw [lookup_insert_ite, if_neg]
              · exact h
              · intro hsame
                rw [hsame, hkey] at h
                cases h

/-- A read only adds to the artifacts. -/
theorem artifacts_derivedOf {name key : String} {found : Bytes}
    (h : σ.artifacts name key = some found) :
    (derivedOf keys producers dag σ snap layer id).2.1.artifacts name key = some found := by
  unfold derivedOf
  by_cases htraced : layer.isTraced = true
  · rw [if_pos htraced]
    dsimp only
    unfold DagState.artifacts at h ⊢
    rw [DagState.layers_setLayer]
    by_cases hsame : name = layer.name
    · rw [hsame] at h ⊢
      rw [Function.update_self]
      exact store_derivedTraced _ _ h
    · rw [Function.update_of_ne hsame]
      exact h
  · rw [if_neg htraced]
    cases resolve keys dag σ snap layer id with
    | error e => exact h
    | ok input =>
      dsimp only
      cases (σ.layers layer.name).store.lookup (layer.storeKey input.2) with
      | some artifact => exact h
      | none =>
        dsimp only
        split_ifs
        · exact h
        · cases hmade : recomputeNow keys producers dag σ snap layer id with
          | error e => exact h
          | ok made =>
            obtain ⟨made, σ'⟩ := made
            have hkept := artifacts_recomputeNow hmade name key found h
            cases made with
            | none => exact hkept
            | some artifact => exact hkept

/-- The artifact of a fresh read of a layer that is not traced is stored under
its key. -/
theorem stored_of_fresh (htraced : layer.isTraced = false) {artifact : Bytes}
    (h : (derivedOf keys producers dag σ snap layer id).1 = .value (some artifact) .fresh) :
    ∃ input hash, resolve keys dag σ snap layer id = .ok (input, hash) ∧
      (derivedOf keys producers dag σ snap layer id).2.1.artifacts layer.name
        (layer.storeKey hash) = some artifact := by
  have hfresh : (derivedOf keys producers dag σ snap layer id).1.isFresh = true := by
    rw [h]
    rfl
  obtain ⟨input, hash, hresolve, -⟩ := (derivedOf_isFresh _ _ _ _ _ _ _ htraced).mp hfresh
  refine ⟨input, hash, hresolve, ?_⟩
  unfold derivedOf at h ⊢
  rw [if_neg (by rw [htraced]; simp), hresolve] at h ⊢
  dsimp only at h ⊢
  cases hkey : (σ.layers layer.name).store.lookup (layer.storeKey hash) with
  | some existing =>
    rw [hkey] at h
    have hsame : existing = artifact := Option.some.inj (Reply.value.inj h).1
    rw [← hsame]
    exact hkey
  | none =>
    rw [hkey] at h
    dsimp only at h ⊢
    by_cases hserving : layer.serving = "stale"
    · rw [if_pos hserving] at h
      dsimp only at h
      have hnot := not_isFresh_lastGood (σ.layers layer.name) id
      rw [h] at hnot
      cases hnot
    · rw [if_neg hserving] at h ⊢
      obtain ⟨made, σ', hmade⟩ := @recomputeNow_of_resolve keys producers dag σ snap layer id
        input hash hresolve
      rw [hmade] at h ⊢
      obtain ⟨input', hash', hresolve', hcases⟩ := recomputeNow_cases hmade
      rw [hresolve] at hresolve'
      obtain ⟨rfl, rfl⟩ := Prod.mk.inj (Except.ok.inj hresolve')
      rcases hcases with ⟨produced, stored, -, hput, rfl, heq⟩ | ⟨rfl, -⟩
      · have hsame : produced = artifact := Option.some.inj (Reply.value.inj h).1
        dsimp only
        rw [heq, DagState.artifacts_addDone]
        unfold DagState.artifacts
        rw [DagState.layers_setLayer, Function.update_self, ← hsame]
        exact (put_spec hput).1
      · have hnot := not_isFresh_lastGood (σ'.layers layer.name) id
        dsimp only at h
        rw [h] at hnot
        cases hnot

end After

end Tyo3.DerivedReads
