import Tyo3.DerivedLayers
import Tyo3.QueryPrograms
import Tyo3.Runs

/-!
# Traced layers

The producer of a traced layer reads a snapshot through a recording context.
The ids it read and their content hashes are the cache key of its artifact.
A later read takes the ids recorded last time, hashes them again at its own
snapshot and serves the cached artifact when the key is the same; else it runs
the producer again, or serves the last artifact as stale. The cache is shared
by all entities of the layer and never changes the artifact of a key. The
digest of bytes is an argument.
-/

namespace Tyo3.TracedLayers

open FiniteMaps JsonValues DerivedLayers QueryPrograms Runs

/-! ## What a producer reads -/

/-- A snapshot as a recording context reads it. -/
structure View where
  /-- The graph at the revision. -/
  graph : PinnedGraph
  /-- The places that refer to an entity. -/
  references : String → List String

/-- A read through the recording context. -/
inductive Query where
  /-- The entity itself. -/
  | entity
  /-- A symbol by id. -/
  | symbol (id : String)
  /-- What uses an id, the entity itself when none is given. -/
  | dependents (target : Option String)
  /-- What an id uses, the entity itself when none is given. -/
  | dependencies (target : Option String)
  /-- The places that refer to the entity. -/
  | findReferences
  deriving DecidableEq, Repr

/-- What a read gives back. A symbol is its content hash, if it has one. -/
inductive Answer where
  | symbol (found : Option (Option String))
  | ids (ids : List String)
  | places (places : List String)
  deriving DecidableEq, Repr

/-- The id a query is about. -/
def targetOf (id : String) (target : Option String) : String := orElse target id

/-- The node of an id, as far as a producer sees it. -/
def lookupSymbol (view : View) (profile id : String) : Answer :=
  .symbol ((view.graph.symbol id).map fun node => node.contentHashes.lookup profile)

/-- The answer to a query for an entity. -/
def answer (profile : String) (view : View) (id : String) : Query → Answer
  | .entity => lookupSymbol view profile id
  | .symbol other => lookupSymbol view profile other
  | .dependents target =>
    .ids (HashOrder.increasing.order (view.graph.dependents (targetOf id target)))
  | .dependencies target =>
    .ids (HashOrder.increasing.order (view.graph.dependencies (targetOf id target)))
  | .findReferences =>
    .places (if (view.graph.symbol id).isNone then [] else view.references id)

/-- The ids a query records as read. -/
def recorded (view : View) (id : String) : Query → Finset String
  | .entity => ∅
  | .symbol other => {other}
  | .dependents target => view.graph.dependents (targetOf id target)
  | .dependencies target => view.graph.dependencies (targetOf id target)
  | .findReferences => view.graph.dependents id

/-- What a producer ends with. -/
inductive Produced where
  | artifact (bytes : Bytes)
  | nothing
  | raised
  deriving DecidableEq, Repr

/-- The producer of a layer: one deterministic program for each entity. -/
abbrev Producer := String → Program Query Answer Produced

/-- Run the producer for an entity; the read-set starts with the entity. -/
def produceCode (producer : Producer) (profile : String) (view : View) (id : String) :
    Produced × Finset String :=
  ((producer id).result (answer profile view id),
    ((producer id).asked (answer profile view id)).foldl
      (fun ids query => ids ∪ recorded view id query) {id})

/-! ## Keys -/

/-- What a key is made of: the own hash of an entity that read nothing else,
or the text of all ids read with their hashes. -/
inductive KeyInput where
  | own (hash : String)
  | pairs (text : String)
  deriving DecidableEq, Repr

/-- What the key of a read-set is made of. -/
def keyInput (profile : String) (view : View) (id : String) (readSet : Finset String) : KeyInput :=
  if readSet = {id} then .own (view.graph.hashOf profile id)
  else .pairs (pairsText view.graph profile readSet)

/-- The key itself. -/
def KeyInput.key (hashBytes : Bytes → String) : KeyInput → String
  | .own hash => hash
  | .pairs text => hashBytes (utf8 text)

/-- Fingerprint a read-set. -/
def tracedFingerprint (hashBytes : Bytes → String) (profile : String) (view : View) (id : String)
    (readSet : Finset String) : String :=
  (keyInput profile view id readSet).key hashBytes

/-! ## The layer -/

/-- The state of a traced layer. -/
structure LayerState where
  /-- Key last served, by entity. -/
  bindings : FMap String String
  /-- Ids that key was made of, by entity. -/
  readSets : FMap String (Finset String)
  /-- Store key of the last good artifact, by entity. -/
  lastGood : FMap String String
  /-- Entities whose last production failed. -/
  failed : Finset String
  /-- Artifacts by store key. -/
  store : FMap String Bytes

/-- One artifact a producer made. -/
structure Production where
  /-- The entity it is for. -/
  id : String
  /-- The snapshot it was made from. -/
  view : View
  /-- The artifact. -/
  artifact : Bytes
  /-- What was read for it. -/
  readSet : Finset String

/-- How a served value relates to its snapshot. -/
inductive Status where
  | fresh | stale | failed | absent
  deriving DecidableEq, Repr

/-- What a read returns or raises. -/
inductive Reply where
  | value (artifact : Option Bytes) (status : Status)
  /-- The cache holds another artifact under the key. -/
  | conflict (key : String)
  deriving DecidableEq, Repr

/-- What a read does when the cached artifact is out of date. -/
inductive OnMiss where
  | produce | serveStale
  deriving DecidableEq, Repr

/-- Forget a deleted entity. -/
def LayerState.drop (s : LayerState) (id : String) : LayerState :=
  { s with bindings := s.bindings.erase id, readSets := s.readSets.erase id
           lastGood := s.lastGood.erase id, failed := s.failed.erase id }

/-- Note what was served for an entity. -/
def LayerState.bindTraced (s : LayerState) (id inputHash : String) (readSet : Finset String)
    (storeKey : String) : LayerState :=
  { s with bindings := s.bindings.insert id inputHash, readSets := s.readSets.insert id readSet
           lastGood := s.lastGood.insert id storeKey, failed := s.failed.erase id }

/-- Serve the last good artifact of an entity. -/
def tracedServeLastGood (s : LayerState) (id : String) : Reply :=
  match (s.lastGood.lookup id).bind s.store.lookup with
  | some artifact => .value (some artifact) (if id ∈ s.failed then .failed else .stale)
  | none => .value none (if id ∈ s.failed then .failed else .absent)

section Reading

variable (hashBytes : Bytes → String) (layer : DerivedLayer) (producer : Producer)

/-- The cached artifact of an entity, if the ids read last time have the same
hashes now. -/
def selfHealCheck (s : LayerState) (view : View) (id : String) : Option Bytes :=
  match s.bindings.lookup id, s.readSets.lookup id with
  | some priorHash, some priorSet =>
    if tracedFingerprint hashBytes layer.hashProfile view id priorSet = priorHash then
      s.store.lookup (layer.storeKey priorHash)
    else none
  | _, _ => none

/-- Store an artifact and bind it; an artifact of a key is never replaced. -/
def putAndBind (s : LayerState) (view : View) (id : String) (artifact : Bytes)
    (readSet : Finset String) : LayerState × Reply :=
  let inputHash := tracedFingerprint hashBytes layer.hashProfile view id readSet
  let key := layer.storeKey inputHash
  match s.store.lookup key with
  | some existing =>
    if existing ≠ artifact then (s, .conflict key)
    else (s.bindTraced id inputHash readSet key, .value (some artifact) .fresh)
  | none =>
    let stored := { s with store := s.store.insert key artifact }
    (stored.bindTraced id inputHash readSet key, .value (some artifact) .fresh)

/-- Read the value of an entity at a snapshot. -/
def derivedTraced (s : LayerState) (view : View) (id : String) (onMiss : OnMiss) :
    LayerState × Reply :=
  if (view.graph.symbol id).isNone then (s, .value none .absent)
  else match selfHealCheck hashBytes layer s view id with
    | some artifact => (s, .value (some artifact) .fresh)
    | none =>
      match onMiss with
      | .serveStale => (s, tracedServeLastGood s id)
      | .produce =>
        match produceCode producer layer.hashProfile view id with
        | (.artifact artifact, readSet) => putAndBind hashBytes layer s view id artifact readSet
        | (.nothing, _) => (s, tracedServeLastGood s id)
        | (.raised, _) =>
          let marked := { s with failed := insert id s.failed }
          (marked, tracedServeLastGood marked id)

/-- The artifact a read asks the producer for, if it asks and gets one. -/
def producing (s : LayerState) (view : View) (id : String) (onMiss : OnMiss) : Option Production :=
  if (view.graph.symbol id).isNone ∨ (selfHealCheck hashBytes layer s view id).isSome ∨
      onMiss = .serveStale then none
  else match produceCode producer layer.hashProfile view id with
    | (.artifact artifact, readSet) => some ⟨id, view, artifact, readSet⟩
    | _ => none

/-- What a read can do to the layer: the artifact it produced, the state after
it and its reply. -/
inductive ReadEffect (s : LayerState) (view : View) (id : String) :
    Option Production → LayerState → Reply → Prop where
  /-- The entity is not part of the snapshot. -/
  | absent (hnone : view.graph.symbol id = none) :
      ReadEffect s view id none s (.value none .absent)
  /-- The cached artifact is served. -/
  | healed (artifact : Bytes)
      (hcheck : selfHealCheck hashBytes layer s view id = some artifact) :
      ReadEffect s view id none s (.value (some artifact) .fresh)
  /-- The last good artifact is served. -/
  | lastGood (failed : Finset String) :
      ReadEffect s view id none { s with failed := failed }
        (tracedServeLastGood { s with failed := failed } id)
  /-- The producer's artifact is stored, unless it is there, and served. -/
  | bound (artifact : Bytes) (readSet : Finset String) (store : FMap String Bytes)
      (hproduced : produceCode producer layer.hashProfile view id = (.artifact artifact, readSet))
      (hkept : ∀ key a, s.store.lookup key = some a → store.lookup key = some a)
      (hstored : ∀ key a, store.lookup key = some a → s.store.lookup key = some a ∨
        key = layer.storeKey (tracedFingerprint hashBytes layer.hashProfile view id readSet) ∧
        a = artifact)
      (hself : store.lookup (layer.storeKey
        (tracedFingerprint hashBytes layer.hashProfile view id readSet)) = some artifact) :
      ReadEffect s view id (some ⟨id, view, artifact, readSet⟩)
        ({ s with store := store }.bindTraced id
          (tracedFingerprint hashBytes layer.hashProfile view id readSet) readSet
          (layer.storeKey (tracedFingerprint hashBytes layer.hashProfile view id readSet)))
        (.value (some artifact) .fresh)
  /-- The key is taken by another artifact. -/
  | conflict (artifact : Bytes) (readSet : Finset String) (existing : Bytes)
      (hproduced : produceCode producer layer.hashProfile view id = (.artifact artifact, readSet))
      (htaken : s.store.lookup (layer.storeKey
        (tracedFingerprint hashBytes layer.hashProfile view id readSet)) = some existing)
      (hother : existing ≠ artifact) :
      ReadEffect s view id (some ⟨id, view, artifact, readSet⟩) s (.conflict (layer.storeKey
        (tracedFingerprint hashBytes layer.hashProfile view id readSet)))

/-- A read does one of these things. -/
theorem derivedTraced_effect (s : LayerState) (view : View) (id : String) (onMiss : OnMiss) :
    ReadEffect hashBytes layer producer s view id
      (producing hashBytes layer producer s view id onMiss)
      (derivedTraced hashBytes layer producer s view id onMiss).1
      (derivedTraced hashBytes layer producer s view id onMiss).2 := by
  unfold derivedTraced producing
  by_cases hnone : (view.graph.symbol id).isNone = true
  · rw [if_pos hnone, if_pos (Or.inl hnone)]
    exact .absent (Option.isNone_iff_eq_none.mp hnone)
  · rw [if_neg hnone]
    cases hcheck : selfHealCheck hashBytes layer s view id with
    | some artifact =>
      have hheld : (some artifact).isSome = true := rfl
      rw [if_pos (Or.inr (Or.inl hheld))]
      exact .healed artifact hcheck
    | none =>
      cases onMiss with
      | serveStale =>
        rw [if_pos (Or.inr (Or.inr rfl))]
        exact .lastGood s.failed
      | produce =>
        rw [if_neg (by simpa using hnone)]
        cases hproduced : produceCode producer layer.hashProfile view id with
        | mk produced readSet =>
          cases produced with
          | nothing => exact .lastGood s.failed
          | raised => exact .lastGood (insert id s.failed)
          | artifact artifact =>
            simp only [putAndBind]
            cases htaken : s.store.lookup (layer.storeKey
                (tracedFingerprint hashBytes layer.hashProfile view id readSet)) with
            | some existing =>
              by_cases hother : existing ≠ artifact
              · simp only [if_pos hother]
                exact .conflict artifact readSet existing hproduced htaken hother
              · have hsame : existing = artifact := not_not.mp hother
                subst hsame
                simp only [if_neg hother]
                exact .bound existing readSet s.store hproduced (fun _ _ h => h)
                  (fun _ _ h => Or.inl h) htaken
            | none =>
              apply ReadEffect.bound artifact readSet _ hproduced
              · intro key a hkey
                rw [lookup_insert_ite, if_neg, hkey]
                intro hsame
                rw [hsame, htaken] at hkey
                exact absurd hkey (by simp)
              · intro key a hkey
                rw [lookup_insert_ite] at hkey
                split_ifs at hkey with hsame
                · exact Or.inr ⟨hsame, (Option.some.inj hkey).symm⟩
                · exact Or.inl hkey
              · exact Finmap.lookup_insert _

end Reading

/-! ## Sessions -/

/-- A session with one traced layer. The productions are kept for comparison
only. -/
structure Session where
  /-- The layer. -/
  layer : LayerState
  /-- The committed snapshots, by revision. -/
  history : List View
  /-- The production behind each binding. -/
  origins : FMap String Production
  /-- All productions. -/
  log : List Production

/-- A step of a session. -/
inductive Step where
  /-- A commit with the ids it deletes. -/
  | commit (view : View) (deleted : Finset String)
  /-- A read at a committed revision. -/
  | read (revision : ℕ) (id : String) (onMiss : OnMiss)
  /-- The session ends and the next one opens the same store. -/
  | reopen

/-- An empty layer over an empty store. -/
def start : Session where
  layer := ⟨∅, ∅, ∅, ∅, ∅⟩
  history := []
  origins := ∅
  log := []

/-- The session after a read: an artifact that was bound is behind its
binding from now on. -/
def Session.afterRead (s : Session) (id : String) (made : Option Production) (after : LayerState)
    (reply : Reply) : Session :=
  match made, reply with
  | some made, .value _ _ =>
    { s with layer := after, origins := s.origins.insert id made, log := s.log ++ [made] }
  | some made, .conflict _ => { s with layer := after, log := s.log ++ [made] }
  | none, _ => { s with layer := after }

section Stepping

variable (hashBytes : Bytes → String) (layer : DerivedLayer) (producer : Producer)

/-- Take one step. -/
def takeStep (s : Session) : Step → Session
  | .commit view deleted =>
    let ids := HashOrder.increasing.order deleted
    { s with layer := ids.foldl LayerState.drop s.layer
             history := s.history ++ [view]
             origins := ids.foldl (fun m id => m.erase id) s.origins }
  | .read revision id onMiss =>
    match s.history[revision]? with
    | none => s
    | some view =>
      let read := derivedTraced hashBytes layer producer s.layer view id onMiss
      s.afterRead id (producing hashBytes layer producer s.layer view id onMiss) read.1 read.2
  | .reopen => { s with layer := ⟨∅, ∅, ∅, ∅, s.layer.store⟩, origins := ∅ }

/-- The key of a production. -/
def Production.key (made : Production) : String :=
  tracedFingerprint hashBytes layer.hashProfile made.view made.id made.readSet

/-- A production is what the producer yields. -/
def Genuine (made : Production) : Prop :=
  produceCode producer layer.hashProfile made.view made.id = (.artifact made.artifact, made.readSet)

/-- The layer against the productions: a binding stands for one of its entity,
and the store holds nothing else. -/
structure Sound (s : Session) : Prop where
  /-- A binding is the key of a stored production of its entity. -/
  bound : ∀ id hash, s.layer.bindings.lookup id = some hash →
    ∃ made, s.origins.lookup id = some made ∧ made.id = id ∧ made ∈ s.log ∧
      s.layer.readSets.lookup id = some made.readSet ∧ hash = made.key hashBytes layer ∧
      s.layer.store.lookup (layer.storeKey hash) = some made.artifact
  /-- The productions are what the producer yields. -/
  genuine : ∀ made ∈ s.log, Genuine layer producer made
  /-- The last good artifact of an entity was made for it. -/
  good : ∀ id key, s.layer.lastGood.lookup id = some key →
    ∃ made ∈ s.log, made.id = id ∧ s.layer.store.lookup key = some made.artifact
  /-- What is stored was made, under its key. -/
  stored : ∀ key artifact, s.layer.store.lookup key = some artifact →
    ∃ made ∈ s.log, made.artifact = artifact ∧ key = layer.storeKey (made.key hashBytes layer)

variable {hashBytes layer producer}

/-- Dropping entities erases their entries and leaves the store alone. -/
theorem foldl_drop (ids : List String) (l : LayerState) :
    (ids.foldl LayerState.drop l).bindings = ids.foldl (fun m id => m.erase id) l.bindings ∧
      (ids.foldl LayerState.drop l).readSets = ids.foldl (fun m id => m.erase id) l.readSets ∧
      (ids.foldl LayerState.drop l).lastGood = ids.foldl (fun m id => m.erase id) l.lastGood ∧
      (ids.foldl LayerState.drop l).store = l.store := by
  induction ids generalizing l with
  | nil => exact ⟨rfl, rfl, rfl, rfl⟩
  | cons id ids ih => exact ih (l.drop id)

/-- A new session starts without bindings. -/
theorem sound_start : Sound hashBytes layer producer start := by
  refine ⟨fun id hash h => ?_, fun made h => ?_, fun id key h => ?_, fun key artifact h => ?_⟩
  all_goals exact absurd h (by simp [start, Finmap.lookup_empty])

/-- A commit keeps the layer sound. -/
theorem Sound.commit {s : Session} (h : Sound hashBytes layer producer s) (view : View)
    (deleted : Finset String) :
    Sound hashBytes layer producer (takeStep hashBytes layer producer s (.commit view deleted)) := by
  obtain ⟨hbindings, hreadSets, hlastGood, hstore⟩ :=
    foldl_drop (HashOrder.increasing.order deleted) s.layer
  constructor
  · intro id hash hbinding
    simp only [takeStep] at hbinding ⊢
    rw [hbindings, lookup_foldl_erase] at hbinding
    split_ifs at hbinding with hgone
    obtain ⟨made, horigin, hid, hlog, hread, hkey, hheld⟩ := h.bound id hash hbinding
    refine ⟨made, ?_, hid, hlog, ?_, hkey, ?_⟩
    · rw [lookup_foldl_erase, if_neg hgone, horigin]
    · rw [hreadSets, lookup_foldl_erase, if_neg hgone, hread]
    · rw [hstore, hheld]
  · exact h.genuine
  · intro id key hgood
    simp only [takeStep] at hgood ⊢
    rw [hlastGood, lookup_foldl_erase] at hgood
    split_ifs at hgood with hgone
    rw [hstore]
    exact h.good id key hgood
  · intro key artifact hheld
    simp only [takeStep] at hheld ⊢
    rw [hstore] at hheld
    exact h.stored key artifact hheld

/-- The productions after one more. -/
theorem genuine_append {log : List Production} (h : ∀ made ∈ log, Genuine layer producer made)
    {view : View} {id : String} {artifact : Bytes} {readSet : Finset String}
    (hproduced : produceCode producer layer.hashProfile view id = (.artifact artifact, readSet)) :
    ∀ made ∈ log ++ [⟨id, view, artifact, readSet⟩], Genuine layer producer made := by
  intro made hmade
  rcases List.mem_append.mp hmade with hold | hnew
  · exact h made hold
  · rw [List.mem_singleton.mp hnew]
    exact hproduced

/-- A read keeps the layer sound. -/
theorem Sound.afterRead {s : Session} (h : Sound hashBytes layer producer s) {view : View}
    {id : String} {made : Option Production} {after : LayerState} {reply : Reply}
    (heffect : ReadEffect hashBytes layer producer s.layer view id made after reply) :
    Sound hashBytes layer producer (s.afterRead id made after reply) := by
  cases heffect with
  | absent hnone => exact h
  | healed artifact hcheck => exact h
  | lastGood failed => exact ⟨h.bound, h.genuine, h.good, h.stored⟩
  | conflict artifact readSet existing hproduced htaken hother =>
    constructor
    · intro other hash hbinding
      obtain ⟨made, horigin, hid, hlog, hrest⟩ := h.bound other hash hbinding
      exact ⟨made, horigin, hid, List.mem_append_left _ hlog, hrest⟩
    · exact genuine_append h.genuine hproduced
    · intro other key hgood
      obtain ⟨made, hlog, hrest⟩ := h.good other key hgood
      exact ⟨made, List.mem_append_left _ hlog, hrest⟩
    · intro key other hheld
      obtain ⟨made, hlog, hrest⟩ := h.stored key other hheld
      exact ⟨made, List.mem_append_left _ hlog, hrest⟩
  | bound artifact readSet store hproduced hkept hstored hself =>
    have hnew : (⟨id, view, artifact, readSet⟩ : Production) ∈
        s.log ++ [⟨id, view, artifact, readSet⟩] := List.mem_append_right _ List.mem_cons_self
    constructor
    · intro other hash hbinding
      simp only [Session.afterRead, LayerState.bindTraced] at hbinding ⊢
      rw [lookup_insert_ite] at hbinding
      by_cases hother : other = id
      · subst hother
        rw [if_pos rfl] at hbinding
        have hhash := Option.some.inj hbinding
        refine ⟨_, Finmap.lookup_insert _, rfl, hnew, Finmap.lookup_insert _, hhash.symm, ?_⟩
        rw [← hhash]
        exact hself
      · rw [if_neg hother] at hbinding
        obtain ⟨made, horigin, hid, hlog, hread, hkey, hheld⟩ := h.bound other hash hbinding
        rw [lookup_insert_ite, if_neg hother, lookup_insert_ite, if_neg hother]
        exact ⟨made, horigin, hid, List.mem_append_left _ hlog, hread, hkey, hkept _ _ hheld⟩
    · exact genuine_append h.genuine hproduced
    · intro other key hgood
      simp only [Session.afterRead, LayerState.bindTraced] at hgood ⊢
      rw [lookup_insert_ite] at hgood
      by_cases hother : other = id
      · subst hother
        rw [if_pos rfl] at hgood
        refine ⟨_, hnew, rfl, ?_⟩
        rw [← Option.some.inj hgood]
        exact hself
      · rw [if_neg hother] at hgood
        obtain ⟨made, hlog, hid, hheld⟩ := h.good other key hgood
        exact ⟨made, List.mem_append_left _ hlog, hid, hkept _ _ hheld⟩
    · intro key other hheld
      simp only [Session.afterRead, LayerState.bindTraced] at hheld ⊢
      rcases hstored key other hheld with hold | ⟨hkey, hartifact⟩
      · obtain ⟨made, hlog, hrest⟩ := h.stored key other hold
        exact ⟨made, List.mem_append_left _ hlog, hrest⟩
      · exact ⟨_, hnew, hartifact.symm, hkey⟩

/-- Every step keeps the layer sound. -/
theorem Sound.takeStep {s : Session} (h : Sound hashBytes layer producer s) (step : Step) :
    Sound hashBytes layer producer (takeStep hashBytes layer producer s step) := by
  cases step with
  | commit view deleted => exact h.commit view deleted
  | reopen =>
    refine ⟨fun id hash hbinding => ?_, h.genuine, fun id key hgood => ?_, h.stored⟩
    · exact absurd hbinding (by simp [TracedLayers.takeStep, Finmap.lookup_empty])
    · exact absurd hgood (by simp [TracedLayers.takeStep, Finmap.lookup_empty])
  | read revision id onMiss =>
    simp only [TracedLayers.takeStep]
    cases s.history[revision]? with
    | none => exact h
    | some view =>
      exact h.afterRead (derivedTraced_effect hashBytes layer producer s.layer view id onMiss)

end Stepping

end Tyo3.TracedLayers
