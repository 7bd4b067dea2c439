import Tyo3.DerivedReads
import Tyo3.TracedReads

/-!
# Signals of fresh values

A read that is served a stale value hands its work to a worker. The worker
pins the revision of the read, runs the producer and then tells the
subscribers that the value is fresh. A producer that raises or returns nothing
is reported by the return values alone, and the signal is sent all the same.
So a signal is honest when the value was up to date before, when the producer
gave an artifact, or when the next read waits for the producer and gets one.
-/

namespace Tyo3.FreshSignals

open FiniteMaps JsonValues DerivedLayers DerivedReads

open TracedLayers (LayerState Produced OnMiss selfHealCheck putAndBind tracedFingerprint)

/-! ## The worker -/

/-- A value of a layer is fresh at a revision. -/
structure DerivedFresh where
  /-- The revision. -/
  revision : ℕ
  /-- Name of the layer. -/
  layer : String
  /-- The entity. -/
  durableId : String
  deriving DecidableEq, Repr

section Worker

variable (keys : Keying) (producers : Producers) (dag : DerivationDAG) (pin : ℕ → Option Snapshot)
  (subscribed : Bool) (σ : DagState)

/-- Tell the subscribers, if there are any. -/
def publishFresh (revision : ℕ) (name id : String) : Option DerivedFresh :=
  if subscribed then some ⟨revision, name, id⟩ else none

/-- Work on one value. What is raised ends the work without a signal. -/
def recomputeOne (name id : String) (revision : ℕ) : DagState × Option DerivedFresh :=
  match pin revision with
  | none => (σ, none)
  | some snap =>
    if dag.layers.isEmpty then (σ, none)
    else match dag.layer name with
      | .error _ => (σ, none)
      | .ok layer =>
        if layer.isTraced then
          match derivedTraced keys producers snap layer (σ.layers layer.name) id .produce with
          | (s, .conflict _) => (σ.setLayer layer.name s, none)
          | (s, .value _ _) => (σ.setLayer layer.name s, publishFresh subscribed revision name id)
        else match recomputeNow keys producers dag σ snap layer id with
          | .error _ => (σ, none)
          | .ok (_, σ') => (σ', publishFresh subscribed revision name id)

end Worker

/-! ## What the worker leaves -/

section Traced

variable {keys : Keying} {producers : Producers} {snap : Snapshot} {layer : DerivedLayer}
  {id : String}

/-- A bound artifact is found by the check of the next read. -/
theorem selfHealCheck_putAndBind {s s' : LayerState} {artifact : Bytes} {readSet : Finset String}
    {reply : Option Bytes} {status : TracedLayers.Status}
    (h : putAndBind keys.hashBytes layer s (viewOf snap) id artifact readSet =
      (s', .value reply status)) :
    selfHealCheck keys.hashBytes layer s' (viewOf snap) id = some artifact := by
  unfold putAndBind at h
  cases hkey : s.store.lookup (layer.storeKey (tracedFingerprint keys.hashBytes layer.hashProfile
      (viewOf snap) id readSet)) with
  | none =>
    simp only [hkey] at h
    obtain ⟨rfl, -⟩ := Prod.mk.inj h
    simp [selfHealCheck, LayerState.bindTraced, Finmap.lookup_insert]
  | some existing =>
    simp only [hkey] at h
    by_cases hother : existing ≠ artifact
    · rw [if_pos hother] at h
      cases (Prod.mk.inj h).2
    · rw [if_neg hother] at h
      obtain ⟨rfl, -⟩ := Prod.mk.inj h
      have hsame : existing = artifact := not_not.mp hother
      simp [selfHealCheck, LayerState.bindTraced, Finmap.lookup_insert, hkey, hsame]

/-- After a traced production that raised nothing, a read finds the artifact,
or the check of the read before and its store are as they were. -/
theorem derivedTraced_produce {s s' : LayerState} {reply : Option Bytes}
    {status : TracedLayers.Status} (hnode : (snap.graph.symbol id).isSome = true)
    (h : derivedTraced keys producers snap layer s id .produce = (s', .value reply status)) :
    ((selfHealCheck keys.hashBytes layer s (viewOf snap) id).isSome = true ∨
        ∃ artifact readSet, producers.produceCode layer snap id = (.artifact artifact, readSet)) ∧
      (selfHealCheck keys.hashBytes layer s' (viewOf snap) id).isSome = true ∨
    selfHealCheck keys.hashBytes layer s (viewOf snap) id = none ∧
      (∀ artifact readSet, producers.produceCode layer snap id ≠ (.artifact artifact, readSet)) ∧
      selfHealCheck keys.hashBytes layer s' (viewOf snap) id = none ∧ s'.store = s.store := by
  obtain ⟨node, hsymbol⟩ := Option.isSome_iff_exists.mp hnode
  unfold derivedTraced at h
  rw [if_neg (by rw [hsymbol]; simp)] at h
  cases hheal : selfHealCheck keys.hashBytes layer s (viewOf snap) id with
  | some artifact =>
    rw [hheal] at h
    obtain ⟨rfl, -⟩ := Prod.mk.inj h
    exact .inl ⟨.inl rfl, by rw [hheal]; rfl⟩
  | none =>
    rw [hheal] at h
    dsimp only at h
    cases hmade : producers.produceCode layer snap id with
    | mk made readSet =>
      rw [hmade] at h
      cases made with
      | artifact artifact =>
        refine .inl ⟨.inr ⟨artifact, readSet, rfl⟩, ?_⟩
        rw [selfHealCheck_putAndBind h]
        rfl
      | nothing =>
        obtain ⟨rfl, -⟩ := Prod.mk.inj h
        refine .inr ⟨rfl, fun artifact readSet heq => ?_, hheal, rfl⟩
        cases (Prod.mk.inj heq).1
      | raised =>
        obtain ⟨rfl, -⟩ := Prod.mk.inj h
        refine .inr ⟨rfl, fun artifact readSet heq => ?_, hheal, rfl⟩
        cases (Prod.mk.inj heq).1

end Traced

/-! ## Honest signals -/

/-- The value of an entity is up to date, or the producer gives an artifact:
to the worker, or to a read that waits for it. -/
def Warmed (keys : Keying) (worker later : Producers) (dag : DerivationDAG) (σ : DagState)
    (snap : Snapshot) (layer : DerivedLayer) (id : String) : Prop :=
  if layer.isTraced then
    (snap.graph.symbol id).isSome = true ∧
    ((selfHealCheck keys.hashBytes layer (σ.layers layer.name) (viewOf snap) id).isSome = true ∨
      (∃ artifact readSet, worker.produceCode layer snap id = (.artifact artifact, readSet)) ∨
      layer.serving ≠ "stale" ∧ ∃ artifact readSet,
        later.produceCode layer snap id = (.artifact artifact, readSet) ∧
        ∀ existing, (σ.layers layer.name).store.lookup (layer.storeKey (tracedFingerprint
          keys.hashBytes layer.hashProfile (viewOf snap) id readSet)) = some existing →
            existing = artifact)
  else
    ∃ input hash, resolve keys dag σ snap layer id = .ok (input, hash) ∧
      (((σ.layers layer.name).store.lookup (layer.storeKey hash)).isSome = true ∨
        (∃ artifact, worker.produceArtifact layer snap id input = .artifact artifact) ∨
        layer.serving ≠ "stale" ∧
          ∃ artifact, later.produceArtifact layer snap id input = .artifact artifact)

section Signals

variable {keys : Keying} {worker later : Producers} {dag : DerivationDAG} {σ : DagState}
  {snap : Snapshot} {layer : DerivedLayer} {id : String}

/-- The read after a traced production. -/
theorem isFresh_after_traced (htraced : layer.isTraced = true) {s' : LayerState}
    {reply : Option Bytes} {status : TracedLayers.Status}
    (h : derivedTraced keys worker snap layer (σ.layers layer.name) id .produce =
      (s', .value reply status)) :
    (derivedOf keys later dag (σ.setLayer layer.name s') snap layer id).1.isFresh = true ↔
      Warmed keys worker later dag σ snap layer id := by
  rw [derivedOf_traced_isFresh _ _ _ _ _ _ _ htraced, DagState.layers_setLayer,
    Function.update_self]
  unfold Warmed
  rw [if_pos htraced]
  refine and_congr_right fun hnode => ?_
  rcases derivedTraced_produce hnode h with ⟨hbefore, hafter⟩ | ⟨hheal, hnone, hheal', hstore⟩
  · exact iff_of_true (.inl hafter) (hbefore.imp_right .inl)
  · have hworker : ¬ ∃ artifact readSet,
        worker.produceCode layer snap id = (.artifact artifact, readSet) := by
      rintro ⟨artifact, readSet, heq⟩
      exact hnone artifact readSet heq
    rw [hheal, hheal', hstore]
    simp only [hworker, false_or]

/-- The read after any other production. -/
theorem isFresh_after_recompute (htraced : layer.isTraced = false) {made : Option Bytes}
    {σ' : DagState} (h : recomputeNow keys worker dag σ snap layer id = .ok (made, σ')) :
    (derivedOf keys later dag σ' snap layer id).1.isFresh = true ↔
      Warmed keys worker later dag σ snap layer id := by
  obtain ⟨input, hash, hresolve, hcases⟩ := recomputeNow_cases h
  have hresolve' : resolve keys dag σ' snap layer id = .ok (input, hash) :=
    resolveInput_mono (artifacts_recomputeNow h) hresolve
  have hone : ∀ {σ : DagState} (P : GenInput → String → Prop),
      resolve keys dag σ snap layer id = .ok (input, hash) →
      ((∃ input hash, resolve keys dag σ snap layer id = .ok (input, hash) ∧ P input hash) ↔
        P input hash) := by
    intro σ P hok
    simp [hok]
  rw [derivedOf_isFresh _ _ _ _ _ _ _ htraced, hone _ hresolve']
  unfold Warmed
  rw [if_neg (by rw [htraced]; simp), hone _ hresolve]
  rcases hcases with ⟨artifact, stored, hmade, hput, -, heq⟩ |
    ⟨-, ⟨artifact, hmade, hput, heq⟩ | hmade⟩
  · -- the artifact is stored
    have hkey : (σ'.layers layer.name).store.lookup (layer.storeKey hash) = some artifact := by
      rw [heq, DagState.layers_addDone, DagState.layers_setLayer, Function.update_self]
      exact (put_spec hput).1
    rw [hkey]
    exact iff_of_true (.inl rfl) (.inr (.inl ⟨artifact, hmade⟩))
  · -- another artifact was there
    obtain ⟨existing, hkey, -⟩ := put_eq_none_iff.mp hput
    rw [heq, DagState.layers_setLayer, Function.update_self]
    change ((σ.layers layer.name).store.lookup _).isSome = true ∨ _ ↔ _
    rw [hkey]
    exact iff_of_true (.inl rfl) (.inl rfl)
  · -- nothing was made, and the store is as it was
    have hworker : ¬ ∃ artifact, worker.produceArtifact layer snap id input = .artifact artifact := by
      rintro ⟨artifact, hartifact⟩
      rw [hartifact] at hmade
      rcases hmade with ⟨hnothing, -⟩ | ⟨hraised, -⟩
      · cases hnothing
      · cases hraised
    have hstore : (σ'.layers layer.name).store = (σ.layers layer.name).store := by
      rcases hmade with ⟨-, heq⟩ | ⟨-, heq⟩
      · rw [heq]
      · rw [heq, DagState.layers_setLayer, Function.update_self]
        rfl
    rw [hstore]
    simp only [hworker, false_or]

/-- After a signal a read of the value at its revision is fresh, and hands no
work to the worker again, exactly when the value was up to date, or the worker
or the read itself got an artifact. -/
theorem derivedFresh_honest_iff {pin : ℕ → Option Snapshot} {subscribed : Bool} {revision : ℕ}
    {name : String} (hpin : pin revision = some snap)
    (hpublished : (recomputeOne keys worker dag pin subscribed σ name id revision).2 =
      some ⟨revision, name, id⟩) :
    ((derived keys later dag (recomputeOne keys worker dag pin subscribed σ name id revision).1
          snap name id).1.isFresh = true ∧
        (derived keys later dag (recomputeOne keys worker dag pin subscribed σ name id revision).1
          snap name id).2.2 = false) ↔
      ∃ layer, dag.layer name = .ok layer ∧ Warmed keys worker later dag σ snap layer id := by
  unfold recomputeOne at hpublished ⊢
  rw [hpin] at hpublished ⊢
  dsimp only at hpublished ⊢
  split_ifs at hpublished ⊢ with hempty
  cases hlayer : dag.layer name with
  | error e =>
    rw [hlayer] at hpublished
    cases hpublished
  | ok layer =>
    rw [hlayer] at hpublished
    dsimp only at hpublished ⊢
    have hread : ∀ σ', derived keys later dag σ' snap name id =
        derivedOf keys later dag σ' snap layer id := by
      intro σ'
      unfold derived
      rw [if_neg hempty, hlayer]
    have hfresh : ∀ σ', ((derived keys later dag σ' snap name id).1.isFresh = true ∧
        (derived keys later dag σ' snap name id).2.2 = false) ↔
        (derivedOf keys later dag σ' snap layer id).1.isFresh = true := by
      intro σ'
      rw [hread]
      exact and_iff_left_of_imp (not_enqueued_of_isFresh _ _ _ _ _ _ _)
    simp only [Except.ok.injEq, exists_eq_left']
    by_cases htraced : layer.isTraced = true
    · rw [if_pos htraced] at hpublished ⊢
      cases hmade : derivedTraced keys worker snap layer (σ.layers layer.name) id .produce with
      | mk s' reply =>
        rw [hmade] at hpublished
        cases reply with
        | conflict key => cases hpublished
        | value artifact status =>
          rw [hfresh]
          exact isFresh_after_traced htraced hmade
    · rw [if_neg htraced] at hpublished ⊢
      rw [Bool.not_eq_true] at htraced
      cases hmade : recomputeNow keys worker dag σ snap layer id with
      | error e =>
        rw [hmade] at hpublished
        cases hpublished
      | ok made =>
        obtain ⟨made, σ'⟩ := made
        rw [hfresh]
        exact isFresh_after_recompute htraced hmade

end Signals

/-! ## A producer with and without an artifact -/

/-- A layer that serves stale values. -/
def notesLayer : DerivedLayer where
  name := "notes"
  dependsOn := ["code"]
  generatorVersion := "1"
  hashProfile := "structure"
  serving := "stale"
  recompute := "lazy"
  keyLocality := .local_
  entityKinds := none

/-- The layer alone. -/
def notesDag : DerivationDAG :=
  ⟨[notesLayer], (∅ : FMap String DerivedLayer).insert "notes" notesLayer, ["notes"]⟩

/-- One function. -/
def oneFunction : Snapshot where
  graph := { symbols := (∅ : FMap String SymbolNode).insert "f"
               (TracedReads.functionNode "1" TracedReads.decimal_one)
             uses := ∅
             known := TracedReads.aloneView.graph.known }
  entitySource := fun _ => "def f(): pass"

/-- Nothing was made yet. -/
def emptyState : DagState := ⟨fun _ => ⟨∅, ∅, ∅, ∅, ∅⟩, ⟨∅, []⟩⟩

/-- Producers that all end alike. -/
def alike (made : Produced) : Producers := ⟨fun _ _ id => (made, {id}), fun _ _ _ _ => made⟩

/-- Keys without digests. -/
def plainKeying : Keying := ⟨fun _ => "", HashOrder.increasing, fun _ => ""⟩

/-- The worker on the function at revision seven. -/
def workOn (made : Produced) : DagState × Option DerivedFresh :=
  recomputeOne plainKeying (alike made) notesDag (fun _ => some oneFunction) true emptyState "notes"
    "f" 7

/-- A read of the function after the worker. -/
def readAfter (made : Produced) : Reply × DagState × Bool :=
  derived plainKeying (alike made) notesDag (workOn made).1 oneFunction "notes" "f"

/-- An artifact makes the signal honest. -/
theorem signal_honest : (workOn (.artifact [1])).2 = some ⟨7, "notes", "f"⟩ ∧
    (readAfter (.artifact [1])).1.isFresh = true ∧ (readAfter (.artifact [1])).2.2 = false := by
  have hsignal : (workOn (.artifact [1])).2 = some ⟨7, "notes", "f"⟩ := by decide +kernel
  refine ⟨hsignal, (derivedFresh_honest_iff rfl hsignal).mpr ⟨notesLayer, rfl, ?_⟩⟩
  unfold Warmed
  rw [if_neg (by decide)]
  exact ⟨_, _, rfl, .inr (.inl ⟨_, rfl⟩)⟩

/-- A producer that returns nothing gives a signal after which the read hands
the same work to the worker again. -/
theorem signal_loops : (workOn .nothing).2 = some ⟨7, "notes", "f"⟩ ∧
    (readAfter .nothing).1.isFresh = false ∧ (readAfter .nothing).2.2 = true := by
  decide +kernel

end Tyo3.FreshSignals
