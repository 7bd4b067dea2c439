import Tyo3.CommitAtomicity

/-!
# The outcomes of a commit

A commit has three outcomes. Nothing is published, and the head differs at
most in the version counter and the armed fault; a reconciling write is
published with its registry and its code layer; an authored write is
published with its record. Each outcome gives the whole head after it.
-/

namespace Tyo3.CommitOutcomes

open AuthoredStore CodeLayer CommitAtomicity CommitFunnel CommitPlan ContentStore Entities
  FiniteMaps IdentityAnchors IdentityPersistence JsonValues SystemPaths

/-- The head after a write that published nothing. -/
def idle (head : HeadState) (counter : ℕ) (armed : Option String) : HeadState :=
  { head with store := { head.store with versionCounter := counter }, armedFault := armed }

section Reconciled

variable (crates : Crates) (env : Env) (head : HeadState) (staged : StagedCommit)

/-- The registry a reconciling write leaves. -/
def reconciledRegistry : IdentityRegistry :=
  (runIdentityReconciliation crates env { head with overlay := staged.stagedGen } staged.scope
    head.store.nextRevision).2.registry

/-- The code layer a reconciling write leaves. -/
def producedLayer : Layer :=
  produceLayer (outputs crates (env.engine.answers staged.stagedGen)
    { head with
      overlay := staged.stagedGen
      registry := reconciledRegistry crates env head staged }) head.codeLayer staged

/-- The head after a published reconciling write. -/
def reconciledHead (bytes : Bytes) : HeadState :=
  publishTail { head with
    overlay := staged.stagedGen
    registry := reconciledRegistry crates env head staged
    codeLayer := producedLayer crates env head staged
    sidecar := head.sidecar.insert head.identityDbPath bytes } staged

variable {crates env head staged} in
/-- A write without a record leaves the records. -/
theorem authored_reconciledHead (hauth : staged.authored = none) (bytes : Bytes) :
    (reconciledHead crates env head staged bytes).authored = head.authored := by
  unfold reconciledHead publishTail
  dsimp only
  rw [hauth]

end Reconciled

/-- The head after a published authored write. -/
def authoredHead (head : HeadState) (staged : StagedCommit) (ap : AuthoredPlan) : HeadState :=
  publishTail { head with
    overlay := staged.stagedGen
    sidecar := head.sidecar.insert ap.recordPath ap.bytes } staged

/-! ## The stages -/

section Stages

variable {crates : Crates} {env : Env} {head head' : HeadState} {staged : StagedCommit}
  {armed : Option String}

/-- A failing identity stage has moved the registry and the code layer at
most. -/
theorem identityStage_error_shape {rev : Revision} {e : CommitError}
    (h : identityStage crates env head staged rev armed = (.error e, head')) :
    ∃ registry layer, head' = { head with registry := registry, codeLayer := layer } := by
  unfold identityStage at h
  split at h
  · dsimp only at h
    split at h
    · cases h
      exact ⟨_, _, rfl⟩
    · split at h
      · cases h
        exact ⟨_, _, rfl⟩
      · split at h
        · cases h
          exact ⟨_, _, rfl⟩
        · cases h
  · cases h

/-- A reconciling identity stage leaves the reconciled registry, the produced
layer and the stored registry. -/
theorem identityStage_ok_shape {d : IdentityDelta}
    (hrec : staged.reconcile = true)
    (h : identityStage crates env { head with overlay := staged.stagedGen } staged
      head.store.nextRevision armed = (.ok d, head')) :
    ∃ bytes, toBytes crates.codec (reconciledRegistry crates env head staged) = .ok bytes ∧
      head' = { head with
        overlay := staged.stagedGen
        registry := reconciledRegistry crates env head staged
        codeLayer := producedLayer crates env head staged
        sidecar := head.sidecar.insert head.identityDbPath bytes } := by
  unfold identityStage at h
  rw [if_pos hrec] at h
  dsimp only at h
  split at h
  · cases h
  · split at h
    · cases h
    · split at h
      · cases h
      · rename_i hpersist
        obtain ⟨bytes, hbytes, hhead⟩ := persistIdentity_ok hpersist
        cases h
        exact ⟨bytes, hbytes, hhead⟩

/-- The authored stage writes its record. -/
theorem authoredStage_ok_shape {ap : AuthoredPlan} (hap : staged.authored = some ap)
    (h : authoredStage env head staged armed = .ok head') :
    head' = { head with sidecar := head.sidecar.insert ap.recordPath ap.bytes } := by
  unfold authoredStage at h
  rw [hap] at h
  dsimp only at h
  split at h
  · cases h
  · unfold writeAtomic at h
    cases hfault : env.writeFault ap.recordPath with
    | some e =>
      rw [hfault] at h
      cases h
    | none =>
      rw [hfault] at h
      cases h
      rfl

/-- A failed transaction has moved what a rollback restores and nothing
else. -/
theorem runStaged_error_shape {e : CommitError}
    (hplan : staged.reconcile = true → staged.authored = none)
    (h : runStaged crates env head staged armed = (.error e, head')) :
    ∃ registry layer, head' =
      { head with overlay := staged.stagedGen, registry := registry, codeLayer := layer } := by
  unfold runStaged at h
  dsimp only at h
  split at h
  · rename_i e' head₁ hid
    cases h
    obtain ⟨registry, layer, hshape⟩ := identityStage_error_shape hid
    exact ⟨registry, layer, hshape⟩
  · rename_i d head₁ hid
    split at h
    · rename_i e' hauth
      cases h
      have hrec : staged.reconcile = false := by
        cases hr : staged.reconcile with
        | false => rfl
        | true => exact absurd (hplan hr) (authoredStage_error hauth)
      rw [identityStage_skip hrec] at hid
      cases hid
      exact ⟨_, _, rfl⟩
    · cases h

/-- A successful reconciling transaction. -/
theorem runStaged_reconciling_ok {dto : CommitDelta} (hrec : staged.reconcile = true)
    (hauth : staged.authored = none)
    (h : runStaged crates env head staged armed = (.ok dto, head')) :
    ∃ bytes, toBytes crates.codec (reconciledRegistry crates env head staged) = .ok bytes ∧
      head' = reconciledHead crates env head staged bytes := by
  unfold runStaged at h
  dsimp only at h
  split at h
  · cases h
  · rename_i d head₁ hid
    obtain ⟨bytes, hbytes, hshape⟩ := identityStage_ok_shape hrec hid
    split at h
    · cases h
    · rename_i head₂ hstage
      have hsame : head₂ = head₁ := (authoredStage_ok hstage).1 hauth
      cases h
      rw [hsame, hshape]
      exact ⟨bytes, hbytes, rfl⟩

/-- A successful authored transaction. -/
theorem runStaged_authored_ok {dto : CommitDelta} {ap : AuthoredPlan}
    (hrec : staged.reconcile = false) (hap : staged.authored = some ap)
    (h : runStaged crates env head staged armed = (.ok dto, head')) :
    head' = authoredHead head staged ap := by
  unfold runStaged at h
  dsimp only at h
  rw [identityStage_skip hrec] at h
  dsimp only at h
  split at h
  · cases h
  · rename_i head₂ hstage
    have hshape := authoredStage_ok_shape hap hstage
    cases h
    rw [hshape]
    rfl

end Stages

/-! ## Commits -/

/-- An authored plan stages the current content and one record. -/
theorem authorPlan_shape {crates : Crates} {head : HeadState} {layer id : String} {value : Json}
    {staged : StagedCommit} (h : authorPlan crates head layer id value = .ok staged) :
    ∃ lcfg anchor bytes,
      head.config.authoredLayerConfig layer = some lcfg ∧ head.registry.get id = some anchor ∧
      recordBytes crates.codec layer id
        (((AuthoredStore.put head.authored layer id
          ⟨value, head.store.nextRevision, some anchor.contentHash⟩ lcfg.history).lookup
            (layer, id)).getD ⟨⟨value, head.store.nextRevision, some anchor.contentHash⟩, []⟩) =
        .ok bytes ∧
      staged = { StagedCommit.reconciling head.store.stageUnchanged [] none with
        reconcile := false
        authored := some ⟨AuthoredStore.put head.authored layer id
          ⟨value, head.store.nextRevision, some anchor.contentHash⟩ lcfg.history,
          head.recordPath layer id, bytes, id⟩ } := by
  unfold authorPlan at h
  split at h
  · cases h
  · rename_i lcfg hcfg
    split at h
    · cases h
    · rename_i anchor hanchor
      dsimp only at h
      split at h
      · cases h
      · rename_i bytes hbytes
        cases h
        exact ⟨lcfg, anchor, bytes, hcfg, hanchor, hbytes, rfl⟩

/-- The outcomes of a commit on a head, with the head they leave. -/
inductive Outcome (crates : Crates) (env : Env) (head : HeadState) :
    Mutation → Except CommitError (Option CommitDelta) → HeadState → Prop
  | idle {m : Mutation} {result : Except CommitError (Option CommitDelta)} (counter : ℕ)
      (armed : Option String) (hresult : ∀ dto, result ≠ .ok (some dto)) :
      Outcome crates env head m result (idle head counter armed)
  | reconciled {m : Mutation} {dto : CommitDelta} (staged : StagedCommit) (counter : ℕ)
      (bytes : Bytes) (hm : reconciles m = true)
      (hplan : (buildPlan crates env head m).1 = .ok (some staged))
      (hauth : staged.authored = none)
      (hbytes : toBytes crates.codec
        (reconciledRegistry crates env (CommitOutcomes.idle head counter none) staged) = .ok bytes) :
      Outcome crates env head m (.ok (some dto))
        (reconciledHead crates env (CommitOutcomes.idle head counter none) staged bytes)
  | authored {layer id : String} {value : Json} {dto : CommitDelta} (lcfg : LayerCfg)
      (anchor : Anchor) (bytes : Bytes) (record : AuthoredMap)
      (hcfg : head.config.authoredLayerConfig layer = some lcfg)
      (hanchor : head.registry.get id = some anchor)
      (hrecord : record = AuthoredStore.put head.authored layer id
        ⟨value, head.store.nextRevision, some anchor.contentHash⟩ lcfg.history)
      (hbytes : recordBytes crates.codec layer id ((record.lookup (layer, id)).getD
        ⟨⟨value, head.store.nextRevision, some anchor.contentHash⟩, []⟩) = .ok bytes) :
      Outcome crates env head (.author layer id value) (.ok (some dto))
        { head with
          store := head.store.publishStaged head.store.generation
          overlay := head.store.generation
          authored := record
          sidecar := head.sidecar.insert (head.recordPath layer id) bytes
          armedFault := none }

/-- An authored write that was published. -/
theorem outcome_author {crates : Crates} {env : Env} {head head' : HeadState} {layer id : String}
    {value : Json} {staged : StagedCommit} {armed : Option String} {dto : CommitDelta}
    (hplan : (buildPlan crates env head (.author layer id value)).1 = .ok (some staged))
    (hrun : runStaged crates env { head with armedFault := none } staged armed = (.ok dto, head')) :
    Outcome crates env head (.author layer id value) (.ok (some dto)) head' := by
  have hauthor : authorPlan crates head layer id value = .ok staged := by
    unfold buildPlan at hplan
    dsimp only at hplan
    cases hp : authorPlan crates head layer id value with
    | error e =>
      rw [hp] at hplan
      cases hplan
    | ok staged' =>
      rw [hp] at hplan
      cases hplan
      rfl
  obtain ⟨lcfg, anchor, bytes, hcfg, hanchor, hbytes, hstaged⟩ := authorPlan_shape hauthor
  subst hstaged
  have hshape := runStaged_authored_ok rfl rfl hrun
  have hunsaved : (head.unsavedOverlays ∪ ([] : List SystemPath).toFinset) \
      ([] : List SystemPath).toFinset = head.unsavedOverlays := by simp
  have houtcome := @Outcome.authored crates env head layer id value dto lcfg anchor bytes _
    hcfg hanchor rfl hbytes
  rw [hshape]
  unfold authoredHead publishTail
  dsimp only [StagedCommit.reconciling]
  rw [hunsaved]
  exact houtcome

/-- Every commit on a head whose engine reads the published generation has
one of the outcomes. -/
theorem commit_outcome (crates : Crates) (env : Env) {head : HeadState} (hs : InStep head)
    (m : Mutation) :
    Outcome crates env head m (commit crates env head m).1 (commit crates env head m).2 := by
  obtain ⟨n, hhead⟩ := buildPlan_head crates env head m
  unfold commit
  cases hplan : buildPlan crates env head m with
  | mk result head₁ =>
    rw [hplan] at hhead
    dsimp only at hhead
    subst hhead
    cases result with
    | error e => exact .idle n head.armedFault (by intro dto h; cases h)
    | ok plan =>
      cases plan with
      | none => exact .idle n head.armedFault (by intro dto h; cases h)
      | some staged =>
        have hfirst : (buildPlan crates env head m).1 = .ok (some staged) := by rw [hplan]
        obtain ⟨hrec, hauth⟩ := buildPlan_staged crates env head hfirst
        dsimp only
        split
        · rename_i dto head₂ hrun
          cases hm : reconciles m with
          | true =>
            rw [hm] at hrec
            obtain ⟨bytes, hbytes, hshape⟩ := runStaged_reconciling_ok hrec (hauth hrec) hrun
            rw [hshape]
            exact .reconciled staged n bytes hm hfirst (hauth hrec) hbytes
          | false =>
            cases m with
            | author layer id value =>
              have hn : n = head.store.versionCounter :=
                (congrArg (fun r => r.2.store.versionCounter) hplan).symm
              subst hn
              exact outcome_author hfirst hrun
            | overlay changes events created changed unsaved => cases hm
            | syncPath abs => cases hm
            | syncAll => cases hm
            | poll events => cases hm
        · rename_i e head₂ hrun
          obtain ⟨registry, layer, hshape⟩ := runStaged_error_shape hauth hrun
          have hback : rollback head₂ ⟨head.store.generation, head.registry, head.authored,
              head.codeLayer⟩ = idle head n none := by
            rw [hshape]
            unfold rollback idle
            dsimp only
            rw [← hs]
          dsimp only at hback ⊢
          rw [hback]
          exact .idle n none (by intro dto h; cases h)

end Tyo3.CommitOutcomes
