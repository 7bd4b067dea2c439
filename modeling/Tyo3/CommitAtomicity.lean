import Tyo3.CommitFunnel

/-!
# Atomicity of commits

A commit either publishes one revision completely or leaves the head as it
was. The argument follows the transaction: planning moves the version
counter only, every stage before the last one leaves the store alone, and
the one stage that writes the registry is the last that can fail.
-/

namespace Tyo3.CommitAtomicity

open AuthoredStore CodeLayer CommitFunnel CommitPlan ContentStore Entities FiniteMaps
  IdentityAnchors IdentityPersistence IdentityReconciliation JsonValues SystemPaths

/-! ## Planning -/

/-- Whether a write reconciles identity. -/
def reconciles : Mutation → Bool
  | .author _ _ _ => false
  | _ => true

section Planning

variable (crates : Crates) (env : Env) (head : HeadState)

/-- A watcher plan moves the version counter only. -/
theorem buildPollPlan_head (events : List ChangeEvent) :
    ∃ n, (buildPollPlan crates env head events).2 =
      { head with store := { head.store with versionCounter := n } } := by
  unfold buildPollPlan
  split
  · exact ⟨head.store.versionCounter, rfl⟩
  · split
    · exact ⟨head.store.versionCounter, rfl⟩
    · dsimp only
      split
      · exact ⟨head.store.versionCounter, rfl⟩
      · exact ⟨_, rfl⟩

/-- Planning moves the version counter only. -/
theorem buildPlan_head (m : Mutation) :
    ∃ n, (buildPlan crates env head m).2 =
      { head with store := { head.store with versionCounter := n } } := by
  cases m with
  | overlay changes events created changed unsaved => exact ⟨_, rfl⟩
  | syncPath abs => exact ⟨_, rfl⟩
  | syncAll => exact ⟨_, rfl⟩
  | author layer id value => exact ⟨head.store.versionCounter, rfl⟩
  | poll events => exact buildPollPlan_head crates env head events

/-- A watcher plan reconciles and has no authored record. -/
theorem buildPollPlan_staged {events : List ChangeEvent} {staged : StagedCommit}
    (h : (buildPollPlan crates env head events).1 = some staged) :
    staged.reconcile = true ∧ staged.authored = none := by
  unfold buildPollPlan at h
  split at h
  · cases h
  · split at h
    · cases h
      exact ⟨rfl, rfl⟩
    · dsimp only at h
      split at h
      · cases h
      · cases h
        exact ⟨rfl, rfl⟩

/-- An authored plan does not reconcile. -/
theorem authorPlan_staged {layer id : String} {value : Json} {staged : StagedCommit}
    (h : authorPlan crates head layer id value = .ok staged) : staged.reconcile = false := by
  unfold authorPlan at h
  split at h
  · cases h
  · split at h
    · cases h
    · dsimp only at h
      split at h
      · cases h
      · cases h
        rfl

/-- A plan reconciles exactly when its write does, and has then no authored
record. -/
theorem buildPlan_staged {m : Mutation} {staged : StagedCommit}
    (h : (buildPlan crates env head m).1 = .ok (some staged)) :
    staged.reconcile = reconciles m ∧ (staged.reconcile = true → staged.authored = none) := by
  cases m with
  | overlay changes events created changed unsaved =>
    cases h
    exact ⟨rfl, fun _ => rfl⟩
  | syncPath abs =>
    cases h
    exact ⟨rfl, fun _ => rfl⟩
  | syncAll =>
    cases h
    exact ⟨rfl, fun _ => rfl⟩
  | author layer id value =>
    have hplan : authorPlan crates head layer id value = .ok staged := by
      unfold buildPlan at h
      dsimp only at h
      cases hp : authorPlan crates head layer id value with
      | error e =>
        rw [hp] at h
        cases h
      | ok staged' =>
        rw [hp] at h
        cases h
        rfl
    have hrec := authorPlan_staged crates head hplan
    exact ⟨hrec, fun hcontra => absurd hcontra (by rw [hrec]; decide)⟩
  | poll events =>
    have hplan : (buildPollPlan crates env head events).1 = some staged := by
      unfold buildPlan at h
      dsimp only at h
      injection h
    have hboth := buildPollPlan_staged crates env head hplan
    exact ⟨hboth.1, fun _ => hboth.2⟩

end Planning

/-! ## The stages -/

/-- A stored registry stands in the sidecar and nothing else moved. -/
theorem persistIdentity_ok {crates : Crates} {env : Env} {head head' : HeadState}
    (h : persistIdentity crates env head = .ok head') :
    ∃ bytes, toBytes crates.codec head.registry = .ok bytes ∧
      head' = { head with sidecar := head.sidecar.insert head.identityDbPath bytes } := by
  unfold persistIdentity at h
  split at h
  · cases h
  · rename_i bytes hbytes
    refine ⟨bytes, hbytes, ?_⟩
    unfold writeAtomic at h
    cases hfault : env.writeFault head.identityDbPath with
    | some e =>
      rw [hfault] at h
      cases h
    | none =>
      rw [hfault] at h
      cases h
      rfl

/-- What a failing stage leaves alone. -/
structure Kept (head head' : HeadState) : Prop where
  /-- The project root. -/
  root : head'.root = head.root
  /-- The store. -/
  store : head'.store = head.store
  /-- The unsaved buffers. -/
  unsaved : head'.unsavedOverlays = head.unsavedOverlays
  /-- The sidecar. -/
  sidecar : head'.sidecar = head.sidecar

/-- A failing identity stage leaves the store and the sidecar alone. -/
theorem identityStage_error {crates : Crates} {env : Env} {head head' : HeadState}
    {staged : StagedCommit} {rev : Revision} {armed : Option String} {e : CommitError}
    (h : identityStage crates env head staged rev armed = (.error e, head')) :
    Kept head head' := by
  unfold identityStage at h
  split at h
  · dsimp only at h
    split at h
    · cases h
      exact ⟨rfl, rfl, rfl, rfl⟩
    · split at h
      · cases h
        exact ⟨rfl, rfl, rfl, rfl⟩
      · split at h
        · cases h
          exact ⟨rfl, rfl, rfl, rfl⟩
        · cases h
  · cases h

/-- A reconciling identity stage that succeeds has stored the registry it
leaves behind. -/
theorem identityStage_ok {crates : Crates} {env : Env} {head head' : HeadState}
    {staged : StagedCommit} {rev : Revision} {armed : Option String} {d : IdentityDelta}
    (h : identityStage crates env head staged rev armed = (.ok d, head'))
    (hrec : staged.reconcile = true) :
    head'.root = head.root ∧ head'.store = head.store ∧ head'.overlay = head.overlay ∧
      ∃ bytes, toBytes crates.codec head'.registry = .ok bytes ∧
        head'.sidecar.lookup head'.identityDbPath = some bytes := by
  unfold identityStage at h
  rw [if_pos hrec] at h
  dsimp only at h
  split at h
  · cases h
  · split at h
    · cases h
    · split at h
      · cases h
      · rename_i hpersist
        obtain ⟨bytes, hbytes, hhead⟩ := persistIdentity_ok hpersist
        cases h
        subst hhead
        exact ⟨rfl, rfl, rfl, bytes, hbytes, Finmap.lookup_insert _⟩

/-- Without reconciliation the identity stage does nothing. -/
theorem identityStage_skip {crates : Crates} {env : Env} {head : HeadState}
    {staged : StagedCommit} {rev : Revision} {armed : Option String}
    (hrec : staged.reconcile = false) :
    identityStage crates env head staged rev armed = (.ok IdentityDelta.default, head) := by
  unfold identityStage
  rw [if_neg (by rw [hrec]; decide)]

/-- The authored stage leaves everything but the sidecar alone. -/
theorem authoredStage_ok {env : Env} {head head' : HeadState} {staged : StagedCommit}
    {armed : Option String} (h : authoredStage env head staged armed = .ok head') :
    (staged.authored = none → head' = head) ∧ head'.root = head.root ∧
      head'.store = head.store ∧ head'.overlay = head.overlay := by
  unfold authoredStage at h
  split at h
  · cases h
    exact ⟨fun _ => rfl, rfl, rfl, rfl⟩
  · rename_i ap hap
    refine ⟨fun hnone => absurd (hap.symm.trans hnone) (by simp), ?_⟩
    split at h
    · cases h
    · unfold writeAtomic at h
      cases hfault : env.writeFault ap.recordPath with
      | some e =>
        rw [hfault] at h
        cases h
      | none =>
        rw [hfault] at h
        cases h
        exact ⟨rfl, rfl, rfl⟩

/-- The authored stage fails only when there is a record. -/
theorem authoredStage_error {env : Env} {head : HeadState} {staged : StagedCommit}
    {armed : Option String} {e : CommitError}
    (h : authoredStage env head staged armed = .error e) : staged.authored ≠ none := by
  intro hnone
  unfold authoredStage at h
  rw [hnone] at h
  cases h

/-! ## The transaction -/

section Transaction

variable {crates : Crates} {env : Env} {head head' : HeadState} {staged : StagedCommit}
  {armed : Option String}

/-- A failed transaction has left the store, the unsaved buffers and the
sidecar alone. -/
theorem runStaged_error {e : CommitError}
    (hplan : staged.reconcile = true → staged.authored = none)
    (h : runStaged crates env head staged armed = (.error e, head')) : Kept head head' := by
  unfold runStaged at h
  dsimp only at h
  split at h
  · rename_i e' head₁ hid
    cases h
    have hkept := identityStage_error hid
    exact ⟨hkept.root, hkept.store, hkept.unsaved, hkept.sidecar⟩
  · rename_i d head₁ hid
    split at h
    · rename_i e' hauth
      cases h
      have hrec : staged.reconcile = false := by
        cases hr : staged.reconcile with
        | false => rfl
        | true => exact absurd (hplan hr) (authoredStage_error hauth)
      rw [identityStage_skip hrec] at hid
      cases hid
      exact ⟨rfl, rfl, rfl, rfl⟩
    · cases h

/-- A successful transaction has published its generation as the next
revision and shows it to the engine. -/
theorem runStaged_ok {dto : CommitDelta}
    (h : runStaged crates env head staged armed = (.ok dto, head')) :
    head'.store = head.store.publishStaged staged.stagedGen ∧ head'.overlay = staged.stagedGen ∧
      dto.revision = head'.store.revision := by
  unfold runStaged at h
  dsimp only at h
  split at h
  · cases h
  · rename_i d head₁ hid
    split at h
    · cases h
    · rename_i head₂ hauth
      have hsame := authoredStage_ok hauth
      have hstage : head₁.store = head.store ∧ head₁.overlay = staged.stagedGen := by
        cases hrec : staged.reconcile with
        | true =>
          have hok := identityStage_ok hid hrec
          exact ⟨hok.2.1, hok.2.2.1⟩
        | false =>
          rw [identityStage_skip hrec] at hid
          cases hid
          exact ⟨rfl, rfl⟩
      cases h
      refine ⟨?_, ?_, rfl⟩
      · show head₂.store.publishStaged staged.stagedGen = _
        rw [hsame.2.2.1, hstage.1]
      · show head₂.overlay = _
        rw [hsame.2.2.2, hstage.2]

/-- A successful transaction that reconciles has stored the registry. -/
theorem runStaged_ok_stored {dto : CommitDelta}
    (hplan : staged.reconcile = true → staged.authored = none) (hrec : staged.reconcile = true)
    (h : runStaged crates env head staged armed = (.ok dto, head')) :
    ∃ bytes, toBytes crates.codec head'.registry = .ok bytes ∧
      head'.sidecar.lookup head'.identityDbPath = some bytes := by
  unfold runStaged at h
  dsimp only at h
  split at h
  · cases h
  · rename_i d head₁ hid
    split at h
    · cases h
    · rename_i head₂ hauth
      have hsame : head₂ = head₁ := (authoredStage_ok hauth).1 (hplan hrec)
      obtain ⟨-, -, -, bytes, hbytes, hlookup⟩ := identityStage_ok hid hrec
      cases h
      subst hsame
      exact ⟨bytes, hbytes, hlookup⟩

end Transaction

/-! ## Commits -/

/-- Publishing counts one revision up. -/
theorem publishStaged_revision (s : Store) (generation : ContentMap) :
    (s.publishStaged generation).revision = s.revision + 1 := rfl

/-- Publishing makes the generation the head generation. -/
theorem publishStaged_generation (s : Store) (generation : ContentMap) :
    (s.publishStaged generation).generation = generation := rfl

/-- The observable parts of two heads agree. -/
structure Unchanged (head head' : HeadState) : Prop where
  /-- Published documents. -/
  generation : head'.store.generation = head.store.generation
  /-- Head revision. -/
  revision : head'.store.revision = head.store.revision
  /-- Generations kept for time travel. -/
  retained : head'.store.retained = head.store.retained
  /-- The content the engine reads. -/
  overlay : head'.overlay = head.overlay
  /-- The identity registry. -/
  registry : head'.registry = head.registry
  /-- The authored records. -/
  authored : head'.authored = head.authored
  /-- The code layer. -/
  codeLayer : head'.codeLayer = head.codeLayer
  /-- Paths with an unsaved buffer. -/
  unsavedOverlays : head'.unsavedOverlays = head.unsavedOverlays
  /-- The stored registry and the stored records. -/
  sidecar : head'.sidecar = head.sidecar

/-- The engine reads the published generation. -/
def InStep (head : HeadState) : Prop := head.overlay = head.store.generation

/-- What a commit that published something has done. -/
structure Published (crates : Crates) (m : Mutation) (head head' : HeadState)
    (dto : CommitDelta) : Prop where
  /-- The revision grew by one. -/
  revision : head'.store.revision = head.store.revision + 1
  /-- The report carries it. -/
  reported : dto.revision = head'.store.revision
  /-- The engine reads the published generation. -/
  inStep : InStep head'
  /-- A reconciling write has stored the registry. -/
  stored : reconciles m = true → ∃ bytes, toBytes crates.codec head'.registry = .ok bytes ∧
    head'.sidecar.lookup head'.identityDbPath = some bytes

/-- What a commit promises, by its result. -/
def Atomic (crates : Crates) (m : Mutation) (head : HeadState) :
    Except CommitError (Option CommitDelta) × HeadState → Prop
  | (.error _, head') => Unchanged head head'
  | (.ok none, head') => Unchanged head head'
  | (.ok (some dto), head') => Published crates m head head' dto

/-- A commit on a head whose engine reads the published generation is
atomic. -/
theorem commit_atomic_of_inStep (crates : Crates) (env : Env) {head : HeadState}
    (hs : InStep head) (m : Mutation) : Atomic crates m head (commit crates env head m) := by
  obtain ⟨n, hhead⟩ := buildPlan_head crates env head m
  unfold commit
  cases hplan : buildPlan crates env head m with
  | mk result head₁ =>
    rw [hplan] at hhead
    dsimp only at hhead
    subst hhead
    cases result with
    | error e => exact ⟨rfl, rfl, rfl, rfl, rfl, rfl, rfl, rfl, rfl⟩
    | ok plan =>
      cases plan with
      | none => exact ⟨rfl, rfl, rfl, rfl, rfl, rfl, rfl, rfl, rfl⟩
      | some staged =>
        have hfirst : (buildPlan crates env head m).1 = .ok (some staged) := by rw [hplan]
        obtain ⟨hrec, hauth⟩ := buildPlan_staged crates env head hfirst
        dsimp only
        split
        · rename_i dto head₂ hrun
          have hok := runStaged_ok hrun
          refine ⟨?_, hok.2.2, ?_, ?_⟩
          · rw [hok.1, publishStaged_revision]
          · show head₂.overlay = head₂.store.generation
            rw [hok.1, hok.2.1, publishStaged_generation]
          · intro hm
            exact runStaged_ok_stored hauth (hrec.trans hm) hrun
        · rename_i e head₂ hrun
          have hkept := runStaged_error hauth hrun
          have hstore := hkept.store
          dsimp only at hstore
          refine ⟨?_, ?_, ?_, hs.symm, rfl, rfl, rfl, hkept.unsaved, hkept.sidecar⟩
          · show head₂.store.generation = _
            rw [hstore]
          · show head₂.store.revision = _
            rw [hstore]
          · show head₂.store.retained = _
            rw [hstore]

/-- A commit keeps the engine at the published generation. -/
theorem InStep.commit (crates : Crates) (env : Env) {head : HeadState} (hs : InStep head)
    (m : Mutation) : InStep (CommitFunnel.commit crates env head m).2 := by
  have hatomic := commit_atomic_of_inStep crates env hs m
  cases hc : CommitFunnel.commit crates env head m with
  | mk result head' =>
    rw [hc] at hatomic
    have hsame : Unchanged head head' → InStep head' := fun hu =>
      hu.overlay.trans (hs.trans hu.generation.symm)
    cases result with
    | error e => exact hsame hatomic
    | ok plan =>
      cases plan with
      | none => exact hsame hatomic
      | some dto => exact hatomic.inStep

/-- The registry of an opened head. -/
theorem registry_openHead {crates : Crates} {env : Env} {o : Opening} {head : HeadState}
    (h : openHead crates env o = .ok head) :
    head.registry = (reconcileImpl env.iter env.mint o.registry
      (extractEntities crates (env.engine.answers head.store.generation)) head.store.revision
      none).2 := by
  unfold openHead at h
  dsimp only at h
  split at h
  · cases h
  · rename_i head₁ hpersist
    obtain ⟨bytes, -, hhead⟩ := persistIdentity_ok hpersist
    cases h
    rw [hhead]
    rfl

/-- Opening leaves the engine at the published generation. -/
theorem inStep_of_openHead {crates : Crates} {env : Env} {o : Opening} {head : HeadState}
    (h : openHead crates env o = .ok head) : InStep head := by
  unfold openHead at h
  dsimp only at h
  split at h
  · cases h
  · rename_i head₁ hpersist
    obtain ⟨bytes, -, hhead⟩ := persistIdentity_ok hpersist
    cases h
    subst hhead
    rfl

/-- The engine reads the published generation in every session. -/
theorem inStep_of_reachable {crates : Crates} {head : HeadState} (hr : Reachable crates head) :
    InStep head := by
  induction hr with
  | opened h => exact inStep_of_openHead h
  | step _ a ih =>
    cases a with
    | commit env mutation => exact ih.commit crates env mutation
    | registerAuthoredLayer name history reviewOnChange => exact ih
    | faultInject stage => exact ih
    | reload => rfl

/-- Every commit of every session is atomic, whichever stage fails. -/
theorem commit_atomic {crates : Crates} {head : HeadState} (hr : Reachable crates head)
    (env : Env) (m : Mutation) : Atomic crates m head (commit crates env head m) :=
  commit_atomic_of_inStep crates env (inStep_of_reachable hr) m

/-- In a project of one file a sync that cannot store the registry fails and
changes nothing. -/
theorem commit_atomic_failed_write :
    let file : SystemPath := ⟨["p", "a.py"]⟩
    let head := listedHead [file] ((∅ : Disk).insert file (.file "x = 1")) ⟨["p"]⟩
    let env := { listedEnv [file] ∅ with writeFault := fun _ => some "disk full" }
    ∃ e head', commit (listedCrates [file]) env head .syncAll = (.error e, head') ∧
      Unchanged head head' :=
  ⟨_, _, rfl, commit_atomic (listedHead_reachable _ _ _)
    { listedEnv [⟨["p", "a.py"]⟩] ∅ with writeFault := fun _ => some "disk full" } .syncAll⟩

end Tyo3.CommitAtomicity
