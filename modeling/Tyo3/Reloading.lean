import Tyo3.AffectedClosure
import Tyo3.AuthoredHistory
import Tyo3.DiskSync
import Tyo3.Snapshots

/-!
# Reloading a session

A reload rebuilds the head over the same store, registry and configuration.
The authored records, the unsaved buffers, an armed fault and the code layer
start anew. A session without records, buffers and faults goes on as before:
a commit reads of the previous code layer only what a scoped build carries
over and the dependents of deleted ids.
-/

namespace Tyo3.Reloading

open AffectedClosure AuthoredHistory AuthoredStore CodeLayer CodeLayerBuilder CommitAtomicity
  CommitFunnel CommitOutcomes CommitPlan ContentStore DiskSync Entities FiniteMaps IdentityAnchors
  IdentityPersistence JsonValues ProjectSessions Runs Snapshots SystemPaths

/-! ## A commit in closed form -/

section Closed

variable (crates : Crates) (env : Env) (head : HeadState) (staged : StagedCommit)

/-- Whether the registry of a commit is stored, with its bytes. -/
def storeOutcome (registry : IdentityRegistry) (armed : Option String) :
    Except CommitError Bytes :=
  match checkFault armed "code_layer" with
  | .error e => .error e
  | .ok () =>
    match checkFault armed "identity_persist" with
    | .error e => .error e
    | .ok () =>
      match toBytes crates.codec registry with
      | .error e => .error (.commitFailed ("failed to serialise identity registry: " ++ e))
      | .ok bytes =>
        match env.writeFault head.identityDbPath with
        | some e => .error (.sidecarWrite ("failed to persist identity registry at " ++
            debugStr head.identityDbPath.asStr ++ ": " ++ e))
        | none => .ok bytes

/-- What a reconciling commit says about ids, apart from the affected ones. -/
def reconciledDelta : IdentityDelta :=
  (runIdentityReconciliation crates env { head with overlay := staged.stagedGen } staged.scope
    head.store.nextRevision).1

/-- The flags of the batch of a commit. -/
def batchFlags : Bool × Bool :=
  if staged.events = [] then (false, false)
  else env.engine.applyChanges staged.stagedGen staged.events

/-- The report of a reconciling commit, with affected ids and files. -/
def reportWith (ids : List DurableId) (files : List String) : CommitDelta :=
  buildCommitDelta head.store.nextRevision head.root staged
    { reconciledDelta crates env head staged with affectedIds := ids, affectedFiles := files }
    (batchFlags env staged)

/-- The report of a reconciling commit. -/
def report : CommitDelta :=
  let ids := affectedIdsOf (producedLayer crates env head staged) head.codeLayer
    (reconciledDelta crates env head staged)
  reportWith crates env head staged ids
    (affectedFilesOf (producedLayer crates env head staged) ids)

variable {crates env head staged}

/-- The identity stage of a reconciling commit. -/
theorem identityStage_reconciling (hrec : staged.reconcile = true) (armed : Option String) :
    identityStage crates env { head with overlay := staged.stagedGen } staged
        head.store.nextRevision armed =
      match storeOutcome crates env head (reconciledRegistry crates env head staged) armed with
      | .error e => (.error e, { head with
          overlay := staged.stagedGen
          registry := reconciledRegistry crates env head staged
          codeLayer := producedLayer crates env head staged })
      | .ok bytes => (.ok { reconciledDelta crates env head staged with
            affectedIds := affectedIdsOf (producedLayer crates env head staged) head.codeLayer
              (reconciledDelta crates env head staged)
            affectedFiles := affectedFilesOf (producedLayer crates env head staged)
              (affectedIdsOf (producedLayer crates env head staged) head.codeLayer
                (reconciledDelta crates env head staged)) },
          { head with
            overlay := staged.stagedGen
            registry := reconciledRegistry crates env head staged
            codeLayer := producedLayer crates env head staged
            sidecar := head.sidecar.insert head.identityDbPath bytes }) := by
  unfold identityStage storeOutcome
  rw [if_pos hrec]
  dsimp only
  cases checkFault armed "code_layer" with
  | error e => rfl
  | ok _ =>
    cases checkFault armed "identity_persist" with
    | error e => rfl
    | ok _ =>
      unfold persistIdentity writeAtomic
      dsimp only
      have hregistry : (runIdentityReconciliation crates env
          { head with overlay := staged.stagedGen } staged.scope head.store.nextRevision).2.registry =
          reconciledRegistry crates env head staged := rfl
      rw [hregistry]
      cases toBytes crates.codec (reconciledRegistry crates env head staged) with
      | error e => rfl
      | ok bytes =>
        have hroot : (runIdentityReconciliation crates env
            { head with overlay := staged.stagedGen } staged.scope
              head.store.nextRevision).2.root = head.root := rfl
        simp only [HeadState.identityDbPath, hroot]
        cases env.writeFault (head.root.join [".tyo3", "identity.db"]) with
        | some e => rfl
        | none => rfl

/-- A reconciling transaction. -/
theorem runStaged_reconciling (hrec : staged.reconcile = true) (hauth : staged.authored = none)
    (armed : Option String) :
    runStaged crates env head staged armed =
      match storeOutcome crates env head (reconciledRegistry crates env head staged) armed with
      | .error e => (.error e, { head with
          overlay := staged.stagedGen
          registry := reconciledRegistry crates env head staged
          codeLayer := producedLayer crates env head staged })
      | .ok bytes => (.ok (report crates env head staged),
          reconciledHead crates env head staged bytes) := by
  unfold runStaged
  dsimp only
  rw [identityStage_reconciling hrec armed]
  cases storeOutcome crates env head (reconciledRegistry crates env head staged) armed with
  | error e => rfl
  | ok bytes =>
    dsimp only
    unfold authoredStage
    rw [hauth]
    rfl

variable (crates env head)

/-- The version counter after planning a write. -/
def planCounter (m : Mutation) : ℕ := (buildPlan crates env head m).2.store.versionCounter

/-- Planning moves the counter and nothing else. -/
theorem buildPlan_snd (m : Mutation) :
    (buildPlan crates env head m).2 = idle head (planCounter crates env head m) head.armedFault := by
  obtain ⟨counter, hhead⟩ := buildPlan_head crates env head m
  unfold planCounter
  rw [hhead]
  rfl

variable {crates env head}

/-- A commit of a reconciling plan. -/
theorem commit_reconciling {m : Mutation} (hs : InStep head)
    (hplan : (buildPlan crates env head m).1 = .ok (some staged))
    (hrec : staged.reconcile = true) (hauth : staged.authored = none) :
    commit crates env head m =
      match storeOutcome crates env head
          (reconciledRegistry crates env (idle head (planCounter crates env head m) none) staged)
          head.armedFault with
      | .error e => (.error e, idle head (planCounter crates env head m) none)
      | .ok bytes =>
        (.ok (some (report crates env (idle head (planCounter crates env head m) none) staged)),
          reconciledHead crates env (idle head (planCounter crates env head m) none) staged
            bytes) := by
  have hpair : buildPlan crates env head m =
      (.ok (some staged), idle head (planCounter crates env head m) head.armedFault) :=
    Prod.ext hplan (buildPlan_snd crates env head m)
  have hrun := @runStaged_reconciling crates env
    (idle head (planCounter crates env head m) none) staged hrec hauth head.armedFault
  have hstart : { idle head (planCounter crates env head m) head.armedFault with
      armedFault := none } = idle head (planCounter crates env head m) none := rfl
  have hsame : storeOutcome crates env (idle head (planCounter crates env head m) none) =
      storeOutcome crates env head := rfl
  unfold commit
  rw [hpair]
  dsimp only
  rw [hstart, show (idle head (planCounter crates env head m) head.armedFault).armedFault =
    head.armedFault from rfl, hrun, hsame]
  cases storeOutcome crates env head (reconciledRegistry crates env
      (idle head (planCounter crates env head m) none) staged) head.armedFault with
  | ok bytes => rfl
  | error e =>
    dsimp only
    unfold rollback idle
    dsimp only
    rw [← show head.overlay = head.store.generation from hs]

end Closed

/-! ## Heads that differ in the code layer -/

section Layers

variable {crates : Crates} {env : Env} {head : HeadState} (layer : Layer)

/-- A head with another code layer. -/
def withLayer (head : HeadState) (layer : Layer) : HeadState := { head with codeLayer := layer }

/-- Watcher plans do not read the code layer. -/
theorem buildPollPlan_withLayer (events : List ChangeEvent) :
    (buildPollPlan crates env (withLayer head layer) events).1 =
        (buildPollPlan crates env head events).1 ∧
      (buildPollPlan crates env (withLayer head layer) events).2.store.versionCounter =
        (buildPollPlan crates env head events).2.store.versionCounter := by
  have hstore : (withLayer head layer).store = head.store := rfl
  have hunsaved : (withLayer head layer).unsavedOverlays = head.unsavedOverlays := rfl
  unfold buildPollPlan
  rw [hstore, hunsaved]
  split
  · exact ⟨rfl, rfl⟩
  · split
    · exact ⟨rfl, rfl⟩
    · dsimp only
      split
      · exact ⟨rfl, rfl⟩
      · exact ⟨rfl, rfl⟩

/-- Plans do not read the code layer. -/
theorem buildPlan_withLayer (m : Mutation) :
    (buildPlan crates env (withLayer head layer) m).1 = (buildPlan crates env head m).1 ∧
      planCounter crates env (withLayer head layer) m = planCounter crates env head m := by
  cases m with
  | overlay changes events created changed unsaved => exact ⟨rfl, rfl⟩
  | syncPath abs => exact ⟨rfl, rfl⟩
  | syncAll => exact ⟨rfl, rfl⟩
  | author name id value => exact ⟨rfl, rfl⟩
  | poll events =>
    obtain ⟨hplan, hcounter⟩ := @buildPollPlan_withLayer crates env head layer events
    exact ⟨congrArg Except.ok hplan, hcounter⟩

/-- An authored write does not read the code layer. -/
theorem commit_author_withLayer (name id : String) (value : Json) :
    (commit crates env (withLayer head layer) (.author name id value)).1 =
        (commit crates env head (.author name id value)).1 ∧
      (commit crates env (withLayer head layer) (.author name id value)).2 =
        withLayer (commit crates env head (.author name id value)).2 layer := by
  have hplan : authorPlan crates (withLayer head layer) name id value =
      authorPlan crates head name id value := rfl
  unfold commit buildPlan
  dsimp only
  rw [hplan]
  cases hstaged : authorPlan crates head name id value with
  | error e => exact ⟨rfl, rfl⟩
  | ok staged =>
    obtain ⟨lcfg, anchor, bytes, -, -, -, rfl⟩ := authorPlan_shape hstaged
    dsimp only [Except.map]
    unfold runStaged
    dsimp only
    rw [identityStage_skip rfl, identityStage_skip rfl]
    dsimp only
    unfold authoredStage writeAtomic
    dsimp only
    have harmed : (withLayer head layer).armedFault = head.armedFault := rfl
    rw [harmed]
    cases checkFault head.armedFault "authored_persist" with
    | error e => exact ⟨rfl, rfl⟩
    | ok _ =>
      dsimp only
      cases env.writeFault (head.recordPath name id) with
      | some e => exact ⟨rfl, rfl⟩
      | none => exact ⟨rfl, rfl⟩

/-- A commit publishes a reconciled registry. -/
def Reconciled (crates : Crates) (env : Env) (head : HeadState) (m : Mutation) : Prop :=
  ∃ staged dto, (buildPlan crates env head m).1 = .ok (some staged) ∧ staged.reconcile = true ∧
    (commit crates env head m).1 = .ok (some dto)

/-- A commit on a head with another code layer: the same without a published
reconciliation, else the two published heads and reports. -/
theorem commit_withLayer (hs : InStep head) (m : Mutation) :
    (¬ Reconciled crates env head m ∧
      (commit crates env (withLayer head layer) m).1 = (commit crates env head m).1 ∧
      (commit crates env (withLayer head layer) m).2 =
        withLayer (commit crates env head m).2 layer) ∨
    ∃ staged bytes, (buildPlan crates env head m).1 = .ok (some staged) ∧
      staged.reconcile = true ∧
      commit crates env head m =
        (.ok (some (report crates env (idle head (planCounter crates env head m) none) staged)),
          reconciledHead crates env (idle head (planCounter crates env head m) none) staged
            bytes) ∧
      commit crates env (withLayer head layer) m =
        (.ok (some (report crates env
            (withLayer (idle head (planCounter crates env head m) none) layer) staged)),
          reconciledHead crates env
            (withLayer (idle head (planCounter crates env head m) none) layer) staged bytes) := by
  have hplans := @buildPlan_withLayer crates env head layer m
  have hplain : ∀ result, (∀ staged, result ≠ .ok (some staged)) →
      (buildPlan crates env head m).1 = result →
      ¬ Reconciled crates env head m ∧
        (commit crates env (withLayer head layer) m).1 = (commit crates env head m).1 ∧
        (commit crates env (withLayer head layer) m).2 =
          withLayer (commit crates env head m).2 layer := by
    intro result hresult hplan
    have hquiet : ¬ Reconciled crates env head m := by
      rintro ⟨staged, dto, hsome, -, -⟩
      exact hresult staged (hplan.symm.trans hsome)
    refine ⟨hquiet, ?_⟩
    have hpair : buildPlan crates env head m =
        (result, idle head (planCounter crates env head m) head.armedFault) :=
      Prod.ext hplan (buildPlan_snd crates env head m)
    have hpair' : buildPlan crates env (withLayer head layer) m =
        (result, withLayer (idle head (planCounter crates env head m) head.armedFault) layer) := by
      refine Prod.ext (hplans.1.trans hplan) ?_
      rw [buildPlan_snd, hplans.2]
      rfl
    unfold commit
    rw [hpair, hpair']
    cases result with
    | error e => exact ⟨rfl, rfl⟩
    | ok plan =>
      cases plan with
      | none => exact ⟨rfl, rfl⟩
      | some staged => exact (hresult staged rfl).elim
  cases hplan : (buildPlan crates env head m).1 with
  | error e => exact .inl (hplain _ (fun staged h => by cases h) hplan)
  | ok plan =>
    cases plan with
    | none => exact .inl (hplain _ (fun staged h => by cases h) hplan)
    | some staged =>
      obtain ⟨hrec, hauth⟩ := buildPlan_staged crates env head hplan
      cases hm : reconciles m with
      | false =>
        cases m with
        | author name id value =>
          rw [hm] at hrec
          have hquiet : ¬ Reconciled crates env head (.author name id value) := by
            rintro ⟨staged', dto, hsome, htrue, -⟩
            rw [hplan] at hsome
            cases hsome
            rw [hrec] at htrue
            cases htrue
          exact .inl ⟨hquiet, commit_author_withLayer layer name id value⟩
        | overlay changes events created changed unsaved => cases hm
        | syncPath abs => cases hm
        | syncAll => cases hm
        | poll events => cases hm
      | true =>
        rw [hm] at hrec
        have hfirst := commit_reconciling hs hplan hrec (hauth hrec)
        have hs' : InStep (withLayer head layer) := hs
        have hsecond := commit_reconciling hs' (hplans.1.trans hplan) hrec (hauth hrec)
        rw [hplans.2] at hsecond
        have hstore : storeOutcome crates env (withLayer head layer) (reconciledRegistry crates env
            (idle (withLayer head layer) (planCounter crates env head m) none) staged)
            (withLayer head layer).armedFault =
            storeOutcome crates env head (reconciledRegistry crates env
              (idle head (planCounter crates env head m) none) staged) head.armedFault := rfl
        rw [hstore] at hsecond
        cases hbytes : storeOutcome crates env head (reconciledRegistry crates env
            (idle head (planCounter crates env head m) none) staged) head.armedFault with
        | error e =>
          rw [hbytes] at hfirst hsecond
          have hquiet : ¬ Reconciled crates env head m := by
            rintro ⟨staged', dto, -, -, hok⟩
            rw [hfirst] at hok
            cases hok
          left
          rw [hfirst, hsecond]
          exact ⟨hquiet, rfl, rfl⟩
        | ok bytes =>
          rw [hbytes] at hfirst hsecond
          exact .inr ⟨staged, bytes, rfl, hrec, hfirst, hsecond⟩

/-- A reconciling commit that builds the layer a full build gives, and deletes
no id that others depend on in the previous layer. -/
structure Rebuilds (crates : Crates) (env : Env) (head : HeadState) (staged : StagedCommit) :
    Prop where
  /-- The layer of a full build. -/
  layer : producedLayer crates env head staged =
    build (outputs crates (env.engine.answers staged.stagedGen)
      { head with
        overlay := staged.stagedGen
        registry := reconciledRegistry crates env head staged })
  /-- No dependents of deleted ids. -/
  dependents : ∀ id ∈ (reconciledDelta crates env head staged).deletedIds,
    head.codeLayer.sourcesOf id = ∅

/-- Over the empty layer everything is built. -/
theorem producedLayer_new (staged : StagedCommit) :
    producedLayer crates env (withLayer head Layer.new) staged =
      build (outputs crates (env.engine.answers staged.stagedGen)
        { head with
          overlay := staged.stagedGen
          registry := reconciledRegistry crates env head staged }) := by
  have hempty : Layer.new.isEmpty = true := by decide
  unfold producedLayer produceLayer
  cases staged.scope with
  | none => rfl
  | some scope =>
    have hnot : ¬ (staged.rescan = false ∧ (withLayer head Layer.new).codeLayer.isEmpty = false) := by
      rintro ⟨-, h⟩
      rw [show (withLayer head Layer.new).codeLayer.isEmpty = true from hempty] at h
      cases h
    dsimp only
    rw [if_neg hnot]
    rfl

/-- Such a commit has the same report and leaves the same head over the empty
layer. -/
theorem Rebuilds.withLayer_new {staged : StagedCommit} (h : Rebuilds crates env head staged)
    (bytes : Bytes) :
    report crates env (withLayer head Layer.new) staged = report crates env head staged ∧
      reconciledHead crates env (withLayer head Layer.new) staged bytes =
        reconciledHead crates env head staged bytes := by
  have hlayer : producedLayer crates env (withLayer head Layer.new) staged =
      producedLayer crates env head staged := by rw [producedLayer_new, h.layer]
  have hclosure : ∀ id ∈ (reconciledDelta crates env head staged).deletedIds.toFinset,
      (withLayer head Layer.new).codeLayer.sourcesOf id = head.codeLayer.sourcesOf id := by
    intro id hid
    rw [h.dependents id (List.mem_toFinset.mp hid)]
    rfl
  have haffected : affectedIdsOf (producedLayer crates env head staged)
      (withLayer head Layer.new).codeLayer (reconciledDelta crates env head staged) =
      affectedIdsOf (producedLayer crates env head staged) head.codeLayer
        (reconciledDelta crates env head staged) := by
    unfold affectedIdsOf
    rw [affectedClosure_congr_prev hclosure]
  have hdelta : reconciledDelta crates env (withLayer head Layer.new) staged =
      reconciledDelta crates env head staged := rfl
  constructor
  · unfold report
    rw [hlayer, hdelta, haffected]
    rfl
  · unfold reconciledHead
    rw [hlayer]
    rfl

end Layers

/-! ## What a session shows -/

/-- What is read from a snapshot. -/
structure View where
  /-- The pinned revision. -/
  revision : Revision
  /-- The published texts. -/
  texts : ContentMap
  /-- The authored values. -/
  values : String → String → AuthoredValue
  /-- The versions of the authored values. -/
  history : String → String → List (Json × Revision)
  /-- The ids to be reviewed. -/
  needsReview : List DurableId

/-- What a snapshot shows. -/
def viewOf (s : Snapshot) : View where
  revision := s.revision
  texts := s.generation
  values := s.authoredValue
  history := s.authoredHistory
  needsReview := s.needsReview

/-- A use of a session: a commit, or reads from a snapshot. -/
inductive Use where
  | commit (env : Env) (m : Mutation)
  | view (revision : Option Revision)

/-- What a use shows: the outcome of the commit, or what is read. -/
inductive Observation where
  | committed (result : Except CommitError (Option CommitDelta))
  | viewed (view : Except String View)

/-- What a use of a head shows. -/
def observe (crates : Crates) (head : HeadState) : Use → Observation
  | .commit env m => .committed (CommitFunnel.commit crates env head m).1
  | .view revision => .viewed ((snapshot head revision).map viewOf)

/-- The head after a use. -/
def afterUse (crates : Crates) (head : HeadState) : Use → HeadState
  | .commit env m => (CommitFunnel.commit crates env head m).2
  | .view _ => head

/-- What a sequence of uses shows. -/
def observations (crates : Crates) : HeadState → List Use → List Observation
  | _, [] => []
  | head, use :: uses => observe crates head use :: observations crates (afterUse crates head use) uses

/-- The first reconciliation that a sequence of uses publishes rebuilds the
code layer. -/
def FirstRebuilds (crates : Crates) : HeadState → List Use → Prop
  | _, [] => True
  | head, .view _ :: uses => FirstRebuilds crates head uses
  | head, .commit env m :: uses =>
    (Reconciled crates env head m → ∀ staged, (buildPlan crates env head m).1 = .ok (some staged) →
      Rebuilds crates env (idle head (planCounter crates env head m) none) staged) ∧
    (¬ Reconciled crates env head m →
      FirstRebuilds crates (CommitFunnel.commit crates env head m).2 uses)

/-- Snapshots show nothing of the code layer. -/
theorem snapshot_withLayer (head : HeadState) (layer : Layer) (revision : Option Revision) :
    (snapshot (withLayer head layer) revision).map viewOf = (snapshot head revision).map viewOf := by
  cases revision with
  | none => rfl
  | some r =>
    have hstore : (withLayer head layer).store = head.store := rfl
    unfold snapshot
    dsimp only
    rw [hstore]
    cases head.store.generationAt r with
    | none => rfl
    | some generation => rfl

/-- A session over the empty code layer shows what the session shows, as long
as its first reconciliation rebuilds the layer. -/
theorem observations_withLayer_new {crates : Crates} {head : HeadState} (hs : InStep head)
    {uses : List Use} (hfirst : FirstRebuilds crates head uses) :
    observations crates (withLayer head Layer.new) uses = observations crates head uses := by
  induction uses generalizing head with
  | nil => rfl
  | cons use uses ih =>
    unfold observations
    cases use with
    | view revision =>
      have hread := snapshot_withLayer head Layer.new revision
      have hrest := ih hs hfirst
      unfold observe afterUse
      dsimp only
      rw [hread, hrest]
    | commit env m =>
      unfold observe afterUse
      dsimp only
      rcases @commit_withLayer crates env head Layer.new hs m with
        ⟨hquiet, hresult, hhead⟩ | ⟨staged, bytes, hplan, hrec, hcommit, hcommit'⟩
      · have hrest := ih (hs.commit crates env m) (hfirst.2 hquiet)
        rw [hresult, hhead, hrest]
      · have hpublished : Reconciled crates env head m :=
          ⟨staged, _, hplan, hrec, congrArg Prod.fst hcommit⟩
        obtain ⟨hreport, hhead⟩ := (hfirst.1 hpublished staged hplan).withLayer_new bytes
        rw [hcommit, hcommit', hreport, hhead]

/-- An observation without the ids and files that a commit reports as
affected. -/
def Observation.plain : Observation → Observation
  | .committed (.ok (some delta)) =>
    .committed (.ok (some
      { delta with identity := { delta.identity with affectedIds := [], affectedFiles := [] } }))
  | other => other

/-- Only the affected ids and files of a report come from the code layer. -/
theorem plain_report_withLayer (crates : Crates) (env : Env) (head : HeadState) (layer : Layer)
    (staged : StagedCommit) :
    (Observation.committed (.ok (some
        (report crates env (withLayer head layer) staged)))).plain =
      (Observation.committed (.ok (some (report crates env head staged)))).plain := by
  have hdelta : reconciledDelta crates env (withLayer head layer) staged =
      reconciledDelta crates env head staged := rfl
  unfold report reportWith buildCommitDelta Observation.plain
  dsimp only
  rw [hdelta]
  rfl

/-- Two sessions that differ in the code layer differ in the affected ids and
files only. -/
theorem plain_observations_withLayer {crates : Crates} {head : HeadState} (hs : InStep head)
    (layer : Layer) (uses : List Use) :
    (observations crates (withLayer head layer) uses).map Observation.plain =
      (observations crates head uses).map Observation.plain := by
  induction uses generalizing head layer with
  | nil => rfl
  | cons use uses ih =>
    unfold observations
    rw [List.map_cons, List.map_cons]
    cases use with
    | view revision =>
      have hread := snapshot_withLayer head layer revision
      have hrest := ih hs layer
      unfold observe afterUse
      dsimp only
      rw [hread, hrest]
    | commit env m =>
      have hs' : InStep (commit crates env head m).2 := hs.commit crates env m
      unfold observe afterUse
      dsimp only
      rcases @commit_withLayer crates env head layer hs m with
        ⟨-, hresult, hhead⟩ | ⟨staged, bytes, -, -, hcommit, hcommit'⟩
      · rw [hresult, hhead, ih hs' layer]
      · rw [hcommit] at hs'
        have hhead : reconciledHead crates env
            (withLayer (idle head (planCounter crates env head m) none) layer) staged bytes =
            withLayer (reconciledHead crates env (idle head (planCounter crates env head m) none)
              staged bytes) (producedLayer crates env
                (withLayer (idle head (planCounter crates env head m) none) layer) staged) := rfl
        rw [hcommit, hcommit', hhead, plain_report_withLayer, ih hs']

/-- A session without records, buffers and faults is rebuilt up to its code
layer. -/
theorem reload_eq_withLayer {head : HeadState} (hs : InStep head) (hauthored : head.authored = ∅)
    (hunsaved : head.unsavedOverlays = ∅) (harmed : head.armedFault = none) :
    reload head = withLayer head Layer.new := by
  unfold reload buildHeadWithConfig withLayer
  rw [← hauthored, ← hunsaved, ← harmed, ← show head.overlay = head.store.generation from hs]

/-- A watcher event at an unsaved buffer leaves nothing to do. -/
theorem commit_poll_unsaved (crates : Crates) (env : Env) {head : HeadState} {p : SystemPath}
    (hp : p ∈ head.unsavedOverlays) :
    (buildPlan crates env head (.poll [.deleted p .file])).1 = .ok none ∧
      (commit crates env head (.poll [.deleted p .file])).1 = .ok none := by
  have hplan : buildPollPlan crates env head [.deleted p .file] = (none, head) := by
    unfold buildPollPlan
    simp [pollEvent, ChangeEvent.systemPath, ChangeEvent.isRescan, hp]
  unfold commit buildPlan
  dsimp only
  rw [hplan]
  exact ⟨rfl, rfl⟩

/-- Without the buffer the event is taken. -/
theorem commit_poll_saved (crates : Crates) (env : Env) {head : HeadState} {p : SystemPath}
    (hp : p ∉ head.unsavedOverlays) :
    (commit crates env head (.poll [.deleted p .file])).1 ≠ .ok none := by
  have hplan : ∃ staged head₁, buildPollPlan crates env head [.deleted p .file] =
      (some staged, head₁) := by
    unfold buildPollPlan
    simp [pollEvent, ChangeEvent.systemPath, ChangeEvent.isRescan, hp]
  obtain ⟨staged, head₁, hstaged⟩ := hplan
  unfold commit buildPlan
  dsimp only
  rw [hstaged]
  dsimp only
  split
  · intro hidle
    cases hidle
  · intro hidle
    cases hidle

/-- A reload forgets the authored records. -/
theorem plain_reload_ne_of_record {crates : Crates} {head : HeadState} {layer id : String}
    {rec : AuthoredRecord} (hrec : head.authored.lookup (layer, id) = some rec) :
    (observations crates (reload head) [.view none]).map Observation.plain ≠
      (observations crates head [.view none]).map Observation.plain := by
  intro hview
  simp only [observations, observe, snapshot, Except.map, List.map_cons, List.map_nil,
    Observation.plain, List.cons.injEq, Observation.viewed.injEq, Except.ok.injEq, and_true]
    at hview
  have hvalue := congrArg (fun v : View => (v.history layer id).length) hview
  have hlost : ((viewOf (headSnapshot (reload head))).history layer id).length = 0 := by
    simp [viewOf, headSnapshot, pin, reload, buildHeadWithConfig, Snapshot.authoredHistory]
  have hheld : ((viewOf (headSnapshot head)).history layer id).length ≠ 0 := by
    simp [viewOf, headSnapshot, pin, Snapshot.authoredHistory, hrec]
  exact hheld (hvalue.symm.trans hlost)

/-- A reload forgets the unsaved buffers. -/
theorem plain_reload_ne_of_buffer {crates : Crates} {head : HeadState} {p : SystemPath}
    (hp : p ∈ head.unsavedOverlays) (env : Env) :
    (observations crates (reload head) [.commit env (.poll [.deleted p .file])]).map
        Observation.plain ≠
      (observations crates head [.commit env (.poll [.deleted p .file])]).map
        Observation.plain := by
  intro hpolled
  have hquiet := (commit_poll_unsaved crates env hp).2
  have hfree : p ∉ (reload head).unsavedOverlays := by
    simp [reload, buildHeadWithConfig]
  have htaken := commit_poll_saved crates env hfree
  simp only [observations, observe, List.map_cons, List.map_nil, List.cons.injEq, and_true,
    hquiet] at hpolled
  generalize (commit crates env (reload head) (.poll [.deleted p .file])).1 = result
    at htaken hpolled
  cases result with
  | error e => simp [Observation.plain] at hpolled
  | ok delta =>
    cases delta with
    | none => exact htaken rfl
    | some delta => simp [Observation.plain] at hpolled

/-- A reload of a session without an armed fault is invisible to every later
sequence of commits and reads, exactly when the session holds no authored
record and no unsaved buffer. The ids and files that the commits report as
affected are then the same too when the first reconciliation rebuilds the code
layer. -/
theorem reload_invisible_iff {crates : Crates} {head : HeadState} (hr : Reachable crates head)
    (harmed : head.armedFault = none) :
    ((∀ uses, (observations crates (reload head) uses).map Observation.plain =
        (observations crates head uses).map Observation.plain) ↔
      head.authored = ∅ ∧ head.unsavedOverlays = ∅) ∧
    (head.authored = ∅ ∧ head.unsavedOverlays = ∅ →
      ∀ uses, FirstRebuilds crates head uses →
        observations crates (reload head) uses = observations crates head uses) := by
  have hs := inStep_of_reachable hr
  refine ⟨⟨fun hsame => ⟨?_, ?_⟩, ?_⟩, ?_⟩
  · apply Finmap.ext_lookup
    rintro ⟨layer, id⟩
    rw [Finmap.lookup_empty]
    by_contra hsome
    obtain ⟨rec, hrec⟩ := Option.ne_none_iff_exists'.mp hsome
    exact plain_reload_ne_of_record hrec (hsame [.view none])
  · rw [Finset.eq_empty_iff_forall_notMem]
    intro p hp
    exact plain_reload_ne_of_buffer hp (listedEnv [] ∅) (hsame _)
  · rintro ⟨hauthored, hunsaved⟩ uses
    rw [reload_eq_withLayer hs hauthored hunsaved harmed]
    exact plain_observations_withLayer hs Layer.new uses
  · rintro ⟨hauthored, hunsaved⟩ uses hfirst
    rw [reload_eq_withLayer hs hauthored hunsaved harmed]
    exact observations_withLayer_new hs hfirst

/-- A project of two modules is synced from disk and read as without the
reload. -/
theorem reload_invisible_two_modules :
    let uses := [Use.commit (listedEnv twoPaths twoModules) .syncAll, Use.view none]
    observations (listedCrates twoPaths) (reload twoHead) uses =
      observations (listedCrates twoPaths) twoHead uses := by
  intro uses
  have hreach : Reachable (listedCrates twoPaths) twoHead :=
    listedHead_reachable twoPaths twoModules ⟨["p"]⟩
  have hfirst : FirstRebuilds (listedCrates twoPaths) twoHead uses := by
    refine ⟨fun _ staged hplan => ?_, fun _ => trivial⟩
    have hdeleted : ((buildPlan (listedCrates twoPaths) (listedEnv twoPaths twoModules) twoHead
        .syncAll).1.toOption.join.map fun staged =>
          (reconciledDelta (listedCrates twoPaths) (listedEnv twoPaths twoModules)
            (idle twoHead (planCounter (listedCrates twoPaths) (listedEnv twoPaths twoModules)
              twoHead .syncAll) none) staged).deletedIds) = some [] := by
      decide +kernel
    rw [hplan] at hdeleted
    have hnone : (reconciledDelta (listedCrates twoPaths) (listedEnv twoPaths twoModules)
        (idle twoHead (planCounter (listedCrates twoPaths) (listedEnv twoPaths twoModules)
          twoHead .syncAll) none) staged).deletedIds = [] :=
      Option.some.inj hdeleted
    refine ⟨?_, fun id hid => ?_⟩
    · cases hplan
      rfl
    · rw [hnone] at hid
      cases hid
  exact (reload_invisible_iff hreach rfl).2 ⟨rfl, rfl⟩ uses hfirst

/-- After a reload a note is not read any more, and a watcher event deletes
the text of an unsaved buffer. -/
theorem reload_forgets :
    (∃ head, Reachable noteCrates head ∧ head.armedFault = none ∧
      observations noteCrates (reload head) [.view none] ≠
        observations noteCrates head [.view none]) ∧
    ∃ head p, Reachable (listedCrates twoPaths) head ∧ head.armedFault = none ∧
      p ∈ head.unsavedOverlays ∧
      observations (listedCrates twoPaths) (reload head)
          [.commit (listedEnv twoPaths twoModules) (.poll [.deleted p .file])] ≠
        observations (listedCrates twoPaths) head
          [.commit (listedEnv twoPaths twoModules) (.poll [.deleted p .file])] := by
  constructor
  · have hnote : (match firstNote with
        | .opened head => (head.authored.lookup ("notes", "A")).isSome && head.armedFault.isNone
        | .closed _ => false) = true := by decide +kernel
    have hopen := inOrder_firstNote.isOpen
    generalize firstNote = p at hnote hopen
    cases p with
    | closed files => cases hnote
    | opened head =>
      obtain ⟨hsome, hunarmed⟩ := Bool.and_eq_true_iff.mp hnote
      obtain ⟨rec, hrec⟩ := Option.isSome_iff_exists.mp hsome
      exact ⟨head, hopen.1, Option.isNone_iff_eq_none.mp hunarmed,
        fun hsame => plain_reload_ne_of_record hrec (congrArg (List.map Observation.plain) hsame)⟩
  · let b : SystemPath := ⟨["p", "b.py"]⟩
    let edit : Action := .commit (listedEnv twoPaths twoModules)
      (.overlay [.insert b "x = 999"] [.changed b .fileContent] [] [b.asStr] [b])
    have hreach : Reachable (listedCrates twoPaths) (edit.run (listedCrates twoPaths) twoHead) :=
      .step (listedHead_reachable twoPaths twoModules ⟨["p"]⟩) edit
    have hunarmed : (edit.run (listedCrates twoPaths) twoHead).armedFault = none := by
      decide +kernel
    have hmem : b ∈ (edit.run (listedCrates twoPaths) twoHead).unsavedOverlays := by
      decide +kernel
    exact ⟨_, b, hreach, hunarmed, hmem, fun hsame =>
      plain_reload_ne_of_buffer hmem _ (congrArg (List.map Observation.plain) hsame)⟩

end Tyo3.Reloading
