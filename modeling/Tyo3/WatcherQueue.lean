import Tyo3.DiskSync
import Tyo3.Runs

/-!
# The queue of the file watcher

The watcher appends the events it observes to a queue of their own lock. A
poll drains the queue and then commits the drained batch under the lock of
the head; in between the watcher, other polls and other writes go on. Every
event carries a number, so that what becomes of it can be told apart from
what becomes of an equal event.
-/

namespace Tyo3.WatcherQueue

open CommitAtomicity CommitFunnel CommitPlan ContentStore DiskSync Entities FiniteMaps
  IdentityAnchors IdentityPersistence Runs SystemPaths

/-- An observed event with its number. -/
abbrev Observation := ChangeEvent × ℕ

/-- The error of a poll. -/
inductive PollError
  /-- The project is closed. -/
  | projectClosed (message : String)
  /-- The commit failed. -/
  | commit (error : CommitError)
  deriving DecidableEq

/-- How a poll ended that had drained a batch. -/
inductive Ending
  /-- The commit published a revision. -/
  | published (batch : List Observation) (revision : Revision)
  /-- Nothing was left of the batch, given these unsaved buffers. -/
  | filtered (batch : List Observation) (unsaved : Finset SystemPath)
  /-- The poll raised an error. -/
  | failed (batch : List Observation) (error : PollError)
  deriving DecidableEq

/-- A project with its watcher queue and the polls under way. -/
structure Watched where
  /-- The head, absent once the project is closed. -/
  head : Option HeadState
  /-- Events not yet drained. -/
  pending : List Observation
  /-- Drained batches that are not yet committed, by thread. -/
  drained : FMap ℕ (List Observation)
  /-- Every event ever enqueued. -/
  enqueued : List Observation
  /-- How the polls so far ended. -/
  endings : List Ending

/-- What happens next. -/
inductive WatchStep
  /-- The watcher observes events. -/
  | enqueue (events : List ChangeEvent)
  /-- A poll drains the queue. -/
  | drain (poller : ℕ)
  /-- A poll commits its batch. -/
  | commit (poller : ℕ) (env : Env)
  /-- Another write is committed. -/
  | write (mutation : Mutation) (env : Env)
  /-- A fault is armed. -/
  | arm (stage : String)
  /-- The project is closed. -/
  | close

/-- A project just opened. -/
def Watched.opened (head : HeadState) : Watched := ⟨some head, [], ∅, [], []⟩

/-- The error of a poll on a closed project. -/
def closedError : PollError := .projectClosed "Project is closed — cannot call poll_changes()"

/-- The end of a poll that commits its batch. -/
def commitBatch (crates : Crates) (env : Env) (batch : List Observation) :
    Option HeadState → Ending × Option HeadState
  | none => (.failed batch closedError, none)
  | some head =>
    match commit crates env head (.poll (batch.map Prod.fst)) with
    | (.ok (some dto), head') => (.published batch dto.revision, some head')
    | (.ok none, head') => (.filtered batch head.unsavedOverlays, some head')
    | (.error e, head') => (.failed batch (.commit e), some head')

/-- One step of the watcher, a poll or a write. -/
def watchStep (crates : Crates) (s : Watched) : WatchStep → Watched
  | .enqueue events =>
    let observed := events.zipIdx s.enqueued.length
    { s with pending := s.pending ++ observed, enqueued := s.enqueued ++ observed }
  | .drain poller =>
    if s.pending = [] ∨ poller ∈ s.drained then s
    else { s with pending := [], drained := s.drained.insert poller s.pending }
  | .commit poller env =>
    match s.drained.lookup poller with
    | none => s
    | some batch =>
      let (ending, head) := commitBatch crates env batch s.head
      { s with
        head := head
        drained := s.drained.erase poller
        endings := s.endings ++ [ending] }
  | .write mutation env => { s with head := s.head.map fun head => (commit crates env head mutation).2 }
  | .arm stage => { s with head := s.head.map fun head => { head with armedFault := some stage } }
  | .close => { s with head := none }

/-- What may have become of an event: it waits, its batch waits for its commit,
its batch was published, or it was left out since it has no path or its path
had an unsaved buffer. -/
inductive Accounted (s : Watched) (event : Observation) : Prop
  | pending (h : event ∈ s.pending)
  | drained (poller : ℕ) (batch : List Observation) (hbatch : s.drained.lookup poller = some batch)
      (h : event ∈ batch)
  | published (batch : List Observation) (revision : Revision)
      (hending : .published batch revision ∈ s.endings) (h : event ∈ batch)
  | leftOut (batch : List Observation) (unsaved : Finset SystemPath)
      (hending : .filtered batch unsaved ∈ s.endings) (h : event ∈ batch)
      (hpath : ∀ path, event.1.systemPath = some path → path ∈ unsaved)

/-- A batch that a commit publishes: it asks for a rescan or keeps an event. -/
def Publishable (unsaved : Finset SystemPath) (batch : List Observation) : Prop :=
  ∃ event ∈ batch, event.1.isRescan = true ∨ isKept unsaved event.1 = true

instance (unsaved : Finset SystemPath) (batch : List Observation) :
    Decidable (Publishable unsaved batch) :=
  inferInstanceAs (Decidable (∃ event ∈ batch, event.1.isRescan = true ∨
    isKept unsaved event.1 = true))

/-- Nothing stands in the way of storing the registry: no fault is armed at its
stages, and the file can be written. -/
def CanPersist (env : Env) (head : HeadState) : Prop :=
  head.armedFault ≠ some "code_layer" ∧ head.armedFault ≠ some "identity_persist" ∧
    env.writeFault head.identityDbPath = none

/-- An event that a batch leaves out for a reason of its own: a file that was
opened in an editor. -/
def isOpening (unsaved : Finset SystemPath) : ChangeEvent → Bool
  | .opened path => decide (path ∉ unsaved)
  | _ => false

/-- A poll commits its batch on an open project where the registry can be
stored, if there is something to publish; else the batch holds no openings. -/
def KeepsBatch (s : Watched) : WatchStep → Prop
  | .commit poller env => ∀ batch ∈ s.drained.lookup poller, ∃ head ∈ s.head,
      if Publishable head.unsavedOverlays batch then CanPersist env head
      else ∀ event ∈ batch, isOpening head.unsavedOverlays event.1 = false
  | _ => True

/-! ## When the commit of a batch succeeds -/

section Commit

variable {crates : Crates} {env : Env} {head : HeadState}

theorem checkFault_of_ne {armed : Option String} {stage : String} (h : armed ≠ some stage) :
    checkFault armed stage = .ok () := if_neg h

/-- A registry that serialises is stored where its file can be written. -/
theorem persistIdentity_ne_error (hcodec : ∀ r, ∃ bytes, toBytes crates.codec r = .ok bytes)
    (hwrite : env.writeFault head.identityDbPath = none) (e : CommitError) :
    persistIdentity crates env head ≠ .error e := by
  obtain ⟨bytes, hbytes⟩ := hcodec head.registry
  simp only [persistIdentity, hbytes, writeAtomic, hwrite]
  nofun

/-- Identity is reconciled and stored where nothing stands in the way. -/
theorem identityStage_succeeds (hcodec : ∀ r, ∃ bytes, toBytes crates.codec r = .ok bytes)
    {staged : StagedCommit} {armed : Option String} (hcode : armed ≠ some "code_layer")
    (hidentity : armed ≠ some "identity_persist")
    (hwrite : env.writeFault head.identityDbPath = none) (nextRev : Revision) :
    ∃ identity head', identityStage crates env head staged nextRev armed = (.ok identity, head') := by
  unfold identityStage
  split
  · dsimp only
    rw [checkFault_of_ne hcode, checkFault_of_ne hidentity]
    dsimp only
    split
    · rename_i e herror
      refine absurd herror (persistIdentity_ne_error hcodec ?_ e)
      exact hwrite
    · exact ⟨_, _, rfl⟩
  · exact ⟨_, _, rfl⟩

/-- A plan without a record runs to its end where nothing stands in the way of
storing the registry. -/
theorem runStaged_succeeds (hcodec : ∀ r, ∃ bytes, toBytes crates.codec r = .ok bytes)
    {staged : StagedCommit} {armed : Option String} (hauth : staged.authored = none)
    (hcode : armed ≠ some "code_layer") (hidentity : armed ≠ some "identity_persist")
    (hwrite : env.writeFault head.identityDbPath = none) :
    ∃ dto head', runStaged crates env head staged armed = (.ok dto, head') := by
  obtain ⟨identity, head', hstage⟩ := @identityStage_succeeds crates env
    { head with overlay := staged.stagedGen } hcodec staged armed hcode hidentity hwrite
    head.store.nextRevision
  unfold runStaged
  dsimp only
  rw [hstage]
  simp only [authoredStage, hauth]
  exact ⟨_, _, rfl⟩

/-- A batch with something to publish is published where nothing stands in the
way of storing the registry. -/
theorem commit_poll_publishes (hcodec : ∀ r, ∃ bytes, toBytes crates.codec r = .ok bytes)
    {batch : List Observation} (hpublish : Publishable head.unsavedOverlays batch)
    (hpersist : CanPersist env head) :
    ∃ dto head', commit crates env head (.poll (batch.map Prod.fst)) = (.ok (some dto), head') := by
  obtain ⟨hcode, hidentity, hwrite⟩ := hpersist
  have hplan : ∃ staged, (buildPollPlan crates env head (batch.map Prod.fst)).1 = some staged := by
    cases hrescan : (batch.map Prod.fst).any ChangeEvent.isRescan with
    | true => exact ⟨_, congrArg Prod.fst (buildPollPlan_rescan hrescan)⟩
    | false =>
      have hkept : (batch.map Prod.fst).filter (isKept head.unsavedOverlays) ≠ [] := by
        intro hnone
        obtain ⟨event, hevent, hreason⟩ := hpublish
        have hmem : event.1 ∈ batch.map Prod.fst := List.mem_map_of_mem hevent
        rcases hreason with hr | hk
        · have hany := List.any_eq_true.mpr ⟨event.1, hmem, hr⟩
          rw [hrescan] at hany
          exact absurd hany (by simp)
        · have hfound := List.mem_filter.mpr ⟨hmem, hk⟩
          rw [hnone] at hfound
          exact absurd hfound (by simp)
      obtain ⟨staged, head₁, hplan, -⟩ := buildPollPlan_kept hrescan hkept
      exact ⟨staged, congrArg Prod.fst hplan⟩
  obtain ⟨staged, hstaged⟩ := hplan
  have hauth := (buildPollPlan_staged crates env head hstaged).2
  obtain ⟨n, hhead⟩ := buildPollPlan_head crates env head (batch.map Prod.fst)
  unfold commit
  rw [buildPlan_poll, hstaged, hhead]
  dsimp only
  obtain ⟨dto, head', hrun⟩ := @runStaged_succeeds crates env
    { head with store := { head.store with versionCounter := n }, armedFault := none } hcodec
    staged head.armedFault hauth hcode hidentity hwrite
  rw [hrun]
  exact ⟨dto, head', rfl⟩

/-- A batch without anything to publish leaves the project as it is. -/
theorem commit_poll_filtered {batch : List Observation}
    (hnone : ¬ Publishable head.unsavedOverlays batch) :
    commit crates env head (.poll (batch.map Prod.fst)) = (.ok none, head) := by
  have hall : ∀ event ∈ batch.map Prod.fst, event.isRescan = false ∧
      isKept head.unsavedOverlays event = false := by
    intro event hevent
    obtain ⟨observation, hmem, rfl⟩ := List.mem_map.mp hevent
    constructor
    · by_contra hr
      exact hnone ⟨observation, hmem, Or.inl (Bool.not_eq_false _ ▸ hr)⟩
    · by_contra hk
      exact hnone ⟨observation, hmem, Or.inr (Bool.not_eq_false _ ▸ hk)⟩
  have hno : (batch.map Prod.fst).any ChangeEvent.isRescan = false := by
    rw [List.any_eq_false]
    intro event hevent
    rw [(hall event hevent).1]
    simp
  have hkept : (batch.map Prod.fst).filter (isKept head.unsavedOverlays) = [] := by
    rw [List.filter_eq_nil_iff]
    intro event hevent
    rw [(hall event hevent).2]
    simp
  unfold commit
  rw [buildPlan_poll, buildPollPlan_idle hno hkept]

end Commit

/-! ## No event is lost -/

section Runs

variable {crates : Crates} {s : Watched}

/-- An event that nothing is published for and that is no opening has no path
or one with an unsaved buffer. -/
theorem path_mem_unsaved {unsaved : Finset SystemPath} {event : ChangeEvent}
    (hkept : isKept unsaved event = false) (hopening : isOpening unsaved event = false)
    {path : SystemPath} (hpath : event.systemPath = some path) : path ∈ unsaved := by
  cases event with
  | created p kind | changed p kind | deleted p kind =>
    have hp : p = path := Option.some.inj hpath
    simpa [isKept, writtenPath, hp] using hkept
  | opened p =>
    have hp : p = path := Option.some.inj hpath
    simpa [isOpening, hp] using hopening
  | createdVirtual | changedVirtual | deletedVirtual | rescan => exact absurd hpath (by
      simp [ChangeEvent.systemPath])

/-- The commit of a kept batch publishes it or leaves all its events out. -/
theorem commitBatch_ending (hcodec : ∀ r, ∃ bytes, toBytes crates.codec r = .ok bytes) {env : Env}
    {batch : List Observation} {head : HeadState}
    (hkeeps : if Publishable head.unsavedOverlays batch then CanPersist env head
      else ∀ event ∈ batch, isOpening head.unsavedOverlays event.1 = false) :
    (∃ revision, (commitBatch crates env batch (some head)).1 = .published batch revision) ∨
      ((commitBatch crates env batch (some head)).1 = .filtered batch head.unsavedOverlays ∧
        ∀ event ∈ batch, ∀ path, event.1.systemPath = some path → path ∈ head.unsavedOverlays) := by
  by_cases hpublish : Publishable head.unsavedOverlays batch
  · rw [if_pos hpublish] at hkeeps
    obtain ⟨dto, head', hcommit⟩ := commit_poll_publishes hcodec hpublish hkeeps
    simp only [commitBatch, hcommit]
    exact Or.inl ⟨dto.revision, rfl⟩
  · rw [if_neg hpublish] at hkeeps
    have hcommit := @commit_poll_filtered crates env head batch hpublish
    simp only [commitBatch, hcommit]
    refine Or.inr ⟨trivial, fun event hevent path hpath => ?_⟩
    have hkept : isKept head.unsavedOverlays event.1 = false := by
      by_contra hk
      exact hpublish ⟨event, hevent, Or.inr (Bool.not_eq_false _ ▸ hk)⟩
    exact path_mem_unsaved hkept (hkeeps event hevent) hpath

/-- A drain moves the waiting events into a batch of their own. -/
theorem Accounted.drain {event : Observation} (h : Accounted s event) (poller : ℕ) :
    Accounted (watchStep crates s (.drain poller)) event := by
  by_cases hidle : s.pending = [] ∨ poller ∈ s.drained
  · simp only [watchStep, if_pos hidle]
    exact h
  · simp only [watchStep, if_neg hidle]
    have hfree : s.drained.lookup poller = none :=
      Finmap.lookup_eq_none.mpr (not_or.mp hidle).2
    cases h with
    | pending h => exact .drained poller s.pending (Finmap.lookup_insert _) h
    | drained other batch hbatch h =>
      have hother : other ≠ poller := by
        rintro rfl
        rw [hfree] at hbatch
        exact absurd hbatch (by simp)
      exact .drained other batch ((Finmap.lookup_insert_of_ne _ hother).trans hbatch) h
    | published batch revision hending h => exact .published batch revision hending h
    | leftOut batch unsaved hending h hpath => exact .leftOut batch unsaved hending h hpath

/-- The commit of a kept batch loses no event. -/
theorem Accounted.commit (hcodec : ∀ r, ∃ bytes, toBytes crates.codec r = .ok bytes)
    {event : Observation} (h : Accounted s event) {poller : ℕ} {env : Env}
    (hkeeps : KeepsBatch s (.commit poller env)) :
    Accounted (watchStep crates s (.commit poller env)) event := by
  cases hbatch : s.drained.lookup poller with
  | none =>
    simp only [watchStep, hbatch]
    exact h
  | some batch =>
    simp only [watchStep, hbatch]
    obtain ⟨head, hhead, hkeeps⟩ := hkeeps batch hbatch
    have hending := commitBatch_ending hcodec hkeeps
    rw [← Option.mem_def.mp hhead] at hending
    have hnow : (commitBatch crates env batch s.head).1 ∈
        s.endings ++ [(commitBatch crates env batch s.head).1] :=
      List.mem_append_right _ List.mem_cons_self
    cases h with
    | pending h => exact .pending h
    | drained other found hfound h =>
      by_cases hother : other = poller
      · rw [hother, hbatch] at hfound
        rw [← Option.some.inj hfound] at h
        rcases hending with ⟨revision, hpublished⟩ | ⟨hfiltered, hpaths⟩
        · rw [hpublished] at hnow ⊢
          exact .published batch revision hnow h
        · rw [hfiltered] at hnow ⊢
          exact .leftOut batch _ hnow h (hpaths event h)
      · exact .drained other found ((Finmap.lookup_erase_ne hother).trans hfound) h
    | published found revision hending h =>
      exact .published found revision (List.mem_append_left _ hending) h
    | leftOut found unsaved hending h hpath =>
      exact .leftOut found unsaved (List.mem_append_left _ hending) h hpath

/-- Steps that touch neither queue nor polls lose no event. -/
theorem Accounted.congr {t : Watched} {event : Observation} (h : Accounted s event)
    (hpending : s.pending ⊆ t.pending) (hdrained : t.drained = s.drained)
    (hendings : t.endings = s.endings) : Accounted t event := by
  cases h with
  | pending h => exact .pending (hpending h)
  | drained poller batch hbatch h => exact .drained poller batch (hdrained ▸ hbatch) h
  | published batch revision hending h =>
    exact .published batch revision (hendings ▸ hending) h
  | leftOut batch unsaved hending h hpath =>
    exact .leftOut batch unsaved (hendings ▸ hending) h hpath

/-- One step loses no event, a commit as long as it keeps its batch. -/
theorem accounted_watchStep (hcodec : ∀ r, ∃ bytes, toBytes crates.codec r = .ok bytes)
    (s : Watched) (step : WatchStep) (hs : ∀ event ∈ s.enqueued, Accounted s event)
    (hkeeps : KeepsBatch s step) :
    ∀ event ∈ (watchStep crates s step).enqueued, Accounted (watchStep crates s step) event := by
  intro event hevent
  cases step with
  | enqueue events =>
    rcases List.mem_append.mp hevent with hold | hnew
    · exact (hs event hold).congr (List.subset_append_left _ _) rfl rfl
    · exact .pending (List.mem_append_right _ hnew)
  | drain poller =>
    have hold : event ∈ s.enqueued := by
      simp only [watchStep] at hevent
      split at hevent <;> exact hevent
    exact (hs event hold).drain poller
  | commit poller env =>
    have hold : event ∈ s.enqueued := by
      simp only [watchStep] at hevent
      split at hevent <;> exact hevent
    exact (hs event hold).commit hcodec hkeeps
  | write mutation env => exact (hs event hevent).congr (List.Subset.refl _) rfl rfl
  | arm stage => exact (hs event hevent).congr (List.Subset.refl _) rfl rfl
  | close => exact (hs event hevent).congr (List.Subset.refl _) rfl rfl

end Runs

/-- In every run whose polls keep their batches, every event ever enqueued
waits, is in a batch that waits for its commit or was published, or was left
out since it has no path or its path had an unsaved buffer. -/
theorem no_watcher_event_lost (crates : Crates)
    (hcodec : ∀ r, ∃ bytes, toBytes crates.codec r = .ok bytes) (head : HeadState)
    (steps : List WatchStep)
    (hkeeps : Along (watchStep crates) KeepsBatch (Watched.opened head) steps) :
    ∀ event ∈ (run (watchStep crates) (Watched.opened head) steps).enqueued,
      Accounted (run (watchStep crates) (Watched.opened head) steps) event :=
  invariant_run (accounted_watchStep hcodec) (fun _ hevent => absurd hevent List.not_mem_nil) hkeeps

/-- An edit of a module, as the watcher sees it. -/
def editedModule : ChangeEvent := .changed ⟨["p", "b.py"]⟩ .fileContent

/-- The disk after the edit. -/
def editedDisk : Disk := twoModules.insert ⟨["p", "b.py"]⟩ (.file "x = 333")

/-- A second event is observed while the first is on its way. -/
theorem no_watcher_event_lost_two_events :
    let s := run (watchStep (listedCrates twoPaths)) (Watched.opened twoHead)
      [.enqueue [editedModule], .drain 0, .enqueue [editedModule],
        .commit 0 (listedEnv twoPaths editedDisk)]
    s.pending = [(editedModule, 1)] ∧ ∀ event ∈ s.enqueued, Accounted s event := by
  intro s
  have hkeeps : Along (watchStep (listedCrates twoPaths)) KeepsBatch (Watched.opened twoHead)
      [.enqueue [editedModule], .drain 0, .enqueue [editedModule],
        .commit 0 (listedEnv twoPaths editedDisk)] := by
    refine ⟨trivial, trivial, trivial, ?_, trivial⟩
    intro batch hbatch
    refine ⟨twoHead, rfl, ?_⟩
    have hb : batch = [(editedModule, 0)] := (Option.some.inj hbatch).symm
    rw [hb, if_pos (by decide +kernel)]
    exact ⟨by decide +kernel, by decide +kernel, rfl⟩
  exact ⟨by decide +kernel, no_watcher_event_lost _ (fun _ => ⟨_, rfl⟩) _ _ hkeeps⟩

/-- The registry cannot be stored while a batch is committed: its event waits
nowhere, was not published and not left out. -/
theorem watcher_event_lost :
    let full : Env :=
      { listedEnv twoPaths editedDisk with writeFault := fun _ => some "No space left on device" }
    let s := run (watchStep (listedCrates twoPaths)) (Watched.opened twoHead)
      [.enqueue [editedModule], .drain 0, .commit 0 full]
    Reachable (listedCrates twoPaths) twoHead ∧ (editedModule, 0) ∈ s.enqueued ∧
      ¬ Accounted s (editedModule, 0) := by
  intro full s
  have hpending : s.pending = [] := rfl
  have hdrained : s.drained = ∅ := by decide +kernel
  have hendings : s.endings = [.failed [(editedModule, 0)] (.commit (.sidecarWrite
      "failed to persist identity registry at \"/p/.tyo3/identity.db\": No space left on device"))] := by
    decide +kernel
  refine ⟨listedHead_reachable _ _ _, List.mem_cons_self, fun h => ?_⟩
  cases h with
  | pending h =>
    rw [hpending] at h
    exact absurd h List.not_mem_nil
  | drained poller batch hbatch h =>
    rw [hdrained] at hbatch
    exact absurd hbatch (by simp)
  | published batch revision hending h =>
    rw [hendings] at hending
    exact absurd hending (by simp)
  | leftOut batch unsaved hending h hpath =>
    rw [hendings] at hending
    exact absurd hending (by simp)

end Tyo3.WatcherQueue
