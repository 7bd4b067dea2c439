import Tyo3.DiskSync

/-!
# Paths that content from disk binds

Opening a project and syncing all of it read relevant files only. A watcher
batch writes to the path of every event it keeps, relevant or not, so that
the invariant over whole runs rests on the events.
-/

namespace Tyo3.RelevantContent

open CommitAtomicity CommitFunnel CommitPlan ContentStore DiskSync Entities FiniteMaps SystemPaths

section Relevance

variable {crates : Crates}

/-- Every path with a document is relevant. -/
def BindsRelevant (crates : Crates) (m : ContentMap) : Prop :=
  ∀ p d, m.system.lookup p = some d → isProjectRelevant crates.pyExtension p = true

/-- The changes concern relevant paths only. -/
def ChangesRelevant (crates : Crates) (changes : List Change) : Prop :=
  ∀ c ∈ changes, ∀ p effect, c.effectAt p = some effect →
    isProjectRelevant crates.pyExtension p = true

/-- Relevant changes keep the invariant. -/
theorem BindsRelevant.foldl {changes : List Change} (hc : ChangesRelevant crates changes)
    {acc : ContentMap × ℕ} (h : BindsRelevant crates acc.1) :
    BindsRelevant crates (changes.foldl applyChange acc).1 := by
  intro p d hd
  rcases lookup_foldl_applyChange hd with hbefore | ⟨c, hmem, effect, heffect⟩
  · exact h p d hbefore
  · exact hc c hmem p effect heffect

/-- Reading relevant paths gives relevant changes. -/
theorem changesRelevant_readDiskChanges (disk : Disk) {paths : List SystemPath}
    (h : ∀ p ∈ paths, isProjectRelevant crates.pyExtension p = true) :
    ChangesRelevant crates (readDiskChanges disk paths) := by
  intro c hc p effect heffect
  have hmem : effect ∈ (readDiskChanges disk paths).filterMap (Change.effectAt p) :=
    List.mem_filterMap.mpr ⟨c, hc, heffect⟩
  rw [effects_readDiskChanges, List.mem_filterMap] at hmem
  obtain ⟨q, hq, hread⟩ := hmem
  by_cases hqp : q = p
  · exact hqp ▸ h q hq
  · rw [if_neg hqp] at hread
    cases hread

/-- Walked files are relevant. -/
theorem isProjectRelevant_of_mem_walk {disk : Disk} {root p : SystemPath}
    (h : p ∈ walkRelevantFiles crates.walk disk root (isProjectRelevant crates.pyExtension)) :
    isProjectRelevant crates.pyExtension p = true := by
  unfold walkRelevantFiles at h
  have haccepted := (List.mem_filter.mp h).2
  rw [Bool.and_eq_true] at haccepted
  exact haccepted.2

/-- Every generation of a store binds relevant paths only. -/
structure StoreRelevant (crates : Crates) (s : Store) : Prop where
  /-- The head generation. -/
  generation : BindsRelevant crates s.generation
  /-- The generations kept for time travel. -/
  retained : ∀ rev m, s.retained.lookup rev = some m → BindsRelevant crates m

/-- Keeping the head generation keeps the invariant. -/
theorem StoreRelevant.recordRetained {s : Store} (h : StoreRelevant crates s) :
    StoreRelevant crates s.recordRetained := by
  refine ⟨h.generation, ?_⟩
  intro rev m hm
  have hkept := lookup_of_iterate_dropOldest _ hm
  rw [lookup_insert_ite] at hkept
  split at hkept
  · cases hkept
    exact h.generation
  · exact h.retained rev m hkept

/-- Publishing a relevant generation keeps the invariant. -/
theorem StoreRelevant.publishStaged {s : Store} (h : StoreRelevant crates s)
    {generation : ContentMap} (hg : BindsRelevant crates generation) :
    StoreRelevant crates (s.publishStaged generation) :=
  StoreRelevant.recordRetained ⟨hg, h.retained⟩

/-- The first revision binds relevant paths only. -/
theorem storeRelevant_ingestProject (retainCap : ℕ) (disk : Disk) (root : SystemPath) :
    StoreRelevant crates ((Store.withRetainCap retainCap).ingestProject crates.walk disk root
      (isProjectRelevant crates.pyExtension)) := by
  have hempty : BindsRelevant crates ContentMap.new := by
    intro p d hd
    cases hd
  apply StoreRelevant.recordRetained
  refine ⟨?_, ?_⟩
  · exact BindsRelevant.foldl
      (changesRelevant_readDiskChanges disk fun p hp => isProjectRelevant_of_mem_walk hp) hempty
  · intro rev m hm
    have hfirst : ((∅ : FMap Revision ContentMap).insert 0 ContentMap.new).lookup rev = some m := hm
    rw [lookup_insert_ite] at hfirst
    split at hfirst
    · cases hfirst
      exact hempty
    · cases hfirst

/-- Every generation a head can show binds relevant paths only. -/
structure HeadRelevant (crates : Crates) (head : HeadState) : Prop where
  /-- The generations of the store. -/
  store : StoreRelevant crates head.store
  /-- The content the engine reads. -/
  overlay : BindsRelevant crates head.overlay

/-- A commit whose plan binds relevant paths only keeps the invariant. -/
theorem HeadRelevant.commit {head : HeadState} (hr : HeadRelevant crates head) (hs : InStep head)
    (env : Env) (m : Mutation)
    (hplan : ∀ staged, (buildPlan crates env head m).1 = .ok (some staged) →
      BindsRelevant crates staged.stagedGen) :
    HeadRelevant crates (CommitFunnel.commit crates env head m).2 := by
  have hatomic := commit_atomic_of_inStep crates env hs m
  cases hc : CommitFunnel.commit crates env head m with
  | mk result head' =>
    rw [hc] at hatomic
    have hsame : Unchanged head head' → HeadRelevant crates head' := by
      intro hu
      refine ⟨⟨?_, ?_⟩, ?_⟩
      · rw [hu.generation]
        exact hr.store.generation
      · rw [hu.retained]
        exact hr.store.retained
      · rw [hu.overlay]
        exact hr.overlay
    cases result with
    | error e => exact hsame hatomic
    | ok delta =>
      cases delta with
      | none => exact hsame hatomic
      | some dto =>
        obtain ⟨staged, hstaged, hstore, hoverlay⟩ := commit_publishes hc
        obtain ⟨n, hhead⟩ := buildPlan_head crates env head m
        have hgen := hplan staged hstaged
        refine ⟨?_, ?_⟩
        · show StoreRelevant crates head'.store
          rw [hstore, hhead]
          apply StoreRelevant.publishStaged _ hgen
          exact ⟨hr.store.generation, hr.store.retained⟩
        · show BindsRelevant crates head'.overlay
          rw [hoverlay]
          exact hgen

/-- A batch without a rescan keeps events at relevant paths only. -/
def RelevantBatch (crates : Crates) (head : HeadState) (events : List ChangeEvent) : Prop :=
  events.any ChangeEvent.isRescan = false →
    ∀ e ∈ events, ∀ p, writtenPath e = some p → p ∉ head.unsavedOverlays →
      isProjectRelevant crates.pyExtension p = true

/-- The write of an event concerns the path of the event. -/
theorem writtenPath_of_effectAt {disk : Disk} {unsaved : Finset SystemPath} {e : ChangeEvent}
    {c : Change} (hc : eventChange disk unsaved e = some c) {p : SystemPath}
    {effect : Option String} (h : c.effectAt p = some effect) :
    writtenPath e = some p ∧ p ∉ unsaved := by
  unfold eventChange at hc
  cases hw : writtenPath e with
  | none =>
    rw [hw] at hc
    cases hc
  | some q =>
    rw [hw] at hc
    dsimp only at hc
    by_cases hu : q ∈ unsaved
    · rw [if_pos hu] at hc
      cases hc
    · rw [if_neg hu] at hc
      have hqp : q = p := by
        by_contra hne
        split at hc
        · cases hc
          simp [Change.effectAt, hne] at h
        · cases hc
          rw [effectAt_diskChange, if_neg hne] at h
          cases h
      exact ⟨by rw [hqp], hqp ▸ hu⟩

/-- A relevant batch stages relevant paths only. -/
theorem bindsRelevant_poll {head : HeadState} (hr : HeadRelevant crates head) (env : Env)
    {events : List ChangeEvent} (hok : RelevantBatch crates head events) {staged : StagedCommit}
    (h : (buildPlan crates env head (.poll events)).1 = .ok (some staged)) :
    BindsRelevant crates staged.stagedGen := by
  rw [buildPlan_poll] at h
  cases hrescan : events.any ChangeEvent.isRescan with
  | true =>
    rw [buildPollPlan_rescan hrescan] at h
    cases h
    exact hr.store.generation
  | false =>
    by_cases hkept : events.filter (isKept head.unsavedOverlays) = []
    · rw [buildPollPlan_idle hrescan hkept] at h
      cases h
    · obtain ⟨staged', head₁, hplan, hgen, -, -⟩ :=
        @buildPollPlan_kept crates env head events hrescan hkept
      rw [hplan] at h
      cases h
      rw [hgen]
      apply BindsRelevant.foldl _ hr.store.generation
      intro c hc p effect heffect
      obtain ⟨e, he, hec⟩ := List.mem_filterMap.mp hc
      have hpath := writtenPath_of_effectAt hec heffect
      exact hok hrescan e he p hpath.1 hpath.2

/-- A sync of everything stages relevant paths only. -/
theorem bindsRelevant_syncAll {head : HeadState} (hr : HeadRelevant crates head) (env : Env)
    {staged : StagedCommit} (h : (buildPlan crates env head .syncAll).1 = .ok (some staged)) :
    BindsRelevant crates staged.stagedGen := by
  cases h
  apply BindsRelevant.foldl _ hr.store.generation
  apply changesRelevant_readDiskChanges
  intro p hp
  exact isProjectRelevant_of_mem_walk (List.mem_filter.mp hp).1

/-- The runs in which all content comes from disk: opening, syncs of
everything and watcher batches of a kind. -/
inductive DiskRun (crates : Crates) (ok : HeadState → List ChangeEvent → Prop) : HeadState → Prop
  | opened {env : Env} {o : Opening} {head : HeadState} (h : openHead crates env o = .ok head) :
    DiskRun crates ok head
  | syncAll {head : HeadState} (h : DiskRun crates ok head) (env : Env) :
    DiskRun crates ok (commit crates env head .syncAll).2
  | poll {head : HeadState} (h : DiskRun crates ok head) (env : Env) {events : List ChangeEvent}
    (hok : ok head events) : DiskRun crates ok (commit crates env head (.poll events)).2

/-- Such a run is a session. -/
theorem DiskRun.reachable {ok : HeadState → List ChangeEvent → Prop} {head : HeadState}
    (h : DiskRun crates ok head) : Reachable crates head := by
  induction h with
  | opened h => exact .opened h
  | syncAll _ env ih => exact ih.step (.commit env .syncAll)
  | @poll head _ env events _ ih => exact ih.step (.commit env (.poll events))

/-- Opening binds relevant paths only. -/
theorem headRelevant_openHead {env : Env} {o : Opening} {head : HeadState}
    (h : openHead crates env o = .ok head) : HeadRelevant crates head := by
  have hstore := @storeRelevant_ingestProject crates o.retainCap env.disk o.root
  unfold openHead at h
  dsimp only at h
  split at h
  · cases h
  · rename_i head₁ hpersist
    obtain ⟨bytes, -, hhead⟩ := persistIdentity_ok hpersist
    cases h
    subst hhead
    exact ⟨hstore, hstore.generation⟩

/-- Runs whose batches are relevant keep the invariant. -/
theorem headRelevant_of_diskRun {head : HeadState}
    (h : DiskRun crates (RelevantBatch crates) head) : HeadRelevant crates head := by
  induction h with
  | opened h => exact headRelevant_openHead h
  | syncAll hrun env ih =>
    exact ih.commit (inStep_of_reachable hrun.reachable) env .syncAll
      fun staged hplan => bindsRelevant_syncAll ih env hplan
  | poll hrun env hok ih =>
    exact ih.commit (inStep_of_reachable hrun.reachable) env _
      fun staged hplan => bindsRelevant_poll ih env hok hplan

/-- A relevant batch of sidecar events publishes nothing. -/
theorem commit_poll_sidecar {head : HeadState} (env : Env) {events : List ChangeEvent}
    (hok : RelevantBatch crates head events)
    (hside : ∀ e ∈ events, ∃ p, e.systemPath = some p ∧ ".tyo3" ∈ p.components) :
    commit crates env head (.poll events) = (.ok none, head) := by
  have hno : events.any ChangeEvent.isRescan = false := by
    rw [List.any_eq_false]
    intro e he hrescan
    obtain ⟨p, hp, -⟩ := hside e he
    rw [of_decide_eq_true hrescan] at hp
    cases hp
  have hkept : events.filter (isKept head.unsavedOverlays) = [] := by
    rw [List.filter_eq_nil_iff]
    intro e he hk
    obtain ⟨p, hp, hcomp⟩ := hside e he
    unfold isKept at hk
    cases hw : writtenPath e with
    | none =>
      rw [hw] at hk
      cases hk
    | some q =>
      rw [hw] at hk
      have hqp : q = p := by
        cases e <;> simp_all [writtenPath, ChangeEvent.systemPath]
      have hrel := hok hno e he q hw (of_decide_eq_true hk)
      exact not_mem_of_isProjectRelevant hrel (hqp ▸ hcomp)
  unfold commit
  rw [buildPlan_poll, buildPollPlan_idle hno hkept]

/-- In every run from disk whose batches keep events at relevant paths only,
every generation binds relevant paths only, none of them in the sidecar, and
events in the sidecar publish nothing. -/
theorem relevant_of_diskRun {head : HeadState} (h : DiskRun crates (RelevantBatch crates) head) :
    (∀ m, m = head.overlay ∨ m = head.store.generation ∨
        (∃ rev, head.store.retained.lookup rev = some m) →
      ∀ p d, m.system.lookup p = some d →
        isProjectRelevant crates.pyExtension p = true ∧ ".tyo3" ∉ p.components) ∧
    ∀ env events, RelevantBatch crates head events →
      (∀ e ∈ events, ∃ p, e.systemPath = some p ∧ ".tyo3" ∈ p.components) →
      commit crates env head (.poll events) = (.ok none, head) := by
  have hrel := headRelevant_of_diskRun h
  have hbinds : ∀ m, m = head.overlay ∨ m = head.store.generation ∨
      (∃ rev, head.store.retained.lookup rev = some m) → BindsRelevant crates m := by
    intro m hm
    rcases hm with hoverlay | hgeneration | ⟨rev, hrev⟩
    · rw [hoverlay]
      exact hrel.overlay
    · rw [hgeneration]
      exact hrel.store.generation
    · exact hrel.store.retained rev m hrev
  constructor
  · intro m hm p d hd
    have hp := hbinds m hm p d hd
    exact ⟨hp, not_mem_of_isProjectRelevant hp⟩
  · intro env events hok hside
    exact commit_poll_sidecar env hok hside

end Relevance

/-- The head of the two modules after a batch at the second one. -/
theorem relevant_of_diskRun_two_modules :
    let head := (commit (listedCrates twoPaths) (listedEnv twoPaths twoModules) twoHead
      (.poll [.changed ⟨["p", "b.py"]⟩ .any])).2
    ∀ p d, head.store.generation.system.lookup p = some d →
      isProjectRelevant (listedCrates twoPaths).pyExtension p = true ∧ ".tyo3" ∉ p.components := by
  intro head
  have hopen : openHead (listedCrates twoPaths) (listedEnv twoPaths twoModules)
      (freshOpening ⟨["p"]⟩) = .ok twoHead := rfl
  have hok : RelevantBatch (listedCrates twoPaths) twoHead [.changed ⟨["p", "b.py"]⟩ .any] := by
    intro _ e he p hp _
    rw [List.mem_singleton.mp he] at hp
    cases hp
    decide
  exact (relevant_of_diskRun ((DiskRun.opened hopen).poll _ hok)).1 _ (Or.inr (Or.inl rfl))

/-- An event at the stored registry binds its path and publishes a revision. -/
theorem not_relevant_sidecar_event :
    let db : SystemPath := ⟨["p", ".tyo3", "identity.db"]⟩
    let disk := twoModules.insert db (.file "\x7b\x7d")
    let head := (commit (listedCrates twoPaths) (listedEnv twoPaths disk) twoHead
      (.poll [.changed db .any])).2
    DiskRun (listedCrates twoPaths) (fun _ _ => True) head ∧
      (∃ d, head.store.generation.system.lookup db = some d) ∧
      isProjectRelevant (listedCrates twoPaths).pyExtension db = false ∧
      head.store.revision = twoHead.store.revision + 1 := by
  intro db disk head
  have hopen : openHead (listedCrates twoPaths) (listedEnv twoPaths twoModules)
      (freshOpening ⟨["p"]⟩) = .ok twoHead := rfl
  refine ⟨(DiskRun.opened hopen).poll _ trivial, ⟨.text "\x7b\x7d" 3, ?_⟩, by decide, by decide +kernel⟩
  decide +kernel

end Tyo3.RelevantContent
