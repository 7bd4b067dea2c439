import Tyo3.CommitAtomicity

/-!
# Content and disk

Two writes bring the content of a session up to the disk: a sync of
everything and a batch of watcher events. Each is reduced to what it leaves
at one path, and from that follows exactly when the published generation
agrees with the disk.
-/

namespace Tyo3.DiskSync

open CommitAtomicity CommitFunnel CommitPlan ContentStore Entities FiniteMaps IdentityAnchors
  SystemPaths

/-! ## What a planned write publishes -/

/-- A successful commit publishes the generation of its plan. -/
theorem commit_publishes {crates : Crates} {env : Env} {head head' : HeadState} {m : Mutation}
    {dto : CommitDelta} (h : commit crates env head m = (.ok (some dto), head')) :
    ∃ staged, (buildPlan crates env head m).1 = .ok (some staged) ∧
      head'.store = (buildPlan crates env head m).2.store.publishStaged staged.stagedGen ∧
      head'.overlay = staged.stagedGen := by
  unfold commit at h
  cases hplan : buildPlan crates env head m with
  | mk result head₁ =>
    rw [hplan] at h
    cases result with
    | error e => cases h
    | ok plan =>
      cases plan with
      | none => cases h
      | some staged =>
        dsimp only at h
        split at h
        · rename_i dto' head₂ hrun
          have hok := runStaged_ok hrun
          cases h
          exact ⟨staged, rfl, hok.1, hok.2.1⟩
        · cases h

/-- The published generation is the one of the plan. -/
theorem commit_generation {crates : Crates} {env : Env} {head head' : HeadState} {m : Mutation}
    {dto : CommitDelta} (h : commit crates env head m = (.ok (some dto), head')) :
    ∃ staged, (buildPlan crates env head m).1 = .ok (some staged) ∧
      head'.store.generation = staged.stagedGen := by
  obtain ⟨staged, hplan, hstore, -⟩ := commit_publishes h
  exact ⟨staged, hplan, by rw [hstore, publishStaged_generation]⟩

/-- What reading a path leaves there: a text, a mark of absence, or nothing
for a file that cannot be read. -/
def readEffect (disk : Disk) (p : SystemPath) : Option (Option String) :=
  match readToString disk p with
  | .ok text => some (some text)
  | .error .notFound => some none
  | .error .other => none

/-- The writes of a list of read paths, seen from one path. -/
theorem effects_readDiskChanges (disk : Disk) (paths : List SystemPath) (p : SystemPath) :
    (readDiskChanges disk paths).filterMap (Change.effectAt p) =
      paths.filterMap fun q => if q = p then readEffect disk q else none := by
  unfold readDiskChanges
  rw [List.filterMap_filterMap]
  apply List.filterMap_congr
  intro q _
  unfold readEffect
  by_cases hq : q = p
  · rw [if_pos hq]
    cases hr : readToString disk q with
    | ok text => simp [Change.effectAt, hq]
    | error e => cases e <;> simp [Change.effectAt, hq]
  · rw [if_neg hq]
    cases hr : readToString disk q with
    | ok text => simp [Change.effectAt, hq]
    | error e => cases e <;> simp [Change.effectAt, hq]

/-- The last write of a list of read paths that concerns a path. -/
theorem getLast_effects_readDiskChanges (disk : Disk) (paths : List SystemPath) (p : SystemPath) :
    ((readDiskChanges disk paths).filterMap (Change.effectAt p)).getLast? =
      if p ∈ paths then readEffect disk p else none := by
  rw [effects_readDiskChanges]
  induction paths using List.reverseRecOn with
  | nil => rfl
  | append_singleton paths q ih =>
    rw [List.filterMap_append, List.getLast?_append, ih]
    by_cases hq : q = p
    · subst hq
      have hmem : q ∈ paths ++ [q] := List.mem_append_right _ List.mem_cons_self
      rw [if_pos hmem]
      cases hr : readEffect disk q with
      | none => simp [hr]
      | some effect => simp [hr]
    · have hmem : p ∈ paths ++ [q] ↔ p ∈ paths := by simp [Ne.symm hq]
      simp [hmem, hq]

/-- The generation holds exactly the readable text of the disk at a path. -/
def AgreesAt (disk : Disk) (m : ContentMap) (p : SystemPath) : Prop := m.textAt p = diskText disk p

instance (disk : Disk) (m : ContentMap) (p : SystemPath) : Decidable (AgreesAt disk m p) :=
  inferInstanceAs (Decidable (_ = _))

/-! ## Syncing everything -/

/-- The generation agrees with the disk at a path: the text of a readable
file, and no text where no file stands. -/
def SyncedAt (disk : Disk) (m : ContentMap) (p : SystemPath) : Prop :=
  (∀ text, diskText disk p = some text → m.textAt p = some text) ∧
    (isFile disk p = false → m.textAt p = none)

/-- The paths a sync of everything is responsible for. -/
def Responsible (crates : Crates) (head : HeadState) (p : SystemPath) : Prop :=
  isProjectRelevant crates.pyExtension p = true ∧ p.isUnder head.root = true ∧
    p ∉ head.unsavedOverlays

instance (crates : Crates) (head : HeadState) (p : SystemPath) :
    Decidable (Responsible crates head p) :=
  inferInstanceAs (Decidable (_ ∧ _ ∧ _))

/-- What a sync of everything leaves at a path without an unsaved buffer. -/
theorem textAt_syncAll {crates : Crates} {env : Env} {head head' : HeadState} {dto : CommitDelta}
    (h : commit crates env head .syncAll = (.ok (some dto), head')) {p : SystemPath}
    (hp : Responsible crates head p) :
    head'.store.generation.textAt p =
      (if p ∈ crates.walk env.disk head.root ∧ isFile env.disk p = true then
        readEffect env.disk p else none).getD (head.store.generation.textAt p) := by
  obtain ⟨staged, hplan, hgen⟩ := commit_generation h
  have hstaged : staged.stagedGen = (head.store.stageReingest crates.walk env.disk head.root
      (isProjectRelevant crates.pyExtension) head.unsavedOverlays).1 := by
    cases hplan
    rfl
  have hmem : p ∈ (walkRelevantFiles crates.walk env.disk head.root
      (isProjectRelevant crates.pyExtension)).filter (fun q => q ∉ head.unsavedOverlays) ↔
      p ∈ crates.walk env.disk head.root ∧ isFile env.disk p = true := by
    unfold walkRelevantFiles
    simp [hp.1, hp.2.2]
  rw [hgen, hstaged]
  unfold Store.stageReingest
  rw [textAt_stage, getLast_effects_readDiskChanges]
  simp only [hmem]

/-- A readable file is a file. -/
theorem isFile_of_diskText {disk : Disk} {p : SystemPath} {text : String}
    (h : diskText disk p = some text) : isFile disk p = true := by
  unfold diskText at h
  unfold isFile
  split at h
  · rename_i heq
    rw [heq]
  · cases h

/-- Reading a readable file leaves its text. -/
theorem readEffect_of_diskText {disk : Disk} {p : SystemPath} {text : String}
    (h : diskText disk p = some text) : readEffect disk p = some (some text) := by
  unfold readEffect
  rw [readToString_ok.mpr h]

/-- A sync of everything leaves the disk text at every path it is responsible
for exactly when each readable file is walked or already up to date, and no
text stood where the file is gone. -/
theorem syncAll_synced_iff {crates : Crates} {env : Env} {head head' : HeadState}
    {dto : CommitDelta} (h : commit crates env head .syncAll = (.ok (some dto), head')) :
    (∀ p, Responsible crates head p → SyncedAt env.disk head'.store.generation p) ↔
      ∀ p, Responsible crates head p →
        (∀ text, diskText env.disk p = some text →
          p ∈ crates.walk env.disk head.root ∨ head.store.generation.textAt p = some text) ∧
        (isFile env.disk p = false → head.store.generation.textAt p = none) := by
  constructor
  · intro hsync p hp
    have hafter := textAt_syncAll h hp
    have hsynced := hsync p hp
    constructor
    · intro text htext
      by_cases hw : p ∈ crates.walk env.disk head.root
      · exact Or.inl hw
      · right
        rw [if_neg (fun hc => hw hc.1), Option.getD_none] at hafter
        rw [← hafter]
        exact hsynced.1 text htext
    · intro habsent
      rw [if_neg (fun hc => by rw [habsent] at hc; cases hc.2), Option.getD_none] at hafter
      rw [← hafter]
      exact hsynced.2 habsent
  · intro hcond p hp
    have hafter := textAt_syncAll h hp
    have hp' := hcond p hp
    constructor
    · intro text htext
      rw [hafter]
      by_cases hw : p ∈ crates.walk env.disk head.root
      · rw [if_pos ⟨hw, isFile_of_diskText htext⟩, readEffect_of_diskText htext]
        rfl
      · rw [if_neg (fun hc => hw hc.1), Option.getD_none]
        exact (hp'.1 text htext).resolve_left hw
    · intro habsent
      rw [hafter, if_neg (fun hc => by rw [habsent] at hc; cases hc.2), Option.getD_none]
      exact hp'.2 habsent

/-- A disk of two modules. -/
def twoModules : Disk :=
  ((∅ : Disk).insert ⟨["p", "a.py"]⟩ (.file "x = 1")).insert ⟨["p", "b.py"]⟩ (.file "x = 22")

/-- The paths of the two modules. -/
def twoPaths : List SystemPath := [⟨["p", "a.py"]⟩, ⟨["p", "b.py"]⟩]

/-- A project of two modules, opened. -/
def twoHead : HeadState := listedHead twoPaths twoModules ⟨["p"]⟩

/-- Opening has read both modules. -/
theorem textAt_twoHead (p : SystemPath) :
    twoHead.store.generation.textAt p = diskText twoModules p := by
  have hgen : twoHead.store.generation =
      ⟨((∅ : FMap SystemPath Document).insert ⟨["p", "a.py"]⟩ (.text "x = 1" 1)).insert
        ⟨["p", "b.py"]⟩ (.text "x = 22" 2), ∅⟩ := by decide +kernel
  rw [hgen]
  unfold ContentMap.textAt diskText twoModules
  dsimp only
  simp only [lookup_insert_ite]
  by_cases hb : p = ⟨["p", "b.py"]⟩
  · simp [hb, Document.textOf]
  · by_cases ha : p = ⟨["p", "a.py"]⟩
    · simp [ha, Document.textOf]
    · simp [ha, hb]

/-- Content and disk agree where the disk did not change since. -/
theorem agreesAt_twoHead {disk : Disk} {p : SystemPath}
    (h : disk.lookup p = twoModules.lookup p) :
    AgreesAt disk twoHead.store.generation p := by
  unfold AgreesAt
  rw [textAt_twoHead]
  unfold diskText
  rw [h]

/-- An edited module is read again. -/
theorem syncAll_synced_edited_file :
    let disk := twoModules.insert ⟨["p", "b.py"]⟩ (.file "x = 333")
    let result := commit (listedCrates twoPaths) (listedEnv twoPaths disk) twoHead .syncAll
    ∃ dto, result = (.ok (some dto), result.2) ∧
      ((∀ p, Responsible (listedCrates twoPaths) twoHead p →
          SyncedAt disk result.2.store.generation p) ↔
        ∀ p, Responsible (listedCrates twoPaths) twoHead p →
          (∀ text, diskText disk p = some text →
            p ∈ (listedCrates twoPaths).walk disk ⟨["p"]⟩ ∨
              twoHead.store.generation.textAt p = some text) ∧
          (isFile disk p = false → twoHead.store.generation.textAt p = none)) :=
  ⟨_, rfl, @syncAll_synced_iff (listedCrates twoPaths)
    (listedEnv twoPaths (twoModules.insert ⟨["p", "b.py"]⟩ (.file "x = 333"))) twoHead _ _ rfl⟩

/-- A module removed from disk keeps its text. -/
theorem syncAll_not_synced_removed_file :
    let disk := twoModules.erase ⟨["p", "b.py"]⟩
    let result := commit (listedCrates twoPaths) (listedEnv twoPaths disk) twoHead .syncAll
    Reachable (listedCrates twoPaths) twoHead ∧ (∃ dto, result = (.ok (some dto), result.2)) ∧
      Responsible (listedCrates twoPaths) twoHead ⟨["p", "b.py"]⟩ ∧
      ¬SyncedAt disk result.2.store.generation ⟨["p", "b.py"]⟩ := by
  refine ⟨listedHead_reachable _ _ _, ⟨_, rfl⟩, by decide +kernel, ?_⟩
  intro hsync
  have habsent := hsync.2 (by decide +kernel)
  exact absurd habsent (by decide +kernel)

/-! ## Watcher batches -/

/-- The path an event writes to: created, changed and deleted events do. -/
def writtenPath : ChangeEvent → Option SystemPath
  | .created path _ => some path
  | .changed path _ => some path
  | .deleted path _ => some path
  | _ => none

/-- Whether an event is a deletion. -/
def isDeletion : ChangeEvent → Bool
  | .deleted _ _ => true
  | _ => false

/-- Whether a batch keeps an event: it writes to a path without an unsaved
buffer. -/
def isKept (unsaved : Finset SystemPath) (event : ChangeEvent) : Bool :=
  match writtenPath event with
  | none => false
  | some path => decide (path ∉ unsaved)

/-- The write of one event. -/
def eventChange (disk : Disk) (unsaved : Finset SystemPath) (event : ChangeEvent) :
    Option Change :=
  match writtenPath event with
  | none => none
  | some path =>
    if path ∈ unsaved then none
    else if isDeletion event then some (.delete path)
    else some (diskChange path (readToString disk path))

/-- One event adds its write and itself, or nothing. -/
theorem pollEvent_adds (disk : Disk) (unsaved : Finset SystemPath) (batch : PollBatch)
    (event : ChangeEvent) :
    (pollEvent disk unsaved batch event).storeChanges =
        batch.storeChanges ++ (eventChange disk unsaved event).toList ∧
      (pollEvent disk unsaved batch event).keptEvents =
        batch.keptEvents ++ [event].filter (isKept unsaved) := by
  cases event with
  | created path kind =>
    by_cases hu : path ∈ unsaved <;>
      simp [pollEvent, eventChange, isKept, writtenPath, isDeletion, ChangeEvent.systemPath, hu]
  | changed path kind =>
    by_cases hu : path ∈ unsaved <;>
      simp [pollEvent, eventChange, isKept, writtenPath, isDeletion, ChangeEvent.systemPath, hu]
  | deleted path kind =>
    by_cases hu : path ∈ unsaved <;>
      simp [pollEvent, eventChange, isKept, writtenPath, isDeletion, ChangeEvent.systemPath, hu]
  | opened path =>
    by_cases hu : path ∈ unsaved <;>
      simp [pollEvent, eventChange, isKept, writtenPath, ChangeEvent.systemPath, hu]
  | createdVirtual path =>
    simp [pollEvent, eventChange, isKept, writtenPath, ChangeEvent.systemPath]
  | changedVirtual path =>
    simp [pollEvent, eventChange, isKept, writtenPath, ChangeEvent.systemPath]
  | deletedVirtual path =>
    simp [pollEvent, eventChange, isKept, writtenPath, ChangeEvent.systemPath]
  | rescan => simp [pollEvent, eventChange, isKept, writtenPath, ChangeEvent.systemPath]

/-- The writes and the kept events of a folded batch. -/
theorem foldl_pollEvent (disk : Disk) (unsaved : Finset SystemPath) (events : List ChangeEvent)
    (batch : PollBatch) :
    (events.foldl (pollEvent disk unsaved) batch).storeChanges =
        batch.storeChanges ++ events.filterMap (eventChange disk unsaved) ∧
      (events.foldl (pollEvent disk unsaved) batch).keptEvents =
        batch.keptEvents ++ events.filter (isKept unsaved) := by
  induction events generalizing batch with
  | nil => simp
  | cons event events ih =>
    have hstep := pollEvent_adds disk unsaved batch event
    rw [List.foldl_cons, (ih _).1, (ih _).2, hstep.1, hstep.2]
    constructor
    · cases hc : eventChange disk unsaved event with
      | none => simp [hc]
      | some change => simp [hc]
    · rw [List.append_assoc, ← List.filter_append]
      rfl

section PollPlan

variable {crates : Crates} {env : Env} {head : HeadState} {events : List ChangeEvent}

/-- A watcher write is planned by its batch. -/
theorem buildPlan_poll : buildPlan crates env head (.poll events) =
    (.ok (buildPollPlan crates env head events).1, (buildPollPlan crates env head events).2) := rfl

/-- A batch with a rescan stages the current content. -/
theorem buildPollPlan_rescan (h : events.any ChangeEvent.isRescan = true) :
    buildPollPlan crates env head events =
      (some { StagedCommit.reconciling head.store.stageUnchanged [.rescan] none with
        rescan := true }, head) := by
  have hnil : events ≠ [] := by
    rintro rfl
    cases h
  unfold buildPollPlan
  rw [if_neg hnil, if_pos h]

/-- A batch that keeps nothing plans nothing. -/
theorem buildPollPlan_idle (hno : events.any ChangeEvent.isRescan = false)
    (hkept : events.filter (isKept head.unsavedOverlays) = []) :
    buildPollPlan crates env head events = (none, head) := by
  have hbatch := (foldl_pollEvent env.disk head.unsavedOverlays events ⟨[], [], [], [], []⟩).2
  unfold buildPollPlan
  by_cases hnil : events = []
  · rw [if_pos hnil]
  · rw [if_neg hnil, if_neg (by rw [hno]; decide)]
    dsimp only
    rw [if_pos (by rw [hbatch, hkept]; rfl)]

/-- A batch that keeps events stages their writes and takes its scope from
them. -/
theorem buildPollPlan_kept (hno : events.any ChangeEvent.isRescan = false)
    (hkept : events.filter (isKept head.unsavedOverlays) ≠ []) :
    ∃ staged head₁, buildPollPlan crates env head events = (some staged, head₁) ∧
      staged.stagedGen = (head.store.stage
        (events.filterMap (eventChange env.disk head.unsavedOverlays))).1 ∧
      staged.scope = identityScopeFromEvents crates.pyExtension
        (events.filter (isKept head.unsavedOverlays)) ∧
      staged.reconcile = true := by
  have hbatch := foldl_pollEvent env.disk head.unsavedOverlays events ⟨[], [], [], [], []⟩
  have hnil : events ≠ [] := by
    rintro rfl
    exact hkept rfl
  unfold buildPollPlan
  rw [if_neg hnil, if_neg (by rw [hno]; decide)]
  dsimp only
  rw [if_neg (by rw [hbatch.2]; exact hkept), hbatch.1, hbatch.2]
  exact ⟨_, _, rfl, rfl, rfl, rfl⟩

end PollPlan

/-- The last event of a batch that writes to a path. -/
def lastEventAt (events : List ChangeEvent) (p : SystemPath) : Option ChangeEvent :=
  (events.filter fun e => writtenPath e = some p).getLast?

/-- What an event leaves at the path it writes to. -/
def eventText (disk : Disk) (p : SystemPath) (event : ChangeEvent) : Option String :=
  if isDeletion event then none else diskText disk p

/-- A disk read leaves the text of a readable file and nothing else. -/
theorem effectAt_diskChange (disk : Disk) (q p : SystemPath) :
    (diskChange q (readToString disk q)).effectAt p =
      if q = p then some (diskText disk q) else none := by
  unfold readToString diskText
  by_cases hq : q = p
  · cases disk.lookup q with
    | none => simp [diskChange, Change.effectAt, hq]
    | some entry => cases entry <;> simp [diskChange, Change.effectAt, hq]
  · cases disk.lookup q with
    | none => simp [diskChange, Change.effectAt, hq]
    | some entry => cases entry <;> simp [diskChange, Change.effectAt, hq]

/-- The write of one event, seen from a path without an unsaved buffer. -/
theorem effectAt_eventChange (disk : Disk) {unsaved : Finset SystemPath} (event : ChangeEvent)
    {p : SystemPath} (hp : p ∉ unsaved) :
    (eventChange disk unsaved event).bind (Change.effectAt p) =
      if writtenPath event = some p then some (eventText disk p event) else none := by
  unfold eventChange eventText
  cases hw : writtenPath event with
  | none => simp
  | some q =>
    dsimp only
    by_cases hq : q = p
    · subst hq
      rw [if_neg hp, if_pos rfl]
      by_cases hd : isDeletion event = true
      · simp [hd, Change.effectAt]
      · simp [hd, effectAt_diskChange]
    · have hdelete : (Change.delete q).effectAt p = none := by simp [Change.effectAt, hq]
      by_cases hu : q ∈ unsaved
      · simp [hu, hq]
      · by_cases hd : isDeletion event = true
        · simp [hu, hd, hq, hdelete]
        · simp [hu, hd, hq, effectAt_diskChange]

/-- The writes of a batch, seen from one path without an unsaved buffer. -/
theorem effects_eventChange (disk : Disk) {unsaved : Finset SystemPath} (events : List ChangeEvent)
    {p : SystemPath} (hp : p ∉ unsaved) :
    (events.filterMap (eventChange disk unsaved)).filterMap (Change.effectAt p) =
      (events.filter fun e => writtenPath e = some p).map (eventText disk p) := by
  rw [List.filterMap_filterMap]
  induction events with
  | nil => rfl
  | cons event events ih =>
    have heffect := effectAt_eventChange disk event hp
    by_cases hw : writtenPath event = some p
    · rw [if_pos hw] at heffect
      rw [List.filterMap_cons, heffect, ih]
      simp [hw]
    · rw [if_neg hw] at heffect
      rw [List.filterMap_cons, heffect, ih]
      simp [hw]

/-- What a batch without a rescan leaves at a path without an unsaved buffer:
the last event there decides, and a path without an event keeps its text. -/
theorem textAt_poll {crates : Crates} {env : Env} {head head' : HeadState}
    {events : List ChangeEvent} {result : Option CommitDelta}
    (h : commit crates env head (.poll events) = (.ok result, head'))
    (hno : events.any ChangeEvent.isRescan = false) {p : SystemPath}
    (hp : p ∉ head.unsavedOverlays) :
    head'.store.generation.textAt p =
      ((lastEventAt events p).map (eventText env.disk p)).getD
        (head.store.generation.textAt p) := by
  by_cases hkept : events.filter (isKept head.unsavedOverlays) = []
  · have hhead : head' = head := by
      unfold commit at h
      rw [buildPlan_poll, buildPollPlan_idle hno hkept] at h
      cases h
      rfl
    have hnone : lastEventAt events p = none := by
      unfold lastEventAt
      rw [List.getLast?_eq_none_iff, List.filter_eq_nil_iff]
      intro e he hw
      have hkeep : isKept head.unsavedOverlays e = true := by
        unfold isKept
        rw [of_decide_eq_true hw]
        exact decide_eq_true hp
      exact (List.filter_eq_nil_iff.mp hkept) e he hkeep
    rw [hhead, hnone]
    rfl
  · obtain ⟨staged, head₁, hplan, hgen, -, -⟩ :=
      @buildPollPlan_kept crates env head events hno hkept
    have hbuild : (buildPlan crates env head (.poll events)).1 = .ok (some staged) := by
      rw [buildPlan_poll, hplan]
    cases result with
    | none =>
      exfalso
      unfold commit at h
      rw [buildPlan_poll, hplan] at h
      dsimp only at h
      split at h <;> cases h
    | some dto =>
      obtain ⟨staged', hbuild', hpub⟩ := commit_generation h
      have hsame : staged' = staged := by
        rw [hbuild] at hbuild'
        cases hbuild'
        rfl
      rw [hpub, hsame, hgen, textAt_stage, effects_eventChange env.disk events hp,
        List.getLast?_map]
      rfl

/-- A batch with a rescan leaves every text as it is. -/
theorem generation_poll_rescan {crates : Crates} {env : Env} {head head' : HeadState}
    {events : List ChangeEvent} {result : Option CommitDelta}
    (h : commit crates env head (.poll events) = (.ok result, head'))
    (hrescan : events.any ChangeEvent.isRescan = true) :
    head'.store.generation = head.store.generation := by
  cases result with
  | none =>
    exfalso
    unfold commit at h
    rw [buildPlan_poll, buildPollPlan_rescan hrescan] at h
    dsimp only at h
    split at h <;> cases h
  | some dto =>
    obtain ⟨staged, hplan, hpub⟩ := commit_generation h
    rw [buildPlan_poll, buildPollPlan_rescan hrescan] at hplan
    cases hplan
    exact hpub

/-- The paths a batch is responsible for. -/
def Watched (crates : Crates) (head : HeadState) (p : SystemPath) : Prop :=
  isProjectRelevant crates.pyExtension p = true ∧ p ∉ head.unsavedOverlays

instance (crates : Crates) (head : HeadState) (p : SystemPath) :
    Decidable (Watched crates head p) :=
  inferInstanceAs (Decidable (_ ∧ _))

/-- Whether a path is covered by a batch: it or a directory above it has an
event, or the batch holds a rescan. -/
def Covered (events : List ChangeEvent) (p : SystemPath) : Prop :=
  events.any ChangeEvent.isRescan = true ∨
    ∃ e ∈ events, ∃ q ∈ p.ancestors, writtenPath e = some q

instance (events : List ChangeEvent) (p : SystemPath) : Decidable (Covered events p) :=
  inferInstanceAs (Decidable (_ ∨ _))

/-- When a batch repairs a set of stale paths: with a rescan nothing may be
stale, and without one each stale path has an event of its own and no
deletion comes last at a file that can be read. -/
def Repairs (crates : Crates) (disk : Disk) (head : HeadState) (events : List ChangeEvent)
    (D : Set SystemPath) : Prop :=
  if events.any ChangeEvent.isRescan then
    ∀ p ∈ D, Watched crates head p → AgreesAt disk head.store.generation p
  else
    (∀ p ∈ D, Watched crates head p → AgreesAt disk head.store.generation p ∨
      lastEventAt events p ≠ none) ∧
    ∀ p, Watched crates head p → ∀ e, lastEventAt events p = some e → isDeletion e = true →
      diskText disk p = none

/-- After a batch without a rescan content agrees with disk at a path exactly
when it did so before and nothing happened there, or the last event there is
not a deletion of a readable file. -/
theorem agreesAt_poll_iff {crates : Crates} {env : Env} {head head' : HeadState}
    {events : List ChangeEvent} {result : Option CommitDelta}
    (h : commit crates env head (.poll events) = (.ok result, head'))
    (hno : events.any ChangeEvent.isRescan = false) {p : SystemPath}
    (hp : p ∉ head.unsavedOverlays) :
    AgreesAt env.disk head'.store.generation p ↔
      (lastEventAt events p = none → AgreesAt env.disk head.store.generation p) ∧
        ∀ e, lastEventAt events p = some e → isDeletion e = true → diskText env.disk p = none := by
  have htext := textAt_poll h hno hp
  unfold AgreesAt
  rw [htext]
  cases lastEventAt events p with
  | none => simp
  | some e =>
    by_cases hdel : isDeletion e = true
    · have hgone : eventText env.disk p e = none := if_pos hdel
      simp only [Option.map_some, Option.getD_some, hgone]
      exact ⟨fun habsent => ⟨nofun, fun _ _ _ => habsent.symm⟩,
        fun hboth => (hboth.2 e rfl hdel).symm⟩
    · simp [eventText, hdel]

/-- If content agrees with disk outside a set of paths, then it does so
everywhere after a committed batch exactly when the batch repairs the set. -/
theorem poll_agrees_iff {crates : Crates} {env : Env} {head head' : HeadState}
    {events : List ChangeEvent} {result : Option CommitDelta} {D : Set SystemPath}
    (hD : ∀ p, Watched crates head p → p ∉ D → AgreesAt env.disk head.store.generation p)
    (h : commit crates env head (.poll events) = (.ok result, head')) :
    (∀ p, Watched crates head p → AgreesAt env.disk head'.store.generation p) ↔
      Repairs crates env.disk head events D := by
  unfold Repairs
  by_cases hrescan : events.any ChangeEvent.isRescan = true
  · rw [if_pos hrescan, generation_poll_rescan h hrescan]
    constructor
    · intro hafter p _ hp
      exact hafter p hp
    · intro hbefore p hp
      by_cases hpD : p ∈ D
      · exact hbefore p hpD hp
      · exact hD p hp hpD
  · rw [if_neg hrescan]
    have hno : events.any ChangeEvent.isRescan = false := by simpa using hrescan
    constructor
    · intro hafter
      constructor
      · intro p _ hp
        have hone := (agreesAt_poll_iff h hno hp.2).mp (hafter p hp)
        by_cases hlast : lastEventAt events p = none
        · exact Or.inl (hone.1 hlast)
        · exact Or.inr hlast
      · intro p hp
        exact ((agreesAt_poll_iff h hno hp.2).mp (hafter p hp)).2
    · intro hcond p hp
      refine (agreesAt_poll_iff h hno hp.2).mpr ⟨fun hlast => ?_, hcond.2 p hp⟩
      by_cases hpD : p ∈ D
      · exact (hcond.1 p hpD hp).resolve_right (fun hne => hne hlast)
      · exact hD p hp hpD

/-- A changed event at an edited module repairs it. -/
theorem poll_agrees_edited_file :
    let b : SystemPath := ⟨["p", "b.py"]⟩
    let disk := twoModules.insert b (.file "x = 333")
    let result := commit (listedCrates twoPaths) (listedEnv twoPaths disk) twoHead
      (.poll [.changed b .fileContent])
    ∀ p, Watched (listedCrates twoPaths) twoHead p →
      AgreesAt disk result.2.store.generation p := by
  intro b disk result
  have hD : ∀ p, Watched (listedCrates twoPaths) twoHead p → p ∉ ({b} : Set SystemPath) →
      AgreesAt disk twoHead.store.generation p := by
    intro p _ hp
    exact agreesAt_twoHead (Finmap.lookup_insert_of_ne _ hp)
  obtain ⟨dto, hcommit⟩ : ∃ dto, result = (.ok dto, result.2) := ⟨_, rfl⟩
  refine (poll_agrees_iff hD hcommit).mpr ?_
  unfold Repairs
  rw [if_neg (by decide)]
  constructor
  · intro p hp _
    right
    rw [Set.mem_singleton_iff.mp hp]
    decide
  · intro p _ e hlast hdel
    have hmem := List.mem_of_getLast? hlast
    have he : e = .changed b .fileContent := by simpa using (List.mem_filter.mp hmem).1
    rw [he] at hdel
    cases hdel

/-- A module of a new directory, and an edited module under a rescan, stay as
they were although the batch covers them. -/
theorem poll_not_agrees_directory_and_rescan :
    (let m : SystemPath := ⟨["p", "pkg", "m.py"]⟩
      let disk := (twoModules.insert ⟨["p", "pkg"]⟩ .directory).insert m (.file "x = 4444")
      let events := [ChangeEvent.created ⟨["p", "pkg"]⟩ .directory]
      let result := commit (listedCrates twoPaths) (listedEnv twoPaths disk) twoHead (.poll events)
      (∀ p, Watched (listedCrates twoPaths) twoHead p → p ≠ m →
          AgreesAt disk twoHead.store.generation p) ∧
        Covered events m ∧ (∃ dto, result = (.ok (some dto), result.2)) ∧
        Watched (listedCrates twoPaths) twoHead m ∧
        ¬AgreesAt disk result.2.store.generation m) ∧
    (let b : SystemPath := ⟨["p", "b.py"]⟩
      let disk := twoModules.insert b (.file "x = 333")
      let events := [ChangeEvent.rescan]
      let result := commit (listedCrates twoPaths) (listedEnv twoPaths disk) twoHead (.poll events)
      (∀ p, Watched (listedCrates twoPaths) twoHead p → p ≠ b →
          AgreesAt disk twoHead.store.generation p) ∧
        Covered events b ∧ (∃ dto, result = (.ok (some dto), result.2)) ∧
        Watched (listedCrates twoPaths) twoHead b ∧
        ¬AgreesAt disk result.2.store.generation b) := by
  constructor
  · refine ⟨?_, by decide, ⟨_, rfl⟩, by decide +kernel, by decide +kernel⟩
    intro p hp hm
    by_cases hdir : p = ⟨["p", "pkg"]⟩
    · exact absurd hp (by rw [hdir]; decide +kernel)
    · apply agreesAt_twoHead
      rw [Finmap.lookup_insert_of_ne _ hm, Finmap.lookup_insert_of_ne _ hdir]
  · refine ⟨?_, by decide, ⟨_, rfl⟩, by decide +kernel, by decide +kernel⟩
    intro p _ hb
    exact agreesAt_twoHead (Finmap.lookup_insert_of_ne _ hb)

end Tyo3.DiskSync
