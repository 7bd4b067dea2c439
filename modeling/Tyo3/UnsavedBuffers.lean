import Tyo3.CommitOutcomes
import Tyo3.DiskSync

/-!
# Unsaved buffers

An edit puts its path into the set of unsaved buffers, a discard or a sync of
the path takes it out. The ways from disk into the content leave the paths
of the set alone. So the published document of such a path moves only when
the path is edited, discarded or synced by name.
-/

namespace Tyo3.UnsavedBuffers

open CommitAtomicity CommitFunnel CommitOutcomes CommitPlan ContentStore DiskSync Entities
  FiniteMaps JsonValues SystemPaths

/-! ## Requests -/

/-- A request of a session that writes. Paths are resolved against the
root. -/
inductive Request where
  | edit (path : SystemPath) (text : String)
  | editMany (edits : List (SystemPath × String))
  | editVirtual (uri text : String)
  | discard (path : SystemPath)
  | syncPath (path : SystemPath)
  | syncAll
  | poll (events : List ChangeEvent)
  | author (layer id : String) (value : Json)

/-- The event of an edited path, by whether the engine takes it for new. -/
def classifyOverlayEdit (isNew : Bool) (path : SystemPath) : ChangeEvent :=
  if isNew then .created path .file else .changed path .fileContent

/-- The write of a batch of edits. -/
def overlayEdits (isNew : SystemPath → Bool) (edits : List (SystemPath × String)) : Mutation :=
  .overlay (edits.map fun e => .insert e.1 e.2)
    (edits.map fun e => classifyOverlayEdit (isNew e.1) e.1)
    ((edits.filter fun e => isNew e.1).map fun e => e.1.asStr)
    ((edits.filter fun e => !isNew e.1).map fun e => e.1.asStr)
    (edits.map Prod.fst)

/-- The write of an edited virtual buffer; it joins no set. -/
def virtualEdit (isNew : Bool) (uri text : String) : Mutation :=
  .overlay [.insertVirtual uri text] [if isNew then .createdVirtual uri else .changedVirtual uri]
    (if isNew then [uri] else []) (if isNew then [] else [uri]) []

/-- The write of a request. The engine says which paths and buffers are
new. -/
def Request.mutation (isNew : SystemPath → Bool) (isNewVirtual : String → Bool) :
    Request → Mutation
  | .edit path text => overlayEdits isNew [(path, text)]
  | .editMany edits => overlayEdits isNew edits
  | .editVirtual uri text => virtualEdit (isNewVirtual uri) uri text
  | .discard path => .syncPath path
  | .syncPath path => .syncPath path
  | .syncAll => .syncAll
  | .poll events => .poll events
  | .author layer id value => .author layer id value

/-- The paths a request edits. -/
def Request.edited : Request → List SystemPath
  | .edit path _ => [path]
  | .editMany edits => edits.map Prod.fst
  | _ => []

/-- The paths a request reverts to disk by name. -/
def Request.reverted : Request → List SystemPath
  | .discard path => [path]
  | .syncPath path => [path]
  | _ => []

/-! ## What a plan writes -/

/-- The batch of writes a plan stages. -/
def plannedChanges (crates : Crates) (env : Env) (head : HeadState) : Mutation → List Change
  | .overlay changes _ _ _ _ => changes
  | .syncPath abs => [(syncPathChange env head abs).1]
  | .syncAll => readDiskChanges env.disk
      ((walkRelevantFiles crates.walk env.disk head.root
        (isProjectRelevant crates.pyExtension)).filter fun p => p ∉ head.unsavedOverlays)
  | .author _ _ _ => []
  | .poll events =>
    if events.any ChangeEvent.isRescan then []
    else events.filterMap (eventChange env.disk head.unsavedOverlays)

/-- The paths a write adds to the unsaved buffers. -/
def gained : Mutation → List SystemPath
  | .overlay _ _ _ _ unsaved => unsaved
  | _ => []

/-- The paths a write takes from the unsaved buffers. -/
def lost : Mutation → List SystemPath
  | .syncPath abs => [abs]
  | _ => []

/-- A watcher plan stages its batch and moves no unsaved buffer. -/
theorem buildPollPlan_stages {crates : Crates} {env : Env} {head : HeadState}
    {events : List ChangeEvent} {staged : StagedCommit}
    (h : (buildPollPlan crates env head events).1 = some staged) :
    staged.stagedGen = (head.store.stage (plannedChanges crates env head (.poll events))).1 ∧
      staged.unsavedInsert = [] ∧ staged.unsavedRemove = [] := by
  have hbatch := (foldl_pollEvent env.disk head.unsavedOverlays events ⟨[], [], [], [], []⟩).1
  simp only [plannedChanges]
  unfold buildPollPlan at h
  split at h
  · cases h
  · split at h
    · rename_i hrescan
      cases h
      rw [if_pos hrescan]
      exact ⟨rfl, rfl, rfl⟩
    · rename_i hrescan
      rw [if_neg hrescan]
      dsimp only at h
      split at h
      · cases h
      · cases h
        refine ⟨?_, rfl, rfl⟩
        dsimp only [StagedCommit.reconciling]
        rw [hbatch]
        rfl

/-- A plan stages its batch of writes and names the buffers it moves. -/
theorem buildPlan_stages {crates : Crates} {env : Env} {head : HeadState} {m : Mutation}
    {staged : StagedCommit} (h : (buildPlan crates env head m).1 = .ok (some staged)) :
    staged.stagedGen = (head.store.stage (plannedChanges crates env head m)).1 ∧
      staged.unsavedInsert = gained m ∧ staged.unsavedRemove = lost m := by
  cases m with
  | overlay changes events created changed unsaved =>
    cases h
    exact ⟨rfl, rfl, rfl⟩
  | syncPath abs =>
    cases h
    exact ⟨rfl, rfl, rfl⟩
  | syncAll =>
    cases h
    exact ⟨rfl, rfl, rfl⟩
  | author layer id value =>
    unfold buildPlan at h
    dsimp only at h
    cases hp : authorPlan crates head layer id value with
    | error e =>
      rw [hp] at h
      cases h
    | ok staged' =>
      rw [hp] at h
      cases h
      obtain ⟨lcfg, anchor, bytes, -, -, -, hstaged⟩ := authorPlan_shape hp
      rw [hstaged]
      exact ⟨rfl, rfl, rfl⟩
  | poll events =>
    have hplan : (buildPollPlan crates env head events).1 = some staged := by
      unfold buildPlan at h
      dsimp only at h
      injection h
    exact buildPollPlan_stages hplan

/-- Whether a batch of writes concerns a path. -/
def setsAt (changes : List Change) (p : SystemPath) : Bool :=
  changes.any fun c => (c.effectAt p).isSome

/-- A batch that does not concern a path leaves its document. -/
theorem lookup_stage_of_not_setsAt {s : Store} {changes : List Change} {p : SystemPath}
    (h : setsAt changes p = false) :
    (s.stage changes).1.system.lookup p = s.generation.system.lookup p := by
  apply lookup_foldl_of_effectAt_none
  intro c hc
  unfold setsAt at h
  rw [List.any_eq_false] at h
  exact Option.not_isSome_iff_eq_none.mp (h c hc)

/-- What a published write leaves: the batch applied to the content, and the
buffers it gains and loses. -/
theorem commit_ok_content {crates : Crates} {env : Env} {head : HeadState} (hs : InStep head)
    {m : Mutation} {dto : CommitDelta} (h : (commit crates env head m).1 = .ok (some dto)) :
    (commit crates env head m).2.store.generation =
        (head.store.stage (plannedChanges crates env head m)).1 ∧
      (commit crates env head m).2.unsavedOverlays =
        (head.unsavedOverlays ∪ (gained m).toFinset) \ (lost m).toFinset := by
  have houtcome := commit_outcome crates env hs m
  rw [h] at houtcome
  generalize (commit crates env head m).2 = head' at houtcome ⊢
  cases houtcome with
  | idle counter armed hresult => exact absurd rfl (hresult dto)
  | reconciled staged counter bytes hm hplan hauth hbytes =>
    have hstages := buildPlan_stages hplan
    refine ⟨hstages.1, ?_⟩
    rw [← hstages.2.1, ← hstages.2.2]
    rfl
  | authored lcfg anchor bytes record hcfg hanchor hrecord hbytes =>
    refine ⟨rfl, ?_⟩
    simp [gained, lost]

/-- A write that publishes nothing leaves the content and the buffers. -/
theorem commit_idle_content {crates : Crates} {env : Env} {head : HeadState} (hs : InStep head)
    {m : Mutation} (h : ∀ dto, (commit crates env head m).1 ≠ .ok (some dto)) :
    (commit crates env head m).2.store.generation = head.store.generation ∧
      (commit crates env head m).2.unsavedOverlays = head.unsavedOverlays := by
  have houtcome := commit_outcome crates env hs m
  generalize (commit crates env head m).2 = head' at houtcome ⊢
  generalize (commit crates env head m).1 = result at houtcome h
  cases houtcome with
  | idle counter armed hresult => exact ⟨rfl, rfl⟩
  | reconciled staged counter bytes hm hplan hauth hbytes => exact absurd rfl (h _)
  | authored lcfg anchor bytes record hcfg hanchor hrecord hbytes => exact absurd rfl (h _)

/-! ## The writes of a request at one path -/

/-- A batch of edits concerns exactly the edited paths. -/
theorem setsAt_edits (edits : List (SystemPath × String)) (p : SystemPath) :
    setsAt (edits.map fun e => .insert e.1 e.2) p = true ↔ p ∈ edits.map Prod.fst := by
  unfold setsAt
  simp only [List.any_map, List.any_eq_true, List.mem_map]
  constructor
  · intro h
    obtain ⟨e, he, heffect⟩ := h
    refine ⟨e, he, ?_⟩
    by_contra hne
    simp [Change.effectAt, hne] at heffect
  · intro h
    obtain ⟨e, he, hpath⟩ := h
    exact ⟨e, he, by simp [Change.effectAt, hpath]⟩

/-- A sync of one path concerns this path. -/
theorem setsAt_syncPath (env : Env) (head : HeadState) (abs p : SystemPath) :
    setsAt [(syncPathChange env head abs).1] p = true ↔ abs = p := by
  have hchange : (∃ text, (syncPathChange env head abs).1 = .insert abs text) ∨
      (syncPathChange env head abs).1 = .delete abs := by
    unfold syncPathChange
    split
    · split
      · exact Or.inl ⟨_, rfl⟩
      · exact Or.inl ⟨_, rfl⟩
    · exact Or.inr rfl
  rcases hchange with ⟨text, hinsert⟩ | hdelete
  · rw [hinsert]
    simp [setsAt, Change.effectAt]
  · rw [hdelete]
    simp [setsAt, Change.effectAt]

/-- Reading a list of paths concerns none but them. -/
theorem mem_of_setsAt_readDiskChanges {disk : Disk} {paths : List SystemPath} {p : SystemPath}
    (h : setsAt (readDiskChanges disk paths) p = true) : p ∈ paths := by
  unfold setsAt readDiskChanges at h
  rw [List.any_eq_true] at h
  obtain ⟨c, hc, heffect⟩ := h
  obtain ⟨q, hq, hread⟩ := List.mem_filterMap.mp hc
  have hqp : q = p := by
    by_contra hne
    split at hread
    · cases hread
      simp [Change.effectAt, hne] at heffect
    · cases hread
      simp [Change.effectAt, hne] at heffect
    · cases hread
  rw [← hqp]
  exact hq

/-- A batch of watcher events does not concern an unsaved buffer. -/
theorem not_mem_of_setsAt_events {disk : Disk} {unsaved : Finset SystemPath}
    {events : List ChangeEvent} {p : SystemPath}
    (h : setsAt (events.filterMap (eventChange disk unsaved)) p = true) : p ∉ unsaved := by
  unfold setsAt at h
  rw [List.any_eq_true] at h
  obtain ⟨c, hc, heffect⟩ := h
  obtain ⟨event, hevent, hchange⟩ := List.mem_filterMap.mp hc
  unfold eventChange at hchange
  split at hchange
  · cases hchange
  · rename_i path hpath
    split_ifs at hchange with hunsaved hdelete
    · cases hchange
      have hp : path = p := by
        by_contra hne
        simp [Change.effectAt, hne] at heffect
      rw [← hp]
      exact hunsaved
    · cases hchange
      rw [effectAt_diskChange] at heffect
      have hp : path = p := by
        by_contra hne
        rw [if_neg hne] at heffect
        cases heffect
      rw [← hp]
      exact hunsaved

/-- What decides the content of a path. -/
inductive Setter where
  | edit | disk
  deriving DecidableEq, Repr

/-- What a request sets content from. -/
def Request.setter : Request → Setter
  | .edit _ _ => .edit
  | .editMany _ => .edit
  | .editVirtual _ _ => .edit
  | _ => .disk

/-- How a write acts on one path, by what the path gains and loses. -/
inductive Acts (head : HeadState) (p : SystemPath) (sets : Bool) (m : Mutation) (r : Request) :
    Prop
  /-- The path is edited. -/
  | edits (he : p ∈ r.edited) (hsets : sets = true) (hsetter : r.setter = .edit)
      (hgained : p ∈ gained m) (hlost : p ∉ lost m)
  /-- The path is reverted by name. -/
  | reverts (hr : p ∈ r.reverted) (hsets : sets = true) (hsetter : r.setter = .disk)
      (hlost : p ∈ lost m)
  /-- The path has no unsaved buffer and is read from disk. -/
  | reads (hfree : p ∉ head.unsavedOverlays) (hsets : sets = true) (hsetter : r.setter = .disk)
      (hgained : p ∉ gained m) (hlost : p ∉ lost m)
  /-- The path is left alone. -/
  | leaves (hsets : sets = false) (hgained : p ∉ gained m) (hlost : p ∉ lost m)

section ActsOf

variable (crates : Crates) (env : Env) (head : HeadState) (isNew : SystemPath → Bool)
  (isNewVirtual : String → Bool) (p : SystemPath)

/-- A batch of edits edits a path or leaves it alone. -/
theorem acts_overlayEdits {r : Request} {edits : List (SystemPath × String)}
    (hedited : r.edited = edits.map Prod.fst) (hsetter : r.setter = .edit) :
    Acts head p (setsAt (plannedChanges crates env head (overlayEdits isNew edits)) p)
      (overlayEdits isNew edits) r := by
  have hsets := setsAt_edits edits p
  by_cases hp : p ∈ edits.map Prod.fst
  · exact .edits (hedited ▸ hp) (hsets.mpr hp) hsetter hp List.not_mem_nil
  · have hnot : setsAt (edits.map fun e => .insert e.1 e.2) p = false :=
      Bool.eq_false_iff.mpr fun h => hp (hsets.mp h)
    exact .leaves hnot hp List.not_mem_nil

/-- A sync of one path reverts it and leaves every other path alone. -/
theorem acts_syncPath {r : Request} {path : SystemPath} (hreverted : r.reverted = [path])
    (hsetter : r.setter = .disk) :
    Acts head p (setsAt (plannedChanges crates env head (.syncPath path)) p) (.syncPath path) r := by
  have hsets := setsAt_syncPath env head path p
  by_cases hp : path = p
  · have hmem : p ∈ [path] := List.mem_singleton.mpr hp.symm
    exact .reverts (hreverted ▸ hmem) (hsets.mpr hp) hsetter hmem
  · have hnot : setsAt [(syncPathChange env head path).1] p = false :=
      Bool.eq_false_iff.mpr fun h => hp (hsets.mp h)
    exact .leaves hnot List.not_mem_nil (fun h => hp (List.mem_singleton.mp h).symm)

/-- A write that gains and loses nothing, and writes to no unsaved buffer,
reads a path or leaves it alone. -/
theorem acts_of_setsAt {m : Mutation} {r : Request} (hgained : gained m = []) (hlost : lost m = [])
    (hsetter : r.setter = .disk)
    (hfree : setsAt (plannedChanges crates env head m) p = true → p ∉ head.unsavedOverlays) :
    Acts head p (setsAt (plannedChanges crates env head m) p) m r := by
  have hg : p ∉ gained m := by
    rw [hgained]
    exact List.not_mem_nil
  have hl : p ∉ lost m := by
    rw [hlost]
    exact List.not_mem_nil
  cases hsets : setsAt (plannedChanges crates env head m) p with
  | true => exact .reads (hfree hsets) rfl hsetter hg hl
  | false => exact .leaves rfl hg hl

/-- How every request acts on one path. -/
theorem Request.acts (r : Request) :
    Acts head p (setsAt (plannedChanges crates env head (r.mutation isNew isNewVirtual)) p)
      (r.mutation isNew isNewVirtual) r := by
  cases r with
  | edit path text => exact acts_overlayEdits crates env head isNew p rfl rfl
  | editMany edits => exact acts_overlayEdits crates env head isNew p rfl rfl
  | editVirtual uri text => exact .leaves rfl List.not_mem_nil List.not_mem_nil
  | discard path => exact acts_syncPath crates env head p rfl rfl
  | syncPath path => exact acts_syncPath crates env head p rfl rfl
  | syncAll =>
    apply acts_of_setsAt crates env head p rfl rfl rfl
    intro hsets
    have hmem := mem_of_setsAt_readDiskChanges hsets
    exact of_decide_eq_true (List.mem_filter.mp hmem).2
  | poll events =>
    apply acts_of_setsAt crates env head p rfl rfl rfl
    intro hsets
    simp only [Request.mutation, plannedChanges] at hsets
    split_ifs at hsets
    · cases hsets
    · exact not_mem_of_setsAt_events hsets
  | author layer id value =>
    exact acts_of_setsAt crates env head p rfl rfl rfl (fun hsets => by cases hsets)

end ActsOf

/-! ## Runs -/

/-- One step of a session: a request with its surroundings and what the engine
takes for new, an armed fault or a new authored layer. -/
inductive Step where
  | request (env : Env) (isNew : SystemPath → Bool) (isNewVirtual : String → Bool) (r : Request)
  | faultInject (stage : String)
  | registerAuthoredLayer (name : String) (history reviewOnChange : Bool)

/-- The operation of a step. -/
def Step.action : Step → Action
  | .request env isNew isNewVirtual r => .commit env (r.mutation isNew isNewVirtual)
  | .faultInject stage => .faultInject stage
  | .registerAuthoredLayer name history reviewOnChange =>
    .registerAuthoredLayer name history reviewOnChange

/-- The paths a step edits. -/
def Step.edited : Step → List SystemPath
  | .request _ _ _ r => r.edited
  | _ => []

/-- The paths a step reverts to disk by name. -/
def Step.reverted : Step → List SystemPath
  | .request _ _ _ r => r.reverted
  | _ => []

/-- What set the content of a path last: a published write that concerns the
path, else what did before. -/
def Step.setter (crates : Crates) (head : HeadState) (p : SystemPath) (last : Option Setter) :
    Step → Option Setter
  | .request env isNew isNewVirtual r =>
    match (commit crates env head (r.mutation isNew isNewVirtual)).1 with
    | .ok (some _) =>
      if setsAt (plannedChanges crates env head (r.mutation isNew isNewVirtual)) p then
        some r.setter
      else last
    | _ => last
  | _ => last

/-- The head and the last setter of a path after a step. -/
def track (crates : Crates) (p : SystemPath) (now : HeadState × Option Setter) (step : Step) :
    HeadState × Option Setter :=
  (step.action.run crates now.1, step.setter crates now.1 p now.2)

/-- The head after a run. -/
def runSteps (crates : Crates) (head : HeadState) (steps : List Step) : HeadState :=
  steps.foldl (fun head step => step.action.run crates head) head

/-- What set the content of a path last in a run, nothing when only opening
did. -/
def lastSetter (crates : Crates) (p : SystemPath) (head : HeadState) (steps : List Step) :
    Option Setter :=
  (steps.foldl (track crates p) (head, none)).2

/-- A path has an unsaved buffer exactly when an edit set its content last. -/
def Marked (p : SystemPath) (now : HeadState × Option Setter) : Prop :=
  p ∈ now.1.unsavedOverlays ↔ now.2 = some .edit

/-- Every step keeps the mark. -/
theorem marked_track {crates : Crates} {p : SystemPath} {now : HeadState × Option Setter}
    (hs : InStep now.1) (h : Marked p now) (step : Step) : Marked p (track crates p now step) := by
  cases step with
  | faultInject stage => exact h
  | registerAuthoredLayer name history reviewOnChange => exact h
  | request env isNew isNewVirtual r =>
    have hacts := r.acts crates env now.1 isNew isNewVirtual p
    unfold Marked track Step.setter Step.action Action.run
    dsimp only
    cases hresult : (commit crates env now.1 (r.mutation isNew isNewVirtual)).1 with
    | error e =>
      have hidle := commit_idle_content hs (fun dto => by rw [hresult]; exact nofun)
      rw [hidle.2]
      exact h
    | ok result =>
      cases result with
      | none =>
        have hidle := commit_idle_content hs (fun dto => by rw [hresult]; exact nofun)
        rw [hidle.2]
        exact h
      | some dto =>
        have hcontent := commit_ok_content hs hresult
        rw [hcontent.2]
        dsimp only
        simp only [Finset.mem_sdiff, Finset.mem_union, List.mem_toFinset]
        cases hacts with
        | edits he hsets hsetter hgained hlost => simp [hsets, hsetter, hgained, hlost]
        | reverts hr hsets hsetter hlost => simp [hsets, hsetter, hlost]
        | reads hfree hsets hsetter hgained hlost => simp [hsets, hsetter, hfree, hgained]
        | leaves hsets hgained hlost =>
          have hmark : p ∈ now.1.unsavedOverlays ↔ now.2 = some .edit := h
          simp [hsets, hgained, hlost, hmark]

/-- The head of a tracked run is the head of the run. -/
theorem foldl_track_fst (crates : Crates) (p : SystemPath) (steps : List Step)
    (now : HeadState × Option Setter) :
    (steps.foldl (track crates p) now).1 = runSteps crates now.1 steps := by
  induction steps generalizing now with
  | nil => rfl
  | cons step steps ih => exact ih (track crates p now step)

/-- A run stays among the heads of sessions. -/
theorem reachable_runSteps {crates : Crates} {head : HeadState} (hr : Reachable crates head)
    (steps : List Step) : Reachable crates (runSteps crates head steps) := by
  induction steps generalizing head with
  | nil => exact hr
  | cons step steps ih => exact ih (.step hr step.action)

/-- Every run keeps the mark. -/
theorem marked_foldl {crates : Crates} {p : SystemPath} {now : HeadState × Option Setter}
    (hr : Reachable crates now.1) (h : Marked p now) (steps : List Step) :
    Marked p (steps.foldl (track crates p) now) := by
  induction steps generalizing now with
  | nil => exact h
  | cons step steps ih =>
    exact ih (.step hr step.action) (marked_track (inStep_of_reachable hr) h step)

/-- A project opens without unsaved buffers. -/
theorem unsavedOverlays_openHead {crates : Crates} {env : Env} {o : Opening} {head : HeadState}
    (h : openHead crates env o = .ok head) : head.unsavedOverlays = ∅ := by
  unfold openHead at h
  dsimp only at h
  split at h
  · cases h
  · rename_i head₁ hpersist
    obtain ⟨bytes, -, hhead⟩ := persistIdentity_ok hpersist
    cases h
    rw [hhead]
    rfl

/-- A step that neither edits nor reverts a path with an unsaved buffer keeps
its document and its buffer. -/
theorem lookup_run_of_mem_unsavedOverlays {crates : Crates} {head : HeadState} (hs : InStep head)
    {p : SystemPath} (hp : p ∈ head.unsavedOverlays) {step : Step} (hedited : p ∉ step.edited)
    (hreverted : p ∉ step.reverted) :
    (step.action.run crates head).store.generation.system.lookup p =
        head.store.generation.system.lookup p ∧
      p ∈ (step.action.run crates head).unsavedOverlays := by
  cases step with
  | faultInject stage => exact ⟨rfl, hp⟩
  | registerAuthoredLayer name history reviewOnChange => exact ⟨rfl, hp⟩
  | request env isNew isNewVirtual r =>
    unfold Step.action Action.run
    dsimp only
    by_cases hok : ∃ dto, (commit crates env head (r.mutation isNew isNewVirtual)).1 =
        .ok (some dto)
    · obtain ⟨dto, hresult⟩ := hok
      have hcontent := commit_ok_content hs hresult
      rw [hcontent.1, hcontent.2]
      cases r.acts crates env head isNew isNewVirtual p with
      | edits he hsets hsetter hgained hlost => exact absurd he hedited
      | reverts hr hsets hsetter hlost => exact absurd hr hreverted
      | reads hfree hsets hsetter hgained hlost => exact absurd hp hfree
      | leaves hsets hgained hlost =>
        refine ⟨lookup_stage_of_not_setsAt hsets, ?_⟩
        rw [Finset.mem_sdiff, Finset.mem_union, List.mem_toFinset, List.mem_toFinset]
        exact ⟨Or.inl hp, hlost⟩
    · have hidle := commit_idle_content hs (fun dto hdto => hok ⟨dto, hdto⟩)
      rw [hidle.1, hidle.2]
      exact ⟨rfl, hp⟩

/-- In every run a path has an unsaved buffer exactly when an edit set its
content last, and only an edit, a discard or a sync of the path itself moves
the published document of such a path. -/
theorem unsaved_buffer_wins {crates : Crates} {env : Env} {o : Opening} {head : HeadState}
    (hopen : openHead crates env o = .ok head) (steps : List Step) :
    (∀ p, p ∈ (runSteps crates head steps).unsavedOverlays ↔
      lastSetter crates p head steps = some .edit) ∧
    ∀ p, p ∈ (runSteps crates head steps).unsavedOverlays → ∀ next : Step,
      p ∉ next.edited → p ∉ next.reverted →
      (next.action.run crates (runSteps crates head steps)).store.generation.system.lookup p =
          (runSteps crates head steps).store.generation.system.lookup p ∧
        p ∈ (next.action.run crates (runSteps crates head steps)).unsavedOverlays := by
  have hreach : Reachable crates head := .opened hopen
  refine ⟨fun p => ?_, fun p hp next hedited hreverted => ?_⟩
  · have hstart : Marked p (head, none) := by
      unfold Marked
      rw [unsavedOverlays_openHead hopen]
      simp
    have hmark := marked_foldl hreach hstart steps
    unfold Marked at hmark
    rw [foldl_track_fst] at hmark
    exact hmark
  · have hin := inStep_of_reachable (reachable_runSteps hreach steps)
    exact lookup_run_of_mem_unsavedOverlays hin hp hedited hreverted

/-- An edited module of a project of two keeps its text when the file is
deleted from disk and the watcher tells so. -/
theorem edit_survives_deleted_event :
    let b : SystemPath := ⟨["p", "b.py"]⟩
    let edit := Step.request (listedEnv twoPaths twoModules) (fun _ => false) (fun _ => false)
      (.edit b "x = 999")
    let poll := Step.request (listedEnv twoPaths (twoModules.erase b)) (fun _ => false)
      (fun _ => false) (.poll [.deleted b .file])
    let edited := runSteps (listedCrates twoPaths) twoHead [edit]
    b ∈ edited.unsavedOverlays ∧ edited.store.generation.textAt b = some "x = 999" ∧
      (poll.action.run (listedCrates twoPaths) edited).store.generation.system.lookup b =
        edited.store.generation.system.lookup b := by
  intro b edit poll edited
  have hopen : openHead (listedCrates twoPaths) (listedEnv twoPaths twoModules)
      (freshOpening ⟨["p"]⟩) = .ok twoHead := rfl
  have hmem : b ∈ edited.unsavedOverlays := by decide +kernel
  refine ⟨hmem, by decide +kernel, ?_⟩
  exact ((unsaved_buffer_wins hopen [edit]).2 b hmem poll List.not_mem_nil List.not_mem_nil).1

end Tyo3.UnsavedBuffers
