import Tyo3.AuthoredHistory
import Tyo3.Snapshots
import Tyo3.UnmovedEntities

/-!
# Identity reads of past revisions

A snapshot of a past revision reads the registry and the records of the head
it is taken from. Its identity answers are those of the past as long as no
later commit moves, adds or drops an entity or changes what is due for
review.
-/

namespace Tyo3.PinnedIdentity

open AuthoredHistory AuthoredLoading AuthoredStore CommitAtomicity CommitFunnel CommitOutcomes
  CommitPlan Entities FiniteMaps IdentityAnchors IdentityReconciliation JsonValues ProjectSessions
  Runs SessionRegistries Snapshots SystemPaths UnmovedEntities

/-! ## Reviews -/

/-- A layer whose records are flagged when the body of their entity changes. -/
def Reviews (config : ValidatedConfig) (name : String) : Prop :=
  ∃ cfg, config.layers.lookup name = some cfg ∧ cfg.origin = .authored ∧
    cfg.reviewOnChange = true

/-- Whether the record of an id was written for another body than the one
with a hash. -/
def outdated (authored : AuthoredMap) (layer id : String) (hash : ContentHash) : Bool :=
  match authored.lookup (layer, id) with
  | none => false
  | some rec =>
    match rec.current.reviewedHash with
    | none => false
    | some reviewed => decide (reviewed ≠ hash)

/-- A body with a hash is due for review. -/
def Due (config : ValidatedConfig) (authored : AuthoredMap) (id : DurableId)
    (hash : ContentHash) : Prop :=
  ∃ name ∈ config.topoOrder, Reviews config name ∧ outdated authored name id hash = true

/-- A record is flagged when its live anchor outdates it. -/
theorem flagged_iff {authored : AuthoredMap} {registry : IdentityRegistry} {layer id : String} :
    flagged authored registry layer id = true ↔
      ∃ a, registry.get id = some a ∧ a.status ≠ .orphaned ∧
        outdated authored layer id a.contentHash = true := by
  unfold flagged outdated
  cases authored.lookup (layer, id) with
  | none => simp
  | some rec =>
    dsimp only
    cases rec.current.reviewedHash with
    | none => simp
    | some reviewed =>
      cases registry.get id with
      | none => simp
      | some a => simp

/-- A flagged id has a record in the layer. -/
theorem mem_idsInLayer_of_flagged {authored : AuthoredMap} {registry : IdentityRegistry}
    {layer id : String} (h : flagged authored registry layer id = true) :
    id ∈ idsInLayer authored layer := by
  unfold flagged at h
  cases hrec : authored.lookup (layer, id) with
  | none =>
    rw [hrec] at h
    cases h
  | some rec =>
    unfold idsInLayer
    rw [Finset.mem_image]
    refine ⟨(layer, id), Finset.mem_filter.mpr ⟨?_, rfl⟩, rfl⟩
    exact (mem_keys_iff _ _).mpr ⟨rec, hrec⟩

/-- The ids to be reviewed are the live ids whose body is due. -/
theorem mem_needsReviewIds {config : ValidatedConfig} {authored : AuthoredMap}
    {registry : IdentityRegistry} {id : DurableId} :
    id ∈ needsReviewIds config authored registry ↔
      ∃ a, registry.get id = some a ∧ a.status ≠ .orphaned ∧
        Due config authored id a.contentHash := by
  unfold needsReviewIds
  rw [HashOrder.mem_order, List.mem_toFinset, List.mem_flatMap]
  constructor
  · rintro ⟨name, hname, hid⟩
    split at hid
    · cases hid
    · rename_i cfg hcfg
      split at hid
      · rename_i hreviews
        obtain ⟨a, ha, hlive, hout⟩ := flagged_iff.mp (List.mem_filter.mp hid).2
        exact ⟨a, ha, hlive, name, hname, ⟨cfg, hcfg, hreviews⟩, hout⟩
      · cases hid
  · rintro ⟨a, ha, hlive, name, hname, ⟨cfg, hcfg, hreviews⟩, hout⟩
    have hflagged := flagged_iff.mpr ⟨a, ha, hlive, hout⟩
    refine ⟨name, hname, ?_⟩
    rw [hcfg]
    dsimp only
    rw [if_pos hreviews, List.mem_filter, HashOrder.mem_order]
    exact ⟨mem_idsInLayer_of_flagged hflagged, hflagged⟩

/-- The list of ids to be reviewed is told by its members. -/
theorem needsReviewIds_congr {config config' : ValidatedConfig} {authored authored' : AuthoredMap}
    {registry registry' : IdentityRegistry}
    (h : ∀ id, id ∈ needsReviewIds config authored registry ↔
      id ∈ needsReviewIds config' authored' registry') :
    needsReviewIds config authored registry = needsReviewIds config' authored' registry' := by
  unfold needsReviewIds at h ⊢
  congr 1
  ext id
  have hid := h id
  rwa [HashOrder.mem_order, HashOrder.mem_order] at hid

/-! ## Answers -/

/-- What a snapshot answers about identity. -/
structure IdentityAnswers where
  /-- The id of each qualified path. -/
  byPath : String → Option DurableId
  /-- The location of each id. -/
  locate : DurableId → Option String
  /-- The orphaned ids, for each order of the anchor store. -/
  orphaned : HashOrder DurableId → List DurableId
  /-- The ids to be reviewed. -/
  needsReview : List DurableId

/-- The identity answers of a snapshot. -/
def identityAnswers (s : Snapshot) : IdentityAnswers where
  byPath := s.byPath
  locate := s.locate
  orphaned iter := s.orphaned iter
  needsReview := s.needsReview

/-- Snapshots over the same places with the same reviews answer alike. -/
theorem identityAnswers_eq {s t : Snapshot} (hplaces : SamePlaces s.registry t.registry)
    (hreview : t.needsReview = s.needsReview) : identityAnswers t = identityAnswers s := by
  have hpath : t.byPath = s.byPath := funext hplaces.byPath
  have hlocate : t.locate = s.locate := funext hplaces.located
  have horphaned : (fun iter => t.orphaned iter) = fun iter => s.orphaned iter := by
    funext iter
    unfold Snapshot.orphaned
    rw [hplaces.keys_eq]
    apply List.filter_congr
    intro id _
    exact decide_eq_decide.mpr (hplaces.orphaned id)
  unfold identityAnswers
  rw [hpath, hlocate, horphaned, hreview]

/-! ## One commit -/

/-- A commit of a run, with its surroundings. -/
abbrev CommitStep := Env × Mutation

/-- The head after a commit. -/
def commitStep (crates : Crates) (head : HeadState) (step : CommitStep) : HeadState :=
  (commit crates step.1 head step.2).2

/-- The entities that a write extracts are those of the registry, and their
bodies are due for review as before. -/
structure InPlace (crates : Crates) (env : Env) (head : HeadState) (staged : StagedCommit) :
    Prop where
  /-- No entity is added, moved or dropped. -/
  unmoved : Unmoved head.registry staged.scope
    (scopedEntities crates (env.engine.answers staged.stagedGen) staged.scope)
  /-- A changed body is due for review when the one before was. -/
  reviews : ∀ e ∈ scopedEntities crates (env.engine.answers staged.stagedGen) staged.scope,
    ∀ id a, head.registry.byPath.lookup e.qualifiedPath = some id →
      head.registry.get id = some a →
      (Due head.config head.authored id e.contentHash ↔
        Due head.config head.authored id a.contentHash)

/-- What a commit must find to keep the identity answers: an authored write
on an id that is due for review leaves it due for another layer, any other
write finds all entities in place. -/
def Undisturbing (crates : Crates) (head : HeadState) (step : CommitStep) : Prop :=
  match step.2 with
  | .author layer id _ => ∀ a, head.registry.get id = some a → a.status ≠ .orphaned →
      Due head.config head.authored id a.contentHash →
      ∃ name ∈ head.config.topoOrder, name ≠ layer ∧ Reviews head.config name ∧
        outdated head.authored name id a.contentHash = true
  | m => ∀ staged, (buildPlan crates step.1 head m).1 = .ok (some staged) →
      InPlace crates step.1 head staged

/-- A commit publishes nothing or keeps the identity answers. -/
def KeepsAnswers (crates : Crates) (head : HeadState) (step : CommitStep) : Prop :=
  ∀ dto, (commit crates step.1 head step.2).1 = .ok (some dto) → Undisturbing crates head step

/-- An unmoved entity keeps its anchor live, with the hash of its body. -/
theorem needsReviewIds_reconcile {config : ValidatedConfig} {authored : AuthoredMap}
    {r : IdentityRegistry} (hl : r.Linked) {scope : Option (Finset String)}
    {entities : List Entity} (h : Unmoved r scope entities)
    (hreviews : ∀ e ∈ entities, ∀ id a, r.byPath.lookup e.qualifiedPath = some id →
      r.get id = some a →
      (Due config authored id e.contentHash ↔ Due config authored id a.contentHash))
    (iter : HashOrder DurableId) (mint : ℕ → DurableId) (revision : Revision) :
    needsReviewIds config authored (reconcileImpl iter mint r entities revision scope).2 =
      needsReviewIds config authored r := by
  obtain ⟨hplaces, hbound, hother⟩ := reconcileImpl_unmoved hl h iter mint revision
  generalize (reconcileImpl iter mint r entities revision scope).2 = out at hplaces hbound hother ⊢
  apply needsReviewIds_congr
  intro id
  rw [mem_needsReviewIds, mem_needsReviewIds]
  by_cases hentity : ∃ e ∈ entities, r.byPath.lookup e.qualifiedPath = some id
  · obtain ⟨e, he, hpath⟩ := hentity
    obtain ⟨a', ha', hhash⟩ := hbound e he id hpath
    obtain ⟨a, ha, -⟩ := hl.path_anchor _ _ hpath
    have hstatus := hplaces.orphaned id
    unfold IdentityRegistry.statusOf at hstatus
    rw [ha, ha', Option.map_some, Option.map_some, Option.some_inj, Option.some_inj] at hstatus
    have hdue := hreviews e he id a hpath ha
    rw [ha, ha']
    simp only [Option.some_inj, exists_eq_left', hhash, hdue, ne_eq, hstatus]
  · rw [hother id fun e he hpath => hentity ⟨e, he, hpath⟩]

/-- An inserted version outdates by its own reviewed hash. -/
theorem outdated_put (m : AuthoredMap) (layer id : String) (version : AuthoredVersion)
    (keep : Bool) (name other : String) (hash : ContentHash) :
    outdated (put m layer id version keep) name other hash =
      if (name, other) = (layer, id) then
        match version.reviewedHash with
        | none => false
        | some reviewed => decide (reviewed ≠ hash)
      else outdated m name other hash := by
  unfold outdated
  by_cases hkey : (name, other) = (layer, id)
  · rw [if_pos hkey, hkey]
    unfold put
    rw [lookup_insert_ite, if_pos rfl]
  · rw [if_neg hkey, lookup_put_of_ne hkey]

/-- An authored write takes the id off the reviews of its own layer only. -/
theorem needsReviewIds_put {config : ValidatedConfig} {authored : AuthoredMap}
    {r : IdentityRegistry} {layer id : String} {value : Json} {revision : Revision} {keep : Bool}
    {anchor : Anchor} (hanchor : r.get id = some anchor)
    (hdue : anchor.status ≠ .orphaned → Due config authored id anchor.contentHash →
      ∃ name ∈ config.topoOrder, name ≠ layer ∧ Reviews config name ∧
        outdated authored name id anchor.contentHash = true) :
    needsReviewIds config (put authored layer id ⟨value, revision, some anchor.contentHash⟩ keep)
      r = needsReviewIds config authored r := by
  apply needsReviewIds_congr
  intro other
  rw [mem_needsReviewIds, mem_needsReviewIds]
  constructor
  · rintro ⟨a, ha, hlive, name, hname, hreviews, hout⟩
    refine ⟨a, ha, hlive, name, hname, hreviews, ?_⟩
    rw [outdated_put] at hout
    split at hout
    · rename_i hkey
      cases hkey
      rw [hanchor] at ha
      cases ha
      simp at hout
    · exact hout
  · rintro ⟨a, ha, hlive, hold⟩
    refine ⟨a, ha, hlive, ?_⟩
    by_cases hid : other = id
    · subst hid
      rw [hanchor] at ha
      cases ha
      obtain ⟨name, hname, hne, hreviews, hout⟩ := hdue hlive hold
      refine ⟨name, hname, hreviews, ?_⟩
      rw [outdated_put, if_neg fun hkey => hne (congrArg Prod.fst hkey)]
      exact hout
    · obtain ⟨name, hname, hreviews, hout⟩ := hold
      refine ⟨name, hname, hreviews, ?_⟩
      rw [outdated_put, if_neg fun hkey => hid (congrArg Prod.snd hkey)]
      exact hout

/-! ## Runs -/

/-- A head answers about identity like an earlier one. -/
structure AnswersLike (start head : HeadState) : Prop where
  /-- The engine reads the published generation. -/
  inStep : InStep head
  /-- The registry is sound. -/
  sound : head.registry.Sound
  /-- The configuration is the same. -/
  config : head.config = start.config
  /-- The places are the same. -/
  places : SamePlaces start.registry head.registry
  /-- The reviews are the same. -/
  reviews : needsReviewIds head.config head.authored head.registry =
    needsReviewIds start.config start.authored start.registry

/-- A commit that keeps the answers of a head keeps those of the start. -/
theorem AnswersLike.commit {crates : Crates} {start head : HeadState} (h : AnswersLike start head)
    (step : CommitStep) (hkeeps : KeepsAnswers crates head step) :
    AnswersLike start (commitStep crates head step) := by
  obtain ⟨env, m⟩ := step
  have hsound : (commitStep crates head (env, m)).registry.Sound :=
    sound_run h.inStep h.sound (.commit env m)
  have hs' : InStep (commitStep crates head (env, m)) := h.inStep.commit crates env m
  have houtcome := commit_outcome crates env h.inStep m
  unfold commitStep at hsound hs' ⊢
  unfold KeepsAnswers at hkeeps
  dsimp only at hsound hs' hkeeps ⊢
  generalize (CommitFunnel.commit crates env head m).2 = head' at houtcome hsound hs' ⊢
  generalize (CommitFunnel.commit crates env head m).1 = result at houtcome hkeeps
  cases houtcome with
  | idle counter armed hresult => exact ⟨hs', hsound, h.config, h.places, h.reviews⟩
  | @reconciled _ dto staged counter bytes hm hplan hauth hbytes =>
    have hplace : InPlace crates env head staged := by
      cases m with
      | author layer id value => cases hm
      | overlay changes events created changed unsaved => exact hkeeps dto rfl staged hplan
      | syncPath abs => exact hkeeps dto rfl staged hplan
      | syncAll => exact hkeeps dto rfl staged hplan
      | poll events => exact hkeeps dto rfl staged hplan
    have hplaces := (reconcileImpl_unmoved h.sound.linked hplace.unmoved env.iter env.mint
      head.store.nextRevision).1
    have hreviews := needsReviewIds_reconcile h.sound.linked hplace.unmoved hplace.reviews
      env.iter env.mint head.store.nextRevision
    refine ⟨hs', hsound, h.config, h.places.trans hplaces, ?_⟩
    rw [authored_reconciledHead hauth bytes]
    exact hreviews.trans h.reviews
  | @authored layer id value dto lcfg anchor bytes record hcfg hanchor hrecord hbytes =>
    have hdue := hkeeps dto rfl anchor hanchor
    have hreviews := @needsReviewIds_put head.config head.authored head.registry layer id value
      head.store.nextRevision lcfg.history anchor hanchor hdue
    refine ⟨hs', hsound, h.config, h.places, ?_⟩
    dsimp only
    rw [hrecord]
    exact hreviews.trans h.reviews

/-- In every run of commits whose published ones keep the identity answers,
a snapshot of a retained revision answers as the head did at that
revision. -/
theorem identity_pinned {crates : Crates} {root : SystemPath} {earlier : List SessionStep}
    {head : HeadState} (hhead : runSessions crates root earlier = .opened head)
    {later : List CommitStep} (hlater : Along (commitStep crates) (KeepsAnswers crates) head later)
    {past : Snapshot}
    (hpast : snapshot (run (commitStep crates) head later) (some head.store.revision) = .ok past) :
    identityAnswers past = identityAnswers (headSnapshot head) := by
  obtain ⟨hreach, hsound⟩ := sound_runSessions hhead
  have hstart : AnswersLike head head :=
    ⟨inStep_of_reachable hreach, hsound, rfl, ⟨fun _ => rfl, fun _ => rfl, fun _ => Iff.rfl⟩, rfl⟩
  have hlike : AnswersLike head (run (commitStep crates) head later) :=
    invariant_run (fun _ step h hkeeps => h.commit step hkeeps) hstart hlater
  obtain ⟨generation, -, hsnap⟩ := snapshot_some hpast
  rw [hsnap]
  exact identityAnswers_eq hlike.places hlike.reviews

/-! ## Two later commits -/

/-- Without records nothing is due for review. -/
theorem not_due_of_no_records {config : ValidatedConfig} {authored : AuthoredMap}
    (h : authored = ∅) (id : DurableId) (hash : ContentHash) : ¬ Due config authored id hash := by
  rintro ⟨name, -, -, hout⟩
  unfold outdated at hout
  rw [h, Finmap.lookup_empty] at hout
  cases hout

/-- A longer text for the module of the note project, in a buffer. -/
def editModule : CommitStep :=
  let a : SystemPath := ⟨["p", "a.py"]⟩
  (listedEnv notePaths noteDisk,
    .overlay [.insert a "x = 100"] [.changed a .fileContent] [] [a.asStr] [a])

/-- The first note, as a commit. -/
def noteStep : CommitStep := (listedEnv notePaths noteDisk, .author "notes" "A" (.str "first"))

/-- Whether the edit finds the entities of a head in place. -/
def editInPlace (head : HeadState) : Bool :=
  match (buildPlan noteCrates editModule.1 head editModule.2).1 with
  | .ok (some staged) => decide (Unmoved head.registry staged.scope
      (scopedEntities noteCrates (editModule.1.engine.answers staged.stagedGen) staged.scope))
  | _ => false

/-- Whether a head has no records before and after the edit, and its revision
is retained after the note. -/
def editThenNote (head : HeadState) : Bool :=
  editInPlace head && decide (head.authored = ∅) &&
    decide ((commitStep noteCrates head editModule).authored = ∅) &&
    ((run (commitStep noteCrates) head [editModule, noteStep]).store.generationAt
      head.store.revision).isSome

/-- An edited body without a note and a note on it keep the answers of the
revision before. -/
theorem identity_pinned_edit_then_note :
    ∃ head past, runSessions noteCrates ⟨["p"]⟩ [openNotes notesConfig] = .opened head ∧
      snapshot (run (commitStep noteCrates) head [editModule, noteStep])
        (some head.store.revision) = .ok past ∧
      identityAnswers past = identityAnswers (headSnapshot head) := by
  have htest : opensTo editThenNote (runSessions noteCrates ⟨["p"]⟩ [openNotes notesConfig]) =
      true := by decide +kernel
  obtain ⟨head, hhead, hchecks⟩ := exists_of_opensTo htest
  unfold editThenNote at hchecks
  simp only [Bool.and_eq_true, decide_eq_true_eq] at hchecks
  obtain ⟨⟨⟨hplace, hnone⟩, hnone'⟩, hretained⟩ := hchecks
  obtain ⟨generation, hgeneration⟩ := Option.isSome_iff_exists.mp hretained
  have hpast : snapshot (run (commitStep noteCrates) head [editModule, noteStep])
      (some head.store.revision) = .ok (pin (run (commitStep noteCrates) head
        [editModule, noteStep]) generation head.store.revision none false) := by
    unfold snapshot
    dsimp only
    rw [hgeneration]
  have hedit : KeepsAnswers noteCrates head editModule := by
    intro dto _ staged hplan
    have hplan' : (buildPlan noteCrates editModule.1 head editModule.2).1 = .ok (some staged) :=
      hplan
    unfold editInPlace at hplace
    rw [hplan'] at hplace
    refine ⟨of_decide_eq_true hplace, fun e _ id a _ _ => ?_⟩
    have hfirst := @not_due_of_no_records head.config head.authored hnone id
    exact iff_of_false (hfirst e.contentHash) (hfirst a.contentHash)
  have hnote : KeepsAnswers noteCrates (commitStep noteCrates head editModule) noteStep := by
    intro dto _ a _ _ hdue
    exact absurd hdue (not_due_of_no_records hnone' _ _)
  have hlater : Along (commitStep noteCrates) (KeepsAnswers noteCrates) head
      [editModule, noteStep] := ⟨hedit, hnote, trivial⟩
  exact ⟨head, _, hhead, hpast, identity_pinned hhead hlater hpast⟩

/-- A watcher event that the module of the note project is gone. -/
def dropModule : CommitStep := (listedEnv notePaths noteDisk, .poll [.deleted ⟨["p", "a.py"]⟩ .file])

/-- The id under the path of the variable, and the orphans, as the head reads
them and as a snapshot of its revision does after the event. -/
def readsAfterDrop (head : HeadState) :
    Option ((Option DurableId × List DurableId) × (Option DurableId × List DurableId)) :=
  match snapshot (run (commitStep noteCrates) head [dropModule]) (some head.store.revision) with
  | .ok past =>
    some (((headSnapshot head).byPath "/p/a.py::x", (headSnapshot head).orphaned .increasing),
      (past.byPath "/p/a.py::x", past.orphaned .increasing))
  | .error _ => none

/-- When the only module is dropped, a snapshot of the revision before it
finds no id under the path of its variable and reports the id as orphaned,
unlike the head snapshot of that revision. -/
theorem identity_not_pinned_after_drop :
    ∃ head past, runSessions noteCrates ⟨["p"]⟩ [openNotes notesConfig] = .opened head ∧
      snapshot (run (commitStep noteCrates) head [dropModule]) (some head.store.revision) =
        .ok past ∧
      (headSnapshot head).byPath "/p/a.py::x" = some "A" ∧ past.byPath "/p/a.py::x" = none ∧
      (headSnapshot head).orphaned .increasing = [] ∧ past.orphaned .increasing = ["A"] ∧
      identityAnswers past ≠ identityAnswers (headSnapshot head) := by
  have htest : opensTo (fun head => decide (readsAfterDrop head =
      some ((some "A", []), (none, ["A"]))))
      (runSessions noteCrates ⟨["p"]⟩ [openNotes notesConfig]) = true := by decide +kernel
  obtain ⟨head, hhead, hreads⟩ := exists_of_opensTo htest
  have hreads := of_decide_eq_true hreads
  unfold readsAfterDrop at hreads
  split at hreads
  · rename_i past hpast
    simp only [Option.some.injEq, Prod.mk.injEq] at hreads
    obtain ⟨⟨hpath, horphaned⟩, hpath', horphaned'⟩ := hreads
    refine ⟨head, past, hhead, hpast, hpath, hpath', horphaned, horphaned', fun hsame => ?_⟩
    have hsamePath := congrArg (fun answers => answers.byPath "/p/a.py::x") hsame
    have hnone : some "A" = none := hpath.symm.trans (hsamePath.symm.trans hpath')
    cases hnone
  · cases hreads

end Tyo3.PinnedIdentity
