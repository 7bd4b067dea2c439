import Tyo3.AuthoredHistory
import Tyo3.Snapshots

/-!
# Authored values of past revisions

A snapshot of a retained revision reads the newest version stamped at that
revision or before it. Within a session stamps grow with the revision, so
later writes do not disturb the read. Versions that were loaded carry the
stamps of an earlier session: the head reads the current one in any case, a
snapshot of the past does not find it while its stamp is ahead.
-/

namespace Tyo3.AuthoredTimeTravel

open AuthoredHistory AuthoredLoading AuthoredStore CommitAtomicity CommitFunnel CommitOutcomes
  CommitPlan Entities FiniteMaps JsonValues ProjectSessions Runs Snapshots SystemPaths

/-! ## Versions by revision -/

/-- The version read at a revision is the last one stamped by then. -/
theorem valueAt_eq_find? (m : AuthoredMap) (layer id : String) (r : Revision) :
    valueAt m layer id r = (versionsAt m layer id).reverse.find? fun v => v.revision ≤ r := by
  unfold valueAt versionsAt
  cases m.lookup (layer, id) with
  | none => rfl
  | some rec =>
    simp only [Option.map_some, Option.getD_some, versions, List.reverse_append,
      List.reverse_singleton, List.singleton_append, List.find?_cons]
    by_cases h : rec.current.revision ≤ r <;> simp [h]

/-- Versions stamped later do not change what is read at a revision. -/
theorem valueAt_of_append {m m' : AuthoredMap} {layer id : String} {r : Revision}
    {news : List AuthoredVersion} (h : versionsAt m' layer id = versionsAt m layer id ++ news)
    (hnews : ∀ v ∈ news, r < v.revision) : valueAt m' layer id r = valueAt m layer id r := by
  have hskip : news.reverse.find? (fun v => decide (v.revision ≤ r)) = none := by
    rw [List.find?_eq_none]
    intro v hv hle
    have hlt := hnews v (List.mem_reverse.mp hv)
    exact absurd (of_decide_eq_true hle) (Nat.not_le_of_lt hlt)
  rw [valueAt_eq_find?, valueAt_eq_find?, h, List.reverse_append, List.find?_append, hskip]
  rfl

/-- A version is read at a revision exactly when one is stamped by then. -/
theorem valueAt_eq_none_iff {m : AuthoredMap} {layer id : String} {r : Revision} :
    valueAt m layer id r = none ↔ ∀ v ∈ versionsAt m layer id, r < v.revision := by
  rw [valueAt_eq_find?, List.find?_eq_none]
  simp only [List.mem_reverse, decide_eq_true_eq, Nat.not_le]

/-- There is a current version exactly when there is any. -/
theorem value_eq_none_iff {m : AuthoredMap} {layer id : String} :
    value m layer id = none ↔ versionsAt m layer id = [] := by
  unfold value versionsAt versions
  cases m.lookup (layer, id) with
  | none => simp
  | some rec => simp

/-! ## One session -/

/-- Commits and armed faults, the operations under a fixed configuration. -/
def Action.Commits : Action → Prop
  | .commit _ _ => True
  | .faultInject _ => True
  | _ => False

/-- The head after operations of one session. -/
def runActions (crates : Crates) (head : HeadState) (actions : List Action) : HeadState :=
  run (fun head a => a.run crates head) head actions

/-- What the operations of a session do to a record of a layer that keeps its
history, seen from an earlier revision. -/
structure Grew (layer id : String) (start head : HeadState) : Prop where
  /-- The head is one of a session. -/
  inStep : InStep head
  /-- The configuration is the same. -/
  config : head.config = start.config
  /-- The revision did not go back. -/
  revision : start.store.revision ≤ head.store.revision
  /-- New versions stand at the end and are stamped later. -/
  versions : ∃ news, versionsAt head.authored layer id =
    versionsAt start.authored layer id ++ news ∧ ∀ v ∈ news, start.store.revision < v.revision

/-- Every operation lets a record grow. -/
theorem Grew.run {crates : Crates} {layer id : String} {cfg : LayerCfg} {start head : HeadState}
    (hcfg : start.config.authoredLayerConfig layer = some cfg) (hkeep : cfg.history = true)
    (h : Grew layer id start head) {a : Action} (ha : Action.Commits a) :
    Grew layer id start (a.run crates head) := by
  cases a with
  | registerAuthoredLayer name history reviewOnChange => cases ha
  | reload => cases ha
  | faultInject stage => exact ⟨h.inStep, h.config, h.revision, h.versions⟩
  | commit env m =>
    have hin := h.inStep.commit crates env m
    have houtcome := commit_outcome crates env h.inStep m
    unfold Action.run
    dsimp only
    generalize (commit crates env head m).2 = head' at houtcome hin ⊢
    generalize (commit crates env head m).1 = result at houtcome
    cases houtcome with
    | idle counter armed hresult => exact ⟨hin, h.config, h.revision, h.versions⟩
    | reconciled staged counter bytes hm hplan hauth hbytes =>
      refine ⟨hin, h.config, Nat.le_succ_of_le h.revision, ?_⟩
      rw [authored_reconciledHead hauth bytes]
      exact h.versions
    | @authored name i value dto lcfg anchor bytes record hname hanchor hrecord hbytes =>
      refine ⟨hin, h.config, Nat.le_succ_of_le h.revision, ?_⟩
      obtain ⟨news, hnews, hlater⟩ := h.versions
      dsimp only
      by_cases heq : (layer, id) = (name, i)
      · cases heq
        rw [h.config, hcfg] at hname
        cases hname
        refine ⟨news ++ [⟨value, head.store.nextRevision, some anchor.contentHash⟩], ?_, ?_⟩
        · rw [← List.append_assoc, ← hnews, hrecord, hkeep]
          unfold versionsAt
          rw [lookup_put_keep]
          rfl
        · intro v hv
          rcases List.mem_append.mp hv with hold | hnew
          · exact hlater v hold
          · rw [List.mem_singleton.mp hnew]
            exact Nat.lt_succ_of_le h.revision
      · refine ⟨news, ?_, hlater⟩
        rw [← hnews, hrecord]
        unfold versionsAt
        rw [lookup_put_of_ne heq]

/-- What a session does to a record of a layer that keeps its history. -/
theorem grew_runActions {crates : Crates} {layer id : String} {cfg : LayerCfg} {start : HeadState}
    (hs : InStep start) (hcfg : start.config.authoredLayerConfig layer = some cfg)
    (hkeep : cfg.history = true) {actions : List Action}
    (hactions : ∀ a ∈ actions, Action.Commits a) :
    Grew layer id start (runActions crates start actions) := by
  have hstart : Grew layer id start start :=
    ⟨hs, rfl, Nat.le_refl _, [], (List.append_nil _).symm, fun v hv => by cases hv⟩
  have hstep : ∀ head a, Grew layer id start head → Action.Commits a →
      Grew layer id start (a.run crates head) := fun _ _ h ha => h.run hcfg hkeep ha
  exact invariant_run hstep hstart (along_of_forall hactions)

/-! ## Runs under one configuration -/

/-- A step under a fixed configuration: the project is opened with it, and no
layer is declared later. -/
def UnderConfig (config : ValidatedConfig) : SessionStep → Prop
  | .open_ req => req.config = config
  | .act a => Action.Commits a
  | .close => True

/-- Every session of such a run has the configuration. -/
theorem config_runSessions {crates : Crates} {root : SystemPath} {config : ValidatedConfig}
    {steps : List SessionStep} (hsteps : ∀ step ∈ steps, UnderConfig config step)
    {head : HeadState} (hhead : runSessions crates root steps = .opened head) :
    Reachable crates head ∧ head.config = config := by
  have hstep : ∀ p step,
      OpenIs crates root p ∧ (∀ head, p = .opened head → head.config = config) →
      UnderConfig config step →
      OpenIs crates root (takeStep crates root p step) ∧
        ∀ head, takeStep crates root p step = .opened head → head.config = config := by
    rintro p step ⟨hopen, hconfig⟩ hunder
    refine ⟨openIs_takeStep hopen step, ?_⟩
    have heffect := takeStep_effect hopen step
    generalize takeStep crates root p step = p' at heffect ⊢
    intro head hhead
    subst hhead
    cases heffect with
    | refused hrefused => exact hconfig head rfl
    | opened _ bytes hfiles hsame hload => exact hsame.trans hunder
    | registered => cases hunder
    | reloaded => cases hunder
    | kept _ hnot hfiles hauthored hsame => exact hsame.trans (hconfig _ rfl)
    | authored lcfg anchor bytes record _ hresult hcfg hanchor hrecord hbytes hfiles hauthored
        hsame => exact hsame.trans (hconfig _ rfl)
  have hstart : OpenIs crates root (.closed ∅) ∧
      ∀ head, Project.closed ∅ = .opened head → head.config = config :=
    ⟨trivial, fun head h => by cases h⟩
  have hinv := invariant_run hstep hstart (along_of_forall hsteps)
  unfold runSessions at hhead
  rw [hhead] at hinv
  exact ⟨hinv.1.1, hinv.2 head rfl⟩

/-- Under one fixed configuration, in every run with any closings and
reopenings: a snapshot of a retained revision of the current session reads
for a record of a layer with history what a head snapshot read at that
revision, exactly when the session then had no record, or one with a version
stamped by that revision. -/
theorem time_travel_read_iff {crates : Crates} {root : SystemPath} {config : ValidatedConfig}
    {layer : String} {cfg : LayerCfg} (hcfg : config.authoredLayerConfig layer = some cfg)
    (hkeep : cfg.history = true) {earlier : List SessionStep}
    (hearlier : ∀ step ∈ earlier, UnderConfig config step) {head : HeadState}
    (hhead : runSessions crates root earlier = .opened head) {later : List Action}
    (hlater : ∀ a ∈ later, Action.Commits a) {past : Snapshot}
    (hpast : snapshot (runActions crates head later) (some head.store.revision) = .ok past)
    (id : String) :
    (past.authoredValue layer id).value = ((headSnapshot head).authoredValue layer id).value ↔
      ∀ rec, head.authored.lookup (layer, id) = some rec →
        ∃ v ∈ rec.history ++ [rec.current], v.revision ≤ head.store.revision := by
  obtain ⟨hreach, hconfig⟩ := config_runSessions hearlier hhead
  rw [← hconfig] at hcfg
  have hgrew := @grew_runActions crates layer id cfg head (inStep_of_reachable hreach) hcfg hkeep
    later hlater
  obtain ⟨news, hnews, hstamps⟩ := hgrew.versions
  obtain ⟨generation, -, hsnap⟩ := snapshot_some hpast
  have hpastRead : past.versionOf layer id = valueAt head.authored layer id head.store.revision := by
    rw [hsnap]
    exact valueAt_of_append hnews hstamps
  have hheadRead : (headSnapshot head).versionOf layer id =
      (valueAt head.authored layer id head.store.revision).or (value head.authored layer id) := rfl
  rw [Snapshot.value_authoredValue, Snapshot.value_authoredValue, hpastRead, hheadRead]
  have hcond : (∀ rec, head.authored.lookup (layer, id) = some rec →
      ∃ v ∈ rec.history ++ [rec.current], v.revision ≤ head.store.revision) ↔
      (value head.authored layer id = none ∨
        valueAt head.authored layer id head.store.revision ≠ none) := by
    rw [value_eq_none_iff, Ne, valueAt_eq_none_iff]
    unfold versionsAt
    cases head.authored.lookup (layer, id) with
    | none => simp
    | some rec => simp [versions]
  rw [hcond]
  cases hat : valueAt head.authored layer id head.store.revision with
  | some v => simp
  | none => simp [eq_comm]

/-- The second write of the note. -/
def secondWrite : Action :=
  .commit (listedEnv notePaths noteDisk) (.author "notes" "A" (.str "second"))

/-- Whether the note has a version stamped by the current revision, and this
revision is retained after the second write. -/
def stamped : Project → Bool
  | .closed _ => false
  | .opened head =>
    (head.authored.lookup ("notes", "A")).any (fun rec =>
      decide (rec.current.revision ≤ head.store.revision)) &&
    ((runActions noteCrates head [secondWrite]).store.generationAt head.store.revision).isSome

/-- A note that is written twice in one session is read back at the revision of
its first version. -/
theorem rewritten_note_read_back :
    ∃ head past, runSessions noteCrates ⟨["p"]⟩ [openNotes notesConfig, writeNote "first"] =
        .opened head ∧
      snapshot (runActions noteCrates head [secondWrite]) (some head.store.revision) = .ok past ∧
      (past.authoredValue "notes" "A").value =
        ((headSnapshot head).authoredValue "notes" "A").value := by
  have hstamped : stamped (runSessions noteCrates ⟨["p"]⟩
      [openNotes notesConfig, writeNote "first"]) = true := by decide +kernel
  cases hp : runSessions noteCrates ⟨["p"]⟩ [openNotes notesConfig, writeNote "first"] with
  | closed files =>
    rw [hp] at hstamped
    cases hstamped
  | opened head =>
    rw [hp] at hstamped
    obtain ⟨hrec, hretained⟩ := Bool.and_eq_true_iff.mp hstamped
    obtain ⟨generation, hgeneration⟩ := Option.isSome_iff_exists.mp hretained
    have hpast : snapshot (runActions noteCrates head [secondWrite]) (some head.store.revision) =
        .ok (pin (runActions noteCrates head [secondWrite]) generation head.store.revision none
          false) := by
      simp only [snapshot, hgeneration]
    have hcfg : notesConfig.authoredLayerConfig "notes" = some ⟨.authored, true, true⟩ := by decide
    have hsteps : ∀ step ∈ [openNotes notesConfig, writeNote "first"],
        UnderConfig notesConfig step := by
      intro step hstep
      simp only [List.mem_cons, List.not_mem_nil, or_false] at hstep
      rcases hstep with rfl | rfl
      · rfl
      · trivial
    have hlater : ∀ a ∈ [secondWrite], Action.Commits a := by
      intro a ha
      rw [List.mem_singleton.mp ha]
      trivial
    refine ⟨head, _, rfl, hpast, ?_⟩
    refine (time_travel_read_iff hcfg rfl hsteps hp hlater hpast "A").mpr fun rec hlookup => ?_
    rw [hlookup] at hrec
    exact ⟨rec.current, List.mem_append_right _ (List.mem_singleton_self _),
      of_decide_eq_true hrec⟩

/-- The note as the head reads it and as a snapshot of the same revision
does. -/
def readNote : Project → Option (Option Json × Option Json)
  | .closed _ => none
  | .opened head =>
    match snapshot head (some head.store.revision) with
    | .ok past => some (((headSnapshot head).authoredValue "notes" "A").value,
        (past.authoredValue "notes" "A").value)
    | .error _ => none

/-- A note written in one session: the head of the reopened project reads it
at the first revision, the snapshot of this revision does not. -/
theorem reopened_note_unread :
    let steps := [openNotes notesConfig, writeNote "first", .close, openNotes notesConfig]
    ∃ head past, runSessions noteCrates ⟨["p"]⟩ steps = .opened head ∧
      snapshot head (some head.store.revision) = .ok past ∧
      ((headSnapshot head).authoredValue "notes" "A").value = some (.str "first") ∧
      (past.authoredValue "notes" "A").value = none := by
  intro steps
  have hread : readNote (runSessions noteCrates ⟨["p"]⟩ steps) =
      some (some (.str "first"), none) := by decide +kernel
  generalize runSessions noteCrates ⟨["p"]⟩ steps = p at hread ⊢
  cases p with
  | closed files => cases hread
  | opened head =>
    unfold readNote at hread
    dsimp only at hread
    split at hread
    · rename_i past hpast
      simp only [Option.some.injEq, Prod.mk.injEq] at hread
      exact ⟨head, past, rfl, hpast, hread.1, hread.2⟩
    · cases hread

end Tyo3.AuthoredTimeTravel
