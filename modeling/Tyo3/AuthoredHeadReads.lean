import Tyo3.AuthoredPersistence
import Tyo3.PinnedIdentity

/-!
# Authored values at the head

A head snapshot looks for the newest version stamped at its revision or before
it, and takes the current version only when there is none. The revisions of a
session start again at one, while the versions of an earlier session keep
their stamps: a session that has passed the stamp of an old version, but not
yet the one of the current version, reads the old value.
-/

namespace Tyo3.AuthoredHeadReads

open AuthoredHistory AuthoredLoading AuthoredPersistence AuthoredStore AuthoredTimeTravel
  CommitFunnel CommitPlan FiniteMaps JsonValues PinnedIdentity ProjectSessions ResolvedPaths Runs
  Snapshots SystemPaths

/-! ## The last authored value -/

section Last

variable (crates : Crates) (root : SystemPath) (layer id : String)

/-- The value that a step successfully authors for a record. -/
def authoredBy (p : Project) (step : SessionStep) : Option Json :=
  match p, step with
  | .opened head, .act (.commit env (.author name i value)) =>
    if (layer, id) = (name, i) then
      match (commit crates env head (.author name i value)).1 with
      | .ok (some _) => some value
      | _ => none
    else none
  | _, _ => none

/-- A step, with the last value that was authored for a record. -/
def remember (s : Project × Option Json) (step : SessionStep) : Project × Option Json :=
  (takeStep crates root s.1 step, (authoredBy crates layer id s.1 step).or s.2)

/-- The value of the last successful author commit on a record in a run. -/
def lastAuthored (steps : List SessionStep) : Option Json :=
  (run (remember crates root layer id) (.closed ∅, none) steps).2

/-- Remembering does not change the run. -/
theorem run_remember (steps : List SessionStep) :
    (run (remember crates root layer id) (.closed ∅, none) steps).1 =
      runSessions crates root steps := by
  have hview : ∀ s step, (remember crates root layer id s step).1 =
      takeStep crates root s.1 step := fun _ _ => rfl
  exact run_view hview (.closed ∅, none) steps

variable {crates root layer id}

/-- A step that authors nothing leaves the last value. -/
theorem authoredBy_eq_none {p : Project} {step : SessionStep}
    (hnot : ∀ layer id value, ¬ Authors crates p step layer id value) :
    authoredBy crates layer id p step = none := by
  unfold authoredBy
  split
  · rename_i head env name i value
    split_ifs
    · split
      · rename_i dto hok
        exact absurd ⟨head, env, dto, rfl, rfl, hok⟩ (hnot name i value)
      · rfl
    · rfl
  · rfl

/-- A successful write is the last one on its record. -/
theorem authoredBy_authored {head : HeadState} {env : Env} {name i : String} {value : Json}
    {dto : CommitDelta}
    (hresult : (commit crates env head (.author name i value)).1 = .ok (some dto)) :
    authoredBy crates layer id (.opened head) (.act (.commit env (.author name i value))) =
      if (layer, id) = (name, i) then some value else none := by
  simp only [authoredBy, hresult]

end Last

/-! ## What a head reads -/

/-- A stored record is in memory. -/
def HoldsStored (root : SystemPath) (head : HeadState) (layer id : String) : Prop :=
  (head.sidecar.lookup (recordPath root layer id)).isSome →
    (head.authored.lookup (layer, id)).isSome

/-- The current version is stamped at the revision of the head or before it, or
the newest earlier version that is so stamped has the same value. -/
def InSight (head : HeadState) (layer id : String) : Prop :=
  ∀ rec, head.authored.lookup (layer, id) = some rec →
    rec.current.revision ≤ head.store.revision ∨
      ∀ v, rec.history.reverse.find? (fun v => v.revision ≤ head.store.revision) = some v →
        v.value = rec.current.value

/-- The value that the head reads of a record in memory. -/
theorem headRead_eq_iff {head : HeadState} {layer id : String} {rec : AuthoredRecord}
    (hrec : head.authored.lookup (layer, id) = some rec) :
    ((headSnapshot head).authoredValue layer id).value = some rec.current.value ↔
      InSight head layer id := by
  have hversion : (headSnapshot head).versionOf layer id =
      (valueAt head.authored layer id head.store.revision).or (value head.authored layer id) := rfl
  have hsight : InSight head layer id ↔ rec.current.revision ≤ head.store.revision ∨
      ∀ v, rec.history.reverse.find? (fun v => v.revision ≤ head.store.revision) = some v →
        v.value = rec.current.value := by
    unfold InSight
    rw [hrec]
    exact ⟨fun h => h rec rfl, fun h rec' hrec' => Option.some.inj hrec' ▸ h⟩
  rw [Snapshot.value_authoredValue, hversion, hsight]
  unfold valueAt value
  rw [hrec]
  dsimp only
  split_ifs with hstamp
  · simp [hstamp]
  · cases hfind : rec.history.reverse.find? (fun v => v.revision ≤ head.store.revision) with
    | none => simp
    | some v => simp [hstamp]

/-- The head reads nothing of a record that is not in memory. -/
theorem headRead_of_none {head : HeadState} {layer id : String}
    (hrec : head.authored.lookup (layer, id) = none) :
    ((headSnapshot head).authoredValue layer id).value = none := by
  have hversion : (headSnapshot head).versionOf layer id =
      (valueAt head.authored layer id head.store.revision).or (value head.authored layer id) := rfl
  rw [Snapshot.value_authoredValue, hversion]
  unfold valueAt value
  rw [hrec]
  rfl

/-! ## The invariant of a run -/

/-- A commit, an armed fault, a closing, or an opening with a validated
configuration, where the layers have plain names and the authored ids are
single pieces, so that the path of a record is its file. -/
def Named : SessionStep → Prop
  | .open_ req => Ordered req.config ∧
      ∀ name cfg, req.config.authoredLayerConfig name = some cfg → Plain name
  | .act (.commit _ (.author _ i _)) => Whole i
  | .act a => Action.Commits a
  | .close => True

section Invariant

variable {crates : Crates} {root : SystemPath} {layer id : String}

/-- What holds of a record and of the last value authored for it at every point
of a run. -/
structure Remembers (crates : Crates) (root : SystemPath) (layer id : String)
    (s : Project × Option Json) : Prop where
  /-- The head belongs to a session of the project. -/
  isOpen : OpenIs crates root s.1
  /-- Every file is the record of its own name. -/
  own : OwnFiles crates.codec root s.1.files
  /-- The file of the record holds the last value, or there is neither. -/
  last : (s.1.files.lookup (recordPath root layer id) = none ∧ s.2 = none) ∨
    ∃ bytes doc, s.1.files.lookup (recordPath root layer id) = some bytes ∧
      docFromBytes crates.codec bytes = .ok doc ∧ s.2 = some doc.current.value
  /-- The record in memory has the current version of the stored one. -/
  held : ∀ head, s.1 = .opened head → ∀ rec, head.authored.lookup (layer, id) = some rec →
    ∃ doc, storedDoc crates.codec root s.1.files layer id = some doc ∧ doc.current = rec.current
  /-- A stored record of a declared layer is in memory. -/
  complete : ∀ head, s.1 = .opened head → (head.config.authoredLayerConfig layer).isSome →
    id ≠ "" → HoldsStored root head layer id

/-- A project without a sidecar remembers nothing. -/
theorem remembers_new : Remembers crates root layer id (.closed ∅, none) where
  isOpen := trivial
  own := by
    have hnew : InOrder crates root layer (.closed ∅) := inOrder_new
    exact hnew.own
  last := .inl ⟨Finmap.lookup_empty _, rfl⟩
  held := fun head h => by cases h
  complete := fun head h => by cases h

/-- Files with the same records are remembered as before. -/
theorem Remembers.ofSameRecords {p p' : Project} {value : Option Json}
    (h : Remembers crates root layer id (p, value)) (hopen : OpenIs crates root p')
    (hfiles : SameRecords root p.files p'.files)
    (hheld : ∀ head', p' = .opened head' → ∀ rec, head'.authored.lookup (layer, id) = some rec →
      ∃ doc, storedDoc crates.codec root p'.files layer id = some doc ∧ doc.current = rec.current)
    (hcomplete : ∀ head', p' = .opened head' → (head'.config.authoredLayerConfig layer).isSome →
      id ≠ "" → HoldsStored root head' layer id) :
    Remembers crates root layer id (p', value) where
  isOpen := hopen
  own := hfiles.ownFiles h.own
  last := by
    have hlast := h.last
    dsimp only at hlast ⊢
    rw [hfiles.lookup layer id]
    exact hlast
  held := hheld
  complete := hcomplete

/-- Opening remembers: the record that is loaded has the stored current
version, and it is loaded where its layer is declared. -/
theorem Remembers.opened {files : FMap SystemPath Bytes} {value : Option Json}
    (h : Remembers crates root layer id (.closed files, value)) {head : HeadState} {bytes : Bytes}
    {listing : HashOrder SystemPath} (hopen : OpenIs crates root (.opened head))
    (hordered : Ordered head.config)
    (hfiles : head.sidecar = files.insert (identityDbPath root) bytes)
    (hload : loadAuthoredRecords crates.codec listing root head.config head.sidecar =
      .ok head.authored) : Remembers crates root layer id (.opened head, value) := by
  have hsame : SameRecords root files head.sidecar := .inr ⟨bytes, hfiles⟩
  have hlookup : head.authored.lookup (layer, id) = _ :=
    lookup_loadAuthoredRecords (hsame.ownFiles h.own) hordered.nodup hload
  refine h.ofSameRecords hopen hsame ?_ ?_
  · intro head' hhead' rec hrec
    cases hhead'
    rw [hlookup] at hrec
    split_ifs at hrec
    obtain ⟨cfg, -, hmap⟩ := Option.bind_eq_some_iff.mp hrec
    obtain ⟨doc, hdoc, hreread⟩ := Option.map_eq_some_iff.mp hmap
    refine ⟨doc, hdoc, ?_⟩
    rw [← hreread]
    rfl
  · intro head' hhead' hdeclared hid hstored
    cases hhead'
    obtain ⟨cfg, hcfg⟩ := Option.isSome_iff_exists.mp hdeclared
    obtain ⟨file, hfile⟩ := Option.isSome_iff_exists.mp hstored
    have hbefore : files.lookup (recordPath root layer id) = some file := by
      rw [← hsame.lookup layer id]
      exact hfile
    rcases h.last with ⟨hnone, -⟩ | ⟨file', doc, hfile', hdoc, -⟩
    · cases hnone.symm.trans hbefore
    · cases hfile'.symm.trans hbefore
      rw [hlookup, if_pos ⟨hordered.mem_topoOrder hcfg, mem_recordFiles hid hfile⟩, hcfg,
        storedDoc_of_lookup hfile hdoc]
      rfl

/-- A successful write is remembered. -/
theorem Remembers.authored {head head' : HeadState} {last : Option Json}
    (h : Remembers crates root layer id (.opened head, last))
    (hopen : OpenIs crates root (.opened head')) {name i : String} {bytes : Bytes}
    {rec : AuthoredRecord} {record : AuthoredMap} {keep : Bool} {version : AuthoredVersion}
    (hrecord : record = AuthoredStore.put head.authored name i version keep)
    (hrec : record.lookup (name, i) = some rec)
    (hdoc : docFromBytes crates.codec bytes = .ok (AuthoredRecordDoc.of name i rec))
    (hfiles : head'.sidecar = head.sidecar.insert (recordPath root name i) bytes)
    (hauthored : head'.authored = record) (hconfig : head'.config = head.config) :
    Remembers crates root layer id (.opened head',
      (if (layer, id) = (name, i) then some rec.current.value else none).or last) := by
  have hown : OwnFiles crates.codec root head'.sidecar := by
    rw [hfiles]
    exact ownFiles_insert h.own hdoc
  by_cases hkey : (layer, id) = (name, i)
  · cases hkey
    rw [if_pos rfl, Option.some_or]
    have hlookup : head'.sidecar.lookup (recordPath root layer id) = some bytes := by
      rw [hfiles, lookup_insert_recordPath, if_pos rfl]
    refine ⟨hopen, hown, .inr ⟨bytes, _, hlookup, hdoc, rfl⟩, ?_, ?_⟩
    · intro head₁ hhead₁ rec' hrec'
      cases hhead₁
      rw [hauthored, hrec] at hrec'
      cases hrec'
      exact ⟨_, storedDoc_of_lookup hlookup hdoc, rfl⟩
    · intro head₁ hhead₁ _ _ _
      cases hhead₁
      rw [hauthored, hrec]
      rfl
  · rw [if_neg hkey, Option.none_or]
    have hlookup : head'.sidecar.lookup (recordPath root layer id) =
        head.sidecar.lookup (recordPath root layer id) := by
      rw [hfiles, lookup_insert_recordPath, if_neg hkey]
    have hmemory : head'.authored.lookup (layer, id) = head.authored.lookup (layer, id) := by
      rw [hauthored, hrecord, lookup_put_of_ne hkey]
    refine ⟨hopen, hown, ?_, ?_, ?_⟩
    · have hlast := h.last
      dsimp only [Project.files_opened] at hlast ⊢
      rw [hlookup]
      exact hlast
    · intro head₁ hhead₁ rec' hrec'
      cases hhead₁
      rw [hmemory] at hrec'
      obtain ⟨doc, hstored, hcurrent⟩ := h.held head rfl rec' hrec'
      exact ⟨doc, (storedDoc_congr hlookup).trans hstored, hcurrent⟩
    · intro head₁ hhead₁ hdeclared hid hstored
      cases hhead₁
      rw [hconfig] at hdeclared
      rw [hlookup] at hstored
      rw [hmemory]
      exact h.complete head rfl hdeclared hid hstored

/-- Every step of a run is remembered. -/
theorem Remembers.step {s : Project × Option Json} (h : Remembers crates root layer id s)
    {step : SessionStep} (hnamed : Named step) (hlegible : Legible crates s.1 step) :
    Remembers crates root layer id (remember crates root layer id s step) := by
  obtain ⟨p, last⟩ := s
  have hopen : OpenIs crates root (takeStep crates root p step) := openIs_takeStep h.isOpen step
  have heffect : Effect crates root p step (takeStep crates root p step) :=
    takeStep_effect h.isOpen step
  unfold remember
  dsimp only at hlegible ⊢
  generalize takeStep crates root p step = p' at hopen heffect ⊢
  cases heffect with
  | refused hstep =>
    rw [authoredBy_eq_none hstep, Option.none_or]
    exact h
  | openFailed files' hfiles => exact h.ofSameRecords hopen hfiles nofun nofun
  | @opened files req head bytes hfiles hconfig hload =>
    have hordered : Ordered head.config := by
      rw [hconfig]
      exact hnamed.1
    exact h.opened hopen hordered hfiles hload
  | closed => exact h.ofSameRecords hopen (.inl rfl) nofun nofun
  | registered => cases hnamed
  | reloaded => cases hnamed
  | @kept head a head' hnot hfiles hauthored hconfig =>
    rw [authoredBy_eq_none hnot, Option.none_or]
    refine h.ofSameRecords hopen hfiles ?_ ?_
    · intro head₁ hhead₁ rec hrec
      cases hhead₁
      rw [hauthored] at hrec
      obtain ⟨doc, hstored, hcurrent⟩ := h.held head rfl rec hrec
      exact ⟨doc, (storedDoc_congr (hfiles.lookup layer id)).trans hstored, hcurrent⟩
    · intro head₁ hhead₁ hdeclared hid hstored
      cases hhead₁
      rw [hconfig] at hdeclared
      rw [hfiles.lookup layer id] at hstored
      rw [hauthored]
      exact h.complete head rfl hdeclared hid hstored
  | @authored head env name i value dto lcfg anchor bytes record head' hresult hcfg hanchor hrecord
      hbytes hfiles hauthored hconfig =>
    obtain ⟨rec, hrec, hvalue, hdoc⟩ := docFromBytes_written hcfg hanchor hrecord hbytes hlegible
    rw [authoredBy_authored hresult, ← hvalue]
    exact h.authored hopen hrecord hrec hdoc hfiles hauthored hconfig

/-- The head of a remembered project reads the last value exactly where it
holds the stored record and has its current version in sight. -/
theorem Remembers.headRead_iff {head : HeadState} {last : Option Json}
    (h : Remembers crates root layer id (.opened head, last)) :
    ((headSnapshot head).authoredValue layer id).value = last ↔
      HoldsStored root head layer id ∧ InSight head layer id := by
  have hfile : (head.sidecar.lookup (recordPath root layer id) = none ∧ last = none) ∨
      ∃ bytes doc, head.sidecar.lookup (recordPath root layer id) = some bytes ∧
        docFromBytes crates.codec bytes = .ok doc ∧ last = some doc.current.value := h.last
  cases hrec : head.authored.lookup (layer, id) with
  | none =>
    have hsight : InSight head layer id := fun rec hrec' => by
      rw [hrec] at hrec'
      cases hrec'
    have hholds : HoldsStored root head layer id ↔
        head.sidecar.lookup (recordPath root layer id) = none := by
      unfold HoldsStored
      rw [hrec]
      simp
    rw [headRead_of_none hrec, and_iff_left hsight, hholds]
    rcases hfile with ⟨hnone, hlast⟩ | ⟨bytes, doc, hsome, -, hlast⟩
    · simp [hnone, hlast]
    · simp [hsome, hlast]
  | some rec =>
    have hholds : HoldsStored root head layer id := fun _ => by
      rw [hrec]
      rfl
    obtain ⟨doc, hstored, hcurrent⟩ := h.held head rfl rec hrec
    obtain ⟨bytes, hlookup, hdoc⟩ := storedDoc_eq_some hstored
    have hlast : last = some rec.current.value := by
      rcases hfile with ⟨hnone, -⟩ | ⟨bytes', doc', hsome, hdoc', hlast⟩
      · cases hnone.symm.trans hlookup
      · cases hsome.symm.trans hlookup
        cases hdoc'.symm.trans hdoc
        rw [hlast, hcurrent]
    rw [hlast, headRead_eq_iff hrec, and_iff_right hholds]

end Invariant

/-! ## Runs -/

/-- In every run of commits, closings and openings under validated
configurations with plain names: the head reads the value of the last
successful author commit on a record exactly where it holds the stored record
and has its current version in sight; and it holds the stored record of every
declared layer and non-empty id. -/
theorem head_reads_last_authored_iff {crates : Crates} {root : SystemPath}
    {steps : List SessionStep} (hsteps : ∀ step ∈ steps, Named step)
    (hcodec : Along (takeStep crates root) (Legible crates) (.closed ∅) steps) {head : HeadState}
    (hhead : runSessions crates root steps = .opened head) (layer id : String) :
    (((headSnapshot head).authoredValue layer id).value =
        lastAuthored crates root layer id steps ↔
      HoldsStored root head layer id ∧ InSight head layer id) ∧
    ((head.config.authoredLayerConfig layer).isSome → id ≠ "" →
      HoldsStored root head layer id) := by
  have hview : ∀ s step, (remember crates root layer id s step).1 =
      takeStep crates root s.1 step := fun _ _ => rfl
  have hstep : ∀ s step, Remembers crates root layer id s →
      Legible crates s.1 step ∧ Named step →
      Remembers crates root layer id (remember crates root layer id s step) :=
    fun _ _ h hC => h.step hC.2 hC.1
  have hremembers := invariant_run hstep remembers_new
    (along_and.mpr ⟨along_view hview hcodec, along_of_forall hsteps⟩)
  have hstate : run (remember crates root layer id) (.closed ∅, none) steps =
      (.opened head, lastAuthored crates root layer id steps) :=
    Prod.ext ((run_remember crates root layer id steps).trans hhead) rfl
  rw [hstate] at hremembers
  exact ⟨hremembers.headRead_iff, hremembers.complete head rfl⟩

/-! ## Two notes -/

/-- A note that is written in one session and read in the next. -/
def reopenedNote : List SessionStep :=
  [openNotes notesConfig, writeNote "first", .close, openNotes notesConfig]

/-- What a head reads of the note, and whether the note is declared and has no
earlier version. -/
def noteRead : Project → Option (Option Json × Bool)
  | .closed _ => none
  | .opened head => some (((headSnapshot head).authoredValue "notes" "A").value,
      (head.config.authoredLayerConfig "notes").isSome &&
        (head.authored.lookup ("notes", "A")).any fun rec => rec.history.isEmpty)

/-- What is read of the note after a run, and the last value authored for it. -/
def noteAfter (steps : List SessionStep) : Option (Option Json × Bool) × Option Json :=
  let s := run (remember noteCrates ⟨["p"]⟩ "notes" "A") (.closed ∅, none) steps
  (noteRead s.1, s.2)

/-- A run that ends with the project open, and what is read there. -/
theorem opened_of_noteAfter {steps : List SessionStep} {read : Option Json × Bool}
    {last : Option Json} (h : noteAfter steps = (some read, last)) :
    ∃ head, runSessions noteCrates ⟨["p"]⟩ steps = .opened head ∧
      noteRead (.opened head) = some read ∧
      lastAuthored noteCrates ⟨["p"]⟩ "notes" "A" steps = last := by
  obtain ⟨hread, hlast⟩ := Prod.mk.inj h
  rw [run_remember] at hread
  cases hp : runSessions noteCrates ⟨["p"]⟩ steps with
  | closed files =>
    rw [hp] at hread
    cases hread
  | opened head =>
    rw [hp] at hread
    exact ⟨head, rfl, hread, hlast⟩

/-- Opening with the notes declared. -/
theorem named_openNotes : Named (openNotes notesConfig) :=
  ⟨keepsHistory_openNotes.1, plainlyNamed_openNotes⟩

/-- A note of one version is read in the next session, although its stamp is
ahead of the revision there. -/
theorem reopened_note_read :
    ∃ head, runSessions noteCrates ⟨["p"]⟩ reopenedNote = .opened head ∧
      ((headSnapshot head).authoredValue "notes" "A").value =
        lastAuthored noteCrates ⟨["p"]⟩ "notes" "A" reopenedNote ∧
      lastAuthored noteCrates ⟨["p"]⟩ "notes" "A" reopenedNote = some (.str "first") := by
  have hsteps : ∀ step ∈ reopenedNote, Named step := by
    intro step hstep
    simp only [reopenedNote, List.mem_cons, List.not_mem_nil, or_false] at hstep
    rcases hstep with rfl | rfl | rfl | rfl
    · exact named_openNotes
    · show Whole "A"
      decide
    · trivial
    · exact named_openNotes
  have hfirst : Legible noteCrates (runSessions noteCrates ⟨["p"]⟩ [openNotes notesConfig])
      (writeNote "first") :=
    @legible_writeNote _ _ (noteDoc (noteVersion "first" 2) []) (by simp [noteDocs])
      (by decide +kernel) (by decide +kernel)
  have hsilent : ∀ p, Legible noteCrates p .close ∧ Legible noteCrates p (openNotes notesConfig) := by
    intro p
    cases p <;> exact ⟨legible_of_silent rfl, legible_of_silent rfl⟩
  have hcodec : Along (takeStep noteCrates ⟨["p"]⟩) (Legible noteCrates) (.closed ∅) reopenedNote :=
    ⟨legible_of_silent rfl, hfirst, (hsilent _).1, (hsilent _).2, trivial⟩
  have hafter : noteAfter reopenedNote =
      (some (some (.str "first"), true), some (.str "first")) := by decide +kernel
  obtain ⟨head, hhead, hread, hlast⟩ := opened_of_noteAfter hafter
  obtain ⟨-, hnew⟩ := Prod.mk.inj (Option.some.inj hread)
  obtain ⟨hdeclared, hfresh⟩ := Bool.and_eq_true_iff.mp hnew
  have hiff := head_reads_last_authored_iff hsteps hcodec hhead "notes" "A"
  have hsight : InSight head "notes" "A" := by
    intro rec hlookup
    rw [hlookup] at hfresh
    have hempty : rec.history = [] := List.isEmpty_iff.mp hfresh
    rw [hempty]
    exact .inr fun v hv => by cases hv
  exact ⟨head, hhead, hiff.1.mpr ⟨hiff.2 hdeclared (by decide), hsight⟩, hlast⟩

/-- A note that is rewritten in one session, with another commit in the
next. -/
def rewrittenNote : List SessionStep :=
  [openNotes notesConfig, writeNote "first", writeNote "second", .close, openNotes notesConfig,
    .act (.commit editModule.1 editModule.2)]

/-- After the other commit the head reads the first version of the note. -/
theorem rewritten_note_read_stale :
    ∃ head, runSessions noteCrates ⟨["p"]⟩ rewrittenNote = .opened head ∧
      ((headSnapshot head).authoredValue "notes" "A").value = some (.str "first") ∧
      lastAuthored noteCrates ⟨["p"]⟩ "notes" "A" rewrittenNote = some (.str "second") := by
  have hafter : noteAfter rewrittenNote =
      (some (some (.str "first"), false), some (.str "second")) := by decide +kernel
  obtain ⟨head, hhead, hread, hlast⟩ := opened_of_noteAfter hafter
  exact ⟨head, hhead, (Prod.mk.inj (Option.some.inj hread)).1, hlast⟩

end Tyo3.AuthoredHeadReads
