import Tyo3.AuthoredTimeTravel

/-!
# Authored records on disk

An authored write stores its record under a path built from the layer and the
id as they are, and loading reads the directory of every declared authored
layer. Names with slashes and dots are followed by the file system: records of
different names can have one file, and a file can be read for no layer or for
several. Loading gives back the records in memory exactly where every record
has a file of its own that is read for one layer.
-/

namespace Tyo3.AuthoredPersistence

open AuthoredHistory AuthoredLoading AuthoredStore AuthoredTimeTravel CommitAtomicity CommitFunnel
  CommitPlan FiniteMaps JsonValues ProjectSessions ResolvedPaths Runs SystemPaths

/-! ## Files and directories -/

section Files

variable (root : SystemPath)

/-- Load the record files of every declared authored layer. -/
def loadRecordFiles (codec : Codec) (listing : HashOrder SystemPath) (config : ValidatedConfig)
    (disk : FMap SystemPath Bytes) (m : AuthoredMap) (names : List String) :
    Except AuthoredLoadError AuthoredMap :=
  names.foldlM (fun m name =>
    match config.authoredLayerConfig name with
    | none => .ok m
    | some cfg =>
      loadFiles codec disk cfg.history m (recordFiles listing disk (recordDir root name))) m

/-- Whether a layer reads a file, and then whether it keeps a history. -/
def readBy (config : ValidatedConfig) (file : SystemPath) (name : String) : Option Bool :=
  match config.authoredLayerConfig name with
  | none => none
  | some cfg =>
    if file.components.dropLast = (recordDir root name).components ∧
      file.extension = some "json" then some cfg.history else none

/-- The layers that read a file, as they are loaded: whether each keeps a
history. -/
def readers (config : ValidatedConfig) (file : SystemPath) : List Bool :=
  config.topoOrder.filterMap (readBy root config file)

end Files

/-! ## Commits on a disk -/

/-- A session with the record files that its commits wrote. -/
structure Persisted where
  /-- The head of the session. -/
  head : HeadState
  /-- The record files. -/
  disk : FMap SystemPath Bytes

section Commits

variable (crates : Crates)

/-- The record file that an operation writes. -/
def writtenFile (head : HeadState) : Action → Option (SystemPath × Bytes)
  | .commit env (.author layer id value) =>
    match commit crates env head (.author layer id value) with
    | (.ok (some _), head') =>
      (head'.sidecar.lookup (recordPath head.root layer id)).map fun bytes =>
        (recordFile head.root layer id, bytes)
    | _ => none
  | _ => none

/-- An operation of the session. A record it writes is stored in the file its
path leads to. -/
def persistStep (s : Persisted) (a : Action) : Persisted where
  head := a.run crates s.head
  disk := match writtenFile crates s.head a with
    | some (file, bytes) => s.disk.insert file bytes
    | none => s.disk

/-- The session after operations that start without record files. -/
def runPersisted (head : HeadState) (actions : List Action) : Persisted :=
  run (persistStep crates) ⟨head, ∅⟩ actions

end Commits

/-- Loading the record files gives the records in memory: the same keys, and
under each the same current version and the same history. -/
def RoundTrips (codec : Codec) (listing : HashOrder SystemPath) (s : Persisted) : Prop :=
  loadRecordFiles s.head.root codec listing s.head.config s.disk ∅ s.head.config.topoOrder =
    .ok s.head.authored

/-- Reading the file of a record for these layers restores it: one layer with a
history does, and so does a last layer without one where the record has no
history. -/
def Restores (rec : AuthoredRecord) (keeping : List Bool) : Prop :=
  keeping = [true] ∨ (keeping.getLast? = some false ∧ rec.history = [])

/-- Every record has a file of its own, and the layers that read this file
restore the record. -/
structure KeptApart (root : SystemPath) (config : ValidatedConfig) (m : AuthoredMap) : Prop where
  /-- Different records have different files. -/
  apart : ∀ layer id layer' id' rec rec', m.lookup (layer, id) = some rec →
    m.lookup (layer', id') = some rec' →
    recordFile root layer id = recordFile root layer' id' → (layer, id) = (layer', id')
  /-- The file of a record is read so that it is restored. -/
  restored : ∀ layer id rec, m.lookup (layer, id) = some rec →
    Restores rec (readers root config (recordFile root layer id))

/-! ## What an operation does to the files -/

section Steps

variable {crates : Crates} {root : SystemPath} {config : ValidatedConfig}

/-- An operation that authors nothing writes no record file. -/
theorem writtenFile_eq_none {head : HeadState} {a : Action}
    (hnot : ∀ layer id value, ¬ Authors crates (.opened head) (.act a) layer id value) :
    writtenFile crates head a = none := by
  unfold writtenFile
  split
  · rename_i env layer id value
    split
    · rename_i dto head' hcommit
      have hok : (commit crates env head (.author layer id value)).1 = .ok (some dto) := by
        rw [hcommit]
      exact absurd ⟨head, env, dto, rfl, rfl, hok⟩ (hnot layer id value)
    · rfl
  · rfl

/-- A successful authored write stores what the sidecar then holds for the
record. -/
theorem writtenFile_authored {head : HeadState} {env : Env} {layer id : String} {value : Json}
    {dto : CommitDelta} {bytes : Bytes}
    (hresult : (commit crates env head (.author layer id value)).1 = .ok (some dto))
    (hfiles : (commit crates env head (.author layer id value)).2.sidecar =
      head.sidecar.insert (recordPath head.root layer id) bytes) :
    writtenFile crates head (.commit env (.author layer id value)) =
      some (recordFile head.root layer id, bytes) := by
  unfold writtenFile
  dsimp only
  generalize commit crates env head (.author layer id value) = outcome at hresult hfiles ⊢
  obtain ⟨result, head'⟩ := outcome
  dsimp only at hresult hfiles
  subst hresult
  dsimp only
  rw [hfiles, lookup_insert_ite, if_pos rfl]
  rfl

/-- What an operation does to the records and their files. -/
inductive Persists (crates : Crates) (root : SystemPath) (s : Persisted) (a : Action)
    (s' : Persisted) : Prop
  | kept (hauthored : s'.head.authored = s.head.authored) (hdisk : s'.disk = s.disk)
  | stored (env : Env) (layer id : String) (value : Json) (rec : AuthoredRecord) (cfg : LayerCfg)
      (bytes : Bytes) (haction : a = .commit env (.author layer id value))
      (hcfg : s.head.config.authoredLayerConfig layer = some cfg)
      (hhistory : cfg.history = false → rec.history = [])
      (hauthored : ∀ key, s'.head.authored.lookup key =
        if key = (layer, id) then some rec else s.head.authored.lookup key)
      (hdisk : s'.disk = s.disk.insert (recordFile root layer id) bytes)
      (hdoc : docFromBytes crates.codec bytes = .ok (AuthoredRecordDoc.of layer id rec))

/-- Commits and armed faults keep the configuration, and store at most one
record together with its file. -/
theorem persistStep_persists {s : Persisted} (hopen : OpenIs crates root (.opened s.head))
    {a : Action} (ha : Action.Commits a) (hlegible : Legible crates (.opened s.head) (.act a)) :
    (persistStep crates s a).head.config = s.head.config ∧
      Persists crates root s a (persistStep crates s a) := by
  have heffect : Effect crates root (.opened s.head) (.act a) (.opened (a.run crates s.head)) :=
    takeStep_effect hopen (.act a)
  have hhead : (persistStep crates s a).head = a.run crates s.head := rfl
  have hidle : writtenFile crates s.head a = none → (persistStep crates s a).disk = s.disk := by
    intro hnone
    simp only [persistStep, hnone]
  generalize hnext : a.run crates s.head = head' at heffect hhead
  cases heffect with
  | refused hstep =>
    rw [hhead]
    exact ⟨rfl, .kept (congrArg HeadState.authored hhead) (hidle (writtenFile_eq_none hstep))⟩
  | registered => cases ha
  | reloaded => cases ha
  | kept _ hnot hfiles hauthored hconfig =>
    rw [hhead]
    refine ⟨hconfig, .kept ?_ (hidle (writtenFile_eq_none hnot))⟩
    rw [hhead, hauthored]
  | @authored _ env layer id value dto lcfg anchor bytes record _ hresult hcfg hanchor hrecord hbytes
      hfiles hauthored hconfig =>
    obtain ⟨rec, hrec, -, hdoc⟩ := docFromBytes_written hcfg hanchor hrecord hbytes hlegible
    have hroot : s.head.root = root := hopen.2
    have hsidecar : (commit crates env s.head (.author layer id value)).2.sidecar =
        s.head.sidecar.insert (recordPath s.head.root layer id) bytes := by
      rw [hroot, ← hfiles, ← hnext]
      rfl
    have hwritten := writtenFile_authored hresult hsidecar
    rw [hroot] at hwritten
    rw [hhead]
    refine ⟨hconfig, .stored env layer id value rec lcfg bytes rfl hcfg ?_ ?_ ?_ hdoc⟩
    · intro hdrop
      rw [hrecord, hdrop, lookup_put_drop] at hrec
      cases hrec
      rfl
    · intro key
      rw [hhead, hauthored]
      split_ifs with hkey
      · rw [hkey, hrec]
      · rw [hrecord, lookup_put_of_ne hkey]
    · simp only [persistStep, hwritten]

/-- What holds of the records and their files at every point of a session that
started without any. -/
structure OnDisk (crates : Crates) (root : SystemPath) (config : ValidatedConfig)
    (s : Persisted) : Prop where
  /-- The head belongs to a session of the project. -/
  isOpen : OpenIs crates root (.opened s.head)
  /-- The configuration is the one the session started with. -/
  sameConfig : s.head.config = config
  /-- Every file holds a record of the memory whose file it is. -/
  docs : ∀ file bytes, s.disk.lookup file = some bytes → ∃ layer id rec,
    s.head.authored.lookup (layer, id) = some rec ∧ file = recordFile root layer id ∧
      docFromBytes crates.codec bytes = .ok (AuthoredRecordDoc.of layer id rec)
  /-- The file of every record is there. -/
  stored : ∀ layer id rec, s.head.authored.lookup (layer, id) = some rec →
    ∃ bytes, s.disk.lookup (recordFile root layer id) = some bytes
  /-- The layer of every record is declared; without a history in the layer
  there is none in the record. -/
  declared : ∀ layer id rec, s.head.authored.lookup (layer, id) = some rec →
    ∃ cfg, config.authoredLayerConfig layer = some cfg ∧
      (cfg.history = false → rec.history = [])

/-- A session without records starts so. -/
theorem onDisk_new {head : HeadState} (hhead : Reachable crates head)
    (hempty : head.authored = ∅) : OnDisk crates head.root head.config ⟨head, ∅⟩ where
  isOpen := ⟨hhead, rfl⟩
  sameConfig := rfl
  docs := fun file bytes hfile => by
    rw [Finmap.lookup_empty] at hfile
    cases hfile
  stored := fun layer id rec hrec => by
    rw [hempty, Finmap.lookup_empty] at hrec
    cases hrec
  declared := fun layer id rec hrec => by
    rw [hempty, Finmap.lookup_empty] at hrec
    cases hrec

/-- Every commit keeps the records and their files together. -/
theorem OnDisk.step {s : Persisted} (h : OnDisk crates root config s) {a : Action}
    (ha : Action.Commits a) (hlegible : Legible crates (.opened s.head) (.act a)) :
    OnDisk crates root config (persistStep crates s a) := by
  have hopen : OpenIs crates root (.opened (persistStep crates s a).head) :=
    openIs_takeStep h.isOpen (.act a)
  obtain ⟨hconfig, hpersists⟩ := persistStep_persists h.isOpen ha hlegible
  generalize persistStep crates s a = s' at hopen hconfig hpersists ⊢
  cases hpersists with
  | kept hauthored hdisk =>
    refine ⟨hopen, hconfig.trans h.sameConfig, ?_, ?_, ?_⟩
    · rw [hauthored, hdisk]
      exact h.docs
    · rw [hauthored, hdisk]
      exact h.stored
    · rw [hauthored]
      exact h.declared
  | stored env layer id value rec cfg bytes haction hcfg hhistory hauthored hdisk hdoc =>
    rw [h.sameConfig] at hcfg
    refine ⟨hopen, hconfig.trans h.sameConfig, ?_, ?_, ?_⟩
    · intro file bytes' hfile
      rw [hdisk, lookup_insert_ite] at hfile
      split_ifs at hfile with hsame
      · cases hfile
        refine ⟨layer, id, rec, ?_, hsame, hdoc⟩
        rw [hauthored, if_pos rfl]
      · obtain ⟨layer', id', rec', hrec', hfile', hdoc'⟩ := h.docs file bytes' hfile
        -- The overwritten record has the file that is written.
        have hne : (layer', id') ≠ (layer, id) := by
          intro heq
          obtain ⟨hlayer, hid⟩ := Prod.mk.inj heq
          exact hsame (by rw [hfile', hlayer, hid])
        refine ⟨layer', id', rec', ?_, hfile', hdoc'⟩
        rw [hauthored, if_neg hne]
        exact hrec'
    · intro layer' id' rec' hrec'
      rw [hdisk, lookup_insert_ite]
      split_ifs with hsame
      · exact ⟨bytes, rfl⟩
      · rw [hauthored] at hrec'
        split_ifs at hrec' with hkey
        · obtain ⟨hlayer, hid⟩ := Prod.mk.inj hkey
          exact absurd (by rw [hlayer, hid]) hsame
        · exact h.stored layer' id' rec' hrec'
    · intro layer' id' rec' hrec'
      rw [hauthored] at hrec'
      split_ifs at hrec' with hkey
      · cases hrec'
        rw [(Prod.mk.inj hkey).1]
        exact ⟨cfg, hcfg, hhistory⟩
      · exact h.declared layer' id' rec' hrec'

/-- After any commits every record has its file, and every file its record. -/
theorem onDisk_runPersisted {head : HeadState} (hhead : Reachable crates head)
    (hempty : head.authored = ∅) {actions : List Action}
    (hactions : ∀ a ∈ actions, Action.Commits a)
    (hcodec : Along (persistStep crates) (fun s a => Legible crates (.opened s.head) (.act a))
      ⟨head, ∅⟩ actions) :
    OnDisk crates head.root head.config (runPersisted crates head actions) := by
  have hstep : ∀ s a, OnDisk crates head.root head.config s →
      Legible crates (.opened s.head) (.act a) ∧ Action.Commits a →
      OnDisk crates head.root head.config (persistStep crates s a) := fun _ _ h hC => h.step hC.2 hC.1
  exact invariant_run hstep (onDisk_new hhead hempty)
    (along_and.mpr ⟨hcodec, along_of_forall hactions⟩)

end Steps

/-! ## Reading a file for several layers -/

/-- What is under the key of a document after it is read once more. -/
def readOver (doc : AuthoredRecordDoc) (before : Option AuthoredRecord) (keep : Bool) :
    Option AuthoredRecord :=
  some (reread keep doc ((before.map versions).getD []))

/-- A record that was read has a version. -/
theorem versions_foldl_readOver_eq_nil_iff (doc : AuthoredRecordDoc) (keeping : List Bool) :
    ((keeping.foldl (readOver doc) none).map versions).getD [] = [] ↔ keeping = [] := by
  induction keeping using List.reverseRecOn with
  | nil => simp
  | append_singleton front keep ih => simp [readOver, versions]

/-- Reading a document over and over gives its record exactly where this
restores it. -/
theorem foldl_readOver_eq_iff (layer id : String) (rec : AuthoredRecord) (keeping : List Bool) :
    keeping.foldl (readOver (AuthoredRecordDoc.of layer id rec)) none = some rec ↔
      Restores rec keeping := by
  obtain ⟨current, history⟩ := rec
  induction keeping using List.reverseRecOn with
  | nil => simp [Restores]
  | append_singleton front keep ih =>
    have hstart := versions_foldl_readOver_eq_nil_iff
      (AuthoredRecordDoc.of layer id ⟨current, history⟩) front
    rw [List.foldl_append, List.foldl_cons, List.foldl_nil]
    generalize front.foldl (readOver (AuthoredRecordDoc.of layer id ⟨current, history⟩)) none =
      before at hstart
    cases keep with
    | false =>
      have hne : front ++ [false] ≠ [true] := by
        intro heq
        have hlast := congrArg List.getLast? heq
        simp at hlast
      simp [readOver, reread, Restores, AuthoredRecordDoc.of, hne, eq_comm]
    | true => simp [readOver, reread, Restores, AuthoredRecordDoc.of, hstart]

/-! ## Loading the files -/

section Loading

variable {codec : Codec} {listing : HashOrder SystemPath} {root : SystemPath}
  {config : ValidatedConfig} {disk : FMap SystemPath Bytes}

/-- The record files of a directory. -/
theorem mem_recordFiles_iff {dir file : SystemPath} :
    file ∈ recordFiles listing disk dir ↔ (∃ bytes, disk.lookup file = some bytes) ∧
      file.components.dropLast = dir.components ∧ file.extension = some "json" := by
  unfold recordFiles
  rw [List.mem_filter, HashOrder.mem_order, mem_keys_iff, decide_eq_true_eq]

/-- Files that parse are loaded. -/
theorem loadFiles_ok
    (hparse : ∀ file bytes, disk.lookup file = some bytes →
      ∃ doc, docFromBytes codec bytes = .ok doc) (keep : Bool) (m : AuthoredMap)
    (paths : List SystemPath) : ∃ m', loadFiles codec disk keep m paths = .ok m' := by
  induction paths generalizing m with
  | nil => exact ⟨m, rfl⟩
  | cons p paths ih =>
    unfold loadFiles at ih ⊢
    rw [List.foldlM_cons]
    cases hp : disk.lookup p with
    | none => exact ih m
    | some bytes =>
      obtain ⟨doc, hdoc⟩ := hparse p bytes hp
      dsimp only
      rw [hdoc]
      exact ih (putDoc keep m doc)

/-- Loading the first layer. -/
theorem loadRecordFiles_cons (m : AuthoredMap) (name : String) (names : List String) :
    loadRecordFiles root codec listing config disk m (name :: names) =
      match config.authoredLayerConfig name with
      | none => loadRecordFiles root codec listing config disk m names
      | some cfg =>
        (loadFiles codec disk cfg.history m (recordFiles listing disk (recordDir root name))).bind
          fun m₁ => loadRecordFiles root codec listing config disk m₁ names := by
  unfold loadRecordFiles
  rw [List.foldlM_cons]
  cases config.authoredLayerConfig name with
  | none => rfl
  | some cfg => rfl

/-- Where all files parse, all layers are loaded. -/
theorem loadRecordFiles_ok
    (hparse : ∀ file bytes, disk.lookup file = some bytes →
      ∃ doc, docFromBytes codec bytes = .ok doc) (m : AuthoredMap) (names : List String) :
    ∃ m', loadRecordFiles root codec listing config disk m names = .ok m' := by
  induction names generalizing m with
  | nil => exact ⟨m, rfl⟩
  | cons name names ih =>
    rw [loadRecordFiles_cons]
    cases config.authoredLayerConfig name with
    | none => exact ih m
    | some cfg =>
      obtain ⟨m₁, hfirst⟩ := loadFiles_ok hparse cfg.history m
        (recordFiles listing disk (recordDir root name))
      dsimp only
      rw [hfirst]
      exact ih m₁

/-- A record that no file names is not loaded. -/
theorem lookup_loadRecordFiles_of_ne {m m' : AuthoredMap} {names : List String}
    {key : String × String}
    (hne : ∀ file bytes doc, disk.lookup file = some bytes → docFromBytes codec bytes = .ok doc →
      key ≠ (doc.layer, doc.durableId))
    (h : loadRecordFiles root codec listing config disk m names = .ok m') :
    m'.lookup key = m.lookup key := by
  induction names generalizing m with
  | nil =>
    cases h
    rfl
  | cons name names ih =>
    rw [loadRecordFiles_cons] at h
    cases hcfg : config.authoredLayerConfig name with
    | none =>
      rw [hcfg] at h
      exact ih h
    | some cfg =>
      rw [hcfg] at h
      dsimp only at h
      cases hfirst : loadFiles codec disk cfg.history m
          (recordFiles listing disk (recordDir root name)) with
      | error e =>
        rw [hfirst] at h
        cases h
      | ok m₁ =>
        rw [hfirst] at h
        have hfiles : m₁.lookup key = m.lookup key :=
          lookup_loadFiles_of_ne hfirst fun p _ => hne p
        exact (ih h).trans hfiles

/-- A record whose file alone names it is read once for every layer that reads
this file. -/
theorem lookup_loadRecordFiles {m m' : AuthoredMap} {names : List String} {layer id : String}
    {rec : AuthoredRecord} {bytes : Bytes}
    (hfile : disk.lookup (recordFile root layer id) = some bytes)
    (hdoc : docFromBytes codec bytes = .ok (AuthoredRecordDoc.of layer id rec))
    (honly : ∀ p bytes' doc', disk.lookup p = some bytes' → docFromBytes codec bytes' = .ok doc' →
      (layer, id) = (doc'.layer, doc'.durableId) → p = recordFile root layer id)
    (h : loadRecordFiles root codec listing config disk m names = .ok m') :
    m'.lookup (layer, id) =
      (names.filterMap (readBy root config (recordFile root layer id))).foldl
        (readOver (AuthoredRecordDoc.of layer id rec)) (m.lookup (layer, id)) := by
  induction names generalizing m with
  | nil =>
    cases h
    rfl
  | cons name names ih =>
    rw [loadRecordFiles_cons] at h
    cases hcfg : config.authoredLayerConfig name with
    | none =>
      have hunread : readBy root config (recordFile root layer id) name = none := by
        simp only [readBy, hcfg]
      rw [hcfg] at h
      rw [List.filterMap_cons_none hunread]
      exact ih h
    | some cfg =>
      rw [hcfg] at h
      dsimp only at h
      cases hfirst : loadFiles codec disk cfg.history m
          (recordFiles listing disk (recordDir root name)) with
      | error e =>
        rw [hfirst] at h
        cases h
      | ok m₁ =>
        rw [hfirst] at h
        by_cases hin : (recordFile root layer id).components.dropLast =
            (recordDir root name).components ∧ (recordFile root layer id).extension = some "json"
        · have hread : readBy root config (recordFile root layer id) name = some cfg.history := by
            simp only [readBy, hcfg, if_pos hin]
          have hnodup : (recordFiles listing disk (recordDir root name)).Nodup :=
            (HashOrder.nodup_order _ _).filter _
          have hmem : recordFile root layer id ∈
              recordFiles listing disk (recordDir root name) :=
            mem_recordFiles_iff.mpr ⟨⟨bytes, hfile⟩, hin⟩
          have hput : m₁.lookup (layer, id) = readOver (AuthoredRecordDoc.of layer id rec)
              (m.lookup (layer, id)) cfg.history :=
            lookup_loadFiles_of_mem hnodup hmem hfile hdoc (fun p _ => honly p) hfirst
          rw [List.filterMap_cons_some hread, List.foldl_cons, ih h, hput]
        · have hunread : readBy root config (recordFile root layer id) name = none := by
            simp only [readBy, hcfg, if_neg hin]
          have hsame : m₁.lookup (layer, id) = m.lookup (layer, id) := by
            refine lookup_loadFiles_of_ne hfirst fun p hp bytes' doc' hp' hdoc' heq => hin ?_
            rw [← honly p bytes' doc' hp' hdoc' heq]
            exact (mem_recordFiles_iff.mp hp).2
          rw [List.filterMap_cons_none hunread, ih h, hsame]

end Loading

/-! ## The round trip -/

section RoundTrip

variable {crates : Crates} {root : SystemPath} {config : ValidatedConfig} {s : Persisted}

/-- Every file that names a record is the file of this record, and holds it as
it is in memory. -/
theorem OnDisk.of_named (h : OnDisk crates root config s) {file : SystemPath} {bytes : Bytes}
    {doc : AuthoredRecordDoc} (hfile : s.disk.lookup file = some bytes)
    (hdoc : docFromBytes crates.codec bytes = .ok doc) :
    file = recordFile root doc.layer doc.durableId ∧ ∃ rec,
      s.head.authored.lookup (doc.layer, doc.durableId) = some rec ∧
        doc = AuthoredRecordDoc.of doc.layer doc.durableId rec := by
  obtain ⟨layer, id, rec, hrec, hself, hdoc'⟩ := h.docs file bytes hfile
  rw [hdoc] at hdoc'
  cases hdoc'
  exact ⟨hself, rec, hrec, rfl⟩

/-- Loading what the disk holds. -/
theorem OnDisk.load (h : OnDisk crates root config s) (listing : HashOrder SystemPath) :
    ∃ m, loadRecordFiles root crates.codec listing config s.disk ∅
      config.topoOrder = .ok m := by
  refine loadRecordFiles_ok (fun file bytes hfile => ?_) ∅ _
  obtain ⟨layer, id, rec, -, -, hdoc⟩ := h.docs file bytes hfile
  exact ⟨_, hdoc⟩

/-- What is loaded of a record in memory: it is read for every layer that reads
its file, unless another record was written there later. -/
theorem OnDisk.lookup_load (h : OnDisk crates root config s) {listing : HashOrder SystemPath}
    {m : AuthoredMap} (hload : loadRecordFiles root crates.codec listing config s.disk ∅
      config.topoOrder = .ok m) {layer id : String} {rec : AuthoredRecord}
    (hrec : s.head.authored.lookup (layer, id) = some rec) {bytes : Bytes} {doc : AuthoredRecordDoc}
    (hfile : s.disk.lookup (recordFile root layer id) = some bytes)
    (hdoc : docFromBytes crates.codec bytes = .ok doc) :
    m.lookup (layer, id) = if (layer, id) = (doc.layer, doc.durableId) then
        (readers root config (recordFile root layer id)).foldl
          (readOver (AuthoredRecordDoc.of layer id rec)) none
      else none := by
  have hempty : (∅ : AuthoredMap).lookup (layer, id) = none := Finmap.lookup_empty _
  have honly : ∀ p bytes' doc', s.disk.lookup p = some bytes' →
      docFromBytes crates.codec bytes' = .ok doc' →
      (layer, id) = (doc'.layer, doc'.durableId) → p = recordFile root layer id := by
    intro p bytes' doc' hp hdoc' hkey
    obtain ⟨hlayer, hid⟩ := Prod.mk.inj hkey
    rw [hlayer, hid]
    exact (h.of_named hp hdoc').1
  split_ifs with hkey
  · obtain ⟨-, rec', hrec', hself⟩ := h.of_named hfile hdoc
    obtain ⟨hlayer, hid⟩ := Prod.mk.inj hkey
    rw [← hlayer, ← hid] at hrec' hself
    rw [hrec] at hrec'
    cases hrec'
    rw [hself] at hdoc
    rw [lookup_loadRecordFiles hfile hdoc honly hload, hempty]
    rfl
  · rw [← hempty]
    refine lookup_loadRecordFiles_of_ne (fun p bytes' doc' hp hdoc' heq => hkey ?_) hload
    rw [honly p bytes' doc' hp hdoc' heq, hfile] at hp
    cases hp
    rw [hdoc] at hdoc'
    cases hdoc'
    exact heq

/-- A record that is not in memory is not loaded. -/
theorem OnDisk.lookup_load_none (h : OnDisk crates root config s) {listing : HashOrder SystemPath}
    {m : AuthoredMap} (hload : loadRecordFiles root crates.codec listing config s.disk ∅
      config.topoOrder = .ok m) {key : String × String}
    (hrec : s.head.authored.lookup key = none) : m.lookup key = none := by
  have hempty : (∅ : AuthoredMap).lookup key = none := Finmap.lookup_empty _
  rw [← hempty]
  refine lookup_loadRecordFiles_of_ne (fun p bytes doc hp hdoc heq => ?_) hload
  obtain ⟨-, rec, hfound, -⟩ := h.of_named hp hdoc
  rw [← heq, hrec] at hfound
  cases hfound

/-- Loading gives back the records in memory exactly where they are kept
apart. -/
theorem OnDisk.roundTrips_iff (h : OnDisk crates root config s) (listing : HashOrder SystemPath) :
    RoundTrips crates.codec listing s ↔ KeptApart root config s.head.authored := by
  obtain ⟨m, hload⟩ := h.load listing
  have hroot : s.head.root = root := h.isOpen.2
  have htrip : RoundTrips crates.codec listing s ↔ m = s.head.authored := by
    unfold RoundTrips
    rw [hroot, h.sameConfig, hload]
    exact ⟨fun heq => Except.ok.inj heq, fun heq => by rw [heq]⟩
  rw [htrip]
  constructor
  · intro heq
    -- A loaded record is the one its file names.
    have hnamed : ∀ layer id rec bytes doc, s.head.authored.lookup (layer, id) = some rec →
        s.disk.lookup (recordFile root layer id) = some bytes →
        docFromBytes crates.codec bytes = .ok doc → (layer, id) = (doc.layer, doc.durableId) ∧
          (readers root config (recordFile root layer id)).foldl
            (readOver (AuthoredRecordDoc.of layer id rec)) none = some rec := by
      intro layer id rec bytes doc hrec hfile hdoc
      have hlookup := h.lookup_load hload hrec hfile hdoc
      rw [heq, hrec] at hlookup
      split_ifs at hlookup with hkey
      exact ⟨hkey, hlookup.symm⟩
    refine ⟨?_, ?_⟩
    · intro layer id layer' id' rec rec' hrec hrec' hsame
      obtain ⟨bytes, hfile⟩ := h.stored layer id rec hrec
      obtain ⟨_, _, _, -, -, hdoc⟩ := h.docs _ bytes hfile
      have hkey := (hnamed layer id rec bytes _ hrec hfile hdoc).1
      have hkey' := (hnamed layer' id' rec' bytes _ hrec' (hsame ▸ hfile) hdoc).1
      exact hkey.trans hkey'.symm
    · intro layer id rec hrec
      obtain ⟨bytes, hfile⟩ := h.stored layer id rec hrec
      obtain ⟨_, _, _, -, -, hdoc⟩ := h.docs _ bytes hfile
      exact (foldl_readOver_eq_iff layer id rec _).mp
        (hnamed layer id rec bytes _ hrec hfile hdoc).2
  · intro hapart
    apply Finmap.ext_lookup
    rintro ⟨layer, id⟩
    cases hrec : s.head.authored.lookup (layer, id) with
    | none => exact h.lookup_load_none hload hrec
    | some rec =>
      obtain ⟨bytes, hfile⟩ := h.stored layer id rec hrec
      obtain ⟨layer', id', rec', hrec', hsame, hdoc⟩ := h.docs _ bytes hfile
      have hkey := hapart.apart layer id layer' id' rec rec' hrec hrec' hsame
      have hloaded := h.lookup_load hload hrec hfile hdoc
      rw [hloaded]
      refine (if_pos hkey).trans ?_
      exact (foldl_readOver_eq_iff layer id rec _).mpr (hapart.restored layer id rec hrec)

/-- A list without repetition of which one element alone is mapped. -/
theorem filterMap_eq_singleton {α β : Type*} {f : α → Option β} {a : α} {b : β} {l : List α}
    (hnodup : l.Nodup) (hmem : a ∈ l) (ha : f a = some b)
    (hother : ∀ x ∈ l, x ≠ a → f x = none) : l.filterMap f = [b] := by
  obtain ⟨front, back, hsplit⟩ := List.append_of_mem hmem
  subst hsplit
  obtain ⟨-, hback, hdisjoint⟩ := List.nodup_append.mp hnodup
  have hfront : front.filterMap f = [] := by
    rw [List.filterMap_eq_nil_iff]
    intro x hx
    exact hother x (List.mem_append_left _ hx) (hdisjoint x hx a List.mem_cons_self)
  have hrest : back.filterMap f = [] := by
    rw [List.filterMap_eq_nil_iff]
    intro x hx
    refine hother x (List.mem_append_right _ (List.mem_cons_of_mem _ hx)) fun heq => ?_
    exact (List.nodup_cons.mp hback).1 (heq ▸ hx)
  rw [List.filterMap_append, hfront, List.filterMap_cons_some ha, hrest]
  rfl

/-- Records of plain layers, under ids without slashes, are kept apart. -/
theorem OnDisk.keptApart (h : OnDisk crates root config s) (hordered : Ordered config)
    (hlayers : ∀ layer cfg, config.authoredLayerConfig layer = some cfg → Plain layer)
    (hids : ∀ layer id rec, s.head.authored.lookup (layer, id) = some rec →
      Whole id ∧ id ≠ "") : KeptApart root config s.head.authored := by
  refine ⟨?_, ?_⟩
  · intro layer id layer' id' rec rec' hrec hrec' hsame
    obtain ⟨cfg, hcfg, -⟩ := h.declared layer id rec hrec
    obtain ⟨cfg', hcfg', -⟩ := h.declared layer' id' rec' hrec'
    obtain ⟨hlayer, hid⟩ := recordFile_inj (hlayers layer cfg hcfg) (hlayers layer' cfg' hcfg')
      (hids layer id rec hrec).1 (hids layer' id' rec' hrec').1 hsame
    rw [hlayer, hid]
  · intro layer id rec hrec
    obtain ⟨cfg, hcfg, hhistory⟩ := h.declared layer id rec hrec
    obtain ⟨hwhole, hne⟩ := hids layer id rec hrec
    have hfile : recordFile root layer id = (recordDir root layer).join [id ++ ".json"] :=
      recordFile_of_whole layer hwhole
    have hself : readBy root config (recordFile root layer id) layer = some cfg.history := by
      have hin : (recordFile root layer id).components.dropLast =
          (recordDir root layer).components ∧
          (recordFile root layer id).extension = some "json" := by
        rw [hfile]
        exact ⟨List.dropLast_concat, extension_join_json _ hne⟩
      simp only [readBy, hcfg, if_pos hin]
    have hothers : ∀ name ∈ config.topoOrder, name ≠ layer →
        readBy root config (recordFile root layer id) name = none := by
      intro name _ hname
      unfold readBy
      split
      · rfl
      · rename_i cfg' hcfg'
        refine if_neg fun hin => hname ?_
        have hdir : (recordDir root layer).components = (recordDir root name).components := by
          rw [← hin.1, hfile]
          exact List.dropLast_concat.symm
        exact (recordDir_inj (hlayers layer cfg hcfg) (hlayers name cfg' hcfg') hdir).symm
    have hreaders : readers root config (recordFile root layer id) = [cfg.history] :=
      filterMap_eq_singleton hordered.nodup (hordered.mem_topoOrder hcfg) hself hothers
    rw [hreaders]
    cases hkeep : cfg.history with
    | true => exact .inl rfl
    | false => exact .inr ⟨rfl, hhistory hkeep⟩

end RoundTrip

/-! ## Runs -/

/-- An authored write names an id that is a single piece and not empty. -/
def NamesFile : Action → Prop
  | .commit _ (.author _ id _) => Whole id ∧ id ≠ ""
  | _ => True

/-- Where every authored write names such an id, every record has one. -/
theorem ids_runPersisted {crates : Crates} {start : HeadState} (hstart : Reachable crates start)
    (hempty : start.authored = ∅) {actions : List Action}
    (hactions : ∀ a ∈ actions, Action.Commits a)
    (hcodec : Along (persistStep crates) (fun s a => Legible crates (.opened s.head) (.act a))
      ⟨start, ∅⟩ actions) (hnames : ∀ a ∈ actions, NamesFile a) (layer id : String)
    (rec : AuthoredRecord)
    (hrec : (runPersisted crates start actions).head.authored.lookup (layer, id) = some rec) :
    Whole id ∧ id ≠ "" := by
  let inv : Persisted → Prop := fun s => OpenIs crates start.root (.opened s.head) ∧
    ∀ layer id rec, s.head.authored.lookup (layer, id) = some rec → Whole id ∧ id ≠ ""
  have hstep : ∀ s a, inv s → (Legible crates (.opened s.head) (.act a) ∧ Action.Commits a) ∧
      NamesFile a → inv (persistStep crates s a) := by
    intro s a h hC
    have hopen : OpenIs crates start.root (.opened (persistStep crates s a).head) :=
      openIs_takeStep h.1 (.act a)
    have hpersists := (persistStep_persists h.1 hC.1.2 hC.1.1).2
    generalize persistStep crates s a = s' at hopen hpersists ⊢
    refine ⟨hopen, ?_⟩
    cases hpersists with
    | kept hauthored hdisk =>
      rw [hauthored]
      exact h.2
    | stored env layer id value rec cfg bytes haction hcfg hhistory hauthored hdisk hdoc =>
      intro layer' id' rec' hrec'
      rw [hauthored] at hrec'
      split_ifs at hrec' with hkey
      · have hname : NamesFile (.commit env (.author layer id value)) := haction ▸ hC.2
        rw [(Prod.mk.inj hkey).2]
        exact hname
      · exact h.2 layer' id' rec' hrec'
  have hbegin : inv ⟨start, ∅⟩ := by
    refine ⟨⟨hstart, rfl⟩, fun layer id rec hnone => ?_⟩
    rw [hempty, Finmap.lookup_empty] at hnone
    cases hnone
  have hall := along_and.mpr ⟨along_and.mpr ⟨hcodec, along_of_forall hactions⟩,
    along_of_forall hnames⟩
  exact (invariant_run hstep hbegin hall).2 layer id rec hrec

/-- After any commits of a session that started without records, in any order
with armed faults: loading the record files gives the records in memory exactly
where these are kept apart; and they are where the layers have plain names and
every id is a single piece. -/
theorem authored_round_trip_iff {crates : Crates} {start : HeadState}
    (hstart : Reachable crates start) (hempty : start.authored = ∅) {actions : List Action}
    (hactions : ∀ a ∈ actions, Action.Commits a)
    (hcodec : Along (persistStep crates) (fun s a => Legible crates (.opened s.head) (.act a))
      ⟨start, ∅⟩ actions) (listing : HashOrder SystemPath) :
    (RoundTrips crates.codec listing (runPersisted crates start actions) ↔
      KeptApart start.root start.config (runPersisted crates start actions).head.authored) ∧
    (Ordered start.config →
      (∀ layer cfg, start.config.authoredLayerConfig layer = some cfg → Plain layer) →
      (∀ a ∈ actions, NamesFile a) →
      RoundTrips crates.codec listing (runPersisted crates start actions)) := by
  have hdisk := onDisk_runPersisted hstart hempty hactions hcodec
  have hiff := hdisk.roundTrips_iff listing
  refine ⟨hiff, fun hordered hlayers hnames => hiff.mpr ?_⟩
  exact hdisk.keptApart hordered hlayers
    (ids_runPersisted hstart hempty hactions hcodec hnames)

/-! ## Notes under one and under two names -/

/-- Open the project of the note with a configuration. -/
def noteHead (crates : Crates) (config : ValidatedConfig) : HeadState :=
  match openHead crates (listedEnv notePaths noteDisk)
      { freshOpening ⟨["p"]⟩ with config := config } with
  | .ok head => head
  | .error _ => listedHead notePaths noteDisk ⟨["p"]⟩

/-- Write the note of a layer. -/
def writeTo (layer text : String) : Action :=
  .commit (listedEnv notePaths noteDisk) (.author layer "A" (.str text))

/-- A write that fails to persist, and two that do not. -/
def noteWrites : List Action :=
  [.faultInject "authored_persist", writeTo "notes" "first", writeTo "notes" "first",
    writeTo "notes" "second"]

/-- The note is loaded with both versions. -/
theorem rewritten_note_round_trips :
    RoundTrips noteCrates.codec pathOrder
        (runPersisted noteCrates (noteHead noteCrates notesConfig) noteWrites) ∧
      ((runPersisted noteCrates (noteHead noteCrates notesConfig) noteWrites).head.authored.lookup
        ("notes", "A")) = some ⟨noteVersion "second" 3, [noteVersion "first" 2]⟩ := by
  have hopen : openHead noteCrates (listedEnv notePaths noteDisk)
      { freshOpening ⟨["p"]⟩ with config := notesConfig } =
        .ok (noteHead noteCrates notesConfig) := rfl
  have hactions : ∀ a ∈ noteWrites, Action.Commits a := by
    intro a ha
    simp only [noteWrites, List.mem_cons, List.not_mem_nil, or_false] at ha
    rcases ha with rfl | rfl | rfl | rfl <;> trivial
  have hnames : ∀ a ∈ noteWrites, NamesFile a := by
    intro a ha
    simp only [noteWrites, List.mem_cons, List.not_mem_nil, or_false] at ha
    rcases ha with rfl | rfl | rfl | rfl
    · trivial
    · exact ⟨by decide, by decide⟩
    · exact ⟨by decide, by decide⟩
    · exact ⟨by decide, by decide⟩
  have hordered : Ordered notesConfig := keepsHistory_openNotes.1
  have hlayers : ∀ layer cfg, notesConfig.authoredLayerConfig layer = some cfg → Plain layer :=
    plainlyNamed_openNotes
  have hfirst : ∀ p, docToWrite p (writeNote "first") = some (noteDoc (noteVersion "first" 2) []) →
      Legible noteCrates p (writeNote "first") := fun p hdoc =>
    legible_writeNote (by simp [noteDocs]) hdoc (by decide +kernel)
  have hsecond : ∀ p, docToWrite p (writeNote "second") =
      some (noteDoc (noteVersion "second" 3) [noteVersion "first" 2]) →
      Legible noteCrates p (writeNote "second") := fun p hdoc =>
    legible_writeNote (by simp [noteDocs]) hdoc (by decide +kernel)
  have hcodec : Along (persistStep noteCrates)
      (fun s a => Legible noteCrates (.opened s.head) (.act a))
      ⟨noteHead noteCrates notesConfig, ∅⟩ noteWrites :=
    ⟨legible_of_silent rfl, hfirst _ (by decide +kernel), hfirst _ (by decide +kernel),
      hsecond _ (by decide +kernel), trivial⟩
  have htrip := (authored_round_trip_iff (.opened hopen) rfl hactions hcodec pathOrder).2 hordered
    hlayers hnames
  exact ⟨htrip, by decide +kernel⟩

/-- A configuration with a layer of the same directory. -/
def aliasConfig : ValidatedConfig :=
  ⟨["./notes", "notes"], ((∅ : FMap String LayerCfg).insert "notes" ⟨.authored, true, true⟩).insert
    "./notes" ⟨.authored, true, true⟩⟩

/-- A JSON library that reads the documents of both layers. -/
def aliasCrates : Crates :=
  { listedCrates notePaths with
    codec := Codec.listing [noteDoc (noteVersion "first" 2) [],
      recordJson "./notes" "A" ⟨noteVersion "second" 3, []⟩] }

/-- One write in each layer. -/
def aliasWrites : List Action := [writeTo "notes" "first", writeTo "./notes" "second"]

/-- The records that are loaded from the disk. -/
def loadedRecords (codec : Codec) (s : Persisted) : Option AuthoredMap :=
  (loadRecordFiles s.head.root codec pathOrder s.head.config s.disk ∅
    s.head.config.topoOrder).toOption

/-- The second write overwrites the file of the first record, which is not
loaded any more. -/
theorem aliased_note_lost :
    let s := runPersisted aliasCrates (noteHead aliasCrates aliasConfig) aliasWrites
    Reachable aliasCrates (noteHead aliasCrates aliasConfig) ∧
      (noteHead aliasCrates aliasConfig).authored = ∅ ∧
      (∀ a ∈ aliasWrites, Action.Commits a) ∧ Ordered aliasConfig ∧
      (s.head.authored.lookup ("notes", "A")).isSome ∧
      (loadedRecords aliasCrates.codec s).map (fun m => (m.lookup ("notes", "A")).isSome) =
        some false ∧
      ¬ RoundTrips aliasCrates.codec pathOrder s := by
  have hopen : openHead aliasCrates (listedEnv notePaths noteDisk)
      { freshOpening ⟨["p"]⟩ with config := aliasConfig } =
        .ok (noteHead aliasCrates aliasConfig) := rfl
  have hheld : ((runPersisted aliasCrates (noteHead aliasCrates aliasConfig)
      aliasWrites).head.authored.lookup ("notes", "A")).isSome := by decide +kernel
  have hlost : (loadedRecords aliasCrates.codec
      (runPersisted aliasCrates (noteHead aliasCrates aliasConfig) aliasWrites)).map
        (fun m => (m.lookup ("notes", "A")).isSome) = some false := by decide +kernel
  have hordered : Ordered aliasConfig := by
    refine ⟨by decide, fun name cfg hcfg => ?_⟩
    have hlookup : (((∅ : FMap String LayerCfg).insert "notes" ⟨.authored, true, true⟩).insert
        "./notes" ⟨.authored, true, true⟩).lookup name = some cfg := hcfg
    rw [lookup_insert_ite, lookup_insert_ite, Finmap.lookup_empty] at hlookup
    split_ifs at hlookup with halias hname
    · rw [halias]
      decide
    · rw [hname]
      decide
  have hactions : ∀ a ∈ aliasWrites, Action.Commits a := by
    intro a ha
    simp only [aliasWrites, List.mem_cons, List.not_mem_nil, or_false] at ha
    rcases ha with rfl | rfl <;> trivial
  refine ⟨.opened hopen, rfl, hactions, hordered, hheld, hlost, fun htrip => ?_⟩
  unfold loadedRecords at hlost
  rw [htrip] at hlost
  have hmissing := Option.some.inj hlost
  exact Bool.false_ne_true (hmissing.symm.trans hheld)

end Tyo3.AuthoredPersistence
