import Tyo3.ProjectSessions
import Tyo3.ResolvedPaths

/-!
# The stored history of authored records

An authored write rewrites the file of its record from memory. The stored
history grows by exactly one version where memory holds what the file holds.
A reload empties the memory, and a layer declared after opening is not loaded
at all: the next write under such a layer drops the versions the file had.
Layers with plain names have directories of their own, so that no write goes to
the file of another record.
-/

namespace Tyo3.AuthoredHistory

open AuthoredLoading AuthoredStore CommitFunnel CommitPlan FiniteMaps JsonValues ProjectSessions
  ResolvedPaths Runs SystemPaths

/-! ## The files of records -/

section RecordFiles

variable (root : SystemPath)

/-- The directory of the records of a layer. -/
def recordDir (layer : String) : SystemPath := resolve (authoredDir root layer)

/-- The file of a record. -/
def recordFile (layer id : String) : SystemPath := resolve (recordPath root layer id)

variable {root}

/-- A plain layer has a directory of its name. -/
theorem components_recordDir {layer : String} (h : Plain layer) :
    (recordDir root layer).components =
      (resolve (root.join [".tyo3", "authored"])).components ++ [layer] := by
  have hjoin : authoredDir root layer = (root.join [".tyo3", "authored"]).join [layer] := by
    simp [authoredDir, SystemPath.join]
  unfold recordDir
  rw [hjoin, resolve_join, List.foldl_cons, List.foldl_nil, follow_of_plain h]

/-- Plain layers with one directory are one layer. -/
theorem recordDir_inj {layer layer' : String} (h : Plain layer) (h' : Plain layer')
    (heq : (recordDir root layer).components = (recordDir root layer').components) :
    layer = layer' := by
  rw [components_recordDir h, components_recordDir h'] at heq
  have hlast := (List.append_inj' heq rfl).2
  exact List.singleton_inj.mp hlast

/-- The file of an id without slashes is in the directory of its layer. -/
theorem recordFile_of_whole (layer : String) {id : String} (h : Whole id) :
    recordFile root layer id = (recordDir root layer).join [id ++ ".json"] := by
  have hlast : ∀ text : String, text.toList.getLast? ≠ some 'n' → id ++ ".json" ≠ text := by
    intro text hne heq
    apply hne
    rw [← heq]
    simp
  have hplain : Plain (id ++ ".json") := by
    refine ⟨?_, hlast "" (by decide), hlast "." (by decide), hlast ".." (by decide)⟩
    intro hmem
    rw [String.toList_append, List.mem_append] at hmem
    rcases hmem with hid | hjson
    · exact h hid
    · exact absurd hjson (by decide)
  have hcomps : (recordFile root layer id).components =
      (recordDir root layer).components ++ [id ++ ".json"] := by
    unfold recordFile recordPath
    rw [resolve_join, List.foldl_cons, List.foldl_nil, follow_of_plain hplain]
    rfl
  exact congrArg SystemPath.mk hcomps

/-- Records of plain layers, under ids without slashes, have files of their
own. -/
theorem recordFile_inj {layer layer' id id' : String} (hlayer : Plain layer)
    (hlayer' : Plain layer') (hid : Whole id) (hid' : Whole id')
    (heq : recordFile root layer id = recordFile root layer' id') :
    layer = layer' ∧ id = id' := by
  rw [recordFile_of_whole layer hid, recordFile_of_whole layer' hid'] at heq
  have hcomps : (recordDir root layer).components ++ [id ++ ".json"] =
      (recordDir root layer').components ++ [id' ++ ".json"] := congrArg SystemPath.components heq
  obtain ⟨hdir, hname⟩ := List.append_inj' hcomps rfl
  exact ⟨recordDir_inj hlayer hlayer' hdir, by simpa using hname⟩

end RecordFiles

/-! ## What a step does to the stored records -/

section Steps

variable (crates : Crates) (root : SystemPath) (layer : String)

/-- The stored versions of a record, oldest first. -/
def storedVersions (files : FMap SystemPath Bytes) (id : String) : List AuthoredVersion :=
  match storedDoc crates.codec root files layer id with
  | none => []
  | some doc => doc.history ++ [doc.current]

/-- The stored records of a layer change by appending only. -/
structure AppendsOnly (p : Project) (step : SessionStep) : Prop where
  /-- A successful write stores its value after all the versions before it. -/
  appends : ∀ id value, Authors crates p step layer id value →
    ∃ doc, storedDoc crates.codec root (takeStep crates root p step).files layer id = some doc ∧
      doc.current.value = value ∧ doc.history = storedVersions crates root layer p.files id
  /-- No other step touches the file of a record. -/
  keeps : ∀ id, (∀ value, ¬ Authors crates p step layer id value) →
    (takeStep crates root p step).files.lookup (recordPath root layer id) =
      p.files.lookup (recordPath root layer id)
  /-- No write under another key goes to the file of a record. -/
  alone : ∀ name i value, Authors crates p step name i value → ∀ id, Whole id →
    recordFile root name i = recordFile root layer id → name = layer ∧ i = id

/-- A write finds in memory the record it is going to extend, if there is a
file for it. -/
def HoldsRecord (p : Project) (step : SessionStep) : Prop :=
  ∀ head id value, p = .opened head → Authors crates p step layer id value →
    (head.sidecar.lookup (recordPath root layer id)).isSome →
    (head.authored.lookup (layer, id)).isSome

/-- No reload while records of the layer are stored, no declaration of the
layer after the project was opened with such records, and no empty id. -/
def Undisturbed (p : Project) (step : SessionStep) : Prop :=
  match p, step with
  | .opened head, .act .reload =>
    ∀ id, head.sidecar.lookup (recordPath root layer id) = none
  | .opened head, .act (.registerAuthoredLayer name _ _) =>
    name = layer → (head.config.authoredLayerConfig layer).isSome ∨
      ∀ id, head.sidecar.lookup (recordPath root layer id) = none
  | .opened _, .act (.commit _ (.author name id _)) => name = layer → id ≠ ""
  | _, _ => True

/-- The record an authored write stores. -/
def recordToWrite (head : HeadState) (name id : String) (value : Json) : Option AuthoredRecord :=
  match head.config.authoredLayerConfig name, head.registry.get id with
  | some lcfg, some anchor =>
    (AuthoredStore.put head.authored name id
      ⟨value, head.store.nextRevision, some anchor.contentHash⟩ lcfg.history).lookup (name, id)
  | _, _ => none

/-- The document a step stores when it is an authored write. -/
def docToWrite : Project → SessionStep → Option Json
  | .opened head, .act (.commit _ (.author name id value)) =>
    (recordToWrite head name id value).map (recordJson name id)
  | _, _ => none

/-- The JSON library reads back the document a step stores. -/
def Legible (p : Project) (step : SessionStep) : Prop :=
  ∀ doc, docToWrite p step = some doc → ReadsLine crates.codec doc

theorem legible_of_silent {crates : Crates} {p : Project} {step : SessionStep}
    (hsilent : docToWrite p step = none) : Legible crates p step := by
  intro doc hdoc
  rw [hsilent] at hdoc
  cases hdoc

/-- The layers of a configuration are listed once each. -/
structure Ordered (config : ValidatedConfig) : Prop where
  /-- No layer is listed twice. -/
  nodup : config.topoOrder.Nodup
  /-- Every layer is listed. -/
  complete : ∀ name cfg, config.layers.lookup name = some cfg → name ∈ config.topoOrder

/-- A declared authored layer is listed. -/
theorem Ordered.mem_topoOrder {config : ValidatedConfig} (h : Ordered config) {name : String}
    {cfg : LayerCfg} (hcfg : config.authoredLayerConfig name = some cfg) :
    name ∈ config.topoOrder := by
  unfold ValidatedConfig.authoredLayerConfig at hcfg
  cases hlookup : config.layers.lookup name with
  | none =>
    rw [hlookup] at hcfg
    cases hcfg
  | some cfg' => exact h.complete name cfg' hlookup

/-- The configurations of a run are validated ones, and they keep the history
of the layer. -/
def KeepsHistory : SessionStep → Prop
  | .open_ req => Ordered req.config ∧
      ∀ cfg, req.config.authoredLayerConfig layer = some cfg → cfg.history = true
  | .act (.registerAuthoredLayer name history _) => name = layer → history = true
  | _ => True

/-- The authored layers that a step declares have plain names, and the ids it
writes are single pieces. -/
def PlainlyNamed : SessionStep → Prop
  | .open_ req => ∀ name cfg, req.config.authoredLayerConfig name = some cfg → Plain name
  | .act (.registerAuthoredLayer name _ _) => Plain name
  | .act (.commit _ (.author _ id _)) => Whole id
  | _ => True

end Steps

/-! ## Files -/

section Files

variable {crates : Crates} {root : SystemPath} {layer : String}

/-- The stored document depends on the file of the record alone. -/
theorem storedDoc_congr {codec : Codec} {files files' : FMap SystemPath Bytes} {id : String}
    (h : files'.lookup (recordPath root layer id) = files.lookup (recordPath root layer id)) :
    storedDoc codec root files' layer id = storedDoc codec root files layer id := by
  unfold storedDoc
  rw [h]

/-- The file of a write parses to the record that is put into memory. -/
theorem docFromBytes_written {head : HeadState} {name id : String} {value : Json} {lcfg : LayerCfg}
    {anchor : IdentityAnchors.Anchor} {bytes : Bytes} {record : AuthoredMap}
    (hcfg : head.config.authoredLayerConfig name = some lcfg)
    (hanchor : head.registry.get id = some anchor)
    (hrecord : record = AuthoredStore.put head.authored name id
      ⟨value, head.store.nextRevision, some anchor.contentHash⟩ lcfg.history)
    (hbytes : recordBytes crates.codec name id ((record.lookup (name, id)).getD
      ⟨⟨value, head.store.nextRevision, some anchor.contentHash⟩, []⟩) = .ok bytes)
    {env : Env} (hlegible : Legible crates (.opened head)
      (.act (.commit env (.author name id value)))) :
    ∃ rec, record.lookup (name, id) = some rec ∧ rec.current.value = value ∧
      docFromBytes crates.codec bytes = .ok (AuthoredRecordDoc.of name id rec) := by
  have hput : ∃ rec, record.lookup (name, id) = some rec ∧ rec.current.value = value := by
    rw [hrecord]
    unfold AuthoredStore.put
    rw [lookup_insert_ite, if_pos rfl]
    exact ⟨_, rfl, rfl⟩
  obtain ⟨rec, hrec, hvalue⟩ := hput
  have hwrite : recordToWrite head name id value = some rec := by
    unfold recordToWrite
    rw [hcfg, hanchor, ← hrec, hrecord]
  have hdoc : docToWrite (.opened head) (.act (.commit env (.author name id value))) =
      some (recordJson name id rec) := by
    simp only [docToWrite, hwrite, Option.map_some]
  rw [hrec, Option.getD_some] at hbytes
  exact ⟨rec, hrec, hvalue, docFromBytes_recordBytes (hlegible _ hdoc) hbytes⟩

end Files

/-! ## The invariant of a run -/

section Invariant

variable (crates : Crates) (root : SystemPath) (layer : String)

/-- What holds of the files and of the memory at every point of a run. -/
structure InOrder (p : Project) : Prop where
  /-- The head belongs to a session of the project. -/
  isOpen : OpenIs crates root p
  /-- Every file is the record of its own name. -/
  own : OwnFiles crates.codec root p.files
  /-- The files of the layer parse. -/
  readable : ∀ id bytes, p.files.lookup (recordPath root layer id) = some bytes →
    ∃ doc, docFromBytes crates.codec bytes = .ok doc
  /-- A record of the layer in memory is the stored one. -/
  held : ∀ head, p = .opened head → ∀ id rec, head.authored.lookup (layer, id) = some rec →
    ∃ doc, storedDoc crates.codec root head.sidecar layer id = some doc ∧
      doc.current = rec.current ∧ doc.history = rec.history
  /-- The layer keeps its history. -/
  keeping : ∀ head, p = .opened head → ∀ cfg,
    head.config.authoredLayerConfig layer = some cfg → cfg.history = true

/-- Every stored record of the layer is in memory while the layer is
declared. -/
def Complete (p : Project) : Prop :=
  ∀ head, p = .opened head → (head.config.authoredLayerConfig layer).isSome →
    ∀ id, id ≠ "" → (head.sidecar.lookup (recordPath root layer id)).isSome →
      (head.authored.lookup (layer, id)).isSome

variable {crates root layer}

/-- A project without a sidecar is in order. -/
theorem inOrder_new : InOrder crates root layer (.closed ∅) where
  isOpen := trivial
  own := fun p bytes doc name hp => by
    rw [Project.files, Finmap.lookup_empty] at hp
    cases hp
  readable := fun id bytes hp => by
    rw [Project.files, Finmap.lookup_empty] at hp
    cases hp
  held := fun head h => by cases h
  keeping := fun head h => by cases h

/-- Declaring a layer leaves the others, and the layer itself where it is
declared already. -/
theorem authoredLayerConfig_registered {config : ValidatedConfig} {name : String}
    {history reviewOnChange : Bool} {cfg : LayerCfg}
    (h : ((config.registerAuthoredLayer name history reviewOnChange).getD
      config).authoredLayerConfig layer = some cfg) :
    config.authoredLayerConfig layer = some cfg ∨
      (name = layer ∧ config.authoredLayerConfig layer = none ∧ cfg.history = history) := by
  unfold ValidatedConfig.registerAuthoredLayer at h
  cases hlookup : config.layers.lookup name with
  | some existing =>
    rw [hlookup] at h
    dsimp only at h
    split_ifs at h
    · exact .inl h
    · exact .inl h
  | none =>
    rw [hlookup] at h
    dsimp only [Option.getD_some] at h
    unfold ValidatedConfig.authoredLayerConfig at h ⊢
    dsimp only at h
    rw [lookup_insert_ite] at h
    by_cases heq : layer = name
    · rw [if_pos heq] at h
      simp only [if_true] at h
      cases h
      right
      subst heq
      rw [hlookup]
      exact ⟨rfl, rfl, rfl⟩
    · rw [if_neg heq] at h
      exact .inl h

/-- The loaded records are the stored ones. -/
theorem held_of_load {listing : HashOrder SystemPath} {config : ValidatedConfig}
    {files : FMap SystemPath Bytes} {m : AuthoredMap} (hown : OwnFiles crates.codec root files)
    (hordered : Ordered config)
    (hkeep : ∀ cfg, config.authoredLayerConfig layer = some cfg → cfg.history = true)
    (hload : loadAuthoredRecords crates.codec listing root config files = .ok m) {id : String}
    {rec : AuthoredRecord} (hrec : m.lookup (layer, id) = some rec) :
    ∃ doc, storedDoc crates.codec root files layer id = some doc ∧ doc.current = rec.current ∧
      doc.history = rec.history := by
  rw [lookup_loadAuthoredRecords hown hordered.nodup hload] at hrec
  split_ifs at hrec
  obtain ⟨cfg, hcfg, hmap⟩ := Option.bind_eq_some_iff.mp hrec
  obtain ⟨doc, hdoc, hsame⟩ := Option.map_eq_some_iff.mp hmap
  rw [hkeep cfg hcfg] at hsame
  exact ⟨doc, hdoc, by rw [← hsame]; rfl, by rw [← hsame]; rfl⟩

/-- Files with the same records stay in order. -/
theorem InOrder.ofSameRecords {p p' : Project} (h : InOrder crates root layer p)
    (hopen : OpenIs crates root p') (hfiles : SameRecords root p.files p'.files)
    (hheld : ∀ head', p' = .opened head' → ∀ id rec,
      head'.authored.lookup (layer, id) = some rec →
      ∃ doc, storedDoc crates.codec root p.files layer id = some doc ∧
        doc.current = rec.current ∧ doc.history = rec.history)
    (hkeeping : ∀ head', p' = .opened head' → ∀ cfg,
      head'.config.authoredLayerConfig layer = some cfg → cfg.history = true) :
    InOrder crates root layer p' where
  isOpen := hopen
  own := hfiles.ownFiles h.own
  readable := fun id bytes hp => h.readable id bytes (hfiles.lookup layer id ▸ hp)
  held := fun head' hp' id rec hrec => by
    obtain ⟨doc, hdoc, hsame⟩ := hheld head' hp' id rec hrec
    refine ⟨doc, ?_, hsame⟩
    have hfile := hfiles.lookup layer id
    rw [hp'] at hfile
    exact (storedDoc_congr hfile).trans hdoc
  keeping := hkeeping

/-- Every step keeps the project in order. -/
theorem InOrder.step {p : Project} (h : InOrder crates root layer p) {step : SessionStep}
    (hkeep : KeepsHistory layer step) (hlegible : Legible crates p step) :
    InOrder crates root layer (takeStep crates root p step) := by
  have hopen := openIs_takeStep h.isOpen step
  have heffect := takeStep_effect h.isOpen step
  generalize takeStep crates root p step = p' at hopen heffect ⊢
  cases heffect with
  | refused hstep => exact h
  | openFailed files' hfiles => exact h.ofSameRecords hopen hfiles nofun nofun
  | @opened files req head bytes hfiles hconfig hload =>
    obtain ⟨hordered, hhistory⟩ := hkeep
    have hsame : SameRecords root files head.sidecar := .inr ⟨bytes, hfiles⟩
    have hown := hsame.ownFiles h.own
    rw [← hconfig] at hordered hhistory
    refine h.ofSameRecords hopen hsame ?_ ?_
    · intro head' hhead' id rec hrec
      cases hhead'
      obtain ⟨doc, hdoc, hparts⟩ := held_of_load hown hordered hhistory hload hrec
      exact ⟨doc, (storedDoc_congr (hsame.lookup layer id)).symm.trans hdoc, hparts⟩
    · intro head' hhead'
      cases hhead'
      exact hhistory
  | closed => exact h.ofSameRecords hopen (.inl rfl) nofun nofun
  | @registered head name history reviewOnChange =>
    refine h.ofSameRecords hopen (.inl rfl) ?_ ?_
    · intro head' hhead'
      cases hhead'
      exact h.held head rfl
    · intro head' hhead' cfg hcfg
      cases hhead'
      rcases authoredLayerConfig_registered hcfg with hold | ⟨hname, -, hhistory⟩
      · exact h.keeping head rfl cfg hold
      · exact hhistory.trans (hkeep hname)
  | @reloaded head =>
    refine h.ofSameRecords hopen (.inl rfl) ?_ ?_
    · intro head' hhead' id rec hrec
      cases hhead'
      have hnone : (∅ : AuthoredMap).lookup (layer, id) = some rec := hrec
      rw [Finmap.lookup_empty] at hnone
      cases hnone
    · intro head' hhead'
      cases hhead'
      exact h.keeping head rfl
  | @kept head a head' hnot hfiles hauthored hconfig =>
    refine h.ofSameRecords hopen hfiles ?_ ?_
    · intro head₁ hhead₁ id rec hrec
      cases hhead₁
      exact h.held head rfl id rec (hauthored ▸ hrec)
    · intro head₁ hhead₁ cfg hcfg
      cases hhead₁
      exact h.keeping head rfl cfg (hconfig ▸ hcfg)
  | @authored head env name id value dto lcfg anchor bytes record head' hresult hcfg hanchor hrecord
      hbytes hfiles hauthored hconfig =>
    obtain ⟨rec, hrec, -, hdoc⟩ := docFromBytes_written hcfg hanchor hrecord hbytes hlegible
    have hlookup : ∀ i, head'.sidecar.lookup (recordPath root layer i) =
        if (layer, i) = (name, id) then some bytes
        else head.sidecar.lookup (recordPath root layer i) := by
      intro i
      rw [hfiles, lookup_insert_recordPath]
    refine ⟨hopen, ?_, ?_, ?_, ?_⟩
    · have hown := ownFiles_insert h.own hdoc
      rw [Project.files_opened, ← hfiles] at hown
      exact hown
    · intro i bytes' hp
      rw [Project.files_opened, hlookup] at hp
      split_ifs at hp
      · cases hp
        exact ⟨_, hdoc⟩
      · exact h.readable i bytes' hp
    · intro head₁ hhead₁ i rec' hrec'
      cases hhead₁
      by_cases heq : (layer, i) = (name, id)
      · cases heq
        rw [hauthored, hrec] at hrec'
        cases hrec'
        refine ⟨AuthoredRecordDoc.of layer id rec, ?_, rfl, rfl⟩
        unfold storedDoc
        rw [hlookup, if_pos rfl]
        simp [hdoc, Except.toOption]
      · have hold : head.authored.lookup (layer, i) = some rec' := by
          rw [← hrec', hauthored, hrecord, lookup_put_of_ne heq]
        obtain ⟨doc, hstored, hsame⟩ := h.held head rfl i rec' hold
        refine ⟨doc, (storedDoc_congr ?_).trans hstored, hsame⟩
        rw [hlookup, if_neg heq]
    · intro head₁ hhead₁ cfg hcfg'
      cases hhead₁
      exact h.keeping head rfl cfg (hconfig ▸ hcfg')

/-- A step that is no write under an id leaves the file of the id. -/
theorem lookup_takeStep {p : Project} (hopen : OpenIs crates root p) {step : SessionStep}
    {id : String} (hnot : ∀ value, ¬ Authors crates p step layer id value) :
    (takeStep crates root p step).files.lookup (recordPath root layer id) =
      p.files.lookup (recordPath root layer id) := by
  have heffect := takeStep_effect hopen step
  generalize takeStep crates root p step = p' at heffect ⊢
  cases heffect with
  | refused hstep => rfl
  | openFailed files' hfiles => exact hfiles.lookup layer id
  | @opened files req head bytes hfiles hconfig hload =>
    have hsame : SameRecords root files head.sidecar := .inr ⟨bytes, hfiles⟩
    exact hsame.lookup layer id
  | closed => rfl
  | registered => rfl
  | reloaded => rfl
  | kept head' hnot hfiles hauthored hconfig => exact hfiles.lookup layer id
  | @authored head env name i value dto lcfg anchor bytes record head' hresult hcfg hanchor hrecord
      hbytes hfiles hauthored hconfig =>
    have hne : (layer, id) ≠ (name, i) := by
      intro heq
      cases heq
      exact hnot value ⟨head, env, dto, rfl, rfl, hresult⟩
    rw [Project.files_opened, Project.files_opened, hfiles, lookup_insert_recordPath, if_neg hne]

/-- A write stores its value after the versions that memory holds. -/
theorem storedDoc_of_authors {p : Project} (h : InOrder crates root layer p) {step : SessionStep}
    (hlegible : Legible crates p step) {id : String} {value : Json}
    (hauthors : Authors crates p step layer id value) :
    ∃ head doc, p = .opened head ∧
      storedDoc crates.codec root (takeStep crates root p step).files layer id = some doc ∧
      doc.current.value = value ∧ doc.history = versionsAt head.authored layer id := by
  obtain ⟨head, env, dto, rfl, rfl, hok⟩ := hauthors
  have heffect := takeStep_effect h.isOpen (.act (.commit env (.author layer id value)))
  generalize takeStep crates root (.opened head) (.act (.commit env (.author layer id value))) = p'
    at heffect ⊢
  have hself : Authors crates (.opened head) (.act (.commit env (.author layer id value))) layer id
      value := ⟨head, env, dto, rfl, rfl, hok⟩
  cases heffect with
  | refused hstep => exact (hstep layer id value hself).elim
  | kept head' hnot hfiles hauthored hconfig => exact (hnot layer id value hself).elim
  | @authored _ _ _ _ _ _ lcfg anchor bytes record head' hresult hcfg hanchor hrecord hbytes hfiles
      hauthored hconfig =>
    have hhistory := h.keeping head rfl lcfg hcfg
    obtain ⟨rec, hrec, hvalue, hdoc⟩ := docFromBytes_written hcfg hanchor hrecord hbytes hlegible
    have hversions : rec.history = versionsAt head.authored layer id := by
      rw [hrecord, hhistory, lookup_put_keep] at hrec
      cases hrec
      rfl
    refine ⟨head, AuthoredRecordDoc.of layer id rec, rfl, ?_, hvalue, hversions⟩
    unfold storedDoc
    rw [Project.files_opened, hfiles, lookup_insert_ite, if_pos rfl]
    dsimp only
    rw [hdoc]
    rfl

/-- The versions in memory are the stored ones exactly when a stored record is
in memory. -/
theorem versionsAt_eq_storedVersions_iff {head : HeadState}
    (h : InOrder crates root layer (.opened head)) (id : String) :
    versionsAt head.authored layer id = storedVersions crates root layer head.sidecar id ↔
      ((head.sidecar.lookup (recordPath root layer id)).isSome →
        (head.authored.lookup (layer, id)).isSome) := by
  cases hmem : head.authored.lookup (layer, id) with
  | some rec =>
    obtain ⟨doc, hdoc, hcurrent, hhistory⟩ := h.held head rfl id rec hmem
    have heq : versionsAt head.authored layer id =
        storedVersions crates root layer head.sidecar id := by
      unfold versionsAt storedVersions
      rw [hmem, hdoc]
      dsimp only [Option.map_some, Option.getD_some]
      unfold versions
      rw [hcurrent, hhistory]
    simp [heq]
  | none =>
    have hempty : versionsAt head.authored layer id = [] := by
      unfold versionsAt
      rw [hmem]
      rfl
    rw [hempty]
    cases hfile : head.sidecar.lookup (recordPath root layer id) with
    | none =>
      have hnone : storedVersions crates root layer head.sidecar id = [] := by
        unfold storedVersions storedDoc
        rw [hfile]
      simp [hnone]
    | some bytes =>
      obtain ⟨doc, hdoc⟩ := h.readable id bytes hfile
      have hsome : storedVersions crates root layer head.sidecar id =
          doc.history ++ [doc.current] := by
        unfold storedVersions storedDoc
        rw [hfile]
        dsimp only
        rw [hdoc]
        rfl
      simp [hsome]

/-- A step that appends finds the record in memory. -/
theorem holdsRecord_of_appendsOnly {p : Project} (h : InOrder crates root layer p)
    {step : SessionStep} (hlegible : Legible crates p step)
    (happends : AppendsOnly crates root layer p step) : HoldsRecord crates root layer p step := by
  intro head id value hp hauthors
  subst hp
  obtain ⟨head', doc, hhead', hdoc, -, hhistory⟩ := storedDoc_of_authors h hlegible hauthors
  cases hhead'
  obtain ⟨doc', hdoc', -, hhistory'⟩ := happends.appends id value hauthors
  rw [hdoc] at hdoc'
  cases hdoc'
  exact (versionsAt_eq_storedVersions_iff h id).mp (hhistory.symm.trans hhistory')

/-- The authored layers of an open project have plain names. -/
def PlainLayers (p : Project) : Prop :=
  ∀ head, p = .opened head → ∀ name cfg, head.config.authoredLayerConfig name = some cfg →
    Plain name

/-- A successful write names a declared layer. -/
theorem declared_of_authors {head : HeadState} (hopen : OpenIs crates root (.opened head))
    {step : SessionStep} {name id : String} {value : Json}
    (hauthors : Authors crates (.opened head) step name id value) :
    ∃ cfg, head.config.authoredLayerConfig name = some cfg := by
  have heffect := takeStep_effect hopen step
  have hself := hauthors
  obtain ⟨head', env, dto, hhead', rfl, hok⟩ := hauthors
  cases hhead'
  generalize takeStep crates root _ _ = p' at heffect
  cases heffect with
  | refused hrefused => exact (hrefused name id value hself).elim
  | kept head' hnot hfiles hauthored hconfig => exact (hnot name id value hself).elim
  | authored lcfg anchor bytes record head' hresult hcfg hanchor hrecord hbytes hfiles hauthored
      hconfig => exact ⟨lcfg, hcfg⟩

/-- Plainly named steps keep the layers plainly named. -/
theorem plainLayers_takeStep {p : Project} (hopen : OpenIs crates root p) (h : PlainLayers p)
    {step : SessionStep} (hnames : PlainlyNamed step) :
    PlainLayers (takeStep crates root p step) := by
  have heffect := takeStep_effect hopen step
  generalize takeStep crates root p step = p' at heffect ⊢
  cases heffect with
  | refused hstep => exact h
  | openFailed files' hfiles => exact nofun
  | closed => exact nofun
  | opened head bytes hfiles hconfig hload =>
    intro head' hhead' name cfg hcfg
    cases hhead'
    rw [hconfig] at hcfg
    exact hnames name cfg hcfg
  | @registered head name history reviewOnChange =>
    intro head' hhead' layer cfg hcfg
    cases hhead'
    rcases authoredLayerConfig_registered hcfg with hold | ⟨rfl, -, -⟩
    · exact h head rfl layer cfg hold
    · exact hnames
  | @reloaded head =>
    intro head' hhead'
    cases hhead'
    exact h head rfl
  | @kept head a head' hnot hfiles hauthored hconfig =>
    intro head₁ hhead₁ name cfg hcfg
    cases hhead₁
    exact h head rfl name cfg (hconfig ▸ hcfg)
  | @authored head env name id value dto lcfg anchor bytes record head' hresult hcfg hanchor hrecord
      hbytes hfiles hauthored hconfig =>
    intro head₁ hhead₁ name' cfg hcfg'
    cases hhead₁
    exact h head rfl name' cfg (hconfig ▸ hcfg')

/-- Under plain names a write goes to the file of its own record alone. -/
theorem alone_of_plainlyNamed {p : Project} (hopen : OpenIs crates root p) (hlayers : PlainLayers p)
    (hlayer : Plain layer) {step : SessionStep} (hnames : PlainlyNamed step) {name i : String}
    {value : Json} (hauthors : Authors crates p step name i value) {id : String} (hid : Whole id)
    (hfile : recordFile root name i = recordFile root layer id) : name = layer ∧ i = id := by
  have hself := hauthors
  obtain ⟨head, env, dto, rfl, rfl, -⟩ := hauthors
  obtain ⟨cfg, hcfg⟩ := declared_of_authors hopen hself
  exact recordFile_inj (hlayers head rfl name cfg hcfg) hlayer hnames hid hfile

/-- Under plain names a step appends exactly when it finds the record in
memory. -/
theorem appendsOnly_iff {p : Project} (h : InOrder crates root layer p) (hlayers : PlainLayers p)
    (hlayer : Plain layer) {step : SessionStep} (hnames : PlainlyNamed step)
    (hlegible : Legible crates p step) :
    AppendsOnly crates root layer p step ↔ HoldsRecord crates root layer p step := by
  refine ⟨holdsRecord_of_appendsOnly h hlegible, fun hholds => ?_⟩
  refine ⟨fun id value hauthors => ?_, fun id hnot => lookup_takeStep h.isOpen hnot,
    fun name i value hauthors id hid hfile =>
      alone_of_plainlyNamed h.isOpen hlayers hlayer hnames hauthors hid hfile⟩
  obtain ⟨head, doc, hp, hdoc, hvalue, hhistory⟩ := storedDoc_of_authors h hlegible hauthors
  subst hp
  have hfound := hholds head id value rfl hauthors
  exact ⟨doc, hdoc, hvalue, hhistory.trans ((versionsAt_eq_storedVersions_iff h id).mpr hfound)⟩

/-- An undisturbed step keeps the memory complete. -/
theorem complete_takeStep {p : Project} (h : InOrder crates root layer p)
    (hcomplete : Complete root layer p) {step : SessionStep} (hkeep : KeepsHistory layer step)
    (hquiet : Undisturbed root layer p step) :
    Complete root layer (takeStep crates root p step) := by
  have heffect := takeStep_effect h.isOpen step
  generalize takeStep crates root p step = p' at heffect ⊢
  cases heffect with
  | refused hstep => exact hcomplete
  | openFailed files' hfiles => exact nofun
  | closed => exact nofun
  | @opened files req head bytes hfiles hconfig hload =>
    obtain ⟨hordered, hhistory⟩ := hkeep
    rw [← hconfig] at hordered hhistory
    have hsame : SameRecords root files head.sidecar := .inr ⟨bytes, hfiles⟩
    intro head' hhead' hdeclared id hid hstored
    cases hhead'
    obtain ⟨cfg, hcfg⟩ := Option.isSome_iff_exists.mp hdeclared
    obtain ⟨file, hfile⟩ := Option.isSome_iff_exists.mp hstored
    have hlisted := hordered.mem_topoOrder hcfg
    obtain ⟨doc, hdoc⟩ := h.readable id file ((hsame.lookup layer id).symm.trans hfile)
    rw [lookup_loadAuthoredRecords (hsame.ownFiles h.own) hordered.nodup hload,
      if_pos ⟨hlisted, mem_recordFiles hid hfile⟩, hcfg, storedDoc_of_lookup hfile hdoc]
    rfl
  | @registered head name history reviewOnChange =>
    intro head' hhead' hdeclared id hid hstored
    cases hhead'
    obtain ⟨cfg, hcfg⟩ := Option.isSome_iff_exists.mp hdeclared
    rcases authoredLayerConfig_registered hcfg with hold | ⟨hname, hnone, -⟩
    · exact hcomplete head rfl (Option.isSome_iff_exists.mpr ⟨cfg, hold⟩) id hid hstored
    · rcases hquiet hname with hsome | hempty
      · rw [hnone] at hsome
        cases hsome
      · have hfile : (head.sidecar.lookup (recordPath root layer id)).isSome := hstored
        rw [hempty id] at hfile
        cases hfile
  | @reloaded head =>
    intro head' hhead' hdeclared id hid hstored
    cases hhead'
    have hfile : (head.sidecar.lookup (recordPath root layer id)).isSome := hstored
    rw [hquiet id] at hfile
    cases hfile
  | @kept head a head' hnot hfiles hauthored hconfig =>
    intro head₁ hhead₁ hdeclared id hid hstored
    cases hhead₁
    rw [hauthored]
    rw [hconfig] at hdeclared
    rw [hfiles.lookup layer id] at hstored
    exact hcomplete head rfl hdeclared id hid hstored
  | @authored head env name i value dto lcfg anchor bytes record head' hresult hcfg hanchor hrecord
      hbytes hfiles hauthored hconfig =>
    intro head₁ hhead₁ hdeclared id hid hstored
    cases hhead₁
    rw [hauthored, hrecord]
    by_cases heq : (layer, id) = (name, i)
    · cases heq
      unfold AuthoredStore.put
      rw [lookup_insert_ite, if_pos rfl]
      rfl
    · rw [lookup_put_of_ne heq]
      rw [hconfig] at hdeclared
      rw [hfiles, lookup_insert_recordPath, if_neg heq] at hstored
      exact hcomplete head rfl hdeclared id hid hstored

/-- Over a complete memory an undisturbed step finds the record it extends. -/
theorem holdsRecord_of_complete {p : Project} (hcomplete : Complete root layer p)
    {step : SessionStep} (hquiet : Undisturbed root layer p step)
    (hopen : OpenIs crates root p) : HoldsRecord crates root layer p step := by
  intro head id value hp hauthors hstored
  subst hp
  obtain ⟨cfg, hcfg⟩ := declared_of_authors hopen hauthors
  obtain ⟨head', env, dto, hhead', rfl, -⟩ := hauthors
  cases hhead'
  exact hcomplete head rfl (Option.isSome_iff_exists.mpr ⟨cfg, hcfg⟩) id (hquiet rfl) hstored

end Invariant

/-! ## Runs -/

/-- In every run of sessions under configurations that keep the history of a
layer, with plain names for layers and ids, the stored records of the layer
change by appending only, exactly when every write finds in memory the record
it extends; and every write does so when the layer is neither reloaded nor
declared over stored records. -/
theorem history_append_only_iff {crates : Crates} {root : SystemPath} {layer : String}
    (hlayer : Plain layer) {steps : List SessionStep}
    (hkeep : ∀ step ∈ steps, KeepsHistory layer step)
    (hnames : ∀ step ∈ steps, PlainlyNamed step)
    (hcodec : Along (takeStep crates root) (Legible crates) (.closed ∅) steps) :
    (Along (takeStep crates root) (AppendsOnly crates root layer) (.closed ∅) steps ↔
      Along (takeStep crates root) (HoldsRecord crates root layer) (.closed ∅) steps) ∧
    (Along (takeStep crates root) (Undisturbed root layer) (.closed ∅) steps →
      Along (takeStep crates root) (AppendsOnly crates root layer) (.closed ∅) steps) := by
  let allowed : Project → SessionStep → Prop := fun p step =>
    Legible crates p step ∧ KeepsHistory layer step ∧ PlainlyNamed step
  have hpermitted : Along (takeStep crates root) allowed (.closed ∅) steps :=
    along_and.mpr ⟨hcodec, along_and.mpr ⟨along_of_forall hkeep, along_of_forall hnames⟩⟩
  have horder : ∀ p step, InOrder crates root layer p ∧ PlainLayers p → allowed p step →
      InOrder crates root layer (takeStep crates root p step) ∧
        PlainLayers (takeStep crates root p step) :=
    fun _ _ h hC => ⟨h.1.step hC.2.1 hC.1, plainLayers_takeStep h.1.isOpen h.2 hC.2.2⟩
  have hone : ∀ p step, InOrder crates root layer p ∧ PlainLayers p → allowed p step →
      (AppendsOnly crates root layer p step ↔ HoldsRecord crates root layer p step) :=
    fun _ _ h hC => appendsOnly_iff h.1 h.2 hlayer hC.2.2 hC.1
  have hiff := along_iff_of_invariant horder hone ⟨inOrder_new, nofun⟩ hpermitted
  refine ⟨hiff, fun hquiet => hiff.mpr ?_⟩
  have hboth : ∀ p step, InOrder crates root layer p ∧ Complete root layer p →
      allowed p step ∧ Undisturbed root layer p step →
      InOrder crates root layer (takeStep crates root p step) ∧
        Complete root layer (takeStep crates root p step) :=
    fun _ _ h hC => ⟨h.1.step hC.1.2.1 hC.1.1, complete_takeStep h.1 h.2 hC.1.2.1 hC.2⟩
  have hfinds : ∀ p step, InOrder crates root layer p ∧ Complete root layer p →
      allowed p step ∧ Undisturbed root layer p step →
      HoldsRecord crates root layer p step :=
    fun _ _ h hC => holdsRecord_of_complete h.2 hC.2 h.1.isOpen
  exact along_of_invariant hboth hfinds ⟨inOrder_new, nofun⟩
    (along_and.mpr ⟨hpermitted, hquiet⟩)

/-! ## A project with one note -/

/-- Directories read by increasing names. -/
def pathOrder : HashOrder SystemPath :=
  @HashOrder.increasing SystemPath
    (LinearOrder.lift' SystemPath.components fun ⟨_⟩ ⟨_⟩ h => congrArg SystemPath.mk h)

/-- The module of the project. -/
def notePaths : List SystemPath := [⟨["p", "a.py"]⟩]

/-- The disk of the project. -/
def noteDisk : Disk := (∅ : Disk).insert ⟨["p", "a.py"]⟩ (.file "x = 1")

/-- A version of the note. -/
def noteVersion (text : String) (revision : ℕ) : AuthoredVersion := ⟨.str text, revision, some 5⟩

/-- The stored note. -/
def noteDoc (current : AuthoredVersion) (history : List AuthoredVersion) : Json :=
  recordJson "notes" "A" ⟨current, history⟩

/-- The documents of the project: its registry and its notes. -/
def noteDocs : List Json :=
  [IdentityPersistence.toJsonValue (listedHead notePaths noteDisk ⟨["p"]⟩).registry,
    noteDoc (noteVersion "first" 2) [],
    noteDoc (noteVersion "second" 3) [noteVersion "first" 2],
    noteDoc (noteVersion "second" 3) []]

/-- Libraries for the project, with a JSON library that reads its documents. -/
def noteCrates : Crates := { listedCrates notePaths with codec := Codec.listing noteDocs }

/-- Open the project. -/
def openNotes (config : ValidatedConfig) : SessionStep :=
  .open_
    { env := listedEnv notePaths noteDisk
      listing := pathOrder
      config := config
      retainCap := 64
      hashProfiles := ∅
      defaultHashProfile := "default" }

/-- A configuration that declares the layer. -/
def notesConfig : ValidatedConfig :=
  ⟨["notes"], (∅ : FMap String LayerCfg).insert "notes" ⟨.authored, true, true⟩⟩

/-- Write the note. -/
def writeNote (text : String) : SessionStep :=
  .act (.commit (listedEnv notePaths noteDisk) (.author "notes" "A" (.str text)))

/-- Whether a step is a commit that publishes. -/
def publishes (crates : Crates) : Project → SessionStep → Bool
  | .opened head, .act (.commit env m) =>
    match (commit crates env head m).1 with
    | .ok (some _) => true
    | _ => false
  | _, _ => false

/-- A published authored write succeeds. -/
theorem authors_of_publishes {crates : Crates} {p : Project} {env : Env} {layer id : String}
    {value : Json}
    (h : publishes crates p (.act (.commit env (.author layer id value))) = true) :
    Authors crates p (.act (.commit env (.author layer id value))) layer id value := by
  cases p with
  | closed files => cases h
  | opened head =>
    unfold publishes at h
    dsimp only at h
    split at h
    · rename_i dto hok
      exact ⟨head, env, dto, rfl, rfl, hok⟩
    · cases h

/-- The configuration keeps the history of the notes. -/
theorem keepsHistory_openNotes : KeepsHistory "notes" (openNotes notesConfig) := by
  have hcfg : notesConfig.authoredLayerConfig "notes" = some ⟨.authored, true, true⟩ := by decide
  refine ⟨⟨by decide, fun name cfg h => ?_⟩, fun cfg h => ?_⟩
  · have hlookup : ((∅ : FMap String LayerCfg).insert "notes" ⟨.authored, true, true⟩).lookup name =
        some cfg := h
    rw [lookup_insert_ite] at hlookup
    split_ifs at hlookup with hname
    · rw [hname]
      decide
    · rw [Finmap.lookup_empty] at hlookup
      cases hlookup
  · have hsome : notesConfig.authoredLayerConfig "notes" = some cfg := h
    rw [hcfg] at hsome
    cases hsome
    rfl

/-- The configuration names its layer plainly. -/
theorem plainlyNamed_openNotes : PlainlyNamed (openNotes notesConfig) := by
  intro name cfg hcfg
  have hlisted := keepsHistory_openNotes.1.mem_topoOrder hcfg
  have hname : name = "notes" := List.mem_singleton.mp hlisted
  rw [hname]
  decide

/-- The JSON library reads back the document of a write of the note. -/
theorem legible_writeNote {p : Project} {text : String} {doc : Json} (hmem : doc ∈ noteDocs)
    (hdoc : docToWrite p (writeNote text) = some doc)
    (hread : noteCrates.codec.fromStr (pretty 0 doc ++ "\n") = .ok doc) :
    Legible noteCrates p (writeNote text) := by
  intro doc' hdoc' bytes hbytes
  rw [hdoc] at hdoc'
  cases hdoc'
  cases hbytes
  exact ⟨_, Codec.listing_fromUtf8 hmem, hread⟩

/-- Whether a record is in memory, and whether it is stored. -/
def whereHeld (root : SystemPath) (layer id : String) : Project → Bool × Bool
  | .closed files => (false, (files.lookup (recordPath root layer id)).isSome)
  | .opened head => ((head.authored.lookup (layer, id)).isSome,
      (head.sidecar.lookup (recordPath root layer id)).isSome)

/-- The first session of the project and its first note. -/
def firstNote : Project :=
  runSessions noteCrates ⟨["p"]⟩ [openNotes notesConfig, writeNote "first"]

/-- The project is in order after its first note. -/
theorem inOrder_firstNote : InOrder noteCrates ⟨["p"]⟩ "notes" firstNote := by
  have hstart : InOrder noteCrates ⟨["p"]⟩ "notes" (.closed ∅) := inOrder_new
  have hopened := hstart.step keepsHistory_openNotes
    (legible_of_silent rfl : Legible noteCrates (.closed ∅) (openNotes notesConfig))
  have hlegible : Legible noteCrates (runSessions noteCrates ⟨["p"]⟩ [openNotes notesConfig])
      (writeNote "first") :=
    @legible_writeNote _ _ (noteDoc (noteVersion "first" 2) []) (by simp [noteDocs])
      (by decide +kernel) (by decide +kernel)
  have hkeep : KeepsHistory "notes" (writeNote "first") := trivial
  exact hopened.step hkeep hlegible

/-- A note that is written, dropped from memory by a reload and written again
is stored without its first version. -/
theorem reload_drops_history :
    ¬ Along (takeStep noteCrates ⟨["p"]⟩) (AppendsOnly noteCrates ⟨["p"]⟩ "notes") (.closed ∅)
      [openNotes notesConfig, writeNote "first", .act .reload, writeNote "second"] := by
  let reloaded := runSessions noteCrates ⟨["p"]⟩
    [openNotes notesConfig, writeNote "first", .act .reload]
  have hsilent : Legible noteCrates firstNote (.act .reload) := by
    intro doc hdoc
    generalize firstNote = p at hdoc
    cases p <;> cases hdoc
  have horder : InOrder noteCrates ⟨["p"]⟩ "notes" reloaded :=
    @InOrder.step noteCrates _ "notes" _ inOrder_firstNote (.act .reload) trivial hsilent
  have hlegible : Legible noteCrates reloaded (writeNote "second") :=
    @legible_writeNote _ _ (noteDoc (noteVersion "second" 3) []) (by simp [noteDocs])
      (by decide +kernel) (by decide +kernel)
  have hauthors : Authors noteCrates reloaded (writeNote "second") "notes" "A" (.str "second") :=
    authors_of_publishes (by decide +kernel)
  have hheld : whereHeld ⟨["p"]⟩ "notes" "A" reloaded = (false, true) := by decide +kernel
  rintro ⟨-, -, -, happends, -⟩
  have hholds := holdsRecord_of_appendsOnly horder hlegible happends
  generalize reloaded = p at hholds hauthors hheld
  cases p with
  | closed files =>
    obtain ⟨head, env, dto, hhead, -⟩ := hauthors
    cases hhead
  | opened head =>
    have hfound := hholds head "A" (.str "second") rfl hauthors
    simp only [whereHeld, Prod.mk.injEq] at hheld
    rw [hheld.1, hheld.2] at hfound
    exact Bool.false_ne_true (hfound rfl)

/-- In a project that declares the layer, a note written twice keeps both
versions. -/
theorem rewritten_note_keeps_history :
    let steps := [openNotes notesConfig, writeNote "first", writeNote "second"]
    Along (takeStep noteCrates ⟨["p"]⟩) (AppendsOnly noteCrates ⟨["p"]⟩ "notes") (.closed ∅)
      steps := by
  intro steps
  have hkeep : ∀ step ∈ steps, KeepsHistory "notes" step := by
    intro step hstep
    simp only [steps, List.mem_cons, List.not_mem_nil, or_false] at hstep
    rcases hstep with rfl | rfl | rfl
    · exact keepsHistory_openNotes
    · trivial
    · trivial
  have hnames : ∀ step ∈ steps, PlainlyNamed step := by
    intro step hstep
    simp only [steps, List.mem_cons, List.not_mem_nil, or_false] at hstep
    rcases hstep with rfl | rfl | rfl
    · exact plainlyNamed_openNotes
    · exact (by decide : Whole "A")
    · exact (by decide : Whole "A")
  have hfirst : Legible noteCrates (runSessions noteCrates ⟨["p"]⟩ [openNotes notesConfig])
      (writeNote "first") :=
    @legible_writeNote _ _ (noteDoc (noteVersion "first" 2) []) (by simp [noteDocs])
      (by decide +kernel) (by decide +kernel)
  have hsecond : Legible noteCrates firstNote (writeNote "second") :=
    @legible_writeNote _ _ (noteDoc (noteVersion "second" 3) [noteVersion "first" 2])
      (by simp [noteDocs]) (by decide +kernel) (by decide +kernel)
  have hwrites : ∀ p text, Undisturbed ⟨["p"]⟩ "notes" p (writeNote text) := by
    intro p text
    cases p with
    | closed files => trivial
    | opened head => exact fun _ => by decide
  refine (history_append_only_iff (by decide) hkeep hnames
    ⟨legible_of_silent rfl, hfirst, hsecond, trivial⟩).2 ?_
  exact ⟨trivial, hwrites _ _, hwrites _ _, trivial⟩

end Tyo3.AuthoredHistory
