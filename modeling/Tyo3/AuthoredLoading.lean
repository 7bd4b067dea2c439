import Tyo3.AuthoredStore
import Tyo3.SystemPaths

/-!
# Loading authored records

Opening a project reads the record files of every declared authored layer.
A file names its layer and its id; where the layer keeps a history the stored
versions are inserted oldest first, the current one last. A file that does
not parse, or is of a newer format, fails the whole load.
-/

namespace Tyo3.AuthoredLoading

open AuthoredStore Entities FiniteMaps JsonValues SystemPaths TextSearch

/-! ## The stored document -/

/-- The document of one record. -/
structure AuthoredRecordDoc where
  /-- Format version. -/
  formatVersion : ℕ
  /-- Layer of the record. -/
  layer : String
  /-- Durable id of the record. -/
  durableId : String
  /-- Current version. -/
  current : AuthoredVersion
  /-- Earlier versions, oldest first. -/
  history : List AuthoredVersion
  deriving DecidableEq

/-- Errors of loading a record. -/
inductive AuthoredLoadError where
  | json (message : String)
  | unknownVersion (version : ℕ)
  deriving DecidableEq, Repr

/-- The document of a record in memory, in the current format. -/
def AuthoredRecordDoc.of (layer id : String) (rec : AuthoredRecord) : AuthoredRecordDoc where
  formatVersion := authoredFormatVersion
  layer := layer
  durableId := id
  current := rec.current
  history := rec.history

/-- A field of an object, absent when there is none. -/
def optionalField (value : Json) (name : String) : Except String (Option Json) :=
  match value with
  | .obj fields => .ok (fields.lookup name)
  | _ => .error "invalid type, expected a struct"

/-- A field that must be there. -/
def requiredField (value : Json) (name : String) : Except String Json := do
  match ← optionalField value name with
  | some field => .ok field
  | none => .error ("missing field `" ++ name ++ "`")

/-- A text. -/
def readStr : Json → Except String String
  | .str text => .ok text
  | _ => .error "invalid type, expected a string"

/-- An unsigned integer. -/
def readNat : Json → Except String ℕ
  | .nat n => .ok n
  | _ => .error "invalid type, expected an unsigned integer"

/-- A format version is a 32-bit number. -/
def readU32 (value : Json) : Except String ℕ := do
  let n ← readNat value
  if n < 2 ^ 32 then .ok n else .error "invalid value, expected u32"

/-- The items of an array. -/
def readItems : Json → Except String (List Json)
  | .arr items => .ok items
  | _ => .error "invalid type, expected a sequence"

/-- The hash a version was reviewed at: absent, null or a hexadecimal text. -/
def readReviewedHash : Option Json → Except String (Option ContentHash)
  | none => .ok none
  | some .null => .ok none
  | some value => do
    let text ← readStr value
    match parseHex (2 ^ 128) text with
    | some hash => .ok (some hash)
    | none => .error "invalid digit found in string"

/-- Read a version. -/
def readVersion (json : Json) : Except String AuthoredVersion := do
  let payload ← requiredField json "value"
  let revision ← readNat (← requiredField json "revision")
  let reviewed ← readReviewedHash (← optionalField json "reviewed_hash")
  .ok ⟨payload, revision, reviewed⟩

/-- Read the earlier versions; a missing list is empty. -/
def readHistory : Option Json → Except String (List AuthoredVersion)
  | none => .ok []
  | some value => do (← readItems value).mapM readVersion

/-- Read a document. -/
def readDoc (json : Json) : Except String AuthoredRecordDoc := do
  let version ← readU32 (← requiredField json "format_version")
  let layer ← readStr (← requiredField json "layer")
  let id ← readStr (← requiredField json "durable_id")
  let current ← readVersion (← requiredField json "current")
  let history ← readHistory (← optionalField json "history")
  .ok ⟨version, layer, id, current, history⟩

/-- Parse the bytes of a document. -/
def parseDoc (codec : Codec) (bytes : Bytes) : Except String AuthoredRecordDoc := do
  readDoc (← codec.fromStr (← codec.fromUtf8 bytes))

/-- Read a document, refusing a newer format. -/
def docFromBytes (codec : Codec) (bytes : Bytes) : Except AuthoredLoadError AuthoredRecordDoc :=
  match parseDoc codec bytes with
  | .error message => .error (.json message)
  | .ok doc =>
    if doc.formatVersion > authoredFormatVersion then .error (.unknownVersion doc.formatVersion)
    else .ok doc

/-! ## Loading -/

/-- Directory of the records of a layer. -/
def authoredDir (root : SystemPath) (layer : String) : SystemPath :=
  root.join [".tyo3", "authored", layer]

/-- Path of a record. -/
def recordPath (root : SystemPath) (layer id : String) : SystemPath :=
  (authoredDir root layer).join [id ++ ".json"]

/-- The record files of a directory, in the order it is read. -/
def recordFiles (listing : HashOrder SystemPath) (files : FMap SystemPath Bytes)
    (dir : SystemPath) : List SystemPath :=
  (listing.order files.keys).filter fun p =>
    decide (p.components.dropLast = dir.components ∧ p.extension = some "json")

/-- Insert a document: the history where it is kept, then the current
version. -/
def putDoc (keepHistory : Bool) (m : AuthoredMap) (doc : AuthoredRecordDoc) : AuthoredMap :=
  let earlier := if keepHistory then
      doc.history.foldl (fun m v => put m doc.layer doc.durableId v keepHistory) m
    else m
  put earlier doc.layer doc.durableId doc.current keepHistory

/-- Load the record files of one layer. -/
def loadFiles (codec : Codec) (files : FMap SystemPath Bytes) (keepHistory : Bool)
    (m : AuthoredMap) (paths : List SystemPath) : Except AuthoredLoadError AuthoredMap :=
  paths.foldlM (fun m p =>
    match files.lookup p with
    | none => .ok m
    | some bytes => (docFromBytes codec bytes).map (putDoc keepHistory m)) m

/-- Load the records of every declared authored layer. -/
def loadAuthoredRecords (codec : Codec) (listing : HashOrder SystemPath) (root : SystemPath)
    (config : ValidatedConfig) (files : FMap SystemPath Bytes) :
    Except AuthoredLoadError AuthoredMap :=
  config.topoOrder.foldlM (fun m name =>
    match config.authoredLayerConfig name with
    | none => .ok m
    | some cfg =>
      loadFiles codec files cfg.history m (recordFiles listing files (authoredDir root name))) ∅

/-! ## Reading back what was stored -/

/-- A stored version reads back. -/
theorem readVersion_versionJson (v : AuthoredVersion) : readVersion (versionJson v) = .ok v := by
  obtain ⟨payload, revision, reviewed⟩ := v
  cases reviewed with
  | none => rfl
  | some hash =>
    have hhash : parseHex (2 ^ 128) (hashHex hash) = some hash := parseHex_hexText 32 hash
    have hread : readReviewedHash (some (.str (hashHex hash))) = .ok (some hash) := by
      simp only [readReviewedHash, readStr, bind, Except.bind, hhash]
    have hfield : optionalField (versionJson ⟨payload, revision, some hash⟩) "reviewed_hash" =
        .ok (some (.str (hashHex hash))) := rfl
    have hvalue : requiredField (versionJson ⟨payload, revision, some hash⟩) "value" =
        .ok payload := rfl
    have hrevision : requiredField (versionJson ⟨payload, revision, some hash⟩) "revision" =
        .ok (.nat revision) := rfl
    unfold readVersion
    simp only [hfield, hvalue, hrevision, hread, readNat, bind, Except.bind]

/-- Stored versions read back. -/
theorem mapM_readVersion (versions : List AuthoredVersion) :
    (versions.map versionJson).mapM readVersion = .ok versions := by
  induction versions with
  | nil => rfl
  | cons v versions ih =>
    rw [List.map_cons, List.mapM_cons, readVersion_versionJson, ih]
    rfl

/-- A stored document reads back. -/
theorem readDoc_recordJson (layer id : String) (rec : AuthoredRecord) :
    readDoc (recordJson layer id rec) = .ok (AuthoredRecordDoc.of layer id rec) := by
  have hversion : requiredField (recordJson layer id rec) "format_version" =
      .ok (.nat authoredFormatVersion) := rfl
  have hlayer : requiredField (recordJson layer id rec) "layer" = .ok (.str layer) := rfl
  have hid : requiredField (recordJson layer id rec) "durable_id" = .ok (.str id) := rfl
  have hcurrent : requiredField (recordJson layer id rec) "current" =
      .ok (versionJson rec.current) := rfl
  have hu32 : readU32 (.nat authoredFormatVersion) = .ok authoredFormatVersion := rfl
  have hhistory : ∃ field, optionalField (recordJson layer id rec) "history" = .ok field ∧
      readHistory field = .ok rec.history := by
    by_cases h : rec.history = []
    · refine ⟨none, ?_, by rw [h]; rfl⟩
      simp only [recordJson, h, if_true]
      rfl
    · refine ⟨some (.arr (rec.history.map versionJson)), ?_, mapM_readVersion rec.history⟩
      simp only [recordJson, h, if_false]
      rfl
  obtain ⟨field, hfield, hread⟩ := hhistory
  unfold readDoc
  simp only [hversion, hlayer, hid, hcurrent, hfield, hread, hu32, readStr,
    readVersion_versionJson, bind, Except.bind]
  rfl

/-- The library reads back a printed value that is followed by a newline. -/
def ReadsLine (codec : Codec) (value : Json) : Prop :=
  ∀ bytes, codec.toVecPretty value = .ok bytes →
    ∃ text, codec.fromUtf8 (bytes ++ [10]) = .ok text ∧ codec.fromStr text = .ok value

/-- The bytes of a record parse to its document. -/
theorem docFromBytes_recordBytes {codec : Codec} {layer id : String} {rec : AuthoredRecord}
    {bytes : Bytes} (hcodec : ReadsLine codec (recordJson layer id rec))
    (hbytes : recordBytes codec layer id rec = .ok bytes) :
    docFromBytes codec bytes = .ok (AuthoredRecordDoc.of layer id rec) := by
  unfold recordBytes at hbytes
  cases hprint : codec.toVecPretty (recordJson layer id rec) with
  | error e =>
    rw [hprint] at hbytes
    cases hbytes
  | ok printed =>
    rw [hprint] at hbytes
    cases hbytes
    obtain ⟨text, hutf, hparse⟩ := hcodec printed hprint
    have hdoc : parseDoc codec (printed ++ [10]) = .ok (AuthoredRecordDoc.of layer id rec) := by
      unfold parseDoc
      simp only [hutf, hparse, bind, Except.bind, readDoc_recordJson]
    unfold docFromBytes
    rw [hdoc]
    rfl

/-! ## What loading restores -/

/-- All versions of a record, oldest first. -/
def versions (rec : AuthoredRecord) : List AuthoredVersion := rec.history ++ [rec.current]

/-- All versions under a layer and an id. -/
def versionsAt (m : AuthoredMap) (layer id : String) : List AuthoredVersion :=
  ((m.lookup (layer, id)).map versions).getD []

/-- An insertion concerns one record. -/
theorem lookup_put_of_ne {m : AuthoredMap} {layer id : String} {v : AuthoredVersion} {keep : Bool}
    {key : String × String} (hne : key ≠ (layer, id)) :
    (put m layer id v keep).lookup key = m.lookup key := by
  unfold put
  rw [lookup_insert_ite, if_neg hne]

/-- An insertion that keeps the history adds one version at the end. -/
theorem lookup_put_keep (m : AuthoredMap) (layer id : String) (v : AuthoredVersion) :
    (put m layer id v true).lookup (layer, id) = some ⟨v, versionsAt m layer id⟩ := by
  unfold put versionsAt
  rw [lookup_insert_ite, if_pos rfl]
  cases m.lookup (layer, id) with
  | none => rfl
  | some prev => rfl

/-- An insertion that drops the history leaves one version. -/
theorem lookup_put_drop (m : AuthoredMap) (layer id : String) (v : AuthoredVersion) :
    (put m layer id v false).lookup (layer, id) = some ⟨v, []⟩ := by
  unfold put
  rw [lookup_insert_ite, if_pos rfl]
  cases m.lookup (layer, id) with
  | none => rfl
  | some prev => rfl

/-- Inserting versions one by one adds them in order. -/
theorem versionsAt_foldl_put (vs : List AuthoredVersion) (m : AuthoredMap) (layer id : String) :
    versionsAt (vs.foldl (fun m v => put m layer id v true) m) layer id =
      versionsAt m layer id ++ vs := by
  induction vs generalizing m with
  | nil => simp
  | cons v vs ih =>
    have hput : versionsAt (put m layer id v true) layer id = versionsAt m layer id ++ [v] := by
      unfold versionsAt
      rw [lookup_put_keep]
      rfl
    rw [List.foldl_cons, ih, hput, List.append_assoc, List.singleton_append]

/-- Inserting versions of one record leaves the others. -/
theorem lookup_foldl_put_of_ne {keep : Bool} {layer id : String} {key : String × String}
    (hne : key ≠ (layer, id)) (vs : List AuthoredVersion) (m : AuthoredMap) :
    (vs.foldl (fun m v => put m layer id v keep) m).lookup key = m.lookup key := by
  induction vs generalizing m with
  | nil => rfl
  | cons v vs ih => rw [List.foldl_cons, ih, lookup_put_of_ne hne]

/-- A document concerns the record it names. -/
theorem lookup_putDoc_of_ne {keep : Bool} {m : AuthoredMap} {doc : AuthoredRecordDoc}
    {key : String × String} (hne : key ≠ (doc.layer, doc.durableId)) :
    (putDoc keep m doc).lookup key = m.lookup key := by
  unfold putDoc
  rw [lookup_put_of_ne hne]
  cases keep with
  | false => rfl
  | true => exact lookup_foldl_put_of_ne hne doc.history m

/-- The record a document leaves over the versions that were there before. -/
def reread (keepHistory : Bool) (doc : AuthoredRecordDoc) (earlier : List AuthoredVersion) :
    AuthoredRecord :=
  ⟨doc.current, if keepHistory then earlier ++ doc.history else []⟩

/-- A document puts its record after the versions that were there, or without
any where the layer keeps none. -/
theorem lookup_putDoc (keep : Bool) (m : AuthoredMap) (doc : AuthoredRecordDoc) :
    (putDoc keep m doc).lookup (doc.layer, doc.durableId) =
      some (reread keep doc (versionsAt m doc.layer doc.durableId)) := by
  unfold putDoc reread
  cases keep with
  | false =>
    dsimp only
    rw [lookup_put_drop]
    rfl
  | true =>
    dsimp only
    rw [if_pos rfl, lookup_put_keep, versionsAt_foldl_put, if_pos rfl]

/-- The document stored for a record. -/
def storedDoc (codec : Codec) (root : SystemPath) (files : FMap SystemPath Bytes)
    (layer id : String) : Option AuthoredRecordDoc :=
  match files.lookup (recordPath root layer id) with
  | none => none
  | some bytes => (docFromBytes codec bytes).toOption

/-- The stored document of a record is what its file parses to. -/
theorem storedDoc_of_lookup {codec : Codec} {root : SystemPath} {files : FMap SystemPath Bytes}
    {layer id : String} {bytes : Bytes} {doc : AuthoredRecordDoc}
    (hfile : files.lookup (recordPath root layer id) = some bytes)
    (hdoc : docFromBytes codec bytes = .ok doc) :
    storedDoc codec root files layer id = some doc := by
  unfold storedDoc
  rw [hfile]
  dsimp only
  rw [hdoc]
  rfl

/-- A stored document has a file that parses to it. -/
theorem storedDoc_eq_some {codec : Codec} {root : SystemPath} {files : FMap SystemPath Bytes}
    {layer id : String} {doc : AuthoredRecordDoc}
    (h : storedDoc codec root files layer id = some doc) :
    ∃ bytes, files.lookup (recordPath root layer id) = some bytes ∧
      docFromBytes codec bytes = .ok doc := by
  unfold storedDoc at h
  cases hfile : files.lookup (recordPath root layer id) with
  | none =>
    rw [hfile] at h
    cases h
  | some bytes =>
    rw [hfile] at h
    dsimp only at h
    cases hdoc : docFromBytes codec bytes with
    | error e =>
      rw [hdoc] at h
      cases h
    | ok doc' =>
      rw [hdoc] at h
      cases h
      exact ⟨bytes, rfl, hdoc⟩

/-- Records of different ids or layers have different paths. -/
theorem recordPath_inj {root : SystemPath} {layer layer' id id' : String}
    (h : recordPath root layer id = recordPath root layer' id') : layer = layer' ∧ id = id' := by
  have hcomps := congrArg SystemPath.components h
  simpa [recordPath, authoredDir, SystemPath.join] using hcomps

/-- Storing a record changes its file alone. -/
theorem lookup_insert_recordPath (root : SystemPath) (files : FMap SystemPath Bytes)
    (name i : String) (bytes : Bytes) (layer id : String) :
    (files.insert (recordPath root name i) bytes).lookup (recordPath root layer id) =
      if (layer, id) = (name, i) then some bytes
      else files.lookup (recordPath root layer id) := by
  rw [lookup_insert_ite]
  by_cases heq : (layer, id) = (name, i)
  · cases heq
    rw [if_pos rfl, if_pos rfl]
  · have hne : recordPath root layer id ≠ recordPath root name i := fun hp =>
      heq (Prod.ext (recordPath_inj hp).1 (recordPath_inj hp).2)
    rw [if_neg heq, if_neg hne]

/-- Every file in the directory of a layer that parses is the record of its
own name. -/
def OwnFiles (codec : Codec) (root : SystemPath) (files : FMap SystemPath Bytes) : Prop :=
  ∀ p bytes doc layer, files.lookup p = some bytes → docFromBytes codec bytes = .ok doc →
    p.components.dropLast = (authoredDir root layer).components →
    doc.layer = layer ∧ p = recordPath root layer doc.durableId

section Loading

variable {codec : Codec} {root : SystemPath} {files : FMap SystemPath Bytes}

/-- Loading in two parts. -/
theorem loadFiles_append {keep : Bool} {m m' : AuthoredMap} {front back : List SystemPath}
    (h : loadFiles codec files keep m (front ++ back) = .ok m') :
    ∃ m₁, loadFiles codec files keep m front = .ok m₁ ∧
      loadFiles codec files keep m₁ back = .ok m' := by
  unfold loadFiles at h ⊢
  rw [List.foldlM_append] at h
  cases hfront : front.foldlM (fun m p =>
    match files.lookup p with
    | none => (.ok m : Except AuthoredLoadError AuthoredMap)
    | some bytes => (docFromBytes codec bytes).map (putDoc keep m)) m with
  | error e =>
    rw [hfront] at h
    cases h
  | ok m₁ =>
    rw [hfront] at h
    exact ⟨m₁, rfl, h⟩

/-- Loading the first file. -/
theorem loadFiles_cons {keep : Bool} {m m' : AuthoredMap} {p : SystemPath} {paths : List SystemPath}
    (h : loadFiles codec files keep m (p :: paths) = .ok m') :
    (files.lookup p = none ∧ loadFiles codec files keep m paths = .ok m') ∨
      ∃ bytes doc, files.lookup p = some bytes ∧ docFromBytes codec bytes = .ok doc ∧
        loadFiles codec files keep (putDoc keep m doc) paths = .ok m' := by
  unfold loadFiles at h ⊢
  rw [List.foldlM_cons] at h
  cases hp : files.lookup p with
  | none =>
    rw [hp] at h
    exact .inl ⟨rfl, h⟩
  | some bytes =>
    rw [hp] at h
    cases hdoc : docFromBytes codec bytes with
    | error e =>
      simp only [hdoc] at h
      cases h
    | ok doc =>
      simp only [hdoc] at h
      exact .inr ⟨bytes, doc, rfl, hdoc, h⟩

/-- Files of other records leave a record. -/
theorem lookup_loadFiles_of_ne {keep : Bool} {m m' : AuthoredMap} {paths : List SystemPath}
    {key : String × String} (h : loadFiles codec files keep m paths = .ok m')
    (hne : ∀ p ∈ paths, ∀ bytes doc, files.lookup p = some bytes →
      docFromBytes codec bytes = .ok doc → key ≠ (doc.layer, doc.durableId)) :
    m'.lookup key = m.lookup key := by
  induction paths generalizing m with
  | nil =>
    cases h
    rfl
  | cons p paths ih =>
    have hrest := fun q hq => hne q (List.mem_cons_of_mem _ hq)
    rcases loadFiles_cons h with ⟨-, hload⟩ | ⟨bytes, doc, hp, hdoc, hload⟩
    · exact ih hload hrest
    · rw [ih hload hrest, lookup_putDoc_of_ne (hne p List.mem_cons_self bytes doc hp hdoc)]

/-- Where one file alone names a record, reading it once puts its document
over the versions that were there before. -/
theorem lookup_loadFiles_of_mem {keep : Bool} {m m' : AuthoredMap} {paths : List SystemPath}
    {file : SystemPath} {bytes : Bytes} {doc : AuthoredRecordDoc} (hnodup : paths.Nodup)
    (hmem : file ∈ paths) (hfile : files.lookup file = some bytes)
    (hdoc : docFromBytes codec bytes = .ok doc)
    (honly : ∀ p ∈ paths, ∀ bytes' doc', files.lookup p = some bytes' →
      docFromBytes codec bytes' = .ok doc' →
      (doc.layer, doc.durableId) = (doc'.layer, doc'.durableId) → p = file)
    (h : loadFiles codec files keep m paths = .ok m') :
    m'.lookup (doc.layer, doc.durableId) =
      some (reread keep doc (versionsAt m doc.layer doc.durableId)) := by
  obtain ⟨front, back, hsplit⟩ := List.append_of_mem hmem
  have hnd := hsplit ▸ hnodup
  have hfrontNot : file ∉ front := fun hf =>
    (List.nodup_append.mp hnd).2.2 _ hf _ List.mem_cons_self rfl
  have hbackNot : file ∉ back := (List.nodup_cons.mp (List.nodup_append.mp hnd).2.1).1
  have hother : ∀ qs : List SystemPath, (∀ q ∈ qs, q ∈ paths) → file ∉ qs → ∀ q ∈ qs,
      ∀ bytes' doc', files.lookup q = some bytes' → docFromBytes codec bytes' = .ok doc' →
      (doc.layer, doc.durableId) ≠ (doc'.layer, doc'.durableId) := by
    intro qs hsub hnot q hq bytes' doc' hbytes' hdoc' heq
    have hsame := honly q (hsub q hq) bytes' doc' hbytes' hdoc' heq
    exact hnot (hsame ▸ hq)
  have hfrontSub : ∀ q ∈ front, q ∈ paths := by
    intro q hq
    rw [hsplit]
    exact List.mem_append_left _ hq
  have hbackSub : ∀ q ∈ back, q ∈ paths := by
    intro q hq
    rw [hsplit]
    exact List.mem_append_right _ (List.mem_cons_of_mem _ hq)
  rw [hsplit] at h
  obtain ⟨m₁, hfront, hrest⟩ := loadFiles_append h
  have hm₁ := lookup_loadFiles_of_ne hfront (hother front hfrontSub hfrontNot)
  have hversions : versionsAt m₁ doc.layer doc.durableId =
      versionsAt m doc.layer doc.durableId := by
    unfold versionsAt
    rw [hm₁]
  rcases loadFiles_cons hrest with ⟨hp, -⟩ | ⟨bytes', doc', hp, hdoc', hback⟩
  · rw [hfile] at hp
    cases hp
  · rw [hfile] at hp
    cases hp
    rw [hdoc] at hdoc'
    cases hdoc'
    rw [lookup_loadFiles_of_ne hback (hother back hbackSub hbackNot), lookup_putDoc, hversions]

/-- Loading the directory of a layer puts the stored record of every file that
is read. -/
theorem lookup_loadFiles {keep : Bool} {m m' : AuthoredMap} {paths : List SystemPath}
    {layer id : String} (hown : OwnFiles codec root files) (hnodup : paths.Nodup)
    (hdir : ∀ p ∈ paths, p.components.dropLast = (authoredDir root layer).components)
    (h : loadFiles codec files keep m paths = .ok m') (hnew : m.lookup (layer, id) = none) :
    m'.lookup (layer, id) =
      if recordPath root layer id ∈ paths then
        (storedDoc codec root files layer id).map fun doc => reread keep doc []
      else none := by
  have honly : ∀ p ∈ paths, ∀ bytes doc, files.lookup p = some bytes →
      docFromBytes codec bytes = .ok doc → (layer, id) = (doc.layer, doc.durableId) →
      p = recordPath root layer id := by
    intro p hp bytes doc hbytes hdoc heq
    have hself := hown p bytes doc layer hbytes hdoc (hdir p hp)
    rw [hself.2, (Prod.mk.inj heq).2]
  -- The record is put when its file is read and parses; no other file names it.
  by_cases hread : recordPath root layer id ∈ paths ∧
      ∃ doc, storedDoc codec root files layer id = some doc
  · obtain ⟨hmem, doc, hstored⟩ := hread
    rw [if_pos hmem, hstored]
    obtain ⟨bytes, hfile, hdoc⟩ := storedDoc_eq_some hstored
    have hself := hown _ bytes doc layer hfile hdoc (hdir _ hmem)
    have hid : id = doc.durableId := (recordPath_inj hself.2).2
    have hkey : (layer, id) = (doc.layer, doc.durableId) := by rw [hself.1, ← hid]
    have hempty : versionsAt m doc.layer doc.durableId = [] := by
      unfold versionsAt
      rw [← hkey, hnew]
      rfl
    have hput := lookup_loadFiles_of_mem hnodup hmem hfile hdoc (hkey ▸ honly) h
    rw [hkey, hput, hempty]
    rfl
  · have hnone : (if recordPath root layer id ∈ paths then
        (storedDoc codec root files layer id).map fun doc => reread keep doc []
        else none) = none := by
      split_ifs with hmem
      · cases hstored : storedDoc codec root files layer id with
        | none => rfl
        | some doc => exact absurd ⟨hmem, doc, hstored⟩ hread
      · rfl
    rw [hnone, ← hnew]
    refine lookup_loadFiles_of_ne h fun p hp bytes doc hbytes hdoc heq => hread ?_
    have hpath := honly p hp bytes doc hbytes hdoc heq
    rw [hpath] at hp hbytes
    exact ⟨hp, doc, storedDoc_of_lookup hbytes hdoc⟩

/-- The record files of a directory lie in it. -/
theorem dropLast_of_mem_recordFiles {listing : HashOrder SystemPath} {dir p : SystemPath}
    (h : p ∈ recordFiles listing files dir) : p.components.dropLast = dir.components := by
  have hp := of_decide_eq_true (List.mem_filter.mp h).2
  exact hp.1

/-- A file named after an id has the extension of a record file, unless the id
is empty. -/
theorem extension_join_json (dir : SystemPath) {id : String} (hid : id ≠ "") :
    (dir.join [id ++ ".json"]).extension = some "json" := by
  have hname : (dir.join [id ++ ".json"]).fileName = some (id ++ ".json") := by
    have hdots : id ++ ".json" ≠ ".." := by
      intro h
      have hlast := congrArg (fun s : String => s.toList.getLast?) h
      simp at hlast
    simp [SystemPath.join, SystemPath.fileName, hdots]
  have hsplit : splitLast ['.'] (id.toList ++ ".json".toList) = some (id.toList, "json".toList) := by
    generalize id.toList = cs
    induction cs with
    | nil => decide
    | cons c cs ih => simp only [List.cons_append, splitLast, ih]
  have hrsplit : rsplitOnce "." (id ++ ".json") = some (id, "json") := by
    unfold rsplitOnce
    rw [String.toList_append, show ".".toList = ['.'] from rfl, hsplit]
    simp
  unfold SystemPath.extension
  simp only [hname, hrsplit]
  rw [if_neg hid]

/-- A stored record is among the record files of its layer. -/
theorem mem_recordFiles {listing : HashOrder SystemPath} {layer id : String} (hid : id ≠ "")
    {bytes : Bytes} (h : files.lookup (recordPath root layer id) = some bytes) :
    recordPath root layer id ∈ recordFiles listing files (authoredDir root layer) := by
  have hdir : (recordPath root layer id).components.dropLast =
      (authoredDir root layer).components := by
    simp [recordPath, SystemPath.join]
  unfold recordFiles
  rw [List.mem_filter, HashOrder.mem_order, mem_keys_iff]
  exact ⟨⟨bytes, h⟩, decide_eq_true ⟨hdir, extension_join_json _ hid⟩⟩

/-- Load the records of the layers of a list. -/
def loadLayers (codec : Codec) (listing : HashOrder SystemPath) (root : SystemPath)
    (config : ValidatedConfig) (files : FMap SystemPath Bytes) (m : AuthoredMap)
    (names : List String) : Except AuthoredLoadError AuthoredMap :=
  names.foldlM (fun m name =>
    match config.authoredLayerConfig name with
    | none => .ok m
    | some cfg =>
      loadFiles codec files cfg.history m (recordFiles listing files (authoredDir root name))) m

variable {listing : HashOrder SystemPath} {config : ValidatedConfig}

/-- Loading the first layer. -/
theorem loadLayers_cons {m m' : AuthoredMap} {name : String} {names : List String}
    (h : loadLayers codec listing root config files m (name :: names) = .ok m') :
    ∃ m₁, loadLayers codec listing root config files m₁ names = .ok m' ∧
      ((config.authoredLayerConfig name = none ∧ m₁ = m) ∨
        ∃ cfg, config.authoredLayerConfig name = some cfg ∧
          loadFiles codec files cfg.history m
            (recordFiles listing files (authoredDir root name)) = .ok m₁) := by
  unfold loadLayers at h ⊢
  rw [List.foldlM_cons] at h
  cases hcfg : config.authoredLayerConfig name with
  | none =>
    rw [hcfg] at h
    exact ⟨m, h, .inl ⟨rfl, rfl⟩⟩
  | some cfg =>
    rw [hcfg] at h
    dsimp only at h
    cases hload : loadFiles codec files cfg.history m
        (recordFiles listing files (authoredDir root name)) with
    | error e =>
      rw [hload] at h
      cases h
    | ok m₁ =>
      rw [hload] at h
      exact ⟨m₁, h, .inr ⟨cfg, rfl, hload⟩⟩

/-- Other layers leave the records of a layer. -/
theorem lookup_loadLayers_of_not_mem {m m' : AuthoredMap} {names : List String} {layer id : String}
    (hown : OwnFiles codec root files)
    (h : loadLayers codec listing root config files m names = .ok m')
    (hnot : layer ∉ names ∨ config.authoredLayerConfig layer = none) :
    m'.lookup (layer, id) = m.lookup (layer, id) := by
  induction names generalizing m with
  | nil =>
    cases h
    rfl
  | cons name names ih =>
    obtain ⟨m₁, hrest, hfirst⟩ := loadLayers_cons h
    have hlater : m'.lookup (layer, id) = m₁.lookup (layer, id) :=
      ih hrest (hnot.imp_left fun hn hm => hn (List.mem_cons_of_mem _ hm))
    rcases hfirst with ⟨-, hsame⟩ | ⟨cfg, hcfg, hload⟩
    · rw [hlater, hsame]
    · have hne : name ≠ layer := by
        intro heq
        rcases hnot with hn | hn
        · exact hn (heq ▸ List.mem_cons_self)
        · rw [heq, hn] at hcfg
          cases hcfg
      rw [hlater]
      refine lookup_loadFiles_of_ne hload fun p hp bytes doc hbytes hdoc heq => ?_
      have hself := hown p bytes doc name hbytes hdoc (dropLast_of_mem_recordFiles hp)
      exact hne (hself.1.symm.trans (Prod.mk.inj heq).1.symm)

/-- Loading layers without repetition puts the stored records of a declared
layer. -/
theorem lookup_loadLayers {m m' : AuthoredMap} {names : List String} {layer id : String}
    {cfg : LayerCfg} (hown : OwnFiles codec root files) (hnodup : names.Nodup)
    (hcfg : config.authoredLayerConfig layer = some cfg)
    (h : loadLayers codec listing root config files m names = .ok m') (hmem : layer ∈ names)
    (hnew : m.lookup (layer, id) = none) :
    m'.lookup (layer, id) =
      if recordPath root layer id ∈ recordFiles listing files (authoredDir root layer) then
        (storedDoc codec root files layer id).map fun doc => reread cfg.history doc []
      else none := by
  induction names generalizing m with
  | nil => cases hmem
  | cons name names ih =>
    obtain ⟨hnot, hnodup⟩ := List.nodup_cons.mp hnodup
    obtain ⟨m₁, hrest, hfirst⟩ := loadLayers_cons h
    by_cases heq : layer = name
    · subst heq
      rw [lookup_loadLayers_of_not_mem hown hrest (.inl hnot)]
      rcases hfirst with ⟨hnone, -⟩ | ⟨cfg', hcfg', hload⟩
      · rw [hcfg] at hnone
        cases hnone
      · rw [hcfg] at hcfg'
        cases hcfg'
        have hpaths : (recordFiles listing files (authoredDir root layer)).Nodup :=
          (HashOrder.nodup_order _ _).filter _
        exact lookup_loadFiles hown hpaths (fun _ hp => dropLast_of_mem_recordFiles hp) hload hnew
    · have hsame : m₁.lookup (layer, id) = m.lookup (layer, id) := by
        rcases hfirst with ⟨-, hm₁⟩ | ⟨cfg', -, hload⟩
        · rw [hm₁]
        · refine lookup_loadFiles_of_ne hload fun p hp bytes doc hbytes hdoc hkey => ?_
          have hself := hown p bytes doc name hbytes hdoc (dropLast_of_mem_recordFiles hp)
          exact heq ((Prod.mk.inj hkey).1.trans hself.1)
      have hlater := List.mem_of_ne_of_mem heq hmem
      exact ih hnodup hrest hlater (hsame.trans hnew)

/-- What loading gives for a record. -/
theorem lookup_loadAuthoredRecords {m : AuthoredMap} {layer id : String}
    (hown : OwnFiles codec root files) (hnodup : config.topoOrder.Nodup)
    (h : loadAuthoredRecords codec listing root config files = .ok m) :
    m.lookup (layer, id) =
      if layer ∈ config.topoOrder ∧
          recordPath root layer id ∈ recordFiles listing files (authoredDir root layer) then
        (config.authoredLayerConfig layer).bind fun cfg =>
          (storedDoc codec root files layer id).map fun doc => reread cfg.history doc []
      else none := by
  have hload : loadLayers codec listing root config files ∅ config.topoOrder = .ok m := h
  have hempty : (∅ : AuthoredMap).lookup (layer, id) = none := Finmap.lookup_empty _
  cases hcfg : config.authoredLayerConfig layer with
  | none =>
    rw [lookup_loadLayers_of_not_mem hown hload (.inr hcfg), hempty]
    simp
  | some cfg =>
    by_cases hmem : layer ∈ config.topoOrder
    · rw [lookup_loadLayers hown hnodup hcfg hload hmem hempty]
      simp [hmem]
    · rw [lookup_loadLayers_of_not_mem hown hload (.inl hmem), hempty]
      simp [hmem]

end Loading

end Tyo3.AuthoredLoading
