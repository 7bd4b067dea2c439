import Tyo3.AuthoredLoading
import Tyo3.CommitOutcomes
import Tyo3.Runs

/-!
# Sessions on one project

A project is its sidecar on disk, with at most one session over it. Opening
loads the registry and the authored records that earlier sessions stored;
closing keeps the files and drops everything else. A run of sessions is a
list of openings, operations and closings.
-/

namespace Tyo3.ProjectSessions

open AuthoredLoading AuthoredStore CommitAtomicity CommitFunnel CommitOutcomes CommitPlan
  Entities FiniteMaps IdentityAnchors IdentityPersistence JsonValues Runs SystemPaths

/-! ## Opening -/

/-- Errors of opening a project. -/
inductive OpenError where
  | formatVersion (message : String)
  | persist (error : CommitError)

/-- The stored registry. A missing or damaged file starts an empty one, a
newer format is refused. -/
def loadRegistry (codec : Codec) (stored : Option Bytes) : Except OpenError IdentityRegistry :=
  match stored with
  | none => .ok IdentityRegistry.empty
  | some bytes =>
    match fromBytes codec bytes with
    | .ok registry => .ok registry
    | .error (.unknownVersion version) =>
      .error (.formatVersion ("unknown identity.db format_version: " ++ toString version))
    | .error _ => .ok IdentityRegistry.empty

/-- The error of a record that does not load. -/
def loadErrorOf : AuthoredLoadError → OpenError
  | .json message => .formatVersion ("authored record parse error: " ++ message)
  | .unknownVersion version =>
    .formatVersion ("unknown authored record format_version: " ++ toString version)

/-- What a project is opened with: the surroundings, the order directories
are read in and the validated configuration. -/
structure OpenRequest where
  /-- Surroundings of the opening. -/
  env : Env
  /-- Order of the entries of a directory. -/
  listing : HashOrder SystemPath
  /-- The configuration. -/
  config : ValidatedConfig
  /-- How many generations are kept. -/
  retainCap : ℕ
  /-- Names of the hash profiles. -/
  hashProfiles : Finset String
  /-- Name of the default hash profile. -/
  defaultHashProfile : String

/-- What opening reads, apart from the authored records. -/
def OpenRequest.opening (req : OpenRequest) (root : SystemPath) (files : FMap SystemPath Bytes)
    (registry : IdentityRegistry) : Opening where
  root := root
  registry := registry
  authored := ∅
  config := req.config
  retainCap := req.retainCap
  hashProfiles := req.hashProfiles
  defaultHashProfile := req.defaultHashProfile
  sidecar := files

/-- Path of the stored registry. -/
def identityDbPath (root : SystemPath) : SystemPath := root.join [".tyo3", "identity.db"]

/-- Open a project, with the files the attempt leaves. The registry is stored
before the authored records are loaded. -/
def openProject (crates : Crates) (root : SystemPath) (files : FMap SystemPath Bytes)
    (req : OpenRequest) : Except OpenError HeadState × FMap SystemPath Bytes :=
  match loadRegistry crates.codec (files.lookup (identityDbPath root)) with
  | .error e => (.error e, files)
  | .ok registry =>
    match openHead crates req.env (req.opening root files registry) with
    | .error e => (.error (.persist e), files)
    | .ok head =>
      match loadAuthoredRecords crates.codec req.listing root head.config head.sidecar with
      | .error e => (.error (loadErrorOf e), head.sidecar)
      | .ok authored => (.ok { head with authored := authored }, head.sidecar)

/-! ## Runs of sessions -/

/-- A project: its files while no session is open, or the head of the open
session. -/
inductive Project where
  | closed (files : FMap SystemPath Bytes)
  | opened (head : HeadState)

/-- The sidecar files of a project. -/
def Project.files : Project → FMap SystemPath Bytes
  | .closed files => files
  | .opened head => head.sidecar

@[simp] theorem Project.files_closed (files : FMap SystemPath Bytes) :
    (Project.closed files).files = files := rfl

@[simp] theorem Project.files_opened (head : HeadState) :
    (Project.opened head).files = head.sidecar := rfl

/-- One step of a run of sessions. -/
inductive SessionStep where
  | open_ (req : OpenRequest)
  | act (a : Action)
  | close

variable (crates : Crates) (root : SystemPath)

/-- The project after a step. A closed project takes no operation, an opened
one is not opened again. -/
def takeStep (p : Project) (step : SessionStep) : Project :=
  match p, step with
  | .closed files, .open_ req =>
    match openProject crates root files req with
    | (.ok head, _) => .opened head
    | (.error _, files) => .closed files
  | .opened head, .act a => .opened (a.run crates head)
  | .opened head, .close => .closed head.sidecar
  | p, _ => p

/-- The project after a run of sessions that starts without a sidecar. -/
def runSessions (steps : List SessionStep) : Project :=
  run (takeStep crates root) (.closed ∅) steps

variable {crates root}

/-- The authored records are the last thing an opening puts in place. -/
theorem openHead_authored {env : Env} {o : Opening} {head : HeadState}
    (h : openHead crates env o = .ok head) (authored : AuthoredMap) :
    openHead crates env { o with authored := authored } =
      .ok { head with authored := authored } := by
  unfold openHead at h ⊢
  dsimp only at h ⊢
  split at h
  · cases h
  · cases h
    rfl

/-- The head that opening builds: an opened head over the stored registry, the
registry stored again, and the records loaded from the files. -/
theorem openProject_ok {files files' : FMap SystemPath Bytes} {req : OpenRequest}
    {head : HeadState} (h : openProject crates root files req = (.ok head, files')) :
    ∃ registry authored head₀,
      openHead crates req.env (req.opening root files registry) = .ok head₀ ∧
      loadAuthoredRecords crates.codec req.listing root head₀.config head₀.sidecar =
        .ok authored ∧
      head = { head₀ with authored := authored } ∧ files' = head₀.sidecar := by
  unfold openProject at h
  split at h
  · cases h
  · rename_i registry hregistry
    split at h
    · cases h
    · rename_i head₀ hopen
      split at h
      · cases h
      · rename_i authored hload
        cases h
        exact ⟨registry, authored, head₀, hopen, hload, rfl, rfl⟩

/-- What opening keeps of the request, and the file it writes. -/
theorem openHead_ok {env : Env} {o : Opening} {head : HeadState}
    (h : openHead crates env o = .ok head) :
    head.root = o.root ∧ head.config = o.config ∧ head.authored = o.authored ∧
      head.store.revision = 1 ∧
      ∃ bytes, head.sidecar = o.sidecar.insert (identityDbPath o.root) bytes := by
  unfold openHead at h
  dsimp only at h
  split at h
  · cases h
  · rename_i head₁ hpersist
    obtain ⟨bytes, -, hhead⟩ := persistIdentity_ok hpersist
    cases h
    rw [hhead]
    exact ⟨rfl, rfl, rfl, rfl, bytes, rfl⟩

/-- An attempt to open leaves the files as they are or stores the registry. -/
theorem openProject_files (crates : Crates) (root : SystemPath) (files : FMap SystemPath Bytes)
    (req : OpenRequest) :
    (openProject crates root files req).2 = files ∨
      ∃ bytes, (openProject crates root files req).2 =
        files.insert (identityDbPath root) bytes := by
  unfold openProject
  split
  · exact .inl rfl
  · rename_i registry hregistry
    split
    · exact .inl rfl
    · rename_i head hopen
      obtain ⟨-, -, -, -, bytes, hfiles⟩ := openHead_ok hopen
      split
      · exact .inr ⟨bytes, hfiles⟩
      · exact .inr ⟨bytes, hfiles⟩

/-- The head of an open session in a run. -/
def OpenIs (crates : Crates) (root : SystemPath) (p : Project) : Prop :=
  match p with
  | .closed _ => True
  | .opened head => Reachable crates head ∧ head.root = root

/-- An operation keeps the root. -/
theorem root_run {head : HeadState} (hs : InStep head) (a : Action) :
    (a.run crates head).root = head.root := by
  cases a with
  | registerAuthoredLayer name history reviewOnChange => rfl
  | faultInject stage => rfl
  | reload => rfl
  | commit env m =>
    have houtcome := commit_outcome crates env hs m
    unfold Action.run
    dsimp only
    generalize (commit crates env head m).2 = head' at houtcome ⊢
    generalize (commit crates env head m).1 = result at houtcome
    cases houtcome with
    | idle counter armed hresult => rfl
    | reconciled staged counter bytes hm hplan hauth hbytes => rfl
    | authored lcfg anchor bytes record hcfg hanchor hrecord hbytes => rfl

/-- Every session of a run is a session of the project. -/
theorem openIs_takeStep {p : Project} (h : OpenIs crates root p) (step : SessionStep) :
    OpenIs crates root (takeStep crates root p step) := by
  cases p with
  | closed files =>
    cases step with
    | act a => exact h
    | close => exact h
    | open_ req =>
      unfold takeStep
      dsimp only
      cases hopen : openProject crates root files req with
      | mk result files' =>
        cases result with
        | error e => trivial
        | ok head =>
          obtain ⟨registry, authored, head₀, hhead₀, -, hhead, -⟩ := openProject_ok hopen
          have hreach := openHead_authored hhead₀ authored
          have hroot := (openHead_ok hhead₀).1
          rw [hhead]
          exact ⟨.opened hreach, hroot⟩
  | opened head =>
    cases step with
    | open_ req => exact h
    | close => trivial
    | act a =>
      have hs := inStep_of_reachable h.1
      exact ⟨.step h.1 a, (root_run hs a).trans h.2⟩

/-! ## What a step does -/

/-- A step of a run is an authored write that succeeds. -/
def Authors (crates : Crates) (p : Project) (step : SessionStep) (layer id : String)
    (value : Json) : Prop :=
  ∃ head env dto, p = .opened head ∧ step = .act (.commit env (.author layer id value)) ∧
    (commit crates env head (.author layer id value)).1 = .ok (some dto)

/-- The files are the same or have a newly stored registry. -/
def SameRecords (root : SystemPath) (files files' : FMap SystemPath Bytes) : Prop :=
  files' = files ∨ ∃ bytes, files' = files.insert (identityDbPath root) bytes

/-- The stored registry is not a record. -/
theorem recordPath_ne_identityDbPath (root : SystemPath) (layer id : String) :
    recordPath root layer id ≠ identityDbPath root := by
  intro h
  have hlength := congrArg (fun p : SystemPath => p.components.length) h
  simp [recordPath, authoredDir, identityDbPath, SystemPath.join] at hlength

/-- Storing the registry leaves the records. -/
theorem SameRecords.lookup {files files' : FMap SystemPath Bytes}
    (h : SameRecords root files files') (layer id : String) :
    files'.lookup (recordPath root layer id) = files.lookup (recordPath root layer id) := by
  rcases h with rfl | ⟨bytes, rfl⟩
  · rfl
  · rw [lookup_insert_ite, if_neg (recordPath_ne_identityDbPath root layer id)]

/-- Storing the registry leaves the directories of the layers. -/
theorem SameRecords.ownFiles {codec : Codec} {files files' : FMap SystemPath Bytes}
    (h : SameRecords root files files') (hown : OwnFiles codec root files) :
    OwnFiles codec root files' := by
  rcases h with rfl | ⟨bytes, rfl⟩
  · exact hown
  · intro p bytes' doc layer hp hdoc hdir
    refine hown p bytes' doc layer ?_ hdoc hdir
    have hne : p ≠ identityDbPath root := by
      intro heq
      have hlength := congrArg List.length hdir
      rw [heq] at hlength
      simp [authoredDir, identityDbPath, SystemPath.join] at hlength
    rw [lookup_insert_ite, if_neg hne] at hp
    exact hp

/-- Storing a record keeps every file the record of its own name. -/
theorem ownFiles_insert {codec : Codec} {files : FMap SystemPath Bytes} {name id : String}
    {bytes : Bytes} {rec : AuthoredRecord} (hown : OwnFiles codec root files)
    (hdoc : docFromBytes codec bytes = .ok (AuthoredRecordDoc.of name id rec)) :
    OwnFiles codec root (files.insert (recordPath root name id) bytes) := by
  intro p bytes' doc layer hp hdoc' hdir
  rw [lookup_insert_ite] at hp
  split_ifs at hp with heq
  · cases hp
    rw [hdoc] at hdoc'
    cases hdoc'
    have hlayer : name = layer := by
      rw [heq] at hdir
      simpa [recordPath, authoredDir, SystemPath.join] using hdir
    exact ⟨hlayer, hlayer ▸ heq⟩
  · exact hown p bytes' doc layer hp hdoc' hdir

/-- What a step does to the files, the authored records and the
configuration. -/
inductive Effect (crates : Crates) (root : SystemPath) : Project → SessionStep → Project → Prop
  | refused {p : Project} {step : SessionStep}
      (hstep : ∀ layer id value, ¬ Authors crates p step layer id value) :
      Effect crates root p step p
  | openFailed {files : FMap SystemPath Bytes} {req : OpenRequest} (files' : FMap SystemPath Bytes)
      (hfiles : SameRecords root files files') :
      Effect crates root (.closed files) (.open_ req) (.closed files')
  | opened {files : FMap SystemPath Bytes} {req : OpenRequest} (head : HeadState) (bytes : Bytes)
      (hfiles : head.sidecar = files.insert (identityDbPath root) bytes)
      (hconfig : head.config = req.config)
      (hload : loadAuthoredRecords crates.codec req.listing root head.config head.sidecar =
        .ok head.authored) :
      Effect crates root (.closed files) (.open_ req) (.opened head)
  | closed {head : HeadState} : Effect crates root (.opened head) .close (.closed head.sidecar)
  | registered {head : HeadState} {name : String} {history reviewOnChange : Bool} :
      Effect crates root (.opened head)
        (.act (.registerAuthoredLayer name history reviewOnChange))
        (.opened ((Action.registerAuthoredLayer name history reviewOnChange).run crates head))
  | reloaded {head : HeadState} :
      Effect crates root (.opened head) (.act .reload) (.opened (reload head))
  | kept {head : HeadState} {a : Action} (head' : HeadState)
      (hnot : ∀ layer id value, ¬ Authors crates (.opened head) (.act a) layer id value)
      (hfiles : SameRecords root head.sidecar head'.sidecar)
      (hauthored : head'.authored = head.authored) (hconfig : head'.config = head.config) :
      Effect crates root (.opened head) (.act a) (.opened head')
  | authored {head : HeadState} {env : Env} {layer id : String} {value : Json} {dto : CommitDelta}
      (lcfg : LayerCfg) (anchor : Anchor) (bytes : Bytes) (record : AuthoredMap)
      (head' : HeadState)
      (hresult : (commit crates env head (.author layer id value)).1 = .ok (some dto))
      (hcfg : head.config.authoredLayerConfig layer = some lcfg)
      (hanchor : head.registry.get id = some anchor)
      (hrecord : record = AuthoredStore.put head.authored layer id
        ⟨value, head.store.nextRevision, some anchor.contentHash⟩ lcfg.history)
      (hbytes : recordBytes crates.codec layer id ((record.lookup (layer, id)).getD
        ⟨⟨value, head.store.nextRevision, some anchor.contentHash⟩, []⟩) = .ok bytes)
      (hfiles : head'.sidecar = head.sidecar.insert (recordPath root layer id) bytes)
      (hauthored : head'.authored = record) (hconfig : head'.config = head.config) :
      Effect crates root (.opened head) (.act (.commit env (.author layer id value)))
        (.opened head')

/-- A commit on the head of a session has one of the effects. -/
theorem effect_commit {head : HeadState} (hs : InStep head) (hroot : head.root = root) (env : Env)
    (m : Mutation) :
    Effect crates root (.opened head) (.act (.commit env m))
      (.opened (commit crates env head m).2) := by
  have houtcome := commit_outcome crates env hs m
  generalize hnext : (commit crates env head m).2 = head' at houtcome ⊢
  generalize hresult : (commit crates env head m).1 = result at houtcome
  cases houtcome with
  | idle counter armed hnone =>
    refine .kept _ ?_ (.inl rfl) rfl rfl
    rintro layer id value ⟨head₁, env₁, dto, hhead, hact, hok⟩
    cases hhead
    cases hact
    exact hnone dto (hresult.symm.trans hok)
  | reconciled staged counter bytes hm hplan hauth hbytes =>
    have hfiles : SameRecords root head.sidecar
        (reconciledHead crates env (idle head counter none) staged bytes).sidecar :=
      .inr ⟨bytes, by rw [← hroot]; rfl⟩
    refine .kept _ ?_ hfiles (authored_reconciledHead hauth bytes) rfl
    rintro layer id value ⟨head₁, env₁, dto, hhead, hact, hok⟩
    cases hact
    cases hm
  | @authored layer id value dto lcfg anchor bytes record hcfg hanchor hrecord hbytes =>
    refine .authored lcfg anchor bytes record _ hresult hcfg hanchor hrecord hbytes ?_ rfl rfl
    rw [← hroot]
    rfl

/-- Every step of a run of sessions has one of the effects. -/
theorem takeStep_effect {p : Project} (hp : OpenIs crates root p) (step : SessionStep) :
    Effect crates root p step (takeStep crates root p step) := by
  cases p with
  | closed files =>
    have hclosed : ∀ s layer id value, ¬ Authors crates (.closed files) s layer id value := by
      rintro s layer id value ⟨head, env, dto, hhead, -⟩
      cases hhead
    cases step with
    | act a => exact .refused (hclosed _)
    | close => exact .refused (hclosed _)
    | open_ req =>
      have hfiles := openProject_files crates root files req
      unfold takeStep
      dsimp only
      cases hopen : openProject crates root files req with
      | mk result files' =>
        rw [hopen] at hfiles
        cases result with
        | error e => exact .openFailed files' hfiles
        | ok head =>
          obtain ⟨registry, authored, head₀, hhead₀, hload, hhead, hfiles'⟩ := openProject_ok hopen
          obtain ⟨hroot, hconfig, -, -, bytes, hsidecar⟩ := openHead_ok hhead₀
          rw [hhead]
          exact .opened _ bytes hsidecar hconfig hload
  | opened head =>
    cases step with
    | open_ req =>
      refine .refused ?_
      rintro layer id value ⟨head', env, dto, -, hact, -⟩
      cases hact
    | close => exact .closed
    | act a =>
      cases a with
      | registerAuthoredLayer name history reviewOnChange => exact .registered
      | reload => exact .reloaded
      | commit env m => exact effect_commit (inStep_of_reachable hp.1) hp.2 env m
      | faultInject stage =>
        refine .kept _ ?_ (.inl rfl) rfl rfl
        rintro layer id value ⟨head', env, dto, -, hact, -⟩
        cases hact

end Tyo3.ProjectSessions
