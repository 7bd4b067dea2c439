import Tyo3.IdentityRuns
import Tyo3.ProjectSessions

/-!
# The registries of sessions

Whatever a stored registry looks like, loading it inserts its anchors one by
one, so the indexes of the loaded registry are sound; reconciliations and
rollbacks keep them sound. Every head of a run of sessions therefore has a
sound registry.
-/

namespace Tyo3.SessionRegistries

open CommitAtomicity CommitFunnel CommitOutcomes CommitPlan Entities FiniteMaps IdentityAnchors
  IdentityMatching IdentityPersistence IdentityPostState IdentityReconciliation IdentityRuns
  JsonValues ProjectSessions Runs SystemPaths

/-- Reading stored anchors keeps a registry sound. -/
theorem sound_readAnchors {entries : List Json} {r s : IdentityRegistry} (hr : r.Sound)
    (h : readAnchors entries r = .ok s) : s.Sound := by
  unfold readAnchors at h
  induction entries generalizing r with
  | nil =>
    cases h
    exact hr
  | cons entry entries ih =>
    rw [List.foldlM_cons] at h
    cases hanchor : readAnchor entry with
    | error e =>
      rw [hanchor] at h
      cases h
    | ok anchor =>
      rw [hanchor] at h
      exact ih (hr.insert anchor) h

/-- A registry read from a JSON value is sound. -/
theorem sound_fromJsonValue {root : Json} {r : IdentityRegistry}
    (h : fromJsonValue root = .ok r) : r.Sound := by
  unfold fromJsonValue at h
  cases hversion : require "format_version" (root.index "format_version").asU64 with
  | error e =>
    rw [hversion] at h
    cases h
  | ok version =>
    rw [hversion] at h
    dsimp only [bind, Except.bind] at h
    split at h
    · cases h
    · cases hanchors : require "anchors" (root.index "anchors").asArray with
      | error e =>
        rw [hanchors] at h
        cases h
      | ok anchors =>
        rw [hanchors] at h
        exact sound_readAnchors IdentityRegistry.Sound.empty h

/-- The registry a session starts from is sound. -/
theorem sound_loadRegistry {codec : Codec} {stored : Option Bytes} {r : IdentityRegistry}
    (h : loadRegistry codec stored = .ok r) : r.Sound := by
  unfold loadRegistry at h
  split at h
  · cases h
    exact IdentityRegistry.Sound.empty
  · split at h
    · rename_i registry hbytes
      cases h
      unfold fromBytes fromJson at hbytes
      split at hbytes
      · cases hbytes
      · split at hbytes
        · cases hbytes
        · exact sound_fromJsonValue hbytes
    · cases h
    · cases h
      exact IdentityRegistry.Sound.empty

/-- Opening a project gives a sound registry. -/
theorem sound_openProject {crates : Crates} {root : SystemPath} {files files' : FMap SystemPath Bytes}
    {req : OpenRequest} {head : HeadState}
    (h : openProject crates root files req = (.ok head, files')) : head.registry.Sound := by
  unfold openProject at h
  split at h
  · cases h
  · rename_i registry hload
    have hsound := sound_loadRegistry hload
    split at h
    · cases h
    · rename_i head₀ hopen
      split at h
      · cases h
      · cases h
        dsimp only
        rw [registry_openHead hopen]
        exact reconcileImpl_sound hsound _ _ _ _ _

/-- An operation keeps the registry sound. -/
theorem sound_run {crates : Crates} {head : HeadState} (hs : InStep head)
    (hsound : head.registry.Sound) (a : Action) : (a.run crates head).registry.Sound := by
  cases a with
  | registerAuthoredLayer name history reviewOnChange => exact hsound
  | faultInject stage => exact hsound
  | reload => exact hsound
  | commit env m =>
    have houtcome := commit_outcome crates env hs m
    unfold Action.run
    dsimp only
    generalize (commit crates env head m).2 = head' at houtcome ⊢
    generalize (commit crates env head m).1 = result at houtcome
    cases houtcome with
    | idle counter armed hresult => exact hsound
    | reconciled staged counter bytes hm hplan hauth hbytes =>
      exact reconcileImpl_sound hsound _ _ _ _ _
    | authored lcfg anchor bytes record hcfg hanchor hrecord hbytes => exact hsound

/-- The open session of a run, with a sound registry. -/
def SoundSession (crates : Crates) (root : SystemPath) (p : Project) : Prop :=
  OpenIs crates root p ∧ ∀ head, p = .opened head → head.registry.Sound

/-- A step keeps the open session sound. -/
theorem SoundSession.takeStep {crates : Crates} {root : SystemPath} {p : Project}
    (h : SoundSession crates root p) (step : SessionStep) :
    SoundSession crates root (takeStep crates root p step) := by
  refine ⟨openIs_takeStep h.1 step, ?_⟩
  cases p with
  | closed files =>
    cases step with
    | act a => exact h.2
    | close => exact h.2
    | open_ req =>
      intro head hhead
      unfold ProjectSessions.takeStep at hhead
      dsimp only at hhead
      split at hhead
      · rename_i head' files' hopen
        cases hhead
        exact sound_openProject hopen
      · cases hhead
  | opened head =>
    cases step with
    | open_ req => exact h.2
    | close =>
      intro head' hhead
      cases hhead
    | act a =>
      intro head' hhead
      cases hhead
      exact sound_run (inStep_of_reachable h.1.1) (h.2 head rfl) a

/-- Every head of a run of sessions is reachable and has a sound registry. -/
theorem sound_runSessions {crates : Crates} {root : SystemPath} {steps : List SessionStep}
    {head : HeadState} (hhead : runSessions crates root steps = .opened head) :
    Reachable crates head ∧ head.registry.Sound := by
  have hstart : SoundSession crates root (.closed ∅) := ⟨trivial, fun head h => by cases h⟩
  have hstep : ∀ p step, SoundSession crates root p → True →
      SoundSession crates root (takeStep crates root p step) := fun _ step h _ => h.takeStep step
  have hall : Along (takeStep crates root) (fun _ _ => True) (.closed ∅) steps :=
    along_of_forall fun _ _ => trivial
  have hinv := invariant_run hstep hstart hall
  unfold runSessions at hhead
  rw [hhead] at hinv
  exact ⟨hinv.1.1, hinv.2 head rfl⟩

/-- Whether a project is opened and its head passes a test. -/
def opensTo (test : HeadState → Bool) : Project → Bool
  | .closed _ => false
  | .opened head => test head

/-- The head that passes the test. -/
theorem exists_of_opensTo {test : HeadState → Bool} {p : Project} (h : opensTo test p = true) :
    ∃ head, p = .opened head ∧ test head = true := by
  cases p with
  | closed files => cases h
  | opened head => exact ⟨head, rfl, h⟩

/-- Every registry has a supply of fresh ids. -/
theorem exists_fresh (r : IdentityRegistry) : ∃ mint, Fresh mint r := by
  have hbound : ∀ id ∈ r.byId.keys, id.length ≤ r.byId.keys.sup String.length :=
    fun id hid => Finset.le_sup (f := String.length) hid
  exact ⟨longIds (r.byId.keys.sup String.length), longIds_fresh hbound⟩

end Tyo3.SessionRegistries
