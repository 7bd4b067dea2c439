import Tyo3.LayerRuntime
import Tyo3.PinnedIdentity

/-!
# When an entity is due for review

The list of ids to be reviewed and the status of a single record are
computed by two functions. They agree on every configuration that names its
layers in its order, as validation and the later registration of layers do.
Along a run an id is listed exactly while its anchor is live and has another
hash than the one stamped by the last authored write of some layer.
-/

namespace Tyo3.ReviewStates

open AuthoredStore CommitAtomicity CommitFunnel CommitOutcomes CommitPlan Entities FiniteMaps
  IdentityAnchors JsonValues LayerOrder LayerRuntime PinnedIdentity Snapshots SystemPaths

/-! ## Configurations -/

/-- The settings of a layer that commits and reviews read. -/
def commitSettings (layer : Configuration.LayerCfg) : LayerCfg :=
  ⟨layer.origin, layer.history, layer.reviewOnChange⟩

/-- What commits and reviews read of a validated configuration. -/
def commitConfig (cfg : Configuration.ValidatedConfig) : ValidatedConfig where
  topoOrder := cfg.topoOrder
  layers := (Configuration.entries cfg.raw.layers).foldl
    (fun m entry => m.insert entry.1 (commitSettings entry.2)) ∅

/-- Configurations of a session: validated, then with authored layers
registered one by one. -/
inductive Declared : ValidatedConfig → Prop
  | validated {raw : Configuration.RawConfig} {cfg : Configuration.ValidatedConfig}
      (hfits : Fits raw) (h : Configuration.validate raw = .ok cfg) : Declared (commitConfig cfg)
  | registered {config config' : ValidatedConfig} {name : String} {history reviewOnChange : Bool}
      (hc : Declared config)
      (h : config.registerAuthoredLayer name history reviewOnChange = some config') :
      Declared config'

/-- Every layer stands in the order. -/
def Complete (config : ValidatedConfig) : Prop :=
  ∀ name cfg, config.layers.lookup name = some cfg → name ∈ config.topoOrder

/-- A validated configuration orders all its layers. -/
theorem complete_commitConfig {raw : Configuration.RawConfig}
    {cfg : Configuration.ValidatedConfig} (hfits : Fits raw)
    (h : Configuration.validate raw = .ok cfg) : Complete (commitConfig cfg) := by
  have haccepted := accepted_of_validate h
  have hordered := ordered_topoOrder hfits haccepted.order
  intro name settings hlookup
  have hentry := (lookup_foldl_insert (nodup_entries cfg.raw.layers) ∅ name settings).mp hlookup
  rcases hentry with ⟨entry, hmem, hname, -⟩ | ⟨-, hnone⟩
  · have hlayer : cfg.raw.layers.lookup name = some entry.2 :=
      hname ▸ (mem_entries _ _ _).mp hmem
    rw [haccepted.kept] at hlayer
    have hkey := (mem_keys_iff _ _).mpr ⟨entry.2, hlayer⟩
    exact (hordered.complete name).mpr (Finset.mem_insert_of_mem hkey)
  · rw [Finmap.lookup_empty] at hnone
    cases hnone

/-- Registering a layer puts it into the order. -/
theorem Complete.registered {config config' : ValidatedConfig} {name : String}
    {history reviewOnChange : Bool} (hc : Complete config)
    (h : config.registerAuthoredLayer name history reviewOnChange = some config') :
    Complete config' := by
  unfold ValidatedConfig.registerAuthoredLayer at h
  split at h
  · split at h
    · cases h
      exact hc
    · cases h
  · cases h
    have hold : ∀ n ∈ config.topoOrder, n ∈
        (if config.topoOrder.contains name then config.topoOrder
          else config.topoOrder ++ [name]) := by
      intro n hn
      split
      · exact hn
      · exact List.mem_append_left _ hn
    have hnew : name ∈
        (if config.topoOrder.contains name then config.topoOrder
          else config.topoOrder ++ [name]) := by
      split
      · rename_i hcontains
        exact List.contains_iff_mem.mp hcontains
      · exact List.mem_append_right _ List.mem_cons_self
    intro n cfg hlookup
    dsimp only at hlookup ⊢
    rw [lookup_insert_ite] at hlookup
    split at hlookup
    · rename_i heq
      rw [heq]
      exact hnew
    · exact hold n (hc n cfg hlookup)

/-- Every configuration of a session orders all its layers. -/
theorem Declared.complete {config : ValidatedConfig} (h : Declared config) : Complete config := by
  induction h with
  | validated hfits h => exact complete_commitConfig hfits h
  | registered _ h ih => exact ih.registered h

/-! ## Two ways to a review -/

/-- A record of a review layer has the status of a record to be reviewed
exactly when it is flagged. -/
theorem deriveAuthoredStatus_eq_iff {config : ValidatedConfig} {authored : AuthoredMap}
    {registry : IdentityRegistry} {layer id : String} {rec : AuthoredRecord}
    (hreviews : Reviews config layer) (hrec : authored.lookup (layer, id) = some rec) :
    deriveAuthoredStatus config registry layer id rec.current.reviewedHash = "needs_review" ↔
      flagged authored registry layer id = true := by
  obtain ⟨cfg, hcfg, -, hreview⟩ := hreviews
  have hasks : ((config.layers.lookup layer).map LayerCfg.reviewOnChange).getD false ≠ false := by
    rw [hcfg, Option.map_some, Option.getD_some, hreview]
    exact Bool.noConfusion
  unfold deriveAuthoredStatus flagged IdentityRegistry.statusOf
  rw [if_neg hasks, hrec]
  dsimp only
  cases registry.get id with
  | none => cases rec.current.reviewedHash <;> simp
  | some a =>
    cases rec.current.reviewedHash with
    | none => by_cases horphan : a.status = .orphaned <;> simp [horphan]
    | some reviewed => by_cases horphan : a.status = .orphaned <;> simp [horphan]

/-- An id is listed when some authored layer that asks for review holds a
record of it with the status of a record to be reviewed. -/
def ReviewedByStatus (config : ValidatedConfig) (authored : AuthoredMap)
    (registry : IdentityRegistry) (id : DurableId) : Prop :=
  ∃ layer rec, Reviews config layer ∧ authored.lookup (layer, id) = some rec ∧
    deriveAuthoredStatus config registry layer id rec.current.reviewedHash = "needs_review"

/-- The list and the statuses agree. -/
theorem mem_needsReviewIds_iff_status {config : ValidatedConfig} (hc : Complete config)
    (authored : AuthoredMap) (registry : IdentityRegistry) (id : DurableId) :
    id ∈ needsReviewIds config authored registry ↔
      ReviewedByStatus config authored registry id := by
  rw [mem_needsReviewIds]
  constructor
  · rintro ⟨a, ha, hlive, layer, -, hreviews, hout⟩
    have hflagged := flagged_iff.mpr ⟨a, ha, hlive, hout⟩
    cases hrec : authored.lookup (layer, id) with
    | none =>
      unfold flagged at hflagged
      rw [hrec] at hflagged
      cases hflagged
    | some rec =>
      exact ⟨layer, rec, hreviews, hrec, (deriveAuthoredStatus_eq_iff hreviews hrec).mpr hflagged⟩
  · rintro ⟨layer, rec, hreviews, hrec, hstatus⟩
    have hflagged := (deriveAuthoredStatus_eq_iff hreviews hrec).mp hstatus
    obtain ⟨a, ha, hlive, hout⟩ := flagged_iff.mp hflagged
    have hdeclared : layer ∈ config.topoOrder := by
      obtain ⟨cfg, hcfg, -⟩ := hreviews
      exact hc layer cfg hcfg
    exact ⟨a, ha, hlive, layer, hdeclared, hreviews, hout⟩

/-! ## Along a run -/

/-- Layer and id to the hash that was stamped last. -/
abbrev Stamps := String → String → Option ContentHash

/-- The stamps of stored records. -/
def storedStamps (authored : AuthoredMap) : Stamps := fun layer id =>
  (authored.lookup (layer, id)).bind fun rec => rec.current.reviewedHash

/-- The stamps after an operation. A published authored write stamps the hash
that the anchor has when it is written. -/
def stamp (crates : Crates) (head : HeadState) (stamps : Stamps) : Action → Stamps
  | .commit env (.author layer id value) =>
    match (CommitFunnel.commit crates env head (.author layer id value)).1 with
    | .ok (some _) => fun layer' id' =>
      if (layer', id') = (layer, id) then (head.registry.get id).map Anchor.contentHash
      else stamps layer' id'
    | _ => stamps
  | _ => stamps

/-- Heads of a run of edits, authored writes and registrations after an
opening, with the stamps so far. Every operation may fail. -/
inductive Watched (crates : Crates) : HeadState → Stamps → Prop
  | opened {env : Env} {o : Opening} {head : HeadState} (h : openHead crates env o = .ok head)
      (hc : Declared o.config) : Watched crates head (storedStamps o.authored)
  | step {head : HeadState} {stamps : Stamps} (hw : Watched crates head stamps) (a : Action)
      (ha : a ≠ .reload) : Watched crates (a.run crates head) (stamp crates head stamps a)

theorem Watched.reachable {crates : Crates} {head : HeadState} {stamps : Stamps}
    (h : Watched crates head stamps) : Reachable crates head := by
  induction h with
  | opened h => exact .opened h
  | step _ a _ ih => exact .step ih a

/-- What a run keeps: the order of the configuration is complete, and the
stored records carry the last stamps. -/
structure Recorded (head : HeadState) (stamps : Stamps) : Prop where
  /-- Every layer stands in the order. -/
  complete : Complete head.config
  /-- The stored stamps are the last ones. -/
  stamps : storedStamps head.authored = stamps

/-- An authored write stores its stamp and no other. -/
theorem storedStamps_put (authored : AuthoredMap) (layer id : String) (value : Json)
    (revision : Revision) (hash : ContentHash) (keep : Bool) :
    storedStamps (put authored layer id ⟨value, revision, some hash⟩ keep) =
      fun layer' id' => if (layer', id') = (layer, id) then some hash
        else storedStamps authored layer' id' := by
  funext layer' id'
  unfold storedStamps AuthoredStore.put
  rw [lookup_insert_ite]
  split <;> rfl

/-- Only authored writes stamp. -/
theorem stamp_of_reconciles (crates : Crates) (head : HeadState) (stamps : Stamps) (env : Env)
    {m : Mutation} (hm : reconciles m = true) :
    stamp crates head stamps (.commit env m) = stamps := by
  cases m with
  | author layer id value => cases hm
  | overlay _ _ _ _ _ => rfl
  | syncPath _ => rfl
  | syncAll => rfl
  | poll _ => rfl

/-- A write that publishes nothing stamps nothing. -/
theorem stamp_of_idle (crates : Crates) (head : HeadState) (stamps : Stamps) (env : Env)
    (m : Mutation) (h : ∀ dto, (CommitFunnel.commit crates env head m).1 ≠ .ok (some dto)) :
    stamp crates head stamps (.commit env m) = stamps := by
  cases m with
  | author layer id value =>
    unfold stamp
    dsimp only
    split
    · rename_i dto hok
      exact (h dto hok).elim
    · rfl
  | overlay _ _ _ _ _ => rfl
  | syncPath _ => rfl
  | syncAll => rfl
  | poll _ => rfl

/-- A commit keeps the record of the stamps. -/
theorem Recorded.commit {crates : Crates} {head : HeadState} {stamps : Stamps}
    (h : Recorded head stamps) (hs : InStep head) (env : Env) (m : Mutation) :
    Recorded (CommitFunnel.commit crates env head m).2
      (stamp crates head stamps (.commit env m)) := by
  have houtcome := commit_outcome crates env hs m
  have hidle := stamp_of_idle crates head stamps env m
  generalize hresult : (CommitFunnel.commit crates env head m).1 = result at houtcome hidle
  generalize (CommitFunnel.commit crates env head m).2 = head' at houtcome ⊢
  cases houtcome with
  | idle counter armed hnone =>
    rw [hidle hnone]
    exact ⟨h.complete, h.stamps⟩
  | reconciled staged counter bytes hm hplan hauth hbytes =>
    rw [stamp_of_reconciles crates head stamps env hm]
    refine ⟨h.complete, ?_⟩
    rw [authored_reconciledHead hauth bytes]
    exact h.stamps
  | @authored layer id value dto lcfg anchor bytes record hcfg hanchor hrecord hbytes =>
    refine ⟨h.complete, ?_⟩
    unfold stamp
    dsimp only
    rw [hresult, hrecord, storedStamps_put, hanchor, h.stamps]
    rfl

/-- Along every run the stored records carry the last stamps. -/
theorem Watched.recorded {crates : Crates} {head : HeadState} {stamps : Stamps}
    (h : Watched crates head stamps) : Recorded head stamps := by
  induction h with
  | opened h hc =>
    obtain ⟨-, hconfig, hauthored, -⟩ := ProjectSessions.openHead_ok h
    refine ⟨?_, ?_⟩
    · rw [hconfig]
      exact hc.complete
    · rw [hauthored]
  | @step head stamps hw a ha ih =>
    cases a with
    | commit env m => exact ih.commit (inStep_of_reachable hw.reachable) env m
    | registerAuthoredLayer name history reviewOnChange =>
      refine ⟨?_, ih.stamps⟩
      unfold Action.run
      dsimp only
      cases hreg : head.config.registerAuthoredLayer name history reviewOnChange with
      | none => exact ih.complete
      | some config => exact ih.complete.registered hreg
    | faultInject stage => exact ⟨ih.complete, ih.stamps⟩
    | reload => exact (ha rfl).elim

/-- The record of an id is outdated by a hash exactly when another hash was
stamped. -/
theorem outdated_iff {authored : AuthoredMap} {layer id : String} {hash : ContentHash} :
    outdated authored layer id hash = true ↔
      ∃ stamped, storedStamps authored layer id = some stamped ∧ stamped ≠ hash := by
  unfold outdated storedStamps
  cases authored.lookup (layer, id) with
  | none => simp
  | some rec =>
    dsimp only [Option.bind_some]
    cases rec.current.reviewedHash <;> simp

/-- The live anchor of an id has another hash than the last stamp of a layer
that asks for review. -/
def Drifted (head : HeadState) (stamps : Stamps) (id : DurableId) : Prop :=
  ∃ a, head.registry.get id = some a ∧ a.status ≠ .orphaned ∧
    ∃ layer hash, Reviews head.config layer ∧ stamps layer id = some hash ∧ hash ≠ a.contentHash

/-- The list of ids to be reviewed agrees with the statuses of the records
for every configuration, store and registry, and along every run it lists
the drifted ids. -/
theorem reviews_agree :
    (∀ config, Declared config → ∀ authored registry id,
      id ∈ needsReviewIds config authored registry ↔
        ReviewedByStatus config authored registry id) ∧
    ∀ crates head stamps, Watched crates head stamps → ∀ id,
      id ∈ needsReviewIds head.config head.authored head.registry ↔ Drifted head stamps id := by
  refine ⟨?_, ?_⟩
  · intro config hc authored registry id
    exact mem_needsReviewIds_iff_status hc.complete authored registry id
  · intro crates head stamps hw id
    obtain ⟨hcomplete, hstamps⟩ := hw.recorded
    rw [mem_needsReviewIds]
    refine exists_congr fun a => and_congr_right fun _ => and_congr_right fun _ => ?_
    constructor
    · rintro ⟨layer, -, hreviews, hout⟩
      obtain ⟨hash, hstored, hne⟩ := outdated_iff.mp hout
      rw [hstamps] at hstored
      exact ⟨layer, hash, hreviews, hstored, hne⟩
    · rintro ⟨layer, hash, hreviews, hstored, hne⟩
      rw [← hstamps] at hstored
      have hdeclared : layer ∈ head.config.topoOrder := by
        obtain ⟨cfg, hcfg, -⟩ := hreviews
        exact hcomplete layer cfg hcfg
      exact ⟨layer, hdeclared, hreviews, outdated_iff.mpr ⟨hash, hstored, hne⟩⟩

/-! ## A note on a variable -/

/-- A project of one file with this text. -/
def textEnv (text : String) : Env :=
  listedEnv [⟨["p", "a.py"]⟩] ((∅ : Disk).insert ⟨["p", "a.py"]⟩ (.file text))

/-- The project is opened with the default configuration. -/
def reviewOpening : Opening :=
  { freshOpening ⟨["p"]⟩ with
    config := commitConfig ⟨Configuration.RawConfig.defaults, ["code"]⟩ }

/-- The head after the project was opened and some operations were run, with
the stamps. -/
def reviewRun (actions : List Action) : HeadState × Stamps :=
  actions.foldl (fun s a => (a.run (listedCrates [⟨["p", "a.py"]⟩]) s.1,
      stamp (listedCrates [⟨["p", "a.py"]⟩]) s.1 s.2 a))
    (match openHead (listedCrates [⟨["p", "a.py"]⟩]) (textEnv "x = 1") reviewOpening with
      | .ok head => head
      | .error _ => listedHead [] ∅ ⟨[]⟩, storedStamps ∅)

/-- A layer of notes is registered, a note is written, its variable edited. -/
def editedNote : List Action :=
  [.registerAuthoredLayer "notes" true true,
    .commit (textEnv "x = 1") (.author "notes" "A" .null), .commit (textEnv "x = 12") .syncAll]

theorem watched_reviewRun {actions : List Action} (h : ∀ a ∈ actions, a ≠ .reload) :
    Watched (listedCrates [⟨["p", "a.py"]⟩]) (reviewRun actions).1 (reviewRun actions).2 := by
  have hvalid : Configuration.validate Configuration.RawConfig.defaults =
      .ok ⟨Configuration.RawConfig.defaults, ["code"]⟩ := rfl
  have hfits : Fits Configuration.RawConfig.defaults := by
    intro name layer hlayer
    cases hlayer
  have hopen : openHead (listedCrates [⟨["p", "a.py"]⟩]) (textEnv "x = 1") reviewOpening =
      .ok (reviewRun []).1 := rfl
  have hdeclared : Declared reviewOpening.config := Declared.validated hfits hvalid
  unfold reviewRun
  refine List.foldlRecOn (motive := fun s : HeadState × Stamps => Watched _ s.1 s.2) _ _ ?_ ?_
  · exact .opened hopen hdeclared
  · intro s hs a ha
    exact hs.step a (h a ha)

/-- The note is due while its variable is edited and no longer after the edit
is taken back. -/
theorem note_due_until_reverted :
    Drifted (reviewRun editedNote).1 (reviewRun editedNote).2 "A" ∧
    ¬Drifted (reviewRun (editedNote ++ [.commit (textEnv "x = 1") .syncAll])).1
      (reviewRun (editedNote ++ [.commit (textEnv "x = 1") .syncAll])).2 "A" := by
  have hedited := @watched_reviewRun editedNote (by simp [editedNote])
  have hreverted := @watched_reviewRun
    (editedNote ++ [.commit (textEnv "x = 1") .syncAll]) (by simp [editedNote])
  refine ⟨(reviews_agree.2 _ _ _ hedited "A").mp (by decide +kernel), ?_⟩
  rw [← reviews_agree.2 _ _ _ hreverted "A"]
  decide +kernel

end Tyo3.ReviewStates
