import Tyo3.DiskSync
import Tyo3.IdentityRuns

/-!
# The scope of identity reconciliation

A commit reconciles the Python files among the paths of its events, and
everything when there is no such file. The live anchors afterwards are the
entities of the scoped files and the anchors outside the scope that nothing
took over. So a scoped commit is exact precisely when the files outside the
scope have the entities they had.
-/

namespace Tyo3.IdentityScope

open CommitAtomicity CommitFunnel CommitPlan ContentStore DiskSync Entities FiniteMaps
  IdentityAnchors IdentityMatching IdentityPostState IdentityReconciliation IdentityRuns SystemPaths

/-! ## Live anchors after a reconciliation -/

/-- Path and hash of an anchor. -/
def anchorPair (a : Anchor) : String × ContentHash := (a.qualifiedPath, a.contentHash)

/-- Path and hash of an entity. -/
def entityPair (e : Entity) : String × ContentHash := (e.qualifiedPath, e.contentHash)

/-- Paths and hashes of a list of entities. -/
def entityPairs (entities : List Entity) : Finset (String × ContentHash) :=
  (entities.map entityPair).toFinset

/-- The live anchor of an id. -/
def liveAnchor (r : IdentityRegistry) (id : DurableId) : Option Anchor :=
  (r.get id).filter fun a => a.status ≠ .orphaned

/-- Paths and hashes of the live anchors. -/
def livePairs (r : IdentityRegistry) : Finset (String × ContentHash) :=
  (((HashOrder.increasing.order r.byId.keys).filterMap (liveAnchor r)).map anchorPair).toFinset

/-- A live anchor is an anchor that is not orphaned. -/
theorem liveAnchor_eq_some {r : IdentityRegistry} {id : DurableId} {a : Anchor} :
    liveAnchor r id = some a ↔ r.get id = some a ∧ a.status ≠ .orphaned := by
  unfold liveAnchor
  rw [Option.filter_eq_some_iff]
  simp

/-- The live pairs are those of the live anchors. -/
theorem mem_livePairs {r : IdentityRegistry} {x : String × ContentHash} :
    x ∈ livePairs r ↔ ∃ id a, liveAnchor r id = some a ∧ anchorPair a = x := by
  unfold livePairs
  rw [List.mem_toFinset, List.mem_map]
  constructor
  · intro h
    obtain ⟨a, ha, hx⟩ := h
    obtain ⟨id, -, hid⟩ := List.mem_filterMap.mp ha
    exact ⟨id, a, hid, hx⟩
  · intro h
    obtain ⟨id, a, hid, hx⟩ := h
    have hget := (liveAnchor_eq_some.mp hid).1
    have hkey : id ∈ r.byId.keys := (mem_keys_iff _ _).mpr ⟨a, hget⟩
    exact ⟨a, List.mem_filterMap.mpr ⟨id, (HashOrder.mem_order _ _ _).mpr hkey, hid⟩, hx⟩

/-- The pairs of a list of entities. -/
theorem mem_entityPairs {entities : List Entity} {x : String × ContentHash} :
    x ∈ entityPairs entities ↔ ∃ e ∈ entities, entityPair e = x := by
  unfold entityPairs
  rw [List.mem_toFinset, List.mem_map]

/-- An anchor that a reconciliation leaves alone: outside the scope, and not
the holder of the path of an entity. -/
def Untouched (r : IdentityRegistry) (scope : Option (Finset String)) (entities : List Entity)
    (id : DurableId) (a : Anchor) : Prop :=
  fileInScope scope a.qualifiedPath = false ∧
    ¬(r.byPath.lookup a.qualifiedPath = some id ∧ ∃ e ∈ entities, e.qualifiedPath = a.qualifiedPath)

section Reconciled

variable {mint : ℕ → DurableId} {r : IdentityRegistry} {entities : List Entity}
  {revision : Revision} {scope : Option (Finset String)}
  {out : Reconciliation × IdentityRegistry} {plan : List Bound}

/-- The entries of the plan carry exactly the entities. -/
theorem mem_entities_of_plan (ho : Outcome mint r entities revision scope out plan) {e : Entity} :
    e ∈ entities ↔ ∃ x ∈ plan, x.entity = e := by
  rw [← (sortEntities_perm entities).mem_iff, ← ho.entities, List.mem_map]

/-- Outside the scope an anchor is claimed only as the holder of its path. -/
theorem claimed_iff_of_outside (hs : r.Sound) (hf : Fresh mint r)
    (ho : Outcome mint r entities revision scope out plan) {id : DurableId} {a : Anchor}
    (ha : r.get id = some a) (hout : fileInScope scope a.qualifiedPath = false) :
    id ∈ claimed plan ↔ r.byPath.lookup a.qualifiedPath = some id ∧
      ∃ e ∈ entities, e.qualifiedPath = a.qualifiedPath := by
  have hscope : anchorInScope r id scope = false := (anchorInScope_eq ha).trans hout
  rw [mem_claimed]
  constructor
  · intro h
    obtain ⟨x, hx, hxid⟩ := h
    have hj := ho.justified x hx
    have hent : x.entity ∈ entities := (mem_entities_of_plan ho).mpr ⟨x, hx, rfl⟩
    cases hb : x.binding with
    | exact k oldHash =>
      have hk : k = id := by
        rw [← hxid]
        exact (congrArg Binding.id hb).symm
      rw [hb] at hj
      have hholder : r.byPath.lookup x.entity.qualifiedPath = some id := hk ▸ hj.1
      obtain ⟨b, hget, hpath⟩ := hs.path_anchor _ _ hholder
      rw [ha] at hget
      cases hget
      rw [hpath]
      exact ⟨hholder, x.entity, hent, rfl⟩
    | moved k oldPath oldHash =>
      have hk : k = id := by
        rw [← hxid]
        exact (congrArg Binding.id hb).symm
      rw [hb] at hj
      have hin := hj.2.1
      rw [hk, hscope] at hin
      cases hin
    | struct k confidence oldHash =>
      have hk : k = id := by
        rw [← hxid]
        exact (congrArg Binding.id hb).symm
      rw [hb] at hj
      have hin := hj.2.1
      rw [hk, hscope] at hin
      cases hin
    | minted k =>
      have hk : k = id := by
        rw [← hxid]
        exact (congrArg Binding.id hb).symm
      rw [hb] at hj
      obtain ⟨n, hn⟩ := hj.1
      have hunknown := hf.unknown n
      rw [← hn, hk, ha] at hunknown
      cases hunknown
  · intro h
    obtain ⟨hholder, e, he, hpath⟩ := h
    obtain ⟨x, hx, hxe⟩ := (mem_entities_of_plan ho).mp he
    have hlook : r.byPath.lookup x.entity.qualifiedPath = some id := by
      rw [hxe, hpath]
      exact hholder
    exact ⟨x, hx, (ho.indexed x hx id hlook).1⟩

/-- The live pairs after a reconciliation are those of the entities and of
the live anchors it left alone. -/
theorem mem_livePairs_outcome (hs : r.Sound) (hf : Fresh mint r)
    (ho : Outcome mint r entities revision scope out plan) {x : String × ContentHash} :
    x ∈ livePairs out.2 ↔ x ∈ entityPairs entities ∨
      ∃ id a, liveAnchor r id = some a ∧ Untouched r scope entities id a ∧ anchorPair a = x := by
  rw [mem_livePairs]
  constructor
  · intro h
    obtain ⟨id, a', hlive, hx⟩ := h
    obtain ⟨hget, hstatus⟩ := liveAnchor_eq_some.mp hlive
    by_cases hc : id ∈ claimed plan
    · obtain ⟨y, hy, hyid⟩ := mem_claimed.mp hc
      obtain ⟨b, hb, hpath, hhash, -⟩ := ho.get_bound_live hy
      rw [hyid, hget] at hb
      cases hb
      left
      refine mem_entityPairs.mpr ⟨y.entity, (mem_entities_of_plan ho).mpr ⟨y, hy, rfl⟩, ?_⟩
      rw [← hx]
      unfold entityPair anchorPair
      rw [hpath, hhash]
    · right
      have hother := ho.get_other id hc
      cases hv : vanished scope (claimed plan) r id with
      | true =>
        rw [if_pos hv, hget] at hother
        obtain ⟨b, -, hb⟩ := Option.map_eq_some_iff.mp hother.symm
        rw [← hb] at hstatus
        exact absurd rfl hstatus
      | false =>
        rw [if_neg (by rw [hv]; decide), hget] at hother
        have hget' : r.get id = some a' := hother.symm
        have hout : fileInScope scope a'.qualifiedPath = false := by
          cases hin : fileInScope scope a'.qualifiedPath with
          | false => rfl
          | true =>
            have hvan : vanished scope (claimed plan) r id = true :=
              vanished_iff.mpr ⟨hc, (anchorInScope_eq hget').trans hin, a', hget', hstatus⟩
            rw [hv] at hvan
            cases hvan
        refine ⟨id, a', liveAnchor_eq_some.mpr ⟨hget', hstatus⟩, ⟨hout, ?_⟩, hx⟩
        rw [← claimed_iff_of_outside hs hf ho hget' hout]
        exact hc
  · intro h
    rcases h with hent | ⟨id, a, hlive, ⟨hout, hfree⟩, hx⟩
    · obtain ⟨e, he, hpair⟩ := mem_entityPairs.mp hent
      obtain ⟨y, hy, hye⟩ := (mem_entities_of_plan ho).mp he
      obtain ⟨b, hb, hpath, hhash, hstatus⟩ := ho.get_bound_live hy
      refine ⟨y.id, b, liveAnchor_eq_some.mpr ⟨hb, hstatus⟩, ?_⟩
      rw [← hpair, ← hye]
      unfold entityPair anchorPair
      rw [hpath, hhash]
    · obtain ⟨hget, hstatus⟩ := liveAnchor_eq_some.mp hlive
      have hc : id ∉ claimed plan := by
        rw [claimed_iff_of_outside hs hf ho hget hout]
        exact hfree
      have hv : ¬vanished scope (claimed plan) r id = true := by
        intro hvan
        have hin := (vanished_iff.mp hvan).2.1
        rw [anchorInScope_eq hget, hout] at hin
        cases hin
      refine ⟨id, a, liveAnchor_eq_some.mpr ⟨?_, hstatus⟩, hx⟩
      rw [ho.get_other id hc, if_neg hv]
      exact hget

end Reconciled

/-! ## The registry after a commit -/

section Commits

variable {crates : Crates} {env : Env} {head head' : HeadState}

/-- The identity stage leaves the reconciled registry. -/
theorem identityStage_registry {staged : StagedCommit} {rev : Revision} {armed : Option String}
    {d : IdentityDelta} (h : identityStage crates env head staged rev armed = (.ok d, head'))
    (hrec : staged.reconcile = true) :
    head'.registry = (reconcileImpl env.iter env.mint head.registry
      (scopedEntities crates (env.engine.answers head.overlay) staged.scope) rev
      staged.scope).2 := by
  unfold identityStage at h
  rw [if_pos hrec] at h
  dsimp only at h
  split at h
  · cases h
  · split at h
    · cases h
    · split at h
      · cases h
      · rename_i hpersist
        obtain ⟨bytes, -, hhead⟩ := persistIdentity_ok hpersist
        cases h
        subst hhead
        rfl

/-- A reconciling commit leaves the registry reconciled with the entities of
its scope, as the engine reads them from the published content. -/
theorem commit_registry {m : Mutation} {dto : CommitDelta} (hm : reconciles m = true)
    (h : commit crates env head m = (.ok (some dto), head')) :
    ∃ staged, (buildPlan crates env head m).1 = .ok (some staged) ∧
      head'.overlay = staged.stagedGen ∧
      head'.registry = (reconcileImpl env.iter env.mint head.registry
        (scopedEntities crates (env.engine.answers staged.stagedGen) staged.scope)
        head.store.nextRevision staged.scope).2 := by
  obtain ⟨n, hhead⟩ := buildPlan_head crates env head m
  unfold commit at h
  cases hplan : buildPlan crates env head m with
  | mk result head₁ =>
    rw [hplan] at h hhead
    dsimp only at hhead
    subst hhead
    cases result with
    | error e => cases h
    | ok plan =>
      cases plan with
      | none => cases h
      | some staged =>
        have hfirst : (buildPlan crates env head m).1 = .ok (some staged) := by rw [hplan]
        obtain ⟨hrec, hauth⟩ := buildPlan_staged crates env head hfirst
        have hrec' : staged.reconcile = true := hrec.trans hm
        dsimp only at h
        split at h
        · rename_i dto' head₂ hrun
          have hoverlay := (runStaged_ok hrun).2.1
          cases h
          refine ⟨staged, rfl, hoverlay, ?_⟩
          unfold runStaged at hrun
          dsimp only at hrun
          split at hrun
          · cases hrun
          · rename_i d head₃ hid
            split at hrun
            · cases hrun
            · rename_i head₄ hauthored
              have hsame : head₄ = head₃ := (authoredStage_ok hauthored).1 (hauth hrec')
              have hreg := identityStage_registry hid hrec'
              cases hrun
              subst hsame
              exact hreg
        · cases h

end Commits

/-! ## Files and their entities -/

section Extraction

variable {crates : Crates} {answers : Answers}

/-- The entities of a set of files are those of the listed ones among them. -/
theorem mem_extractEntitiesFor {files : Finset String} {e : Entity} :
    e ∈ extractEntitiesFor crates answers files ↔
      ∃ p ∈ sourceFiles crates answers, p.asStr ∈ files ∧ e ∈ fileEntities answers p := by
  unfold extractEntitiesFor
  rw [List.mem_flatMap]
  constructor
  · intro h
    obtain ⟨p, hp, he⟩ := h
    have hmem := List.mem_filter.mp ((List.perm_insertionSort _ _).mem_iff.mp hp)
    exact ⟨p, hmem.1, of_decide_eq_true hmem.2, he⟩
  · intro h
    obtain ⟨p, hp, hfile, he⟩ := h
    exact ⟨p, (List.perm_insertionSort _ _).mem_iff.mpr
      (List.mem_filter.mpr ⟨hp, decide_eq_true hfile⟩), he⟩

/-- The entities of the project are those of all listed files. -/
theorem mem_extractEntities {e : Entity} :
    e ∈ extractEntities crates answers ↔
      ∃ p ∈ sourceFiles crates answers, e ∈ fileEntities answers p := by
  unfold extractEntities
  rw [mem_extractEntitiesFor]
  constructor
  · intro h
    obtain ⟨p, hp, -, he⟩ := h
    exact ⟨p, hp, he⟩
  · intro h
    obtain ⟨p, hp, he⟩ := h
    exact ⟨p, hp, List.mem_toFinset.mpr (List.mem_map_of_mem hp), he⟩

/-- An entity names the file it was found in. -/
theorem file_of_mem_fileEntities {p : SystemPath} {e : Entity}
    (h : e ∈ fileEntities answers p) : e.file = p.asStr :=
  file_of_mem_collectEntitiesForest h

/-- Extraction lists the entities file by file, in some order of the files. -/
theorem extractEntitiesFor_perm (files : Finset String) :
    (extractEntitiesFor crates answers files).Perm
      (((sourceFiles crates answers).filter fun p => p.asStr ∈ files).flatMap
        (fileEntities answers)) :=
  (List.perm_insertionSort _ _).flatMap_right _

/-- Distinct paths stay distinct in a part of the files. -/
theorem nodup_extractEntitiesFor (files : Finset String)
    (hd : ((extractEntities crates answers).map Entity.qualifiedPath).Nodup) :
    ((extractEntitiesFor crates answers files).map Entity.qualifiedPath).Nodup := by
  have hall : (((sourceFiles crates answers).flatMap (fileEntities answers)).map
      Entity.qualifiedPath).Nodup := by
    have hperm := @extractEntitiesFor_perm crates answers
      ((sourceFiles crates answers).map SystemPath.asStr).toFinset
    have hfilter : ((sourceFiles crates answers).filter fun p =>
        p.asStr ∈ ((sourceFiles crates answers).map SystemPath.asStr).toFinset) =
        sourceFiles crates answers := by
      rw [List.filter_eq_self]
      intro p hp
      exact decide_eq_true (List.mem_toFinset.mpr (List.mem_map_of_mem hp))
    rw [hfilter] at hperm
    exact (hperm.map _).nodup_iff.mp hd
  have hpart : ((((sourceFiles crates answers).filter fun p => p.asStr ∈ files).flatMap
      (fileEntities answers)).map Entity.qualifiedPath).Nodup :=
    hall.sublist ((List.filter_sublist.flatMap _).map _)
  exact ((extractEntitiesFor_perm files).map _).nodup_iff.mpr hpart

end Extraction

/-! ## When the scope is wide enough -/

/-- The paths of the events of a write, as far as they narrow the scope: a
synced configuration file and a rescan do not. -/
def eventPaths (head : HeadState) : Mutation → List SystemPath
  | .overlay _ events _ _ _ => events.filterMap ChangeEvent.systemPath
  | .syncPath abs => if isProjectConfigFile abs then [] else [abs]
  | .syncAll => []
  | .author _ _ _ => []
  | .poll events =>
    if events.any ChangeEvent.isRescan then []
    else (events.filter (isKept head.unsavedOverlays)).filterMap ChangeEvent.systemPath

/-- The Python files among the paths of the events. -/
def eventFiles (crates : Crates) (head : HeadState) (m : Mutation) : Finset String :=
  (((eventPaths head m).filter (isPySource crates.pyExtension)).map SystemPath.asStr).toFinset

/-- The scope of a plan is the set of Python files among its events, and
absent when there is none. -/
theorem buildPlan_scope {crates : Crates} {env : Env} {head : HeadState} {m : Mutation}
    {staged : StagedCommit} (h : (buildPlan crates env head m).1 = .ok (some staged))
    (hm : reconciles m = true) :
    staged.scope = if eventFiles crates head m = ∅ then none
      else some (eventFiles crates head m) := by
  cases m with
  | overlay changes events created changed unsaved =>
    cases h
    rfl
  | syncPath abs =>
    have hpath : (syncPathChange env head abs).2.1.systemPath = some abs := by
      unfold syncPathChange
      split
      · split <;> rfl
      · rfl
    cases h
    show (if isProjectConfigFile abs = true then none
      else identityScopeFromEvents crates.pyExtension [(syncPathChange env head abs).2.1]) = _
    unfold eventFiles
    by_cases hc : isProjectConfigFile abs = true
    · have hpaths : eventPaths head (.syncPath abs) = [] := if_pos hc
      rw [if_pos hc, hpaths]
      rfl
    · have hpaths : eventPaths head (.syncPath abs) = [abs] := if_neg hc
      rw [if_neg hc, hpaths]
      unfold identityScopeFromEvents
      rw [List.filterMap_cons_some hpath]
      rfl
  | syncAll =>
    cases h
    rfl
  | author layer id value => cases hm
  | poll events =>
    rw [buildPlan_poll] at h
    unfold eventFiles
    cases hrescan : events.any ChangeEvent.isRescan with
    | true =>
      have hpaths : eventPaths head (.poll events) = [] := if_pos hrescan
      rw [buildPollPlan_rescan hrescan] at h
      cases h
      rw [hpaths]
      rfl
    | false =>
      have hpaths : eventPaths head (.poll events) =
          (events.filter (isKept head.unsavedOverlays)).filterMap ChangeEvent.systemPath :=
        if_neg (by rw [hrescan]; decide)
      by_cases hkept : events.filter (isKept head.unsavedOverlays) = []
      · rw [buildPollPlan_idle hrescan hkept] at h
        cases h
      · obtain ⟨staged', head₁, hplan, -, hscope, -⟩ :=
          @buildPollPlan_kept crates env head events hrescan hkept
        rw [hplan] at h
        cases h
        rw [hpaths]
        exact hscope

/-- The files outside the scope have the entities they had: what they hold
now is live already, and what is live there is still held by some file. -/
structure ScopeSuffices (crates : Crates) (answers : Answers) (r : IdentityRegistry)
    (files : Finset String) : Prop where
  /-- No entity appeared outside the scope. -/
  appeared : ∀ p ∈ sourceFiles crates answers, p.asStr ∉ files → ∀ e ∈ fileEntities answers p,
    ∃ id a, liveAnchor r id = some a ∧
      Untouched r (some files) (extractEntitiesFor crates answers files) id a ∧
      anchorPair a = entityPair e
  /-- No entity vanished outside the scope. -/
  vanished : ∀ id a, liveAnchor r id = some a →
    Untouched r (some files) (extractEntitiesFor crates answers files) id a →
    anchorPair a ∈ entityPairs (extractEntities crates answers)

/-- Entities of the scope and untouched anchors make up the whole project
exactly when the scope suffices. -/
theorem scopeSuffices_iff {crates : Crates} {answers : Answers} {r : IdentityRegistry}
    {files : Finset String}
    (hd : ((extractEntities crates answers).map Entity.qualifiedPath).Nodup) :
    (∀ x, (x ∈ entityPairs (extractEntitiesFor crates answers files) ∨
        ∃ id a, liveAnchor r id = some a ∧
          Untouched r (some files) (extractEntitiesFor crates answers files) id a ∧
          anchorPair a = x) ↔ x ∈ entityPairs (extractEntities crates answers)) ↔
      ScopeSuffices crates answers r files := by
  have hpart : ∀ x, x ∈ entityPairs (extractEntitiesFor crates answers files) →
      x ∈ entityPairs (extractEntities crates answers) := by
    intro x hx
    obtain ⟨e, he, hpair⟩ := mem_entityPairs.mp hx
    obtain ⟨p, hp, -, hep⟩ := mem_extractEntitiesFor.mp he
    exact mem_entityPairs.mpr ⟨e, mem_extractEntities.mpr ⟨p, hp, hep⟩, hpair⟩
  constructor
  · intro hall
    refine ⟨?_, ?_⟩
    · intro p hp hfile e he
      have hmem : e ∈ extractEntities crates answers := mem_extractEntities.mpr ⟨p, hp, he⟩
      rcases (hall (entityPair e)).mpr (mem_entityPairs.mpr ⟨e, hmem, rfl⟩) with hscoped | hrest
      · -- a scoped entity of the same path is the entity itself
        obtain ⟨e', he', hpair⟩ := mem_entityPairs.mp hscoped
        obtain ⟨q, hq, hqfile, heq⟩ := mem_extractEntitiesFor.mp he'
        have hmem' : e' ∈ extractEntities crates answers := mem_extractEntities.mpr ⟨q, hq, heq⟩
        have hsame : e' = e := eq_of_path_eq hd hmem' hmem (congrArg Prod.fst hpair)
        have hqp : q.asStr = p.asStr := by
          rw [← file_of_mem_fileEntities heq, ← file_of_mem_fileEntities he, hsame]
        exact absurd (hqp ▸ hqfile) hfile
      · exact hrest
    · intro id a hlive hfree
      exact (hall (anchorPair a)).mp (Or.inr ⟨id, a, hlive, hfree, rfl⟩)
  · intro hsuff x
    constructor
    · intro hx
      rcases hx with hscoped | ⟨id, a, hlive, hfree, hpair⟩
      · exact hpart x hscoped
      · rw [← hpair]
        exact hsuff.vanished id a hlive hfree
    · intro hx
      obtain ⟨e, he, hpair⟩ := mem_entityPairs.mp hx
      obtain ⟨p, hp, hep⟩ := mem_extractEntities.mp he
      by_cases hfile : p.asStr ∈ files
      · exact Or.inl (mem_entityPairs.mpr ⟨e, mem_extractEntitiesFor.mpr ⟨p, hp, hfile, hep⟩, hpair⟩)
      · right
        rw [← hpair]
        exact hsuff.appeared p hp hfile e hep

/-- After a reconciling commit the live anchors are exactly the entities of
the new file list if and only if no path of its events is a Python file or
the files outside of these paths have the entities they had. -/
theorem commit_identity_exact_iff {crates : Crates} {env : Env} {head head' : HeadState}
    {m : Mutation} {dto : CommitDelta} (hs : head.registry.Sound)
    (hf : Fresh env.mint head.registry) (hm : reconciles m = true)
    (h : commit crates env head m = (.ok (some dto), head'))
    (hd : ((extractEntities crates (env.engine.answers head'.overlay)).map
      Entity.qualifiedPath).Nodup) :
    livePairs head'.registry =
        entityPairs (extractEntities crates (env.engine.answers head'.overlay)) ↔
      (eventFiles crates head m ≠ ∅ →
        ScopeSuffices crates (env.engine.answers head'.overlay) head.registry
          (eventFiles crates head m)) := by
  obtain ⟨staged, hplan, hoverlay, hreg⟩ := commit_registry hm h
  have hscope := buildPlan_scope hplan hm
  rw [hoverlay] at hd ⊢
  rw [hreg, hscope]
  by_cases hempty : eventFiles crates head m = ∅
  · -- everything was reconciled
    rw [if_pos hempty]
    refine iff_of_true ?_ (fun hne => absurd hempty hne)
    obtain ⟨plan, ho⟩ := reconcileImpl_outcome hs.linked hf env.iter hd head.store.nextRevision none
    ext x
    have hx := mem_livePairs_outcome hs hf ho (x := x)
    show x ∈ livePairs (reconcileImpl env.iter env.mint head.registry
      (extractEntities crates (env.engine.answers staged.stagedGen))
      head.store.nextRevision none).2 ↔ _
    rw [hx]
    constructor
    · intro hor
      rcases hor with hent | ⟨id, a, -, ⟨hout, -⟩, -⟩
      · exact hent
      · cases hout
    · intro hent
      exact Or.inl hent
  · rw [if_neg hempty]
    have hd' := nodup_extractEntitiesFor (eventFiles crates head m) hd
    obtain ⟨plan, ho⟩ := reconcileImpl_outcome hs.linked hf env.iter hd' head.store.nextRevision
      (some (eventFiles crates head m))
    have hx := fun x => mem_livePairs_outcome hs hf ho (x := x)
    show livePairs (reconcileImpl env.iter env.mint head.registry
      (extractEntitiesFor crates (env.engine.answers staged.stagedGen) (eventFiles crates head m))
      head.store.nextRevision (some (eventFiles crates head m))).2 = _ ↔ _
    rw [Finset.ext_iff]
    simp only [hx]
    rw [scopeSuffices_iff hd]
    exact ⟨fun hsuff _ => hsuff, fun himp => himp hempty⟩

/-- The registry of an opened project of listed files is sound. -/
theorem sound_listedHead (paths : List SystemPath) (disk : Disk) (root : SystemPath) :
    (listedHead paths disk root).registry.Sound := by
  have hopen : openHead (listedCrates paths) (listedEnv paths disk) (freshOpening root) =
      .ok (listedHead paths disk root) := rfl
  rw [registry_openHead hopen]
  exact reconcileImpl_sound IdentityRegistry.Sound.empty _ _ _ _ _

/-- A changed event at the only module that changed suffices. -/
theorem commit_identity_exact_edited_file :
    let b : SystemPath := ⟨["p", "b.py"]⟩
    let env := { listedEnv twoPaths (twoModules.insert b (.file "x = 333")) with mint := longIds 2 }
    let result := commit (listedCrates twoPaths) env twoHead (.poll [.changed b .fileContent])
    ScopeSuffices (listedCrates twoPaths) (env.engine.answers result.2.overlay) twoHead.registry
      (eventFiles (listedCrates twoPaths) twoHead (.poll [.changed b .fileContent])) := by
  intro b env result
  have hs : twoHead.registry.Sound := sound_listedHead _ _ _
  have hf : Fresh env.mint twoHead.registry := longIds_fresh (by decide +kernel)
  obtain ⟨dto, hcommit⟩ : ∃ dto, result = (.ok (some dto), result.2) := ⟨_, rfl⟩
  have hd : ((extractEntities (listedCrates twoPaths) (env.engine.answers result.2.overlay)).map
      Entity.qualifiedPath).Nodup := by decide +kernel
  exact (commit_identity_exact_iff hs hf rfl hcommit hd).mp (by decide +kernel) (by decide +kernel)

/-- A directory is deleted and a module elsewhere edited in one batch: the
anchor of the module in the directory stays live. -/
theorem commit_identity_not_exact_deleted_directory :
    let a : SystemPath := ⟨["p", "a.py"]⟩
    let m : SystemPath := ⟨["p", "pkg", "m.py"]⟩
    let dir : SystemPath := ⟨["p", "pkg"]⟩
    let disk := ((∅ : Disk).insert a (.file "x = 1")).insert m (.file "x = 22")
    let crates := listedCrates [a, m]
    let head := listedHead [a, m] disk ⟨["p"]⟩
    -- the engine lists both modules before the commit and one after it
    let before := (listedEngine [a, m]).answers head.overlay
    let env := { listedEnv [a] ((∅ : Disk).insert a (.file "x = 333")) with mint := longIds 2 }
    let events := [ChangeEvent.deleted dir .directory, ChangeEvent.changed a .fileContent]
    let result := commit crates env head (.poll events)
    let after := env.engine.answers result.2.overlay
    livePairs head.registry = entityPairs (extractEntities crates before) ∧
      sourceFiles crates before = [a, m] ∧ sourceFiles crates after = [a] ∧
      m.isUnder dir = true ∧ (∃ dto, result = (.ok (some dto), result.2)) ∧
      ((extractEntities crates after).map Entity.qualifiedPath).Nodup ∧
      livePairs result.2.registry ≠ entityPairs (extractEntities crates after) := by
  intro a m dir disk crates head before env events result after
  have hexact : livePairs head.registry = entityPairs (extractEntities crates before) := by
    decide +kernel
  have hsources : sourceFiles crates before = [a, m] ∧ sourceFiles crates after = [a] ∧
      m.isUnder dir = true := by decide +kernel
  have hcommit : ∃ dto, result = (.ok (some dto), result.2) := ⟨_, rfl⟩
  have hnodup : ((extractEntities crates after).map Entity.qualifiedPath).Nodup := by
    decide +kernel
  have hstale : livePairs result.2.registry ≠ entityPairs (extractEntities crates after) := by
    decide +kernel
  exact ⟨hexact, hsources.1, hsources.2.1, hsources.2.2, hcommit, hnodup, hstale⟩

end Tyo3.IdentityScope
