import Tyo3.IdentityScope
import Tyo3.KeyedChanges
import Tyo3.SessionRegistries

/-!
# Exact identity

The live anchors of a registry are a ledger of ids with their paths and
hashes, and the entities of a content are a table of hashes by path. Opening
and every commit that reconciles the whole project leave a registry whose
ledger accounts for the table.
-/

namespace Tyo3.ExactIdentity

open CommitAtomicity CommitFunnel CommitPlan Entities FiniteMaps IdentityAnchors
  IdentityMatching IdentityPostState IdentityReconciliation IdentityScope KeyedChanges
  ProjectSessions SessionRegistries SystemPaths

/-- Path and hash of the live anchor of an id. -/
def live (r : IdentityRegistry) (id : DurableId) : Option (String × ContentHash) :=
  (liveAnchor r id).map anchorPair

/-- The hash of the entity at a path. -/
def hashAt (entities : List Entity) (path : String) : Option ContentHash :=
  (entities.find? fun e => e.qualifiedPath = path).map Entity.contentHash

/-- Among distinct paths the entity at a path is found. -/
theorem hashAt_eq_some {entities : List Entity}
    (hd : (entities.map Entity.qualifiedPath).Nodup) {path : String} {hash : ContentHash} :
    hashAt entities path = some hash ↔
      ∃ e ∈ entities, e.qualifiedPath = path ∧ e.contentHash = hash := by
  unfold hashAt
  rw [Option.map_eq_some_iff]
  constructor
  · rintro ⟨e, hfound, hhash⟩
    have hpath := List.find?_some hfound
    exact ⟨e, List.mem_of_find?_eq_some hfound, of_decide_eq_true hpath, hhash⟩
  · rintro ⟨e, he, hpath, hhash⟩
    exact ⟨e, find?_eq_some_of_nodup hd he hpath, hhash⟩

section Exact

variable {mint : ℕ → DurableId} {r : IdentityRegistry} {entities : List Entity}
  {revision : Revision} {out : Reconciliation × IdentityRegistry}
  {plan : List Bound}

theorem live_eq_some {id : DurableId} {path : String} {hash : ContentHash} :
    live r id = some (path, hash) ↔ ∃ a, r.get id = some a ∧ a.status ≠ .orphaned ∧
      a.qualifiedPath = path ∧ a.contentHash = hash := by
  unfold live
  rw [Option.map_eq_some_iff]
  constructor
  · rintro ⟨a, ha, hpair⟩
    obtain ⟨hget, hstatus⟩ := liveAnchor_eq_some.mp ha
    exact ⟨a, hget, hstatus, congrArg Prod.fst hpair, congrArg Prod.snd hpair⟩
  · rintro ⟨a, hget, hstatus, hpath, hhash⟩
    exact ⟨a, liveAnchor_eq_some.mpr ⟨hget, hstatus⟩, Prod.ext hpath hhash⟩

/-- After a reconciliation of everything a live anchor is one of the
entities. -/
theorem entry_of_live (ho : Outcome mint r entities revision none out plan)
    {id : DurableId} {path : String} {hash : ContentHash}
    (h : live out.2 id = some (path, hash)) :
    ∃ x ∈ plan, x.id = id ∧ x.entity.qualifiedPath = path ∧ x.entity.contentHash = hash := by
  obtain ⟨a, hget, hstatus, hpath, hhash⟩ := live_eq_some.mp h
  by_cases hclaimed : id ∈ claimed plan
  · obtain ⟨x, hx, hid⟩ := mem_claimed.mp hclaimed
    obtain ⟨b, hb, hbpath, hbhash, -⟩ := ho.get_bound_live hx
    rw [hid, hget] at hb
    cases hb
    exact ⟨x, hx, hid, hbpath.symm.trans hpath, hbhash.symm.trans hhash⟩
  · -- nobody claimed it, so it was retired or was an orphan before
    exfalso
    have hother := ho.get_other id hclaimed
    rw [hget] at hother
    split at hother
    · obtain ⟨b, -, hb⟩ := Option.map_eq_some_iff.mp hother.symm
      rw [← hb] at hstatus
      exact hstatus rfl
    · rename_i hkept
      exact hkept (vanished_iff.mpr ⟨hclaimed, rfl, a, hother.symm, hstatus⟩)

/-- A reconciliation of everything leaves an exact registry. -/
theorem accounts_of_outcome (hd : (entities.map Entity.qualifiedPath).Nodup)
    (ho : Outcome mint r entities revision none out plan) :
    Accounts (live out.2) (hashAt entities) where
  entry id path hash h := by
    obtain ⟨x, hx, -, hpath, hhash⟩ := entry_of_live ho h
    exact (hashAt_eq_some hd).mpr
      ⟨x.entity, (mem_entities_of_plan ho).mpr ⟨x, hx, rfl⟩, hpath, hhash⟩
  owner path hash h := by
    obtain ⟨e, he, hpath, hhash⟩ := (hashAt_eq_some hd).mp h
    obtain ⟨x, hx, hentity⟩ := (mem_entities_of_plan ho).mp he
    obtain ⟨a, hget, hapath, hahash, hstatus⟩ := ho.get_bound_live hx
    rw [hentity] at hapath hahash
    exact ⟨x.id, live_eq_some.mpr
      ⟨a, hget, hstatus, hapath.trans hpath, hahash.trans hhash⟩⟩
  single i j path hash hash' hi hj := by
    obtain ⟨x, hx, hxid, hxpath, -⟩ := entry_of_live ho hi
    obtain ⟨y, hy, hyid, hypath, -⟩ := entry_of_live ho hj
    have hnodup : (plan.map fun x => x.entity.qualifiedPath).Nodup :=
      List.pairwise_map.mpr (ho.sorted.imp fun hlt => ne_of_lt hlt)
    have hsame : x = y := List.inj_on_of_nodup_map hnodup hx hy (hxpath.trans hypath.symm)
    rw [← hxid, ← hyid, hsame]

end Exact

/-- Identity is exact at a head: the live anchors are the entities of its
content, one for each path. -/
def ExactAt (crates : Crates) (engine : Engine) (head : HeadState) : Prop :=
  Accounts (live head.registry)
    (hashAt (extractEntities crates (engine.answers head.store.generation)))

/-- Identity is exact after opening. -/
theorem exactAt_openHead {crates : Crates} {env : Env} {o : Opening} {head : HeadState}
    (h : openHead crates env o = .ok head) (hl : o.registry.Linked)
    (hf : Fresh env.mint o.registry)
    (hd : ((extractEntities crates (env.engine.answers head.store.generation)).map
      Entity.qualifiedPath).Nodup) : ExactAt crates env.engine head := by
  obtain ⟨plan, ho⟩ := reconcileImpl_outcome hl hf env.iter hd head.store.revision none
  unfold ExactAt
  rw [registry_openHead h]
  exact accounts_of_outcome hd ho

/-- Identity is exact after the first opening of a project. -/
theorem exactAt_firstOpening {crates : Crates} {root : SystemPath} {req : OpenRequest}
    {head : HeadState} (h : runSessions crates root [.open_ req] = .opened head)
    (hf : Fresh req.env.mint IdentityRegistry.empty)
    (hd : ((extractEntities crates (req.env.engine.answers head.store.generation)).map
      Entity.qualifiedPath).Nodup) : ExactAt crates req.env.engine head := by
  have hstep : takeStep crates root (.closed ∅) (.open_ req) = .opened head := h
  unfold takeStep at hstep
  dsimp only at hstep
  split at hstep
  · rename_i head' files hopen
    cases hstep
    unfold openProject at hopen
    rw [Finmap.lookup_empty] at hopen
    have hload : loadRegistry crates.codec none = .ok IdentityRegistry.empty := rfl
    rw [hload] at hopen
    dsimp only at hopen
    split at hopen
    · cases hopen
    · rename_i head₀ hhead
      split at hopen
      · cases hopen
      · cases hopen
        have hexact := exactAt_openHead hhead IdentityRegistry.Sound.empty.linked hf hd
        exact hexact
  · cases hstep

/-- Identity is exact after a commit without a scope. -/
theorem exactAt_commit {crates : Crates} {env : Env} {head : HeadState} {m : Mutation}
    (hs : InStep head) (hl : head.registry.Linked)
    (hf : Fresh env.mint head.registry) (hm : reconciles m = true)
    (hscope : eventFiles crates head m = ∅) {dto : CommitDelta}
    (h : (commit crates env head m).1 = .ok (some dto))
    (hd : ((extractEntities crates
      (env.engine.answers (commit crates env head m).2.store.generation)).map
      Entity.qualifiedPath).Nodup) : ExactAt crates env.engine (commit crates env head m).2 := by
  have hpair : commit crates env head m = (.ok (some dto), (commit crates env head m).2) :=
    Prod.ext h rfl
  have hstep : InStep (commit crates env head m).2 := hs.commit crates env m
  obtain ⟨staged, hplan, hoverlay, hregistry⟩ := commit_registry hm hpair
  rw [buildPlan_scope hplan hm, if_pos hscope, ← hoverlay, hstep] at hregistry
  obtain ⟨plan, ho⟩ := reconcileImpl_outcome hl hf env.iter hd
    head.store.nextRevision none
  unfold ExactAt
  rw [hregistry]
  exact accounts_of_outcome hd ho

end Tyo3.ExactIdentity
