import Tyo3.DeltaClasses

/-!
# Reconciling the same entities twice

A second reconciliation of an unchanged project should find every entity
under its path and report nothing. It does so exactly when no two entities
share a path and the path index that the first one left has an entry for
each of them. A repeated path is found once only, and an orphan bound next
to a live entity may have taken the entry of that entity with it.
-/

namespace Tyo3.RepeatedReconciliation

open CommitFunnel DeltaClasses Entities FiniteMaps IdentityAnchors IdentityMatching
  IdentityPostState IdentityReconciliation IdentityRuns InheritedIds ReconciledAnchors

/-- An anchor before and after differ at most in the revision and in a
review mark that is cleared. -/
structure Refreshed (a b : Anchor) : Prop where
  /-- Same id. -/
  id : b.id = a.id
  /-- Same path. -/
  qualifiedPath : b.qualifiedPath = a.qualifiedPath
  /-- Same hash. -/
  contentHash : b.contentHash = a.contentHash
  /-- Same kind. -/
  kind : b.kind = a.kind
  /-- Same first revision. -/
  firstSeenRev : b.firstSeenRev = a.firstSeenRev
  /-- Same status, unless a review mark was cleared. -/
  status : b.status = a.status ∨ a.status = .needsReview ∧ b.status = .active

/-- The call finds nothing to do on the registry. -/
structure Quiet (r : IdentityRegistry) (c : Call) : Prop where
  /-- Every binding is exact, to an anchor of the entity's hash. -/
  exact : ∀ cell ∈ (c.run r).1.bindings, ∃ id hash, cell.2 = .exact id hash ∧
    ∀ e ∈ c.entities, e.qualifiedPath = cell.1 → e.contentHash = hash
  /-- Nothing is reported. -/
  classes : classify (c.run r).1 c.entities = ⟨[], [], [], []⟩
  /-- Known anchors are refreshed. -/
  known : ∀ id a, r.get id = some a → ∃ b, (c.run r).2.get id = some b ∧ Refreshed a b
  /-- No anchor is added. -/
  unknown : ∀ id, r.get id = none → (c.run r).2.get id = none

/-- The path index has an entry for the path of every entity. -/
def PathsFound (r : IdentityRegistry) (c : Call) : Prop :=
  ∀ e ∈ c.entities, r.byPath.lookup e.qualifiedPath ≠ none

instance (r : IdentityRegistry) (c : Call) : Decidable (PathsFound r c) :=
  inferInstanceAs (Decidable (∀ e ∈ c.entities, _))

/-- A call that makes exact bindings only has entities of pairwise different
paths, all of them in the path index. -/
theorem found_of_exact {r : IdentityRegistry} (hl : r.Linked) {c : Call} (hf : Fresh c.mint r)
    (hexact : ∀ cell ∈ (c.run r).1.bindings, ∃ id hash, cell.2 = .exact id hash) :
    DistinctPaths r c ∧ PathsFound r c := by
  obtain ⟨exact, rest, ht, -, -, hall, -⟩ :=
    matchEntities_tracks c.iter hl hf c.scope (sortEntities c.entities)
  generalize exact ++ rest = log at ht hall
  have hbindings : (c.run r).1.bindings =
      log.map fun x => (x.entity.qualifiedPath, x.binding) := ht.bindings
  have hentry : ∀ x ∈ log, r.byPath.lookup x.entity.qualifiedPath = some x.id := by
    intro x hx
    have hmem : (x.entity.qualifiedPath, x.binding) ∈ (c.run r).1.bindings := by
      rw [hbindings]
      exact List.mem_map_of_mem hx
    obtain ⟨id, hash, hb⟩ := hexact _ hmem
    have hb' : x.binding = .exact id hash := hb
    have hj := ht.justified x hx
    rw [hb'] at hj
    have hid : x.id = id := congrArg Binding.id hb'
    rw [hid]
    exact hj.1
  have hfound : ∀ i e, (sortEntities c.entities)[i]? = some e →
      ∃ x ∈ log, x.idx = i ∧ x.entity = e := by
    intro i e hi
    obtain ⟨x, hx, rfl⟩ := hall i e hi
    have hpos := ht.position x hx
    rw [hi] at hpos
    exact ⟨x, hx, rfl, (Option.some_inj.mp hpos).symm⟩
  have hperm := sortEntities_perm c.entities
  constructor
  · unfold DistinctPaths
    rw [← (hperm.map Entity.qualifiedPath).nodup_iff, List.nodup_iff_getElem?_ne_getElem?]
    intro i j hij hj heq
    -- two entries at one path carry one id, and no id is bound twice
    rw [List.length_map] at hj
    have hgi : (sortEntities c.entities)[i]? = some (sortEntities c.entities)[i] :=
      List.getElem?_eq_getElem (by omega)
    have hgj : (sortEntities c.entities)[j]? = some (sortEntities c.entities)[j] :=
      List.getElem?_eq_getElem hj
    obtain ⟨x, hx, hxi, hxe⟩ := hfound i _ hgi
    obtain ⟨y, hy, hyj, hye⟩ := hfound j _ hgj
    rw [List.getElem?_map, List.getElem?_map, hgi, hgj, Option.map_some, Option.map_some,
      Option.some_inj, ← hxe, ← hye] at heq
    have hids : some x.id = some y.id := by rw [← hentry x hx, ← hentry y hy, heq]
    have hxy : x = y := List.inj_on_of_nodup_map ht.distinct hx hy (Option.some_inj.mp hids)
    rw [hxy] at hxi
    omega
  · intro e he
    obtain ⟨i, hi⟩ := List.getElem?_of_mem (hperm.mem_iff.mpr he)
    obtain ⟨x, hx, -, rfl⟩ := hfound i e hi
    rw [hentry x hx]
    exact Option.some_ne_none _

section Second

variable {r : IdentityRegistry} {c c' : Call} {plan plan' : List Bound}

/-- In a second call whose paths are all found, the entry of an entity is
the one of the first call, and its anchor has the facts of the entity. -/
theorem second_entry (he : c'.entities = c.entities) (hfound : PathsFound (c.run r).2 c)
    (ho : Outcome c.mint r c.entities c.revision c.scope (c.run r) plan)
    (ho' : Outcome c'.mint (c.run r).2 c'.entities c'.revision c'.scope (c'.run (c.run r).2) plan')
    {y : Bound} (hy : y ∈ plan') :
    (∃ x ∈ plan, x.entity = y.entity ∧ x.id = y.id) ∧
    ∃ a, (c.run r).2.get y.id = some a ∧ a.qualifiedPath = y.entity.qualifiedPath ∧
      a.contentHash = y.entity.contentHash ∧ a.status ≠ .orphaned ∧
      y.binding = .exact y.id y.entity.contentHash ∧ y.review = false := by
  have hmem : y.entity ∈ c.entities := he ▸ mem_entities_of_mem_plan ho' hy
  obtain ⟨id, hid⟩ := Option.ne_none_iff_exists'.mp (hfound y.entity hmem)
  obtain ⟨x, hx, hxe⟩ := exists_entry ho hmem
  obtain ⟨hyid, hexact⟩ := ho'.indexed y hy id hid
  rw [← hxe] at hid
  have hxid : id = x.id := ((ho.byPath_taken x hx id).mp hid).1
  obtain ⟨a, ha, hpath, hhash, hlive⟩ := ho.get_bound_live hx
  rw [← hxid, ← hyid] at ha
  rw [hxe] at hpath hhash
  refine ⟨⟨x, hx, hxe, hxid.symm.trans hyid.symm⟩, a, ha, hpath, hhash, hlive, ?_⟩
  have hj := ho'.justified y hy
  cases hb : y.binding with
  | exact k oldHash =>
    rw [hb] at hj
    have hk : y.id = k := congrArg Binding.id hb
    obtain ⟨-, ⟨b, hget, hbh⟩, hreview⟩ := hj
    rw [← hk, ha] at hget
    cases hget
    have hold : oldHash = y.entity.contentHash := hbh.symm.trans hhash
    rw [hk, hold]
    refine ⟨rfl, ?_⟩
    rw [hreview, hold]
    exact decide_eq_false (not_not_intro rfl)
  | moved _ _ _ =>
    rw [hb] at hexact
    cases hexact
  | struct _ _ _ =>
    rw [hb] at hexact
    cases hexact
  | minted _ =>
    rw [hb] at hexact
    cases hexact

/-- Both calls bind the same ids. -/
theorem claimed_second (he : c'.entities = c.entities) (hfound : PathsFound (c.run r).2 c)
    (ho : Outcome c.mint r c.entities c.revision c.scope (c.run r) plan)
    (ho' : Outcome c'.mint (c.run r).2 c'.entities c'.revision c'.scope (c'.run (c.run r).2) plan')
    (id : DurableId) : id ∈ claimed plan' ↔ id ∈ claimed plan := by
  rw [mem_claimed, mem_claimed]
  constructor
  · rintro ⟨y, hy, rfl⟩
    obtain ⟨⟨x, hx, -, hxid⟩, -⟩ := second_entry he hfound ho ho' hy
    exact ⟨x, hx, hxid⟩
  · rintro ⟨x, hx, rfl⟩
    obtain ⟨y, hy, hye⟩ := exists_entry ho' (he ▸ mem_entities_of_mem_plan ho hx)
    obtain ⟨⟨z, hz, hze, hzid⟩, -⟩ := second_entry he hfound ho ho' hy
    have hpaths : (plan.map fun w => w.entity.qualifiedPath).Nodup := by
      rw [List.Nodup, List.pairwise_map]
      exact ho.sorted.imp fun h => h.ne
    have hzx : z = x := List.inj_on_of_nodup_map hpaths hz hx
      (congrArg Entity.qualifiedPath (hze.trans hye))
    exact ⟨y, hy, by rw [← hzid, hzx]⟩

/-- The first call left no live anchor in scope without an entity, so the
second one retires nothing. -/
theorem vanished_second (he : c'.entities = c.entities) (hscope : c'.scope = c.scope)
    (hfound : PathsFound (c.run r).2 c)
    (ho : Outcome c.mint r c.entities c.revision c.scope (c.run r) plan)
    (ho' : Outcome c'.mint (c.run r).2 c'.entities c'.revision c'.scope (c'.run (c.run r).2) plan')
    (id : DurableId) : ¬vanished c'.scope (claimed plan') (c.run r).2 id = true := by
  intro hv
  obtain ⟨hfree, hin, a, ha, hlive⟩ := vanished_iff.mp hv
  rw [claimed_second he hfound ho ho'] at hfree
  have hget := ho.get_other id hfree
  rw [ha] at hget
  split at hget
  · obtain ⟨b, -, hb⟩ := Option.map_eq_some_iff.mp hget.symm
    rw [← hb] at hlive
    exact hlive rfl
  · rename_i hstay
    refine hstay (vanished_iff.mpr ⟨hfree, ?_, a, hget.symm, hlive⟩)
    rw [anchorInScope_eq ha, hscope] at hin
    rw [anchorInScope_eq hget.symm, hin]

/-- A second call whose paths are all found is quiet. -/
theorem quiet_of_found (he : c'.entities = c.entities) (hscope : c'.scope = c.scope)
    (hd : DistinctPaths r c) (hfound : PathsFound (c.run r).2 c)
    (ho : Outcome c.mint r c.entities c.revision c.scope (c.run r) plan)
    (ho' : Outcome c'.mint (c.run r).2 c'.entities c'.revision c'.scope
      (c'.run (c.run r).2) plan') : Quiet (c.run r).2 c' := by
  have hcells : ∀ cell ∈ (c'.run (c.run r).2).1.bindings, ∃ y ∈ plan',
      cell = (y.entity.qualifiedPath, .exact y.id y.entity.contentHash) := by
    intro cell hcell
    obtain ⟨y, hy, rfl⟩ := List.mem_map.mp (ho'.bindings.subset hcell)
    obtain ⟨-, a, -, -, -, -, hb, -⟩ := second_entry he hfound ho ho' hy
    exact ⟨y, hy, by rw [← hb]⟩
  have hd' : (c'.entities.map Entity.qualifiedPath).Nodup := he ▸ hd
  refine ⟨?_, ?_, ?_, ?_⟩
  · intro cell hcell
    obtain ⟨y, hy, rfl⟩ := hcells cell hcell
    refine ⟨y.id, y.entity.contentHash, rfl, ?_⟩
    intro e hmem hpath
    have hey : e = y.entity :=
      List.inj_on_of_nodup_map hd' hmem (mem_entities_of_mem_plan ho' hy) hpath
    rw [hey]
  · have hret : (c'.run (c.run r).2).1.retired = [] := by
      apply List.eq_nil_iff_forall_not_mem.mpr
      intro id hid
      exact vanished_second he hscope hfound ho ho' id ((ho'.retired id).mp hid)
    have hnone : ∀ {β : Type} (f : String × Binding → Option β),
        (∀ y ∈ plan', f (y.entity.qualifiedPath, .exact y.id y.entity.contentHash) = none) →
        (c'.run (c.run r).2).1.bindings.filterMap f = [] := by
      intro β f hf
      apply List.filterMap_eq_nil_iff.mpr
      intro cell hcell
      obtain ⟨y, hy, rfl⟩ := hcells cell hcell
      exact hf y hy
    rw [classify_eq, hret, hnone createdOf fun _ _ => rfl, hnone (movedOf _) fun _ _ => rfl,
      hnone (changedOf _)]
    intro y hy
    unfold changedOf
    rw [lookup_entitiesByPath hd' (mem_entities_of_mem_plan ho' hy)]
    exact if_neg (not_not_intro rfl)
  · intro id a ha
    by_cases hid : id ∈ claimed plan'
    · obtain ⟨y, hy, rfl⟩ := mem_claimed.mp hid
      obtain ⟨-, b, hb, hpath, hhash, hlive, hbind, hreview⟩ := second_entry he hfound ho ho' hy
      rw [ha] at hb
      cases hb
      have hget := ho'.get_bound y hy
      unfold boundAnchor at hget
      rw [hbind, ha, hreview] at hget
      refine ⟨_, hget, rfl, hpath.symm, hhash.symm, rfl, rfl, ?_⟩
      cases hstatus : a.status with
      | active => exact Or.inl rfl
      | needsReview => exact Or.inr ⟨rfl, rfl⟩
      | orphaned => exact (hlive hstatus).elim
    · refine ⟨a, ?_, rfl, rfl, rfl, rfl, rfl, Or.inl rfl⟩
      rw [ho'.get_other id hid, if_neg (vanished_second he hscope hfound ho ho' id), ha]
  · intro id hnone
    have hid : id ∉ claimed plan' := by
      intro hid
      obtain ⟨y, hy, rfl⟩ := mem_claimed.mp hid
      obtain ⟨-, a, ha, -⟩ := second_entry he hfound ho ho' hy
      rw [hnone] at ha
      cases ha
    rw [ho'.get_other id hid, if_neg (vanished_second he hscope hfound ho ho' id), hnone]

end Second

/-- After a call on an indexed registry that keeps paths, the path of every
entity is found. -/
theorem pathsFound_of_keepsPaths {r : IdentityRegistry} (hs : r.Sound) (hi : Indexed r) {c : Call}
    (hf : Fresh c.mint r) (hd : DistinctPaths r c) (hk : KeepsPaths r c) :
    PathsFound (c.run r).2 c := by
  obtain ⟨plan, ho⟩ := reconcileImpl_outcome hs.linked hf c.iter hd c.revision c.scope
  change Outcome c.mint r c.entities c.revision c.scope (c.run r) plan at ho
  intro e he
  obtain ⟨x, hx, rfl⟩ := exists_entry ho he
  obtain ⟨a, ha, hpath, -, hlive⟩ := ho.get_bound_live hx
  have hindexed := (hi.step hs hf hd hk).live_path x.id a ha hlive
  rw [hpath] at hindexed
  rw [hindexed]
  exact Option.some_ne_none _

/-- No entity inherits by hash an id whose anchor stands at the path of an
entity before it. -/
def NoPathTaken (r : IdentityRegistry) (c : Call) : Prop :=
  ∀ e ∈ c.entities, ∀ y ∈ c.entities, e.qualifiedPath < y.qualifiedPath →
    ∀ id, heir r c.scope c.entities y = some id → ∀ a, r.get id = some a →
      a.qualifiedPath ≠ e.qualifiedPath

/-- An heir that takes the path of an entity before it leaves that entity
without an entry in the index. -/
theorem noPathTaken_of_pathsFound {r : IdentityRegistry} (hl : r.Linked) {c : Call}
    (hf : Fresh c.mint r) (hd : DistinctPaths r c) (hfound : PathsFound (c.run r).2 c) :
    NoPathTaken r c := by
  obtain ⟨plan, ho⟩ := reconcileImpl_outcome hl hf c.iter hd c.revision c.scope
  change Outcome c.mint r c.entities c.revision c.scope (c.run r) plan at ho
  intro e he y hy hlt id hheir a ha hpath
  obtain ⟨x, hx, rfl⟩ := exists_entry ho he
  obtain ⟨z, hz, rfl⟩ := exists_entry ho hy
  obtain ⟨hid, hm⟩ := entry_of_found hl hf hd ho hz (Or.inr hheir)
  obtain ⟨k, hk⟩ := Option.ne_none_iff_exists'.mp (hfound x.entity he)
  refine ((ho.byPath_taken x hx k).mp hk).2.2 ⟨z, hz, hlt, ?_⟩
  unfold givenUp
  rw [hm, if_neg Bool.false_ne_true, hid, ha, Option.map_some, hpath]

/-- A second reconciliation of the same entities is quiet exactly when no two
of them share a path and the first one left their paths in the index. It
left them there when the registry was indexed and the call keeps paths, and
only if no heir took the path of an entity before it. -/
theorem second_reconcile_quiet_iff {r : IdentityRegistry} (hr : ReachableBy (fun _ _ => True) r)
    (c c' : Call) (he : c'.entities = c.entities) (hscope : c'.scope = c.scope)
    (hf : Fresh c.mint r) (hf' : Fresh c'.mint (c.run r).2) :
    (Quiet (c.run r).2 c' ↔ DistinctPaths r c ∧ PathsFound (c.run r).2 c) ∧
      (Indexed r → DistinctPaths r c → KeepsPaths r c → Quiet (c.run r).2 c') ∧
      (Quiet (c.run r).2 c' → DistinctPaths r c ∧ NoPathTaken r c) := by
  have hs := hr.sound
  have hs' := reconcileImpl_sound hs c.iter c.mint c.entities c.revision c.scope
  have hback : DistinctPaths r c → PathsFound (c.run r).2 c → Quiet (c.run r).2 c' := by
    intro hd hfound
    have hd' : (c'.entities.map Entity.qualifiedPath).Nodup := he ▸ hd
    obtain ⟨plan, ho⟩ := reconcileImpl_outcome hs.linked hf c.iter hd c.revision c.scope
    obtain ⟨plan', ho'⟩ :=
      reconcileImpl_outcome hs'.linked hf' c'.iter hd' c'.revision c'.scope
    exact quiet_of_found he hscope hd hfound ho ho'
  have hforth : Quiet (c.run r).2 c' → DistinctPaths r c ∧ PathsFound (c.run r).2 c := by
    intro hq
    have hexact : ∀ cell ∈ (c'.run (c.run r).2).1.bindings,
        ∃ id hash, cell.2 = .exact id hash := by
      intro cell hcell
      obtain ⟨id, hash, hb, -⟩ := hq.exact cell hcell
      exact ⟨id, hash, hb⟩
    obtain ⟨hd, hfound⟩ := found_of_exact hs'.linked hf' hexact
    unfold DistinctPaths at hd
    unfold PathsFound at hfound
    rw [he] at hd hfound
    exact ⟨hd, hfound⟩
  refine ⟨⟨hforth, fun h => hback h.1 h.2⟩, ?_, ?_⟩
  · intro hi hd hk
    exact hback hd (pathsFound_of_keepsPaths hs hi hf hd hk)
  · intro hq
    obtain ⟨hd, hfound⟩ := hforth hq
    exact ⟨hd, noPathTaken_of_pathsFound hs.linked hf hd hfound⟩

/-- Two functions of one file, reconciled twice. -/
theorem second_reconcile_quiet_two_functions :
    Quiet ((wholeCall 0 1 [topFunction "a.py" "f" 1, topFunction "a.py" "g" 2]).run
        IdentityRegistry.empty).2
      (wholeCall 2 2 [topFunction "a.py" "f" 1, topFunction "a.py" "g" 2]) :=
  (second_reconcile_quiet_iff ReachableBy.start
    (wholeCall 0 1 [topFunction "a.py" "f" 1, topFunction "a.py" "g" 2])
    (wholeCall 2 2 [topFunction "a.py" "f" 1, topFunction "a.py" "g" 2]) rfl rfl
    (longIds_fresh (by decide +kernel)) (longIds_fresh (by decide +kernel))).1.mpr
      ⟨by decide +kernel, by decide +kernel⟩

/-- The entities of a file that defines a function twice. -/
def definedTwice : List Entity :=
  collectEntitiesForest (fun range => if range.start = 0 then 1 else 2) "a.py" none none
    [.node ⟨"f", .function, ⟨0, 20⟩, ⟨4, 5⟩⟩ [], .node ⟨"f", .function, ⟨22, 42⟩, ⟨26, 27⟩⟩ []]

/-- A file that defines a function twice is reconciled twice: the second
time the earlier definition takes the id of the later one, and an id is
minted although nothing changed. -/
theorem redefinition_over_fires :
    ReachableBy (fun _ _ => True) IdentityRegistry.empty ∧
    Fresh (longIds 0) IdentityRegistry.empty ∧
    Fresh (longIds 2) ((wholeCall 0 1 definedTwice).run IdentityRegistry.empty).2 ∧
    ((wholeCall 2 2 definedTwice).run
      ((wholeCall 0 1 definedTwice).run IdentityRegistry.empty).2).1.bindings =
        [("a.py::f", .exact "AA" 2), ("a.py::f", .minted "AAA")] ∧
    (classify ((wholeCall 2 2 definedTwice).run
      ((wholeCall 0 1 definedTwice).run IdentityRegistry.empty).2).1 definedTwice).created =
        ["AAA"] ∧
    ¬Quiet ((wholeCall 0 1 definedTwice).run IdentityRegistry.empty).2
      (wholeCall 2 2 definedTwice) := by
  have hcreated : (classify ((wholeCall 2 2 definedTwice).run
      ((wholeCall 0 1 definedTwice).run IdentityRegistry.empty).2).1 definedTwice).created =
        ["AAA"] := by decide +kernel
  refine ⟨ReachableBy.start, longIds_fresh (by decide +kernel), longIds_fresh (by decide +kernel),
    by decide +kernel, hcreated, ?_⟩
  intro hq
  have hnone := congrArg ReconcileClasses.created hq.classes
  have hsame : (wholeCall 2 2 definedTwice).entities = definedTwice := rfl
  rw [hsame, hcreated] at hnone
  cases hnone

end Tyo3.RepeatedReconciliation
