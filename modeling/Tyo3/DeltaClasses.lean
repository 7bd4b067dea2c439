import Tyo3.CommitFunnel
import Tyo3.ReconciledAnchors

/-!
# The classes of ids a reconciliation reports

Every id of the delta stands in one class. Created ids are new to the
registry, deleted ids went to orphaned, changed ids were bound to an anchor
of another hash, and moved ids to an anchor of the same hash at another
path. The last one has an exception: an orphan that is revived under its own
old path is reported as moved although its path is the same.
-/

namespace Tyo3.DeltaClasses

open CommitFunnel Entities FiniteMaps IdentityAnchors IdentityMatching IdentityPostState
  IdentityReconciliation IdentityRuns InheritedIds ReconciledAnchors

/-- The table of entities by path. -/
def entitiesByPath (entities : List Entity) : FMap String Entity :=
  entities.foldl (fun m e => m.insert e.qualifiedPath e) ∅

/-- Entities of pairwise different paths are found under their path. -/
theorem lookup_entitiesByPath {entities : List Entity}
    (hd : (entities.map Entity.qualifiedPath).Nodup) {e : Entity} (he : e ∈ entities) :
    (entitiesByPath entities).lookup e.qualifiedPath = some e :=
  (lookup_foldl_insert hd ∅ _ e).mpr (Or.inl ⟨e, he, rfl, rfl⟩)

/-- The id a binding reports as created. -/
def createdOf (cell : String × Binding) : Option DurableId :=
  match cell.2 with
  | .minted id => some id
  | _ => none

/-- The id a binding reports as changed. -/
def changedOf (byPath : FMap String Entity) (cell : String × Binding) : Option DurableId :=
  match cell.2 with
  | .exact id oldHash | .struct id _ oldHash =>
    if (byPath.lookup cell.1).map Entity.contentHash ≠ some oldHash then some id else none
  | _ => none

/-- The move a binding reports. -/
def movedOf (byPath : FMap String Entity) (cell : String × Binding) : Option MovedBinding :=
  match cell.2 with
  | .moved id oldPath _ => some
    { id := id
      oldQualifiedPath := oldPath
      newQualifiedPath := cell.1
      oldFile := fileOfQualifiedPath oldPath
      newFile := ((byPath.lookup cell.1).map Entity.file).getD (fileOfQualifiedPath cell.1) }
  | _ => none

/-- Each class collects its bindings in order. -/
theorem foldl_classifyBinding (byPath : FMap String Entity) (cells : List (String × Binding))
    (classes : ReconcileClasses) : cells.foldl (classifyBinding byPath) classes =
      { created := classes.created ++ cells.filterMap createdOf
        changed := classes.changed ++ cells.filterMap (changedOf byPath)
        deleted := classes.deleted
        moved := classes.moved ++ cells.filterMap (movedOf byPath) } := by
  induction cells generalizing classes with
  | nil => simp
  | cons cell cells ih =>
    obtain ⟨p, b⟩ := cell
    rw [List.foldl_cons, ih]
    cases b with
    | exact id oldHash =>
      by_cases h : (byPath.lookup p).map Entity.contentHash = some oldHash
      · simp [classifyBinding, List.filterMap_cons, createdOf, changedOf, movedOf, h]
      · simp [classifyBinding, List.filterMap_cons, createdOf, changedOf, movedOf, h]
    | moved id oldPath oldHash =>
      simp [classifyBinding, List.filterMap_cons, createdOf, changedOf, movedOf]
    | struct id confidence oldHash =>
      by_cases h : (byPath.lookup p).map Entity.contentHash = some oldHash
      · simp [classifyBinding, List.filterMap_cons, createdOf, changedOf, movedOf, h]
      · simp [classifyBinding, List.filterMap_cons, createdOf, changedOf, movedOf, h]
    | minted id => simp [classifyBinding, List.filterMap_cons, createdOf, changedOf, movedOf]

/-- The four classes of a report. -/
theorem classify_eq (recon : Reconciliation) (entities : List Entity) :
    classify recon entities =
      { created := recon.bindings.filterMap createdOf
        changed := recon.bindings.filterMap (changedOf (entitiesByPath entities))
        deleted := recon.retired
        moved := recon.bindings.filterMap (movedOf (entitiesByPath entities)) } := by
  unfold classify
  exact foldl_classifyBinding _ _ _

/-- The ids of the four classes. -/
def classLists (classes : ReconcileClasses) : List (List DurableId) :=
  [classes.created, classes.changed, classes.deleted, classes.moved.map MovedBinding.id]

/-- The classes say what happened to the ids. -/
structure ExactClasses (r : IdentityRegistry) (c : Call)
    (out : Reconciliation × IdentityRegistry) (classes : ReconcileClasses) : Prop where
  /-- No id stands in two classes. -/
  disjoint : (classLists classes).Pairwise List.Disjoint
  /-- Changed: bound to a known anchor of another hash. -/
  changed : ∀ id, id ∈ classes.changed ↔ ∃ e ∈ c.entities, BoundTo out.1 e id ∧
    ∃ a, r.get id = some a ∧ a.contentHash ≠ e.contentHash
  /-- Moved: bound to a known anchor of the same hash and another path. -/
  moved : ∀ id, id ∈ classes.moved.map MovedBinding.id ↔ ∃ e ∈ c.entities,
    BoundTo out.1 e id ∧ ∃ a, r.get id = some a ∧ a.contentHash = e.contentHash ∧
      a.qualifiedPath ≠ e.qualifiedPath
  /-- Deleted: went to orphaned. -/
  deleted : ∀ id, id ∈ classes.deleted ↔ r.statusOf id ≠ some .orphaned ∧
    out.2.statusOf id = some .orphaned
  /-- Created: new to the registry. -/
  created : ∀ id, id ∈ classes.created ↔ r.get id = none ∧ out.2.get id ≠ none

/-- No entity inherits by hash an id whose anchor has the entity's path. -/
def NoneRevived (r : IdentityRegistry) (c : Call) : Prop :=
  ∀ e ∈ c.entities, ∀ id, heir r c.scope c.entities e = some id →
    ∀ a, r.get id = some a → a.qualifiedPath ≠ e.qualifiedPath

instance (r : IdentityRegistry) (c : Call) : Decidable (NoneRevived r c) :=
  inferInstanceAs (Decidable (∀ e ∈ c.entities, ∀ id ∈ heir r c.scope c.entities e,
    ∀ a ∈ r.get id, a.qualifiedPath ≠ e.qualifiedPath))

section Entries

variable {r : IdentityRegistry} {c : Call} {plan : List Bound}

/-- An anchor of the entity's hash that is not found by path is spare, so a
binding by structure changes the hash. -/
theorem struct_changes_hash (hs : r.Sound) (hf : Fresh c.mint r) (hd : DistinctPaths r c)
    (ho : Outcome c.mint r c.entities c.revision c.scope (c.run r) plan) {x : Bound}
    (hx : x ∈ plan) {id : DurableId} {confidence : Confidence} {oldHash : ContentHash}
    (hb : x.binding = .struct id confidence oldHash) : oldHash ≠ x.entity.contentHash := by
  intro hsame
  have hmem := mem_entities_of_mem_plan ho hx
  have hreported := mem_bindings_of_mem_plan ho hx
  have hj := ho.justified x hx
  have hid : x.id = id := congrArg Binding.id hb
  rw [hb] at hreported hj
  obtain ⟨⟨a, ha, hah, -⟩, hscope, -⟩ := hj
  refine struct_not_spare hs.linked hf c.iter hd c.revision c.scope hmem hreported
    (mem_spareIds.mpr ⟨?_, hscope, ?_⟩)
  · have honce := hs.hash_once id a ha
    rw [hah, hsame] at honce
    exact List.count_pos_iff.mp (by omega)
  · -- an id held by a path is bound there, and no id is bound twice
    cases hh : heldByPath r c.entities id with
    | false => rfl
    | true =>
      obtain ⟨e, he, hpath⟩ := List.any_eq_true.mp hh
      obtain ⟨y, hy, rfl⟩ := exists_entry ho he
      obtain ⟨hyid, hexact⟩ := ho.indexed y hy id (of_decide_eq_true hpath)
      have hyx : y = x := List.inj_on_of_nodup_map ho.fits.distinct hy hx (hyid.trans hid.symm)
      rw [hyx, hb] at hexact
      cases hexact

/-- The entry of a created id is the one of an unknown id. -/
theorem createdOf_entry (ho : Outcome c.mint r c.entities c.revision c.scope (c.run r) plan)
    {x : Bound} (hx : x ∈ plan) (id : DurableId) :
    createdOf (x.entity.qualifiedPath, x.binding) = some id ↔
      x.id = id ∧ r.get x.id = none := by
  have hminted := ho.fits.minted x hx
  have hknown := ho.fits.known x hx
  cases hb : x.binding with
  | minted k =>
    have hid : x.id = k := congrArg Binding.id hb
    have hnone := hminted (by rw [hb]; rfl)
    simp [createdOf, hid, hid ▸ hnone]
  | exact k oldHash =>
    obtain ⟨a, ha⟩ := hknown (by rw [hb]; rfl)
    simp [createdOf, ha]
  | moved k oldPath oldHash =>
    obtain ⟨a, ha⟩ := hknown (by rw [hb]; rfl)
    simp [createdOf, ha]
  | struct k confidence oldHash =>
    obtain ⟨a, ha⟩ := hknown (by rw [hb]; rfl)
    simp [createdOf, ha]

/-- The entry of a changed id is the one of an anchor of another hash. -/
theorem changedOf_entry (hs : r.Sound) (hf : Fresh c.mint r) (hd : DistinctPaths r c)
    (ho : Outcome c.mint r c.entities c.revision c.scope (c.run r) plan) {x : Bound}
    (hx : x ∈ plan) (id : DurableId) :
    changedOf (entitiesByPath c.entities) (x.entity.qualifiedPath, x.binding) = some id ↔
      x.id = id ∧ ∃ a, r.get x.id = some a ∧ a.contentHash ≠ x.entity.contentHash := by
  have hfound := lookup_entitiesByPath hd (mem_entities_of_mem_plan ho hx)
  have hj := ho.justified x hx
  have hstruct : ∀ k confidence oldHash, x.binding = .struct k confidence oldHash →
      oldHash ≠ x.entity.contentHash := fun _ _ _ => struct_changes_hash hs hf hd ho hx
  have hminted := ho.fits.minted x hx
  cases hb : x.binding with
  | exact k oldHash =>
    rw [hb] at hj
    have hid : x.id = k := congrArg Binding.id hb
    obtain ⟨-, ⟨a, ha, rfl⟩, -⟩ := hj
    simp only [changedOf, hfound, hid, ha, Option.map_some, ne_eq, Option.some_inj]
    by_cases h : x.entity.contentHash = a.contentHash
    · simp [h]
    · simp [h, Ne.symm h]
  | moved k oldPath oldHash =>
    rw [hb] at hj
    have hid : x.id = k := congrArg Binding.id hb
    obtain ⟨⟨a, ha, hah, -⟩, -⟩ := hj
    simp [changedOf, hid, ha, hah]
  | struct k confidence oldHash =>
    have hne := hstruct k confidence oldHash hb
    rw [hb] at hj
    have hid : x.id = k := congrArg Binding.id hb
    obtain ⟨⟨a, ha, rfl, -⟩, -⟩ := hj
    simp [changedOf, hfound, hid, ha, hne, Ne.symm hne]
  | minted k =>
    have hid : x.id = k := congrArg Binding.id hb
    have hnone := hminted (by rw [hb]; rfl)
    simp [changedOf, hnone]

/-- The entry of a move is the one of an heir. -/
theorem movedOf_entry (hl : r.Linked) (hf : Fresh c.mint r) (hd : DistinctPaths r c)
    (ho : Outcome c.mint r c.entities c.revision c.scope (c.run r) plan) {x : Bound}
    (hx : x ∈ plan) (id : DurableId) :
    (∃ m, movedOf (entitiesByPath c.entities) (x.entity.qualifiedPath, x.binding) = some m ∧
      m.id = id) ↔ x.id = id ∧ heir r c.scope c.entities x.entity = some id := by
  have hmem := mem_entities_of_mem_plan ho hx
  have hreported := mem_bindings_of_mem_plan ho hx
  constructor
  · rintro ⟨m, hm, hid⟩
    cases hb : x.binding with
    | moved k oldPath oldHash =>
      rw [hb] at hreported hm
      have hk : x.id = k := congrArg Binding.id hb
      have hheir := ((moved_mem_iff hl hf c.iter hd c.revision c.scope hmem k oldPath oldHash).mp
        hreported).1
      have hmk : m.id = k := by
        unfold movedOf at hm
        rw [← Option.some_inj.mp hm]
      rw [← hid, hmk]
      exact ⟨hk, hheir⟩
    | exact _ _ =>
      rw [hb] at hm
      cases hm
    | struct _ _ _ =>
      rw [hb] at hm
      cases hm
    | minted _ =>
      rw [hb] at hm
      cases hm
  · rintro ⟨hid, hheir⟩
    obtain ⟨-, hknown⟩ := entry_of_found hl hf hd ho hx (Or.inr hheir)
    obtain ⟨a, ha⟩ := ho.fits.known x hx hknown
    rw [hid] at ha
    have hback := (moved_mem_iff hl hf c.iter hd c.revision c.scope hmem id a.qualifiedPath
      a.contentHash).mpr ⟨hheir, a, ha, rfl, rfl⟩
    have hb := entry_of_mem_bindings ho hx hback
    rw [hb]
    exact ⟨_, rfl, rfl⟩

/-- The anchor an heir inherits has the hash of the heir. -/
theorem heir_hash (hl : r.Linked) {e : Entity} {id : DurableId}
    (hheir : heir r c.scope c.entities e = some id) :
    ∃ a, r.get id = some a ∧ a.contentHash = e.contentHash := by
  unfold heir at hheir
  split at hheir
  · exact hl.hash_anchor _ _ (mem_spareIds.mp (List.mem_of_getElem? hheir)).1
  · cases hheir

/-- An entity bound to a known anchor of its hash at another path is an
heir. -/
theorem heir_of_same_hash (hs : r.Sound) (hf : Fresh c.mint r) (hd : DistinctPaths r c)
    (ho : Outcome c.mint r c.entities c.revision c.scope (c.run r) plan) {x : Bound}
    (hx : x ∈ plan) {a : Anchor} (ha : r.get x.id = some a)
    (hhash : a.contentHash = x.entity.contentHash)
    (hpath : a.qualifiedPath ≠ x.entity.qualifiedPath) :
    heir r c.scope c.entities x.entity = some x.id := by
  have hmem := mem_entities_of_mem_plan ho hx
  have hreported := mem_bindings_of_mem_plan ho hx
  have hj := ho.justified x hx
  cases hb : x.binding with
  | exact k oldHash =>
    rw [hb] at hj
    have hid : x.id = k := congrArg Binding.id hb
    obtain ⟨b, hget, hbp⟩ := hs.path_anchor _ k hj.1
    rw [hid, hget] at ha
    cases ha
    exact (hpath hbp).elim
  | moved k oldPath oldHash =>
    rw [hb] at hreported
    have hid : x.id = k := congrArg Binding.id hb
    rw [hid]
    exact ((moved_mem_iff hs.linked hf c.iter hd c.revision c.scope hmem k oldPath oldHash).mp
      hreported).1
  | struct k confidence oldHash =>
    have hne := struct_changes_hash hs hf hd ho hx hb
    rw [hb] at hj
    have hid : x.id = k := congrArg Binding.id hb
    obtain ⟨⟨b, hget, hbh, -⟩, -⟩ := hj
    rw [hid, hget] at ha
    cases ha
    exact (hne (hbh.symm.trans hhash)).elim
  | minted k =>
    have hnone := ho.fits.minted x hx (by rw [hb]; rfl)
    rw [hnone] at ha
    cases ha

/-- What the bindings report is what the entries report. -/
theorem mem_filterMap_bindings {β : Type*} (f : String × Binding → Option β)
    (ho : Outcome c.mint r c.entities c.revision c.scope (c.run r) plan) (y : β) :
    y ∈ (c.run r).1.bindings.filterMap f ↔
      ∃ x ∈ plan, f (x.entity.qualifiedPath, x.binding) = some y := by
  rw [(ho.bindings.filterMap f).mem_iff, List.mem_filterMap]
  simp only [List.mem_map, exists_exists_and_eq_and]

/-- Created ids are the entries of unknown ids. -/
theorem mem_created (ho : Outcome c.mint r c.entities c.revision c.scope (c.run r) plan)
    (id : DurableId) : id ∈ (classify (c.run r).1 c.entities).created ↔
      ∃ x ∈ plan, x.id = id ∧ r.get x.id = none := by
  rw [classify_eq]
  dsimp only
  rw [mem_filterMap_bindings _ ho]
  constructor
  · rintro ⟨x, hx, h⟩
    exact ⟨x, hx, (createdOf_entry ho hx id).mp h⟩
  · rintro ⟨x, hx, h⟩
    exact ⟨x, hx, (createdOf_entry ho hx id).mpr h⟩

/-- Changed ids are the entries of anchors of another hash. -/
theorem mem_changed (hs : r.Sound) (hf : Fresh c.mint r) (hd : DistinctPaths r c)
    (ho : Outcome c.mint r c.entities c.revision c.scope (c.run r) plan) (id : DurableId) :
    id ∈ (classify (c.run r).1 c.entities).changed ↔ ∃ x ∈ plan, x.id = id ∧
      ∃ a, r.get x.id = some a ∧ a.contentHash ≠ x.entity.contentHash := by
  rw [classify_eq]
  dsimp only
  rw [mem_filterMap_bindings _ ho]
  constructor
  · rintro ⟨x, hx, h⟩
    exact ⟨x, hx, (changedOf_entry hs hf hd ho hx id).mp h⟩
  · rintro ⟨x, hx, h⟩
    exact ⟨x, hx, (changedOf_entry hs hf hd ho hx id).mpr h⟩

/-- Moved ids are those of the heirs. -/
theorem mem_moved (hl : r.Linked) (hf : Fresh c.mint r) (hd : DistinctPaths r c)
    (ho : Outcome c.mint r c.entities c.revision c.scope (c.run r) plan) (id : DurableId) :
    id ∈ (classify (c.run r).1 c.entities).moved.map MovedBinding.id ↔ ∃ x ∈ plan, x.id = id ∧
      heir r c.scope c.entities x.entity = some id := by
  rw [classify_eq, List.mem_map]
  dsimp only
  constructor
  · rintro ⟨m, hm, hid⟩
    obtain ⟨x, hx, hxm⟩ := (mem_filterMap_bindings _ ho m).mp hm
    exact ⟨x, hx, (movedOf_entry hl hf hd ho hx id).mp ⟨m, hxm, hid⟩⟩
  · rintro ⟨x, hx, h⟩
    obtain ⟨m, hxm, hid⟩ := (movedOf_entry hl hf hd ho hx id).mpr h
    exact ⟨m, (mem_filterMap_bindings _ ho m).mpr ⟨x, hx, hxm⟩, hid⟩

/-- Deleted ids are the vanished ones. -/
theorem mem_deleted (ho : Outcome c.mint r c.entities c.revision c.scope (c.run r) plan)
    (id : DurableId) : id ∈ (classify (c.run r).1 c.entities).deleted ↔
      vanished c.scope (claimed plan) r id = true := by
  rw [classify_eq]
  exact ho.retired id

/-- No id stands in two classes. -/
theorem classLists_disjoint (hs : r.Sound) (hf : Fresh c.mint r) (hd : DistinctPaths r c)
    (ho : Outcome c.mint r c.entities c.revision c.scope (c.run r) plan) :
    (classLists (classify (c.run r).1 c.entities)).Pairwise List.Disjoint := by
  have hunique : ∀ x ∈ plan, ∀ y ∈ plan, x.id = y.id → x = y :=
    fun x hx y hy => List.inj_on_of_nodup_map ho.fits.distinct hx hy
  have hclaimed : ∀ id, vanished c.scope (claimed plan) r id = true → ∀ x ∈ plan, x.id ≠ id :=
    fun id hv x hx h => (vanished_iff.mp hv).1 (mem_claimed.mpr ⟨x, hx, h⟩)
  unfold classLists
  simp only [List.pairwise_cons, List.mem_cons, List.not_mem_nil, or_false, forall_eq_or_imp,
    forall_eq, List.Pairwise.nil, and_true, false_imp_iff, implies_true]
  refine ⟨⟨?_, ?_, ?_⟩, ⟨?_, ?_⟩, ?_⟩
  · intro id h1 h2
    obtain ⟨x, hx, rfl, hnone⟩ := (mem_created ho id).mp h1
    obtain ⟨y, hy, hyx, a, ha, -⟩ := (mem_changed hs hf hd ho _).mp h2
    rw [hyx, hnone] at ha
    cases ha
  · intro id h1 h2
    obtain ⟨x, hx, hid, -⟩ := (mem_created ho id).mp h1
    exact hclaimed id ((mem_deleted ho id).mp h2) x hx hid
  · intro id h1 h2
    obtain ⟨x, hx, rfl, hnone⟩ := (mem_created ho id).mp h1
    obtain ⟨y, hy, -, hheir⟩ := (mem_moved hs.linked hf hd ho _).mp h2
    obtain ⟨a, ha, -⟩ := heir_hash hs.linked hheir
    rw [hnone] at ha
    cases ha
  · intro id h1 h2
    obtain ⟨x, hx, hid, -⟩ := (mem_changed hs hf hd ho id).mp h1
    exact hclaimed id ((mem_deleted ho id).mp h2) x hx hid
  · intro id h1 h2
    obtain ⟨x, hx, rfl, a, ha, hne⟩ := (mem_changed hs hf hd ho id).mp h1
    obtain ⟨y, hy, hyx, hheir⟩ := (mem_moved hs.linked hf hd ho _).mp h2
    obtain ⟨b, hb, hbh⟩ := heir_hash hs.linked hheir
    rw [hb] at ha
    cases ha
    rw [hunique y hy x hx hyx] at hbh
    exact hne hbh
  · intro id h1 h2
    obtain ⟨x, hx, hid, -⟩ := (mem_moved hs.linked hf hd ho id).mp h2
    exact hclaimed id ((mem_deleted ho id).mp h1) x hx hid

/-- A bound id is live afterwards. -/
theorem statusOf_claimed (ho : Outcome c.mint r c.entities c.revision c.scope (c.run r) plan)
    {x : Bound} (hx : x ∈ plan) : (c.run r).2.statusOf x.id ≠ some .orphaned := by
  obtain ⟨a, ha, -, -, hlive⟩ := ho.get_bound_live hx
  unfold IdentityRegistry.statusOf
  rw [ha, Option.map_some, ne_eq, Option.some_inj]
  exact hlive

/-- The vanished ids are those that go to orphaned. -/
theorem vanished_iff_status (ho : Outcome c.mint r c.entities c.revision c.scope (c.run r) plan)
    (id : DurableId) : vanished c.scope (claimed plan) r id = true ↔
      r.statusOf id ≠ some .orphaned ∧ (c.run r).2.statusOf id = some .orphaned := by
  by_cases hid : id ∈ claimed plan
  · obtain ⟨x, hx, rfl⟩ := mem_claimed.mp hid
    have hlive := statusOf_claimed ho hx
    constructor
    · intro hv
      exact ((vanished_iff.mp hv).1 hid).elim
    · rintro ⟨-, h⟩
      exact (hlive h).elim
  · have hget := ho.get_other id hid
    constructor
    · intro hv
      obtain ⟨-, -, a, ha, hlive⟩ := vanished_iff.mp hv
      rw [if_pos hv, ha] at hget
      unfold IdentityRegistry.statusOf
      rw [hget, ha]
      refine ⟨?_, rfl⟩
      rw [Option.map_some, ne_eq, Option.some_inj]
      exact hlive
    · rintro ⟨hbefore, hafter⟩
      by_contra hv
      rw [if_neg hv] at hget
      unfold IdentityRegistry.statusOf at hbefore hafter
      rw [hget] at hafter
      exact hbefore hafter

/-- The ids new to the registry are the entries of unknown ids. -/
theorem new_iff (ho : Outcome c.mint r c.entities c.revision c.scope (c.run r) plan)
    (id : DurableId) : (∃ x ∈ plan, x.id = id ∧ r.get x.id = none) ↔
      r.get id = none ∧ (c.run r).2.get id ≠ none := by
  constructor
  · rintro ⟨x, hx, rfl, hnone⟩
    obtain ⟨a, ha, -⟩ := ho.get_bound_live hx
    refine ⟨hnone, ?_⟩
    rw [ha]
    exact Option.some_ne_none a
  · rintro ⟨hnone, hafter⟩
    by_cases hid : id ∈ claimed plan
    · obtain ⟨x, hx, rfl⟩ := mem_claimed.mp hid
      exact ⟨x, hx, rfl, hnone⟩
    · rw [ho.get_other id hid, hnone] at hafter
      split at hafter
      · exact (hafter rfl).elim
      · exact (hafter rfl).elim

end Entries

/-- The classes of a reconciliation of entities of pairwise different paths
say what happened exactly when no entity inherits an id at its own path. -/
theorem classify_exact_iff {r : IdentityRegistry} (hs : r.Sound) (c : Call) (hf : Fresh c.mint r)
    (hd : DistinctPaths r c) :
    ExactClasses r c (c.run r) (classify (c.run r).1 c.entities) ↔ NoneRevived r c := by
  obtain ⟨plan, ho⟩ := reconcileImpl_outcome hs.linked hf c.iter hd c.revision c.scope
  change Outcome c.mint r c.entities c.revision c.scope (c.run r) plan at ho
  constructor
  · intro hexact e he id hheir a ha hpath
    obtain ⟨x, hx, rfl⟩ := exists_entry ho he
    have hid := (entry_of_found hs.linked hf hd ho hx (Or.inr hheir)).1
    obtain ⟨e', he', hbound, b, hb, -, hne⟩ :=
      (hexact.moved id).mp ((mem_moved hs.linked hf hd ho id).mpr ⟨x, hx, hid, hheir⟩)
    obtain ⟨y, hy, rfl⟩ := exists_entry ho he'
    have hyid := (boundTo_iff ho hy id).mp hbound
    have hyx : y = x := List.inj_on_of_nodup_map ho.fits.distinct hy hx (hyid.trans hid.symm)
    rw [ha] at hb
    cases hb
    rw [hyx] at hne
    exact hne hpath
  · intro hnone
    refine ⟨classLists_disjoint hs hf hd ho, ?_, ?_, ?_, ?_⟩
    · intro id
      rw [mem_changed hs hf hd ho]
      constructor
      · rintro ⟨x, hx, rfl, rest⟩
        exact ⟨x.entity, mem_entities_of_mem_plan ho hx, (boundTo_iff ho hx _).mpr rfl, rest⟩
      · rintro ⟨e, he, hbound, rest⟩
        obtain ⟨x, hx, rfl⟩ := exists_entry ho he
        have hid := (boundTo_iff ho hx id).mp hbound
        subst hid
        exact ⟨x, hx, rfl, rest⟩
    · intro id
      rw [mem_moved hs.linked hf hd ho]
      constructor
      · rintro ⟨x, hx, hid, hheir⟩
        have hmem := mem_entities_of_mem_plan ho hx
        obtain ⟨a, ha, hhash⟩ := heir_hash hs.linked hheir
        exact ⟨x.entity, hmem, (boundTo_iff ho hx id).mpr hid, a, ha, hhash,
          hnone x.entity hmem id hheir a ha⟩
      · rintro ⟨e, he, hbound, a, ha, hhash, hpath⟩
        obtain ⟨x, hx, rfl⟩ := exists_entry ho he
        have hid := (boundTo_iff ho hx id).mp hbound
        subst hid
        exact ⟨x, hx, rfl, heir_of_same_hash hs hf hd ho hx ha hhash hpath⟩
    · intro id
      rw [mem_deleted ho, vanished_iff_status ho]
    · intro id
      rw [mem_created ho, new_iff ho]

/-- One function moves to another file, one is edited, one is deleted and
one is new. -/
theorem classify_exact_mixed :
    (classify ((wholeCall 3 2 [topFunction "b.py" "f" 1, topFunction "a.py" "g" 4,
      topFunction "a.py" "k" 5]).run (runCalls [wholeCall 0 1 [topFunction "a.py" "f" 1,
        topFunction "a.py" "g" 2, topFunction "a.py" "h" 3]])).1
      [topFunction "b.py" "f" 1, topFunction "a.py" "g" 4, topFunction "a.py" "k" 5]).deleted =
        ["AAA"] ∧
    ExactClasses (runCalls [wholeCall 0 1 [topFunction "a.py" "f" 1, topFunction "a.py" "g" 2,
        topFunction "a.py" "h" 3]])
      (wholeCall 3 2 [topFunction "b.py" "f" 1, topFunction "a.py" "g" 4,
        topFunction "a.py" "k" 5])
      ((wholeCall 3 2 [topFunction "b.py" "f" 1, topFunction "a.py" "g" 4,
        topFunction "a.py" "k" 5]).run (runCalls [wholeCall 0 1 [topFunction "a.py" "f" 1,
          topFunction "a.py" "g" 2, topFunction "a.py" "h" 3]]))
      (classify ((wholeCall 3 2 [topFunction "b.py" "f" 1, topFunction "a.py" "g" 4,
        topFunction "a.py" "k" 5]).run (runCalls [wholeCall 0 1 [topFunction "a.py" "f" 1,
          topFunction "a.py" "g" 2, topFunction "a.py" "h" 3]])).1
        [topFunction "b.py" "f" 1, topFunction "a.py" "g" 4, topFunction "a.py" "k" 5]) := by
  have hreach : ReachableBy (fun _ _ => True) (runCalls [wholeCall 0 1 [topFunction "a.py" "f" 1,
      topFunction "a.py" "g" 2, topFunction "a.py" "h" 3]]) :=
    ReachableBy.step (wholeCall 0 1 [topFunction "a.py" "f" 1, topFunction "a.py" "g" 2,
      topFunction "a.py" "h" 3]) ReachableBy.start (longIds_fresh (by decide +kernel)) trivial
  refine ⟨by decide +kernel, ?_⟩
  exact (classify_exact_iff hreach.sound (wholeCall 3 2 [topFunction "b.py" "f" 1,
    topFunction "a.py" "g" 4, topFunction "a.py" "k" 5]) (longIds_fresh (by decide +kernel))
    (by decide +kernel)).mpr (by decide +kernel)

/-- A deleted function comes back unchanged in its old place: it is reported
as moved from that place to itself. -/
theorem revived_reported_as_moved :
    (runCalls [wholeCall 0 1 [topFunction "a.py" "f" 1], wholeCall 1 2 []]).Sound ∧
    Fresh (longIds 1) (runCalls [wholeCall 0 1 [topFunction "a.py" "f" 1], wholeCall 1 2 []]) ∧
    DistinctPaths (runCalls [wholeCall 0 1 [topFunction "a.py" "f" 1], wholeCall 1 2 []])
      (wholeCall 1 3 [topFunction "a.py" "f" 1]) ∧
    (classify ((wholeCall 1 3 [topFunction "a.py" "f" 1]).run
      (runCalls [wholeCall 0 1 [topFunction "a.py" "f" 1], wholeCall 1 2 []])).1
      [topFunction "a.py" "f" 1]).moved =
        [⟨"A", "a.py::f", "a.py::f", "a.py", "a.py"⟩] ∧
    ¬ExactClasses (runCalls [wholeCall 0 1 [topFunction "a.py" "f" 1], wholeCall 1 2 []])
      (wholeCall 1 3 [topFunction "a.py" "f" 1])
      ((wholeCall 1 3 [topFunction "a.py" "f" 1]).run
        (runCalls [wholeCall 0 1 [topFunction "a.py" "f" 1], wholeCall 1 2 []]))
      (classify ((wholeCall 1 3 [topFunction "a.py" "f" 1]).run
        (runCalls [wholeCall 0 1 [topFunction "a.py" "f" 1], wholeCall 1 2 []])).1
        [topFunction "a.py" "f" 1]) := by
  have hreach : ReachableBy (fun _ _ => True)
      (runCalls [wholeCall 0 1 [topFunction "a.py" "f" 1], wholeCall 1 2 []]) := by
    refine ReachableBy.step (wholeCall 1 2 []) ?_ (longIds_fresh (by decide +kernel)) trivial
    exact ReachableBy.step (wholeCall 0 1 [topFunction "a.py" "f" 1]) ReachableBy.start
      (longIds_fresh (by decide +kernel)) trivial
  have hmoved : (classify ((wholeCall 1 3 [topFunction "a.py" "f" 1]).run
      (runCalls [wholeCall 0 1 [topFunction "a.py" "f" 1], wholeCall 1 2 []])).1
      [topFunction "a.py" "f" 1]).moved =
        [⟨"A", "a.py::f", "a.py::f", "a.py", "a.py"⟩] := by decide +kernel
  refine ⟨hreach.sound, longIds_fresh (by decide +kernel), by decide +kernel, hmoved, ?_⟩
  intro hexact
  have hmem := hexact.moved "A"
  rw [hmoved] at hmem
  obtain ⟨e, he, -, a, ha, -, hpath⟩ := hmem.mp (List.mem_singleton.mpr rfl)
  have hone : e = topFunction "a.py" "f" 1 := List.mem_singleton.mp he
  have hold : ((runCalls [wholeCall 0 1 [topFunction "a.py" "f" 1], wholeCall 1 2 []]).get
      "A").map Anchor.qualifiedPath = some "a.py::f" := by decide +kernel
  rw [ha, Option.map_some, Option.some_inj] at hold
  rw [hone] at hpath
  exact hpath hold

end Tyo3.DeltaClasses
