import Tyo3.IdentityRuns
import Tyo3.InheritedIds

/-!
# The registry a reconciliation leaves

Every entity ends up on a live anchor with its path, hash and revision;
every other anchor in scope is orphaned; everything else is untouched. The
kind is the exception: binding an entity to a known anchor writes path, hash
and revision and leaves the kind the anchor was minted with. The anchor has
the kind of its entity exactly when the anchors that the paths and hashes of
the entities lead to had it before.
-/

namespace Tyo3.ReconciledAnchors

open Entities FiniteMaps IdentityAnchors IdentityMatching IdentityPostState IdentityReconciliation
  IdentityRuns InheritedIds

/-- The report binds an entity to an id. -/
def BoundTo (out : Reconciliation) (e : Entity) (id : DurableId) : Prop :=
  ∃ b, (e.qualifiedPath, b) ∈ out.bindings ∧ b.id = id

/-- The report binds no entity to an id. -/
def Unbound (out : Reconciliation) (id : DurableId) : Prop :=
  ∀ cell ∈ out.bindings, cell.2.id ≠ id

/-- The registry after a call, described by the report and the registry
before it. -/
structure PostState (r : IdentityRegistry) (c : Call) (out : Reconciliation × IdentityRegistry) :
    Prop where
  /-- Every entity is bound. -/
  bound : ∀ e ∈ c.entities, ∃ id, BoundTo out.1 e id
  /-- The anchor of an entity is live and has its facts. -/
  facts : ∀ e ∈ c.entities, ∀ id, BoundTo out.1 e id → ∃ a, out.2.get id = some a ∧
    a.qualifiedPath = e.qualifiedPath ∧ a.contentHash = e.contentHash ∧ a.kind = e.kind ∧
    a.lastSeenRev = c.revision ∧ a.status ≠ .orphaned
  /-- An anchor in scope without an entity is orphaned. -/
  orphans : ∀ id a, r.get id = some a → fileInScope c.scope a.qualifiedPath = true →
    Unbound out.1 id → ∃ b, out.2.get id = some b ∧ b.status = .orphaned
  /-- Everything else is as it was. -/
  untouched : ∀ id, Unbound out.1 id →
    (∀ a, r.get id = some a → fileInScope c.scope a.qualifiedPath = false) →
    out.2.get id = r.get id

/-- The anchor under the path of an entity and the anchor it inherits by
hash have its kind. -/
def KindsKept (r : IdentityRegistry) (c : Call) : Prop :=
  ∀ e ∈ c.entities, ∀ id, (r.byPath.lookup e.qualifiedPath = some id ∨
    heir r c.scope c.entities e = some id) → ∀ a, r.get id = some a → a.kind = e.kind

section Entries

variable {r : IdentityRegistry} {mint : ℕ → DurableId} {entities : List Entity}
  {revision : Revision} {scope : Option (Finset String)}
  {out : Reconciliation × IdentityRegistry} {plan : List Bound}

/-- Entries stand for entities of the call. -/
theorem mem_entities_of_mem_plan (ho : Outcome mint r entities revision scope out plan) {x : Bound}
    (hx : x ∈ plan) : x.entity ∈ entities := by
  have h : x.entity ∈ sortEntities entities := by
    rw [← ho.entities]
    exact List.mem_map_of_mem hx
  exact (sortEntities_perm entities).mem_iff.mp h

/-- Every entity of the call has an entry. -/
theorem exists_entry (ho : Outcome mint r entities revision scope out plan) {e : Entity}
    (he : e ∈ entities) : ∃ x ∈ plan, x.entity = e := by
  have h := (sortEntities_perm entities).mem_iff.mpr he
  rw [← ho.entities] at h
  exact List.mem_map.mp h

/-- What is reported for an entry. -/
theorem mem_bindings_of_mem_plan (ho : Outcome mint r entities revision scope out plan) {x : Bound}
    (hx : x ∈ plan) : (x.entity.qualifiedPath, x.binding) ∈ out.1.bindings :=
  ho.bindings.symm.subset (List.mem_map_of_mem hx)

/-- A reported binding is the one of the entry at its path. -/
theorem entry_of_mem_bindings (ho : Outcome mint r entities revision scope out plan) {x : Bound}
    (hx : x ∈ plan) {b : Binding} (hb : (x.entity.qualifiedPath, b) ∈ out.1.bindings) :
    x.binding = b := by
  obtain ⟨y, hy, hyb⟩ := List.mem_map.mp (ho.bindings.subset hb)
  have hpath : y.entity.qualifiedPath = x.entity.qualifiedPath := congrArg Prod.fst hyb
  have hbind : y.binding = b := congrArg Prod.snd hyb
  have hnd : (plan.map fun z => z.entity.qualifiedPath).Nodup := by
    rw [List.Nodup, List.pairwise_map]
    exact ho.sorted.imp fun h => h.ne
  have hyx : y = x := List.inj_on_of_nodup_map hnd hy hx hpath
  rwa [hyx] at hbind

/-- An id is bound when an entry claims it. -/
theorem boundTo_iff (ho : Outcome mint r entities revision scope out plan) {x : Bound}
    (hx : x ∈ plan) (id : DurableId) : BoundTo out.1 x.entity id ↔ x.id = id := by
  constructor
  · rintro ⟨b, hb, rfl⟩
    exact congrArg Binding.id (entry_of_mem_bindings ho hx hb)
  · exact fun h => ⟨x.binding, mem_bindings_of_mem_plan ho hx, h⟩

/-- An id is unbound when no entry claims it. -/
theorem unbound_iff (ho : Outcome mint r entities revision scope out plan) (id : DurableId) :
    Unbound out.1 id ↔ id ∉ claimed plan := by
  rw [mem_claimed]
  constructor
  · rintro h ⟨x, hx, hxid⟩
    exact h _ (mem_bindings_of_mem_plan ho hx) hxid
  · intro h cell hcell hid
    obtain ⟨x, hx, hxc⟩ := List.mem_map.mp (ho.bindings.subset hcell)
    have hbind : x.binding = cell.2 := congrArg Prod.snd hxc
    exact h ⟨x, hx, (congrArg Binding.id hbind).trans hid⟩

/-- The anchor of an entry that is not minted keeps its old kind. -/
theorem kind_of_known (ho : Outcome mint r entities revision scope out plan) {x : Bound}
    (hx : x ∈ plan) (hm : x.binding.isMinted = false) {a b : Anchor} (ha : r.get x.id = some a)
    (hb : out.2.get x.id = some b) : b.kind = a.kind := by
  have hget := ho.get_bound x hx
  unfold boundAnchor at hget
  rw [hb, hm, if_neg Bool.false_ne_true, ha, Option.map_some, Option.some_inj] at hget
  rw [hget]

/-- The revision is written to the anchor of every entry. -/
theorem lastSeenRev_of_bound (ho : Outcome mint r entities revision scope out plan) {x : Bound}
    (hx : x ∈ plan) {b : Anchor} (hb : out.2.get x.id = some b) : b.lastSeenRev = revision := by
  have hget := ho.get_bound x hx
  unfold boundAnchor at hget
  rw [hb] at hget
  split at hget
  · rw [Option.some_inj.mp hget]
  · obtain ⟨a, -, hab⟩ := Option.map_eq_some_iff.mp hget.symm
    rw [← hab]

end Entries

section Calls

variable {r : IdentityRegistry} {c : Call} {plan : List Bound}

/-- Where the kinds of the anchors agree, the anchor of an entry has the
kind of its entity. -/
theorem kind_of_kept (hl : r.Linked) (hf : Fresh c.mint r) (hd : DistinctPaths r c)
    (hk : KindsKept r c)
    (ho : Outcome c.mint r c.entities c.revision c.scope (c.run r) plan) {x : Bound}
    (hx : x ∈ plan) {b : Anchor} (hb : (c.run r).2.get x.id = some b) :
    b.kind = x.entity.kind := by
  have hmem := mem_entities_of_mem_plan ho hx
  have hj := ho.justified x hx
  have hreported := mem_bindings_of_mem_plan ho hx
  cases hbind : x.binding with
  | exact id oldHash =>
    rw [hbind] at hj
    have hid : x.id = id := congrArg Binding.id hbind
    obtain ⟨hpath, ⟨a, ha, -⟩, -⟩ := hj
    rw [kind_of_known ho hx (by rw [hbind]; rfl) (hid ▸ ha) hb]
    exact hk x.entity hmem id (Or.inl hpath) a ha
  | moved id oldPath oldHash =>
    rw [hbind] at hj hreported
    have hid : x.id = id := congrArg Binding.id hbind
    obtain ⟨⟨a, ha, -⟩, -⟩ := hj
    have hheir := ((moved_mem_iff hl hf c.iter hd c.revision c.scope hmem id oldPath oldHash).mp
      hreported).1
    rw [kind_of_known ho hx (by rw [hbind]; rfl) (hid ▸ ha) hb]
    exact hk x.entity hmem id (Or.inr hheir) a ha
  | struct id confidence oldHash =>
    rw [hbind] at hj
    have hid : x.id = id := congrArg Binding.id hbind
    obtain ⟨⟨a, ha, -, -, hkind, -⟩, -⟩ := hj
    rw [kind_of_known ho hx (by rw [hbind]; rfl) (hid ▸ ha) hb]
    exact hkind
  | minted id =>
    have hget := ho.get_bound x hx
    unfold boundAnchor at hget
    have hm : x.binding.isMinted = true := by rw [hbind]; rfl
    rw [hb, hm, if_pos rfl, Option.some_inj] at hget
    rw [hget]

/-- An entry at an indexed path, or of an heir, is bound to a known anchor. -/
theorem entry_of_found (hl : r.Linked) (hf : Fresh c.mint r) (hd : DistinctPaths r c)
    (ho : Outcome c.mint r c.entities c.revision c.scope (c.run r) plan) {x : Bound}
    (hx : x ∈ plan) {id : DurableId} (hfound : r.byPath.lookup x.entity.qualifiedPath = some id ∨
      heir r c.scope c.entities x.entity = some id) :
    x.id = id ∧ x.binding.isMinted = false := by
  rcases hfound with hpath | hheir
  · obtain ⟨hid, hexact⟩ := ho.indexed x hx id hpath
    refine ⟨hid, ?_⟩
    cases hb : x.binding with
    | minted k =>
      rw [hb] at hexact
      cases hexact
    | exact _ _ => rfl
    | moved _ _ _ => rfl
    | struct _ _ _ => rfl
  · have hmem := mem_entities_of_mem_plan ho hx
    have hspare : id ∈ spareIds r c.scope c.entities x.entity.contentHash := by
      unfold heir at hheir
      split at hheir
      · exact List.mem_of_getElem? hheir
      · cases hheir
    obtain ⟨a, ha, -⟩ := hl.hash_anchor _ _ (mem_spareIds.mp hspare).1
    have hreported := (moved_mem_iff hl hf c.iter hd c.revision c.scope hmem id a.qualifiedPath
      a.contentHash).mpr ⟨hheir, a, ha, rfl, rfl⟩
    have hb := entry_of_mem_bindings ho hx hreported
    exact ⟨congrArg Binding.id hb, by rw [hb]; rfl⟩

end Calls

/-- A reconciliation of entities of pairwise different paths leaves the
described registry exactly when the anchors that their paths and hashes lead
to have their kinds. -/
theorem postState_iff {r : IdentityRegistry} (hl : r.Linked) (c : Call) (hf : Fresh c.mint r)
    (hd : DistinctPaths r c) : PostState r c (c.run r) ↔ KindsKept r c := by
  obtain ⟨plan, ho⟩ := reconcileImpl_outcome hl hf c.iter hd c.revision c.scope
  change Outcome c.mint r c.entities c.revision c.scope (c.run r) plan at ho
  constructor
  · intro hpost e he id hfound a ha
    obtain ⟨x, hx, rfl⟩ := exists_entry ho he
    obtain ⟨hid, hm⟩ := entry_of_found hl hf hd ho hx hfound
    obtain ⟨b, hb, -, -, hkind, -⟩ := hpost.facts _ he id ((boundTo_iff ho hx id).mpr hid)
    rw [← hkind]
    subst hid
    exact (kind_of_known ho hx hm ha hb).symm
  · intro hk
    refine ⟨?_, ?_, ?_, ?_⟩
    · intro e he
      obtain ⟨x, hx, rfl⟩ := exists_entry ho he
      exact ⟨x.id, (boundTo_iff ho hx x.id).mpr rfl⟩
    · intro e he id hid
      obtain ⟨x, hx, rfl⟩ := exists_entry ho he
      have hid' := (boundTo_iff ho hx id).mp hid
      subst hid'
      obtain ⟨b, hb, hpath, hhash, hlive⟩ := ho.get_bound_live hx
      exact ⟨b, hb, hpath, hhash, kind_of_kept hl hf hd hk ho hx hb,
        lastSeenRev_of_bound ho hx hb, hlive⟩
    · intro id a ha hscope hun
      have hfree := (unbound_iff ho id).mp hun
      rw [ho.get_other id hfree]
      by_cases hv : vanished c.scope (claimed plan) r id = true
      · rw [if_pos hv, ha]
        exact ⟨_, rfl, rfl⟩
      · -- in scope and unclaimed, yet not vanished: it was orphaned before
        rw [if_neg hv]
        refine ⟨a, ha, ?_⟩
        by_contra hlive
        refine hv (vanished_iff.mpr ⟨hfree, ?_, a, ha, hlive⟩)
        rw [anchorInScope_eq ha, hscope]
    · intro id hun hout
      have hfree := (unbound_iff ho id).mp hun
      have hv : ¬vanished c.scope (claimed plan) r id = true := by
        intro hv
        obtain ⟨-, hscope, a, ha, -⟩ := vanished_iff.mp hv
        rw [anchorInScope_eq ha, hout a ha] at hscope
        cases hscope
      rw [ho.get_other id hfree, if_neg hv]

/-- A function is edited while another is deleted: the registry afterwards
is the described one. -/
theorem postState_edit_and_delete :
    PostState (runCalls [wholeCall 0 1 [topFunction "a.py" "f" 1, topFunction "a.py" "g" 2]])
      (wholeCall 2 2 [topFunction "a.py" "f" 3])
      ((wholeCall 2 2 [topFunction "a.py" "f" 3]).run
        (runCalls [wholeCall 0 1 [topFunction "a.py" "f" 1, topFunction "a.py" "g" 2]])) := by
  have hreach : ReachableBy (fun _ _ => True)
      (runCalls [wholeCall 0 1 [topFunction "a.py" "f" 1, topFunction "a.py" "g" 2]]) :=
    ReachableBy.step (wholeCall 0 1 [topFunction "a.py" "f" 1, topFunction "a.py" "g" 2])
      ReachableBy.start (longIds_fresh (by decide +kernel)) trivial
  refine (postState_iff hreach.sound.linked _ (longIds_fresh (by decide +kernel))
    (by decide +kernel)).mpr ?_
  intro e he id hid a ha
  have hall : ∀ k ∈ (runCalls [wholeCall 0 1 [topFunction "a.py" "f" 1,
      topFunction "a.py" "g" 2]]).byId.keys, ∀ b ∈ (runCalls [wholeCall 0 1
        [topFunction "a.py" "f" 1, topFunction "a.py" "g" 2]]).get k, b.kind = .function := by
    decide +kernel
  have hkind : a.kind = .function := hall id ((mem_keys_iff _ _).mpr ⟨a, ha⟩) a ha
  have hone : e = topFunction "a.py" "f" 3 := List.mem_singleton.mp he
  rw [hkind, hone]
  rfl

/-- A function is rewritten as a class of the same name: the class is bound
to the id at its path, whose anchor goes on as a function. -/
theorem class_bound_as_function :
    (runCalls [wholeCall 0 1 [topFunction "a.py" "f" 1]]).Sound ∧
    Fresh (longIds 1) (runCalls [wholeCall 0 1 [topFunction "a.py" "f" 1]]) ∧
    DistinctPaths (runCalls [wholeCall 0 1 [topFunction "a.py" "f" 1]])
      (wholeCall 1 2 [{ topFunction "a.py" "f" 2 with kind := .class_ }]) ∧
    ((wholeCall 1 2 [{ topFunction "a.py" "f" 2 with kind := .class_ }]).run
      (runCalls [wholeCall 0 1 [topFunction "a.py" "f" 1]])).1.bindings =
        [("a.py::f", .exact "A" 1)] ∧
    (((wholeCall 1 2 [{ topFunction "a.py" "f" 2 with kind := .class_ }]).run
      (runCalls [wholeCall 0 1 [topFunction "a.py" "f" 1]])).2.get "A").map Anchor.kind =
        some .function ∧
    ¬PostState (runCalls [wholeCall 0 1 [topFunction "a.py" "f" 1]])
      (wholeCall 1 2 [{ topFunction "a.py" "f" 2 with kind := .class_ }])
      ((wholeCall 1 2 [{ topFunction "a.py" "f" 2 with kind := .class_ }]).run
        (runCalls [wholeCall 0 1 [topFunction "a.py" "f" 1]])) := by
  have hreach : ReachableBy (fun _ _ => True)
      (runCalls [wholeCall 0 1 [topFunction "a.py" "f" 1]]) :=
    ReachableBy.step (wholeCall 0 1 [topFunction "a.py" "f" 1]) ReachableBy.start
      (longIds_fresh (by decide +kernel)) trivial
  have hbindings : ((wholeCall 1 2 [{ topFunction "a.py" "f" 2 with kind := .class_ }]).run
      (runCalls [wholeCall 0 1 [topFunction "a.py" "f" 1]])).1.bindings =
        [("a.py::f", .exact "A" 1)] := by decide +kernel
  have hkind : (((wholeCall 1 2 [{ topFunction "a.py" "f" 2 with kind := .class_ }]).run
      (runCalls [wholeCall 0 1 [topFunction "a.py" "f" 1]])).2.get "A").map Anchor.kind =
        some .function := by decide +kernel
  refine ⟨hreach.sound, longIds_fresh (by decide +kernel), by decide +kernel, hbindings, hkind, ?_⟩
  intro hpost
  have hbound : BoundTo ((wholeCall 1 2 [{ topFunction "a.py" "f" 2 with kind := .class_ }]).run
      (runCalls [wholeCall 0 1 [topFunction "a.py" "f" 1]])).1
      { topFunction "a.py" "f" 2 with kind := .class_ } "A" :=
    ⟨.exact "A" 1, by rw [hbindings]; exact List.mem_singleton.mpr rfl, rfl⟩
  obtain ⟨a, ha, -, -, hclass, -⟩ := hpost.facts _ (List.mem_singleton.mpr rfl) "A" hbound
  rw [ha, Option.map_some, hclass] at hkind
  cases hkind

end Tyo3.ReconciledAnchors
