import Tyo3.SessionRegistries

/-!
# Reconciling entities that stay in place

When every extracted entity is found at its path, no path comes twice and no
live anchor of the scope is missing, the first pass binds everything. Nothing
is minted, moved or retired: paths, locations and orphans stay as they are,
and only the hashes of the entities are taken over.
-/

namespace Tyo3.UnmovedEntities

open Entities FiniteMaps IdentityAnchors IdentityMatching IdentityPostState
  IdentityReconciliation SessionRegistries

/-- The entities of a scope are those of the registry, each at its path. -/
structure Unmoved (r : IdentityRegistry) (scope : Option (Finset String))
    (entities : List Entity) : Prop where
  /-- No path twice. -/
  distinct : (entities.map Entity.qualifiedPath).Nodup
  /-- Every path leads to a live anchor. -/
  found : ∀ e ∈ entities, ∃ id a, r.byPath.lookup e.qualifiedPath = some id ∧
    r.get id = some a ∧ a.status ≠ .orphaned
  /-- Every live anchor of the scope has its entity. -/
  kept : ∀ id a, r.get id = some a → a.status ≠ .orphaned → anchorInScope r id scope = true →
    ∃ e ∈ entities, r.byPath.lookup e.qualifiedPath = some id

/-- A status of an anchor that is not orphaned. -/
def isLive (a : Anchor) : Bool := decide (a.status ≠ .orphaned)

/-- Whether the entities are unmoved can be checked anchor by anchor. -/
instance (r : IdentityRegistry) (scope : Option (Finset String)) (entities : List Entity) :
    Decidable (Unmoved r scope entities) :=
  decidable_of_iff ((entities.map Entity.qualifiedPath).Nodup ∧
      (∀ e ∈ entities, ((r.byPath.lookup e.qualifiedPath).bind r.get).any isLive = true) ∧
      ∀ id ∈ r.byId.keys, (r.get id).any isLive = true → anchorInScope r id scope = true →
        ∃ e ∈ entities, r.byPath.lookup e.qualifiedPath = some id) (by
    simp only [Option.any_eq_true, Option.bind_eq_some_iff, isLive, decide_eq_true_eq, mem_keys_iff]
    constructor
    · rintro ⟨hdistinct, hfound, hkept⟩
      refine ⟨hdistinct, fun e he => ?_, fun id a ha hlive hscope => ?_⟩
      · obtain ⟨a, ⟨id, hpath, ha⟩, hlive⟩ := hfound e he
        exact ⟨id, a, hpath, ha, hlive⟩
      · exact hkept id ⟨a, ha⟩ ⟨a, ha, hlive⟩ hscope
    · rintro ⟨hdistinct, hfound, hkept⟩
      refine ⟨hdistinct, fun e he => ?_, fun id _ hlive hscope => ?_⟩
      · obtain ⟨id, a, hpath, ha, hlive⟩ := hfound e he
        exact ⟨a, ⟨id, hpath, ha⟩, hlive⟩
      · obtain ⟨a, ha, halive⟩ := hlive
        exact hkept id a ha halive hscope)

section Matching

variable {r : IdentityRegistry} {scope : Option (Finset String)} {entities : List Entity}

/-- A pass over matched entities does nothing. -/
theorem matchPass_of_matched {rule : Matching → Entity → Option (Binding × Bool)}
    {sorted : List Entity} {st : Matching}
    (h : ∀ i e, sorted[i]? = some e → i ∈ st.matchedEntities) : matchPass rule sorted st = st := by
  have hcells : ∀ cells : List (Entity × ℕ), (∀ cell ∈ cells, cell.2 ∈ st.matchedEntities) →
      cells.foldl (matchStep rule) st = st := by
    intro cells
    induction cells with
    | nil => exact fun _ => rfl
    | cons cell cells ih =>
      intro hall
      have hfirst : matchStep rule st cell = st := if_pos (hall cell List.mem_cons_self)
      rw [List.foldl_cons, hfirst]
      exact ih fun other hother => hall other (List.mem_cons_of_mem _ hother)
  exact hcells _ fun cell hcell => h cell.2 cell.1 (List.mk_mem_zipIdx_iff_getElem?.mp hcell)

/-- An exact binding leads from the path of its entity to its id. -/
theorem byPath_of_exact {mint : ℕ → DurableId} {x : Bound}
    (hj : Justified mint r scope x.entity x.review x.binding) (hx : x.binding.isExact = true) :
    r.byPath.lookup x.entity.qualifiedPath = some x.id := by
  obtain ⟨idx, e, b, review⟩ := x
  cases b with
  | exact id oldHash => exact hj.1
  | moved id oldPath oldHash => cases hx
  | struct id confidence oldHash => cases hx
  | minted id => cases hx

/-- The first pass binds every unmoved entity. -/
theorem matched_exactPass (hl : r.Linked) (h : Unmoved r scope entities) (i : ℕ) (e : Entity)
    (he : (sortEntities entities)[i]? = some e) :
    i ∈ (matchPass (exactRule r) (sortEntities entities) Matching.start).matchedEntities := by
  have hperm := sortEntities_perm entities
  have hdistinct : ((sortEntities entities).map Entity.qualifiedPath).Nodup :=
    (hperm.map _).nodup_iff.mpr h.distinct
  have hmem : e ∈ sortEntities entities := List.mem_of_getElem? he
  obtain ⟨mint, -⟩ := exists_fresh r
  have hstart : Tracks mint r scope (sortEntities entities) Matching.start [] := Tracks.start
  obtain ⟨log, ht, hexact, hall⟩ := matchPass_tracks (exactRule_lawful hl) hstart
  rw [List.nil_append] at ht
  rcases hall i e he with hmatched | ⟨st', hsub, hnone⟩
  · exact hmatched
  · -- the rule refused the entity, so its id is bound, and then to itself
    obtain ⟨id, a, hpath, -, -⟩ := h.found e (hperm.mem_iff.mp hmem)
    have hbound : id ∈ st'.boundIds := by
      unfold exactRule at hnone
      rw [hpath] at hnone
      dsimp only at hnone
      split at hnone
      · assumption
      · cases hnone
    obtain ⟨x, hx, hxid⟩ := (ht.bound id).mp (hsub hbound)
    have hxpath := byPath_of_exact (ht.justified x hx) (hexact x hx)
    rw [hxid] at hxpath
    have hposition := ht.position x hx
    have hentity : x.entity = e := List.inj_on_of_nodup_map hdistinct
      (List.mem_of_getElem? hposition) hmem (hl.path_injective hxpath hpath)
    rw [hentity] at hposition
    have hidx : x.idx = i :=
      (List.getElem?_inj (List.getElem?_eq_some_iff.mp hposition).1 (hdistinct.of_map _)).mp
        (hposition.trans he.symm)
    exact (ht.matched i).mpr ⟨x, hx, hidx⟩

/-- The other passes find nothing to do. -/
theorem matchEntities_unmoved (hl : r.Linked) (h : Unmoved r scope entities)
    (iter : HashOrder DurableId) (mint : ℕ → DurableId) :
    matchEntities iter mint r scope (sortEntities entities) =
      matchPass (exactRule r) (sortEntities entities) Matching.start := by
  have hall := matched_exactPass hl h
  unfold matchEntities
  dsimp only
  rw [matchPass_of_matched hall, matchPass_of_matched hall, matchPass_of_matched hall]

/-- What the reconciliation of unmoved entities does, whatever the supply of
ids: every entry is the anchor of its path. -/
theorem outcome_of_unmoved (hl : r.Linked) (h : Unmoved r scope entities)
    (iter : HashOrder DurableId) (mint : ℕ → DurableId) (revision : Revision) :
    ∃ mint' plan, Outcome mint' r entities revision scope
        (reconcileImpl iter mint r entities revision scope) plan ∧
      ∀ x ∈ plan, r.byPath.lookup x.entity.qualifiedPath = some x.id ∧
        x.binding.isMinted = false := by
  obtain ⟨mint', hfresh⟩ := exists_fresh r
  obtain ⟨plan, ho⟩ := reconcileImpl_outcome hl hfresh iter h.distinct revision scope
  have hsame : reconcileImpl iter mint r entities revision scope =
      reconcileImpl iter mint' r entities revision scope := by
    unfold reconcileImpl
    dsimp only
    rw [matchEntities_unmoved hl h, matchEntities_unmoved hl h]
  rw [hsame]
  refine ⟨mint', plan, ho, fun x hx => ?_⟩
  have hentity : x.entity ∈ entities := by
    rw [← (sortEntities_perm entities).mem_iff, ← ho.entities]
    exact List.mem_map_of_mem hx
  obtain ⟨id, a, hpath, -, -⟩ := h.found x.entity hentity
  obtain ⟨hid, hexact⟩ := ho.indexed x hx id hpath
  rw [hid]
  refine ⟨hpath, ?_⟩
  cases hb : x.binding with
  | exact id oldHash => rfl
  | moved id oldPath oldHash => rfl
  | struct id confidence oldHash => rfl
  | minted id =>
    rw [hb] at hexact
    cases hexact

end Matching

/-! ## The registry afterwards -/

/-- Two registries tell the same about paths, locations and orphans. -/
structure SamePlaces (r s : IdentityRegistry) : Prop where
  /-- The same id under each path. -/
  byPath : ∀ q, s.byPath.lookup q = r.byPath.lookup q
  /-- The same location of each id. -/
  located : ∀ id, (s.get id).map Anchor.qualifiedPath = (r.get id).map Anchor.qualifiedPath
  /-- The same orphans. -/
  orphaned : ∀ id, s.statusOf id = some .orphaned ↔ r.statusOf id = some .orphaned

/-- The same places one after another. -/
theorem SamePlaces.trans {r s t : IdentityRegistry} (h : SamePlaces r s) (h' : SamePlaces s t) :
    SamePlaces r t where
  byPath q := (h'.byPath q).trans (h.byPath q)
  located id := (h'.located id).trans (h.located id)
  orphaned id := (h'.orphaned id).trans (h.orphaned id)

/-- The same anchors are known. -/
theorem SamePlaces.keys_eq {r s : IdentityRegistry} (h : SamePlaces r s) :
    s.byId.keys = r.byId.keys := by
  ext id
  have hlocated := congrArg Option.isSome (h.located id)
  rw [Option.isSome_map, Option.isSome_map] at hlocated
  rw [mem_keys_iff, mem_keys_iff, ← Option.isSome_iff_exists, ← Option.isSome_iff_exists]
  exact Bool.eq_iff_iff.mp hlocated

section Afterwards

variable {mint : ℕ → DurableId} {r : IdentityRegistry} {scope : Option (Finset String)}
  {entities : List Entity} {revision : Revision} {out : Reconciliation × IdentityRegistry}
  {plan : List Bound}

/-- No anchor vanishes. -/
theorem not_vanished_of_unmoved (h : Unmoved r scope entities)
    (ho : Outcome mint r entities revision scope out plan) (id : DurableId) :
    vanished scope (claimed plan) r id ≠ true := by
  intro hv
  obtain ⟨hfree, hscope, a, ha, hlive⟩ := vanished_iff.mp hv
  obtain ⟨e, he, hpath⟩ := h.kept id a ha hlive hscope
  have hplanned : e ∈ plan.map Bound.entity := by
    rw [ho.entities]
    exact (sortEntities_perm entities).mem_iff.mpr he
  obtain ⟨x, hx, hxe⟩ := List.mem_map.mp hplanned
  rw [← hxe] at hpath
  exact hfree (mem_claimed.mpr ⟨x, hx, (ho.indexed x hx id hpath).1⟩)

/-- A bound anchor stays at its path, live, with the hash of its entity. -/
theorem get_bound_of_unmoved (hl : r.Linked)
    (ho : Outcome mint r entities revision scope out plan) {x : Bound} (hx : x ∈ plan)
    (hpath : r.byPath.lookup x.entity.qualifiedPath = some x.id) :
    ∃ a a', r.get x.id = some a ∧ out.2.get x.id = some a' ∧
      a.qualifiedPath = x.entity.qualifiedPath ∧ a'.qualifiedPath = x.entity.qualifiedPath ∧
      a'.contentHash = x.entity.contentHash ∧ a'.status ≠ .orphaned := by
  obtain ⟨a, ha, hapath⟩ := hl.path_anchor _ _ hpath
  obtain ⟨a', ha', hpath', hhash', hlive'⟩ := ho.get_bound_live hx
  exact ⟨a, a', ha, ha', hapath, hpath', hhash', hlive'⟩

/-- Any other anchor stays as it is. -/
theorem get_other_of_unmoved (h : Unmoved r scope entities)
    (ho : Outcome mint r entities revision scope out plan) {id : DurableId}
    (hid : id ∉ claimed plan) : out.2.get id = r.get id := by
  rw [ho.get_other id hid, if_neg (not_vanished_of_unmoved h ho id)]

/-- The path an unmoved entry gives up is its own. -/
theorem givenUp_of_unmoved (hl : r.Linked) {y : Bound}
    (hpath : r.byPath.lookup y.entity.qualifiedPath = some y.id)
    (hminted : y.binding.isMinted = false) : givenUp r y = some y.entity.qualifiedPath := by
  obtain ⟨a, ha, hapath⟩ := hl.path_anchor _ _ hpath
  unfold givenUp
  rw [hminted, ha]
  exact congrArg some hapath

/-- Every path keeps its holder. -/
theorem byPath_of_unmoved (hl : r.Linked) (h : Unmoved r scope entities)
    (ho : Outcome mint r entities revision scope out plan)
    (hplan : ∀ x ∈ plan, r.byPath.lookup x.entity.qualifiedPath = some x.id ∧
      x.binding.isMinted = false) (q : String) :
    out.2.byPath.lookup q = r.byPath.lookup q := by
  have hvanished : ∀ q, ¬VanishedPath scope plan r q := by
    rintro q ⟨id, hv, -⟩
    exact not_vanished_of_unmoved h ho id hv
  have hgiven : ∀ y ∈ plan, givenUp r y = some y.entity.qualifiedPath := fun y hy =>
    givenUp_of_unmoved hl (hplan y hy).1 (hplan y hy).2
  by_cases htaken : ∃ x ∈ plan, x.entity.qualifiedPath = q
  · obtain ⟨x, hx, hxq⟩ := htaken
    rw [← hxq, (hplan x hx).1, ho.byPath_taken x hx]
    refine ⟨rfl, hvanished _, ?_⟩
    rintro ⟨y, hy, hlt, hgive⟩
    rw [hgiven y hy, Option.some_inj] at hgive
    exact absurd hgive.symm hlt.ne
  · have hfree : ∀ x ∈ plan, x.entity.qualifiedPath ≠ q := fun x hx hxq => htaken ⟨x, hx, hxq⟩
    ext id
    rw [ho.byPath_other q hfree id]
    refine ⟨fun hkept => hkept.1, fun hpath => ⟨hpath, hvanished q, ?_⟩⟩
    rintro ⟨y, hy, hgive⟩
    rw [hgiven y hy, Option.some_inj] at hgive
    exact hfree y hy hgive

end Afterwards

/-- The reconciliation of unmoved entities keeps all places; a live anchor has
the hash of its entity or the one it had. -/
theorem reconcileImpl_unmoved {r : IdentityRegistry} (hl : r.Linked)
    {scope : Option (Finset String)} {entities : List Entity} (h : Unmoved r scope entities)
    (iter : HashOrder DurableId) (mint : ℕ → DurableId) (revision : Revision) :
    SamePlaces r (reconcileImpl iter mint r entities revision scope).2 ∧
      (∀ e ∈ entities, ∀ id, r.byPath.lookup e.qualifiedPath = some id →
        ∃ a', (reconcileImpl iter mint r entities revision scope).2.get id = some a' ∧
          a'.contentHash = e.contentHash) ∧
      ∀ id, (∀ e ∈ entities, r.byPath.lookup e.qualifiedPath ≠ some id) →
        (reconcileImpl iter mint r entities revision scope).2.get id = r.get id := by
  obtain ⟨mint', plan, ho, hplan⟩ := outcome_of_unmoved hl h iter mint revision
  have hentity : ∀ e ∈ entities, ∃ x ∈ plan, x.entity = e := by
    intro e he
    have hplanned : e ∈ plan.map Bound.entity := by
      rw [ho.entities]
      exact (sortEntities_perm entities).mem_iff.mpr he
    exact List.mem_map.mp hplanned
  have hmem : ∀ x ∈ plan, x.entity ∈ entities := by
    intro x hx
    rw [← (sortEntities_perm entities).mem_iff, ← ho.entities]
    exact List.mem_map_of_mem hx
  refine ⟨⟨byPath_of_unmoved hl h ho hplan, fun id => ?_, fun id => ?_⟩, ?_, ?_⟩
  · by_cases hclaimed : id ∈ claimed plan
    · obtain ⟨x, hx, hxid⟩ := mem_claimed.mp hclaimed
      obtain ⟨a, a', ha, ha', hpath, hpath', -, -⟩ := get_bound_of_unmoved hl ho hx (hplan x hx).1
      rw [← hxid, ha, ha', Option.map_some, Option.map_some, hpath, hpath']
    · rw [get_other_of_unmoved h ho hclaimed]
  · by_cases hclaimed : id ∈ claimed plan
    · obtain ⟨x, hx, hxid⟩ := mem_claimed.mp hclaimed
      obtain ⟨-, a', -, ha', -, -, -, hlive'⟩ := get_bound_of_unmoved hl ho hx (hplan x hx).1
      obtain ⟨id', a, hpath, ha, hlive⟩ := h.found x.entity (hmem x hx)
      rw [(hplan x hx).1] at hpath
      cases hpath
      unfold IdentityRegistry.statusOf
      rw [← hxid, ha, ha']
      simp [hlive, hlive']
    · unfold IdentityRegistry.statusOf
      rw [get_other_of_unmoved h ho hclaimed]
  · intro e he id hid
    obtain ⟨x, hx, hxe⟩ := hentity e he
    rw [← hxe] at hid ⊢
    obtain ⟨-, a', -, ha', -, -, hhash, -⟩ := get_bound_of_unmoved hl ho hx (hplan x hx).1
    rw [(hplan x hx).1] at hid
    cases hid
    exact ⟨a', ha', hhash⟩
  · intro id hfree
    apply get_other_of_unmoved h ho
    intro hclaimed
    obtain ⟨x, hx, hxid⟩ := mem_claimed.mp hclaimed
    rw [← hxid] at hfree
    exact hfree x.entity (hmem x hx) (hplan x hx).1

end Tyo3.UnmovedEntities
