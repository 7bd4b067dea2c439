import Tyo3.IdentityMatching

/-!
# The registry after a reconciliation

Applying the bindings, flagging the reviews and retiring the vanished
anchors are three loops over the registry. For entities of pairwise
different paths their joint effect is a closed description: what the anchor
of a bound id becomes, what happens to the others, and who holds each path
entry in the end. Soundness of the indexes needs no such condition.
-/

namespace Tyo3.IdentityPostState

open Entities FiniteMaps IdentityAnchors IdentityMatching IdentityReconciliation

/-! ## Soundness along the three loops -/

/-- Applying one binding keeps the indexes sound. -/
theorem applyBinding_sound {r : IdentityRegistry} (hs : r.Sound) (revision : Revision)
    (needsReview : List DurableId) (e : Entity) (b : Binding) :
    (applyBinding revision needsReview r e b).Sound := by
  have hbound := hs.rebind b.id e.qualifiedPath e.contentHash revision
  unfold applyBinding
  split
  · exact hs.insert _
  · dsimp only
    split
    · exact hbound
    · exact hbound.setStatus _ _

/-- Applying all bindings keeps the indexes sound. -/
theorem applyBindings_sound {r : IdentityRegistry} (hs : r.Sound) (revision : Revision)
    (st : Matching) (sorted : List Entity) : (applyBindings revision st sorted r).Sound := by
  unfold applyBindings
  induction sorted generalizing r with
  | nil => exact hs
  | cons e sorted ih =>
    rw [List.foldl_cons]
    apply ih
    split
    · exact hs
    · exact applyBinding_sound hs revision _ e _

/-- Flagging reviews keeps the indexes sound. -/
theorem flagNeedsReview_sound {r : IdentityRegistry} (hs : r.Sound) (needsReview : List DurableId) :
    (flagNeedsReview needsReview r).Sound := by
  unfold flagNeedsReview
  induction needsReview generalizing r with
  | nil => exact hs
  | cons id needsReview ih => exact ih (hs.setStatus id _)

/-- A step of the retirement loop keeps the indexes sound. -/
theorem retireStep_sound {acc : List DurableId × IdentityRegistry} (hs : acc.2.Sound)
    (revision : Revision) (scope : Option (Finset String)) (boundIds : Finset DurableId)
    (id : DurableId) : (retireStep revision scope boundIds acc id).2.Sound := by
  unfold retireStep
  split
  · exact hs
  · split
    · exact hs
    · split
      · exact hs
      · exact hs.retire id revision

/-- Every reconciliation keeps the indexes sound, whatever the entities. -/
theorem reconcileImpl_sound {r : IdentityRegistry} (hs : r.Sound) (iter : HashOrder DurableId)
    (mint : ℕ → DurableId) (entities : List Entity) (revision : Revision)
    (scope : Option (Finset String)) :
    (reconcileImpl iter mint r entities revision scope).2.Sound := by
  have happly := applyBindings_sound hs revision
    (matchEntities iter mint r scope (sortEntities entities)) (sortEntities entities)
  have hflag := flagNeedsReview_sound happly
    (matchEntities iter mint r scope (sortEntities entities)).needsReview
  unfold reconcileImpl retireVanished
  dsimp only
  generalize flagNeedsReview (matchEntities iter mint r scope (sortEntities entities)).needsReview
    (applyBindings revision (matchEntities iter mint r scope (sortEntities entities))
      (sortEntities entities) r) = flagged at hflag ⊢
  have hrun : ∀ (ids : List DurableId) (acc : List DurableId × IdentityRegistry), acc.2.Sound →
      (ids.foldl (retireStep revision scope
        (matchEntities iter mint r scope (sortEntities entities)).boundIds) acc).2.Sound := by
    intro ids
    induction ids with
    | nil => exact fun _ h => h
    | cons id ids ih => exact fun acc h => ih _ (retireStep_sound h revision scope _ id)
  exact hrun _ _ hflag

/-! ## The bindings as a plan in path order -/

/-- Sorting keeps the entities. -/
theorem sortEntities_perm (entities : List Entity) : (sortEntities entities).Perm entities :=
  List.perm_insertionSort _ entities

/-- The path order of entities is total. -/
theorem entityLe_total (a b : Entity) : entityLe a b = true ∨ entityLe b a = true := by
  simp only [entityLe, decide_eq_true_eq]
  rcases lt_trichotomy a.qualifiedPath b.qualifiedPath with h | h | h
  · exact Or.inl (Or.inl h)
  · rcases le_total a.contentHash b.contentHash with hc | hc
    · exact Or.inl (Or.inr ⟨h, hc⟩)
    · exact Or.inr (Or.inr ⟨h.symm, hc⟩)
  · exact Or.inr (Or.inl h)

/-- The path order of entities is transitive. -/
theorem entityLe_trans {a b c : Entity} (hab : entityLe a b = true) (hbc : entityLe b c = true) :
    entityLe a c = true := by
  simp only [entityLe, decide_eq_true_eq] at hab hbc ⊢
  rcases hab with hab | ⟨hab, hab'⟩
  · rcases hbc with hbc | ⟨hbc, -⟩
    · exact Or.inl (hab.trans hbc)
    · exact Or.inl (hbc ▸ hab)
  · rcases hbc with hbc | ⟨hbc, hbc'⟩
    · exact Or.inl (hab ▸ hbc)
    · exact Or.inr ⟨hab.trans hbc, hab'.trans hbc'⟩

/-- Entities of pairwise different paths are sorted strictly by path. -/
theorem sortEntities_strict {entities : List Entity}
    (hd : (entities.map Entity.qualifiedPath).Nodup) :
    (sortEntities entities).Pairwise fun a b => a.qualifiedPath < b.qualifiedPath := by
  have : Std.Total fun a b => entityLe a b = true := ⟨entityLe_total⟩
  have : IsTrans Entity fun a b => entityLe a b = true := ⟨fun _ _ _ => entityLe_trans⟩
  have hle := List.pairwise_insertionSort (fun a b => entityLe a b = true) entities
  have hnd : ((sortEntities entities).map Entity.qualifiedPath).Nodup :=
    ((sortEntities_perm entities).map _).nodup_iff.mpr hd
  have hne := List.pairwise_map.mp hnd
  refine (hle.and hne).imp ?_
  rintro a b ⟨hab, hne⟩
  simp only [entityLe, decide_eq_true_eq] at hab
  rcases hab with hab | ⟨hab, -⟩
  · exact hab
  · exact (hne hab).elim

/-- Two entities of one path are one entity when the paths are distinct. -/
theorem eq_of_path_eq {sorted : List Entity} (hd : (sorted.map Entity.qualifiedPath).Nodup)
    {a b : Entity} (ha : a ∈ sorted) (hb : b ∈ sorted) (h : a.qualifiedPath = b.qualifiedPath) :
    a = b :=
  List.inj_on_of_nodup_map hd ha hb h

/-- The log in path order: one entry for every entity, whose binding is the
one the apply loop finds under the path. -/
structure Plan (st : Matching) (sorted : List Entity) (log plan : List Bound) : Prop where
  /-- One entry per entity, in path order. -/
  entities : plan.map Bound.entity = sorted
  /-- The plan has the entries of the log. -/
  mem_iff : ∀ x, x ∈ plan ↔ x ∈ log
  /-- The apply loop reads the binding of the entry. -/
  stored : ∀ x ∈ plan, st.bindingsByPath.lookup x.entity.qualifiedPath = some x.binding
  /-- No id twice. -/
  distinct : (plan.map Bound.id).Nodup

/-- Entities of pairwise different paths have a plan. -/
theorem exists_plan {mint : ℕ → DurableId} {r : IdentityRegistry}
    {scope : Option (Finset String)} {sorted : List Entity} {st : Matching} {log : List Bound}
    (ht : Tracks mint r scope sorted st log)
    (hall : ∀ i e, sorted[i]? = some e → ∃ x ∈ log, x.idx = i)
    (hd : (sorted.map Entity.qualifiedPath).Nodup) : ∃ plan, Plan st sorted log plan := by
  have hnodup : sorted.Nodup := hd.of_map _
  have hentity : ∀ x ∈ log, x.entity ∈ sorted := fun x hx => List.mem_of_getElem? (ht.position x hx)
  have hchoice : ∀ e ∈ sorted, ∃ x ∈ log, x.entity = e ∧
      st.bindingsByPath.lookup e.qualifiedPath = some x.binding := by
    intro e he
    obtain ⟨i, hi⟩ := List.getElem?_of_mem he
    obtain ⟨y, hy, hyi⟩ := hall i e hi
    have hye : y.entity = e := by
      have hpos := ht.position y hy
      rw [hyi, hi] at hpos
      exact (Option.some.inj hpos).symm
    obtain ⟨b, hb⟩ := ht.path_known y hy
    obtain ⟨x, hx, hxp, hxb⟩ := ht.by_path _ b hb
    have hxe : x.entity = e := eq_of_path_eq hd (hentity x hx) he (hye ▸ hxp)
    refine ⟨x, hx, hxe, ?_⟩
    rw [hxb, ← hye]
    exact hb
  have hsame : ∀ x ∈ log, ∀ y ∈ log, x.entity = y.entity → x = y := by
    intro x hx y hy hxy
    have hpx := ht.position x hx
    have hpy := ht.position y hy
    rw [← hxy] at hpy
    have hidx : x.idx = y.idx := by
      obtain ⟨hlx, hex⟩ := List.getElem?_eq_some_iff.mp hpx
      obtain ⟨hly, hey⟩ := List.getElem?_eq_some_iff.mp hpy
      exact (List.Nodup.getElem_inj_iff hnodup).mp (hex.trans hey.symm)
    exact List.inj_on_of_nodup_map ht.once hx hy hidx
  choose! f hf using hchoice
  have hmem : ∀ x, x ∈ sorted.map f ↔ x ∈ log := by
    intro x
    rw [List.mem_map]
    constructor
    · rintro ⟨e, he, rfl⟩
      exact (hf e he).1
    · intro hx
      have he := hentity x hx
      exact ⟨x.entity, he, hsame _ (hf _ he).1 _ hx (hf _ he).2.1⟩
  refine ⟨sorted.map f, ⟨?_, hmem, ?_, ?_⟩⟩
  · rw [List.map_map]
    conv_rhs => rw [← List.map_id sorted]
    exact List.map_congr_left fun e he => (hf e he).2.1
  · intro x hx
    obtain ⟨e, he, rfl⟩ := List.mem_map.mp hx
    rw [(hf e he).2.1]
    exact (hf e he).2.2
  · have hpn : (sorted.map f).Nodup := by
      refine List.Nodup.map_on ?_ hnodup
      intro a ha b hb hab
      have h := congrArg Bound.entity hab
      rwa [(hf a ha).2.1, (hf b hb).2.1] at h
    refine List.Nodup.map_on ?_ hpn
    intro x hx y hy hxy
    exact List.inj_on_of_nodup_map ht.distinct ((hmem x).mp hx) ((hmem y).mp hy) hxy

/-- Run a plan on the registry. -/
def applyPlan (revision : Revision) (needsReview : List DurableId) (plan : List Bound)
    (r : IdentityRegistry) : IdentityRegistry :=
  plan.foldl (fun r x => applyBinding revision needsReview r x.entity x.binding) r

/-- The apply loop runs the plan. -/
theorem applyBindings_eq_applyPlan {st : Matching} {sorted : List Entity} {log plan : List Bound}
    (hp : Plan st sorted log plan) (revision : Revision) (r : IdentityRegistry) :
    applyBindings revision st sorted r = applyPlan revision st.needsReview plan r := by
  have hstored := hp.stored
  unfold applyBindings applyPlan
  rw [← hp.entities, List.foldl_map]
  clear hp
  induction plan generalizing r with
  | nil => rfl
  | cons x plan ih =>
    have hx := hstored x List.mem_cons_self
    rw [List.foldl_cons, List.foldl_cons, hx]
    exact ih _ (fun y hy => hstored y (List.mem_cons_of_mem _ hy))

/-! ## Anchors and path entries along a plan -/

/-- The path an entry gives up: the path of its anchor before the
reconciliation, none for a minted id. -/
def givenUp (r : IdentityRegistry) (x : Bound) : Option String :=
  if x.binding.isMinted then none else (r.get x.id).map Anchor.qualifiedPath

/-- The anchor of a bound id once its binding was applied. -/
def appliedAnchor (revision : Revision) (needsReview : List DurableId) (x : Bound)
    (old : Option Anchor) : Option Anchor :=
  if x.binding.isMinted then some
    { id := x.id, qualifiedPath := x.entity.qualifiedPath, contentHash := x.entity.contentHash
      kind := x.entity.kind, firstSeenRev := revision, lastSeenRev := revision, status := .active }
  else old.map fun a =>
    { a with
      qualifiedPath := x.entity.qualifiedPath
      contentHash := x.entity.contentHash
      lastSeenRev := revision
      status := if x.id ∈ needsReview then a.status else .active }

/-- A plan fits a registry: no id twice, minted ids unknown, all others
known. -/
structure Fits (r : IdentityRegistry) (plan : List Bound) : Prop where
  /-- No id twice. -/
  distinct : (plan.map Bound.id).Nodup
  /-- A minted id has no anchor. -/
  minted : ∀ x ∈ plan, x.binding.isMinted = true → r.get x.id = none
  /-- Every other id has one. -/
  known : ∀ x ∈ plan, x.binding.isMinted = false → ∃ a, r.get x.id = some a

section Plans

variable (revision : Revision) (needsReview : List DurableId)

/-- Applying a binding changes the anchor of its id and no other. -/
theorem get_applyBinding (r : IdentityRegistry) (x : Bound) (id : DurableId) :
    (applyBinding revision needsReview r x.entity x.binding).get id =
      if id = x.id then appliedAnchor revision needsReview x (r.get x.id) else r.get id := by
  obtain ⟨idx, e, b, review⟩ := x
  have hknown : ∀ k : DurableId,
      (if k ∈ needsReview then r.rebind k e.qualifiedPath e.contentHash revision
        else (r.rebind k e.qualifiedPath e.contentHash revision).setStatus k .active).get id =
      if id = k then (r.get k).map (fun a =>
        { a with
          qualifiedPath := e.qualifiedPath
          contentHash := e.contentHash
          lastSeenRev := revision
          status := if k ∈ needsReview then a.status else .active }) else r.get id := by
    intro k
    by_cases hk : k ∈ needsReview
    · simp only [if_pos hk, IdentityRegistry.get_rebind]
    · by_cases h : id = k
      · simp only [if_neg hk, IdentityRegistry.get_setStatus, IdentityRegistry.get_rebind, if_pos h,
          if_true, Option.map_map, Function.comp_def]
      · simp only [if_neg hk, IdentityRegistry.get_setStatus, IdentityRegistry.get_rebind, if_neg h]
  cases b with
  | exact k oldHash => exact hknown k
  | moved k oldPath oldHash => exact hknown k
  | struct k confidence oldHash => exact hknown k
  | minted k => exact IdentityRegistry.get_insert r _ id

/-- Path entries after one binding: the new path is taken, the given-up path
is dropped unless it is the new one. -/
theorem byPath_applyBinding {r : IdentityRegistry} {x : Bound} {plan : List Bound}
    (hf : Fits r (x :: plan)) (q : String) :
    (applyBinding revision needsReview r x.entity x.binding).byPath.lookup q =
      if q = x.entity.qualifiedPath then some x.id
      else if givenUp r x = some q then none else r.byPath.lookup q := by
  have hm := hf.minted x List.mem_cons_self
  have hk := hf.known x List.mem_cons_self
  obtain ⟨idx, e, b, review⟩ := x
  have hknown : ∀ k : DurableId, (∃ a, r.get k = some a) →
      (if k ∈ needsReview then r.rebind k e.qualifiedPath e.contentHash revision
        else (r.rebind k e.qualifiedPath e.contentHash revision).setStatus k .active).byPath.lookup
          q =
      if q = e.qualifiedPath then some k
      else if (r.get k).map Anchor.qualifiedPath = some q then none else r.byPath.lookup q := by
    rintro k ⟨a, ha⟩
    have hrebind := IdentityRegistry.byPath_rebind ha e.qualifiedPath q e.contentHash revision
    have hgiven : (q = a.qualifiedPath) = ((r.get k).map Anchor.qualifiedPath = some q) := by
      rw [ha, Option.map_some, Option.some_inj]
      exact propext eq_comm
    simp only [hgiven] at hrebind
    by_cases hr : k ∈ needsReview
    · rw [if_pos hr, hrebind]
    · rw [if_neg hr]
      exact hrebind
  cases b with
  | exact k oldHash => exact hknown k (hk rfl)
  | moved k oldPath oldHash => exact hknown k (hk rfl)
  | struct k confidence oldHash => exact hknown k (hk rfl)
  | minted k =>
    refine (IdentityRegistry.byPath_insert (hm rfl) q).trans ?_
    simp only [givenUp, Binding.isMinted, if_true, reduceCtorEq, if_false]
    rfl

/-- The rest of a plan still fits after its first binding, and gives up the
same paths as before. -/
theorem Fits.tail {r : IdentityRegistry} {x : Bound} {plan : List Bound}
    (hf : Fits r (x :: plan)) :
    Fits (applyBinding revision needsReview r x.entity x.binding) plan ∧
      ∀ y ∈ plan, givenUp (applyBinding revision needsReview r x.entity x.binding) y =
        givenUp r y := by
  have hnd := List.nodup_cons.mp (List.map_cons ▸ hf.distinct)
  have hsame : ∀ y ∈ plan,
      (applyBinding revision needsReview r x.entity x.binding).get y.id = r.get y.id := by
    intro y hy
    have hne : y.id ≠ x.id := by
      intro h
      exact hnd.1 (h ▸ List.mem_map_of_mem hy)
    rw [get_applyBinding, if_neg hne]
  refine ⟨⟨hnd.2, ?_, ?_⟩, ?_⟩
  · intro y hy hy'
    rw [hsame y hy]
    exact hf.minted y (List.mem_cons_of_mem _ hy) hy'
  · intro y hy hy'
    rw [hsame y hy]
    exact hf.known y (List.mem_cons_of_mem _ hy) hy'
  · intro y hy
    unfold givenUp
    rw [hsame y hy]

/-- Ids outside the plan keep their anchors. -/
theorem get_applyPlan_of_not_mem {plan : List Bound} {id : DurableId}
    (hid : ∀ x ∈ plan, x.id ≠ id) (r : IdentityRegistry) :
    (applyPlan revision needsReview plan r).get id = r.get id := by
  induction plan generalizing r with
  | nil => rfl
  | cons x plan ih =>
    have htail := ih (fun y hy => hid y (List.mem_cons_of_mem _ hy))
      (applyBinding revision needsReview r x.entity x.binding)
    rw [get_applyBinding, if_neg (hid x List.mem_cons_self).symm] at htail
    exact htail

/-- An id of the plan has the anchor of its binding. -/
theorem get_applyPlan_of_mem {r : IdentityRegistry} {plan : List Bound} (hf : Fits r plan)
    {x : Bound} (hx : x ∈ plan) :
    (applyPlan revision needsReview plan r).get x.id =
      appliedAnchor revision needsReview x (r.get x.id) := by
  induction plan generalizing r with
  | nil => cases hx
  | cons y plan ih =>
    have hnd := List.nodup_cons.mp (List.map_cons ▸ hf.distinct)
    have hfits := (hf.tail revision needsReview).1
    rcases List.mem_cons.mp hx with rfl | hx
    · have hfresh : ∀ z ∈ plan, z.id ≠ x.id := by
        intro z hz h
        exact hnd.1 (h ▸ List.mem_map_of_mem hz)
      have hkeep := get_applyPlan_of_not_mem revision needsReview hfresh
        (applyBinding revision needsReview r x.entity x.binding)
      rw [get_applyBinding, if_pos rfl] at hkeep
      exact hkeep
    · have hne : x.id ≠ y.id := by
        intro h
        exact hnd.1 (h ▸ List.mem_map_of_mem hx)
      have htail := ih hfits hx
      rw [get_applyBinding, if_neg hne] at htail
      exact htail

/-- A path that no entry takes keeps its holder unless some entry gives it
up. -/
theorem byPath_applyPlan_of_untaken {r : IdentityRegistry} {plan : List Bound} (hf : Fits r plan)
    {q : String} (hq : ∀ x ∈ plan, x.entity.qualifiedPath ≠ q) :
    (applyPlan revision needsReview plan r).byPath.lookup q =
      if ∃ x ∈ plan, givenUp r x = some q then none else r.byPath.lookup q := by
  induction plan generalizing r with
  | nil => simp [applyPlan]
  | cons x plan ih =>
    obtain ⟨hfits, hsame⟩ := hf.tail revision needsReview
    have htail := ih hfits fun y hy => hq y (List.mem_cons_of_mem _ hy)
    have hhead := byPath_applyBinding revision needsReview hf q
    rw [if_neg (hq x List.mem_cons_self).symm] at hhead
    have hlater : (∃ y ∈ plan, givenUp (applyBinding revision needsReview r x.entity x.binding) y =
        some q) ↔ ∃ y ∈ plan, givenUp r y = some q := by
      constructor
      · rintro ⟨y, hy, h⟩
        exact ⟨y, hy, (hsame y hy).symm.trans h⟩
      · rintro ⟨y, hy, h⟩
        exact ⟨y, hy, (hsame y hy).trans h⟩
    refine htail.trans ?_
    rw [hhead]
    simp only [hlater, List.exists_mem_cons_iff]
    by_cases h1 : givenUp r x = some q
    · simp [h1]
    · simp [h1]

/-- A path that an entry takes is held by that entry, unless an entry further
down the path order gives it up. -/
theorem byPath_applyPlan_of_taken {r : IdentityRegistry} {plan : List Bound} (hf : Fits r plan)
    (hsorted : plan.Pairwise fun a b => a.entity.qualifiedPath < b.entity.qualifiedPath)
    {x : Bound} (hx : x ∈ plan) :
    (applyPlan revision needsReview plan r).byPath.lookup x.entity.qualifiedPath =
      if ∃ y ∈ plan, x.entity.qualifiedPath < y.entity.qualifiedPath ∧
          givenUp r y = some x.entity.qualifiedPath then none else some x.id := by
  induction plan generalizing r with
  | nil => cases hx
  | cons z plan ih =>
    obtain ⟨hfits, hsame⟩ := hf.tail revision needsReview
    obtain ⟨hz, hrest⟩ := List.pairwise_cons.mp hsorted
    rcases List.mem_cons.mp hx with rfl | hmem
    · have hhead := byPath_applyBinding revision needsReview hf x.entity.qualifiedPath
      have htail := byPath_applyPlan_of_untaken revision needsReview hfits
        (fun y hy => (hz y hy).ne')
      rw [hhead, if_pos rfl] at htail
      have hlater : (∃ y ∈ plan, givenUp (applyBinding revision needsReview r x.entity x.binding)
          y = some x.entity.qualifiedPath) ↔ ∃ y ∈ x :: plan,
            x.entity.qualifiedPath < y.entity.qualifiedPath ∧
            givenUp r y = some x.entity.qualifiedPath := by
        constructor
        · rintro ⟨y, hy, h⟩
          exact ⟨y, List.mem_cons_of_mem _ hy, hz y hy, (hsame y hy).symm.trans h⟩
        · rintro ⟨y, hy, hlt, h⟩
          rcases List.mem_cons.mp hy with rfl | hy
          · exact (lt_irrefl _ hlt).elim
          · exact ⟨y, hy, (hsame y hy).trans h⟩
      simp only [hlater] at htail
      exact htail
    · have htail := ih hfits hrest hmem
      have hlater : (∃ y ∈ plan, x.entity.qualifiedPath < y.entity.qualifiedPath ∧
          givenUp (applyBinding revision needsReview r z.entity z.binding) y =
            some x.entity.qualifiedPath) ↔ ∃ y ∈ z :: plan,
            x.entity.qualifiedPath < y.entity.qualifiedPath ∧
            givenUp r y = some x.entity.qualifiedPath := by
        constructor
        · rintro ⟨y, hy, hlt, h⟩
          exact ⟨y, List.mem_cons_of_mem _ hy, hlt, (hsame y hy).symm.trans h⟩
        · rintro ⟨y, hy, hlt, h⟩
          rcases List.mem_cons.mp hy with rfl | hy
          · exact (lt_asymm hlt (hz x hmem)).elim
          · exact ⟨y, hy, hlt, (hsame y hy).trans h⟩
      simp only [hlater] at htail
      exact htail

end Plans

/-! ## Review flags -/

/-- Flagging sets the status of the flagged ids. -/
theorem get_flagNeedsReview (needsReview : List DurableId) (r : IdentityRegistry)
    (id : DurableId) :
    (flagNeedsReview needsReview r).get id =
      if id ∈ needsReview then (r.get id).map fun a => { a with status := .needsReview }
      else r.get id := by
  unfold flagNeedsReview
  induction needsReview generalizing r with
  | nil => simp
  | cons k needsReview ih =>
    rw [List.foldl_cons, ih, IdentityRegistry.get_setStatus]
    by_cases h : id = k
    · subst h
      rw [if_pos rfl, if_pos List.mem_cons_self, Option.map_map]
      by_cases h' : id ∈ needsReview
      · rw [if_pos h']
        rfl
      · rw [if_neg h']
    · rw [if_neg h]
      simp only [List.mem_cons, h, false_or]

/-- Flagging leaves both indexes alone. -/
theorem byPath_flagNeedsReview (needsReview : List DurableId) (r : IdentityRegistry) :
    (flagNeedsReview needsReview r).byPath = r.byPath := by
  unfold flagNeedsReview
  induction needsReview generalizing r with
  | nil => rfl
  | cons k needsReview ih => exact ih _

/-! ## Retirement -/

/-- Whether the retirement loop orphans an id: no entity claimed it, it lies
in scope and it is live. -/
def vanished (scope : Option (Finset String)) (boundIds : Finset DurableId)
    (r : IdentityRegistry) (id : DurableId) : Bool :=
  decide (id ∉ boundIds) && anchorInScope r id scope &&
    match r.get id with
    | some a => decide (a.status ≠ .orphaned)
    | none => false

/-- An anchor after its retirement. -/
def orphan (revision : Revision) (a : Anchor) : Anchor :=
  { a with lastSeenRev := revision, status := .orphaned }

/-- What makes an id vanish, spelled out. -/
theorem vanished_iff {scope : Option (Finset String)} {boundIds : Finset DurableId}
    {r : IdentityRegistry} {id : DurableId} :
    vanished scope boundIds r id = true ↔ id ∉ boundIds ∧ anchorInScope r id scope = true ∧
      ∃ a, r.get id = some a ∧ a.status ≠ .orphaned := by
  unfold vanished
  cases hg : r.get id with
  | none => simp
  | some a => simp [and_assoc]

/-- Whether an id vanishes depends on its own anchor only. -/
theorem vanished_congr {scope : Option (Finset String)} {boundIds : Finset DurableId}
    {r s : IdentityRegistry} {id : DurableId} (h : s.get id = r.get id) :
    vanished scope boundIds s id = vanished scope boundIds r id := by
  unfold vanished anchorInScope
  rw [h]

section Retirement

variable (revision : Revision) (scope : Option (Finset String)) (boundIds : Finset DurableId)

/-- The loop body on a stored id. -/
theorem retireStep_eq {acc : List DurableId × IdentityRegistry} {id : DurableId} {a : Anchor}
    (ha : acc.2.get id = some a) :
    retireStep revision scope boundIds acc id =
      if vanished scope boundIds acc.2 id = true then (acc.1 ++ [id], acc.2.retire id revision)
      else acc := by
  unfold retireStep vanished IdentityRegistry.statusOf
  simp only [ha, Option.map_some, Option.some_inj]
  by_cases hb : id ∈ boundIds
  · simp [hb]
  · by_cases hs : anchorInScope acc.2 id scope = false
    · simp [hb, hs]
    · by_cases ho : a.status = .orphaned
      · simp [hb, ho]
      · simp [hb, hs, ho]

/-- Outcome of the retirement loop over a list of stored ids: the vanished
ids are reported in loop order and orphaned, their path entries are dropped
and everything else stays. -/
theorem foldl_retireStep (ids : List DurableId) (hnd : ids.Nodup)
    (acc : List DurableId × IdentityRegistry) (hknown : ∀ id ∈ ids, ∃ a, acc.2.get id = some a) :
    (ids.foldl (retireStep revision scope boundIds) acc).1 =
        acc.1 ++ ids.filter (vanished scope boundIds acc.2) ∧
      (∀ id, (ids.foldl (retireStep revision scope boundIds) acc).2.get id =
        if id ∈ ids ∧ vanished scope boundIds acc.2 id = true then
          (acc.2.get id).map (orphan revision) else acc.2.get id) ∧
      ∀ q, (ids.foldl (retireStep revision scope boundIds) acc).2.byPath.lookup q =
        if ∃ id ∈ ids, vanished scope boundIds acc.2 id = true ∧
            (acc.2.get id).map Anchor.qualifiedPath = some q then none
        else acc.2.byPath.lookup q := by
  induction ids generalizing acc with
  | nil => simp
  | cons k ids ih =>
    obtain ⟨hk, hrest⟩ := List.nodup_cons.mp hnd
    obtain ⟨a, ha⟩ := hknown k List.mem_cons_self
    rw [List.foldl_cons, retireStep_eq revision scope boundIds ha]
    by_cases hv : vanished scope boundIds acc.2 k = true
    · have hlive : a.status ≠ .orphaned := by
        obtain ⟨-, -, b, hb, hlive⟩ := vanished_iff.mp hv
        rw [ha] at hb
        cases hb
        exact hlive
      have hget : ∀ id, (acc.2.retire k revision).get id =
          if id = k then some (orphan revision a) else acc.2.get id := by
        intro id
        rw [IdentityRegistry.get_retire, ha, Option.map_some, if_neg hlive]
        rfl
      have hother : ∀ id ∈ ids, (acc.2.retire k revision).get id = acc.2.get id := by
        intro id hid
        have hne : id ≠ k := fun h => hk (h ▸ hid)
        rw [hget, if_neg hne]
      have hsame : ∀ id ∈ ids, vanished scope boundIds (acc.2.retire k revision) id =
          vanished scope boundIds acc.2 id := fun id hid => vanished_congr (hother id hid)
      obtain ⟨h1, h2, h3⟩ := ih hrest (acc.1 ++ [k], acc.2.retire k revision) (by
        intro id hid
        rw [hother id hid]
        exact hknown id (List.mem_cons_of_mem _ hid))
      rw [if_pos hv]
      refine ⟨?_, ?_, ?_⟩
      · rw [h1, List.filter_cons_of_pos hv, List.filter_congr hsame, List.append_assoc]
        rfl
      · intro id
        rw [h2]
        dsimp only
        by_cases hidk : id = k
        · subst hidk
          rw [if_neg (fun h => hk h.1), hget, if_pos rfl,
            if_pos ⟨List.mem_cons_self, hv⟩, ha]
          rfl
        · have hiff : (id ∈ ids ∧ vanished scope boundIds (acc.2.retire k revision) id = true) ↔
              id ∈ k :: ids ∧ vanished scope boundIds acc.2 id = true := by
            constructor
            · rintro ⟨hid, h⟩
              exact ⟨List.mem_cons_of_mem _ hid, hsame id hid ▸ h⟩
            · rintro ⟨hid, h⟩
              have hid' := (List.mem_cons.mp hid).resolve_left hidk
              exact ⟨hid', (hsame id hid').symm ▸ h⟩
          simp only [hiff, hget, if_neg hidk]
      · intro q
        rw [h3]
        dsimp only
        rw [IdentityRegistry.byPath_retire ha hlive]
        have hiff : (∃ id ∈ ids, vanished scope boundIds (acc.2.retire k revision) id = true ∧
            ((acc.2.retire k revision).get id).map Anchor.qualifiedPath = some q) ↔
            ∃ id ∈ ids, vanished scope boundIds acc.2 id = true ∧
              (acc.2.get id).map Anchor.qualifiedPath = some q := by
          constructor
          · rintro ⟨id, hid, h, hq⟩
            exact ⟨id, hid, hsame id hid ▸ h, hother id hid ▸ hq⟩
          · rintro ⟨id, hid, h, hq⟩
            exact ⟨id, hid, (hsame id hid).symm ▸ h, (hother id hid).symm ▸ hq⟩
        simp only [hiff, List.exists_mem_cons_iff, hv, ha, Option.map_some, Option.some_inj,
          true_and]
        by_cases hq : q = a.qualifiedPath
        · simp [hq]
        · simp [hq, Ne.symm hq]
    · obtain ⟨h1, h2, h3⟩ := ih hrest acc fun id hid => hknown id (List.mem_cons_of_mem _ hid)
      rw [if_neg hv]
      refine ⟨?_, ?_, ?_⟩
      · rw [h1, List.filter_cons_of_neg hv]
      · intro id
        rw [h2]
        by_cases hidk : id = k
        · subst hidk
          rw [if_neg (fun h => hk h.1), if_neg (fun h => hv h.2)]
        · simp only [List.mem_cons, hidk, false_or]
      · intro q
        rw [h3]
        simp only [List.exists_mem_cons_iff, hv, Bool.false_eq_true, false_and, false_or]

end Retirement

/-! ## The whole reconciliation -/

/-- The anchor of a bound id after the reconciliation: live, with the path
and hash of its entity. -/
def boundAnchor (revision : Revision) (x : Bound) (old : Option Anchor) : Option Anchor :=
  if x.binding.isMinted then some
    { id := x.id, qualifiedPath := x.entity.qualifiedPath, contentHash := x.entity.contentHash
      kind := x.entity.kind, firstSeenRev := revision, lastSeenRev := revision, status := .active }
  else old.map fun a =>
    { a with
      qualifiedPath := x.entity.qualifiedPath
      contentHash := x.entity.contentHash
      lastSeenRev := revision
      status := if x.review then .needsReview else .active }

/-- The ids of a plan. -/
def claimed (plan : List Bound) : Finset DurableId := (plan.map Bound.id).toFinset

/-- An id is claimed when some entry carries it. -/
theorem mem_claimed {plan : List Bound} {id : DurableId} :
    id ∈ claimed plan ↔ ∃ x ∈ plan, x.id = id := by
  unfold claimed
  rw [List.mem_toFinset, List.mem_map]

/-- A path whose anchor no entry claims and that is retired. -/
def VanishedPath (scope : Option (Finset String)) (plan : List Bound) (r : IdentityRegistry)
    (q : String) : Prop :=
  ∃ id, vanished scope (claimed plan) r id = true ∧
    (r.get id).map Anchor.qualifiedPath = some q

/-- Everything a reconciliation does, in terms of the registry before it and
of one entry per entity in path order. -/
structure Outcome (mint : ℕ → DurableId) (r : IdentityRegistry) (entities : List Entity)
    (revision : Revision) (scope : Option (Finset String))
    (out : Reconciliation × IdentityRegistry) (plan : List Bound) : Prop where
  /-- One entry per entity, in path order. -/
  entities : plan.map Bound.entity = sortEntities entities
  /-- Paths increase along the plan. -/
  sorted : plan.Pairwise fun a b => a.entity.qualifiedPath < b.entity.qualifiedPath
  /-- The reported bindings are the entries, in another order. -/
  bindings : out.1.bindings.Perm (plan.map fun x => (x.entity.qualifiedPath, x.binding))
  /-- No id twice, minted ids unknown, all others known. -/
  fits : Fits r plan
  /-- Every entry has its reason in the registry. -/
  justified : ∀ x ∈ plan, Justified mint r scope x.entity x.review x.binding
  /-- An entity whose path is indexed is bound to the holder of the path. -/
  indexed : ∀ x ∈ plan, ∀ id, r.byPath.lookup x.entity.qualifiedPath = some id →
    x.id = id ∧ x.binding.isExact = true
  /-- A bound id becomes live with the facts of its entity. -/
  get_bound : ∀ x ∈ plan, out.2.get x.id = boundAnchor revision x (r.get x.id)
  /-- Any other id is retired when it vanished and keeps its anchor if not. -/
  get_other : ∀ id, id ∉ claimed plan → out.2.get id =
    if vanished scope (claimed plan) r id = true then (r.get id).map (orphan revision)
    else r.get id
  /-- The reported retirements are the vanished ids. -/
  retired : ∀ id, id ∈ out.1.retired ↔ vanished scope (claimed plan) r id = true
  /-- The path of an entity is held by its id, unless an entry further down
  gives it up or a vanished anchor has it. -/
  byPath_taken : ∀ x ∈ plan, ∀ id, out.2.byPath.lookup x.entity.qualifiedPath = some id ↔
    id = x.id ∧ ¬VanishedPath scope plan r x.entity.qualifiedPath ∧
      ¬∃ y ∈ plan, x.entity.qualifiedPath < y.entity.qualifiedPath ∧
        givenUp r y = some x.entity.qualifiedPath
  /-- Any other path keeps its holder, unless an entry gives it up or a
  vanished anchor has it. -/
  byPath_other : ∀ q, (∀ x ∈ plan, x.entity.qualifiedPath ≠ q) → ∀ id,
    out.2.byPath.lookup q = some id ↔ r.byPath.lookup q = some id ∧
      ¬VanishedPath scope plan r q ∧ ¬∃ y ∈ plan, givenUp r y = some q

/-- A bound anchor exists, is live and carries the facts of its entity. -/
theorem Outcome.get_bound_live {mint : ℕ → DurableId} {r : IdentityRegistry}
    {entities : List Entity} {revision : Revision} {scope : Option (Finset String)}
    {out : Reconciliation × IdentityRegistry} {plan : List Bound}
    (ho : Outcome mint r entities revision scope out plan) {x : Bound} (hx : x ∈ plan) :
    ∃ a, out.2.get x.id = some a ∧ a.qualifiedPath = x.entity.qualifiedPath ∧
      a.contentHash = x.entity.contentHash ∧ a.status ≠ .orphaned := by
  have hget := ho.get_bound x hx
  unfold boundAnchor at hget
  cases hm : x.binding.isMinted with
  | true =>
    rw [hm, if_pos rfl] at hget
    exact ⟨_, hget, rfl, rfl, by simp⟩
  | false =>
    obtain ⟨a, ha⟩ := ho.fits.known x hx hm
    rw [hm, if_neg Bool.false_ne_true, ha, Option.map_some] at hget
    refine ⟨_, hget, rfl, rfl, ?_⟩
    dsimp only
    split
    · simp
    · simp

/-- A log fits the registry it was made from. -/
theorem fits_of_tracks {mint : ℕ → DurableId} {r : IdentityRegistry} {st : Matching}
    {scope : Option (Finset String)} {sorted : List Entity} {log plan : List Bound}
    (hf : Fresh mint r) (ht : Tracks mint r scope sorted st log)
    (hp : Plan st sorted log plan) : Fits r plan where
  distinct := hp.distinct
  minted x hx hm := by
    obtain ⟨k, -, hk⟩ := ht.supply x ((hp.mem_iff x).mp hx) hm
    rw [hk]
    exact hf.unknown k
  known x hx hm := (ht.justified x ((hp.mem_iff x).mp hx)).known hm

/-- Flags turn the applied anchor into the final one. -/
theorem get_flagged_of_mem {mint : ℕ → DurableId} {r : IdentityRegistry} {st : Matching}
    {scope : Option (Finset String)} {sorted : List Entity} {log plan : List Bound}
    (hf : Fresh mint r) (ht : Tracks mint r scope sorted st log) (hp : Plan st sorted log plan)
    (revision : Revision) {x : Bound} (hx : x ∈ plan) :
    (flagNeedsReview st.needsReview (applyPlan revision st.needsReview plan r)).get x.id =
      boundAnchor revision x (r.get x.id) := by
  have hfits := fits_of_tracks hf ht hp
  have hreview : x.id ∈ st.needsReview ↔ x.review = true := by
    rw [ht.review]
    constructor
    · rintro ⟨y, hy, hyr, hyid⟩
      have hyx : y = x := List.inj_on_of_nodup_map hp.distinct ((hp.mem_iff y).mpr hy) hx hyid
      rw [← hyx]
      exact hyr
    · exact fun h => ⟨x, (hp.mem_iff x).mp hx, h, rfl⟩
  rw [get_flagNeedsReview, get_applyPlan_of_mem revision st.needsReview hfits hx]
  unfold appliedAnchor boundAnchor
  cases hm : x.binding.isMinted with
  | true =>
    have hj := ht.justified x ((hp.mem_iff x).mp hx)
    have hclean : x.review = false := by
      cases hb : x.binding with
      | minted id =>
        rw [hb] at hj
        exact hj.2
      | exact _ _ =>
        rw [hb] at hm
        cases hm
      | moved _ _ _ =>
        rw [hb] at hm
        cases hm
      | struct _ _ _ =>
        rw [hb] at hm
        cases hm
    have hnot : x.id ∉ st.needsReview := by
      rw [hreview, hclean]
      exact Bool.false_ne_true
    rw [if_neg hnot, if_pos rfl, if_pos rfl]
  | false =>
    by_cases hr : x.review = true
    · have hmem := hreview.mpr hr
      simp only [hr, hmem, if_true, Bool.false_eq_true, if_false, Option.map_map, Function.comp_def]
    · have hmem : x.id ∉ st.needsReview := fun h => hr (hreview.mp h)
      simp only [hr, hmem, Bool.false_eq_true, if_false]

/-- Applying and flagging leave the anchors that no entry claims. -/
theorem get_flagged_of_not_mem {mint : ℕ → DurableId} {r : IdentityRegistry} {st : Matching}
    {scope : Option (Finset String)} {sorted : List Entity} {log plan : List Bound}
    (ht : Tracks mint r scope sorted st log) (hp : Plan st sorted log plan) (revision : Revision)
    {id : DurableId} (hid : id ∉ claimed plan) :
    (flagNeedsReview st.needsReview (applyPlan revision st.needsReview plan r)).get id =
      r.get id := by
  have hfree : ∀ x ∈ plan, x.id ≠ id := fun x hx h => hid (mem_claimed.mpr ⟨x, hx, h⟩)
  have hquiet : id ∉ st.needsReview := by
    intro h
    obtain ⟨x, hx, -, hxid⟩ := (ht.review id).mp h
    exact hfree x ((hp.mem_iff x).mpr hx) hxid
  rw [get_flagNeedsReview, if_neg hquiet,
    get_applyPlan_of_not_mem revision st.needsReview hfree r]

/-- An exact binding names the holder of the path. -/
theorem byPath_of_isExact {mint : ℕ → DurableId} {r : IdentityRegistry}
    {scope : Option (Finset String)} {e : Entity} {review : Bool} {b : Binding}
    (hj : Justified mint r scope e review b) (hb : b.isExact = true) :
    r.byPath.lookup e.qualifiedPath = some b.id := by
  cases b with
  | exact id oldHash => exact hj.1
  | _ => cases hb

/-- An entity whose path is indexed is bound to the holder of the path. -/
theorem bound_to_holder {mint : ℕ → DurableId} {r : IdentityRegistry} {st : Matching}
    {scope : Option (Finset String)} {sorted : List Entity} {exact rest plan : List Bound}
    (hl : r.Linked) (hd : (sorted.map Entity.qualifiedPath).Nodup)
    (ht : Tracks mint r scope sorted st (exact ++ rest)) (hp : Plan st sorted (exact ++ rest) plan)
    (hexact : ∀ x ∈ exact, x.binding.isExact = true)
    (hindexed : ∀ e ∈ sorted, ∀ id, r.byPath.lookup e.qualifiedPath = some id →
      ∃ x ∈ exact, x.id = id) {x : Bound} (hx : x ∈ plan) {id : DurableId}
    (hid : r.byPath.lookup x.entity.qualifiedPath = some id) :
    x.id = id ∧ x.binding.isExact = true := by
  have hxe : x.entity ∈ sorted := hp.entities ▸ List.mem_map_of_mem hx
  obtain ⟨z, hz, hzid⟩ := hindexed x.entity hxe id hid
  have hzlog : z ∈ exact ++ rest := List.mem_append_left _ hz
  have hzpath := byPath_of_isExact (ht.justified z hzlog) (hexact z hz)
  -- both entries have the path of the anchor, so they are one
  have hinj : (plan.map fun y => y.entity.qualifiedPath).Nodup := by
    rw [← hp.entities, List.map_map] at hd
    exact hd
  have hzx : z = x := List.inj_on_of_nodup_map hinj ((hp.mem_iff z).mpr hzlog) hx
    (hl.path_injective (hzpath.trans (congrArg some hzid)) hid)
  rw [← hzx]
  exact ⟨hzid, hexact z hz⟩

/-- What the retirement leaves of a registry whose other anchors are those of
the registry before the reconciliation. -/
structure Retirement (revision : Revision) (scope : Option (Finset String)) (plan : List Bound)
    (r flagged : IdentityRegistry) (out : List DurableId × IdentityRegistry) : Prop where
  /-- The vanished ids are reported. -/
  retired : ∀ id, id ∈ out.1 ↔ vanished scope (claimed plan) r id = true
  /-- The vanished ids are orphaned. -/
  get : ∀ id, out.2.get id =
    if vanished scope (claimed plan) r id = true then (flagged.get id).map (orphan revision)
    else flagged.get id
  /-- The paths of the vanished ids are given up. -/
  byPath : ∀ q id, out.2.byPath.lookup q = some id ↔
    flagged.byPath.lookup q = some id ∧ ¬VanishedPath scope plan r q

/-- The retirement orphans the vanished ids. -/
theorem retirement_retireVanished {r flagged : IdentityRegistry} (iter : HashOrder DurableId)
    (revision : Revision) (scope : Option (Finset String)) {plan : List Bound}
    (hflag : ∀ id, id ∉ claimed plan → flagged.get id = r.get id) :
    Retirement revision scope plan r flagged
      (retireVanished iter revision scope (claimed plan) flagged) := by
  have hvan : ∀ id, vanished scope (claimed plan) flagged id =
      vanished scope (claimed plan) r id := by
    intro id
    by_cases hid : id ∈ claimed plan
    · have hbusy : ∀ s : IdentityRegistry, vanished scope (claimed plan) s id = false := by
        intro s
        simp [vanished, hid]
      rw [hbusy, hbusy]
    · exact vanished_congr (hflag id hid)
  have hlisted : ∀ id, vanished scope (claimed plan) r id = true →
      id ∈ iter.order flagged.byId.keys := by
    intro id hv
    rw [← hvan] at hv
    obtain ⟨-, -, a, ha, -⟩ := vanished_iff.mp hv
    rw [iter.mem_order, mem_keys_iff]
    exact ⟨a, ha⟩
  have hpaths : ∀ q, (∃ id ∈ iter.order flagged.byId.keys,
      vanished scope (claimed plan) flagged id = true ∧
        (flagged.get id).map Anchor.qualifiedPath = some q) ↔ VanishedPath scope plan r q := by
    intro q
    constructor
    · rintro ⟨id, -, hv, hq⟩
      rw [hvan] at hv
      rw [hflag id (vanished_iff.mp hv).1] at hq
      exact ⟨id, hv, hq⟩
    · rintro ⟨id, hv, hq⟩
      refine ⟨id, hlisted id hv, (hvan id).trans hv, ?_⟩
      rw [hflag id (vanished_iff.mp hv).1]
      exact hq
  have hkeys : ∀ id ∈ iter.order flagged.byId.keys, ∃ a, flagged.get id = some a := by
    intro id hid
    rw [iter.mem_order, mem_keys_iff] at hid
    exact hid
  obtain ⟨hret, hget, hpath⟩ := foldl_retireStep revision scope (claimed plan)
    (iter.order flagged.byId.keys) (iter.nodup_order _) ([], flagged) hkeys
  refine ⟨fun id => ?_, fun id => ?_, fun q id => ?_⟩
  · unfold retireVanished
    rw [hret, List.nil_append, List.mem_filter, hvan]
    exact ⟨fun h => h.2, fun h => ⟨hlisted id h, h⟩⟩
  · refine (hget id).trans ?_
    dsimp only
    rw [hvan]
    by_cases hv : vanished scope (claimed plan) r id = true
    · rw [if_pos ⟨hlisted id hv, hv⟩, if_pos hv]
    · rw [if_neg (fun h => hv h.2), if_neg hv]
  · rw [show (retireVanished iter revision scope (claimed plan) flagged).2.byPath.lookup q = _
      from hpath q]
    dsimp only
    rw [Option.ite_none_left_eq_some, hpaths, and_comm]

/-- Entities of pairwise different paths are reconciled as described. -/
theorem reconcileImpl_outcome {r : IdentityRegistry} (hl : r.Linked) {mint : ℕ → DurableId}
    (hf : Fresh mint r) (iter : HashOrder DurableId) {entities : List Entity}
    (hd : (entities.map Entity.qualifiedPath).Nodup) (revision : Revision)
    (scope : Option (Finset String)) :
    ∃ plan, Outcome mint r entities revision scope
      (reconcileImpl iter mint r entities revision scope) plan := by
  have hd' : ((sortEntities entities).map Entity.qualifiedPath).Nodup :=
    ((sortEntities_perm entities).map _).nodup_iff.mpr hd
  obtain ⟨exact, rest, ht, hexact, -, hall, hindexed⟩ :=
    matchEntities_tracks iter hl hf scope (sortEntities entities)
  obtain ⟨plan, hp⟩ := exists_plan ht hall hd'
  have hfits := fits_of_tracks hf ht hp
  have hsorted : plan.Pairwise fun a b => a.entity.qualifiedPath < b.entity.qualifiedPath := by
    have hstrict := sortEntities_strict hd
    rw [← hp.entities, List.pairwise_map] at hstrict
    exact hstrict
  have hclaimed : (matchEntities iter mint r scope (sortEntities entities)).boundIds =
      claimed plan := by
    ext id
    rw [ht.bound, mem_claimed]
    simp only [hp.mem_iff]
  generalize hst : matchEntities iter mint r scope (sortEntities entities) = st at *
  have happly := applyBindings_eq_applyPlan hp revision r
  have hother : ∀ id, id ∉ claimed plan → (flagNeedsReview st.needsReview
      (applyPlan revision st.needsReview plan r)).get id = r.get id :=
    fun _ => get_flagged_of_not_mem ht hp revision
  have hbound : ∀ x ∈ plan, (flagNeedsReview st.needsReview
      (applyPlan revision st.needsReview plan r)).get x.id = boundAnchor revision x (r.get x.id) :=
    fun _ => get_flagged_of_mem hf ht hp revision
  have hpaths := byPath_flagNeedsReview st.needsReview (applyPlan revision st.needsReview plan r)
  -- the registry the retirement loop starts from
  generalize hflagged : flagNeedsReview st.needsReview
    (applyPlan revision st.needsReview plan r) = flagged at hother hbound hpaths
  have hretired := retirement_retireVanished iter revision scope hother
  have hout : reconcileImpl iter mint r entities revision scope =
      ({ bindings := st.bindings
         retired := (retireVanished iter revision scope (claimed plan) flagged).1
         needsReview := st.needsReview },
        (retireVanished iter revision scope (claimed plan) flagged).2) := by
    unfold reconcileImpl
    simp only [hst, happly, hflagged, hclaimed]
  rw [hout]
  exact ⟨plan,
    { entities := hp.entities
      sorted := hsorted
      bindings := by
        have hlogs : (exact ++ rest).Perm plan :=
          (List.perm_ext_iff_of_nodup (ht.distinct.of_map _) (hp.distinct.of_map _)).mpr
            fun x => (hp.mem_iff x).symm
        rw [show st.bindings = _ from ht.bindings]
        exact hlogs.map _
      fits := hfits
      justified := fun x hx => ht.justified x ((hp.mem_iff x).mp hx)
      indexed := fun x hx id hid => bound_to_holder hl hd' ht hp hexact hindexed hx hid
      get_bound := fun x hx => by
        have hbusy : vanished scope (claimed plan) r x.id ≠ true := fun hv =>
          (vanished_iff.mp hv).1 (mem_claimed.mpr ⟨x, hx, rfl⟩)
        rw [hretired.get, if_neg hbusy, hbound x hx]
      get_other := fun id hid => by rw [hretired.get, hother id hid]
      retired := hretired.retired
      byPath_taken := fun x hx id => by
        rw [hretired.byPath, hpaths,
          byPath_applyPlan_of_taken revision st.needsReview hfits hsorted hx,
          Option.ite_none_left_eq_some, Option.some_inj]
        exact ⟨fun ⟨⟨hnone, hsame⟩, hv⟩ => ⟨hsame.symm, hv, hnone⟩,
          fun ⟨hsame, hv, hnone⟩ => ⟨⟨hnone, hsame.symm⟩, hv⟩⟩
      byPath_other := fun q hq id => by
        rw [hretired.byPath, hpaths,
          byPath_applyPlan_of_untaken revision st.needsReview hfits hq,
          Option.ite_none_left_eq_some]
        exact ⟨fun ⟨⟨hnone, hsame⟩, hv⟩ => ⟨hsame, hv, hnone⟩,
          fun ⟨hsame, hv, hnone⟩ => ⟨⟨hnone, hsame⟩, hv⟩⟩ }⟩

end Tyo3.IdentityPostState
