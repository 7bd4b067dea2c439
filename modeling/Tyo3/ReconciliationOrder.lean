import Mathlib.Data.Finite.Sum
import Mathlib.Logic.Equiv.Fintype
import Tyo3.IdentityPersistence

/-!
# Reconciliation does not depend on the order of its input

Neither the order of the extracted entities nor the order in which the hash
maps are walked reaches the outcome. Two reconciliations of one registry
with the same entities of pairwise different paths differ in the ids they
mint and in nothing else: one renaming of the minted ids carries bindings,
anchors and indexes of the first over to the second.
-/

namespace Tyo3.ReconciliationOrder

open Entities FiniteMaps IdentityAnchors IdentityMatching IdentityPersistence IdentityPostState
  IdentityReconciliation IdentityRuns

/-- Ids that occur anywhere in a registry. -/
def occurring (r : IdentityRegistry) : Finset DurableId :=
  r.byId.keys ∪ r.byPath.keys.biUnion (fun p => (r.byPath.lookup p).toFinset) ∪
    r.byHash.keys.biUnion fun h => (r.hashIds h).toFinset

/-- A supply of pairwise different ids, none of which occurs in the
registry. -/
structure Unused (mint : ℕ → DurableId) (r : IdentityRegistry) : Prop where
  /-- No id is handed out twice. -/
  injective : Function.Injective mint
  /-- No id handed out occurs in the registry. -/
  unseen : ∀ k, mint k ∉ occurring r

section Occurring

variable {r : IdentityRegistry}

/-- The id of an anchor occurs. -/
theorem occurring_of_get {id : DurableId} {a : Anchor} (h : r.get id = some a) :
    id ∈ occurring r := by
  unfold occurring
  rw [Finset.mem_union, Finset.mem_union]
  exact Or.inl (Or.inl ((mem_keys_iff _ _).mpr ⟨a, h⟩))

/-- The id of a path entry occurs. -/
theorem occurring_of_byPath {p : String} {id : DurableId} (h : r.byPath.lookup p = some id) :
    id ∈ occurring r := by
  unfold occurring
  rw [Finset.mem_union, Finset.mem_union, Finset.mem_biUnion]
  refine Or.inl (Or.inr ⟨p, (mem_keys_iff _ _).mpr ⟨id, h⟩, ?_⟩)
  rw [h]
  exact Option.mem_toFinset.mpr rfl

/-- An id listed under a hash occurs. -/
theorem occurring_of_hashIds {h : ContentHash} {id : DurableId} (hm : id ∈ r.hashIds h) :
    id ∈ occurring r := by
  unfold occurring
  rw [Finset.mem_union, Finset.mem_biUnion]
  refine Or.inr ⟨h, ?_, List.mem_toFinset.mpr hm⟩
  rw [mem_keys_iff]
  unfold IdentityRegistry.hashIds at hm
  cases hl : r.byHash.lookup h with
  | none =>
    rw [hl] at hm
    cases hm
  | some ids => exact ⟨ids, rfl⟩

/-- One renaming carries the first ids of a supply over to another supply
and leaves the ids of the registry alone. -/
theorem exists_renaming {mint mint' : ℕ → DurableId} (hm : Unused mint r) (hm' : Unused mint' r)
    (n : ℕ) : ∃ σ : Equiv.Perm DurableId,
      (∀ id ∈ occurring r, σ id = id) ∧ ∀ k < n, σ (mint k) = mint' k := by
  have hinj : ∀ {supply : ℕ → DurableId}, Unused supply r → Function.Injective
      (Sum.elim (fun id : {id // id ∈ occurring r} => id.val) fun k : Fin n => supply k.val) := by
    intro supply hs
    refine Function.Injective.sumElim Subtype.val_injective
      (hs.injective.comp Fin.val_injective) ?_
    intro id k h
    exact hs.unseen k.val (h ▸ id.property)
  obtain ⟨σ, hσ⟩ := Equiv.Perm.exists_extending_pair _ _ (hinj hm) (hinj hm')
  exact ⟨σ, fun id hid => hσ (Sum.inl ⟨id, hid⟩), fun k hk => hσ (Sum.inr ⟨k, hk⟩)⟩

end Occurring

/-- A binding with its id renamed. -/
def renameBinding (σ : Equiv.Perm DurableId) : Binding → Binding
  | .exact id oldHash => .exact (σ id) oldHash
  | .moved id oldPath oldHash => .moved (σ id) oldPath oldHash
  | .struct id confidence oldHash => .struct (σ id) confidence oldHash
  | .minted id => .minted (σ id)

/-- An anchor with its id renamed. -/
def renameAnchor (σ : Equiv.Perm DurableId) (a : Anchor) : Anchor := { a with id := σ a.id }

/-- The id of a renamed binding. -/
@[simp]
theorem id_renameBinding (σ : Equiv.Perm DurableId) (b : Binding) :
    (renameBinding σ b).id = σ b.id := by
  cases b with
  | exact _ _ => rfl
  | moved _ _ _ => rfl
  | struct _ _ _ => rfl
  | minted _ => rfl

/-- Renaming keeps the sort of a binding. -/
@[simp]
theorem isMinted_renameBinding (σ : Equiv.Perm DurableId) (b : Binding) :
    (renameBinding σ b).isMinted = b.isMinted := by
  cases b with
  | exact _ _ => rfl
  | moved _ _ _ => rfl
  | struct _ _ _ => rfl
  | minted _ => rfl

/-- A binding whose id is left alone is left alone. -/
theorem renameBinding_fixed {σ : Equiv.Perm DurableId} {b : Binding} (h : σ b.id = b.id) :
    renameBinding σ b = b := by
  cases b with
  | exact id oldHash => exact congrArg (Binding.exact · oldHash) h
  | moved id oldPath oldHash => exact congrArg (Binding.moved · oldPath oldHash) h
  | struct id confidence oldHash => exact congrArg (Binding.struct · confidence oldHash) h
  | minted id => exact congrArg Binding.minted h

/-- One registry is the other with its ids renamed. -/
structure Renamed (σ : Equiv.Perm DurableId) (r s : IdentityRegistry) : Prop where
  /-- Anchors. -/
  get : ∀ id, s.get (σ id) = (r.get id).map (renameAnchor σ)
  /-- Path entries. -/
  byPath : ∀ p, s.byPath.lookup p = (r.byPath.lookup p).map σ
  /-- Hash entries, in order. -/
  byHash : ∀ h, s.byHash.lookup h = (r.byHash.lookup h).map (List.map σ)

/-- A registry is itself under a renaming of ids it does not have. -/
theorem Renamed.refl {σ : Equiv.Perm DurableId} {r : IdentityRegistry}
    (h : ∀ id ∈ occurring r, σ id = id) : Renamed σ r r where
  get id := by
    cases hg : r.get id with
    | some a =>
      have hid := h id (occurring_of_get hg)
      rw [hid, hg, Option.map_some, renameAnchor, r.keyed id a hg, hid, ← r.keyed id a hg]
    | none =>
      rw [Option.map_none]
      cases hg' : r.get (σ id) with
      | none => rfl
      | some a =>
        -- the image would be fixed, so it would be the id itself
        have hfix := h (σ id) (occurring_of_get hg')
        rw [σ.injective hfix, hg] at hg'
        cases hg'
  byPath p := by
    cases hp : r.byPath.lookup p with
    | none => rfl
    | some id => rw [Option.map_some, h id (occurring_of_byPath hp)]
  byHash hash := by
    cases hl : r.byHash.lookup hash with
    | none => rfl
    | some ids =>
      have hlisted : r.hashIds hash = ids := by
        unfold IdentityRegistry.hashIds
        rw [hl]
        rfl
      have hids : ids.map σ = ids := by
        calc ids.map σ = ids.map id := by
              refine List.map_congr_left fun id hid => ?_
              exact h id (occurring_of_hashIds (hlisted ▸ hid))
          _ = ids := List.map_id ids
      rw [Option.map_some, hids]

/-! ## Mutators -/

section Mutators

variable {σ : Equiv.Perm DurableId} {r s : IdentityRegistry}

/-- Dropping an id from renamed hash entries. -/
theorem lookup_removeFromHashIndex_renamed {m m' : FMap ContentHash (List DurableId)}
    (h : ∀ hash, m'.lookup hash = (m.lookup hash).map (List.map σ)) (hash : ContentHash)
    (id : DurableId) (q : ContentHash) : (removeFromHashIndex m' hash (σ id)).lookup q =
      ((removeFromHashIndex m hash id).lookup q).map (List.map σ) := by
  unfold removeFromHashIndex
  rw [h hash]
  cases hl : m.lookup hash with
  | none => exact h q
  | some ids =>
    have hkept : (ids.map σ).filter (fun x => x ≠ σ id) =
        (ids.filter fun x => x ≠ id).map σ := by
      rw [List.filter_map]
      congr 2
      funext x
      simp [σ.injective.eq_iff]
    simp only [Option.map_some, hkept]
    by_cases hempty : (ids.filter fun x => x ≠ id) = []
    · rw [if_pos hempty, if_pos (by rw [hempty]; rfl), lookup_erase_ite, lookup_erase_ite]
      split
      · rfl
      · exact h q
    · rw [if_neg hempty, if_neg (by rwa [List.map_eq_nil_iff]), lookup_insert_ite,
        lookup_insert_ite]
      split
      · rfl
      · exact h q

/-- Listing an id in renamed hash entries. -/
theorem lookup_pushHashIndex_renamed {m m' : FMap ContentHash (List DurableId)}
    (h : ∀ hash, m'.lookup hash = (m.lookup hash).map (List.map σ)) (hash : ContentHash)
    (id : DurableId) (q : ContentHash) : (pushHashIndex m' hash (σ id)).lookup q =
      ((pushHashIndex m hash id).lookup q).map (List.map σ) := by
  unfold pushHashIndex
  rw [lookup_insert_ite, lookup_insert_ite, h hash]
  split
  · cases hl : m.lookup hash with
    | none => rfl
    | some ids => simp
  · exact h q

/-- Inserting a renamed anchor. -/
theorem Renamed.insert (h : Renamed σ r s) (anchor : Anchor) :
    Renamed σ (r.insert anchor) (s.insert (renameAnchor σ anchor)) where
  get id := by
    have hid : (renameAnchor σ anchor).id = σ anchor.id := rfl
    rw [IdentityRegistry.get_insert, IdentityRegistry.get_insert, hid, h.get]
    simp only [σ.injective.eq_iff]
    split
    · rfl
    · rfl
  byPath p := by
    have hg := h.get anchor.id
    have hid : (renameAnchor σ anchor).id = σ anchor.id := rfl
    have hpath : (renameAnchor σ anchor).qualifiedPath = anchor.qualifiedPath := rfl
    unfold IdentityRegistry.insert
    dsimp only
    rw [hid, hg, hpath]
    cases hr : r.get anchor.id with
    | none =>
      simp only [Option.map_none, lookup_insert_ite]
      split
      · rfl
      · exact h.byPath p
    | some old =>
      have hold : (renameAnchor σ old).qualifiedPath = old.qualifiedPath := rfl
      simp only [Option.map_some, lookup_insert_ite, lookup_erase_ite, hold]
      split
      · rfl
      · split
        · rfl
        · exact h.byPath p
  byHash hash := by
    have hg := h.get anchor.id
    have hid : (renameAnchor σ anchor).id = σ anchor.id := rfl
    have hnew : (renameAnchor σ anchor).contentHash = anchor.contentHash := rfl
    unfold IdentityRegistry.insert
    dsimp only
    rw [hid, hg, hnew]
    cases hr : r.get anchor.id with
    | none => exact lookup_pushHashIndex_renamed h.byHash _ _ _
    | some old =>
      exact lookup_pushHashIndex_renamed
        (lookup_removeFromHashIndex_renamed h.byHash old.contentHash anchor.id) _ _ _

/-- Binding a renamed id again. -/
theorem Renamed.rebind (h : Renamed σ r s) (id : DurableId) (path : String) (hash : ContentHash)
    (rev : Revision) : Renamed σ (r.rebind id path hash rev) (s.rebind (σ id) path hash rev) where
  get k := by
    rw [IdentityRegistry.get_rebind, IdentityRegistry.get_rebind, h.get, h.get]
    simp only [σ.injective.eq_iff]
    split
    · rw [Option.map_map, Option.map_map]
      rfl
    · rfl
  byPath p := by
    unfold IdentityRegistry.rebind
    rw [h.get id]
    cases hr : r.get id with
    | none => exact h.byPath p
    | some old =>
      have hold : (renameAnchor σ old).qualifiedPath = old.qualifiedPath := rfl
      simp only [Option.map_some, lookup_insert_ite, lookup_erase_ite, hold]
      split
      · rfl
      · split
        · rfl
        · exact h.byPath p
  byHash q := by
    unfold IdentityRegistry.rebind
    rw [h.get id]
    cases hr : r.get id with
    | none => exact h.byHash q
    | some old =>
      exact lookup_pushHashIndex_renamed
        (lookup_removeFromHashIndex_renamed h.byHash old.contentHash id) _ _ _

/-- Setting the status of a renamed id. -/
theorem Renamed.setStatus (h : Renamed σ r s) (id : DurableId) (status : IdentityStatus) :
    Renamed σ (r.setStatus id status) (s.setStatus (σ id) status) where
  get k := by
    rw [IdentityRegistry.get_setStatus, IdentityRegistry.get_setStatus, h.get, h.get]
    simp only [σ.injective.eq_iff]
    split
    · rw [Option.map_map, Option.map_map]
      rfl
    · rfl
  byPath p := h.byPath p
  byHash q := h.byHash q

/-- Applying a renamed binding. -/
theorem Renamed.applyBinding (h : Renamed σ r s) (revision : Revision)
    (needsReview : List DurableId) (e : Entity) (b : Binding) :
    Renamed σ (applyBinding revision needsReview r e b)
      (applyBinding revision (needsReview.map σ) s e (renameBinding σ b)) := by
  have hbound : Renamed σ (r.rebind b.id e.qualifiedPath e.contentHash revision)
      (s.rebind (σ b.id) e.qualifiedPath e.contentHash revision) := h.rebind _ _ _ _
  have hflag : σ b.id ∈ needsReview.map σ ↔ b.id ∈ needsReview :=
    List.mem_map_of_injective σ.injective
  have hclean : Renamed σ
      (if b.id ∈ needsReview then r.rebind b.id e.qualifiedPath e.contentHash revision
        else (r.rebind b.id e.qualifiedPath e.contentHash revision).setStatus b.id .active)
      (if σ b.id ∈ needsReview.map σ then
          s.rebind (σ b.id) e.qualifiedPath e.contentHash revision
        else (s.rebind (σ b.id) e.qualifiedPath e.contentHash revision).setStatus (σ b.id)
          .active) := by
    simp only [hflag]
    split
    · exact hbound
    · exact hbound.setStatus _ _
  cases b with
  | exact id oldHash => exact hclean
  | moved id oldPath oldHash => exact hclean
  | struct id confidence oldHash => exact hclean
  | minted id => exact h.insert _

/-- Flagging renamed ids. -/
theorem Renamed.flagNeedsReview (h : Renamed σ r s) (needsReview : List DurableId) :
    Renamed σ (flagNeedsReview needsReview r) (flagNeedsReview (needsReview.map σ) s) := by
  unfold IdentityReconciliation.flagNeedsReview
  induction needsReview generalizing r s with
  | nil => exact h
  | cons id needsReview ih => exact ih (h.setStatus id .needsReview)

end Mutators

/-! ## Passes -/

/-- One state of the passes is the other with its ids renamed. -/
structure RenamedMatching (σ : Equiv.Perm DurableId) (st st' : Matching) : Prop where
  /-- Bound ids. -/
  bound : ∀ id, σ id ∈ st'.boundIds ↔ id ∈ st.boundIds
  /-- Matched positions. -/
  matched : st'.matchedEntities = st.matchedEntities
  /-- Bindings, in order. -/
  bindings : st'.bindings = st.bindings.map fun cell => (cell.1, renameBinding σ cell.2)
  /-- Bindings by path. -/
  byPath : ∀ p, st'.bindingsByPath.lookup p =
    (st.bindingsByPath.lookup p).map (renameBinding σ)
  /-- Review flags, in order. -/
  review : st'.needsReview = st.needsReview.map σ
  /-- Ids taken from the supply. -/
  minted : st'.minted = st.minted

/-- The state names ids of one set only, and nothing was minted yet. -/
structure NamesOnly (known : Finset DurableId) (st : Matching) : Prop where
  /-- Bound ids. -/
  bound : ∀ id ∈ st.boundIds, id ∈ known
  /-- Ids of the bindings. -/
  bindings : ∀ cell ∈ st.bindings, cell.2.id ∈ known
  /-- Ids stored by path. -/
  byPath : ∀ p b, st.bindingsByPath.lookup p = some b → b.id ∈ known
  /-- Flagged ids. -/
  review : ∀ id ∈ st.needsReview, id ∈ known
  /-- No id was taken from the supply. -/
  unminted : st.minted = 0

section Passes

variable {σ : Equiv.Perm DurableId} {r : IdentityRegistry} {scope : Option (Finset String)}

/-- A renaming that leaves all named ids alone leaves the state alone. -/
theorem RenamedMatching.refl {known : Finset DurableId} (h : ∀ id ∈ known, σ id = id)
    {st : Matching} (hst : NamesOnly known st) : RenamedMatching σ st st where
  bound id := by
    constructor
    · intro hid
      have hfix := h (σ id) (hst.bound _ hid)
      rwa [σ.injective hfix] at hid
    · intro hid
      rwa [h id (hst.bound id hid)]
  matched := rfl
  bindings := by
    calc st.bindings = st.bindings.map id := (List.map_id _).symm
      _ = st.bindings.map fun cell => (cell.1, renameBinding σ cell.2) := by
        refine List.map_congr_left fun cell hcell => ?_
        rw [renameBinding_fixed (h _ (hst.bindings cell hcell))]
        rfl
  byPath p := by
    cases hp : st.bindingsByPath.lookup p with
    | none => rfl
    | some b => rw [Option.map_some, renameBinding_fixed (h _ (hst.byPath p b hp))]
  review := by
    calc st.needsReview = st.needsReview.map id := (List.map_id _).symm
      _ = st.needsReview.map σ :=
        List.map_congr_left fun id hid => (h id (hst.review id hid)).symm
  minted := rfl

/-- Recording a renamed binding. -/
theorem RenamedMatching.bind {st st' : Matching} (h : RenamedMatching σ st st') (idx : ℕ)
    (e : Entity) (b : Binding) (review : Bool) :
    RenamedMatching σ (st.bind idx e b review) (st'.bind idx e (renameBinding σ b) review) where
  bound id := by
    simp only [Matching.bind, id_renameBinding, Finset.mem_insert, σ.injective.eq_iff, h.bound]
  matched := by simp only [Matching.bind, h.matched]
  bindings := by simp [Matching.bind, h.bindings]
  byPath p := by
    simp only [Matching.bind, lookup_insert_ite]
    split
    · rfl
    · exact h.byPath p
  review := by
    simp only [Matching.bind, id_renameBinding, h.review]
    split
    · simp
    · rfl
  minted := by simp only [Matching.bind, isMinted_renameBinding, h.minted]

/-- Recording a binding to a known id. -/
theorem NamesOnly.bind {known : Finset DurableId} {st : Matching} (h : NamesOnly known st)
    {idx : ℕ} {e : Entity} {b : Binding} {review : Bool} (hb : b.id ∈ known)
    (hm : b.isMinted = false) : NamesOnly known (st.bind idx e b review) where
  bound id hid := by
    rcases Finset.mem_insert.mp hid with rfl | hid
    · exact hb
    · exact h.bound id hid
  bindings cell hcell := by
    rcases List.mem_append.mp hcell with hcell | hcell
    · exact h.bindings cell hcell
    · rw [List.mem_singleton] at hcell
      rw [hcell]
      exact hb
  byPath p c hc := by
    rcases eq_or_lookup_of_lookup_insert hc with rfl | hc
    · exact hb
    · exact h.byPath p c hc
  review id hid := by
    simp only [Matching.bind] at hid
    split at hid
    · rcases List.mem_append.mp hid with hid | hid
      · exact h.review id hid
      · rw [List.mem_singleton] at hid
        rw [hid]
        exact hb
    · exact h.review id hid
  unminted := by simp [Matching.bind, hm, h.unminted]

/-- A pass whose rule offers known ids names known ids. -/
theorem NamesOnly.matchPass {known : Finset DurableId}
    {rule : Matching → Entity → Option (Binding × Bool)}
    (hrule : ∀ st e b review, rule st e = some (b, review) → b.id ∈ known ∧ b.isMinted = false)
    (sorted : List Entity) {st : Matching} (h : NamesOnly known st) :
    NamesOnly known (matchPass rule sorted st) := by
  unfold IdentityReconciliation.matchPass
  generalize sorted.zipIdx = cells
  induction cells generalizing st with
  | nil => exact h
  | cons cell cells ih =>
    rw [List.foldl_cons]
    apply ih
    unfold matchStep
    split
    · exact h
    · cases ho : rule st cell.1 with
      | none => exact h
      | some offer =>
        obtain ⟨b, review⟩ := offer
        obtain ⟨hb, hm⟩ := hrule st cell.1 b review ho
        exact h.bind hb hm

/-- The first rule offers an id of the path index. -/
theorem exactRule_occurring (st : Matching) (e : Entity) (b : Binding) (review : Bool)
    (h : exactRule r st e = some (b, review)) : b.id ∈ occurring r ∧ b.isMinted = false := by
  unfold exactRule at h
  split at h
  · cases h
  · rename_i id hid
    split at h
    · cases h
    · cases h
      exact ⟨occurring_of_byPath hid, rfl⟩

/-- The second rule offers an id of the hash index. -/
theorem hashRule_occurring (st : Matching) (e : Entity) (b : Binding) (review : Bool)
    (h : hashRule r scope st e = some (b, review)) : b.id ∈ occurring r ∧ b.isMinted = false := by
  unfold hashRule at h
  split at h
  · cases h
  · rename_i id hmin
    have hid := occurring_of_hashIds (List.mem_filter.mp (List.min?_mem hmin)).1
    split at h
    · cases h
      exact ⟨hid, rfl⟩
    · cases h
      exact ⟨hid, rfl⟩

/-- The third rule offers the id of an anchor. -/
theorem structRule_occurring (iter : HashOrder DurableId) (st : Matching) (e : Entity)
    (b : Binding) (review : Bool) (h : structRule iter r scope st e = some (b, review)) :
    b.id ∈ occurring r ∧ b.isMinted = false := by
  have hj := (@structRule_justified (fun _ => b.id) iter r scope st e b review h).1
  have hm : b.isMinted = false := by
    unfold structRule at h
    split at h
    · cases h
    · cases h
      rfl
  obtain ⟨a, ha⟩ := hj.known hm
  exact ⟨occurring_of_get ha, hm⟩

/-- One entity of the last pass. -/
theorem matchStep_mintRule (mint : ℕ → DurableId) (st : Matching) (cell : Entity × ℕ) :
    matchStep (mintRule mint) st cell = if cell.2 ∈ st.matchedEntities then st
      else st.bind cell.2 cell.1 (.minted (mint st.minted)) false := rfl

/-- The last pass with two supplies that the renaming carries into each
other. -/
theorem RenamedMatching.mintPass {mint mint' : ℕ → DurableId} (cells : List (Entity × ℕ))
    {st st' : Matching} (h : RenamedMatching σ st st')
    (hσ : ∀ k < st.minted + cells.length, σ (mint k) = mint' k) :
    RenamedMatching σ (cells.foldl (matchStep (mintRule mint)) st)
      (cells.foldl (matchStep (mintRule mint')) st') := by
  induction cells generalizing st st' with
  | nil => exact h
  | cons cell cells ih =>
    rw [List.length_cons] at hσ
    rw [List.foldl_cons, List.foldl_cons]
    rw [matchStep_mintRule, matchStep_mintRule, h.matched]
    by_cases hm : cell.2 ∈ st.matchedEntities
    · rw [if_pos hm, if_pos hm]
      exact ih h fun k hk => hσ k (by omega)
    · rw [if_neg hm, if_neg hm]
      have hnext : mint' st'.minted = σ (mint st.minted) := by
        rw [h.minted]
        exact (hσ st.minted (by omega)).symm
      have hb : renameBinding σ (.minted (mint st.minted)) = .minted (mint' st'.minted) := by
        rw [hnext]
        rfl
      have hbind := h.bind cell.2 cell.1 (.minted (mint st.minted)) false
      rw [hb] at hbind
      refine ih hbind fun k hk => hσ k ?_
      have hcount : (st.bind cell.2 cell.1 (.minted (mint st.minted)) false).minted =
          st.minted + 1 := rfl
      omega

/-- What is stored by path is bound. -/
theorem bound_of_byPath {rule : Matching → Entity → Option (Binding × Bool)}
    (sorted : List Entity) {st : Matching}
    (h : ∀ p b, st.bindingsByPath.lookup p = some b → b.id ∈ st.boundIds) :
    ∀ p b, (matchPass rule sorted st).bindingsByPath.lookup p = some b →
      b.id ∈ (matchPass rule sorted st).boundIds := by
  unfold matchPass
  generalize sorted.zipIdx = cells
  induction cells generalizing st with
  | nil => exact h
  | cons cell cells ih =>
    rw [List.foldl_cons]
    apply ih
    unfold matchStep
    split
    · exact h
    · cases ho : rule st cell.1 with
      | none => exact h
      | some offer =>
        obtain ⟨b, review⟩ := offer
        intro p c hc
        rcases eq_or_lookup_of_lookup_insert hc with rfl | hc
        · exact Finset.mem_insert_self _ _
        · exact Finset.mem_insert_of_mem (h p c hc)

/-- Up to the third pass only ids of the registry are named. -/
theorem namesOnly_thirdPass (iter : HashOrder DurableId) (r : IdentityRegistry)
    (scope : Option (Finset String)) (sorted : List Entity) :
    NamesOnly (occurring r) (matchPass (structRule iter r scope) sorted
      (matchPass (hashRule r scope) sorted (matchPass (exactRule r) sorted Matching.start))) := by
  have hstart : NamesOnly (occurring r) Matching.start := by
    refine ⟨?_, ?_, ?_, ?_, rfl⟩
    · intro id hid
      simp [Matching.start] at hid
    · intro cell hcell
      simp [Matching.start] at hcell
    · intro p b hb
      simp [Matching.start] at hb
    · intro id hid
      simp [Matching.start] at hid
  exact ((hstart.matchPass exactRule_occurring sorted).matchPass hashRule_occurring
    sorted).matchPass (structRule_occurring iter) sorted

/-- All four passes, with two orders of the anchor store and two supplies. -/
theorem matchEntities_renamed (iter iter' : HashOrder DurableId) {mint mint' : ℕ → DurableId}
    (hfix : ∀ id ∈ occurring r, σ id = id) (sorted : List Entity)
    (hσ : ∀ k < sorted.length, σ (mint k) = mint' k) :
    RenamedMatching σ (matchEntities iter mint r scope sorted)
      (matchEntities iter' mint' r scope sorted) := by
  have hthird : matchPass (structRule iter' r scope) sorted
      (matchPass (hashRule r scope) sorted (matchPass (exactRule r) sorted Matching.start)) =
      matchPass (structRule iter r scope) sorted
        (matchPass (hashRule r scope) sorted (matchPass (exactRule r) sorted Matching.start)) :=
    matchPass_congr (fun st e _ => structRule_congr (fun _ => rfl) iter iter' scope st e) _
  have hnames := namesOnly_thirdPass iter r scope sorted
  unfold matchEntities
  dsimp only
  rw [hthird]
  refine (RenamedMatching.refl hfix hnames).mintPass sorted.zipIdx ?_
  intro k hk
  rw [hnames.unminted, List.length_zipIdx, Nat.zero_add] at hk
  exact hσ k hk

/-- The last pass flags nothing. -/
theorem needsReview_mintPass (mint : ℕ → DurableId) (sorted : List Entity) (st : Matching) :
    (matchPass (mintRule mint) sorted st).needsReview = st.needsReview := by
  unfold matchPass
  generalize sorted.zipIdx = cells
  induction cells generalizing st with
  | nil => rfl
  | cons cell cells ih =>
    rw [List.foldl_cons, ih, matchStep_mintRule]
    split
    · rfl
    · rfl

end Passes

/-! ## Apply and retire -/

section Apply

variable {σ : Equiv.Perm DurableId} {r s : IdentityRegistry} {st st' : Matching}

/-- Applying renamed bindings. -/
theorem Renamed.applyBindings (h : Renamed σ r s) (hst : RenamedMatching σ st st')
    (revision : Revision) (sorted : List Entity) :
    Renamed σ (applyBindings revision st sorted r) (applyBindings revision st' sorted s) := by
  unfold IdentityReconciliation.applyBindings
  induction sorted generalizing r s with
  | nil => exact h
  | cons e sorted ih =>
    rw [List.foldl_cons, List.foldl_cons]
    apply ih
    rw [hst.byPath, hst.review]
    cases hb : st.bindingsByPath.lookup e.qualifiedPath with
    | none => exact h
    | some b => exact h.applyBinding revision st.needsReview e b

/-- A renamed id vanishes when the id does. -/
theorem vanished_renamed (h : Renamed σ r s) {bound bound' : Finset DurableId}
    (hbound : ∀ id, σ id ∈ bound' ↔ id ∈ bound) (scope : Option (Finset String))
    (id : DurableId) : vanished scope bound' s (σ id) = vanished scope bound r id := by
  unfold vanished anchorInScope
  rw [h.get]
  simp only [hbound]
  cases r.get id with
  | none => rfl
  | some a => rfl

/-- Everything the retirement loop does, whatever the order of the store. -/
theorem retireVanished_spec (iter : HashOrder DurableId) (revision : Revision)
    (scope : Option (Finset String)) (bound : Finset DurableId) (r : IdentityRegistry) :
    (∀ id, id ∈ (retireVanished iter revision scope bound r).1 ↔
      vanished scope bound r id = true) ∧
    (∀ id, (retireVanished iter revision scope bound r).2.get id =
      if vanished scope bound r id = true then (r.get id).map (orphan revision)
      else r.get id) ∧
    (∀ q v, (retireVanished iter revision scope bound r).2.byPath.lookup q = some v ↔
      r.byPath.lookup q = some v ∧ ¬∃ id, vanished scope bound r id = true ∧
        (r.get id).map Anchor.qualifiedPath = some q) ∧
    (retireVanished iter revision scope bound r).2.byHash = r.byHash := by
  have hlisted : ∀ id, vanished scope bound r id = true → id ∈ iter.order r.byId.keys := by
    intro id hv
    obtain ⟨-, -, a, ha, -⟩ := vanished_iff.mp hv
    rw [iter.mem_order, mem_keys_iff]
    exact ⟨a, ha⟩
  have hknown : ∀ id ∈ iter.order r.byId.keys, ∃ a, r.get id = some a := by
    intro id hid
    rw [iter.mem_order, mem_keys_iff] at hid
    exact hid
  have hhash : ∀ (ids : List DurableId) (acc : List DurableId × IdentityRegistry),
      (ids.foldl (retireStep revision scope bound) acc).2.byHash = acc.2.byHash := by
    intro ids
    induction ids with
    | nil => exact fun _ => rfl
    | cons id ids ih =>
      intro acc
      rw [List.foldl_cons, ih]
      unfold retireStep
      split_ifs
      · rfl
      · rfl
      · rfl
      · unfold IdentityRegistry.retire
        split
        · rfl
        · split
          · rfl
          · rfl
  obtain ⟨hret, hget, hpath⟩ := foldl_retireStep revision scope bound
    (iter.order r.byId.keys) (iter.nodup_order _) ([], r) hknown
  unfold retireVanished
  refine ⟨?_, ?_, ?_, hhash _ _⟩
  · intro id
    rw [hret, List.nil_append, List.mem_filter]
    exact ⟨fun h => h.2, fun h => ⟨hlisted id h, h⟩⟩
  · intro id
    refine (hget id).trans ?_
    by_cases hv : vanished scope bound r id = true
    · rw [if_pos ⟨hlisted id hv, hv⟩, if_pos hv]
    · rw [if_neg (fun h => hv h.2), if_neg hv]
  · intro q v
    have hex : (∃ id ∈ iter.order r.byId.keys, vanished scope bound r id = true ∧
        (r.get id).map Anchor.qualifiedPath = some q) ↔
        ∃ id, vanished scope bound r id = true ∧
          (r.get id).map Anchor.qualifiedPath = some q := by
      constructor
      · rintro ⟨id, -, h⟩
        exact ⟨id, h⟩
      · rintro ⟨id, h⟩
        exact ⟨id, hlisted id h.1, h⟩
    rw [show _ = _ from hpath q]
    dsimp only
    rw [← hex]
    split
    · rename_i h
      exact iff_of_false (by simp) (fun hc => hc.2 h)
    · rename_i h
      exact ⟨fun hc => ⟨hc, h⟩, fun hc => hc.1⟩

/-- Retiring in a renamed registry. -/
theorem Renamed.retireVanished (h : Renamed σ r s) {bound bound' : Finset DurableId}
    (hbound : ∀ id, σ id ∈ bound' ↔ id ∈ bound) (iter iter' : HashOrder DurableId)
    (revision : Revision) (scope : Option (Finset String)) :
    Renamed σ (retireVanished iter revision scope bound r).2
      (retireVanished iter' revision scope bound' s).2 := by
  obtain ⟨-, hget, hpath, hhash⟩ := retireVanished_spec iter revision scope bound r
  obtain ⟨-, hget', hpath', hhash'⟩ := retireVanished_spec iter' revision scope bound' s
  have hvan := vanished_renamed h hbound scope
  refine ⟨?_, ?_, ?_⟩
  · intro id
    rw [hget, hget', hvan, h.get]
    split
    · rw [Option.map_map, Option.map_map]
      rfl
    · rfl
  · intro q
    have hex : (∃ id, vanished scope bound' s id = true ∧
        (s.get id).map Anchor.qualifiedPath = some q) ↔
        ∃ id, vanished scope bound r id = true ∧
          (r.get id).map Anchor.qualifiedPath = some q := by
      have hsame : ∀ id, (s.get (σ id)).map Anchor.qualifiedPath =
          (r.get id).map Anchor.qualifiedPath := by
        intro id
        rw [h.get, Option.map_map]
        rfl
      rw [σ.surjective.exists]
      simp only [hvan, hsame]
    apply Option.ext
    intro v
    rw [hpath' q v, hex, h.byPath, Option.map_eq_some_iff, Option.map_eq_some_iff]
    constructor
    · rintro ⟨⟨id, hid, hv⟩, hno⟩
      exact ⟨id, (hpath q id).mpr ⟨hid, hno⟩, hv⟩
    · rintro ⟨id, hid, hv⟩
      obtain ⟨hid', hno⟩ := (hpath q id).mp hid
      exact ⟨⟨id, hid', hv⟩, hno⟩
  · intro q
    rw [hhash, hhash', h.byHash]

end Apply

/-! ## The whole reconciliation -/

/-- Permuted entities of pairwise different paths are visited in one order. -/
theorem sortEntities_eq_of_perm {entities entities' : List Entity} (hp : entities'.Perm entities)
    (hd : (entities.map Entity.qualifiedPath).Nodup) :
    sortEntities entities' = sortEntities entities := by
  have hd' : (entities'.map Entity.qualifiedPath).Nodup :=
    (hp.map Entity.qualifiedPath).nodup_iff.mpr hd
  have : Std.Antisymm fun a b : Entity => a.qualifiedPath < b.qualifiedPath :=
    ⟨fun _ _ h h' => (h.asymm h').elim⟩
  refine List.Perm.eq_of_pairwise' (sortEntities_strict hd') (sortEntities_strict hd) ?_
  exact (sortEntities_perm entities').trans (hp.trans (sortEntities_perm entities).symm)

/-- A vanished id has its anchor from before the reconciliation. -/
theorem occurring_of_vanished (iter : HashOrder DurableId) (mint : ℕ → DurableId)
    (r : IdentityRegistry) (scope : Option (Finset String)) (revision : Revision)
    (sorted : List Entity) {id : DurableId}
    (hv : vanished scope (matchEntities iter mint r scope sorted).boundIds
      (flagNeedsReview (matchEntities iter mint r scope sorted).needsReview
        (applyBindings revision (matchEntities iter mint r scope sorted) sorted r)) id = true) :
    id ∈ occurring r := by
  have hstored : ∀ p b, (matchEntities iter mint r scope sorted).bindingsByPath.lookup p =
      some b → b.id ∈ (matchEntities iter mint r scope sorted).boundIds := by
    refine bound_of_byPath sorted (bound_of_byPath sorted (bound_of_byPath sorted
      (bound_of_byPath sorted ?_)))
    intro p b hb
    simp [Matching.start] at hb
  generalize matchEntities iter mint r scope sorted = st at hv hstored
  obtain ⟨hfree, -, a, ha, -⟩ := vanished_iff.mp hv
  have hsame : (applyBindings revision st sorted r).get id = r.get id := by
    refine get_applyBindings_of_unapplied ?_ revision sorted r
    intro p b hb hid
    exact hfree (hid ▸ hstored p b hb)
  rw [get_flagNeedsReview, hsame] at ha
  split at ha
  · obtain ⟨b, hb, -⟩ := Option.map_eq_some_iff.mp ha
    exact occurring_of_get hb
  · exact occurring_of_get ha

/-- Only ids of the registry are flagged for review. -/
theorem occurring_of_needsReview (iter : HashOrder DurableId) (mint : ℕ → DurableId)
    (r : IdentityRegistry) (scope : Option (Finset String)) (sorted : List Entity) :
    ∀ id ∈ (matchEntities iter mint r scope sorted).needsReview, id ∈ occurring r := by
  unfold matchEntities
  dsimp only
  rw [needsReview_mintPass]
  exact (namesOnly_thirdPass iter r scope sorted).review

/-- Two reconciliations of one registry with permuted entities of pairwise
different paths, in any order of the hash maps, differ by a renaming of the
ids they mint. -/
theorem reconcile_order_independent (r : IdentityRegistry) (scope : Option (Finset String))
    (revision : Revision) {entities entities' : List Entity} (hp : entities'.Perm entities)
    (hd : (entities.map Entity.qualifiedPath).Nodup) (iter iter' : HashOrder DurableId)
    {mint mint' : ℕ → DurableId} (hm : Unused mint r) (hm' : Unused mint' r) :
    ∃ σ : Equiv.Perm DurableId, (∀ id ∈ occurring r, σ id = id) ∧
      (∀ k < entities.length, σ (mint k) = mint' k) ∧
      (reconcileImpl iter' mint' r entities' revision scope).1.bindings =
        (reconcileImpl iter mint r entities revision scope).1.bindings.map
          (fun cell => (cell.1, renameBinding σ cell.2)) ∧
      Renamed σ (reconcileImpl iter mint r entities revision scope).2
        (reconcileImpl iter' mint' r entities' revision scope).2 ∧
      (∀ id, id ∈ (reconcileImpl iter' mint' r entities' revision scope).1.retired ↔
        id ∈ (reconcileImpl iter mint r entities revision scope).1.retired) ∧
      (reconcileImpl iter' mint' r entities' revision scope).1.needsReview =
        (reconcileImpl iter mint r entities revision scope).1.needsReview := by
  obtain ⟨σ, hfix, hσ⟩ := exists_renaming hm hm' entities.length
  refine ⟨σ, hfix, hσ, ?_⟩
  have hlen : (sortEntities entities).length = entities.length :=
    (sortEntities_perm entities).length_eq
  have hmatch : RenamedMatching σ (matchEntities iter mint r scope (sortEntities entities))
      (matchEntities iter' mint' r scope (sortEntities entities)) :=
    matchEntities_renamed iter iter' hfix (sortEntities entities) fun k hk => hσ k (hlen ▸ hk)
  have hreview : (matchEntities iter' mint' r scope (sortEntities entities)).needsReview =
      (matchEntities iter mint r scope (sortEntities entities)).needsReview := by
    rw [hmatch.review]
    calc (matchEntities iter mint r scope (sortEntities entities)).needsReview.map σ =
        (matchEntities iter mint r scope (sortEntities entities)).needsReview.map id :=
          List.map_congr_left fun id hid =>
            hfix id (occurring_of_needsReview iter mint r scope _ id hid)
      _ = _ := List.map_id _
  have hflagged := ((Renamed.refl hfix).applyBindings hmatch revision
    (sortEntities entities)).flagNeedsReview
      (matchEntities iter mint r scope (sortEntities entities)).needsReview
  rw [← hmatch.review] at hflagged
  have hvan := @occurring_of_vanished iter mint r scope revision (sortEntities entities)
  have hretire := hflagged.retireVanished hmatch.bound iter iter' revision scope
  unfold reconcileImpl
  dsimp only
  rw [sortEntities_eq_of_perm hp hd]
  refine ⟨hmatch.bindings, hretire, ?_, hreview⟩
  intro id
  rw [(retireVanished_spec iter' revision scope _ _).1,
    (retireVanished_spec iter revision scope _ _).1]
  have hsame := vanished_renamed hflagged hmatch.bound scope
  constructor
  · intro h
    have hback := hsame (σ.symm id)
    rw [σ.apply_symm_apply, h] at hback
    have hid := hfix _ (hvan hback.symm)
    rw [σ.apply_symm_apply] at hid
    rw [hid]
    exact hback.symm
  · intro h
    have hforth := hsame id
    rw [hfix id (hvan h), h] at hforth
    exact hforth

/-- Long ids occur in no registry of short ones. -/
theorem longIds_unused {r : IdentityRegistry} {bound : ℕ}
    (h : ∀ id ∈ occurring r, id.length ≤ bound) : Unused (longIds bound) r where
  injective := longIds_injective bound
  unseen k hk := by
    have hlen := h _ hk
    simp only [longIds, String.length_ofList, List.length_replicate] at hlen
    omega

/-- The anchor store walked downwards. -/
def decreasing : HashOrder DurableId where
  order s := (HashOrder.increasing.order s).reverse
  exhaustive s := by rw [Multiset.coe_reverse, HashOrder.increasing.exhaustive]

/-- A deleted and an added function, extracted in two orders, with two
supplies of ids and the store walked up and down. -/
theorem reconcile_order_independent_two_functions :
    ∃ σ : Equiv.Perm DurableId, σ "A" = "A" ∧
      (reconcileImpl decreasing (longIds 7)
        (runCalls [wholeCall 0 1 [topFunction "a.py" "f" 1, topFunction "a.py" "g" 2]])
        [topFunction "b.py" "h" 3, topFunction "a.py" "f" 1] 2 none).1.bindings =
      (reconcileImpl HashOrder.increasing (longIds 5)
        (runCalls [wholeCall 0 1 [topFunction "a.py" "f" 1, topFunction "a.py" "g" 2]])
        [topFunction "a.py" "f" 1, topFunction "b.py" "h" 3] 2 none).1.bindings.map
          fun cell => (cell.1, renameBinding σ cell.2) := by
  have hperm : [topFunction "b.py" "h" 3, topFunction "a.py" "f" 1].Perm
      [topFunction "a.py" "f" 1, topFunction "b.py" "h" 3] := List.Perm.swap _ _ _
  have hshort : ∀ id ∈ occurring (runCalls [wholeCall 0 1 [topFunction "a.py" "f" 1,
      topFunction "a.py" "g" 2]]), id.length ≤ 5 := by decide +kernel
  have hshort' : ∀ id ∈ occurring (runCalls [wholeCall 0 1 [topFunction "a.py" "f" 1,
      topFunction "a.py" "g" 2]]), id.length ≤ 7 := fun id hid => (hshort id hid).trans (by omega)
  obtain ⟨σ, hfix, -, hbindings, -⟩ := reconcile_order_independent
    (runCalls [wholeCall 0 1 [topFunction "a.py" "f" 1, topFunction "a.py" "g" 2]]) none 2 hperm
    (by decide +kernel) HashOrder.increasing decreasing (longIds_unused hshort)
    (longIds_unused hshort')
  exact ⟨σ, hfix "A" (by decide +kernel), hbindings⟩

end Tyo3.ReconciliationOrder
