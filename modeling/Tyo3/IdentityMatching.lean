import Tyo3.IdentityReconciliation

/-!
# What the four passes bind

The five accumulators of the passes are views of one log: which entity got
which binding, in which order. Every entry of the log is justified by the
registry before the reconciliation, no entity and no id occurs twice, and
after the last pass every entity has an entry.
-/

namespace Tyo3.IdentityMatching

open Entities FiniteMaps IdentityAnchors IdentityReconciliation

/-- One binding with the entity it was made for. -/
structure Bound where
  /-- Position of the entity in path order. -/
  idx : ℕ
  /-- The entity. -/
  entity : Entity
  /-- Its binding. -/
  binding : Binding
  /-- Whether the binding was flagged for review. -/
  review : Bool
  deriving Inhabited

/-- The id of an entry. -/
abbrev Bound.id (x : Bound) : DurableId := x.binding.id

/-- The supply gives pairwise different ids unknown to the registry. -/
structure Fresh (mint : ℕ → DurableId) (r : IdentityRegistry) : Prop where
  /-- No id is handed out twice. -/
  injective : Function.Injective mint
  /-- No id handed out has an anchor. -/
  unknown : ∀ k, r.get (mint k) = none

/-- Why an entity may receive a binding, in terms of the registry before
the reconciliation. -/
def Justified (mint : ℕ → DurableId) (r : IdentityRegistry) (scope : Option (Finset String))
    (e : Entity) (review : Bool) : Binding → Prop
  | .exact id oldHash => r.byPath.lookup e.qualifiedPath = some id ∧
      (∃ a, r.get id = some a ∧ a.contentHash = oldHash) ∧ review = decide (oldHash ≠ e.contentHash)
  | .moved id oldPath oldHash => (∃ a, r.get id = some a ∧ a.contentHash = e.contentHash ∧
      a.qualifiedPath = oldPath ∧ a.contentHash = oldHash) ∧ anchorInScope r id scope = true ∧
      (oldPath ≠ e.qualifiedPath ∨ r.byPath.lookup oldPath = none) ∧ review = false
  | .struct id _ oldHash => (∃ a, r.get id = some a ∧ a.contentHash = oldHash ∧ a.name = e.name ∧
      a.kind = e.kind ∧ a.container = e.container) ∧ anchorInScope r id scope = true ∧ review = true
  | .minted id => (∃ k, id = mint k) ∧ review = false

/-- A justified binding that is not minted names a known anchor. -/
theorem Justified.known {mint : ℕ → DurableId} {r : IdentityRegistry}
    {scope : Option (Finset String)} {e : Entity} {review : Bool} {b : Binding}
    (h : Justified mint r scope e review b) (hb : b.isMinted = false) :
    ∃ a, r.get b.id = some a := by
  cases b with
  | exact id oldHash =>
    obtain ⟨-, ⟨a, ha, -⟩, -⟩ := h
    exact ⟨a, ha⟩
  | moved id oldPath oldHash =>
    obtain ⟨⟨a, ha, -⟩, -⟩ := h
    exact ⟨a, ha⟩
  | struct id confidence oldHash =>
    obtain ⟨⟨a, ha, -⟩, -⟩ := h
    exact ⟨a, ha⟩
  | minted id => cases hb

/-- The first pass offers the unconsumed anchor of the path. -/
theorem exactRule_justified {mint : ℕ → DurableId} {r : IdentityRegistry} (hl : r.Linked)
    {scope : Option (Finset String)} {st : Matching} {e : Entity} {b : Binding} {review : Bool}
    (h : exactRule r st e = some (b, review)) :
    Justified mint r scope e review b ∧ b.id ∉ st.boundIds ∧
      (b.isMinted = true → b.id = mint st.minted) ∧ b.isExact = true := by
  unfold exactRule at h
  cases hp : r.byPath.lookup e.qualifiedPath with
  | none =>
    rw [hp] at h
    cases h
  | some id =>
    rw [hp] at h
    dsimp only at h
    split at h
    · cases h
    · rename_i hfree
      cases h
      obtain ⟨a, ha, -⟩ := hl.path_anchor _ _ hp
      have hold : ((r.get id).map Anchor.contentHash).getD e.contentHash = a.contentHash := by
        rw [ha]
        rfl
      exact ⟨⟨hp, ⟨a, ha, hold.symm⟩, rfl⟩, hfree, nofun, rfl⟩

/-- The second pass offers an unconsumed anchor of the same hash. -/
theorem hashRule_justified {mint : ℕ → DurableId} {r : IdentityRegistry} (hl : r.Linked)
    {scope : Option (Finset String)} {st : Matching} {e : Entity} {b : Binding} {review : Bool}
    (h : hashRule r scope st e = some (b, review)) :
    Justified mint r scope e review b ∧ b.id ∉ st.boundIds ∧
      (b.isMinted = true → b.id = mint st.minted) ∧ b.isExact = false := by
  unfold hashRule at h
  cases hm : (hashCandidates r scope st e).min? with
  | none =>
    rw [hm] at h
    cases h
  | some id =>
    rw [hm] at h
    dsimp only at h
    have hmem : id ∈ hashCandidates r scope st e := List.min?_mem hm
    have hf := List.mem_filter.mp hmem
    obtain ⟨a, ha, hah⟩ := hl.hash_anchor _ _ hf.1
    have hc := hf.2
    rw [ha] at h hc
    cases h
    simp only [Bool.and_eq_true, decide_eq_true_eq] at hc
    exact ⟨⟨⟨a, ha, hah, rfl, rfl⟩, hc.1.2, hc.2, rfl⟩, hc.1.1, nofun, rfl⟩

/-- The third pass offers an unconsumed anchor of the same structure. -/
theorem structRule_justified {mint : ℕ → DurableId} {iter : HashOrder DurableId}
    {r : IdentityRegistry} {scope : Option (Finset String)} {st : Matching} {e : Entity}
    {b : Binding} {review : Bool} (h : structRule iter r scope st e = some (b, review)) :
    Justified mint r scope e review b ∧ b.id ∉ st.boundIds ∧
      (b.isMinted = true → b.id = mint st.minted) ∧ b.isExact = false := by
  unfold structRule at h
  split at h
  · cases h
  · rename_i id dist rest hsorted
    cases h
    have hmem : (id, dist) ∈ structCandidates iter r scope st e := by
      have hperm := List.perm_insertionSort (fun x y => closerFirst x y = true)
        (structCandidates iter r scope st e)
      rw [hsorted] at hperm
      exact hperm.mem_iff.mp List.mem_cons_self
    obtain ⟨id', -, hc⟩ := List.mem_filterMap.mp hmem
    cases ha : r.get id' with
    | none =>
      rw [ha] at hc
      cases hc
    | some a =>
      rw [ha] at hc
      dsimp only at hc
      split at hc
      · rename_i hcond
        cases hc
        obtain ⟨hfree, hscope, hname, hkind, hcontainer⟩ := hcond
        have hold : ((r.get id).map Anchor.contentHash).getD e.contentHash = a.contentHash := by
          rw [ha]
          rfl
        exact ⟨⟨⟨a, ha, hold.symm, hname, hkind, hcontainer⟩, hscope, rfl⟩, hfree, nofun, rfl⟩
      · cases hc

/-- The accumulators are views of a log of justified bindings. -/
structure Tracks (mint : ℕ → DurableId) (r : IdentityRegistry) (scope : Option (Finset String))
    (sorted : List Entity) (st : Matching) (log : List Bound) : Prop where
  /-- The binding list is the log. -/
  bindings : st.bindings = log.map fun x => (x.entity.qualifiedPath, x.binding)
  /-- Matched positions are the positions of the log. -/
  matched : ∀ i, i ∈ st.matchedEntities ↔ ∃ x ∈ log, x.idx = i
  /-- Bound ids are the ids of the log. -/
  bound : ∀ id, id ∈ st.boundIds ↔ ∃ x ∈ log, x.id = id
  /-- Review flags are those of the log. -/
  review : ∀ id, id ∈ st.needsReview ↔ ∃ x ∈ log, x.review = true ∧ x.id = id
  /-- A path entry comes from the log. -/
  by_path : ∀ p b, st.bindingsByPath.lookup p = some b →
    ∃ x ∈ log, x.entity.qualifiedPath = p ∧ x.binding = b
  /-- Every path of the log has an entry. -/
  path_known : ∀ x ∈ log, ∃ b, st.bindingsByPath.lookup x.entity.qualifiedPath = some b
  /-- Entries stand for the entity at their position. -/
  position : ∀ x ∈ log, sorted[x.idx]? = some x.entity
  /-- No position twice. -/
  once : (log.map Bound.idx).Nodup
  /-- No id twice. -/
  distinct : (log.map Bound.id).Nodup
  /-- Every entry is justified. -/
  justified : ∀ x ∈ log, Justified mint r scope x.entity x.review x.binding
  /-- Minted entries took the supply in order. -/
  supply : ∀ x ∈ log, x.binding.isMinted = true → ∃ k < st.minted, x.id = mint k

section Passes

variable {mint : ℕ → DurableId} {r : IdentityRegistry} {scope : Option (Finset String)}
  {sorted : List Entity} {st : Matching} {log : List Bound}

/-- Nothing is bound before the first pass. -/
theorem Tracks.start : Tracks mint r scope sorted Matching.start [] where
  bindings := rfl
  matched i := by simp [Matching.start]
  bound id := by simp [Matching.start]
  review id := by simp [Matching.start]
  by_path p b h := by simp [Matching.start] at h
  path_known x hx := by cases hx
  position x hx := by cases hx
  once := List.nodup_nil
  distinct := List.nodup_nil
  justified x hx := by cases hx
  supply x hx := by cases hx

/-! ### One more binding -/

/-- An entry of a longer log is an entry of the log or the last one. -/
theorem exists_mem_snoc {p : Bound → Prop} {x : Bound} :
    (∃ y ∈ log ++ [x], p y) ↔ (∃ y ∈ log, p y) ∨ p x := by
  simp only [List.mem_append, List.mem_singleton, or_and_right, exists_or, exists_eq_left]

/-- What holds of a log and of one more entry holds of the longer log. -/
theorem forall_mem_snoc {p : Bound → Prop} {x : Bound} (hlog : ∀ y ∈ log, p y) (hx : p x) :
    ∀ y ∈ log ++ [x], p y := by
  intro y hy
  rcases List.mem_append.mp hy with hold | hlast
  · exact hlog y hold
  · rwa [List.mem_singleton.mp hlast]

/-- A key that no entry has keeps the keys of a longer log apart. -/
theorem nodup_map_snoc {α : Type*} {key : Bound → α} {x : Bound} (hlog : (log.map key).Nodup)
    (hx : ∀ y ∈ log, key y ≠ key x) : ((log ++ [x]).map key).Nodup := by
  rw [List.map_append, List.map_singleton, List.nodup_append]
  refine ⟨hlog, List.nodup_singleton _, fun k hk k' hk' => ?_⟩
  obtain ⟨y, hy, rfl⟩ := List.mem_map.mp hk
  rw [List.mem_singleton.mp hk']
  exact hx y hy

section Bind

variable {idx : ℕ} {e : Entity} {b : Binding} {review : Bool}

theorem mem_matchedEntities_bind {i : ℕ} :
    i ∈ (st.bind idx e b review).matchedEntities ↔ i ∈ st.matchedEntities ∨ idx = i := by
  unfold Matching.bind
  rw [Finset.mem_insert, or_comm, eq_comm]

theorem mem_boundIds_bind {id : DurableId} :
    id ∈ (st.bind idx e b review).boundIds ↔ id ∈ st.boundIds ∨ b.id = id := by
  unfold Matching.bind
  rw [Finset.mem_insert, or_comm, eq_comm]

theorem mem_needsReview_bind {id : DurableId} :
    id ∈ (st.bind idx e b review).needsReview ↔
      id ∈ st.needsReview ∨ review = true ∧ b.id = id := by
  unfold Matching.bind
  cases review with
  | true => simp [eq_comm]
  | false => simp

theorem lookup_bindingsByPath_bind (p : String) :
    (st.bind idx e b review).bindingsByPath.lookup p =
      if p = e.qualifiedPath then some b else st.bindingsByPath.lookup p :=
  lookup_insert_ite _ _ _ _

/-- A binding takes at most one id from the supply. -/
theorem minted_le_bind : st.minted ≤ (st.bind idx e b review).minted := by
  simp only [Matching.bind]
  split <;> omega

/-- A binding of an unmatched entity to an unconsumed id extends the log. -/
theorem Tracks.bind (ht : Tracks mint r scope sorted st log) (hidx : idx ∉ st.matchedEntities)
    (he : sorted[idx]? = some e) (hj : Justified mint r scope e review b)
    (hfree : b.id ∉ st.boundIds) (hsupply : b.isMinted = true → b.id = mint st.minted) :
    Tracks mint r scope sorted (st.bind idx e b review) (log ++ [⟨idx, e, b, review⟩]) where
  bindings := by simp [Matching.bind, ht.bindings]
  matched i := by rw [mem_matchedEntities_bind, exists_mem_snoc, ht.matched]
  bound id := by rw [mem_boundIds_bind, exists_mem_snoc, ht.bound]
  review id := by rw [mem_needsReview_bind, exists_mem_snoc, ht.review]
  by_path p c hc := by
    rw [lookup_bindingsByPath_bind] at hc
    rw [exists_mem_snoc]
    split at hc
    · rename_i hp
      exact .inr ⟨hp.symm, Option.some.inj hc⟩
    · exact .inl (ht.by_path p c hc)
  path_known := by
    refine forall_mem_snoc (fun x hx => ?_) ?_
    · rw [lookup_bindingsByPath_bind]
      split
      · exact ⟨b, rfl⟩
      · exact ht.path_known x hx
    · exact ⟨b, (lookup_bindingsByPath_bind _).trans (if_pos rfl)⟩
  position := forall_mem_snoc ht.position he
  once := nodup_map_snoc ht.once fun x hx hsame => hidx ((ht.matched idx).mpr ⟨x, hx, hsame⟩)
  distinct := nodup_map_snoc ht.distinct fun x hx hsame =>
    hfree ((ht.bound b.id).mpr ⟨x, hx, hsame⟩)
  justified := forall_mem_snoc ht.justified hj
  supply := by
    refine forall_mem_snoc (fun x hx hm => ?_) fun hm => ?_
    · obtain ⟨k, hk, hxk⟩ := ht.supply x hx hm
      exact ⟨k, hk.trans_le minted_le_bind, hxk⟩
    · refine ⟨st.minted, ?_, hsupply hm⟩
      show st.minted < if b.isMinted then st.minted + 1 else st.minted
      rw [if_pos hm]
      exact Nat.lt_succ_self _

end Bind

/-- A rule is lawful when it only offers justified bindings to unconsumed
ids, all of one sort, taking minted ids from the supply in order. -/
def Lawful (mint : ℕ → DurableId) (r : IdentityRegistry) (scope : Option (Finset String))
    (sorted : List Entity) (sort : Binding → Prop)
    (rule : Matching → Entity → Option (Binding × Bool)) : Prop :=
  ∀ st log e b review, Tracks mint r scope sorted st log → rule st e = some (b, review) →
    Justified mint r scope e review b ∧ b.id ∉ st.boundIds ∧
      (b.isMinted = true → b.id = mint st.minted) ∧ sort b

/-- One step of a pass under a lawful rule extends the log, and consumed
ids stay consumed. -/
theorem matchStep_tracks {sort : Binding → Prop}
    {rule : Matching → Entity → Option (Binding × Bool)}
    (hr : Lawful mint r scope sorted sort rule) (ht : Tracks mint r scope sorted st log)
    {cell : Entity × ℕ} (hcell : cell ∈ sorted.zipIdx) :
    ∃ added, Tracks mint r scope sorted (matchStep rule st cell) (log ++ added) ∧
      (∀ x ∈ added, sort x.binding) ∧
      (cell.2 ∈ (matchStep rule st cell).matchedEntities ∨ rule st cell.1 = none) := by
  have hpos : sorted[cell.2]? = some cell.1 := List.mk_mem_zipIdx_iff_getElem?.mp hcell
  unfold matchStep
  split
  · rename_i h
    exact ⟨[], by rwa [List.append_nil], by simp, Or.inl h⟩
  · rename_i hfree
    cases hrule : rule st cell.1 with
    | none => exact ⟨[], by rwa [List.append_nil], by simp, Or.inr rfl⟩
    | some offer =>
      obtain ⟨b, review⟩ := offer
      obtain ⟨hj, hid, hsupply, hsort⟩ := hr st log cell.1 b review ht hrule
      refine ⟨[⟨cell.2, cell.1, b, review⟩], ht.bind hfree hpos hj hid hsupply, ?_,
        Or.inl (Finset.mem_insert_self _ _)⟩
      intro x hx
      rw [List.mem_singleton] at hx
      subst hx
      exact hsort

/-- Consumed ids stay consumed along a longer log. -/
theorem Tracks.bound_mono {st' : Matching} {added : List Bound}
    (ht : Tracks mint r scope sorted st log)
    (ht' : Tracks mint r scope sorted st' (log ++ added)) : st.boundIds ⊆ st'.boundIds := by
  intro id hid
  obtain ⟨x, hx, hxid⟩ := (ht.bound id).mp hid
  exact (ht'.bound id).mpr ⟨x, List.mem_append_left _ hx, hxid⟩

/-- Matched entities stay matched along a longer log. -/
theorem Tracks.matched_mono {st' : Matching} {added : List Bound}
    (ht : Tracks mint r scope sorted st log)
    (ht' : Tracks mint r scope sorted st' (log ++ added)) :
    st.matchedEntities ⊆ st'.matchedEntities := by
  intro i hi
  obtain ⟨x, hx, hxi⟩ := (ht.matched i).mp hi
  exact (ht'.matched i).mpr ⟨x, List.mem_append_left _ hx, hxi⟩

/-- A run of steps under a lawful rule extends the log, and every entity
offered either has a binding afterwards or was refused at a moment when no
more ids were consumed. -/
theorem foldl_matchStep_tracks {sort : Binding → Prop}
    {rule : Matching → Entity → Option (Binding × Bool)}
    (hr : Lawful mint r scope sorted sort rule) (cells : List (Entity × ℕ))
    (hcells : ∀ cell ∈ cells, cell ∈ sorted.zipIdx) (ht : Tracks mint r scope sorted st log) :
    ∃ added, Tracks mint r scope sorted (cells.foldl (matchStep rule) st) (log ++ added) ∧
      (∀ x ∈ added, sort x.binding) ∧
      ∀ cell ∈ cells, cell.2 ∈ (cells.foldl (matchStep rule) st).matchedEntities ∨
        ∃ st', st'.boundIds ⊆ (cells.foldl (matchStep rule) st).boundIds ∧
          rule st' cell.1 = none := by
  induction cells generalizing st log with
  | nil => exact ⟨[], by rwa [List.append_nil], by simp, by simp⟩
  | cons head tail ih =>
    obtain ⟨added₁, ht₁, hsort₁, hhead⟩ := matchStep_tracks hr ht (hcells head List.mem_cons_self)
    obtain ⟨added₂, ht₂, hsort₂, htail⟩ :=
      ih (fun cell h => hcells cell (List.mem_cons_of_mem _ h)) ht₁
    rw [List.foldl_cons]
    refine ⟨added₁ ++ added₂, by rwa [← List.append_assoc], ?_, ?_⟩
    · intro x hx
      rcases List.mem_append.mp hx with hx | hx
      · exact hsort₁ x hx
      · exact hsort₂ x hx
    · intro cell hcell
      rcases List.mem_cons.mp hcell with rfl | hcell
      · rcases hhead with h | h
        · exact Or.inl (ht₁.matched_mono ht₂ h)
        · exact Or.inr ⟨st, (ht.bound_mono ht₁).trans (ht₁.bound_mono ht₂), h⟩
      · exact htail cell hcell

/-- A whole pass, in the form the four passes use it. -/
theorem matchPass_tracks {sort : Binding → Prop}
    {rule : Matching → Entity → Option (Binding × Bool)}
    (hr : Lawful mint r scope sorted sort rule) (ht : Tracks mint r scope sorted st log) :
    ∃ added, Tracks mint r scope sorted (matchPass rule sorted st) (log ++ added) ∧
      (∀ x ∈ added, sort x.binding) ∧
      ∀ i e, sorted[i]? = some e → i ∈ (matchPass rule sorted st).matchedEntities ∨
        ∃ st', st'.boundIds ⊆ (matchPass rule sorted st).boundIds ∧ rule st' e = none := by
  obtain ⟨added, ht', hsort, hall⟩ :=
    foldl_matchStep_tracks hr sorted.zipIdx (fun _ h => h) ht
  refine ⟨added, ht', hsort, ?_⟩
  intro i e he
  exact hall (e, i) (List.mk_mem_zipIdx_iff_getElem?.mpr he)

/-- The first rule is lawful and makes exact bindings. -/
theorem exactRule_lawful (hl : r.Linked) :
    Lawful mint r scope sorted (fun b => b.isExact = true) (exactRule r) := by
  intro st log e b review _ h
  exact exactRule_justified hl h

/-- The second rule is lawful and makes no exact binding. -/
theorem hashRule_lawful (hl : r.Linked) :
    Lawful mint r scope sorted (fun b => b.isExact = false) (hashRule r scope) := by
  intro st log e b review _ h
  exact hashRule_justified hl h

/-- The third rule is lawful and makes no exact binding. -/
theorem structRule_lawful (iter : HashOrder DurableId) :
    Lawful mint r scope sorted (fun b => b.isExact = false) (structRule iter r scope) := by
  intro st log e b review _ h
  exact structRule_justified h

/-- The last rule is lawful: a fresh id is neither a known anchor nor one
that was minted before. -/
theorem mintRule_lawful (hf : Fresh mint r) :
    Lawful mint r scope sorted (fun b => b.isExact = false) (mintRule mint) := by
  intro st log e b review ht h
  unfold mintRule at h
  cases h
  refine ⟨⟨⟨st.minted, rfl⟩, rfl⟩, ?_, fun _ => rfl, rfl⟩
  intro hmem
  obtain ⟨x, hx, hid⟩ := (ht.bound _).mp hmem
  cases hm : x.binding.isMinted with
  | true =>
    obtain ⟨k, hk, hxk⟩ := ht.supply x hx hm
    have heq : k = st.minted := hf.injective (hxk.symm.trans hid)
    omega
  | false =>
    obtain ⟨a, ha⟩ := (ht.justified x hx).known hm
    have hnone := hf.unknown st.minted
    have hid' : x.binding.id = mint st.minted := hid
    rw [hid', hnone] at ha
    cases ha

/-- All four passes leave one log. It covers every entity; the exact
bindings come first, and an indexed path has one. -/
theorem matchEntities_tracks (iter : HashOrder DurableId) (hl : r.Linked) (hf : Fresh mint r)
    (scope : Option (Finset String)) (sorted : List Entity) :
    ∃ exact rest, Tracks mint r scope sorted (matchEntities iter mint r scope sorted)
        (exact ++ rest) ∧
      (∀ x ∈ exact, x.binding.isExact = true) ∧ (∀ x ∈ rest, x.binding.isExact = false) ∧
      (∀ i e, sorted[i]? = some e → ∃ x ∈ exact ++ rest, x.idx = i) ∧
      ∀ e ∈ sorted, ∀ id, r.byPath.lookup e.qualifiedPath = some id → ∃ x ∈ exact, x.id = id := by
  have h₀ : Tracks mint r scope sorted Matching.start [] := Tracks.start
  obtain ⟨exact, h₁, hsort₁, hall₁⟩ := matchPass_tracks (exactRule_lawful hl) h₀
  obtain ⟨rest₂, h₂, hsort₂, -⟩ := matchPass_tracks (hashRule_lawful hl) h₁
  obtain ⟨rest₃, h₃, hsort₃, -⟩ := matchPass_tracks (structRule_lawful iter) h₂
  obtain ⟨rest₄, h₄, hsort₄, hall₄⟩ := matchPass_tracks (mintRule_lawful hf) h₃
  rw [List.nil_append] at h₁
  have hlog : [] ++ exact ++ rest₂ ++ rest₃ ++ rest₄ = exact ++ (rest₂ ++ rest₃ ++ rest₄) := by
    simp only [List.nil_append, List.append_assoc]
  rw [hlog] at h₄
  refine ⟨exact, rest₂ ++ rest₃ ++ rest₄, h₄, hsort₁, ?_, ?_, ?_⟩
  · intro x hx
    rw [List.append_assoc, List.mem_append, List.mem_append] at hx
    rcases hx with hx | hx | hx
    · exact hsort₂ x hx
    · exact hsort₃ x hx
    · exact hsort₄ x hx
  · intro i e he
    rcases hall₄ i e he with h | ⟨st', -, h⟩
    · exact (h₄.matched i).mp h
    · cases h
  · intro e he id hid
    obtain ⟨i, hi⟩ := List.getElem?_of_mem he
    rcases hall₁ i e hi with h | ⟨st', hsub, h⟩
    · obtain ⟨x, hx, hxi⟩ := (h₁.matched i).mp h
      have hpos := h₁.position x hx
      rw [hxi, hi] at hpos
      cases hpos
      have hj := h₁.justified x hx
      have hexact := hsort₁ x hx
      refine ⟨x, hx, ?_⟩
      cases hb : x.binding with
      | exact id' oldHash =>
        rw [hb] at hj
        have hpath := hj.1
        rw [hid] at hpath
        cases hpath
        exact congrArg Binding.id hb
      | moved _ _ _ =>
        rw [hb] at hexact
        cases hexact
      | struct _ _ _ =>
        rw [hb] at hexact
        cases hexact
      | minted _ =>
        rw [hb] at hexact
        cases hexact
    · have hmem : id ∈ st'.boundIds := by
        unfold exactRule at h
        rw [hid] at h
        dsimp only at h
        split at h
        · rename_i hin
          exact hin
        · cases h
      exact (h₁.bound id).mp (hsub hmem)

end Passes

end Tyo3.IdentityMatching
