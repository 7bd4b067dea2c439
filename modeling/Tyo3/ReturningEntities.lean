import Tyo3.InheritedIds

/-!
# Entities that come back

An entity without an anchor under its path may still be known: by its hash,
or by its name, kind and container. The third pass compares the container an
anchor computes from its path with the container the extraction took from
the symbol tree. For nested symbols the two agree. At the top level the
extraction gives no container while the path of the anchor gives the file,
so the third pass never finds an anchor there.
-/

namespace Tyo3.ReturningEntities

open Entities FiniteMaps IdentityAnchors IdentityMatching IdentityPersistence IdentityPostState
  IdentityReconciliation IdentityRuns InheritedIds TextSearch

/-! ## Extracted entities -/

mutual

/-- The names of a tree are identifiers as far as paths are concerned: they
have no colon. -/
def Named : SymbolTree → Prop
  | .node info children => ':' ∉ info.name.toList ∧ NamedForest children

/-- The names of sibling trees have no colon. -/
def NamedForest : List SymbolTree → Prop
  | [] => True
  | tree :: trees => Named tree ∧ NamedForest trees

end

/-- An entity that the extraction finds in a file. -/
def Extracted (e : Entity) : Prop :=
  ∃ hashOf trees, e.file ≠ "" ∧ NamedForest trees ∧
    e ∈ collectEntitiesForest hashOf e.file none none trees

/-- How the path of an entity is made: container or file, then the name. -/
structure Placed (e : Entity) : Prop where
  /-- The path ends in the name. -/
  path : e.qualifiedPath = e.container.getD e.file ++ "::" ++ e.name
  /-- What precedes the name is not empty. -/
  front : e.container.getD e.file ≠ ""
  /-- The name has no colon. -/
  leaf : ':' ∉ e.name.toList

mutual

/-- Entities of a tree are placed under the given parent or below. -/
theorem placed_of_mem_recursive {hashOf : TextRange → ContentHash} {file : String}
    {parent dotted : Option String} {e : Entity} (hfront : parent.getD file ≠ "")
    (hfile : file ≠ "") :
    ∀ {tree : SymbolTree}, Named tree →
      e ∈ collectEntitiesRecursive hashOf file parent dotted tree → Placed e
  | .node info children, hnamed, h => by
    simp only [Named] at hnamed
    simp only [collectEntitiesRecursive, List.mem_cons] at h
    rcases h with hroot | hbelow
    · rw [hroot]
      refine ⟨?_, hfront, hnamed.1⟩
      cases parent <;> rfl
    · refine placed_of_mem_forest ?_ hfile hnamed.2 hbelow
      intro hempty
      have hlen := congrArg String.length hempty
      cases parent <;> simp at hlen

/-- Entities of sibling trees are placed under the given parent or below. -/
theorem placed_of_mem_forest {hashOf : TextRange → ContentHash} {file : String}
    {parent dotted : Option String} {e : Entity} (hfront : parent.getD file ≠ "")
    (hfile : file ≠ "") :
    ∀ {trees : List SymbolTree}, NamedForest trees →
      e ∈ collectEntitiesForest hashOf file parent dotted trees → Placed e
  | [], _, h => by
    simp only [collectEntitiesForest, List.not_mem_nil] at h
  | tree :: trees, hnamed, h => by
    simp only [NamedForest] at hnamed
    simp only [collectEntitiesForest, List.mem_append] at h
    rcases h with hfirst | hrest
    · exact placed_of_mem_recursive hfront hfile hnamed.1 hfirst
    · exact placed_of_mem_forest hfront hfile hnamed.2 hrest

end

theorem Extracted.placed {e : Entity} (h : Extracted e) : Placed e := by
  obtain ⟨hashOf, trees, hfile, hnamed, hmem⟩ := h
  have hfront : (none : Option String).getD e.file ≠ "" := hfile
  exact placed_of_mem_forest hfront hfile hnamed hmem

/-- The path of a placed entity splits into what it was made from. -/
theorem Placed.rsplitOnce {e : Entity} (h : Placed e) :
    TextSearch.rsplitOnce "::" e.qualifiedPath = some (e.container.getD e.file, e.name) := by
  have hchars : e.qualifiedPath.toList =
      (e.container.getD e.file).toList ++ ':' :: ':' :: e.name.toList := by
    rw [h.path, String.toList_append, String.toList_append, List.append_assoc]
    rfl
  have hsep : ("::" : String).toList = [':', ':'] := rfl
  unfold TextSearch.rsplitOnce
  rw [hchars, hsep, splitLast_doubled h.leaf, Option.map_some, String.ofList_toList,
    String.ofList_toList]

/-- The name an anchor computes from the path of an entity is its name. -/
theorem name_of_placed {e : Entity} (h : Placed e) {a : Anchor}
    (ha : e.qualifiedPath = a.qualifiedPath) : a.name = e.name := by
  unfold Anchor.name
  rw [← ha, h.rsplitOnce]

/-- The container an anchor computes from the path of an entity is its
container, and at the top level its file. -/
theorem container_of_placed {e : Entity} (h : Placed e) {a : Anchor}
    (ha : e.qualifiedPath = a.qualifiedPath) : a.container = some (e.container.getD e.file) := by
  unfold Anchor.container
  rw [← ha, h.rsplitOnce]
  exact if_neg h.front

/-- Nested entities of one name and container are at one path. -/
theorem Placed.path_eq {e x : Entity} (he : Placed e) (hx : Placed x) (hname : e.name = x.name)
    (hcontainer : e.container = x.container) (hnested : e.container ≠ none) :
    e.qualifiedPath = x.qualifiedPath := by
  obtain ⟨p, hp⟩ := Option.ne_none_iff_exists'.mp hnested
  rw [he.path, hx.path, ← hcontainer, hname, hp]
  rfl

/-! ## Registries with the entities behind them -/

/-- Registries reached by calls on extracted entities with fresh ids, with
all entities of the run so far. -/
inductive Reached : List Entity → IdentityRegistry → Prop
  | start : Reached [] IdentityRegistry.empty
  | step {history : List Entity} {r : IdentityRegistry} (c : Call) (hr : Reached history r)
      (hf : Fresh c.mint r) (hx : ∀ e ∈ c.entities, Extracted e) :
      Reached (c.entities ++ history) (c.run r).2

theorem Reached.reachable {history : List Entity} {r : IdentityRegistry}
    (h : Reached history r) : ReachableBy (fun _ _ => True) r := by
  induction h with
  | start => exact ReachableBy.start
  | step c _ hf _ ih => exact ReachableBy.step c ih hf trivial

theorem Reached.extracted {history : List Entity} {r : IdentityRegistry}
    (h : Reached history r) : ∀ e ∈ history, Extracted e := by
  induction h with
  | start => simp
  | step c _ _ hx ih =>
    intro e he
    rcases List.mem_append.mp he with hnew | hold
    · exact hx e hnew
    · exact ih e hold

/-- Every anchor has a path of the given list. -/
def PathsIn (paths : List String) (r : IdentityRegistry) : Prop :=
  ∀ id a, r.get id = some a → a.qualifiedPath ∈ paths

section Paths

variable {paths : List String} {r : IdentityRegistry}

theorem PathsIn.setStatus (h : PathsIn paths r) (id : DurableId) (status : IdentityStatus) :
    PathsIn paths (r.setStatus id status) := by
  intro id' a ha
  rw [IdentityRegistry.get_setStatus] at ha
  split at ha
  · obtain ⟨b, hb, rfl⟩ := Option.map_eq_some_iff.mp ha
    exact h id b hb
  · exact h id' a ha

theorem PathsIn.retire (h : PathsIn paths r) (id : DurableId) (rev : Revision) :
    PathsIn paths (r.retire id rev) := by
  intro id' a ha
  rw [IdentityRegistry.get_retire] at ha
  split at ha
  · obtain ⟨b, hb, rfl⟩ := Option.map_eq_some_iff.mp ha
    have hpath := h id b hb
    split
    · exact hpath
    · exact hpath
  · exact h id' a ha

/-- Applying a binding writes the path of the entity. -/
theorem PathsIn.applyBinding (h : PathsIn paths r) {e : Entity} (he : e.qualifiedPath ∈ paths)
    (revision : Revision) (needsReview : List DurableId) (b : Binding) :
    PathsIn paths (applyBinding revision needsReview r e b) := by
  have hrebind : ∀ id, PathsIn paths (r.rebind id e.qualifiedPath e.contentHash revision) := by
    intro id id' a ha
    rw [IdentityRegistry.get_rebind] at ha
    split at ha
    · obtain ⟨c, -, rfl⟩ := Option.map_eq_some_iff.mp ha
      exact he
    · exact h id' a ha
  have hknown : ∀ id, PathsIn paths
      (if id ∈ needsReview then r.rebind id e.qualifiedPath e.contentHash revision
        else (r.rebind id e.qualifiedPath e.contentHash revision).setStatus id .active) := by
    intro id
    split
    · exact hrebind id
    · exact (hrebind id).setStatus id .active
  cases b with
  | minted id =>
    intro id' a ha
    unfold IdentityReconciliation.applyBinding at ha
    dsimp only at ha
    rw [IdentityRegistry.get_insert] at ha
    split at ha
    · cases ha
      exact he
    · exact h id' a ha
  | exact id _ => exact hknown id
  | moved id _ _ => exact hknown id
  | struct id _ _ => exact hknown id

/-- A whole reconciliation writes paths of its entities only. -/
theorem PathsIn.run (h : PathsIn paths r) (c : Call) :
    PathsIn (c.entities.map Entity.qualifiedPath ++ paths) (c.run r).2 := by
  have hstart : PathsIn (c.entities.map Entity.qualifiedPath ++ paths) r :=
    fun id a ha => List.mem_append_right _ (h id a ha)
  have hsorted : ∀ e ∈ sortEntities c.entities,
      e.qualifiedPath ∈ c.entities.map Entity.qualifiedPath ++ paths := by
    intro e he
    have hmem := (sortEntities_perm c.entities).mem_iff.mp he
    exact List.mem_append_left _ (List.mem_map_of_mem hmem)
  unfold Call.run reconcileImpl retireVanished
  dsimp only
  generalize matchEntities c.iter c.mint r c.scope (sortEntities c.entities) = st
  have happlied : PathsIn (c.entities.map Entity.qualifiedPath ++ paths)
      (applyBindings c.revision st (sortEntities c.entities) r) := by
    unfold applyBindings
    refine List.foldlRecOn (motive := PathsIn _) _ _ hstart ?_
    intro s hs e he
    split
    · exact hs
    · exact hs.applyBinding (hsorted e he) _ _ _
  have hflagged : PathsIn (c.entities.map Entity.qualifiedPath ++ paths)
      (flagNeedsReview st.needsReview
        (applyBindings c.revision st (sortEntities c.entities) r)) := by
    unfold flagNeedsReview
    exact List.foldlRecOn (motive := PathsIn _) _ _ happlied fun s hs id _ => hs.setStatus id _
  generalize flagNeedsReview st.needsReview
    (applyBindings c.revision st (sortEntities c.entities) r) = flagged at hflagged ⊢
  refine List.foldlRecOn (motive := fun acc : List DurableId × IdentityRegistry =>
    PathsIn _ acc.2) _ _ hflagged ?_
  intro acc hacc id _
  unfold retireStep
  split
  · exact hacc
  · split
    · exact hacc
    · split
      · exact hacc
      · exact hacc.retire id _

end Paths

/-- The path of an anchor is the path of an entity of the run. -/
theorem Reached.path_known {history : List Entity} {r : IdentityRegistry}
    (h : Reached history r) : PathsIn (history.map Entity.qualifiedPath) r := by
  induction h with
  | start =>
    intro id a ha
    cases ha
  | step c _ _ _ ih =>
    rw [List.map_append]
    exact ih.run c

/-- An anchor of a run gives a container for itself. -/
theorem Reached.container_ne_none {history : List Entity} {r : IdentityRegistry}
    (h : Reached history r) {id : DurableId} {a : Anchor} (ha : r.get id = some a) :
    a.container ≠ none := by
  obtain ⟨e, he, hpath⟩ := List.mem_map.mp (h.path_known id a ha)
  rw [container_of_placed (h.extracted e he).placed hpath]
  exact Option.some_ne_none _

/-! ## Who is minted -/

theorem exists_eq_struct {b : Binding} (h : isStruct b = true) :
    ∃ id confidence oldHash, b = .struct id confidence oldHash := by
  cases b with
  | struct id confidence oldHash => exact ⟨id, confidence, oldHash, rfl⟩
  | exact _ _ => cases h
  | moved _ _ _ => cases h
  | minted _ => cases h

theorem exists_eq_minted {b : Binding} (h : b.isMinted = true) : ∃ id, b = .minted id := by
  cases b with
  | minted id => exact ⟨id, rfl⟩
  | exact _ _ => cases h
  | moved _ _ _ => cases h
  | struct _ _ _ => cases h

section Passes

variable {mint : ℕ → DurableId} {r : IdentityRegistry} {scope : Option (Finset String)}
  {sorted : List Entity}

/-- The accumulators after the exact and the hash pass. -/
def hashMatched (r : IdentityRegistry) (scope : Option (Finset String)) (sorted : List Entity) :
    Matching :=
  matchPass (hashRule r scope) sorted (matchPass (exactRule r) sorted Matching.start)

/-- The third pass refuses an entity only when every anchor of its name,
kind and container in scope is consumed. -/
theorem mem_boundIds_of_refused {iter : HashOrder DurableId} {st : Matching} {e : Entity}
    (h : structRule iter r scope st e = none) {id : DurableId} {a : Anchor}
    (ha : r.get id = some a) (hscope : anchorInScope r id scope = true) (hname : a.name = e.name)
    (hkind : a.kind = e.kind) (hcontainer : a.container = e.container) : id ∈ st.boundIds := by
  by_contra hfree
  have hmem : (id, editDistance a.qualifiedPath e.qualifiedPath) ∈
      structCandidates iter r scope st e := by
    refine List.mem_filterMap.mpr ⟨id, (iter.mem_order _ _).mpr ((mem_keys_iff _ _).mpr ⟨a, ha⟩), ?_⟩
    rw [ha]
    exact if_pos ⟨hfree, hscope, hname, hkind, hcontainer⟩
  have hsorted := (List.mem_insertionSort (fun x y => closerFirst x y = true)).mpr hmem
  unfold structRule at h
  split at h
  · rename_i hnil
    rw [hnil] at hsorted
    cases hsorted
  · cases h

/-- The log of the four passes in three parts: what the first two passes
find, what the third one finds and what is minted. -/
theorem matchEntities_parts (iter : HashOrder DurableId) (hl : r.Linked) (hf : Fresh mint r)
    (scope : Option (Finset String))
    (hs : sorted.Pairwise fun a b => a.qualifiedPath < b.qualifiedPath) :
    ∃ found struct minted, Tracks mint r scope sorted (hashMatched r scope sorted) found ∧
      Dealt r scope sorted sorted.length (hashMatched r scope sorted) ∧
      Tracks mint r scope sorted (matchEntities iter mint r scope sorted)
        (found ++ struct ++ minted) ∧
      (∀ x ∈ found, x.binding.isExact = true ∨ isMoved x.binding = true) ∧
      (∀ x ∈ struct, isStruct x.binding = true) ∧ (∀ x ∈ minted, x.binding.isMinted = true) ∧
      (∀ i e, sorted[i]? = some e → ∃ x ∈ found ++ struct ++ minted, x.idx = i) ∧
      ∀ x ∈ minted, ∀ id a, r.get id = some a → anchorInScope r id scope = true →
        a.name = x.entity.name → a.kind = x.entity.kind → a.container = x.entity.container →
        ∃ y ∈ found ++ struct, y.id = id := by
  have h₀ : Tracks mint r scope sorted Matching.start [] := Tracks.start
  obtain ⟨exact, h₁, hsort₁, hall₁⟩ := matchPass_tracks (exactRule_lawful hl) h₀
  obtain ⟨moved, h₂, hsort₂, -⟩ :=
    matchPass_tracks (Lawful.refine (hashRule_lawful hl) hashRule_isMoved) h₁
  obtain ⟨struct, h₃, hsort₃, hall₃⟩ :=
    matchPass_tracks (Lawful.refine (structRule_lawful iter) (structRule_isStruct iter)) h₂
  obtain ⟨minted, h₄, hsort₄, hall₄⟩ :=
    matchPass_tracks (Lawful.refine (mintRule_lawful hf) mintRule_isMinted) h₃
  rw [List.nil_append] at h₁ h₂ h₃ h₄
  refine ⟨exact ++ moved, struct, minted, h₂, dealt_hashPass hl hs h₁ hsort₁ hall₁, h₄, ?_, hsort₃,
    hsort₄, ?_, ?_⟩
  · intro x hx
    exact (List.mem_append.mp hx).imp (hsort₁ x) (hsort₂ x)
  · intro i e he
    rcases hall₄ i e he with h | ⟨st, -, h⟩
    · exact (h₄.matched i).mp h
    · cases h
  · intro x hx id a ha hscope hname hkind hcontainer
    have hpos := h₄.position x (List.mem_append_right _ hx)
    rcases hall₃ x.idx x.entity hpos with hm | ⟨st, hsub, hnone⟩
    · -- matched before the last pass and minted in it: two entries of one position
      obtain ⟨y, hy, hidx⟩ := (h₃.matched x.idx).mp hm
      have honce := h₄.once
      rw [List.map_append, List.nodup_append] at honce
      exact (honce.2.2 y.idx (List.mem_map_of_mem hy) x.idx (List.mem_map_of_mem hx) hidx).elim
    · exact (h₃.bound id).mp (hsub (mem_boundIds_of_refused hnone ha hscope hname hkind hcontainer))

/-- The first two passes consume what paths hold and heirs inherit. -/
theorem mem_hashMatched_iff {found : List Bound}
    (ht : Tracks mint r scope sorted (hashMatched r scope sorted) found)
    (hdealt : Dealt r scope sorted sorted.length (hashMatched r scope sorted))
    (hsort : ∀ x ∈ found, x.binding.isExact = true ∨ isMoved x.binding = true)
    (hl : r.Linked) (id : DurableId) : id ∈ (hashMatched r scope sorted).boundIds ↔
      heldByPath r sorted id = true ∨ ∃ e ∈ sorted, heir r scope sorted e = some id := by
  constructor
  · intro hid
    obtain ⟨x, hx, rfl⟩ := (ht.bound id).mp hid
    have hpos := List.mem_of_getElem? (ht.position x hx)
    have hj := ht.justified x hx
    have hs := hsort x hx
    have hlisted : (x.entity.qualifiedPath, x.binding) ∈ (hashMatched r scope sorted).bindings := by
      rw [ht.bindings]
      exact List.mem_map_of_mem hx
    cases hb : x.binding with
    | exact id oldHash =>
      rw [hb] at hj
      left
      rw [Bound.id, hb]
      exact List.any_eq_true.mpr ⟨x.entity, hpos, decide_eq_true hj.1⟩
    | moved id oldPath oldHash =>
      rw [hb, hdealt.moved] at hlisted
      obtain ⟨i, -, e, hi, -, hheir, -⟩ := hlisted
      right
      rw [Bound.id, hb]
      exact ⟨e, List.mem_of_getElem? hi, hheir⟩
    | struct _ _ _ =>
      rw [hb] at hs
      rcases hs with h | h <;> cases h
    | minted _ =>
      rw [hb] at hs
      rcases hs with h | h <;> cases h
  · rintro (hheld | ⟨e, he, hheir⟩)
    · exact hdealt.held id hheld
    · obtain ⟨i, hi⟩ := List.getElem?_of_mem he
      have hspare : id ∈ spareIds r scope sorted e.contentHash := by
        unfold heir at hheir
        split at hheir
        · exact List.mem_of_getElem? hheir
        · cases hheir
      obtain ⟨a, ha, -⟩ := hl.hash_anchor _ _ (mem_spareIds.mp hspare).1
      have hlisted := (hdealt.moved e.qualifiedPath id a.qualifiedPath a.contentHash).mpr
        ⟨i, (List.getElem?_eq_some_iff.mp hi).1, e, hi, rfl, hheir, a, ha, rfl, rfl⟩
      rw [ht.bindings] at hlisted
      obtain ⟨x, hx, hxb⟩ := List.mem_map.mp hlisted
      exact (ht.bound id).mpr ⟨x, hx, congrArg Binding.id (congrArg Prod.snd hxb)⟩

end Passes

/-- An anchor in scope that the exact and the hash pass leave. -/
structure LeftOver (r : IdentityRegistry) (c : Call) (id : DurableId) (a : Anchor) : Prop where
  /-- The anchor of the id. -/
  known : r.get id = some a
  /-- Its file is in scope. -/
  inScope : anchorInScope r id c.scope = true
  /-- No entity has consumed it. -/
  free : id ∉ (hashMatched r c.scope (sortEntities c.entities)).boundIds

/-- An anchor goes back to an entity of this name, kind and container. Its
path was written from an entity of the run, its kind when it was minted. -/
def CreatedFrom (history : List Entity) (a : Anchor) (e : Entity) : Prop :=
  a.kind = e.kind ∧ ∃ e₀ ∈ history, e₀.qualifiedPath = a.qualifiedPath ∧ e₀.name = e.name ∧
    e₀.container = e.container

/-- An entity without an anchor under its path is minted an id only when the
first two passes leave no anchor of its hash and none that goes back to an
entity of its name, kind and container. -/
def KeepsReturning (history : List Entity) (r : IdentityRegistry) (c : Call) : Prop :=
  ∀ e ∈ c.entities, r.byPath.lookup e.qualifiedPath = none →
    ∀ fresh, (e.qualifiedPath, Binding.minted fresh) ∈ (c.run r).1.bindings →
      ∀ id a, LeftOver r c id a → a.contentHash ≠ e.contentHash ∧ ¬CreatedFrom history a e

/-- No path of an entity holds the id and no entity inherits it. -/
def Unclaimed (r : IdentityRegistry) (c : Call) (id : DurableId) : Prop :=
  anchorInScope r id c.scope = true ∧ heldByPath r c.entities id = false ∧
    ∀ e ∈ c.entities, heir r c.scope c.entities e ≠ some id

/-- A top-level entity without an anchor under its path and without a share
by hash meets no unclaimed top-level anchor of its name and kind. -/
def TopLevelNew (history : List Entity) (r : IdentityRegistry) (c : Call) : Prop :=
  ∀ e ∈ c.entities, e.container = none → r.byPath.lookup e.qualifiedPath = none →
    heir r c.scope c.entities e = none → ∀ id a, r.get id = some a → Unclaimed r c id →
      (∃ e₀ ∈ history, e₀.container = none ∧ e₀.qualifiedPath = a.qualifiedPath) →
      ¬(a.name = e.name ∧ a.kind = e.kind)

section Calls

variable {history : List Entity} {r : IdentityRegistry} {c : Call}

/-- What the first two passes leave is what is unclaimed. -/
theorem leftOver_iff (hl : r.Linked) (hf : Fresh c.mint r) (hd : DistinctPaths r c)
    (id : DurableId) (a : Anchor) :
    LeftOver r c id a ↔ r.get id = some a ∧ Unclaimed r c id := by
  obtain ⟨found, struct, minted, ht, hdealt, -, hsort, -⟩ :=
    matchEntities_parts c.iter hl hf c.scope (sortEntities_strict hd)
  have hperm := sortEntities_perm c.entities
  have hheld : heldByPath r (sortEntities c.entities) id = heldByPath r c.entities id := by
    unfold heldByPath
    exact hperm.any_eq
  have hbound := mem_hashMatched_iff ht hdealt hsort hl id
  simp only [hheld, heir_perm hperm, hperm.mem_iff] at hbound
  constructor
  · rintro ⟨hget, hscope, hfree⟩
    rw [hbound, not_or, Bool.not_eq_true] at hfree
    exact ⟨hget, hscope, hfree.1, fun e he hheir => hfree.2 ⟨e, he, hheir⟩⟩
  · rintro ⟨hget, hscope, hfree, hnone⟩
    refine ⟨hget, hscope, ?_⟩
    rw [hbound, not_or, Bool.not_eq_true]
    exact ⟨hfree, fun ⟨e, he, hheir⟩ => hnone e he hheir⟩

/-- A minted entity was left without an anchor by path and by hash; of its
hash no anchor is left over, and below the top level none of its name, kind
and container. -/
theorem leftover_of_minted (hs : r.Sound) (hf : Fresh c.mint r) (hd : DistinctPaths r c)
    (hplaced : ∀ e ∈ c.entities, Placed e) {e : Entity} (he : e ∈ c.entities) {fresh : DurableId}
    (hm : (e.qualifiedPath, Binding.minted fresh) ∈ (c.run r).1.bindings) :
    heir r c.scope c.entities e = none ∧ ∀ id a, LeftOver r c id a →
      a.contentHash ≠ e.contentHash ∧ (e.container ≠ none → a.name = e.name → a.kind = e.kind →
        a.container = e.container → False) := by
  have hl := hs.linked
  have hperm := sortEntities_perm c.entities
  obtain ⟨found, struct, minted, ht, hdealt, hall, hfound, hstruct, hminted, -, hrefused⟩ :=
    matchEntities_parts c.iter hl hf c.scope (sortEntities_strict hd)
  have hbindings : (c.run r).1.bindings = (found ++ struct ++ minted).map
      fun x => (x.entity.qualifiedPath, x.binding) := hall.bindings
  rw [hbindings] at hm
  obtain ⟨x, hx, hxb⟩ := List.mem_map.mp hm
  have hbind : x.binding = .minted fresh := congrArg Prod.snd hxb
  have hentity : x.entity = e := by
    have hmem := hperm.mem_iff.mp (List.mem_of_getElem? (hall.position x hx))
    exact List.inj_on_of_nodup_map hd hmem he (congrArg Prod.fst hxb)
  have hxm : x ∈ minted := by
    rcases List.mem_append.mp hx with hx | hx
    · rcases List.mem_append.mp hx with hx | hx
      · have hsort := hfound x hx
        rw [hbind] at hsort
        rcases hsort with h | h <;> cases h
      · have hsort := hstruct x hx
        rw [hbind] at hsort
        cases hsort
    · exact hx
  have honce := hall.once
  rw [List.map_append, List.nodup_append] at honce
  have hunmatched : x.idx ∉ (hashMatched r c.scope (sortEntities c.entities)).matchedEntities := by
    intro hmatched
    obtain ⟨y, hy, hidx⟩ := (ht.matched x.idx).mp hmatched
    exact honce.2.2 y.idx (List.mem_map_of_mem (List.mem_append_left _ hy)) x.idx
      (List.mem_map_of_mem hxm) hidx
  have hpos := hall.position x hx
  rw [hdealt.matched x.idx x.entity hpos, hentity, not_or, not_not] at hunmatched
  obtain ⟨hpath, hnoshare⟩ := hunmatched
  have hheir : heir r c.scope (sortEntities c.entities) e = none := by
    by_contra h
    exact hnoshare ⟨(List.getElem?_eq_some_iff.mp hpos).1, h⟩
  refine ⟨heir_perm hperm e ▸ hheir, ?_⟩
  rintro id a ⟨hget, hscope, hfree⟩
  refine ⟨?_, ?_⟩
  · intro hhash
    have hlisted : id ∈ r.hashIds e.contentHash := (hs.mem_hashIds _ id).mpr ⟨a, hget, hhash⟩
    have hheld : heldByPath r (sortEntities c.entities) id = false := by
      cases hh : heldByPath r (sortEntities c.entities) id with
      | false => rfl
      | true => exact (hfree (hdealt.held id hh)).elim
    exact hfree (hdealt.consumed hpath hheir (mem_spareIds.mpr ⟨hlisted, hscope, hheld⟩))
  · intro hnested hname hkind hcontainer
    obtain ⟨y, hy, hyid⟩ := hrefused x hxm id a hget hscope (hentity ▸ hname) (hentity ▸ hkind)
      (hentity ▸ hcontainer)
    rcases List.mem_append.mp hy with hy | hy
    · exact hfree ((ht.bound id).mpr ⟨y, hy, hyid⟩)
    · -- another entity of the same name and container: it has the same path
      have hyall : y ∈ found ++ struct ++ minted :=
        List.mem_append_left _ (List.mem_append_right _ hy)
      have hj := hall.justified y hyall
      have hymem := hperm.mem_iff.mp (List.mem_of_getElem? (hall.position y hyall))
      obtain ⟨k, confidence, oldHash, hb⟩ := exists_eq_struct (hstruct y hy)
      rw [hb] at hj
      obtain ⟨⟨b, hbget, -, hbname, -, hbcontainer⟩, -⟩ := hj
      have hk : k = id := by
        rw [← hyid, Bound.id, hb]
        rfl
      rw [hk, hget] at hbget
      cases hbget
      have hpaths := (hplaced e he).path_eq (hplaced _ hymem) (hname.symm.trans hbname)
        (hcontainer.symm.trans hbcontainer) hnested
      have hsame : y.entity = e := List.inj_on_of_nodup_map hd hymem he hpaths.symm
      have hidx : y.idx = x.idx := by
        have hylt := (List.getElem?_eq_some_iff.mp (hall.position y hyall)).1
        have hnd : (sortEntities c.entities).Nodup :=
          (sortEntities_strict hd).imp fun hlt heq => hlt.ne (congrArg _ heq)
        refine (List.getElem?_inj hylt hnd).mp ?_
        rw [hall.position y hyall, hpos, hsame, hentity]
      exact honce.2.2 y.idx (List.mem_map_of_mem (List.mem_append_right _ hy)) x.idx
        (List.mem_map_of_mem hxm) hidx

/-- At the top level nothing stands between the hash pass and a new id. -/
theorem exists_minted_of_top (hr : Reached history r) (hf : Fresh c.mint r)
    (hd : DistinctPaths r c) {e : Entity} (he : e ∈ c.entities) (htop : e.container = none)
    (hpath : r.byPath.lookup e.qualifiedPath = none)
    (hheir : heir r c.scope c.entities e = none) :
    ∃ fresh, (e.qualifiedPath, Binding.minted fresh) ∈ (c.run r).1.bindings := by
  have hl := hr.reachable.sound.linked
  have hperm := sortEntities_perm c.entities
  obtain ⟨found, struct, minted, ht, hdealt, hall, -, hstruct, hminted, hcover, -⟩ :=
    matchEntities_parts c.iter hl hf c.scope (sortEntities_strict hd)
  obtain ⟨i, hi⟩ := List.getElem?_of_mem (hperm.mem_iff.mpr he)
  obtain ⟨x, hx, hidx⟩ := hcover i e hi
  have hentity : x.entity = e := by
    have hpos := hall.position x hx
    rw [hidx, hi] at hpos
    exact (Option.some_inj.mp hpos).symm
  have hbindings : (c.run r).1.bindings = (found ++ struct ++ minted).map
      fun x => (x.entity.qualifiedPath, x.binding) := hall.bindings
  have hlisted : (e.qualifiedPath, x.binding) ∈ (c.run r).1.bindings := by
    rw [hbindings, ← hentity]
    exact List.mem_map_of_mem hx
  rcases List.mem_append.mp hx with hfirst | hlast
  · exfalso
    rcases List.mem_append.mp hfirst with hfound | hfound
    · have hmatched := (ht.matched i).mpr ⟨x, hfound, hidx⟩
      rw [hdealt.matched i e hi, heir_perm hperm] at hmatched
      rcases hmatched with h | h
      · exact h hpath
      · exact h.2 hheir
    · have hj := hall.justified x hx
      obtain ⟨id, confidence, oldHash, hb⟩ := exists_eq_struct (hstruct x hfound)
      rw [hb, hentity] at hj
      obtain ⟨⟨a, ha, -, -, -, hcontainer⟩, -⟩ := hj
      exact hr.container_ne_none ha (hcontainer.trans htop)
  · obtain ⟨fresh, hb⟩ := exists_eq_minted (hminted x hlast)
    exact ⟨fresh, hb ▸ hlisted⟩

end Calls

/-- Returning entities keep their ids exactly when none of them returns at
the top level with another body. -/
theorem keepsReturning_iff {history : List Entity} {r : IdentityRegistry}
    (hr : Reached history r) (c : Call) (hf : Fresh c.mint r) (hd : DistinctPaths r c)
    (hx : ∀ e ∈ c.entities, Extracted e) :
    KeepsReturning history r c ↔ TopLevelNew history r c := by
  have hs := hr.reachable.sound
  constructor
  · intro hkeeps e he htop hpath hheir id a hget hfree hbehind hlike
    obtain ⟨e₀, he₀, htop₀, hpath₀⟩ := hbehind
    obtain ⟨fresh, hminted⟩ := exists_minted_of_top hr hf hd he htop hpath hheir
    have hleft := (leftOver_iff hs.linked hf hd id a).mpr ⟨hget, hfree⟩
    have hname : e₀.name = e.name :=
      (name_of_placed (hr.extracted e₀ he₀).placed hpath₀).symm.trans hlike.1
    exact (hkeeps e he hpath fresh hminted id a hleft).2
      ⟨hlike.2, e₀, he₀, hpath₀, hname, htop₀.trans htop.symm⟩
  · intro hnew e he hpath fresh hminted id a hleft
    obtain ⟨hheir, hnone⟩ :=
      leftover_of_minted hs hf hd (fun x hx' => (hx x hx').placed) he hminted
    obtain ⟨hhash, hstruct⟩ := hnone id a hleft
    refine ⟨hhash, ?_⟩
    rintro ⟨hkind, e₀, he₀, hpath₀, hname, hcontainer⟩
    have hplaced := (hr.extracted e₀ he₀).placed
    have hnamed := (name_of_placed hplaced hpath₀).trans hname
    by_cases htop : e.container = none
    · obtain ⟨hget, hfree⟩ := (leftOver_iff hs.linked hf hd id a).mp hleft
      exact hnew e he htop hpath hheir id a hget hfree ⟨e₀, he₀, hcontainer.trans htop, hpath₀⟩
        ⟨hnamed, hkind⟩
    · -- nested: the container computed from the path is the one of the tree
      obtain ⟨p, hp⟩ := Option.ne_none_iff_exists'.mp htop
      have hsame := container_of_placed hplaced hpath₀
      rw [hcontainer, hp, Option.getD_some, ← hp] at hsame
      exact hstruct htop hnamed hkind hsame

/-- A method at the first level of a class, as the extraction reports it. -/
def methodOf (file owner name : String) (hash : ContentHash) : Entity where
  qualifiedPath := file ++ "::" ++ owner ++ "::" ++ name
  kind := .method
  contentHash := hash
  container := some (file ++ "::" ++ owner)
  name := name
  file := file
  fullRange := ⟨0, 0⟩
  nameRange := ⟨0, 0⟩
  qualifiedName := owner ++ "." ++ name

theorem extracted_topFunction (hash : ContentHash) : Extracted (topFunction "a.py" "f" hash) := by
  refine ⟨fun _ => hash, [.node ⟨"f", .function, ⟨0, 0⟩, ⟨0, 0⟩⟩ []], ?_, ?_, ?_⟩
  · exact (by decide : "a.py" ≠ "")
  · simp only [NamedForest, Named]
    exact ⟨⟨by decide, trivial⟩, trivial⟩
  · simp only [collectEntitiesForest, collectEntitiesRecursive]
    exact List.mem_singleton.mpr rfl

theorem extracted_methodOf (hash : ContentHash) : Extracted (methodOf "a.py" "C" "m" hash) := by
  refine ⟨fun _ => hash, [.node ⟨"C", .class_, ⟨0, 0⟩, ⟨0, 0⟩⟩
    [.node ⟨"m", .method, ⟨0, 0⟩, ⟨0, 0⟩⟩ []]], ?_, ?_, ?_⟩
  · exact (by decide : "a.py" ≠ "")
  · simp only [NamedForest, Named]
    exact ⟨⟨by decide, ⟨by decide, trivial⟩, trivial⟩, trivial⟩
  · simp only [collectEntitiesForest, collectEntitiesRecursive]
    exact List.mem_cons_of_mem _ (List.mem_cons_self)

/-- A method is deleted and comes back with another body: the structural
pass gives it its id. -/
theorem keepsReturning_method :
    KeepsReturning [methodOf "a.py" "C" "m" 1]
      (runCalls [wholeCall 0 1 [methodOf "a.py" "C" "m" 1], wholeCall 1 2 []])
      (wholeCall 1 3 [methodOf "a.py" "C" "m" 2]) ∧
    ((wholeCall 1 3 [methodOf "a.py" "C" "m" 2]).run (runCalls
      [wholeCall 0 1 [methodOf "a.py" "C" "m" 1], wholeCall 1 2 []])).1.bindings =
        [("a.py::C::m", .struct "A" .low 1)] := by
  have hreach : Reached [methodOf "a.py" "C" "m" 1]
      (runCalls [wholeCall 0 1 [methodOf "a.py" "C" "m" 1], wholeCall 1 2 []]) := by
    refine Reached.step (wholeCall 1 2 []) ?_ (longIds_fresh (by decide +kernel)) (by simp [wholeCall])
    refine Reached.step (wholeCall 0 1 [methodOf "a.py" "C" "m" 1]) Reached.start
      (longIds_fresh (by decide +kernel)) ?_
    intro e he
    rw [List.mem_singleton.mp he]
    exact extracted_methodOf 1
  refine ⟨(keepsReturning_iff hreach _ (longIds_fresh (by decide +kernel)) (by decide +kernel)
    ?_).mpr ?_, by decide +kernel⟩
  · intro e he
    rw [List.mem_singleton.mp he]
    exact extracted_methodOf 2
  · intro e he htop
    rw [List.mem_singleton.mp he] at htop
    cases htop

/-- A function is deleted and comes back with another body: its anchor is
left over, and still a new id is minted. -/
theorem returning_function_minted :
    Reached [topFunction "a.py" "f" 1]
      (runCalls [wholeCall 0 1 [topFunction "a.py" "f" 1], wholeCall 1 2 []]) ∧
    ((wholeCall 1 3 [topFunction "a.py" "f" 2]).run (runCalls
      [wholeCall 0 1 [topFunction "a.py" "f" 1], wholeCall 1 2 []])).1.bindings =
        [("a.py::f", .minted "AA")] ∧
    ¬KeepsReturning [topFunction "a.py" "f" 1]
      (runCalls [wholeCall 0 1 [topFunction "a.py" "f" 1], wholeCall 1 2 []])
      (wholeCall 1 3 [topFunction "a.py" "f" 2]) := by
  have hreach : Reached [topFunction "a.py" "f" 1]
      (runCalls [wholeCall 0 1 [topFunction "a.py" "f" 1], wholeCall 1 2 []]) := by
    refine Reached.step (wholeCall 1 2 []) ?_ (longIds_fresh (by decide +kernel)) (by simp [wholeCall])
    refine Reached.step (wholeCall 0 1 [topFunction "a.py" "f" 1]) Reached.start
      (longIds_fresh (by decide +kernel)) ?_
    intro e he
    rw [List.mem_singleton.mp he]
    exact extracted_topFunction 1
  have hbindings : ((wholeCall 1 3 [topFunction "a.py" "f" 2]).run (runCalls
      [wholeCall 0 1 [topFunction "a.py" "f" 1], wholeCall 1 2 []])).1.bindings =
        [("a.py::f", .minted "AA")] := by decide +kernel
  refine ⟨hreach, hbindings, ?_⟩
  intro hkeeps
  have hleft : LeftOver (runCalls [wholeCall 0 1 [topFunction "a.py" "f" 1], wholeCall 1 2 []])
      (wholeCall 1 3 [topFunction "a.py" "f" 2]) "A"
      { id := "A", qualifiedPath := "a.py::f", contentHash := 1, kind := .function
        firstSeenRev := 1, lastSeenRev := 2, status := .orphaned } :=
    ⟨by decide +kernel, rfl, by decide +kernel⟩
  refine (hkeeps (topFunction "a.py" "f" 2) (List.mem_singleton.mpr rfl) (by decide +kernel) "AA"
    ?_ "A" _ hleft).2 ⟨rfl, topFunction "a.py" "f" 1, List.mem_singleton.mpr rfl, by decide, rfl,
      rfl⟩
  rw [hbindings]
  exact List.mem_singleton.mpr (by decide +kernel)

end Tyo3.ReturningEntities
