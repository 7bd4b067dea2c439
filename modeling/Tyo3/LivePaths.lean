import Tyo3.IdentityLifecycle

/-!
# Live anchors through a reconciliation

After a reconciliation the path of every entity names a live anchor or none,
and so does every other path that did so before, whatever the entities are. A
live anchor outside the scoped files stays live at its path.
-/

namespace Tyo3.LivePaths

open Entities FiniteMaps IdentityAnchors IdentityLifecycle IdentityMatching IdentityPostState
  IdentityReconciliation

/-- The id has a live anchor. -/
def Live (r : IdentityRegistry) (id : DurableId) : Prop :=
  ∃ a, r.get id = some a ∧ a.status ≠ .orphaned

/-- The entry of a path, if there is one, names a live anchor. -/
def LiveAt (r : IdentityRegistry) (p : String) : Prop :=
  ∀ id, r.byPath.lookup p = some id → Live r id

/-- An id is not both live and orphaned. -/
theorem Live.not_orphaned {r : IdentityRegistry} {id : DurableId} (h : Live r id) :
    r.statusOf id ≠ some .orphaned := by
  obtain ⟨a, ha, hlive⟩ := h
  unfold IdentityRegistry.statusOf
  rw [ha]
  exact fun heq => hlive (Option.some.inj heq)

/-! ## Applying bindings -/

section Apply

variable {due : List DurableId} {revision : Revision} {s : IdentityRegistry} {id : DurableId}
  {e : Entity} {b : Binding} {p : String}

/-- The id has an anchor that is live or will be flagged. -/
def Kept (due : List DurableId) (s : IdentityRegistry) (id : DurableId) : Prop :=
  ∃ a, s.get id = some a ∧ (a.status ≠ .orphaned ∨ id ∈ due)

/-- The entry of a path names an anchor that is kept. -/
def KeptAt (due : List DurableId) (s : IdentityRegistry) (p : String) : Prop :=
  ∀ id, s.byPath.lookup p = some id → Kept due s id

/-- A binding that is not minted names a stored anchor. -/
def Known (s : IdentityRegistry) (b : Binding) : Prop :=
  b.isMinted = false → ∃ a, s.get b.id = some a

/-- The bound id is kept. -/
theorem kept_bound (hb : Known s b) : Kept due (applyBinding revision due s e b) b.id := by
  have hget := get_applyBinding revision due s ⟨0, e, b, false⟩ b.id
  rw [if_pos rfl] at hget
  unfold appliedAnchor at hget
  cases hm : b.isMinted with
  | true =>
    rw [if_pos hm] at hget
    exact ⟨_, hget, .inl (by simp)⟩
  | false =>
    obtain ⟨a, ha⟩ := hb hm
    rw [if_neg (by simp [hm]), ha] at hget
    refine ⟨_, hget, ?_⟩
    by_cases hdue : b.id ∈ due
    · exact .inr hdue
    · exact .inl (by simp [hdue])

/-- Every kept id stays kept. -/
theorem Kept.applyBinding (h : Kept due s id) (e : Entity) (b : Binding) :
    Kept due (applyBinding revision due s e b) id := by
  obtain ⟨a, ha, hstatus⟩ := h
  by_cases hid : id = b.id
  · subst hid
    exact kept_bound fun _ => ⟨a, ha⟩
  · have hget := get_applyBinding revision due s ⟨0, e, b, false⟩ id
    rw [if_neg hid] at hget
    exact ⟨a, hget.trans ha, hstatus⟩

/-- Every stored anchor stays stored. -/
theorem Known.applyBinding {c : Binding} (h : Known s c) (e : Entity) (b : Binding) :
    Known (applyBinding revision due s e b) c := by
  intro hc
  obtain ⟨a, ha⟩ := h hc
  by_cases hid : c.id = b.id
  · obtain ⟨a', ha', -⟩ := @kept_bound due revision s e b fun _ => ⟨a, hid ▸ ha⟩
    exact ⟨a', hid ▸ ha'⟩
  · have hget := get_applyBinding revision due s ⟨0, e, b, false⟩ c.id
    rw [if_neg hid] at hget
    exact ⟨a, hget.trans ha⟩

/-- After a rebind the new path leads to the id, and no other path leads where it
did not lead before. -/
theorem byPath_rebind_cases {k : DurableId} {a : Anchor} (ha : s.get k = some a) {path : String}
    {hash : ContentHash} (h : (s.rebind k path hash revision).byPath.lookup p = some id) :
    p = path ∧ id = k ∨ p ≠ path ∧ s.byPath.lookup p = some id := by
  rw [IdentityRegistry.byPath_rebind ha] at h
  by_cases hp : p = path
  · rw [if_pos hp] at h
    exact .inl ⟨hp, (Option.some.inj h).symm⟩
  · rw [if_neg hp, Option.ite_none_left_eq_some] at h
    exact .inr ⟨hp, h.2⟩

/-- The same after an insertion. -/
theorem byPath_insert_cases {anchor : Anchor}
    (h : (s.insert anchor).byPath.lookup p = some id) :
    p = anchor.qualifiedPath ∧ id = anchor.id ∨
      p ≠ anchor.qualifiedPath ∧ s.byPath.lookup p = some id := by
  cases hanchor : s.get anchor.id with
  | none =>
    rw [IdentityRegistry.byPath_insert hanchor] at h
    by_cases hp : p = anchor.qualifiedPath
    · rw [if_pos hp] at h
      exact .inl ⟨hp, (Option.some.inj h).symm⟩
    · rw [if_neg hp] at h
      exact .inr ⟨hp, h⟩
  | some a =>
    -- over a stored id it is a rebind
    rw [(IdentityRegistry.insert_known_indexes hanchor anchor.lastSeenRev).1] at h
    exact byPath_rebind_cases hanchor h

/-- After a binding the path of the entity leads to the bound id, and no other
path leads where it did not lead before. -/
theorem byPath_applyBinding_cases (hb : Known s b)
    (h : (applyBinding revision due s e b).byPath.lookup p = some id) :
    p = e.qualifiedPath ∧ id = b.id ∨ p ≠ e.qualifiedPath ∧ s.byPath.lookup p = some id := by
  have hknown : b.isMinted = false →
      (if b.id ∈ due then s.rebind b.id e.qualifiedPath e.contentHash revision
        else (s.rebind b.id e.qualifiedPath e.contentHash revision).setStatus b.id
          .active).byPath.lookup p = some id →
      p = e.qualifiedPath ∧ id = b.id ∨ p ≠ e.qualifiedPath ∧ s.byPath.lookup p = some id := by
    intro hm hlookup
    obtain ⟨a, ha⟩ := hb hm
    split at hlookup
    · exact byPath_rebind_cases ha hlookup
    · exact byPath_rebind_cases ha hlookup
  cases b with
  | exact k oldHash => exact hknown rfl h
  | moved k oldPath oldHash => exact hknown rfl h
  | struct k confidence oldHash => exact hknown rfl h
  | minted k => exact byPath_insert_cases h

/-- A path is kept after a binding when it is the path of the entity or was kept
before. -/
theorem KeptAt.applyBinding (hb : Known s b) (h : p = e.qualifiedPath ∨ KeptAt due s p) :
    KeptAt due (applyBinding revision due s e b) p := by
  intro id hlookup
  rcases byPath_applyBinding_cases hb hlookup with ⟨-, rfl⟩ | ⟨hne, hold⟩
  · exact kept_bound hb
  · exact ((h.resolve_left hne) id hold).applyBinding e b

/-- After all bindings the paths of the bound entities are kept, and so are the
paths that were kept before. -/
theorem keptAt_applyBindings {st : Matching} {sorted : List Entity}
    (hb : ∀ q b, st.bindingsByPath.lookup q = some b → Known s b)
    (hstored : ∀ e ∈ sorted, ∃ b, st.bindingsByPath.lookup e.qualifiedPath = some b)
    (h : (∃ e ∈ sorted, e.qualifiedPath = p) ∨ KeptAt st.needsReview s p) :
    KeptAt st.needsReview (applyBindings revision st sorted s) p := by
  unfold applyBindings
  induction sorted generalizing s with
  | nil => exact h.resolve_left (by simp)
  | cons e sorted ih =>
    obtain ⟨⟨b, hlookup⟩, hrest⟩ := List.forall_mem_cons.mp hstored
    rw [List.foldl_cons, hlookup]
    refine ih (fun q c hc => (hb q c hc).applyBinding e b) hrest ?_
    rcases h with ⟨e', he', hp⟩ | hkept
    · rcases List.mem_cons.mp he' with rfl | hlater
      · exact .inr (KeptAt.applyBinding (hb _ b hlookup) (.inl hp.symm))
      · exact .inl ⟨e', hlater, hp⟩
    · exact .inr (KeptAt.applyBinding (hb _ b hlookup) (.inr hkept))

end Apply

/-! ## A whole reconciliation -/

section Reconcile

variable {mint : ℕ → DurableId} {r : IdentityRegistry} {entities : List Entity} {p : String}

/-- Flagging makes kept ids live. -/
theorem Kept.flag {due : List DurableId} {s : IdentityRegistry} {id : DurableId}
    (h : Kept due s id) : Live (flagNeedsReview due s) id := by
  obtain ⟨a, ha, hstatus⟩ := h
  have hget := get_flagNeedsReview due s id
  rw [ha] at hget
  by_cases hdue : id ∈ due
  · rw [if_pos hdue] at hget
    exact ⟨_, hget, by simp⟩
  · rw [if_neg hdue] at hget
    exact ⟨a, hget, hstatus.resolve_right hdue⟩

/-- Retiring leaves no path to an orphan. -/
theorem LiveAt.retire {s : IdentityRegistry} (hs : s.Sound) (h : LiveAt s p)
    (iter : HashOrder DurableId) (revision : Revision) (scope : Option (Finset String))
    (boundIds : Finset DurableId) :
    LiveAt (retireVanished iter revision scope boundIds s).2 p := by
  have hkeys : ∀ id ∈ iter.order s.byId.keys, ∃ a, s.get id = some a := fun id hid =>
    (mem_keys_iff _ _).mp ((iter.mem_order _ _).mp hid)
  obtain ⟨-, hget, hpath⟩ := foldl_retireStep revision scope boundIds
    (iter.order s.byId.keys) (iter.nodup_order _) ([], s) hkeys
  intro id hlookup
  unfold retireVanished at hlookup ⊢
  rw [hpath, Option.ite_none_left_eq_some] at hlookup
  obtain ⟨hnone, hold⟩ := hlookup
  obtain ⟨a, ha, hlive⟩ := h id hold
  obtain ⟨b, hb, hbp⟩ := hs.path_anchor p id hold
  -- a retired anchor has given up its path
  refine ⟨a, (hget id).trans ((if_neg fun hretired => hnone ?_).trans ha), hlive⟩
  exact ⟨id, hretired.1, hretired.2, by rw [hb, Option.map_some, hbp]⟩

/-- After a reconciliation a path names a live anchor or none, when it is the
path of an entity or did so before. -/
theorem liveAt_reconcileImpl (hs : r.Sound) (hf : Fresh mint r) (iter : HashOrder DurableId)
    (revision : Revision) (scope : Option (Finset String))
    (h : (∃ e ∈ entities, e.qualifiedPath = p) ∨ LiveAt r p) :
    LiveAt (reconcileImpl iter mint r entities revision scope).2 p := by
  obtain ⟨exact, rest, ht, -, -, hall, -⟩ :=
    matchEntities_tracks iter hs.linked hf scope (sortEntities entities)
  unfold reconcileImpl
  dsimp only
  generalize matchEntities iter mint r scope (sortEntities entities) = st at ht
  have hknown : ∀ q b, st.bindingsByPath.lookup q = some b → Known r b := by
    intro q b hb hm
    obtain ⟨x, hx, -, rfl⟩ := ht.by_path q b hb
    exact (ht.justified x hx).known hm
  have hstored : ∀ e ∈ sortEntities entities,
      ∃ b, st.bindingsByPath.lookup e.qualifiedPath = some b := by
    intro e he
    obtain ⟨i, hi⟩ := List.getElem?_of_mem he
    obtain ⟨x, hx, hxi⟩ := hall i e hi
    have hposition := ht.position x hx
    rw [hxi, hi] at hposition
    obtain rfl : e = x.entity := Option.some.inj hposition
    exact ht.path_known x hx
  have happlied : KeptAt st.needsReview
      (applyBindings revision st (sortEntities entities) r) p := by
    refine keptAt_applyBindings hknown hstored (h.imp ?_ fun hlive id hid => ?_)
    · rintro ⟨e, he, hp⟩
      exact ⟨e, (sortEntities_perm entities).mem_iff.mpr he, hp⟩
    · obtain ⟨a, ha, hstatus⟩ := hlive id hid
      exact ⟨a, ha, .inl hstatus⟩
  have hsound := applyBindings_sound hs revision st (sortEntities entities)
  refine LiveAt.retire (flagNeedsReview_sound hsound _) (fun id hid => ?_) iter revision scope _
  rw [byPath_flagNeedsReview] at hid
  exact (happlied id hid).flag

/-! ## Anchors outside the scope -/

/-- The id has a live anchor at a path. -/
def LivesAt (r : IdentityRegistry) (p : String) (id : DurableId) : Prop :=
  ∃ a, r.get id = some a ∧ a.status ≠ .orphaned ∧ a.qualifiedPath = p

/-- Bindings that name an id at its path only leave it there. -/
theorem livesAt_applyBindings {s : IdentityRegistry} {id : DurableId} {st : Matching}
    (hb : ∀ q b, st.bindingsByPath.lookup q = some b → b.id = id → b.isMinted = false ∧ q = p)
    (h : LivesAt s p id) (revision : Revision) (sorted : List Entity) :
    LivesAt (applyBindings revision st sorted s) p id := by
  unfold applyBindings
  refine List.foldlRecOn (motive := fun s => LivesAt s p id) _ _ h ?_
  rintro s ⟨a, ha, hlive, hpath⟩ e -
  cases hlookup : st.bindingsByPath.lookup e.qualifiedPath with
  | none => exact ⟨a, ha, hlive, hpath⟩
  | some b =>
    have hget := get_applyBinding revision st.needsReview s ⟨0, e, b, false⟩ id
    by_cases hid : id = b.id
    · obtain ⟨hm, hq⟩ := hb _ b hlookup hid.symm
      unfold appliedAnchor at hget
      rw [if_pos hid, if_neg (by simp [hm]), show s.get b.id = some a from hid ▸ ha] at hget
      refine ⟨_, hget, ?_, hq⟩
      dsimp only
      split
      · exact hlive
      · simp
    · rw [if_neg hid] at hget
      exact ⟨a, hget.trans ha, hlive, hpath⟩

/-- Bindings that name an id outside the scoped files leave it at its path. -/
theorem binding_outside (hs : r.Sound) (hf : Fresh mint r) (iter : HashOrder DurableId)
    {scope : Option (Finset String)} {sorted : List Entity} {id : DurableId} {a : Anchor}
    (ha : r.get id = some a) (hout : fileInScope scope a.qualifiedPath = false) {q : String}
    {b : Binding}
    (hlookup : (matchEntities iter mint r scope sorted).bindingsByPath.lookup q = some b)
    (hid : b.id = id) : b.isMinted = false ∧ q = a.qualifiedPath := by
  obtain ⟨exact, rest, ht, -⟩ := matchEntities_tracks iter hs.linked hf scope sorted
  obtain ⟨x, hx, rfl, rfl⟩ := ht.by_path q b hlookup
  have hj := ht.justified x hx
  have houtside : anchorInScope r id scope ≠ true := by
    rw [anchorInScope_eq ha, hout]
    exact Bool.false_ne_true
  cases hbinding : x.binding with
  | exact k oldHash =>
    rw [hbinding] at hj hid
    obtain rfl : k = id := hid
    obtain ⟨a', ha', hpath⟩ := hs.path_anchor _ _ hj.1
    rw [ha] at ha'
    cases ha'
    exact ⟨rfl, hpath.symm⟩
  | moved k oldPath oldHash =>
    rw [hbinding] at hj hid
    exact absurd (hid ▸ hj.2.1) houtside
  | struct k confidence oldHash =>
    rw [hbinding] at hj hid
    exact absurd (hid ▸ hj.2.1) houtside
  | minted k =>
    rw [hbinding] at hj hid
    obtain ⟨⟨n, hn⟩, -⟩ := hj
    have hnone := hf.unknown n
    rw [← hn, show k = id from hid, ha] at hnone
    cases hnone

/-- Flagging keeps live anchors live. -/
theorem LivesAt.flag {s : IdentityRegistry} {id : DurableId} (h : LivesAt s p id)
    (due : List DurableId) : LivesAt (flagNeedsReview due s) p id := by
  obtain ⟨a, ha, hlive, hpath⟩ := h
  have hget := get_flagNeedsReview due s id
  rw [ha] at hget
  split at hget
  · exact ⟨_, hget, by simp, hpath⟩
  · exact ⟨a, hget, hlive, hpath⟩

/-- Nothing outside the scoped files is retired. -/
theorem LivesAt.retire {s : IdentityRegistry} {id : DurableId} (h : LivesAt s p id)
    {scope : Option (Finset String)} (hout : fileInScope scope p = false)
    (iter : HashOrder DurableId) (revision : Revision) (boundIds : Finset DurableId) :
    LivesAt (retireVanished iter revision scope boundIds s).2 p id := by
  obtain ⟨a, ha, hlive, hpath⟩ := h
  have hkeys : ∀ k ∈ iter.order s.byId.keys, ∃ a, s.get k = some a := fun k hk =>
    (mem_keys_iff _ _).mp ((iter.mem_order _ _).mp hk)
  have hget := (foldl_retireStep revision scope boundIds (iter.order s.byId.keys)
    (iter.nodup_order _) ([], s) hkeys).2.1 id
  refine ⟨a, (hget.trans (if_neg fun hretired => ?_)).trans ha, hlive, hpath⟩
  have hin := (vanished_iff.mp hretired.2).2.1
  rw [anchorInScope_eq ha, hpath, hout] at hin
  cases hin

/-- A live anchor outside the scoped files stays live at its path. -/
theorem livesAt_reconcileImpl (hs : r.Sound) (hf : Fresh mint r) (iter : HashOrder DurableId)
    (revision : Revision) {scope : Option (Finset String)} {id : DurableId}
    (h : LivesAt r p id) (hout : fileInScope scope p = false) :
    LivesAt (reconcileImpl iter mint r entities revision scope).2 p id := by
  have hlives := h
  obtain ⟨a, ha, -, rfl⟩ := h
  have hbindings : ∀ q b,
      (matchEntities iter mint r scope (sortEntities entities)).bindingsByPath.lookup q = some b →
      b.id = id → b.isMinted = false ∧ q = a.qualifiedPath :=
    fun _ _ hlookup hid => binding_outside hs hf iter ha hout hlookup hid
  have happlied := livesAt_applyBindings hbindings hlives revision (sortEntities entities)
  unfold reconcileImpl
  exact (happlied.flag _).retire hout iter revision _

end Reconcile

end Tyo3.LivePaths
