import Tyo3.AffectedClosure
import Tyo3.AuthoredPersistence
import Tyo3.DiskSync
import Tyo3.InterestUnions

/-!
# Subscribers to ids

Whether a subscriber hears of a commit is decided on the affected ids. These
contain the changed and the deleted ids, since the closure starts with them.
Created ids, moved ids and ids with a new record are cut down to the interest
like the others, but they do not make a commit heard of.
-/

namespace Tyo3.IdSubscribers

open AffectedClosure AuthoredHistory AuthoredPersistence CodeLayer CommitFunnel CommitPlan Deltas
  DiskSync Entities FiniteMaps InterestUnions MessageBus Subscriptions SystemPaths

/-- The notification of what a commit returned, if it published a revision. -/
def notification (result : Except CommitError (Option CommitDelta))
    (extraLayers : List String) : Option Delta :=
  match result with
  | .ok (some delta) => some (Delta.fromCommitDelta delta extraLayers)
  | _ => none

/-- A notification is the projection of a published commit. -/
theorem notification_some {result : Except CommitError (Option CommitDelta)}
    {extraLayers : List String} {delta : Delta}
    (h : notification result extraLayers = some delta) :
    ∃ dto, result = .ok (some dto) ∧ delta = Delta.fromCommitDelta dto extraLayers := by
  unfold notification at h
  split at h
  · rename_i dto
    exact ⟨dto, rfl, (Option.some.inj h).symm⟩
  · cases h

/-! ## Affected ids of a commit -/

/-- The closure contains the ids it starts with. -/
theorem seeds_subset_affectedIdsOf (next prev : Layer) (identity : IdentityDelta) :
    (identity.changedIds ++ identity.deletedIds).toFinset ⊆
      (affectedIdsOf next prev identity).toFinset := by
  intro id hid
  have hclosed := (isLeast_affectedClosure next prev
    (identity.changedIds ++ identity.deletedIds).toFinset identity.deletedIds.toFinset).1
  have hmem := hclosed.1 (Finset.mem_coe.mpr hid)
  rw [List.mem_toFinset]
  exact (HashOrder.mem_order _ _ _).mpr (Finset.mem_coe.mp hmem)

/-- Changed and deleted ids are affected. -/
def SeedsAffected (identity : IdentityDelta) : Prop :=
  (identity.changedIds ++ identity.deletedIds).toFinset ⊆ identity.affectedIds.toFinset

section Commits

variable {crates : Crates} {env : Env} {head head' : HeadState}

/-- The identity stage reports changed and deleted ids as affected. -/
theorem seedsAffected_of_identityStage {staged : StagedCommit} {rev : Revision}
    {armed : Option String} {identity : IdentityDelta}
    (h : identityStage crates env head staged rev armed = (.ok identity, head')) :
    SeedsAffected identity := by
  unfold identityStage at h
  split at h
  · dsimp only at h
    -- every failing step returns an error, so only the last branch is left
    split at h
    · cases h
    · split at h
      · cases h
      · split at h
        · cases h
        · cases h
          exact seeds_subset_affectedIdsOf _ _ _
  · cases h
    exact Finset.Subset.refl _

/-- A staged commit reports changed and deleted ids as affected. -/
theorem seedsAffected_of_runStaged {staged : StagedCommit} {armed : Option String}
    {dto : CommitDelta} (h : runStaged crates env head staged armed = (.ok dto, head')) :
    SeedsAffected dto.identity := by
  unfold runStaged at h
  dsimp only at h
  split at h
  · cases h
  · rename_i identity head₁ hidentity
    split at h
    · cases h
    · cases h
      exact seedsAffected_of_identityStage hidentity

/-- A commit reports changed and deleted ids as affected. -/
theorem seedsAffected_of_commit {mutation : Mutation} {dto : CommitDelta}
    (h : (commit crates env head mutation).1 = .ok (some dto)) : SeedsAffected dto.identity := by
  unfold commit at h
  split at h
  · cases h
  · cases h
  · dsimp only at h
    split at h
    · rename_i hrun
      cases h
      exact seedsAffected_of_runStaged hrun
    · cases h

/-- In the notification of a commit changed and deleted ids are affected. -/
theorem changed_deleted_subset_affected {mutation : Mutation} {extraLayers : List String}
    {delta : Delta}
    (h : notification (commit crates env head mutation).1 extraLayers = some delta) :
    delta.changed ∪ delta.deleted ⊆ delta.affected := by
  obtain ⟨dto, hdto, hdelta⟩ := notification_some h
  have hseeds : SeedsAffected dto.identity := seedsAffected_of_commit hdto
  unfold SeedsAffected at hseeds
  rw [List.toFinset_append] at hseeds
  rw [hdelta]
  exact hseeds

end Commits

/-! ## What is offered -/

/-- An interest in ids is met on the affected ids. -/
theorem matches_ids {ids affected files layers : Finset String} (hids : ids ≠ ∅) :
    ({ ids := ids } : Interest).matches affected files layers = true ↔
      (ids ∩ affected).Nonempty := by
  rw [matches_iff]
  constructor
  · rintro (hall | hmeets | hmeets | hmeets)
    · cases hall
    · exact Finset.nonempty_iff_ne_empty.mpr hmeets.2.2
    · exact absurd rfl hmeets.1
    · exact absurd rfl hmeets.1
  · intro hmeets
    have haffected : affected ≠ ∅ := by
      intro hempty
      rw [hempty, Finset.inter_empty] at hmeets
      exact Finset.not_nonempty_empty hmeets
    exact .inr (.inl ⟨hids, haffected, Finset.nonempty_iff_ne_empty.mp hmeets⟩)

/-- The cut of a delta to ids intersects every set of ids. -/
theorem scopedTo_ids {delta : Delta} {ids : Finset String} (hids : ids ≠ ∅)
    (hrescan : delta.rescan = false) {c : Category} (hc : c.isId = true) :
    (delta.scopedTo { ids := ids }).category c = delta.category c ∩ ids := by
  have hfilter : ({ ids := ids } : Interest).filterOf c = ids := by
    cases c with
    | files => cases hc
    | layers => cases hc
    | created | changed | deleted | moved | authored | affected => rfl
  rw [scopedTo_category (by rw [hrescan]; rfl), hfilter]
  exact if_pos hids

/-- An interest in ids is offered the rescans and the deltas that affect one of
its ids: such a cut has an id to report. -/
theorem offers_ids {delta : Delta} {ids : Finset String} (hids : ids ≠ ∅) :
    Offers delta { ids := ids } ↔ delta.rescan = true ∨ (ids ∩ delta.affected).Nonempty := by
  unfold Offers
  rw [isSome_sliceFor, matches_ids hids, Bool.false_or]
  cases hrescan : delta.rescan with
  | true => exact iff_of_true (.inl rfl) (.inl rfl)
  | false =>
    refine or_congr_right (and_iff_left_of_imp fun hmeets => ?_)
    by_contra hempty
    rw [Bool.not_eq_false, Deltas.isEmpty_iff] at hempty
    have hnone := hempty .affected rfl
    rw [scopedTo_ids hids hrescan rfl, Finset.inter_comm] at hnone
    exact hmeets.ne_empty hnone

/-- A subscriber to ids is offered a commit exactly when it is a rescan or one
of the ids is changed, deleted or affected. A rescan is offered in full; of any
other commit every set of ids is cut down to the ids. -/
theorem idSubscriber_offered {crates : Crates} {env : Env} {head : HeadState}
    {mutation : Mutation} {extraLayers : List String} {delta : Delta}
    (hdelta : notification (commit crates env head mutation).1 extraLayers = some delta)
    {endpoint : Endpoint} {ids : Finset String} (hids : ids ≠ ∅)
    (hinterest : endpoint.sub.interest = { ids := ids }) :
    ((∃ slice, (fanOut delta endpoint).offered = endpoint.offered ++ [slice]) ↔
      delta.rescan = true ∨ ∃ id ∈ ids, id ∈ delta.changed ∨ id ∈ delta.deleted ∨
        id ∈ delta.affected) ∧
    ∀ slice, (fanOut delta endpoint).offered = endpoint.offered ++ [slice] →
      (delta.rescan = true → slice = delta) ∧
      (delta.rescan = false → ∀ c : Category, c.isId = true →
        slice.category c = delta.category c ∩ ids) := by
  have hsub := changed_deleted_subset_affected hdelta
  have hoffered := fanOut_offered delta endpoint
  rw [hinterest] at hoffered
  have hslice : ∀ slice, (fanOut delta endpoint).offered = endpoint.offered ++ [slice] ↔
      delta.sliceFor { ids := ids } = some slice := by
    intro slice
    rw [hoffered, List.append_cancel_left_eq]
    cases delta.sliceFor { ids := ids } with
    | none => simp
    | some found => simp
  refine ⟨?_, fun slice h => ?_⟩
  · have hsome : (∃ slice, (fanOut delta endpoint).offered = endpoint.offered ++ [slice]) ↔
        Offers delta { ids := ids } := by
      unfold Offers
      rw [Option.isSome_iff_exists]
      exact exists_congr hslice
    rw [hsome, offers_ids hids]
    refine or_congr_right ⟨fun hmeets => ?_, fun hany => ?_⟩
    · obtain ⟨id, hid⟩ := hmeets
      exact ⟨id, (Finset.mem_inter.mp hid).1, .inr (.inr (Finset.mem_inter.mp hid).2)⟩
    · obtain ⟨id, hmem, hcase⟩ := hany
      have haffected : id ∈ delta.affected := by
        rcases hcase with hchanged | hdeleted | haffected
        · exact hsub (Finset.mem_union_left _ hchanged)
        · exact hsub (Finset.mem_union_right _ hdeleted)
        · exact haffected
      exact ⟨id, Finset.mem_inter.mpr ⟨hmem, haffected⟩⟩
  · rw [eq_of_sliceFor ((hslice slice).mp h)]
    refine ⟨fun hrescan => ?_, fun hrescan c hc => scopedTo_ids hids hrescan hc⟩
    exact scopedTo_of_full (by rw [hrescan]; rfl)

/-- The commit that reads an edited module from disk. -/
def readsEdit : Except CommitError (Option CommitDelta) :=
  (commit (listedCrates twoPaths)
    (listedEnv twoPaths (twoModules.insert ⟨["p", "b.py"]⟩ (.file "x = 333"))) twoHead
    (.syncPath ⟨["p", "b.py"]⟩)).1

/-- The subscriber to the variable of the edited module is offered the edit. -/
theorem edit_offered :
    ∃ delta, notification readsEdit [] = some delta ∧ delta.rescan = false ∧
      ∃ slice, (fanOut delta (Endpoint.new { ids := {"AA"} } 8 .coalesce)).offered = [slice] := by
  have hchecked : (notification readsEdit []).any (fun delta =>
      decide (delta.rescan = false ∧ "AA" ∈ delta.changed)) = true := by decide +kernel
  obtain ⟨delta, hdelta, hcheck⟩ := Option.any_eq_true _ _ |>.mp hchecked
  obtain ⟨hrescan, hchanged⟩ := of_decide_eq_true hcheck
  have hoffered := idSubscriber_offered hdelta
    (Finset.singleton_ne_empty "AA")
    (rfl : (Endpoint.new { ids := {"AA"} } 8 .coalesce).sub.interest = { ids := {"AA"} })
  exact ⟨delta, hdelta, hrescan,
    hoffered.1.mpr (.inr ⟨"AA", Finset.mem_singleton_self _, .inl hchanged⟩)⟩

/-- The commit that writes the note of a variable. -/
def writesNote : Except CommitError (Option CommitDelta) :=
  (commit (listedCrates notePaths) (listedEnv notePaths noteDisk)
    (noteHead (listedCrates notePaths) notesConfig) (.author "notes" "A" (.str "first"))).1

/-- The paths of a module that is renamed. -/
def renamedPaths : List SystemPath := [⟨["p", "a.py"]⟩, ⟨["p", "c.py"]⟩]

/-- The commit that renames the module of the note project. -/
def renamesModule : Except CommitError (Option CommitDelta) :=
  (commit (listedCrates renamedPaths)
    (listedEnv renamedPaths ((∅ : Disk).insert ⟨["p", "c.py"]⟩ (.file "x = 1")))
    (listedHead renamedPaths noteDisk ⟨["p"]⟩)
    (.poll [.deleted ⟨["p", "a.py"]⟩ .file, .created ⟨["p", "c.py"]⟩ .file])).1

/-- The commit that adds a module to the note project. -/
def addsModule : Except CommitError (Option CommitDelta) :=
  (commit (listedCrates renamedPaths)
    { listedEnv renamedPaths (noteDisk.insert ⟨["p", "c.py"]⟩ (.file "x = 22")) with
      mint := fun k => String.ofList (List.replicate (k + 1) 'B') }
    (listedHead renamedPaths noteDisk ⟨["p"]⟩) (.poll [.created ⟨["p", "c.py"]⟩ .file])).1

/-- The commit that reads the project of two modules again after an edit. -/
def rescansProject : Except CommitError (Option CommitDelta) :=
  (commit (listedCrates twoPaths)
    (listedEnv twoPaths (twoModules.insert ⟨["p", "b.py"]⟩ (.file "x = 333"))) twoHead .syncAll).1

/-- The subscriber to a variable is not offered its note, its move or its
creation, and is offered the ids of other modules in a rescan. -/
theorem note_move_creation_not_offered :
    (∃ delta, notification writesNote ["notes"] = some delta ∧ "A" ∈ delta.authored ∧
      ¬Offers delta { ids := {"A"} }) ∧
    (∃ delta, notification renamesModule [] = some delta ∧ "A" ∈ delta.moved ∧
      ¬Offers delta { ids := {"A"} }) ∧
    (∃ delta, notification addsModule [] = some delta ∧ "B" ∈ delta.created ∧
      ¬Offers delta { ids := {"B"} }) ∧
    ∃ delta slice, notification rescansProject [] = some delta ∧
      delta.sliceFor { ids := {"A"} } = some slice ∧ slice.changed ≠ delta.changed ∩ {"A"} := by
  have hnote : (notification writesNote ["notes"]).any (fun delta =>
      decide ("A" ∈ delta.authored ∧ ¬Offers delta { ids := {"A"} })) = true := by decide +kernel
  have hmove : (notification renamesModule []).any (fun delta =>
      decide ("A" ∈ delta.moved ∧ ¬Offers delta { ids := {"A"} })) = true := by decide +kernel
  have hadd : (notification addsModule []).any (fun delta =>
      decide ("B" ∈ delta.created ∧ ¬Offers delta { ids := {"B"} })) = true := by decide +kernel
  have hrescan : (notification rescansProject []).any (fun delta =>
      decide (delta.rescan = true ∧ delta.changed ≠ delta.changed ∩ {"A"})) = true := by
    decide +kernel
  obtain ⟨noted, hnoted, hnoteCheck⟩ := Option.any_eq_true _ _ |>.mp hnote
  obtain ⟨moved, hmoved, hmoveCheck⟩ := Option.any_eq_true _ _ |>.mp hmove
  obtain ⟨added, hadded, haddCheck⟩ := Option.any_eq_true _ _ |>.mp hadd
  obtain ⟨full, hfull, hfullCheck⟩ := Option.any_eq_true _ _ |>.mp hrescan
  obtain ⟨hall, hwide⟩ := of_decide_eq_true hfullCheck
  have hslice : full.sliceFor { ids := {"A"} } = some full := by
    unfold Delta.sliceFor
    rw [if_pos (by rw [hall]; rfl), scopedTo_of_full (by rw [hall]; rfl)]
  exact ⟨⟨noted, hnoted, of_decide_eq_true hnoteCheck⟩,
    ⟨moved, hmoved, of_decide_eq_true hmoveCheck⟩,
    ⟨added, hadded, of_decide_eq_true haddCheck⟩, full, full, hfull, hslice, hwide⟩

end Tyo3.IdSubscribers
