import Tyo3.CodeLayer
import Mathlib.Algebra.Order.BigOperators.Group.Finset

/-!
# The affected closure

The closure follows the dependents of every id it reaches, in the new layer
and, for a deleted id, also in the previous one. Its fuel covers every listed
source once, so the loop always runs to its end, and the previous layer
counts only at the deleted ids. What it ends with is the least set around
the seeds that these dependents do not leave.
-/

namespace Tyo3.AffectedClosure

open CodeLayer FiniteMaps Worklists

/-- An id without an entry has no sources. -/
theorem sourcesOf_of_not_mem {layer : Layer} {id : String} (h : id ∉ layer.reverseDeps.keys) :
    layer.sourcesOf id = ∅ := by
  have hnone : layer.reverseDeps.lookup id = none := by
    rw [Option.eq_none_iff_forall_not_mem]
    intro sources hsources
    exact h ((mem_keys_iff _ _).mpr ⟨sources, hsources⟩)
  unfold Layer.sourcesOf
  rw [hnone]
  rfl

/-- The listed sources of a layer, counted by target. -/
theorem sourceCount_eq_sum (layer : Layer) :
    layer.sourceCount = ∑ t ∈ layer.reverseDeps.keys, (layer.sourcesOf t).card := by
  unfold Layer.sourceCount Finset.sum
  rw [← Multiset.sum_coe, ← Multiset.map_coe, HashOrder.exhaustive]

/-- Any set of targets has at most the listed sources. -/
theorem sum_sourcesOf_le (layer : Layer) (targets : Finset String) :
    ∑ t ∈ targets, (layer.sourcesOf t).card ≤ layer.sourceCount := by
  have hinside : ∑ t ∈ targets, (layer.sourcesOf t).card =
      ∑ t ∈ targets ∩ layer.reverseDeps.keys, (layer.sourcesOf t).card := by
    refine (Finset.sum_subset Finset.inter_subset_left fun t ht hnot => ?_).symm
    have hout : t ∉ layer.reverseDeps.keys := fun hk => hnot (Finset.mem_inter.mpr ⟨ht, hk⟩)
    rw [sourcesOf_of_not_mem hout, Finset.card_empty]
  rw [hinside, sourceCount_eq_sum]
  exact Finset.sum_le_sum_of_subset Finset.inter_subset_right

/-- The sources that the loop has still to follow. -/
def remaining (layer prev : Layer) (deleted visited : Finset String) : ℕ :=
  ∑ t ∈ layer.reverseDeps.keys \ visited, (layer.sourcesOf t).card +
    ∑ t ∈ deleted \ visited, (prev.sourcesOf t).card

/-- Visiting a target pays for its sources. -/
theorem sum_sdiff_insert_add_card {S visited : Finset String} {id : String} (f : String → ℕ)
    (hid : id ∉ visited) (hout : id ∉ S → f id = 0) :
    ∑ t ∈ S \ insert id visited, f t + f id = ∑ t ∈ S \ visited, f t := by
  by_cases hS : id ∈ S
  · have hsplit : S \ visited = insert id (S \ insert id visited) := by
      ext t
      simp only [Finset.mem_sdiff, Finset.mem_insert]
      by_cases ht : t = id
      · subst ht
        simp [hS, hid]
      · simp [ht]
    have hfresh : id ∉ S \ insert id visited := by simp
    rw [hsplit, Finset.sum_insert hfresh]
    omega
  · have hsame : S \ insert id visited = S \ visited := by
      ext t
      simp only [Finset.mem_sdiff, Finset.mem_insert]
      have hne : t ∈ S → t ≠ id := fun ht heq => hS (heq ▸ ht)
      tauto
    have hzero := hout hS
    rw [hsame]
    omega

/-- Every step of the closure is paid for. -/
theorem bounded_closureStep (layer prev : Layer) (deleted : Finset String) :
    Bounded (layer.closureStep prev deleted) (remaining layer prev deleted) where
  pays := fun visited id => by
    unfold Layer.closureStep
    by_cases hseen : id ∈ visited
    · rw [if_pos hseen]
      simp
    · rw [if_neg hseen]
      have hlength : ∀ sources : Finset String,
          ((HashOrder.increasing.order sources).filter fun source =>
            decide (source ∉ insert id visited)).length ≤ sources.card := by
        intro sources
        have hcard : (HashOrder.increasing.order sources).length = sources.card := by
          rw [← Multiset.coe_card, HashOrder.exhaustive]
          rfl
        exact (List.length_filter_le _ _).trans hcard.le
      have hnow := sum_sdiff_insert_add_card (fun t => (layer.sourcesOf t).card) hseen
        (S := layer.reverseDeps.keys) fun h => by rw [sourcesOf_of_not_mem h, Finset.card_empty]
      have hnew := hlength (layer.sourcesOf id)
      unfold remaining
      dsimp only
      by_cases hdeleted : id ∈ deleted
      · have hthen := sum_sdiff_insert_add_card (fun t => (prev.sourcesOf t).card) hseen
          (S := deleted) fun h => absurd hdeleted h
        have hold := hlength (prev.sourcesOf id)
        rw [if_pos hdeleted, List.length_append]
        omega
      · have hrest : ∑ t ∈ deleted \ insert id visited, (prev.sourcesOf t).card ≤
            ∑ t ∈ deleted \ visited, (prev.sourcesOf t).card :=
          Finset.sum_le_sum_of_subset
            (Finset.sdiff_subset_sdiff (Finset.Subset.refl _) (Finset.subset_insert _ _))
        rw [if_neg hdeleted, List.append_nil]
        omega

/-- The fuel of the closure covers everything it has to follow. -/
theorem remaining_le_fuel (layer prev : Layer) (seeds deleted : Finset String) :
    remaining layer prev deleted ∅ + (HashOrder.increasing.order seeds).length ≤
      seeds.card + layer.sourceCount + prev.sourceCount := by
  have hcard : (HashOrder.increasing.order seeds).length = seeds.card := by
    rw [← Multiset.coe_card, HashOrder.exhaustive]
    rfl
  have hnow := sum_sourcesOf_le layer (layer.reverseDeps.keys \ ∅)
  have hthen := sum_sourcesOf_le prev (deleted \ ∅)
  unfold remaining
  omega

/-- The closure sees of the previous layer the sources of the deleted ids. -/
theorem affectedClosure_congr_prev {layer prev prev' : Layer} {seeds deleted : Finset String}
    (h : ∀ id ∈ deleted, prev.sourcesOf id = prev'.sourcesOf id) :
    layer.affectedClosureWithDeleted prev seeds deleted =
      layer.affectedClosureWithDeleted prev' seeds deleted := by
  have hstep : layer.closureStep prev deleted = layer.closureStep prev' deleted := by
    funext visited id
    unfold Layer.closureStep
    by_cases hdeleted : id ∈ deleted
    · rw [h id hdeleted]
    · simp only [hdeleted, if_false]
  have hremaining : remaining layer prev' deleted ∅ = remaining layer prev deleted ∅ := by
    unfold remaining
    congr 1
    refine Finset.sum_congr rfl fun t ht => ?_
    rw [h t (Finset.mem_sdiff.mp ht).1]
  have hfuel := remaining_le_fuel layer prev seeds deleted
  have hfuel' := remaining_le_fuel layer prev' seeds deleted
  rw [hremaining] at hfuel'
  unfold Layer.affectedClosureWithDeleted
  rw [← hstep]
  exact run_eq_of_le (bounded_closureStep layer prev deleted) hfuel hfuel'

/-! ## The least closed set -/

/-- The dependents that the closure follows from an id. -/
def dependentsOf (layer prev : Layer) (deleted : Finset String) (id : String) : Set String :=
  {source | source ∈ layer.sourcesOf id ∨ id ∈ deleted ∧ source ∈ prev.sourcesOf id}

/-- The loop explores these dependents. -/
theorem explores_closureStep (layer prev : Layer) (deleted : Finset String) :
    Explores (layer.closureStep prev deleted) (dependentsOf layer prev deleted) where
  visits := fun visited id => by
    unfold Layer.closureStep
    split
    · exact (Finset.insert_eq_of_mem ‹_›).symm
    · rfl
  only := fun visited id other hother => by
    unfold Layer.closureStep at hother
    split at hother
    · exact absurd hother List.not_mem_nil
    · rcases List.mem_append.mp hother with hnow | hthen
      · exact .inl ((HashOrder.mem_order _ _ _).mp (List.mem_of_mem_filter hnow))
      · split at hthen
        · exact .inr ⟨‹_›, (HashOrder.mem_order _ _ _).mp (List.mem_of_mem_filter hthen)⟩
        · exact absurd hthen List.not_mem_nil
  misses := fun visited id hnew other hother => by
    by_cases hin : other ∈ insert id visited
    · exact .inl hin
    · right
      have hfresh : ∀ sources : Finset String, other ∈ sources →
          other ∈ (HashOrder.increasing.order sources).filter fun source =>
            decide (source ∉ insert id visited) := by
        intro sources hsource
        rw [List.mem_filter]
        exact ⟨(HashOrder.mem_order _ _ _).mpr hsource, decide_eq_true hin⟩
      unfold Layer.closureStep
      rw [if_neg hnew]
      rcases hother with hnow | ⟨hdeleted, hthen⟩
      · exact List.mem_append_left _ (hfresh _ hnow)
      · dsimp only
        rw [if_pos hdeleted]
        exact List.mem_append_right _ (hfresh _ hthen)

/-- The loop over the seeds ends with the affected closure. -/
theorem ends_affectedClosure (layer prev : Layer) (seeds deleted : Finset String) :
    Ends (layer.closureStep prev deleted) ∅ (HashOrder.increasing.order seeds)
      (layer.affectedClosureWithDeleted prev seeds deleted) :=
  ends_run (bounded_closureStep layer prev deleted) (remaining_le_fuel layer prev seeds deleted)

/-- The affected closure is the closure of the seeds. -/
theorem isLeast_affectedClosure (layer prev : Layer) (seeds deleted : Finset String) :
    IsLeast {S : Set String | ↑seeds ⊆ S ∧ ClosedUnder (dependentsOf layer prev deleted) S}
      (layer.affectedClosureWithDeleted prev seeds deleted) := by
  have hleast := (explores_closureStep layer prev deleted).isLeast
    (ends_affectedClosure layer prev seeds deleted)
  have hseeds : {item | item ∈ HashOrder.increasing.order seeds} = (seeds : Set String) := by
    ext item
    exact HashOrder.mem_order _ _ _
  rw [hseeds] at hleast
  exact hleast

/-- The loop ends, with the least closed set around the seeds; the closure
grows with the seeds and joins the closures of the single seeds. -/
theorem affectedClosure_exact (layer prev : Layer) (deleted : Finset String) :
    (∀ seeds, Ends (layer.closureStep prev deleted) ∅ (HashOrder.increasing.order seeds)
      (layer.affectedClosureWithDeleted prev seeds deleted)) ∧
    (∀ seeds : Finset String,
      IsLeast {S : Set String | ↑seeds ⊆ S ∧ ∀ id ∈ S,
          (∀ source ∈ layer.sourcesOf id, source ∈ S) ∧
          (id ∈ deleted → ∀ source ∈ prev.sourcesOf id, source ∈ S)}
        (layer.affectedClosureWithDeleted prev seeds deleted)) ∧
    Monotone (fun seeds => layer.affectedClosureWithDeleted prev seeds deleted) ∧
    ∀ seeds : Finset String, layer.affectedClosureWithDeleted prev seeds deleted =
      seeds.biUnion fun seed => layer.affectedClosureWithDeleted prev {seed} deleted := by
  have hleast := fun seeds => isLeast_affectedClosure layer prev seeds deleted
  refine ⟨fun seeds => ends_affectedClosure layer prev seeds deleted, ?_, ?_, ?_⟩
  · intro seeds
    have hsets : {S : Set String | ↑seeds ⊆ S ∧ ∀ id ∈ S,
          (∀ source ∈ layer.sourcesOf id, source ∈ S) ∧
          (id ∈ deleted → ∀ source ∈ prev.sourcesOf id, source ∈ S)} =
        {S | ↑seeds ⊆ S ∧ ClosedUnder (dependentsOf layer prev deleted) S} := by
      ext S
      refine and_congr_right fun _ => forall₂_congr fun id _ => ?_
      constructor
      · rintro ⟨hnow, hthen⟩ source (hsource | ⟨hdeleted, hsource⟩)
        · exact hnow source hsource
        · exact hthen hdeleted source hsource
      · intro hall
        exact ⟨fun source hsource => hall (.inl hsource),
          fun hdeleted source hsource => hall (.inr ⟨hdeleted, hsource⟩)⟩
    rw [hsets]
    exact hleast seeds
  · intro seeds seeds' hsub
    have hsets := subset_of_isLeast (hleast seeds) (hleast seeds') (Finset.coe_subset.mpr hsub)
    exact Finset.coe_subset.mp hsets
  · intro seeds
    have hunion := eq_iUnion_of_isLeast (hleast seeds) fun seed => by
      have hone := hleast {seed}
      rw [Finset.coe_singleton] at hone
      exact hone
    rw [← Finset.coe_inj, hunion, Finset.coe_biUnion]

end Tyo3.AffectedClosure
