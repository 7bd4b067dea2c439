import Tyo3.MessageBus

/-!
# Unions of interests

The union of two interests has the filters of both. A delta that meets one of
them meets the union. But a filter that one of them leaves empty lets all ids,
files or layers through, and the filter of the other one then cuts them down;
when no id is left, the delta is not offered at all.
-/

namespace Tyo3.InterestUnions

open Deltas Subscriptions MessageBus

/-- The union of two interests. -/
def union (a b : Interest) : Interest where
  files := a.files ∪ b.files
  ids := a.ids ∪ b.ids
  layers := a.layers ∪ b.layers
  all := a.all || b.all

/-- Whether a published delta is offered to a subscriber with an interest. -/
def Offers (delta : Delta) (interest : Interest) : Prop := (delta.sliceFor interest).isSome = true

instance (delta : Delta) (interest : Interest) : Decidable (Offers delta interest) :=
  inferInstanceAs (Decidable ((delta.sliceFor interest).isSome = true))

/-- The bus hands a delta to the subscriptions that it is offered to, and to no
others. -/
theorem offers_iff_fanOut (delta : Delta) (endpoint : Endpoint) :
    Offers delta endpoint.sub.interest ↔
      (fanOut delta endpoint).offered.length = endpoint.offered.length + 1 := by
  unfold Offers
  rw [fanOut_offered, List.length_append]
  cases delta.sliceFor endpoint.sub.interest with
  | none => simp
  | some slice => simp

theorem filterOf_union (a b : Interest) (c : Category) :
    (union a b).filterOf c = a.filterOf c ∪ b.filterOf c := by
  cases c <;> rfl

/-- What meets an interest meets its union with another one. -/
theorem matches_union {a : Interest} (b : Interest) {ids files layers : Finset String}
    (h : a.matches ids files layers = true) : (union a b).matches ids files layers = true := by
  have hmeets : ∀ {filter other s : Finset String}, filter ≠ ∅ ∧ s ≠ ∅ ∧ filter ∩ s ≠ ∅ →
      filter ∪ other ≠ ∅ ∧ s ≠ ∅ ∧ (filter ∪ other) ∩ s ≠ ∅ := by
    intro filter other s hboth
    have hsub : filter ∩ s ⊆ (filter ∪ other) ∩ s :=
      Finset.inter_subset_inter_right Finset.subset_union_left
    refine ⟨fun hempty => hboth.1 (Finset.union_eq_empty.mp hempty).1, hboth.2.1, fun hempty => ?_⟩
    rw [hempty] at hsub
    exact hboth.2.2 (Finset.subset_empty.mp hsub)
  rw [matches_iff] at h ⊢
  rcases h with hall | hids | hfiles | hlayers
  · exact .inl (by unfold union; rw [hall]; rfl)
  · exact .inr (.inl (hmeets hids))
  · exact .inr (.inr (.inl (hmeets hfiles)))
  · exact .inr (.inr (.inr (hmeets hlayers)))

/-- Whether a wider filter keeps what a filter keeps. -/
theorem keepOnly_union_iff (filter other s : Finset String) :
    keepOnly filter s ⊆ keepOnly (filter ∪ other) s ↔
      filter ≠ ∅ ∨ other = ∅ ∨ s ⊆ other := by
  unfold keepOnly
  by_cases hfilter : filter = ∅
  · rw [hfilter, Finset.empty_union]
    by_cases hother : other = ∅
    · simp [hother]
    · simp only [ne_eq, not_true_eq_false, if_false, hother, not_false_eq_true, if_true, false_or]
      rw [Finset.subset_inter_iff]
      exact ⟨fun h => h.2, fun h => ⟨Finset.Subset.refl s, h⟩⟩
  · have hunion : filter ∪ other ≠ ∅ := fun hempty => hfilter (Finset.union_eq_empty.mp hempty).1
    rw [if_pos hfilter, if_pos hunion]
    refine iff_of_true ?_ (.inl hfilter)
    exact Finset.inter_subset_inter_left Finset.subset_union_left

/-- What the union of an interest with another one owes to it. -/
structure OnlyAdds (delta : Delta) (a b : Interest) : Prop where
  /-- What is offered stays offered. -/
  offers : Offers delta a → Offers delta (union a b)
  /-- What is reported stays reported. -/
  reports : ∀ c, (delta.scopedTo a).category c ⊆ (delta.scopedTo (union a b)).category c

/-- No filter of the second interest cuts what the first one lets through: the
first one filters as well, or the second one does not, or it covers the delta. -/
def Compatible (delta : Delta) (a b : Interest) : Prop :=
  delta.rescan = true ∨ a.all = true ∨ b.all = true ∨
    ∀ c, a.filterOf c ≠ ∅ ∨ b.filterOf c = ∅ ∨ delta.category c ⊆ b.filterOf c

/-- What is reported stays reported exactly when the interests are
compatible. -/
theorem reports_iff (delta : Delta) (a b : Interest) :
    (∀ c, (delta.scopedTo a).category c ⊆ (delta.scopedTo (union a b)).category c) ↔
      Compatible delta a b := by
  cases hfull : delta.rescan || (union a b).all with
  | true =>
    have hright : delta.rescan = true ∨ a.all = true ∨ b.all = true := by
      unfold union at hfull
      rw [Bool.or_eq_true, Bool.or_eq_true] at hfull
      exact hfull
    refine iff_of_true (fun c => ?_) ?_
    · rw [scopedTo_of_full hfull]
      exact (scopedTo_within delta a).category c
    · rcases hright with hrescan | ha | hb
      · exact .inl hrescan
      · exact .inr (.inl ha)
      · exact .inr (.inr (.inl hb))
  | false =>
    have hparts : delta.rescan = false ∧ a.all = false ∧ b.all = false := by
      unfold union at hfull
      rw [Bool.or_eq_false_iff, Bool.or_eq_false_iff] at hfull
      exact hfull
    have hfirst : (delta.rescan || a.all) = false := by rw [hparts.1, hparts.2.1]; rfl
    have heach : ∀ c, ((delta.scopedTo a).category c ⊆ (delta.scopedTo (union a b)).category c ↔
        a.filterOf c ≠ ∅ ∨ b.filterOf c = ∅ ∨ delta.category c ⊆ b.filterOf c) := by
      intro c
      rw [scopedTo_category hfirst, scopedTo_category hfull, filterOf_union]
      exact keepOnly_union_iff _ _ _
    unfold Compatible
    simp only [heach, hparts.1, hparts.2.1, hparts.2.2, Bool.false_eq_true, false_or]

/-- A union adds to what one interest is offered and told exactly when the
interests are compatible. -/
theorem onlyAdds_iff (delta : Delta) (a b : Interest) :
    OnlyAdds delta a b ↔ Compatible delta a b := by
  constructor
  · exact fun hadds => (reports_iff delta a b).mp hadds.reports
  · intro hcompatible
    have hreports := (reports_iff delta a b).mpr hcompatible
    have hwithin : (delta.scopedTo a).Within (delta.scopedTo (union a b)) :=
      ⟨hreports, fun hrescan => by simpa using hrescan⟩
    refine ⟨fun hoffers => ?_, hreports⟩
    unfold Offers at hoffers ⊢
    rw [isSome_sliceFor] at hoffers ⊢
    rcases hoffers with hall | ⟨hmatch, hsome⟩
    · refine .inl ?_
      unfold union
      rw [Bool.or_eq_true] at hall ⊢
      exact hall.imp (fun ha => by rw [ha]; rfl) id
    · refine .inr ⟨matches_union b hmatch, ?_⟩
      cases hempty : (delta.scopedTo (union a b)).isEmpty with
      | false => rfl
      | true =>
        rw [hwithin.isEmpty hempty] at hsome
        cases hsome

/-- A change of one function in one file. -/
def oneChange : Delta where
  revision := 1
  created := ∅
  changed := {"f"}
  deleted := ∅
  moved := ∅
  authored := ∅
  affected := {"f"}
  rescan := false
  files := {"a.py"}
  layers := {"code"}

/-- Whoever follows a file hears of a change in it, but not when an id of some
other file is followed as well. -/
theorem file_and_id :
    Offers oneChange { files := {"a.py"} } ∧
      ¬ Offers oneChange (union { files := {"a.py"} } { ids := {"g"} }) ∧
      ¬ OnlyAdds oneChange { files := {"a.py"} } { ids := {"g"} } := by
  have hfirst : Offers oneChange { files := {"a.py"} } := by decide +kernel
  have hboth : ¬ Offers oneChange (union { files := {"a.py"} } { ids := {"g"} }) := by
    decide +kernel
  exact ⟨hfirst, hboth, fun hadds => hboth (hadds.offers hfirst)⟩

end Tyo3.InterestUnions
