import Mathlib.Data.Finset.Lattice.Basic
import Mathlib.Data.Finset.Insert
import Tyo3.BoundedQueues
import Tyo3.CommitFunnel

/-!
# Deltas of the subscription bus

A delta is the notification of one committed revision. An interest says what
a subscriber wants to hear of. The bus and the daemon decide in the same way
whether a delta concerns an interest and cut it down to that interest. A full
queue merges deltas category by category.
-/

namespace Tyo3.Deltas

open Entities CommitFunnel

/-- The notification of a committed revision. -/
structure Delta where
  /-- The committed revision. -/
  revision : Revision
  /-- Ids created in it. -/
  created : Finset String
  /-- Ids with another content hash. -/
  changed : Finset String
  /-- Ids deleted in it. -/
  deleted : Finset String
  /-- Ids with the same hash in another place. -/
  moved : Finset String
  /-- Ids with a new authored record. -/
  authored : Finset String
  /-- Everything that depends on a changed or deleted id. -/
  affected : Finset String
  /-- Whether everything may have changed. -/
  rescan : Bool
  /-- Files touched, relative to the project. -/
  files : Finset String
  /-- Layers touched. -/
  layers : Finset String
  deriving DecidableEq

/-- The sets a delta carries. -/
inductive Category
  | created | changed | deleted | moved | authored | affected | files | layers
  deriving DecidableEq

/-- The set of a delta in a category. -/
def Delta.category (delta : Delta) : Category → Finset String
  | .created => delta.created
  | .changed => delta.changed
  | .deleted => delta.deleted
  | .moved => delta.moved
  | .authored => delta.authored
  | .affected => delta.affected
  | .files => delta.files
  | .layers => delta.layers

/-- Whether a category holds ids. -/
def Category.isId : Category → Bool
  | .created | .changed | .deleted | .moved | .authored | .affected => true
  | .files | .layers => false

/-- What a subscriber wants to hear of. -/
structure Interest where
  /-- Files, relative to the project. -/
  files : Finset String := ∅
  /-- Ids. -/
  ids : Finset String := ∅
  /-- Names of layers. -/
  layers : Finset String := ∅
  /-- Every committed revision. -/
  all : Bool := false
  deriving DecidableEq

/-- The interest in every committed revision. -/
def Interest.ALL : Interest := { all := true }

/-- Whether the affected sets meet an interest. -/
def Interest.matches (interest : Interest)
    (affectedIds affectedFiles touchedLayers : Finset String) : Bool :=
  if interest.all then true
  else if interest.ids ≠ ∅ ∧ affectedIds ≠ ∅ ∧ interest.ids ∩ affectedIds ≠ ∅ then true
  else if interest.files ≠ ∅ ∧ affectedFiles ≠ ∅ ∧ interest.files ∩ affectedFiles ≠ ∅ then true
  else if interest.layers ≠ ∅ ∧ touchedLayers ≠ ∅ ∧ interest.layers ∩ touchedLayers ≠ ∅ then true
  else false

/-- Cut a set down to a filter, an empty filter standing for no filter. -/
def keepOnly (filter s : Finset String) : Finset String := if filter ≠ ∅ then s ∩ filter else s

/-- Cut a delta down to an interest. A rescan is delivered in full. Without a
filter on ids all ids are kept. -/
def Delta.scopedTo (delta : Delta) (interest : Interest) : Delta :=
  if delta.rescan || interest.all then delta
  else
    { revision := delta.revision
      created := keepOnly interest.ids delta.created
      changed := keepOnly interest.ids delta.changed
      deleted := keepOnly interest.ids delta.deleted
      moved := keepOnly interest.ids delta.moved
      authored := keepOnly interest.ids delta.authored
      affected := keepOnly interest.ids delta.affected
      rescan := delta.rescan
      files := keepOnly interest.files delta.files
      layers := keepOnly interest.layers delta.layers }

/-- No id was touched in any category. -/
def Delta.isEmpty (delta : Delta) : Bool :=
  !(delta.created ≠ ∅ || delta.changed ≠ ∅ || delta.deleted ≠ ∅ || delta.moved ≠ ∅ ||
    delta.authored ≠ ∅ || delta.affected ≠ ∅)

/-- The delta that a subscriber with an interest is offered, if any. All
revisions and rescans are offered even when they are empty; otherwise the
delta has to meet the interest and leave ids to report. -/
def Delta.sliceFor (delta : Delta) (interest : Interest) : Option Delta :=
  if interest.all || delta.rescan then some (delta.scopedTo interest)
  else if interest.matches delta.affected delta.files delta.layers then
    if (delta.scopedTo interest).isEmpty then none else some (delta.scopedTo interest)
  else none

/-- Merge a later delta into an earlier one. -/
def Delta.merge (tail incoming : Delta) : Delta where
  revision := max tail.revision incoming.revision
  created := tail.created ∪ incoming.created
  changed := tail.changed ∪ incoming.changed
  deleted := tail.deleted ∪ incoming.deleted
  moved := tail.moved ∪ incoming.moved
  authored := tail.authored ∪ incoming.authored
  affected := tail.affected ∪ incoming.affected
  rescan := tail.rescan || incoming.rescan
  files := tail.files ∪ incoming.files
  layers := tail.layers ∪ incoming.layers

/-- The layers a commit touches: a structural change touches the code, an
authored write the authored records. -/
def layersTouched (delta : CommitDelta) : Finset String :=
  (if delta.identity.createdIds ≠ [] ∨ delta.identity.changedIds ≠ [] ∨
      delta.identity.deletedIds ≠ [] ∨ delta.identity.moved ≠ [] ∨ delta.rescan = true
    then {"code"} else ∅) ∪
  (if delta.authoredIds ≠ [] then {"authored"} else ∅)

/-- The notification of a commit. The name of an authored layer is handed in,
since the commit does not report it. -/
def Delta.fromCommitDelta (delta : CommitDelta) (extraLayers : List String) : Delta where
  revision := delta.revision
  created := delta.identity.createdIds.toFinset
  changed := delta.identity.changedIds.toFinset
  deleted := delta.identity.deletedIds.toFinset
  moved := (delta.identity.moved.map (·.id)).toFinset
  authored := delta.authoredIds.toFinset
  affected := delta.identity.affectedIds.toFinset
  rescan := delta.rescan
  files := delta.touchedFiles.toFinset ∪ delta.identity.affectedFiles.toFinset
  layers := layersTouched delta ∪ extraLayers.toFinset

/-! ## Merging -/

@[simp] theorem merge_revision (a b : Delta) :
    (a.merge b).revision = max a.revision b.revision := rfl

@[simp] theorem merge_rescan (a b : Delta) : (a.merge b).rescan = (a.rescan || b.rescan) := rfl

/-- A merge unites the sets of every category. -/
@[simp] theorem merge_category (a b : Delta) (c : Category) :
    (a.merge b).category c = a.category c ∪ b.category c := by
  cases c <;> rfl

/-- Everything one delta reports is reported by another. -/
structure Delta.Within (a b : Delta) : Prop where
  /-- The sets of every category. -/
  category : ∀ c, a.category c ⊆ b.category c
  /-- The request for a rescan. -/
  rescan : a.rescan = true → b.rescan = true

namespace Delta.Within

theorem refl (a : Delta) : a.Within a := ⟨fun _ => Finset.Subset.refl _, id⟩

theorem trans {a b c : Delta} (hab : a.Within b) (hbc : b.Within c) : a.Within c :=
  ⟨fun k => (hab.category k).trans (hbc.category k), fun h => hbc.rescan (hab.rescan h)⟩

/-- The earlier delta is reported by a merge. -/
theorem merge_left (a b : Delta) : a.Within (a.merge b) := by
  refine ⟨fun c => ?_, fun h => ?_⟩
  · rw [merge_category]
    exact Finset.subset_union_left
  · rw [merge_rescan, h, Bool.true_or]

/-- The later delta is reported by a merge. -/
theorem merge_right (a b : Delta) : b.Within (a.merge b) := by
  refine ⟨fun c => ?_, fun h => ?_⟩
  · rw [merge_category]
    exact Finset.subset_union_right
  · rw [merge_rescan, h, Bool.or_true]

end Delta.Within

/-- A delta stands for another one: it reports everything of it and is not
older. -/
def Delta.Covers (a b : Delta) : Prop := b.Within a ∧ b.revision ≤ a.revision

namespace Delta.Covers

theorem refl (a : Delta) : a.Covers a := ⟨.refl a, le_refl _⟩

theorem trans {a b c : Delta} (hab : a.Covers b) (hbc : b.Covers c) : a.Covers c :=
  ⟨hbc.1.trans hab.1, hbc.2.trans hab.2⟩

theorem merge_left (a b : Delta) : (a.merge b).Covers a :=
  ⟨.merge_left a b, le_max_left a.revision b.revision⟩

theorem merge_right (a b : Delta) : (a.merge b).Covers b :=
  ⟨.merge_right a b, le_max_right a.revision b.revision⟩

end Delta.Covers

/-! ## Slices -/

/-- The filter of an interest on a category. -/
def Interest.filterOf (interest : Interest) : Category → Finset String
  | .files => interest.files
  | .layers => interest.layers
  | _ => interest.ids

theorem keepOnly_subset {filter s t : Finset String} (h : s ⊆ t) :
    keepOnly filter s ⊆ keepOnly filter t := by
  unfold keepOnly
  split
  · exact Finset.inter_subset_inter_right h
  · exact h

theorem keepOnly_subset_self (filter s : Finset String) : keepOnly filter s ⊆ s := by
  unfold keepOnly
  split
  · exact Finset.inter_subset_left
  · exact Finset.Subset.refl s

@[simp] theorem scopedTo_revision (delta : Delta) (interest : Interest) :
    (delta.scopedTo interest).revision = delta.revision := by
  unfold Delta.scopedTo
  split <;> rfl

@[simp] theorem scopedTo_rescan (delta : Delta) (interest : Interest) :
    (delta.scopedTo interest).rescan = delta.rescan := by
  unfold Delta.scopedTo
  split <;> rfl

/-- Nothing is cut from a rescan or for the interest in everything. -/
theorem scopedTo_of_full {delta : Delta} {interest : Interest}
    (h : (delta.rescan || interest.all) = true) : delta.scopedTo interest = delta :=
  if_pos h

/-- Otherwise every category is cut down to its filter. -/
theorem scopedTo_category {delta : Delta} {interest : Interest}
    (h : (delta.rescan || interest.all) = false) (c : Category) :
    (delta.scopedTo interest).category c =
      keepOnly (interest.filterOf c) (delta.category c) := by
  unfold Delta.scopedTo
  rw [if_neg (by simp [h])]
  cases c <;> rfl

/-- A delta reports everything its cut reports. -/
theorem scopedTo_within (delta : Delta) (interest : Interest) :
    (delta.scopedTo interest).Within delta := by
  refine ⟨fun c => ?_, fun h => ?_⟩
  · cases h : delta.rescan || interest.all with
    | true => rw [scopedTo_of_full h]
    | false =>
      rw [scopedTo_category h]
      exact keepOnly_subset_self _ _
  · rw [scopedTo_rescan] at h
    exact h

/-- A delta that reports more has a cut that reports more. -/
theorem Delta.Within.scopedTo {a b : Delta} (h : a.Within b) (interest : Interest) :
    (a.scopedTo interest).Within (b.scopedTo interest) := by
  cases hb : b.rescan || interest.all with
  | true =>
    rw [scopedTo_of_full hb]
    exact (scopedTo_within a interest).trans h
  | false =>
    have hfalse := Bool.or_eq_false_iff.mp hb
    have hrescan : a.rescan = false := by
      cases ha : a.rescan with
      | false => rfl
      | true => rw [h.rescan ha] at hfalse; exact absurd hfalse.1 (by simp)
    have ha : (a.rescan || interest.all) = false := by rw [hrescan, hfalse.2]; rfl
    refine ⟨fun c => ?_, fun hr => ?_⟩
    · rw [scopedTo_category ha, scopedTo_category hb]
      exact keepOnly_subset (h.category c)
    · rw [scopedTo_rescan, hrescan] at hr
      exact absurd hr (by simp)

/-- A delta is empty when it has no ids in any category. -/
theorem isEmpty_iff (delta : Delta) :
    delta.isEmpty = true ↔ ∀ c : Category, c.isId = true → delta.category c = ∅ := by
  unfold Delta.isEmpty
  constructor
  · intro h c hc
    simp only [Bool.not_eq_true', Bool.or_eq_false_iff, decide_eq_false_iff_not, not_not] at h
    obtain ⟨⟨⟨⟨⟨hcreated, hchanged⟩, hdeleted⟩, hmoved⟩, hauthored⟩, haffected⟩ := h
    cases c with
    | created => exact hcreated
    | changed => exact hchanged
    | deleted => exact hdeleted
    | moved => exact hmoved
    | authored => exact hauthored
    | affected => exact haffected
    | files => exact absurd hc (by decide)
    | layers => exact absurd hc (by decide)
  · intro h
    have hcreated : delta.created = ∅ := h .created rfl
    have hchanged : delta.changed = ∅ := h .changed rfl
    have hdeleted : delta.deleted = ∅ := h .deleted rfl
    have hmoved : delta.moved = ∅ := h .moved rfl
    have hauthored : delta.authored = ∅ := h .authored rfl
    have haffected : delta.affected = ∅ := h .affected rfl
    simp [hcreated, hchanged, hdeleted, hmoved, hauthored, haffected]

/-- A delta that reports no more than an empty one is empty. -/
theorem Delta.Within.isEmpty {a b : Delta} (h : a.Within b) (hb : b.isEmpty = true) :
    a.isEmpty = true := by
  rw [isEmpty_iff] at hb ⊢
  intro c hc
  have hsub := h.category c
  rw [hb c hc] at hsub
  exact Finset.subset_empty.mp hsub

/-- Larger sets meet the same filter. -/
private theorem meets_mono {filter s t : Finset String} (h : s ⊆ t)
    (hs : filter ≠ ∅ ∧ s ≠ ∅ ∧ filter ∩ s ≠ ∅) : filter ≠ ∅ ∧ t ≠ ∅ ∧ filter ∩ t ≠ ∅ := by
  refine ⟨hs.1, fun ht => hs.2.1 ?_, fun ht => hs.2.2 ?_⟩
  · rw [ht] at h
    exact Finset.subset_empty.mp h
  · have hsub : filter ∩ s ⊆ filter ∩ t := Finset.inter_subset_inter_left h
    rw [ht] at hsub
    exact Finset.subset_empty.mp hsub

/-- An interest is met when it asks for everything or one of its filters
meets its set. -/
theorem matches_iff (interest : Interest) (ids files layers : Finset String) :
    interest.matches ids files layers = true ↔ interest.all = true ∨
      (interest.ids ≠ ∅ ∧ ids ≠ ∅ ∧ interest.ids ∩ ids ≠ ∅) ∨
      (interest.files ≠ ∅ ∧ files ≠ ∅ ∧ interest.files ∩ files ≠ ∅) ∨
      (interest.layers ≠ ∅ ∧ layers ≠ ∅ ∧ interest.layers ∩ layers ≠ ∅) := by
  unfold Interest.matches
  split_ifs with hall hids hfiles hlayers
  · exact iff_of_true rfl (Or.inl hall)
  · exact iff_of_true rfl (Or.inr (Or.inl hids))
  · exact iff_of_true rfl (Or.inr (Or.inr (Or.inl hfiles)))
  · exact iff_of_true rfl (Or.inr (Or.inr (Or.inr hlayers)))
  · refine iff_of_false (by simp) ?_
    rintro (h | h | h | h)
    · exact hall h
    · exact hids h
    · exact hfiles h
    · exact hlayers h

/-- Larger sets meet the same interests. -/
theorem matches_mono {interest : Interest} {a b : Delta} (h : a.Within b)
    (ha : interest.matches a.affected a.files a.layers = true) :
    interest.matches b.affected b.files b.layers = true := by
  rw [matches_iff] at ha ⊢
  rcases ha with hall | hids | hfiles | hlayers
  · exact Or.inl hall
  · exact Or.inr (Or.inl (meets_mono (h.category .affected) hids))
  · exact Or.inr (Or.inr (Or.inl (meets_mono (h.category .files) hfiles)))
  · exact Or.inr (Or.inr (Or.inr (meets_mono (h.category .layers) hlayers)))

/-- What is offered is the cut of the delta. -/
theorem eq_of_sliceFor {delta slice : Delta} {interest : Interest}
    (h : delta.sliceFor interest = some slice) : slice = delta.scopedTo interest := by
  unfold Delta.sliceFor at h
  split_ifs at h <;> exact (Option.some.inj h).symm

/-- A delta is offered when it is a rescan, when everything is asked for, or
when it meets the interest and leaves ids to report. -/
theorem isSome_sliceFor (delta : Delta) (interest : Interest) :
    (delta.sliceFor interest).isSome = true ↔ (interest.all || delta.rescan) = true ∨
      (interest.matches delta.affected delta.files delta.layers = true ∧
        (delta.scopedTo interest).isEmpty = false) := by
  unfold Delta.sliceFor
  split_ifs with hall hmatch hempty
  · simp [hall]
  · simp [hall, hempty]
  · simp [hmatch, hempty]
  · simp [hall, hmatch]

/-- A delta that reports more is offered whenever one that reports less is,
and its slice reports more. -/
theorem Delta.Within.sliceFor {a b slice : Delta} (h : a.Within b) {interest : Interest}
    (ha : a.sliceFor interest = some slice) :
    ∃ larger, b.sliceFor interest = some larger ∧ slice.Within larger := by
  have hoffered : (b.sliceFor interest).isSome = true := by
    rw [isSome_sliceFor]
    have hsome := (isSome_sliceFor a interest).mp (by rw [ha]; rfl)
    rcases hsome with hall | ⟨hmatch, hempty⟩
    · refine Or.inl ?_
      rw [Bool.or_eq_true] at hall ⊢
      exact hall.imp id h.rescan
    · refine Or.inr ⟨matches_mono h hmatch, ?_⟩
      cases hb : (b.scopedTo interest).isEmpty with
      | false => rfl
      | true =>
        rw [(h.scopedTo interest).isEmpty hb] at hempty
        exact absurd hempty (by simp)
  obtain ⟨larger, hlarger⟩ := Option.isSome_iff_exists.mp hoffered
  refine ⟨larger, hlarger, ?_⟩
  rw [eq_of_sliceFor ha, eq_of_sliceFor hlarger]
  exact h.scopedTo interest

/-- A slice keeps the revision. -/
theorem revision_of_sliceFor {delta slice : Delta} {interest : Interest}
    (h : delta.sliceFor interest = some slice) : slice.revision = delta.revision := by
  rw [eq_of_sliceFor h, scopedTo_revision]

/-- A delta that stands for another one has a slice that stands for the slice
of the other. -/
theorem Delta.Covers.sliceFor {a b slice : Delta} (h : a.Covers b) {interest : Interest}
    (hb : b.sliceFor interest = some slice) :
    ∃ larger, a.sliceFor interest = some larger ∧ larger.Covers slice := by
  obtain ⟨larger, hlarger, hwithin⟩ := h.1.sliceFor hb
  refine ⟨larger, hlarger, hwithin, ?_⟩
  rw [revision_of_sliceFor hb, revision_of_sliceFor hlarger]
  exact h.2

/-- Whoever asks for everything is offered every delta as it is. -/
theorem sliceFor_all (delta : Delta) : delta.sliceFor Interest.ALL = some delta := by
  have hfull : (delta.rescan || Interest.ALL.all) = true := Bool.or_true _
  have hall : (Interest.ALL.all || delta.rescan) = true := Bool.true_or _
  rw [Delta.sliceFor, if_pos hall, scopedTo_of_full hfull]

end Tyo3.Deltas
