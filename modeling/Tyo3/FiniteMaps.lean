import Mathlib.Data.Finmap
import Mathlib.Data.Finset.Max
import Mathlib.Data.List.Sort
import Mathlib.Data.String.Basic
import Mathlib.Tactic.Common

/-!
# Finite maps and their enumeration

Hash maps, hash tries and B-tree maps are one extensional finite map here:
equal lookups make equal maps. A hash map lists its keys in an order of its
own, so a loop over one takes that order as an argument. The lemmas name no
program.
-/

namespace Tyo3.FiniteMaps

/-- A finite map, equal to another exactly when all lookups agree. -/
abbrev FMap (K V : Type*) := Finmap fun _ : K => V

section Lookup

variable {K V : Type*} [DecidableEq K]

/-- In a list without repeated keys an entry is found by its key. -/
theorem find?_eq_some_of_nodup {key : V → K} {entries : List V} (hd : (entries.map key).Nodup)
    {v : V} (hv : v ∈ entries) {k : K} (hk : key v = k) :
    (entries.find? fun w => key w = k) = some v := by
  cases hfound : entries.find? fun w => key w = k with
  | none => exact absurd (decide_eq_true hk) (List.find?_eq_none.mp hfound v hv)
  | some w =>
    have hw := List.find?_some hfound
    simp only [decide_eq_true_eq] at hw
    exact congrArg some (List.inj_on_of_nodup_map hd (List.mem_of_find?_eq_some hfound) hv
      (hw.trans hk.symm))

/-- Lookup after an insertion, as one case distinction on the key. -/
theorem lookup_insert_ite (m : FMap K V) (k k' : K) (v : V) :
    (m.insert k v).lookup k' = if k' = k then some v else m.lookup k' := by
  by_cases h : k' = k
  · rw [if_pos h, h]
    exact Finmap.lookup_insert m
  · rw [if_neg h]
    exact Finmap.lookup_insert_of_ne m h

/-- Lookup after an erasure, as one case distinction on the key. -/
theorem lookup_erase_ite (m : FMap K V) (k k' : K) :
    (m.erase k).lookup k' = if k' = k then none else m.lookup k' := by
  by_cases h : k' = k
  · rw [if_pos h, h]
    exact Finmap.lookup_erase k m
  · rw [if_neg h]
    exact Finmap.lookup_erase_ne h

/-- A value after an insertion is the inserted one or was there before. -/
theorem eq_or_lookup_of_lookup_insert {m : FMap K V} {k k' : K} {v w : V}
    (h : (m.insert k v).lookup k' = some w) : w = v ∨ m.lookup k' = some w := by
  rw [lookup_insert_ite] at h
  split_ifs at h with hk
  · exact Or.inl (Option.some.inj h).symm
  · exact Or.inr h

/-- A value after an erasure was there before. -/
theorem lookup_of_lookup_erase {m : FMap K V} {k k' : K} {w : V}
    (h : (m.erase k).lookup k' = some w) : m.lookup k' = some w := by
  rw [lookup_erase_ite] at h
  split_ifs at h with hk
  exact h

/-- A key is listed exactly when it has a value. -/
theorem mem_keys_iff (m : FMap K V) (k : K) : k ∈ m.keys ↔ ∃ v, m.lookup k = some v := by
  rw [Finmap.mem_keys, Finmap.mem_iff]

/-- A map filled from a list without repeated keys holds the entries of the
list and, under other keys, what it held. -/
theorem lookup_foldl_insert {ι : Type*} {key : ι → K} {value : ι → V} {items : List ι}
    (hd : (items.map key).Nodup) (m : FMap K V) (k : K) (v : V) :
    (items.foldl (fun m i => m.insert (key i) (value i)) m).lookup k = some v ↔
      (∃ i ∈ items, key i = k ∧ value i = v) ∨ k ∉ items.map key ∧ m.lookup k = some v := by
  induction items generalizing m with
  | nil => simp
  | cons first items ih =>
    rw [List.map_cons, List.nodup_cons] at hd
    rw [List.foldl_cons, ih hd.2, lookup_insert_ite, List.map_cons,
      List.exists_mem_cons_iff]
    by_cases hk : k = key first
    · have hout : k ∉ items.map key := hk ▸ hd.1
      have hnot : ¬ ∃ i ∈ items, key i = k ∧ value i = v := fun ⟨i, hi, hkey, _⟩ =>
        hout (hkey ▸ List.mem_map_of_mem hi)
      subst hk
      simp only [hnot, hout, not_false_eq_true, if_pos, Option.some.injEq, true_and, false_or,
        or_false, List.mem_cons, not_true_eq_false, false_and]
    · have hne : key first ≠ k := fun h => hk h.symm
      simp [hk, hne]

/-- Lookup after the erasure of a list of keys. -/
theorem lookup_foldl_erase (keys : List K) (m : FMap K V) (k : K) :
    (keys.foldl (fun m key => m.erase key) m).lookup k = if k ∈ keys then none else m.lookup k := by
  induction keys generalizing m with
  | nil => rw [if_neg List.not_mem_nil]; rfl
  | cons key keys ih =>
    rw [List.foldl_cons, ih, lookup_erase_ite]
    by_cases hin : k ∈ keys
    · rw [if_pos hin, if_pos (List.mem_cons_of_mem _ hin)]
    · by_cases hkey : k = key
      · rw [if_neg hin, if_pos hkey, if_pos (hkey ▸ List.mem_cons_self)]
      · have hout : k ∉ key :: keys := fun hmem => (List.mem_cons.mp hmem).elim hkey hin
        rw [if_neg hin, if_neg hkey, if_neg hout]

end Lookup

/-- An enumeration order of a hash collection: every element once, in an
order the collection alone decides. -/
structure HashOrder (K : Type*) where
  /-- The order in which a loop visits the elements. -/
  order : Finset K → List K
  /-- Every element is visited exactly once. -/
  exhaustive : ∀ s, (order s : Multiset K) = s.val

namespace HashOrder

variable {K : Type*}

/-- A loop visits exactly the elements of the collection. -/
theorem mem_order (iter : HashOrder K) (s : Finset K) (k : K) : k ∈ iter.order s ↔ k ∈ s := by
  rw [← Multiset.mem_coe, iter.exhaustive, Finset.mem_val]

/-- No element is visited twice. -/
theorem nodup_order (iter : HashOrder K) (s : Finset K) : (iter.order s).Nodup := by
  rw [← Multiset.coe_nodup, iter.exhaustive]
  exact s.nodup

/-- The increasing order, one of the orders a hash collection may have. -/
def increasing [LinearOrder K] : HashOrder K where
  order s := Quot.liftOn s.val (List.insertionSort (· ≤ ·)) fun a b hab =>
    ((List.perm_insertionSort _ a).trans (hab.trans (List.perm_insertionSort _ b).symm)).eq_of_pairwise'
      (List.pairwise_insertionSort _ a) (List.pairwise_insertionSort _ b)
  exhaustive s := by
    obtain ⟨values, hnodup⟩ := s
    induction values using Quot.induction_on with
    | _ values => exact Multiset.coe_eq_coe.mpr (List.perm_insertionSort _ values)

/-- The increasing order starts with the least element. -/
theorem head?_increasing [LinearOrder K] {s : Finset K} {k : K} (hk : k ∈ s)
    (hleast : ∀ other ∈ s, k ≤ other) : (increasing.order s).head? = some k := by
  have hsorted : (increasing.order s).Pairwise (· ≤ ·) := by
    obtain ⟨values, hnodup⟩ := s
    induction values using Quot.induction_on with
    | _ values => exact List.pairwise_insertionSort _ values
  have hmem : k ∈ increasing.order s := (mem_order increasing s k).mpr hk
  cases hlist : increasing.order s with
  | nil =>
    rw [hlist] at hmem
    exact absurd hmem List.not_mem_nil
  | cons first rest =>
    rw [hlist] at hsorted hmem
    have hfirst : k ≤ first := by
      apply hleast
      rw [← mem_order increasing, hlist]
      exact List.mem_cons_self
    have hother : first ≤ k := by
      rcases List.mem_cons.mp hmem with hsame | hrest
      · exact le_of_eq hsame.symm
      · exact (List.pairwise_cons.mp hsorted).1 k hrest
    rw [List.head?_cons, le_antisymm hfirst hother]

end HashOrder

end Tyo3.FiniteMaps
