import Mathlib.Data.Multiset.Fintype
import Mathlib.Order.Interval.Finset.Nat
import Tyo3.FiniteMaps

/-!
# Numbered copies

A list is read into a map under a key and a number: members of one key are
told apart by how many came before. Which keys and numbers a list has over
another one then tells which members it has more of, copy by copy. Sorting
by a text that tells the keys apart makes the order of the loop irrelevant.
The lemmas name no program.
-/

namespace Tyo3.NumberedCopies

open FiniteMaps

section Numbering

variable {K V : Type*} [DecidableEq K]

/-- What was read so far. -/
structure Numbering (K V : Type*) [DecidableEq K] where
  /-- How often a key was read. -/
  counts : FMap K ℕ
  /-- The members by key and number. -/
  members : FMap (K × ℕ) V

/-- Nothing was read. -/
def Numbering.empty : Numbering K V := ⟨∅, ∅⟩

/-- Read a member under the next number of its key. -/
def Numbering.read (key : V → K) (n : Numbering K V) (v : V) : Numbering K V :=
  let ordinal := (n.counts.lookup (key v)).getD 0
  ⟨n.counts.insert (key v) (ordinal + 1), n.members.insert (key v, ordinal) v⟩

/-- Read a list. -/
def numbered (key : V → K) (vs : List V) : Numbering K V := vs.foldl (.read key) .empty

/-- The members of one key in their order. -/
def sameKey (key : V → K) (vs : List V) (k : K) : List V := vs.filter fun v => key v = k

theorem sameKey_concat (key : V → K) (vs : List V) (v : V) (k : K) :
    sameKey key (vs ++ [v]) k = sameKey key vs k ++ if key v = k then [v] else [] := by
  unfold sameKey
  rw [List.filter_append, List.filter_singleton]
  by_cases hk : key v = k <;> simp [hk]

theorem length_sameKey (key : V → K) (vs : List V) (k : K) :
    (sameKey key vs k).length = (vs.map key).count k := by
  unfold sameKey
  rw [← List.countP_eq_length_filter, List.count, List.countP_map]
  refine List.countP_congr fun v _ => ?_
  simp

/-- A key is counted once for each of its members, and its members are
numbered in their order. -/
theorem lookup_numbered (key : V → K) (vs : List V) (k : K) :
    ((numbered key vs).counts.lookup k).getD 0 = (sameKey key vs k).length ∧
      ∀ n, (numbered key vs).members.lookup (k, n) = (sameKey key vs k)[n]? := by
  induction vs using List.reverseRecOn generalizing k with
  | nil => exact ⟨rfl, fun n => rfl⟩
  | append_singleton vs v ih =>
    have hread : numbered key (vs ++ [v]) = (numbered key vs).read key v := List.foldl_concat ..
    obtain ⟨hcount, -⟩ := ih (key v)
    rw [hread, sameKey_concat]
    unfold Numbering.read
    dsimp only
    rw [hcount]
    by_cases hk : key v = k
    · subst hk
      rw [if_pos rfl]
      constructor
      · rw [Finmap.lookup_insert, List.length_append, List.length_singleton, Option.getD_some]
      · intro n
        rw [lookup_insert_ite, (ih (key v)).2 n]
        by_cases hn : n = (sameKey key vs (key v)).length
        · rw [if_pos (by rw [hn]), hn, List.getElem?_concat_length]
        · rw [if_neg fun heq => hn (congrArg Prod.snd heq)]
          rcases Nat.lt_or_gt_of_ne hn with hlt | hgt
          · rw [List.getElem?_append_left hlt]
          · rw [List.getElem?_eq_none hgt.le, List.getElem?_eq_none]
            rw [List.length_append, List.length_singleton]
            omega
    · rw [if_neg hk, List.append_nil]
      constructor
      · rw [Finmap.lookup_insert_of_ne _ (Ne.symm hk)]
        exact (ih k).1
      · intro n
        rw [lookup_insert_ite, if_neg fun heq => hk (congrArg Prod.fst heq).symm]
        exact (ih k).2 n

/-- The keys of a list have as many numbers as they have members. -/
theorem keys_numbered (key : V → K) (vs : List V) :
    (numbered key vs).members.keys = (vs.map key : Multiset K).toEnumFinset := by
  ext p
  have hsame := (lookup_numbered key vs p.1).2 p.2
  rw [mem_keys_iff, Multiset.mem_toEnumFinset, Multiset.coe_count, ← length_sameKey, hsame]
  constructor
  · rintro ⟨v, hv⟩
    exact (List.getElem?_eq_some_iff.mp hv).1
  · exact fun hlt => ⟨_, List.getElem?_eq_getElem hlt⟩

/-- A member is found under its own key. -/
theorem key_of_numbered {key : V → K} {vs : List V} {p : K × ℕ} {v : V}
    (hv : (numbered key vs).members.lookup p = some v) : key v = p.1 := by
  have hsame := (lookup_numbered key vs p.1).2 p.2
  rw [show (p.1, p.2) = p from rfl, hv] at hsame
  have hmem := List.mem_of_getElem? hsame.symm
  exact of_decide_eq_true (List.mem_filter.mp hmem).2

/-- The numbered copies that one collection has over another one are as many
of each as it has more. -/
theorem map_fst_sdiff (s t : Multiset K) :
    (t.toEnumFinset \ s.toEnumFinset).val.map Prod.fst = t - s := by
  ext k
  have hcopies : {p ∈ t.toEnumFinset \ s.toEnumFinset | k = p.1} =
      {k} ×ˢ Finset.Ico (s.count k) (t.count k) := by
    ext p
    simp only [Finset.mem_filter, Finset.mem_sdiff, Multiset.mem_toEnumFinset,
      Finset.mem_product, Finset.mem_singleton, Finset.mem_Ico, not_lt]
    constructor
    · rintro ⟨⟨hin, hout⟩, rfl⟩
      exact ⟨rfl, hout, hin⟩
    · rintro ⟨rfl, hout, hin⟩
      exact ⟨⟨hin, hout⟩, rfl⟩
  rw [Multiset.count_map, ← Finset.filter_val, ← Finset.card_def, hcopies, Finset.card_product,
    Finset.card_singleton, one_mul, Nat.card_Ico, Multiset.count_sub]

/-- What is found under the keys and numbers that a second list has over a
first one is the difference of the two, when the key tells the members apart. -/
theorem coe_filterMap_sdiff [DecidableEq V] {key : V → K} (hkey : Function.Injective key)
    (xs ys : List V) {order : List (K × ℕ)} (horder : (order : Multiset (K × ℕ)) =
      ((numbered key ys).members.keys \ (numbered key xs).members.keys).val) :
    (order.filterMap (numbered key ys).members.lookup : Multiset V) = (ys : Multiset V) - xs := by
  have hkeys : (order.filterMap (numbered key ys).members.lookup).map key = order.map Prod.fst := by
    rw [List.map_filterMap, ← List.filterMap_eq_map']
    refine List.filterMap_congr fun p hp => ?_
    have hin : p ∈ (numbered key ys).members.keys := by
      rw [← Multiset.mem_coe, horder, Finset.mem_val] at hp
      exact (Finset.mem_sdiff.mp hp).1
    obtain ⟨v, hv⟩ := (mem_keys_iff _ p).mp hin
    rw [hv, Option.map_some, key_of_numbered hv]
  have hdiff : (order.map Prod.fst : Multiset K) = (ys.map key : Multiset K) - xs.map key := by
    rw [← Multiset.map_coe, horder, keys_numbered, keys_numbered, map_fst_sdiff]
  ext v
  rw [← Multiset.count_map_eq_count' key _ hkey, Multiset.map_coe, hkeys, hdiff,
    Multiset.count_sub, Multiset.count_sub, ← Multiset.map_coe, ← Multiset.map_coe,
    Multiset.count_map_eq_count' key _ hkey, Multiset.count_map_eq_count' key _ hkey]

end Numbering

section Patching

variable {V : Type*} [DecidableEq V]

/-- What is left after taking away what only the first collection has, together
with what only the second one has, is the second collection. -/
theorem sub_sub_add (s t : Multiset V) : s - (s - t) + (t - s) = t := by
  ext v
  rw [Multiset.count_add, Multiset.count_sub, Multiset.count_sub, Multiset.count_sub]
  omega

/-- Neither collection has more of anything exactly when they are equal. -/
theorem sub_eq_zero_both {s t : Multiset V} : t - s = 0 ∧ s - t = 0 ↔ s = t := by
  constructor
  · rintro ⟨hmore, hless⟩
    ext v
    have hmore := congrArg (Multiset.count v) hmore
    have hless := congrArg (Multiset.count v) hless
    rw [Multiset.count_sub, Multiset.count_zero] at hmore hless
    omega
  · rintro rfl
    have hself : s - s = 0 := by
      ext v
      rw [Multiset.count_sub, Nat.sub_self, Multiset.count_zero]
    exact ⟨hself, hself⟩

end Patching

section Sorting

variable {α T : Type*} [LinearOrder T]

/-- The members of a set, met in some order and sorted by a text. -/
def sortedBy (text : α → T) (iter : HashOrder α) (s : Finset α) : List α :=
  (iter.order s).insertionSort fun a b => text a ≤ text b

/-- Every member is listed once. -/
theorem coe_sortedBy (text : α → T) (iter : HashOrder α) (s : Finset α) :
    (sortedBy text iter s : Multiset α) = s.val := by
  rw [← iter.exhaustive s]
  exact Multiset.coe_eq_coe.mpr (List.perm_insertionSort _ _)

/-- When the text tells the members apart, the order in which they were met
does not matter. -/
theorem sortedBy_eq {text : α → T} (htext : Function.Injective text) (iter iter' : HashOrder α)
    (s : Finset α) : sortedBy text iter s = sortedBy text iter' s := by
  have htotal : Std.Total fun a b => text a ≤ text b := ⟨fun a b => le_total _ _⟩
  have htrans : IsTrans α fun a b => text a ≤ text b := ⟨fun _ _ _ => le_trans⟩
  have hperm : (sortedBy text iter s).Perm (sortedBy text iter' s) := by
    rw [← Multiset.coe_eq_coe, coe_sortedBy, coe_sortedBy]
  refine hperm.eq_of_pairwise (fun a b _ _ hab hba => htext (le_antisymm hab hba)) ?_ ?_
  · exact List.pairwise_insertionSort _ _
  · exact List.pairwise_insertionSort _ _

end Sorting

end Tyo3.NumberedCopies
