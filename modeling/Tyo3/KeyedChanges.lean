import Mathlib.Data.Finset.SDiff
import Mathlib.Data.Option.Basic

/-!
# Two tables read through one index

A table gives the value at each place. A ledger says which key stands where
and with which value. Reading a table through an index of the present gives
every key the entry at the place where it stands now. Two tables that are
read through one index tell the changes of their ledgers, provided that every
key with a change still stands where it stood. Nothing here names a program.
-/

namespace Tyo3.KeyedChanges

variable {ι π κ : Type*}

/-- A ledger accounts for a table: every entry belongs to exactly one key. -/
structure Accounts (ledger : ι → Option (π × κ)) (table : π → Option κ) : Prop where
  /-- Every key stands at an entry of the table. -/
  entry : ∀ i p k, ledger i = some (p, k) → table p = some k
  /-- Every entry of the table has a key. -/
  owner : ∀ p k, table p = some k → ∃ i, ledger i = some (p, k)
  /-- No place has two keys. -/
  single : ∀ i j p k l, ledger i = some (p, k) → ledger j = some (p, l) → i = j

/-- What a key reads of a table through an index. -/
def Reads (index : π → Option ι) (table : π → Option κ) (read : ι → Option (π × κ)) : Prop :=
  ∀ i p k, read i = some (p, k) ↔ index p = some i ∧ table p = some k

open Classical in
/-- The reading of a table through an index. -/
noncomputable def reading (index : π → Option ι) (table : π → Option κ) (i : ι) : Option (π × κ) :=
  if h : ∃ entry : π × κ, index entry.1 = some i ∧ table entry.1 = some entry.2 then some h.choose
  else none

/-- A key that appears. -/
def Added (before after : Option (π × κ)) : Prop := before = none ∧ ∃ entry, after = some entry

/-- A key whose value changes. -/
def Changed (before after : Option (π × κ)) : Prop :=
  ∃ p k q l, before = some (p, k) ∧ after = some (q, l) ∧ k ≠ l

/-- A key that takes its value to another place. -/
def Moved (before after : Option (π × κ)) : Prop :=
  ∃ p q k, before = some (p, k) ∧ after = some (q, k) ∧ p ≠ q

/-- Every key that changes between two ledgers is indexed where it stood. -/
def Followed (index : π → Option ι) (before after : ι → Option (π × κ)) : Prop :=
  ∀ i, before i ≠ after i → (∀ p k, before i = some (p, k) → index p = some i) ∧
    ∀ p k, after i = some (p, k) → index p = some i

section

variable {index : π → Option ι} {table table' : π → Option κ}
  {ledger ledger' read read' : ι → Option (π × κ)}

/-- Through an index without double entries, the reading reads. -/
theorem reads_reading (hinj : ∀ p q i, index p = some i → index q = some i → p = q) :
    Reads index table (reading index table) := by
  intro i p k
  unfold reading
  split
  · rename_i h
    obtain ⟨hindex, htable⟩ := h.choose_spec
    rw [Option.some_inj]
    constructor
    · intro hentry
      rw [hentry] at hindex htable
      exact ⟨hindex, htable⟩
    · rintro ⟨hindex', htable'⟩
      have hplace := hinj _ _ i hindex hindex'
      rw [hplace, htable'] at htable
      exact Prod.ext hplace (Option.some.inj htable).symm
  · rename_i h
    exact iff_of_false nofun fun hread => h ⟨(p, k), hread⟩

/-- Changes are followed in both directions. -/
theorem Followed.symm (h : Followed index ledger ledger') : Followed index ledger' ledger :=
  fun i hne => ⟨(h i hne.symm).2, (h i hne.symm).1⟩

/-- A key without a change reads the same from both tables, if it reads from
the first. -/
theorem read_of_unchanged (ha : Accounts ledger table) (hb : Accounts ledger' table')
    (hr : Reads index table read) (hr' : Reads index table' read')
    (hf : Followed index ledger ledger') {i : ι} (hsame : ledger i = ledger' i) {p : π} {k : κ}
    (hread : read i = some (p, k)) : read' i = some (p, k) := by
  obtain ⟨hindex, htable⟩ := (hr i p k).mp hread
  obtain ⟨j, hj⟩ := ha.owner p k htable
  -- the key that stood there has no change either, or it still stands there
  by_cases hchange : ledger j = ledger' j
  · have htable' : table' p = some k := hb.entry j p k (hchange ▸ hj)
    exact (hr' i p k).mpr ⟨hindex, htable'⟩
  · have hstill : index p = some j := (hf j hchange).1 p k hj
    rw [hindex] at hstill
    cases hstill
    exact absurd hsame hchange

/-- A key with a change reads its own entry of the first table. -/
theorem read_of_changed (ha : Accounts ledger table) (hb : Accounts ledger' table')
    (hinj : ∀ p q i, index p = some i → index q = some i → p = q)
    (hr : Reads index table read) (hf : Followed index ledger ledger') {i : ι}
    (hchange : ledger i ≠ ledger' i) : read i = ledger i := by
  obtain ⟨hbefore, hafter⟩ := hf i hchange
  cases hentry : ledger i with
  | some entry =>
    obtain ⟨p, k⟩ := entry
    exact (hr i p k).mpr ⟨hbefore p k hentry, ha.entry i p k hentry⟩
  | none =>
    cases hread : read i with
    | none => rfl
    | some entry =>
      obtain ⟨p, k⟩ := entry
      exfalso
      obtain ⟨hindex, htable⟩ := (hr i p k).mp hread
      obtain ⟨j, hj⟩ := ha.owner p k htable
      cases hentry' : ledger' i with
      | none => exact hchange (hentry.trans hentry'.symm)
      | some entry' =>
        obtain ⟨q, l⟩ := entry'
        have hplace : q = p := hinj q p i (hafter q l hentry') hindex
        subst hplace
        -- the key that stood there in the first ledger is this one
        have howner : j = i := by
          by_cases hkept : ledger j = ledger' j
          · exact hb.single j i q k l (hkept ▸ hj) hentry'
          · have hstill := (hf j hkept).1 q k hj
            rw [hindex] at hstill
            exact (Option.some.inj hstill).symm
        rw [howner, hentry] at hj
        cases hj

/-- Every key reads its own entries of both tables, or has no change and
reads the same from both. -/
theorem read_own_or_same (ha : Accounts ledger table) (hb : Accounts ledger' table')
    (hinj : ∀ p q i, index p = some i → index q = some i → p = q)
    (hr : Reads index table read) (hr' : Reads index table' read')
    (hf : Followed index ledger ledger') (i : ι) :
    (read i = ledger i ∧ read' i = ledger' i) ∨ (ledger i = ledger' i ∧ read i = read' i) := by
  by_cases hsame : ledger i = ledger' i
  · refine .inr ⟨hsame, ?_⟩
    cases hread : read i with
    | some entry => exact (read_of_unchanged ha hb hr hr' hf hsame hread).symm
    | none =>
      cases hread' : read' i with
      | none => rfl
      | some entry' =>
        have hback := read_of_unchanged hb ha hr' hr hf.symm hsame.symm hread'
        rw [hread] at hback
        cases hback
  · exact .inl ⟨read_of_changed ha hb hinj hr hf hsame,
      read_of_changed hb ha hinj hr' hf.symm (Ne.symm hsame)⟩

/-- A change shows in the readings exactly when it shows in the ledgers. -/
theorem change_iff (ha : Accounts ledger table) (hb : Accounts ledger' table')
    (hinj : ∀ p q i, index p = some i → index q = some i → p = q)
    (hr : Reads index table read) (hr' : Reads index table' read')
    (hf : Followed index ledger ledger')
    {C : Option (π × κ) → Option (π × κ) → Prop} (hC : ∀ entry, ¬ C entry entry) (i : ι) :
    C (read i) (read' i) ↔ C (ledger i) (ledger' i) := by
  rcases read_own_or_same ha hb hinj hr hr' hf i with ⟨hbefore, hafter⟩ | ⟨hsame, hread⟩
  · rw [hbefore, hafter]
  · rw [hsame, hread]
    exact iff_of_false (hC _) (hC _)

theorem not_added_self (entry : Option (π × κ)) : ¬ Added entry entry := by
  rintro ⟨hnone, value, hsome⟩
  rw [hnone] at hsome
  cases hsome

theorem not_changed_self (entry : Option (π × κ)) : ¬ Changed entry entry := by
  rintro ⟨p, k, q, l, hbefore, hafter, hne⟩
  rw [hbefore] at hafter
  cases hafter
  exact hne rfl

theorem not_moved_self (entry : Option (π × κ)) : ¬ Moved entry entry := by
  rintro ⟨p, q, k, hbefore, hafter, hne⟩
  rw [hbefore] at hafter
  cases hafter
  exact hne rfl

/-- Two different entries are an addition, a removal, a change or a move. -/
theorem change_cases {before after : Option (π × κ)}
    (h : before ≠ after) : Added before after ∨ Added after before ∨ Changed before after ∨
      Moved before after := by
  cases before with
  | none =>
    cases after with
    | none => exact absurd rfl h
    | some entry => exact .inl ⟨rfl, entry, rfl⟩
  | some entry =>
    cases after with
    | none => exact .inr (.inl ⟨rfl, entry, rfl⟩)
    | some entry' =>
      obtain ⟨p, k⟩ := entry
      obtain ⟨q, l⟩ := entry'
      by_cases hvalue : k = l
      · subst hvalue
        refine .inr (.inr (.inr ⟨p, q, k, rfl, rfl, fun hplace => h ?_⟩))
        rw [hplace]
      · exact .inr (.inr (.inl ⟨p, k, q, l, rfl, rfl, hvalue⟩))

/-- A reading of two tables never moves a key. -/
theorem read_place (hinj : ∀ p q i, index p = some i → index q = some i → p = q)
    (hr : Reads index table read) (hr' : Reads index table' read') {i : ι} {p q : π} {k l : κ}
    (hread : read i = some (p, k)) (hread' : read' i = some (q, l)) : p = q :=
  hinj p q i ((hr i p k).mp hread).1 ((hr' i q l).mp hread').1

end

/-! ## Tables with finitely many keys -/

/-- Two tables agree when neither has a key of its own and the common keys
have one value. -/
theorem forall_eq_iff_of_keys [DecidableEq ι] {before after : ι → Option κ} {A B : Finset ι}
    (hA : ∀ i, i ∈ A ↔ ∃ k, after i = some k) (hB : ∀ i, i ∈ B ↔ ∃ k, before i = some k) :
    (∀ i, after i = before i) ↔ A \ B = ∅ ∧ B \ A = ∅ ∧ ∀ i ∈ A ∩ B, after i = before i := by
  constructor
  · intro hall
    have hkeys : A = B := by
      ext i
      rw [hA, hB, hall]
    rw [hkeys, Finset.sdiff_self]
    exact ⟨rfl, rfl, fun i _ => hall i⟩
  · rintro ⟨hadded, hremoved, hcommon⟩ i
    by_cases hi : i ∈ A
    · have hi' : i ∈ B := Finset.sdiff_eq_empty_iff_subset.mp hadded hi
      exact hcommon i (Finset.mem_inter.mpr ⟨hi, hi'⟩)
    · have hi' : i ∉ B := fun h => hi (Finset.sdiff_eq_empty_iff_subset.mp hremoved h)
      rw [hA, ← Option.ne_none_iff_exists', not_not] at hi
      rw [hB, ← Option.ne_none_iff_exists', not_not] at hi'
      rw [hi, hi']

end Tyo3.KeyedChanges
