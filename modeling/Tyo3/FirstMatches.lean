import Mathlib.Data.Finset.Basic
import Mathlib.Data.List.Nodup
import Mathlib.Logic.Nontrivial.Defs

/-!
# First matches

A list of scored hits is turned into a list of scored items: every item that
some hit matches, once, with the score of the first such hit, in the order of
these hits. The loop collects the items of one hit after the other and leaves
out those it has seen. Two ways to match give the same answer, whatever the
scores are, exactly when the first match of every item is at one place.
-/

namespace Tyo3.FirstMatches

variable {α β γ : Type*}

/-! ## The answer -/

/-- Every matched item once, with the score of its first hit, in the order of
the hits. -/
structure Mapped (hit : α → β → Bool) (hits : List (β × γ)) (found : List (α × γ)) : Prop where
  /-- No item stands twice. -/
  once : (found.map Prod.fst).Nodup
  /-- The items are those that are matched. -/
  matched : ∀ item, item ∈ found.map Prod.fst ↔ ∃ entry ∈ hits, hit item entry.1 = true
  /-- The score is that of the first match. -/
  scored : ∀ item score, (item, score) ∈ found →
    (hits.find? fun entry => hit item entry.1).map Prod.snd = some score
  /-- Items stand in the order of their first matches. -/
  ordered : found.Pairwise fun first second =>
    (hits.findIdx fun entry => hit first.1 entry.1) ≤
      hits.findIdx fun entry => hit second.1 entry.1

theorem mapped_nil (hit : α → β → Bool) : Mapped hit ([] : List (β × γ)) [] :=
  ⟨List.nodup_nil, fun item => by simp, fun _ _ h => absurd h List.not_mem_nil, List.Pairwise.nil⟩

/-- The items of one more hit that were not matched before come last. -/
theorem Mapped.concat {hit : α → β → Bool} {hits : List (β × γ)} {found : List (α × γ)}
    (h : Mapped hit hits found) {key : β} {score : γ} {fresh : List α} (hnodup : fresh.Nodup)
    (hfresh : ∀ item, item ∈ fresh ↔ hit item key = true ∧ item ∉ found.map Prod.fst) :
    Mapped hit (hits ++ [(key, score)]) (found ++ fresh.map fun item => (item, score)) := by
  have hnames : (fresh.map fun item => (item, score)).map Prod.fst = fresh := by
    rw [List.map_map]
    exact List.map_id' fresh
  -- an item that was matched before keeps its first match
  have hold : ∀ {item}, item ∈ found.map Prod.fst → ∃ entry ∈ hits, hit item entry.1 = true :=
    fun {item} hitem => (h.matched item).mp hitem
  have hnew : ∀ {item}, item ∈ fresh → ∀ entry ∈ hits, hit item entry.1 = false := by
    intro item hitem entry hentry
    by_contra hhit
    exact ((hfresh item).mp hitem).2 ((h.matched item).mpr ⟨entry, hentry, by simpa using hhit⟩)
  have hplace : ∀ {item}, item ∈ found.map Prod.fst →
      (hits ++ [(key, score)]).findIdx (fun entry => hit item entry.1) =
        hits.findIdx fun entry => hit item entry.1 := by
    intro item hitem
    rw [List.findIdx_append, if_pos (List.findIdx_lt_length.mpr (hold hitem))]
  have hlast : ∀ {item}, item ∈ fresh →
      (hits ++ [(key, score)]).findIdx (fun entry => hit item entry.1) = hits.length := by
    intro item hitem
    have hnone := List.findIdx_eq_length.mpr (hnew hitem)
    rw [List.findIdx_append, hnone, if_neg (lt_irrefl _)]
    simp [((hfresh item).mp hitem).1]
  constructor
  · rw [List.map_append, hnames]
    refine List.nodup_append'.mpr ⟨h.once, hnodup, fun item hitem hin => ?_⟩
    exact ((hfresh item).mp hin).2 hitem
  · intro item
    rw [List.map_append, hnames, List.mem_append, hfresh, h.matched]
    simp only [List.mem_append, List.mem_singleton, or_and_right, exists_or, exists_eq_left]
    by_cases hbefore : ∃ entry ∈ hits, hit item entry.1 = true
    · simp only [hbefore, true_or]
    · simp only [hbefore, false_or, not_false_eq_true, and_true]
  · intro item found_score hentry
    rw [List.find?_append]
    rcases List.mem_append.mp hentry with hin | hin
    · have hscore := h.scored item found_score hin
      cases hfind : hits.find? fun entry => hit item entry.1 with
      | none => rw [hfind] at hscore; cases hscore
      | some entry =>
        rw [hfind] at hscore
        exact hscore
    · obtain ⟨other, hother, heq⟩ := List.mem_map.mp hin
      obtain ⟨hitem, hsame⟩ := Prod.mk.inj heq
      rw [hitem] at hother
      have hnone : (hits.find? fun entry => hit item entry.1) = none :=
        List.find?_eq_none.mpr fun entry hentry => by simp [hnew hother entry hentry]
      rw [hnone, Option.none_or, List.find?_singleton, if_pos ((hfresh item).mp hother).1, ← hsame]
      rfl
  · refine List.pairwise_append.mpr ⟨?_, ?_, ?_⟩
    · refine h.ordered.imp_of_mem fun hfirst hsecond hle => ?_
      rw [hplace (List.mem_map_of_mem hfirst), hplace (List.mem_map_of_mem hsecond)]
      exact hle
    · refine List.pairwise_of_forall_mem_list fun first hfirst second hsecond => ?_
      obtain ⟨item, hitem, heq⟩ := List.mem_map.mp hfirst
      obtain ⟨other, hother, heq'⟩ := List.mem_map.mp hsecond
      rw [← heq, ← heq', hlast hitem, hlast hother]
    · intro first hfirst second hsecond
      obtain ⟨other, hother, heq⟩ := List.mem_map.mp hsecond
      rw [← heq, hplace (List.mem_map_of_mem hfirst), hlast hother]
      exact List.findIdx_le_length

/-! ## The loop -/

section Loop

variable [DecidableEq α] (itemsOf : β → List α)

/-- Take up one item of a hit unless it was seen. -/
def addItem (score : γ) (state : List (α × γ) × Finset α) (item : α) :
    List (α × γ) × Finset α :=
  if item ∈ state.2 then state else (state.1 ++ [(item, score)], insert item state.2)

/-- Take up the items of a hit. -/
def addHit (state : List (α × γ) × Finset α) (entry : β × γ) : List (α × γ) × Finset α :=
  (itemsOf entry.1).foldl (addItem entry.2) state

/-- Take up the items of all hits. -/
def mapHits (hits : List (β × γ)) : List (α × γ) := (hits.foldl (addHit itemsOf) ([], ∅)).1

/-- A hit adds its items that were not seen, each once. -/
theorem foldl_addItem (score : γ) (items : List α) (state : List (α × γ) × Finset α) :
    ∃ fresh : List α, fresh.Nodup ∧ (∀ item, item ∈ fresh ↔ item ∈ items ∧ item ∉ state.2) ∧
      (items.foldl (addItem score) state).1 = state.1 ++ fresh.map (fun item => (item, score)) ∧
      ∀ item, item ∈ (items.foldl (addItem score) state).2 ↔ item ∈ state.2 ∨ item ∈ items := by
  induction items generalizing state with
  | nil => exact ⟨[], List.nodup_nil, by simp, by simp, by simp⟩
  | cons first items ih =>
    rw [List.foldl_cons]
    by_cases hseen : first ∈ state.2
    · have hadd : addItem score state first = state := if_pos hseen
      obtain ⟨fresh, hnodup, hfresh, hfound, hstate⟩ := ih state
      rw [hadd]
      refine ⟨fresh, hnodup, fun item => ?_, hfound, fun item => ?_⟩
      · rw [hfresh, List.mem_cons]
        constructor
        · exact fun h => ⟨.inr h.1, h.2⟩
        · rintro ⟨heq | hin, hnot⟩
          · exact absurd (heq ▸ hseen) hnot
          · exact ⟨hin, hnot⟩
      · rw [hstate, List.mem_cons]
        constructor
        · exact fun h => h.imp_right .inr
        · rintro (hin | heq | hin)
          · exact .inl hin
          · exact .inl (heq ▸ hseen)
          · exact .inr hin
    · have hadd : addItem score state first =
          (state.1 ++ [(first, score)], insert first state.2) := if_neg hseen
      obtain ⟨fresh, hnodup, hfresh, hfound, hstate⟩ :=
        ih (state.1 ++ [(first, score)], insert first state.2)
      rw [hadd]
      have hnot : first ∉ fresh := fun hin =>
        ((hfresh first).mp hin).2 (Finset.mem_insert_self first state.2)
      refine ⟨first :: fresh, List.nodup_cons.mpr ⟨hnot, hnodup⟩, fun item => ?_, ?_,
        fun item => ?_⟩
      · rw [List.mem_cons, hfresh, List.mem_cons, Finset.mem_insert]
        by_cases heq : item = first
        · simp [heq, hseen]
        · simp [heq]
      · rw [hfound, List.map_cons, List.append_assoc]
        rfl
      · rw [hstate, Finset.mem_insert, List.mem_cons]
        tauto

/-- The loop gives every matched item once, with the score of its first hit. -/
theorem mapped_mapHits (hits : List (β × γ)) :
    Mapped (fun item key => decide (item ∈ itemsOf key)) hits (mapHits itemsOf hits) := by
  -- the invariant of the loop after some of the hits
  have hloop : ∀ (rest done : List (β × γ)) (state : List (α × γ) × Finset α),
      Mapped (fun item key => decide (item ∈ itemsOf key)) done state.1 →
      (∀ item, item ∈ state.2 ↔ item ∈ state.1.map Prod.fst) →
      Mapped (fun item key => decide (item ∈ itemsOf key)) (done ++ rest)
        (rest.foldl (addHit itemsOf) state).1 := by
    intro rest
    induction rest with
    | nil =>
      intro done state hmapped _
      rw [List.append_nil]
      exact hmapped
    | cons entry rest ih =>
      intro done state hmapped hseen
      obtain ⟨fresh, hnodup, hfresh, hfound, hstate⟩ :=
        foldl_addItem entry.2 (itemsOf entry.1) state
      have hnext : Mapped (fun item key => decide (item ∈ itemsOf key)) (done ++ [(entry.1, entry.2)])
          (state.1 ++ fresh.map fun item => (item, entry.2)) := by
        refine hmapped.concat hnodup fun item => ?_
        rw [hfresh, hseen, decide_eq_true_eq]
      rw [List.foldl_cons, List.append_cons]
      refine ih (done ++ [entry]) (addHit itemsOf state entry) ?_ fun item => ?_
      · unfold addHit
        rw [hfound]
        exact hnext
      · unfold addHit
        rw [hstate, hfound, hseen, List.map_append, List.mem_append, List.map_map]
        have hnames : fresh.map (Prod.fst ∘ fun item => (item, entry.2)) = fresh :=
          List.map_id' fresh
        rw [hnames, hfresh, hseen]
        tauto
  refine hloop hits [] ([], ∅) (mapped_nil _) fun item => ?_
  simp

end Loop

/-! ## Two ways to match -/

section Matching

variable {hit hit' : α → β → Bool} {keys : List β} {hits : List (β × γ)} {found : List (α × γ)}

theorem findIdx?_keys (hkeys : hits.map Prod.fst = keys) (item : α) :
    (hits.findIdx? fun entry => hit item entry.1) = keys.findIdx? (hit item) := by
  rw [← hkeys, List.findIdx?_map]
  rfl

/-- The answer depends on the places of the first matches. -/
theorem Mapped.congr (hkeys : hits.map Prod.fst = keys)
    (hsame : ∀ item, keys.findIdx? (hit item) = keys.findIdx? (hit' item))
    (h : Mapped hit hits found) : Mapped hit' hits found := by
  have hplace : ∀ item, (hits.findIdx? fun entry => hit item entry.1) =
      hits.findIdx? fun entry => hit' item entry.1 := by
    intro item
    rw [findIdx?_keys hkeys, findIdx?_keys hkeys, hsame]
  constructor
  · exact h.once
  · intro item
    have hsome := congrArg Option.isSome (hplace item)
    rw [List.findIdx?_isSome, List.findIdx?_isSome, Bool.eq_iff_iff, List.any_eq_true,
      List.any_eq_true] at hsome
    rw [h.matched, hsome]
  · intro item score hentry
    rw [List.find?_eq_bind_findIdx?_getElem?, ← hplace, ← List.find?_eq_bind_findIdx?_getElem?]
    exact h.scored item score hentry
  · refine h.ordered.imp fun {first second} hle => ?_
    rw [List.findIdx_eq_getD_findIdx?, List.findIdx_eq_getD_findIdx?] at hle ⊢
    rw [← hplace, ← hplace]
    exact hle

theorem exists_hit_iff (hkeys : hits.map Prod.fst = keys) (item : α) :
    (∃ entry ∈ hits, hit item entry.1 = true) ↔ (keys.findIdx? (hit item)).isSome = true := by
  rw [← findIdx?_keys hkeys, List.findIdx?_isSome, List.any_eq_true]

/-- Where an answer is right under two ways to match, the hits of an item have
one score. -/
theorem score_eq_of_mapped (h : Mapped hit hits found) (h' : Mapped hit' hits found)
    (hkeys : hits.map Prod.fst = keys) {item : α} {i j : ℕ}
    (hi : keys.findIdx? (hit item) = some i) (hj : keys.findIdx? (hit' item) = some j) :
    hits[i]?.map Prod.snd = hits[j]?.map Prod.snd := by
  have hin : item ∈ found.map Prod.fst := by
    rw [h.matched, exists_hit_iff hkeys, hi]
    rfl
  obtain ⟨⟨other, score⟩, hentry, heq⟩ := List.mem_map.mp hin
  have hother : other = item := heq
  rw [hother] at hentry
  have hscore := h.scored item score hentry
  have hscore' := h'.scored item score hentry
  rw [List.find?_eq_bind_findIdx?_getElem?, findIdx?_keys hkeys, hi, Option.bind_some] at hscore
  rw [List.find?_eq_bind_findIdx?_getElem?, findIdx?_keys hkeys, hj, Option.bind_some] at hscore'
  rw [hscore, hscore']

/-- The answers for one way to match are right for another one, whatever the
scores are, exactly when the first matches are at the same places. -/
theorem mapped_iff [Nontrivial γ] {answer : List (β × γ) → List (α × γ)}
    (h : ∀ hits, Mapped hit hits (answer hits)) (keys : List β) :
    (∀ hits : List (β × γ), hits.map Prod.fst = keys → Mapped hit' hits (answer hits)) ↔
      ∀ item, keys.findIdx? (hit item) = keys.findIdx? (hit' item) := by
  constructor
  · intro hright item
    obtain ⟨low, high, hne⟩ := exists_pair_ne γ
    -- the scores tell one place from all others
    have hscores : ∀ place : ℕ, ((keys.zipIdx.map fun entry =>
        (entry.1, if entry.2 = place then low else high)).map Prod.fst = keys) := by
      intro place
      rw [List.map_map]
      exact List.zipIdx_map_fst 0 keys
    have hsome : (keys.findIdx? (hit item)).isSome = true ↔
        (keys.findIdx? (hit' item)).isSome = true := by
      rw [← exists_hit_iff (hscores 0), ← exists_hit_iff (hscores 0),
        ← (h _).matched, ← (hright _ (hscores 0)).matched]
    cases hi : keys.findIdx? (hit item) with
    | none =>
      cases hj : keys.findIdx? (hit' item) with
      | none => rfl
      | some j => simp [hi, hj] at hsome
    | some i =>
      cases hj : keys.findIdx? (hit' item) with
      | none => simp [hi, hj] at hsome
      | some j =>
        have hscore := score_eq_of_mapped (h _) (hright _ (hscores i)) (hscores i) hi hj
        have hlong : i < keys.length := (List.findIdx?_eq_some_iff_findIdx_eq.mp hi).1
        have hlong' : j < keys.length := (List.findIdx?_eq_some_iff_findIdx_eq.mp hj).1
        by_contra hij
        have hplaces : j ≠ i := fun heq => hij (by rw [heq])
        simp [hlong, hlong', hplaces, hne] at hscore
  · intro hsame hits hkeys
    exact (h hits).congr hkeys hsame

end Matching

/-! ## Places of first matches -/

section Places

variable {p : β → Bool} {keys : List β}

/-- Nothing is matched at the same place where no element matches at all. -/
theorem findIdx?_eq_none_iff_of_never :
    (keys.findIdx? p = keys.findIdx? fun _ => false) ↔ ∀ hit ∈ keys, p hit = false := by
  have hnever : (keys.findIdx? fun _ => false) = none := List.findIdx?_eq_none_iff.mpr fun _ _ => rfl
  rw [hnever, List.findIdx?_eq_none_iff]

/-- The first match is the first occurrence of an element that matches, exactly
when every match is this element or comes after it. -/
theorem findIdx?_eq_iff_of_hit [DecidableEq β] {k : β} (hk : p k = true) :
    (keys.findIdx? p = keys.findIdx? fun key => decide (k = key)) ↔
      ∀ earlier hit later, keys = earlier ++ hit :: later → p hit = true → k ∈ earlier ++ [hit] := by
  induction keys with
  | nil =>
    refine iff_of_true rfl fun earlier hit later hsplit => ?_
    cases earlier <;> cases hsplit
  | cons first rest ih =>
    have hsplits : (∀ earlier hit later, first :: rest = earlier ++ hit :: later → p hit = true →
        k ∈ earlier ++ [hit]) ↔ (p first = true → k = first) ∧
        ∀ earlier hit later, rest = earlier ++ hit :: later → p hit = true →
          k ∈ first :: (earlier ++ [hit]) := by
      constructor
      · intro h
        refine ⟨fun hp => List.mem_singleton.mp (h [] first rest rfl hp), fun earlier hit later => ?_⟩
        intro hsplit hp
        exact h (first :: earlier) hit later (by rw [hsplit, List.cons_append]) hp
      · rintro ⟨hfirst, hrest⟩ earlier hit later hsplit hp
        cases earlier with
        | nil =>
          cases hsplit
          exact List.mem_singleton.mpr (hfirst hp)
        | cons other earlier =>
          obtain ⟨hsame, htail⟩ := List.cons.inj hsplit
          rw [← hsame]
          exact hrest earlier hit later htail hp
    rw [hsplits, List.findIdx?_cons, List.findIdx?_cons]
    by_cases hkey : k = first
    · rw [← hkey, hk, if_pos rfl, if_pos (decide_eq_true rfl)]
      exact iff_of_true rfl ⟨fun _ => rfl, fun _ _ _ _ _ => List.mem_cons_self⟩
    · have hother : ¬decide (k = first) = true := by simpa using hkey
      rw [if_neg hother]
      by_cases hp : p first = true
      · rw [if_pos hp]
        refine iff_of_false (fun hsame => ?_) fun h => hkey (h.1 hp)
        cases hrest : rest.findIdx? fun key => decide (k = key) with
        | none =>
          rw [hrest] at hsame
          cases hsame
        | some place =>
          rw [hrest] at hsame
          exact absurd (Option.some.inj hsame) (Nat.succ_ne_zero place).symm
      · rw [if_neg hp]
        have hsucc : Function.Injective fun place : ℕ => place + 1 := fun _ _ h => Nat.succ.inj h
        rw [(Option.map_injective hsucc).eq_iff, ih]
        simp only [hp, false_implies, true_and, List.mem_cons, hkey, false_or, Bool.false_eq_true]

/-- The first match is the first occurrence of an element that does not match,
exactly when there are neither. -/
theorem findIdx?_eq_iff_of_not_hit [DecidableEq β] {k : β} (hk : p k = false) :
    (keys.findIdx? p = keys.findIdx? fun key => decide (k = key)) ↔
      (∀ hit ∈ keys, p hit = false) ∧ k ∉ keys := by
  constructor
  · intro hsame
    cases hplace : keys.findIdx? p with
    | none =>
      rw [hplace] at hsame
      refine ⟨List.findIdx?_eq_none_iff.mp hplace, fun hin => ?_⟩
      have hnone := List.findIdx?_eq_none_iff.mp hsame.symm k hin
      simp at hnone
    | some place =>
      rw [hplace] at hsame
      obtain ⟨hlt, hmatch, -⟩ := List.findIdx?_eq_some_iff_getElem.mp hplace
      obtain ⟨_, hkey, -⟩ := List.findIdx?_eq_some_iff_getElem.mp hsame.symm
      rw [← of_decide_eq_true hkey, hk] at hmatch
      cases hmatch
  · rintro ⟨hnone, hout⟩
    rw [List.findIdx?_eq_none_iff.mpr hnone, eq_comm, List.findIdx?_eq_none_iff]
    intro key hkey
    exact decide_eq_false fun heq => hout (heq ▸ hkey)

end Places

end Tyo3.FirstMatches
