import Tyo3.IdentityPersistence

/-!
# Which entity inherits which id by its hash

The second pass hands out ids greedily: each entity without an anchor under
its path takes the smallest id of its hash that is still free. For entities
of pairwise different paths the outcome has a closed form. The ids of a hash
that are in scope and not held by the path of an entity are handed out in
increasing order to the entities of that hash that have no anchor under
their path, in path order.
-/

namespace Tyo3.InheritedIds

open Entities FiniteMaps IdentityAnchors IdentityMatching IdentityPersistence IdentityPostState
  IdentityReconciliation

/-- Whether an entity of the list has an id under its path. -/
def heldByPath (r : IdentityRegistry) (entities : List Entity) (id : DurableId) : Bool :=
  entities.any fun e => decide (r.byPath.lookup e.qualifiedPath = some id)

/-- Ids of a hash that the second pass may hand out, in increasing order. -/
def spareIds (r : IdentityRegistry) (scope : Option (Finset String)) (entities : List Entity)
    (hash : ContentHash) : List DurableId :=
  ((r.hashIds hash).dedup.filter fun id =>
    anchorInScope r id scope && !heldByPath r entities id).insertionSort (· ≤ ·)

/-- Whether an entity of this hash has no anchor under its path. -/
def seeksHash (r : IdentityRegistry) (hash : ContentHash) (e : Entity) : Bool :=
  decide (e.contentHash = hash) && decide (r.byPath.lookup e.qualifiedPath = none)

/-- Number of entities before this one in path order that seek the same
hash. -/
def seekersBefore (r : IdentityRegistry) (entities : List Entity) (e : Entity) : ℕ :=
  entities.countP fun x => seeksHash r e.contentHash x &&
    decide (x.qualifiedPath < e.qualifiedPath)

/-- The id an entity without an anchor under its path inherits by hash. -/
def heir (r : IdentityRegistry) (scope : Option (Finset String)) (entities : List Entity)
    (e : Entity) : Option DurableId :=
  if r.byPath.lookup e.qualifiedPath = none then
    (spareIds r scope entities e.contentHash)[seekersBefore r entities e]?
  else none

section Spare

variable {r : IdentityRegistry} {scope : Option (Finset String)} {entities : List Entity}

/-- A spare id is listed under the hash, in scope and held by no path. -/
theorem mem_spareIds {hash : ContentHash} {id : DurableId} :
    id ∈ spareIds r scope entities hash ↔ id ∈ r.hashIds hash ∧
      anchorInScope r id scope = true ∧ heldByPath r entities id = false := by
  unfold spareIds
  rw [List.mem_insertionSort, List.mem_filter, List.mem_dedup, Bool.and_eq_true,
    Bool.not_eq_true']

/-- The spare ids increase. -/
theorem spareIds_sorted (hash : ContentHash) :
    (spareIds r scope entities hash).Pairwise (· < ·) := by
  have hle : (spareIds r scope entities hash).Pairwise (· ≤ ·) := List.pairwise_insertionSort _ _
  have hnd : (spareIds r scope entities hash).Nodup := by
    unfold spareIds
    rw [(List.perm_insertionSort _ _).nodup_iff]
    exact (List.nodup_dedup _).filter _
  exact (hle.and hnd).imp fun h => lt_of_le_of_ne h.1 h.2

/-- Permuted entities leave the same ids spare. -/
theorem spareIds_perm {entities' : List Entity} (hp : entities'.Perm entities)
    (hash : ContentHash) : spareIds r scope entities' hash = spareIds r scope entities hash := by
  have hheld : ∀ id, heldByPath r entities' id = heldByPath r entities id := by
    intro id
    unfold heldByPath
    exact hp.any_eq
  unfold spareIds
  simp only [hheld]

/-- Permuted entities inherit the same ids. -/
theorem heir_perm {entities' : List Entity} (hp : entities'.Perm entities) (e : Entity) :
    heir r scope entities' e = heir r scope entities e := by
  unfold heir seekersBefore
  rw [spareIds_perm hp, hp.countP_eq]

end Spare

/-- The smallest of a list whose members are those of an increasing list
from some position on. -/
theorem min?_of_drop {xs sorted : List DurableId} {k : ℕ} (hs : sorted.Pairwise (· < ·))
    (h : ∀ x, x ∈ xs ↔ x ∈ sorted.drop k) : xs.min? = sorted[k]? := by
  rw [min?_congr h, ← List.head?_drop]
  have hd : (sorted.drop k).Pairwise (· < ·) := hs.sublist (List.drop_sublist k sorted)
  cases hl : sorted.drop k with
  | nil => rfl
  | cons x rest =>
    rw [hl, List.pairwise_cons] at hd
    rw [List.head?_cons, List.min?_eq_some_iff]
    refine ⟨List.mem_cons_self, ?_⟩
    intro y hy
    rcases List.mem_cons.mp hy with rfl | hy
    · exact le_rfl
    · exact (hd.1 y hy).le

/-- A binding to an anchor found by hash. -/
def isMoved : Binding → Bool
  | .moved _ _ _ => true
  | _ => false

/-- A binding to an anchor found by structure. -/
def isStruct : Binding → Bool
  | .struct _ _ _ => true
  | _ => false

section Passes

variable {mint : ℕ → DurableId} {r : IdentityRegistry} {scope : Option (Finset String)}
  {sorted : List Entity}

/-- After the first pass the matched entities are those with an anchor under
their path, and the bound ids are the ids held by a path. -/
theorem exactPass_spec (hl : r.Linked) (hd : (sorted.map Entity.qualifiedPath).Nodup)
    {log : List Bound} (ht : Tracks mint r scope sorted (matchPass (exactRule r) sorted
      Matching.start) log) (hexact : ∀ x ∈ log, x.binding.isExact = true)
    (hall : ∀ i e, sorted[i]? = some e →
      i ∈ (matchPass (exactRule r) sorted Matching.start).matchedEntities ∨
        ∃ st', st'.boundIds ⊆ (matchPass (exactRule r) sorted Matching.start).boundIds ∧
          exactRule r st' e = none) :
    (∀ i e, sorted[i]? = some e →
      (i ∈ (matchPass (exactRule r) sorted Matching.start).matchedEntities ↔
        r.byPath.lookup e.qualifiedPath ≠ none)) ∧
    ∀ id, id ∈ (matchPass (exactRule r) sorted Matching.start).boundIds ↔
      heldByPath r sorted id = true := by
  generalize matchPass (exactRule r) sorted Matching.start = st at *
  have hentry : ∀ x ∈ log, r.byPath.lookup x.entity.qualifiedPath = some x.id := by
    intro x hx
    have hj := ht.justified x hx
    have he := hexact x hx
    cases hb : x.binding with
    | exact id oldHash =>
      rw [hb] at hj
      rw [hj.1]
      exact congrArg some (congrArg Binding.id hb).symm
    | moved _ _ _ =>
      rw [hb] at he
      cases he
    | struct _ _ _ =>
      rw [hb] at he
      cases he
    | minted _ =>
      rw [hb] at he
      cases he
  have hmatched : ∀ i e, sorted[i]? = some e → r.byPath.lookup e.qualifiedPath ≠ none →
      i ∈ st.matchedEntities := by
    intro i e hi hp
    obtain ⟨id, hid⟩ := Option.ne_none_iff_exists'.mp hp
    rcases hall i e hi with h | ⟨st', hsub, hnone⟩
    · exact h
    · -- refused: the id was consumed, and only this entity can have consumed it
      have hmem : id ∈ st'.boundIds := by
        unfold exactRule at hnone
        rw [hid] at hnone
        dsimp only at hnone
        split at hnone
        · assumption
        · cases hnone
      obtain ⟨x, hx, hxid⟩ := (ht.bound id).mp (hsub hmem)
      have hxp := hentry x hx
      rw [hxid] at hxp
      have hpath := hl.path_injective hxp hid
      have hpos := ht.position x hx
      have hidx : x.idx = i := by
        have h1 : (sorted.map Entity.qualifiedPath)[x.idx]? = some e.qualifiedPath := by
          rw [List.getElem?_map, hpos, Option.map_some, hpath]
        have h2 : (sorted.map Entity.qualifiedPath)[i]? = some e.qualifiedPath := by
          rw [List.getElem?_map, hi, Option.map_some]
        have hlt : x.idx < (sorted.map Entity.qualifiedPath).length :=
          (List.getElem?_eq_some_iff.mp h1).1
        exact (List.getElem?_inj hlt hd).mp (h1.trans h2.symm)
      exact (ht.matched i).mpr ⟨x, hx, hidx⟩
  refine ⟨fun i e hi => ⟨?_, hmatched i e hi⟩, fun id => ?_⟩
  · intro hm
    obtain ⟨x, hx, rfl⟩ := (ht.matched i).mp hm
    have hpos := ht.position x hx
    rw [hi] at hpos
    cases hpos
    rw [hentry x hx]
    simp
  · unfold heldByPath
    rw [List.any_eq_true, ht.bound]
    constructor
    · rintro ⟨x, hx, rfl⟩
      exact ⟨x.entity, List.mem_of_getElem? (ht.position x hx), decide_eq_true (hentry x hx)⟩
    · rintro ⟨e, he, hid⟩
      have hid' := of_decide_eq_true hid
      obtain ⟨i, hi⟩ := List.getElem?_of_mem he
      obtain ⟨x, hx, rfl⟩ := (ht.matched i).mp (hmatched i e hi (by rw [hid']; simp))
      have hpos := ht.position x hx
      rw [hi] at hpos
      cases hpos
      have hxp := hentry x hx
      rw [hid'] at hxp
      exact ⟨x, hx, (Option.some_inj.mp hxp).symm⟩

/-- Entities among the first ones that seek a hash. -/
def seekersUpTo (r : IdentityRegistry) (sorted : List Entity) (n : ℕ) (hash : ContentHash) : ℕ :=
  (sorted.take n).countP (seeksHash r hash)

/-- In path order the entities before a path are the ones at earlier
positions. -/
theorem seekersBefore_eq (hs : sorted.Pairwise fun a b => a.qualifiedPath < b.qualifiedPath)
    {n : ℕ} {e : Entity} (he : sorted[n]? = some e) :
    seekersBefore r sorted e = seekersUpTo r sorted n e.contentHash := by
  obtain ⟨hn, hget⟩ := List.getElem?_eq_some_iff.mp he
  have hsplit : sorted = sorted.take n ++ e :: sorted.drop (n + 1) := by
    rw [← hget, List.cons_getElem_drop_succ, List.take_append_drop]
  unfold seekersBefore seekersUpTo
  generalize sorted.take n = front at hsplit ⊢
  generalize sorted.drop (n + 1) = back at hsplit
  rw [hsplit, List.pairwise_append, List.pairwise_cons] at hs
  obtain ⟨-, ⟨hback, -⟩, hfront⟩ := hs
  have h1 : front.countP (fun x => seeksHash r e.contentHash x &&
      decide (x.qualifiedPath < e.qualifiedPath)) =
      front.countP (seeksHash r e.contentHash) := by
    apply List.countP_congr
    intro x hx
    rw [decide_eq_true (hfront x hx e List.mem_cons_self), Bool.and_true]
  have h2 : (e :: back).countP (fun x => seeksHash r e.contentHash x &&
      decide (x.qualifiedPath < e.qualifiedPath)) = 0 := by
    rw [List.countP_eq_zero]
    intro x hx
    have hge : ¬x.qualifiedPath < e.qualifiedPath := by
      rcases List.mem_cons.mp hx with rfl | hx
      · exact lt_irrefl _
      · exact (hback x hx).asymm
    rw [decide_eq_false hge, Bool.and_false]
    exact Bool.false_ne_true
  rw [hsplit, List.countP_append, h1, h2, Nat.add_zero]

/-- One more entity raises the count of the hash it seeks. -/
theorem seekersUpTo_succ {n : ℕ} {e : Entity} (he : sorted[n]? = some e) (hash : ContentHash) :
    seekersUpTo r sorted (n + 1) hash =
      seekersUpTo r sorted n hash + if seeksHash r hash e = true then 1 else 0 := by
  unfold seekersUpTo
  rw [List.take_add_one, he, Option.toList_some, List.countP_append, List.countP_singleton]

/-- The second pass after some entities: the spare ids of each hash are
consumed from below, one for each entity that sought it. -/
structure Dealt (r : IdentityRegistry) (scope : Option (Finset String)) (sorted : List Entity)
    (n : ℕ) (st : Matching) : Prop where
  /-- Ids held by a path are consumed. -/
  held : ∀ id, heldByPath r sorted id = true → id ∈ st.boundIds
  /-- Of the spare ids the first ones are consumed. -/
  spare : ∀ hash, ∀ id ∈ spareIds r scope sorted hash, id ∈ st.boundIds ↔
    id ∈ (spareIds r scope sorted hash).take (seekersUpTo r sorted n hash)
  /-- Matched are the entities with an anchor under their path or an heir's
  share. -/
  matched : ∀ i e, sorted[i]? = some e → (i ∈ st.matchedEntities ↔
    r.byPath.lookup e.qualifiedPath ≠ none ∨ i < n ∧ heir r scope sorted e ≠ none)
  /-- Bindings by hash are those of the heirs. -/
  moved : ∀ p id oldPath oldHash, (p, Binding.moved id oldPath oldHash) ∈ st.bindings ↔
    ∃ i < n, ∃ e, sorted[i]? = some e ∧ e.qualifiedPath = p ∧
      heir r scope sorted e = some id ∧
      ∃ a, r.get id = some a ∧ a.qualifiedPath = oldPath ∧ a.contentHash = oldHash

/-- For an entity without an anchor under its path the candidates are the
spare ids that are left. -/
theorem mem_hashCandidates_iff {n : ℕ} {st : Matching} (hl : r.Linked)
    (hst : Dealt r scope sorted n st) {e : Entity} (hp : r.byPath.lookup e.qualifiedPath = none)
    (id : DurableId) : id ∈ hashCandidates r scope st e ↔
      id ∈ (spareIds r scope sorted e.contentHash).drop
        (seekersUpTo r sorted n e.contentHash) := by
  have hnd : (spareIds r scope sorted e.contentHash).Nodup :=
    (spareIds_sorted e.contentHash).imp fun h => h.ne
  have hsplit := List.take_append_drop (seekersUpTo r sorted n e.contentHash)
    (spareIds r scope sorted e.contentHash)
  unfold hashCandidates
  rw [List.mem_filter]
  constructor
  · rintro ⟨hid, hc⟩
    obtain ⟨a, ha, -⟩ := hl.hash_anchor _ _ hid
    rw [ha] at hc
    simp only [Bool.and_eq_true, decide_eq_true_eq] at hc
    have hheld : heldByPath r sorted id = false := by
      cases hh : heldByPath r sorted id with
      | false => rfl
      | true => exact (hc.1.1 (hst.held id hh)).elim
    have hspare : id ∈ spareIds r scope sorted e.contentHash :=
      mem_spareIds.mpr ⟨hid, hc.1.2, hheld⟩
    have hnot := fun h => hc.1.1 ((hst.spare _ id hspare).mpr h)
    rw [← hsplit, List.mem_append] at hspare
    exact hspare.resolve_left hnot
  · intro hdrop
    have hspare := List.mem_of_mem_drop hdrop
    obtain ⟨hid, hscope, -⟩ := mem_spareIds.mp hspare
    obtain ⟨a, ha, -⟩ := hl.hash_anchor _ _ hid
    have hfree : id ∉ st.boundIds := by
      intro hb
      have htake := (hst.spare _ id hspare).mp hb
      rw [← hsplit, List.nodup_append] at hnd
      exact hnd.2.2 id htake id hdrop rfl
    refine ⟨hid, ?_⟩
    rw [ha]
    simp only [Bool.and_eq_true, decide_eq_true_eq]
    refine ⟨⟨hfree, hscope⟩, ?_⟩
    by_cases hpath : a.qualifiedPath = e.qualifiedPath
    · exact Or.inr (hpath ▸ hp)
    · exact Or.inl hpath

/-- The rule of the second pass offers the heir's share. -/
theorem hashRule_eq_heir {n : ℕ} {st : Matching} (hl : r.Linked)
    (hs : sorted.Pairwise fun a b => a.qualifiedPath < b.qualifiedPath)
    (hst : Dealt r scope sorted n st) {e : Entity} (he : sorted[n]? = some e)
    (hp : r.byPath.lookup e.qualifiedPath = none) :
    (hashCandidates r scope st e).min? = heir r scope sorted e := by
  rw [min?_of_drop (spareIds_sorted e.contentHash) (mem_hashCandidates_iff hl hst hp)]
  unfold heir
  rw [if_pos hp, seekersBefore_eq hs he]

/-- An entity that takes no share leaves everything as it was. -/
theorem Dealt.skip {n : ℕ} {st : Matching} (hst : Dealt r scope sorted n st) {e : Entity}
    (he : sorted[n]? = some e) (hheir : heir r scope sorted e = none)
    (htake : ∀ hash, (spareIds r scope sorted hash).take (seekersUpTo r sorted (n + 1) hash) =
      (spareIds r scope sorted hash).take (seekersUpTo r sorted n hash)) :
    Dealt r scope sorted (n + 1) st where
  held := hst.held
  spare hash id hid := by
    rw [htake]
    exact hst.spare hash id hid
  matched i x hi := by
    rw [hst.matched i x hi]
    refine or_congr_right (and_congr_left fun hx => ?_)
    have hne : i ≠ n := by
      rintro rfl
      rw [he] at hi
      cases hi
      exact hx hheir
    omega
  moved p id oldPath oldHash := by
    rw [hst.moved]
    constructor
    · rintro ⟨i, hi, rest⟩
      exact ⟨i, by omega, rest⟩
    · rintro ⟨i, hi, x, hx, hxp, hxh, rest⟩
      have hne : i ≠ n := by
        rintro rfl
        rw [he] at hx
        cases hx
        rw [hheir] at hxh
        cases hxh
      exact ⟨i, by omega, x, hx, hxp, hxh, rest⟩

/-- An entity that takes its share consumes the next spare id. -/
theorem Dealt.take {n : ℕ} {st : Matching} (hl : r.Linked)
    (hs : sorted.Pairwise fun a b => a.qualifiedPath < b.qualifiedPath)
    (hst : Dealt r scope sorted n st) {e : Entity} (he : sorted[n]? = some e)
    (hp : r.byPath.lookup e.qualifiedPath = none) {id : DurableId}
    (hheir : heir r scope sorted e = some id) {a : Anchor} (ha : r.get id = some a) :
    Dealt r scope sorted (n + 1)
      (st.bind n e (.moved id a.qualifiedPath a.contentHash) false) where
  held k hk := Finset.mem_insert_of_mem (hst.held k hk)
  spare hash k hk := by
    have hshare : (spareIds r scope sorted e.contentHash)[seekersUpTo r sorted n e.contentHash]? =
        some id := by
      rw [← hheir]
      unfold heir
      rw [if_pos hp, seekersBefore_eq hs he]
    have hspare := List.mem_of_getElem? hshare
    rw [seekersUpTo_succ he]
    simp only [Matching.bind, Finset.mem_insert]
    rw [hst.spare hash k hk]
    by_cases hh : hash = e.contentHash
    · subst hh
      have hseek : seeksHash r e.contentHash e = true := by simp [seeksHash, hp]
      rw [if_pos hseek, List.take_add_one, hshare, List.mem_append]
      simp [Binding.id, or_comm]
    · -- an id is listed under one hash only
      have hseek : ¬seeksHash r hash e = true := by
        intro h
        unfold seeksHash at h
        rw [Bool.and_eq_true, decide_eq_true_eq] at h
        exact hh h.1.symm
      have hne : k ≠ id := by
        rintro rfl
        obtain ⟨b, hb, hbh⟩ := hl.hash_anchor _ _ (mem_spareIds.mp hspare).1
        obtain ⟨c, hc, hch⟩ := hl.hash_anchor _ _ (mem_spareIds.mp hk).1
        rw [hb] at hc
        cases hc
        exact hh (hch.symm.trans hbh)
      rw [if_neg hseek, Nat.add_zero]
      simp [Binding.id, hne]
  matched i x hi := by
    simp only [Matching.bind, Finset.mem_insert]
    rw [hst.matched i x hi]
    by_cases hin : i = n
    · subst hin
      rw [he] at hi
      cases hi
      simp [hheir]
    · have hlt : i < n + 1 ↔ i < n := by omega
      simp [hin, hlt]
  moved p k oldPath oldHash := by
    simp only [Matching.bind, List.mem_append, List.mem_singleton]
    rw [hst.moved]
    constructor
    · rintro (⟨i, hi, rest⟩ | hnew)
      · exact ⟨i, by omega, rest⟩
      · cases hnew
        exact ⟨n, by omega, e, he, rfl, hheir, a, ha, rfl, rfl⟩
    · rintro ⟨i, hi, x, hx, hxp, hxh, b, hb, hbp, hbh⟩
      by_cases hin : i = n
      · subst hin
        rw [he] at hx
        cases hx
        rw [hheir] at hxh
        cases hxh
        rw [ha] at hb
        cases hb
        right
        rw [← hxp, ← hbp, ← hbh]
      · exact Or.inl ⟨i, by omega, x, hx, hxp, hxh, b, hb, hbp, hbh⟩

/-- One entity of the second pass. -/
theorem Dealt.step {n : ℕ} {st : Matching} (hl : r.Linked)
    (hs : sorted.Pairwise fun a b => a.qualifiedPath < b.qualifiedPath)
    (hst : Dealt r scope sorted n st) {e : Entity} (he : sorted[n]? = some e) :
    Dealt r scope sorted (n + 1) (matchStep (hashRule r scope) st (e, n)) := by
  unfold matchStep
  by_cases hp : r.byPath.lookup e.qualifiedPath = none
  · have hfree : n ∉ st.matchedEntities := by
      rw [hst.matched n e he]
      rintro (h | h)
      · exact h hp
      · omega
    rw [if_neg hfree]
    unfold hashRule
    rw [hashRule_eq_heir hl hs hst he hp]
    cases hheir : heir r scope sorted e with
    | none =>
      refine hst.skip he hheir fun hash => ?_
      rw [seekersUpTo_succ he]
      by_cases hh : seeksHash r hash e = true
      · -- no id of this hash is left, so all of them are taken already
        have hhash : e.contentHash = hash := by
          unfold seeksHash at hh
          rw [Bool.and_eq_true, decide_eq_true_eq] at hh
          exact hh.1
        unfold heir at hheir
        rw [if_pos hp, seekersBefore_eq hs he, hhash, List.getElem?_eq_none_iff] at hheir
        rw [List.take_of_length_le hheir, List.take_of_length_le (by omega)]
      · rw [if_neg hh, Nat.add_zero]
    | some id =>
      have hspare : id ∈ spareIds r scope sorted e.contentHash := by
        unfold heir at hheir
        rw [if_pos hp] at hheir
        exact List.mem_of_getElem? hheir
      obtain ⟨a, ha, -⟩ := hl.hash_anchor _ _ (mem_spareIds.mp hspare).1
      simp only [ha]
      exact hst.take hl hs he hp hheir ha
  · rw [if_pos ((hst.matched n e he).mpr (Or.inl hp))]
    refine hst.skip he ?_ fun hash => ?_
    · unfold heir
      rw [if_neg hp]
    · have hseek : ¬seeksHash r hash e = true := by simp [seeksHash, hp]
      rw [seekersUpTo_succ he, if_neg hseek, Nat.add_zero]

/-- The rest of the second pass. -/
theorem Dealt.foldl {n : ℕ} {st : Matching} (hl : r.Linked)
    (hs : sorted.Pairwise fun a b => a.qualifiedPath < b.qualifiedPath) (rest : List Entity)
    (hrest : sorted.drop n = rest) (hst : Dealt r scope sorted n st) :
    Dealt r scope sorted (n + rest.length)
      ((rest.zipIdx n).foldl (matchStep (hashRule r scope)) st) := by
  induction rest generalizing n st with
  | nil => exact hst
  | cons e rest ih =>
    have he : sorted[n]? = some e := by
      rw [← List.head?_drop, hrest, List.head?_cons]
    have htail : sorted.drop (n + 1) = rest := by
      rw [← List.tail_drop, hrest, List.tail_cons]
    have hstep := ih htail (hst.step hl hs he)
    rw [List.zipIdx_cons, List.foldl_cons, List.length_cons]
    rwa [show n + (rest.length + 1) = n + 1 + rest.length from by omega]

/-- A lawful rule may be read with any sort its offers have. -/
theorem Lawful.refine {sort sort' : Binding → Prop}
    {rule : Matching → Entity → Option (Binding × Bool)}
    (h : Lawful mint r scope sorted sort rule)
    (hsort : ∀ st e b review, rule st e = some (b, review) → sort' b) :
    Lawful mint r scope sorted sort' rule := by
  intro st log e b review ht hr
  obtain ⟨hj, hfree, hsupply, -⟩ := h st log e b review ht hr
  exact ⟨hj, hfree, hsupply, hsort st e b review hr⟩

/-- The second rule binds by hash. -/
theorem hashRule_isMoved (st : Matching) (e : Entity) (b : Binding) (review : Bool)
    (h : hashRule r scope st e = some (b, review)) : isMoved b = true := by
  unfold hashRule at h
  split at h
  · cases h
  · split at h
    · cases h
      rfl
    · cases h
      rfl

/-- The third rule binds by structure. -/
theorem structRule_isStruct (iter : HashOrder DurableId) (st : Matching) (e : Entity) (b : Binding)
    (review : Bool) (h : structRule iter r scope st e = some (b, review)) : isStruct b = true := by
  unfold structRule at h
  split at h
  · cases h
  · cases h
    rfl

/-- The last rule mints. -/
theorem mintRule_isMinted (st : Matching) (e : Entity) (b : Binding) (review : Bool)
    (h : mintRule mint st e = some (b, review)) : b.isMinted = true := by
  unfold mintRule at h
  cases h
  rfl

/-- A log of one sort of bindings has no entry of another sort. -/
theorem not_mem_entries {log : List Bound} {sort : Binding → Bool}
    (hsort : ∀ x ∈ log, sort x.binding = true) {b : Binding} (hb : sort b = false) (p : String) :
    (p, b) ∉ log.map fun x => (x.entity.qualifiedPath, x.binding) := by
  intro hm
  obtain ⟨x, hx, hxb⟩ := List.mem_map.mp hm
  have hbind : x.binding = b := congrArg Prod.snd hxb
  have hc := hsort x hx
  rw [hbind, hb] at hc
  cases hc

/-- The state the third pass starts from. -/
theorem dealt_hashPass (hl : r.Linked) {log : List Bound}
    (hs : sorted.Pairwise fun a b => a.qualifiedPath < b.qualifiedPath)
    (ht : Tracks mint r scope sorted (matchPass (exactRule r) sorted Matching.start) log)
    (hexact : ∀ x ∈ log, x.binding.isExact = true)
    (hall : ∀ i e, sorted[i]? = some e →
      i ∈ (matchPass (exactRule r) sorted Matching.start).matchedEntities ∨
        ∃ st', st'.boundIds ⊆ (matchPass (exactRule r) sorted Matching.start).boundIds ∧
          exactRule r st' e = none) :
    Dealt r scope sorted sorted.length (matchPass (hashRule r scope) sorted
      (matchPass (exactRule r) sorted Matching.start)) := by
  have hd : (sorted.map Entity.qualifiedPath).Nodup := by
    rw [List.Nodup, List.pairwise_map]
    exact hs.imp fun h => h.ne
  obtain ⟨hmatched, hbound⟩ := exactPass_spec hl hd ht hexact hall
  have hstart : Dealt r scope sorted 0 (matchPass (exactRule r) sorted Matching.start) := by
    refine ⟨fun id h => (hbound id).mpr h, ?_, ?_, ?_⟩
    · intro hash id hid
      have hnone : seekersUpTo r sorted 0 hash = 0 := rfl
      rw [hbound, (mem_spareIds.mp hid).2.2, hnone]
      simp
    · intro i e hi
      rw [hmatched i e hi]
      simp
    · intro p id oldPath oldHash
      constructor
      · intro hm
        rw [ht.bindings] at hm
        exact (not_mem_entries hexact rfl p hm).elim
      · rintro ⟨i, hi, -⟩
        omega
  have hfold := hstart.foldl hl hs sorted (List.drop_zero)
  rwa [Nat.zero_add] at hfold

/-- When an entity is left without a share, all spare ids of its hash are
consumed. -/
theorem Dealt.consumed {st : Matching} (hst : Dealt r scope sorted sorted.length st) {e : Entity}
    (hp : r.byPath.lookup e.qualifiedPath = none) (hheir : heir r scope sorted e = none)
    {id : DurableId} (hspare : id ∈ spareIds r scope sorted e.contentHash) :
    id ∈ st.boundIds := by
  unfold heir at hheir
  rw [if_pos hp, List.getElem?_eq_none_iff] at hheir
  have hle : seekersBefore r sorted e ≤ seekersUpTo r sorted sorted.length e.contentHash := by
    unfold seekersBefore seekersUpTo
    rw [List.take_length]
    refine List.countP_mono_left fun y _ hy => ?_
    rw [Bool.and_eq_true] at hy
    exact hy.1
  refine (hst.spare _ id hspare).mpr ?_
  rwa [List.take_of_length_le (by omega)]

/-- Among the bindings of all four passes those by hash are those of the
heirs, and a binding by structure never takes a spare id of the hash. -/
theorem matchEntities_heirs (iter : HashOrder DurableId) (hl : r.Linked) (hf : Fresh mint r)
    (scope : Option (Finset String))
    (hs : sorted.Pairwise fun a b => a.qualifiedPath < b.qualifiedPath) :
    (∀ p id oldPath oldHash, (p, Binding.moved id oldPath oldHash) ∈
        (matchEntities iter mint r scope sorted).bindings ↔
      ∃ e ∈ sorted, e.qualifiedPath = p ∧ heir r scope sorted e = some id ∧
        ∃ a, r.get id = some a ∧ a.qualifiedPath = oldPath ∧ a.contentHash = oldHash) ∧
    ∀ p id confidence oldHash, (p, Binding.struct id confidence oldHash) ∈
        (matchEntities iter mint r scope sorted).bindings →
      ∃ e ∈ sorted, e.qualifiedPath = p ∧ id ∉ spareIds r scope sorted e.contentHash := by
  have h₀ : Tracks mint r scope sorted Matching.start [] := Tracks.start
  obtain ⟨exact, h₁, hsort₁, hall₁⟩ := matchPass_tracks (exactRule_lawful hl) h₀
  obtain ⟨moved, h₂, hsort₂, -⟩ :=
    matchPass_tracks (Lawful.refine (hashRule_lawful hl) hashRule_isMoved) h₁
  obtain ⟨struct, h₃, hsort₃, -⟩ :=
    matchPass_tracks (Lawful.refine (structRule_lawful iter) (structRule_isStruct iter)) h₂
  obtain ⟨minted, h₄, hsort₄, -⟩ :=
    matchPass_tracks (Lawful.refine (mintRule_lawful hf) mintRule_isMinted) h₃
  rw [List.nil_append] at h₁ h₂ h₃ h₄
  have hdealt := dealt_hashPass hl hs h₁ hsort₁ hall₁
  constructor
  · intro p id oldPath oldHash
    have hsame : (p, Binding.moved id oldPath oldHash) ∈
        (matchEntities iter mint r scope sorted).bindings ↔
        (p, Binding.moved id oldPath oldHash) ∈ (matchPass (hashRule r scope) sorted
          (matchPass (exactRule r) sorted Matching.start)).bindings := by
      unfold matchEntities
      dsimp only
      rw [h₄.bindings, h₂.bindings]
      simp only [List.map_append, List.mem_append]
      have hno₃ : (p, Binding.moved id oldPath oldHash) ∉
          struct.map fun x => (x.entity.qualifiedPath, x.binding) := not_mem_entries hsort₃ rfl p
      have hno₄ : (p, Binding.moved id oldPath oldHash) ∉
          minted.map fun x => (x.entity.qualifiedPath, x.binding) := not_mem_entries hsort₄ rfl p
      simp only [hno₃, hno₄, or_false]
    rw [hsame, hdealt.moved]
    constructor
    · rintro ⟨i, -, e, hi, rest⟩
      exact ⟨e, List.mem_of_getElem? hi, rest⟩
    · rintro ⟨e, he, rest⟩
      obtain ⟨i, hi⟩ := List.getElem?_of_mem he
      exact ⟨i, (List.getElem?_eq_some_iff.mp hi).1, e, hi, rest⟩
  · intro p id confidence oldHash hm
    unfold matchEntities at hm
    dsimp only at hm
    rw [h₄.bindings] at hm
    obtain ⟨x, hx, hxb⟩ := List.mem_map.mp hm
    have hbind : x.binding = .struct id confidence oldHash := congrArg Prod.snd hxb
    have hxs : x ∈ struct := by
      rcases List.mem_append.mp hx with hx | hx
      · rcases List.mem_append.mp hx with hx | hx
        · rcases List.mem_append.mp hx with hx | hx
          · have hc := hsort₁ x hx
            rw [hbind] at hc
            cases hc
          · have hc := hsort₂ x hx
            rw [hbind] at hc
            cases hc
        · exact hx
      · have hc := hsort₄ x hx
        rw [hbind] at hc
        cases hc
    have hx₃ : x ∈ exact ++ moved ++ struct := List.mem_append_right _ hxs
    have hpos := h₃.position x hx₃
    refine ⟨x.entity, List.mem_of_getElem? hpos, congrArg Prod.fst hxb, ?_⟩
    intro hspare
    have hid : x.id = id := congrArg Binding.id hbind
    have hfree : id ∉ (matchPass (hashRule r scope) sorted
        (matchPass (exactRule r) sorted Matching.start)).boundIds := by
      intro hb
      obtain ⟨y, hy, hyid⟩ := (h₂.bound id).mp hb
      have hdist := h₃.distinct
      rw [List.map_append, List.nodup_append] at hdist
      exact hdist.2.2 y.id (List.mem_map_of_mem hy) x.id (List.mem_map_of_mem hxs)
        (hyid.trans hid.symm)
    have hunmatched : x.idx ∉ (matchPass (hashRule r scope) sorted
        (matchPass (exactRule r) sorted Matching.start)).matchedEntities := by
      intro hb
      obtain ⟨y, hy, hyi⟩ := (h₂.matched x.idx).mp hb
      have honce := h₃.once
      rw [List.map_append, List.nodup_append] at honce
      exact honce.2.2 y.idx (List.mem_map_of_mem hy) x.idx (List.mem_map_of_mem hxs) hyi
    rw [hdealt.matched x.idx x.entity hpos, not_or] at hunmatched
    have hp : r.byPath.lookup x.entity.qualifiedPath = none := by
      by_contra h
      exact hunmatched.1 h
    have hnoheir : heir r scope sorted x.entity = none := by
      by_contra h
      exact hunmatched.2 ⟨(List.getElem?_eq_some_iff.mp hpos).1, h⟩
    exact hfree (hdealt.consumed hp hnoheir hspare)

end Passes

/-- The entities bound by hash are the heirs. -/
theorem moved_mem_iff {r : IdentityRegistry} (hl : r.Linked) {mint : ℕ → DurableId}
    (hf : Fresh mint r) (iter : HashOrder DurableId) {entities : List Entity}
    (hd : (entities.map Entity.qualifiedPath).Nodup) (revision : Revision)
    (scope : Option (Finset String)) {e : Entity} (he : e ∈ entities) (id : DurableId)
    (oldPath : String) (oldHash : ContentHash) :
    (e.qualifiedPath, Binding.moved id oldPath oldHash) ∈
        (reconcileImpl iter mint r entities revision scope).1.bindings ↔
      heir r scope entities e = some id ∧
        ∃ a, r.get id = some a ∧ a.qualifiedPath = oldPath ∧ a.contentHash = oldHash := by
  have hp := sortEntities_perm entities
  have hs := sortEntities_strict hd
  have hm := (matchEntities_heirs iter hl hf scope hs).1 e.qualifiedPath id oldPath oldHash
  refine hm.trans ?_
  constructor
  · rintro ⟨x, hx, hxp, rest⟩
    have hxe : x = e := List.inj_on_of_nodup_map hd (hp.mem_iff.mp hx) he hxp
    rwa [hxe, heir_perm hp] at rest
  · intro rest
    refine ⟨e, hp.mem_iff.mpr he, rfl, ?_⟩
    rwa [heir_perm hp]

/-- A binding by structure never takes a spare id of the entity's hash. -/
theorem struct_not_spare {r : IdentityRegistry} (hl : r.Linked) {mint : ℕ → DurableId}
    (hf : Fresh mint r) (iter : HashOrder DurableId) {entities : List Entity}
    (hd : (entities.map Entity.qualifiedPath).Nodup) (revision : Revision)
    (scope : Option (Finset String)) {e : Entity} (he : e ∈ entities) {id : DurableId}
    {confidence : Confidence} {oldHash : ContentHash}
    (hm : (e.qualifiedPath, Binding.struct id confidence oldHash) ∈
      (reconcileImpl iter mint r entities revision scope).1.bindings) :
    id ∉ spareIds r scope entities e.contentHash := by
  have hp := sortEntities_perm entities
  obtain ⟨x, hx, hxp, hnot⟩ :=
    (matchEntities_heirs iter hl hf scope (sortEntities_strict hd)).2 _ id confidence oldHash hm
  have hxe : x = e := List.inj_on_of_nodup_map hd (hp.mem_iff.mp hx) he hxp
  rwa [hxe, spareIds_perm hp] at hnot

end Tyo3.InheritedIds
