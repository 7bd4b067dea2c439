import Mathlib.Data.Finset.Card
import Mathlib.Data.Finset.SDiff
import Mathlib.Data.List.Count
import Tyo3.Worklists

/-!
# Parallel edges

The edges of a multigraph are a list of sources and targets with a label. To
remove an endpoint pair takes away some one edge between the two nodes, and
which one is not said. When every pair is removed as often as it has unwanted
edges, the number of edges that are left between two nodes is the number of
wanted ones, so two nodes are still linked exactly when they were linked by a
wanted edge. Nothing here names a program.
-/

namespace Tyo3.ParallelEdges

variable {V L : Type*}

/-- An edge: source, target and label. -/
abbrev Arc (V L : Type*) := V × V × L

/-- The nodes of an edge. -/
def ends (e : Arc V L) : V × V := (e.1, e.2.1)

/-- Two nodes are linked by an edge. -/
def Linked (arcs : List (Arc V L)) (u v : V) : Prop := ∃ e ∈ arcs, ends e = (u, v)

/-- What is reached from a node along edges, except for the node itself. -/
def Beyond (arcs : List (Arc V L)) (u v : V) : Prop := Relation.TransGen (Linked arcs) u v ∧ v ≠ u

/-- Two names are linked when the nodes under their numbers are. -/
def NamedLink {W : Type*} (names : List W) (arcs : List (Arc ℕ L)) (a b : W) : Prop :=
  ∃ i j, names[i]? = some a ∧ names[j]? = some b ∧ Linked arcs i j

/-- A name has one number. -/
theorem number_unique {W : Type*} {names : List W} (hnodup : names.Nodup) {a : W} {i j : ℕ}
    (hi : names[i]? = some a) (hj : names[j]? = some a) : i = j := by
  have hlt : i < names.length := (List.getElem?_eq_some_iff.mp hi).1
  exact (List.getElem?_inj hlt hnodup).mp (hi.trans hj.symm)

section Naming

variable {W : Type*} {names : List W} {arcs : List (Arc ℕ L)} (hnodup : names.Nodup)
  (hends : ∀ e ∈ arcs, e.1 < names.length) {a b : W} {i j : ℕ} (ha : names[i]? = some a)
  (hb : names[j]? = some b)

include hnodup hends ha hb

/-- Walks by different names are walks by their numbers. -/
theorem transGen_namedLink :
    Relation.TransGen (NamedLink names arcs) a b ↔ Relation.TransGen (Linked arcs) i j := by
  constructor
  · intro hpath
    induction hpath generalizing j with
    | single hlink =>
      obtain ⟨k, l, hk, hl, hedge⟩ := hlink
      rw [number_unique hnodup ha hk, number_unique hnodup hb hl]
      exact .single hedge
    | tail _ hlink ih =>
      obtain ⟨k, l, hk, hl, hedge⟩ := hlink
      rw [number_unique hnodup hb hl]
      exact (ih hk).tail hedge
  · intro hpath
    induction hpath generalizing b with
    | single hedge => exact .single ⟨_, _, ha, hb, hedge⟩
    | @tail mid last _ hedge ih =>
      -- the number in the middle has an edge, so it has a name
      obtain ⟨e, he, heq⟩ := hedge
      have hbound : mid < names.length := by
        have hlt := hends e he
        have hfrom : e.1 = mid := congrArg Prod.fst heq
        rwa [hfrom] at hlt
      have hmid : names[mid]? = some names[mid] := List.getElem?_eq_getElem hbound
      exact (ih hmid).tail ⟨mid, last, hmid, hb, e, he, heq⟩

/-- So are walks that may be empty. -/
theorem reflTransGen_namedLink :
    Relation.ReflTransGen (NamedLink names arcs) a b ↔
      Relation.ReflTransGen (Linked arcs) i j := by
  have hsame : b = a ↔ j = i := by
    constructor
    · intro hab
      rw [hab] at hb
      exact number_unique hnodup hb ha
    · intro hij
      rw [hij, ha] at hb
      exact (Option.some.inj hb).symm
  rw [Relation.reflTransGen_iff_eq_or_transGen, Relation.reflTransGen_iff_eq_or_transGen, hsame,
    transGen_namedLink hnodup hends ha hb]

end Naming

/-- Some one edge between two nodes is removed. -/
def RemovesOne (arcs : List (Arc V L)) (pair : V × V) (rest : List (Arc V L)) : Prop :=
  ∃ before e after, arcs = before ++ e :: after ∧ ends e = pair ∧ rest = before ++ after

/-- For each listed pair, one after the other, some one edge is removed. -/
inductive RemovesEach : List (Arc V L) → List (V × V) → List (Arc V L) → Prop
  | nil (arcs : List (Arc V L)) : RemovesEach arcs [] arcs
  | cons {arcs mid rest : List (Arc V L)} {pair : V × V} {pairs : List (V × V)}
      (hone : RemovesOne arcs pair mid) (hrest : RemovesEach mid pairs rest) :
      RemovesEach arcs (pair :: pairs) rest

/-- What is left was there before. -/
theorem RemovesEach.subset {arcs rest : List (Arc V L)} {pairs : List (V × V)}
    (h : RemovesEach arcs pairs rest) : rest ⊆ arcs := by
  induction h with
  | nil arcs => exact List.Subset.refl arcs
  | cons hone _ ih =>
    obtain ⟨before, e, after, harcs, -, hmid⟩ := hone
    have hmids : before ++ after ⊆ before ++ e :: after :=
      ((List.sublist_cons_self e after).append_left before).subset
    intro other hother
    have hin := ih hother
    rw [hmid] at hin
    rw [harcs]
    exact hmids hin

section Counting

variable [DecidableEq V]

/-- How many edges there are between two nodes. -/
def between (arcs : List (Arc V L)) (pair : V × V) : ℕ := arcs.countP fun e => ends e = pair

theorem linked_iff_between {arcs : List (Arc V L)} {u v : V} :
    Linked arcs u v ↔ 0 < between arcs (u, v) := by
  unfold Linked between
  rw [List.countP_pos_iff]
  simp only [decide_eq_true_eq]

theorem RemovesOne.between {arcs rest : List (Arc V L)} {pair : V × V}
    (h : RemovesOne arcs pair rest) (p : V × V) :
    ParallelEdges.between rest p + (if pair = p then 1 else 0) = ParallelEdges.between arcs p := by
  obtain ⟨before, e, after, harcs, hends, hrest⟩ := h
  unfold ParallelEdges.between
  rw [harcs, hrest, List.countP_append, List.countP_append, List.countP_cons, hends]
  by_cases hp : pair = p
  · simp only [hp, decide_true, if_true]
    omega
  · simp only [hp, decide_false, Bool.false_eq_true, if_false]
    omega

/-- Every removal of a pair takes one edge of it. -/
theorem RemovesEach.between {arcs rest : List (Arc V L)} {pairs : List (V × V)}
    (h : RemovesEach arcs pairs rest) (p : V × V) :
    ParallelEdges.between rest p + pairs.count p = ParallelEdges.between arcs p := by
  induction h with
  | nil arcs => rw [List.count_nil, Nat.add_zero]
  | cons hone _ ih =>
    have hstep := hone.between p
    rw [List.count_cons]
    simp only [beq_iff_eq]
    omega

variable (keep : L → Prop) [DecidablePred keep]

/-- The nodes of the unwanted edges, one pair for each of them. -/
def unwanted (arcs : List (Arc V L)) : List (V × V) :=
  (arcs.filter fun e => ¬keep e.2.2).map ends

/-- The edges between two nodes are the wanted ones and the unwanted ones. -/
theorem between_eq_add (arcs : List (Arc V L)) (p : V × V) :
    between arcs p =
      between (arcs.filter fun e => keep e.2.2) p + (unwanted keep arcs).count p := by
  induction arcs with
  | nil => rfl
  | cons e arcs ih =>
    unfold between unwanted at *
    by_cases hkeep : keep e.2.2
    · by_cases hp : ends e = p
      · simp [hkeep, hp, ih]
        omega
      · simp [hkeep, hp, ih]
    · by_cases hp : ends e = p
      · simp [hkeep, hp, ih]
        omega
      · simp [hkeep, hp, ih]

/-- After the nodes of the unwanted edges are removed, two nodes are linked
exactly when a wanted edge links them. -/
theorem RemovesEach.linked_iff {arcs rest : List (Arc V L)}
    (h : RemovesEach arcs (unwanted keep arcs) rest) (u v : V) :
    Linked rest u v ↔ ∃ e ∈ arcs, ends e = (u, v) ∧ keep e.2.2 := by
  have hcount := h.between (u, v)
  have hsplit := between_eq_add keep arcs (u, v)
  have hsame : ParallelEdges.between rest (u, v) =
      ParallelEdges.between (arcs.filter fun e => keep e.2.2) (u, v) := by omega
  rw [linked_iff_between, hsame, ← linked_iff_between]
  unfold Linked
  simp only [List.mem_filter, decide_eq_true_eq]
  constructor
  · rintro ⟨e, ⟨he, hkeep⟩, hends⟩
    exact ⟨e, he, hends, hkeep⟩
  · rintro ⟨e, he, hends, hkeep⟩
    exact ⟨e, ⟨he, hkeep⟩, hends⟩

/-- The unwanted edges can be removed. -/
theorem count_unwanted_le (arcs : List (Arc V L)) (p : V × V) :
    (unwanted keep arcs).count p ≤ between arcs p := by
  have hsplit := between_eq_add keep arcs p
  omega

end Counting

/-! ## Walks along edges -/

section Walking

variable [DecidableEq V]

/-- Remove for each pair the first edge between its nodes. -/
def removeFirst (arcs : List (Arc V L)) (pairs : List (V × V)) : List (Arc V L) :=
  pairs.foldl (fun arcs pair => arcs.eraseP fun e => ends e = pair) arcs

/-- The first edges are removed as long as there are enough. -/
theorem removesEach_removeFirst {arcs : List (Arc V L)} {pairs : List (V × V)}
    (h : ∀ p, pairs.count p ≤ between arcs p) : RemovesEach arcs pairs (removeFirst arcs pairs) := by
  induction pairs generalizing arcs with
  | nil => exact .nil arcs
  | cons pair pairs ih =>
    have hsome : 0 < between arcs pair := by
      have hcount := h pair
      rw [List.count_cons_self] at hcount
      omega
    unfold between at hsome
    obtain ⟨e, he, hends⟩ := List.countP_pos_iff.mp hsome
    obtain ⟨first, before, after, -, hfirst, harcs, herase⟩ :=
      List.exists_of_eraseP (p := fun e => decide (ends e = pair)) he hends
    have hone : RemovesOne arcs pair (arcs.eraseP fun e => ends e = pair) :=
      ⟨before, first, after, harcs, of_decide_eq_true hfirst, herase⟩
    refine .cons hone (ih fun p => ?_)
    have hleft := hone.between p
    have hcount := h p
    rw [List.count_cons] at hcount
    simp only [beq_iff_eq] at hcount
    omega

/-- One step of a walk: the targets of the edges from a node that are not
marked yet. -/
def walkStep (arcs : List (Arc V L)) (start : V) (marked : Finset V) (u : V) : Finset V × List V :=
  let fresh := (((arcs.filter fun e => e.1 = u).map fun e => e.2.1).filter fun v =>
    v ≠ start ∧ v ∉ marked).dedup
  (marked ∪ fresh.toFinset, fresh)

/-- Everything beyond a node. -/
def beyond (arcs : List (Arc V L)) (start : V) : Finset V :=
  Worklists.runStack (walkStep arcs start) (arcs.length + 1) ∅ [start]

theorem mem_walkStep {arcs : List (Arc V L)} {start : V} {marked : Finset V} {u v : V} :
    v ∈ (walkStep arcs start marked u).2 ↔ Linked arcs u v ∧ v ≠ start ∧ v ∉ marked := by
  unfold walkStep Linked ends
  simp only [List.mem_dedup, List.mem_filter, List.mem_map, decide_eq_true_eq, Prod.mk.injEq]
  constructor
  · rintro ⟨⟨e, ⟨he, hsource⟩, htarget⟩, hfresh⟩
    exact ⟨⟨e, he, hsource, htarget⟩, hfresh⟩
  · rintro ⟨⟨e, he, hsource, htarget⟩, hfresh⟩
    exact ⟨⟨e, ⟨he, hsource⟩, htarget⟩, hfresh⟩

/-- The walk marks the targets of edges. -/
theorem marks_walkStep (arcs : List (Arc V L)) (start : V) :
    Worklists.Marks (walkStep arcs start) (fun u => {v | Linked arcs u v}) start where
  marks := fun marked u v => by
    have hfirst : (walkStep arcs start marked u).1 =
        marked ∪ (walkStep arcs start marked u).2.toFinset := rfl
    rw [hfirst, Finset.mem_union, List.mem_toFinset, mem_walkStep]
    by_cases hv : v ∈ marked
    · exact iff_of_true (.inl hv) (.inl hv)
    · simp only [hv, false_or, not_false_eq_true, and_true]
      rfl
  pushes := fun marked u v => mem_walkStep

/-- Every pushed node is a target that was not marked before. -/
theorem bounded_walkStep (arcs : List (Arc V L)) (start : V) :
    Worklists.Bounded (walkStep arcs start)
      fun marked => ((arcs.map fun e => e.2.1).toFinset \ marked).card where
  pays := fun marked u => by
    have hnodup : (walkStep arcs start marked u).2.Nodup := List.nodup_dedup _
    have hlength : (walkStep arcs start marked u).2.length =
        (walkStep arcs start marked u).2.toFinset.card := (List.toFinset_card_of_nodup hnodup).symm
    have hdisjoint : Disjoint ((arcs.map fun e => e.2.1).toFinset \ (walkStep arcs start marked u).1)
        (walkStep arcs start marked u).2.toFinset := by
      rw [Finset.disjoint_left]
      intro v hv hpushed
      refine (Finset.mem_sdiff.mp hv).2 (Finset.mem_union_right _ ?_)
      exact hpushed
    rw [hlength, ← Finset.card_union_of_disjoint hdisjoint]
    refine Finset.card_le_card (Finset.union_subset ?_ ?_)
    · exact Finset.sdiff_subset_sdiff (Finset.Subset.refl _) Finset.subset_union_left
    · intro v hv
      obtain ⟨⟨e, he, hends⟩, -, hnew⟩ := mem_walkStep.mp (List.mem_toFinset.mp hv)
      refine Finset.mem_sdiff.mpr ⟨?_, hnew⟩
      rw [List.mem_toFinset]
      exact List.mem_map.mpr ⟨e, he, congrArg Prod.snd hends⟩

/-- The walk finds what is beyond its start. -/
theorem mem_beyond (arcs : List (Arc V L)) (u v : V) : v ∈ beyond arcs u ↔ Beyond arcs u v := by
  have hfuel : ((arcs.map fun e => e.2.1).toFinset \ (∅ : Finset V)).card + [u].length ≤
      arcs.length + 1 := by
    have hcard := List.toFinset_card_le (arcs.map fun e => e.2.1)
    rw [List.length_map] at hcard
    rw [Finset.sdiff_empty, List.length_singleton]
    omega
  exact (marks_walkStep arcs u).mem_final_iff
    (Worklists.empties_runStack (bounded_walkStep arcs u) hfuel) v

/-- The edges the other way round. -/
def flipped (arcs : List (Arc V L)) : List (Arc V L) := arcs.map fun e => (e.2.1, e.1, e.2.2)

omit [DecidableEq V] in
theorem linked_flipped {arcs : List (Arc V L)} {u v : V} :
    Linked (flipped arcs) u v ↔ Linked arcs v u := by
  unfold Linked flipped ends
  simp only [List.mem_map, exists_exists_and_eq_and, Prod.mk.injEq]
  exact exists_congr fun e => and_congr_right fun _ => and_comm

/-- Everything from which a node is reached. -/
theorem mem_beyond_flipped (arcs : List (Arc V L)) (u v : V) :
    v ∈ beyond (flipped arcs) u ↔ Beyond arcs v u := by
  have hswap : Linked (flipped arcs) = Function.swap (Linked arcs) := by
    funext a b
    exact propext linked_flipped
  rw [mem_beyond]
  unfold Beyond
  rw [hswap, Relation.transGen_swap]
  exact and_congr_right fun _ => ne_comm

end Walking

end Tyo3.ParallelEdges
