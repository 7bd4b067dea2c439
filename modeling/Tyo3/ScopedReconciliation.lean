import Tyo3.IdentityRuns

/-!
# Scoped against full reconciliation

When the anchors outside a scope are exactly the entities of the other
files, a reconciliation of the scoped files alone does what one of the whole
project does. The first pass gives every outside anchor to its own entity,
so the later passes choose among the same anchors in both runs. The passes
are first freed from positions, which differ between the two lists.
-/

namespace Tyo3.ScopedReconciliation

open Entities FiniteMaps IdentityAnchors IdentityMatching IdentityPostState IdentityReconciliation
  IdentityRuns TextSearch

/-! ## Passes without positions -/

/-- The accumulators without the positions. -/
def forget (st : Matching) : Matching := { st with matchedEntities := ∅ }

/-- One entity of a pass, matched already when its path has a binding. -/
def pathStep (rule : Matching → Entity → Option (Binding × Bool)) (st : Matching) (e : Entity) :
    Matching :=
  if (st.bindingsByPath.lookup e.qualifiedPath).isSome then st
  else match rule st e with
    | none => st
    | some (b, review) => forget (st.bind 0 e b review)

/-- Positions and paths say the same about which entities are matched. -/
def Agrees (sorted : List Entity) (st : Matching) : Prop :=
  ∀ i e, sorted[i]? = some e →
    (i ∈ st.matchedEntities ↔ (st.bindingsByPath.lookup e.qualifiedPath).isSome = true)

/-- Nothing is matched at the start. -/
theorem agrees_start (sorted : List Entity) : Agrees sorted Matching.start := by
  intro i e _
  simp [Matching.start]

section Positions

variable {sorted : List Entity} {rule : Matching → Entity → Option (Binding × Bool)}

/-- Two positions with one path are one position. -/
theorem position_inj (hd : (sorted.map Entity.qualifiedPath).Nodup) {i j : ℕ} {e e' : Entity}
    (hi : sorted[i]? = some e) (hj : sorted[j]? = some e')
    (h : e.qualifiedPath = e'.qualifiedPath) : i = j := by
  have hlen : i < (sorted.map Entity.qualifiedPath).length := by
    rw [List.length_map]
    exact (List.getElem?_eq_some_iff.mp hi).1
  refine (List.getElem?_inj hlen hd).mp ?_
  rw [List.getElem?_map, List.getElem?_map, hi, hj, Option.map_some, Option.map_some, h]

/-- A step by position is a step by path. -/
theorem forget_matchStep (hrule : ∀ st e, rule (forget st) e = rule st e)
    (hd : (sorted.map Entity.qualifiedPath).Nodup) {st : Matching} (ha : Agrees sorted st)
    {cell : Entity × ℕ} (hcell : sorted[cell.2]? = some cell.1) :
    forget (matchStep rule st cell) = pathStep rule (forget st) cell.1 ∧
      Agrees sorted (matchStep rule st cell) := by
  have hmatched := ha cell.2 cell.1 hcell
  unfold matchStep pathStep
  rw [hrule]
  by_cases hm : cell.2 ∈ st.matchedEntities
  · rw [if_pos hm]
    have hsome : ((forget st).bindingsByPath.lookup cell.1.qualifiedPath).isSome = true :=
      hmatched.mp hm
    rw [if_pos hsome]
    exact ⟨rfl, ha⟩
  · rw [if_neg hm]
    have hnone : ¬((forget st).bindingsByPath.lookup cell.1.qualifiedPath).isSome = true :=
      fun h => hm (hmatched.mpr h)
    rw [if_neg hnone]
    cases hr : rule st cell.1 with
    | none => exact ⟨rfl, ha⟩
    | some found =>
      refine ⟨rfl, ?_⟩
      intro i e hi
      have hbefore := ha i e hi
      unfold Matching.bind
      dsimp only
      rw [Finset.mem_insert, lookup_insert_ite]
      by_cases hpath : e.qualifiedPath = cell.1.qualifiedPath
      · rw [if_pos hpath, position_inj hd hi hcell hpath]
        simp
      · have hne : i ≠ cell.2 := by
          intro h
          rw [h, hcell] at hi
          exact hpath (by rw [Option.some.inj hi])
        rw [if_neg hpath, hbefore]
        simp [hne]

/-- A run of steps by position is a run of steps by path. -/
theorem forget_foldl_matchStep (hrule : ∀ st e, rule (forget st) e = rule st e)
    (hd : (sorted.map Entity.qualifiedPath).Nodup) (cells : List (Entity × ℕ)) {st : Matching}
    (ha : Agrees sorted st) (hcells : ∀ cell ∈ cells, sorted[cell.2]? = some cell.1) :
    forget (cells.foldl (matchStep rule) st) =
        (cells.map Prod.fst).foldl (pathStep rule) (forget st) ∧
      Agrees sorted (cells.foldl (matchStep rule) st) := by
  induction cells generalizing st with
  | nil => exact ⟨rfl, ha⟩
  | cons cell cells ih =>
    have hstep := forget_matchStep hrule hd ha (hcells cell List.mem_cons_self)
    have hrest := ih hstep.2 (fun c hc => hcells c (List.mem_cons_of_mem _ hc))
    rw [hstep.1] at hrest
    exact hrest

/-- A pass by position is a pass by path. -/
theorem forget_matchPass (hrule : ∀ st e, rule (forget st) e = rule st e)
    (hd : (sorted.map Entity.qualifiedPath).Nodup) {st : Matching} (ha : Agrees sorted st) :
    forget (matchPass rule sorted st) = sorted.foldl (pathStep rule) (forget st) ∧
      Agrees sorted (matchPass rule sorted st) := by
  have hcells : ∀ cell ∈ sorted.zipIdx, sorted[cell.2]? = some cell.1 := fun cell hc =>
    List.mem_zipIdx_iff_getElem?.mp hc
  have hrun := forget_foldl_matchStep hrule hd sorted.zipIdx ha hcells
  rw [List.zipIdx_map_fst] at hrun
  exact hrun

end Positions

/-- The four passes by path. -/
def matchByPath (iter : HashOrder DurableId) (mint : ℕ → DurableId) (r : IdentityRegistry)
    (scope : Option (Finset String)) (sorted : List Entity) : Matching :=
  let st := sorted.foldl (pathStep (exactRule r)) Matching.start
  let st := sorted.foldl (pathStep (hashRule r scope)) st
  let st := sorted.foldl (pathStep (structRule iter r scope)) st
  sorted.foldl (pathStep (mintRule mint)) st

/-- Entities of distinct paths are matched by path as by position. -/
theorem forget_matchEntities (iter : HashOrder DurableId) (mint : ℕ → DurableId)
    (r : IdentityRegistry) (scope : Option (Finset String)) {sorted : List Entity}
    (hd : (sorted.map Entity.qualifiedPath).Nodup) :
    forget (matchEntities iter mint r scope sorted) = matchByPath iter mint r scope sorted := by
  have h₁ := @forget_matchPass sorted (exactRule r) (fun _ _ => rfl) hd Matching.start
    (agrees_start sorted)
  have h₂ := @forget_matchPass sorted (hashRule r scope) (fun _ _ => rfl) hd _ h₁.2
  have h₃ := @forget_matchPass sorted (structRule iter r scope) (fun _ _ => rfl) hd _ h₂.2
  have h₄ := @forget_matchPass sorted (mintRule mint) (fun _ _ => rfl) hd _ h₃.2
  rw [h₃.1, h₂.1, h₁.1] at h₄
  exact h₄.1

/-! ## The first pass -/

/-- The binding of an entity whose path is indexed. -/
def exactBinding (r : IdentityRegistry) (e : Entity) : Option Binding :=
  (r.byPath.lookup e.qualifiedPath).map fun id =>
    .exact id (((r.get id).map Anchor.contentHash).getD e.contentHash)

/-- The accumulators after the first pass over a list of entities: every
entity whose path is indexed is bound to the holder of the path. -/
structure FirstPass (r : IdentityRegistry) (done : List Entity) (st : Matching) : Prop where
  /-- The holders of the paths are consumed. -/
  bound : ∀ id, id ∈ st.boundIds ↔ ∃ e ∈ done, r.byPath.lookup e.qualifiedPath = some id
  /-- Each path has the binding of its entity. -/
  paths : ∀ p b, st.bindingsByPath.lookup p = some b ↔
    ∃ e ∈ done, e.qualifiedPath = p ∧ exactBinding r e = some b
  /-- The bindings stand in the order of the entities. -/
  bindings : st.bindings = done.filterMap fun e => (exactBinding r e).map (Prod.mk e.qualifiedPath)
  /-- No id is minted. -/
  minted : st.minted = 0

/-- Before the first entity. -/
theorem firstPass_start (r : IdentityRegistry) : FirstPass r [] Matching.start where
  bound id := by simp [Matching.start]
  paths p b := by simp [Matching.start]
  bindings := rfl
  minted := rfl

/-- One entity of the first pass. -/
theorem firstPass_step {r : IdentityRegistry} (hl : r.Linked) {done : List Entity} {st : Matching}
    (h : FirstPass r done st) {e : Entity}
    (hnew : ∀ e' ∈ done, e'.qualifiedPath ≠ e.qualifiedPath) :
    FirstPass r (done ++ [e]) (pathStep (exactRule r) st e) := by
  have hfree : st.bindingsByPath.lookup e.qualifiedPath = none := by
    cases hb : st.bindingsByPath.lookup e.qualifiedPath with
    | none => rfl
    | some b =>
      obtain ⟨e', he', hpath, -⟩ := (h.paths _ b).mp hb
      exact absurd hpath (hnew e' he')
  unfold pathStep exactRule
  rw [hfree]
  cases hp : r.byPath.lookup e.qualifiedPath with
  | none =>
    have hnone : exactBinding r e = none := by
      unfold exactBinding
      rw [hp]
      rfl
    refine ⟨fun id => ?_, fun p b => ?_, ?_, h.minted⟩
    · simp only [Option.isSome_none, Bool.false_eq_true, if_false, h.bound, List.mem_append,
        List.mem_singleton, or_and_right, exists_or, exists_eq_left, hp, reduceCtorEq, or_false]
    · simp only [Option.isSome_none, Bool.false_eq_true, if_false, h.paths, List.mem_append,
        List.mem_singleton, or_and_right, exists_or, exists_eq_left, hnone, reduceCtorEq,
        and_false, or_false]
    · simp [h.bindings, hnone]
  | some id =>
    have hunbound : id ∉ st.boundIds := by
      intro hmem
      obtain ⟨e', he', hholder⟩ := (h.bound id).mp hmem
      exact hnew e' he' (hl.path_injective hholder hp)
    have hsome : exactBinding r e =
        some (.exact id (((r.get id).map Anchor.contentHash).getD e.contentHash)) := by
      unfold exactBinding
      rw [hp]
      rfl
    simp only [Option.isSome_none, Bool.false_eq_true, if_false, hunbound]
    refine ⟨fun id' => ?_, fun p b => ?_, ?_, h.minted⟩
    · unfold forget Matching.bind
      simp only [Finset.mem_insert, Binding.id, h.bound, List.mem_append, List.mem_singleton,
        or_and_right, exists_or, exists_eq_left, hp, Option.some_inj]
      exact or_comm.trans (or_congr_right eq_comm)
    · unfold forget Matching.bind
      dsimp only
      rw [lookup_insert_ite]
      simp only [List.mem_append, List.mem_singleton, or_and_right, exists_or, exists_eq_left,
        hsome, Option.some_inj]
      by_cases hpath : p = e.qualifiedPath
      · rw [if_pos hpath]
        constructor
        · intro hb
          exact Or.inr ⟨hpath.symm, Option.some.inj hb⟩
        · intro hb
          rcases hb with ⟨e', he', hpath', -⟩ | ⟨-, hb⟩
          · exact absurd (hpath'.trans hpath) (hnew e' he')
          · rw [hb]
      · rw [if_neg hpath, h.paths]
        exact ⟨Or.inl, fun hb => hb.resolve_right fun hr => hpath hr.1.symm⟩
    · unfold forget Matching.bind
      simp [h.bindings, hsome]

/-- The whole first pass. -/
theorem firstPass_foldl {r : IdentityRegistry} (hl : r.Linked) (todo : List Entity)
    {done : List Entity} {st : Matching} (h : FirstPass r done st)
    (hd : ((done ++ todo).map Entity.qualifiedPath).Nodup) :
    FirstPass r (done ++ todo) (todo.foldl (pathStep (exactRule r)) st) := by
  induction todo generalizing done st with
  | nil =>
    rw [List.append_nil]
    exact h
  | cons e todo ih =>
    have hnew : ∀ e' ∈ done, e'.qualifiedPath ≠ e.qualifiedPath := by
      intro e' he' hpath
      rw [List.map_append, List.nodup_append] at hd
      exact hd.2.2 _ (List.mem_map_of_mem he') _ (List.mem_map_of_mem List.mem_cons_self) hpath
    have hstep := firstPass_step hl h hnew
    have hassoc : done ++ e :: todo = done ++ [e] ++ todo := by simp
    rw [hassoc] at hd ⊢
    exact ih hstep hd

/-! ## Both runs side by side -/

/-- The anchors outside a scope are exactly the given entities: same path,
same hash, none orphaned. -/
structure OutsideSettled (r : IdentityRegistry) (files : Finset String) (outside : List Entity) :
    Prop where
  /-- An anchor outside the scope is live and one of the entities. -/
  entity : ∀ id a, r.get id = some a → fileInScope (some files) a.qualifiedPath = false →
    a.status ≠ .orphaned ∧
      ∃ e ∈ outside, e.qualifiedPath = a.qualifiedPath ∧ e.contentHash = a.contentHash
  /-- Each entity is an anchor outside the scope. -/
  anchor : ∀ e ∈ outside, ∃ id a, r.get id = some a ∧
    fileInScope (some files) a.qualifiedPath = false ∧ a.qualifiedPath = e.qualifiedPath ∧
    a.contentHash = e.contentHash

/-- What a registry needs for its indexes to be consistent here: entries name
anchors of their path or hash, and live anchors are found by path. -/
structure Consistent (r : IdentityRegistry) : Prop extends r.Linked where
  /-- A live anchor is found under its path. -/
  live_path : ∀ id a, r.get id = some a → a.status ≠ .orphaned →
    r.byPath.lookup a.qualifiedPath = some id

/-- Indexed registries are consistent. -/
theorem consistent_of_indexed {r : IdentityRegistry} (hi : Indexed r) : Consistent r where
  path_anchor p id hp := by
    obtain ⟨a, ha, -, hpath⟩ := hi.path_live p id hp
    exact ⟨a, ha, hpath⟩
  hash_anchor := hi.hash_listed
  live_path := hi.live_path

/-- The ids of the anchors outside a scope. -/
def outsideIds (r : IdentityRegistry) (files : Finset String) : Finset DurableId :=
  r.byId.keys.filter fun id => anchorInScope r id (some files) = false

/-- An outside id has an anchor in another file. -/
theorem mem_outsideIds {r : IdentityRegistry} {files : Finset String} {id : DurableId} :
    id ∈ outsideIds r files ↔
      ∃ a, r.get id = some a ∧ fileInScope (some files) a.qualifiedPath = false := by
  unfold outsideIds anchorInScope
  rw [Finset.mem_filter, mem_keys_iff]
  constructor
  · intro h
    obtain ⟨⟨a, ha⟩, hscope⟩ := h
    have hget : r.get id = some a := ha
    rw [hget] at hscope
    exact ⟨a, hget, of_decide_eq_true (by simpa using hscope)⟩
  · intro h
    obtain ⟨a, ha, hscope⟩ := h
    rw [ha]
    exact ⟨⟨a, ha⟩, hscope⟩

/-- A known id is in scope exactly when it is not an outside id. -/
theorem anchorInScope_iff {r : IdentityRegistry} {files : Finset String} {id : DurableId}
    {a : Anchor} (ha : r.get id = some a) :
    anchorInScope r id (some files) = true ↔ id ∉ outsideIds r files := by
  rw [mem_outsideIds]
  unfold anchorInScope
  rw [ha]
  simp

/-- The accumulators of the full and of the scoped run agree about the
scoped entities, and all outside anchors are consumed in the full run. -/
structure Sim (sorted : List Entity) (inside : String → Bool) (outer : Finset DurableId)
    (full part : Matching) : Prop where
  /-- The full run has also consumed the outside anchors. -/
  bound : ∀ id, id ∈ full.boundIds ↔ id ∈ part.boundIds ∨ id ∈ outer
  /-- Scoped paths have the same bindings. -/
  paths : ∀ p, inside p = true → full.bindingsByPath.lookup p = part.bindingsByPath.lookup p
  /-- Every other entity has a binding. -/
  covered : ∀ e ∈ sorted, inside e.qualifiedPath = false →
    (full.bindingsByPath.lookup e.qualifiedPath).isSome = true
  /-- The bindings of scoped paths are reported in the same order. -/
  bindings : full.bindings.filter (fun x => inside x.1) = part.bindings
  /-- The same number of ids is minted. -/
  minted : full.minted = part.minted

section Simulation

variable {sorted : List Entity} {inside : String → Bool} {outer : Finset DurableId}
  {full part : Matching}

/-- A step on a scoped entity for which both rules offer the same. -/
theorem sim_step {ruleF ruleS : Matching → Entity → Option (Binding × Bool)}
    (h : Sim sorted inside outer full part) {e : Entity}
    (he : inside e.qualifiedPath = true) (hrule : ruleF full e = ruleS part e) :
    Sim sorted inside outer (pathStep ruleF full e) (pathStep ruleS part e) := by
  unfold pathStep
  rw [h.paths _ he, hrule]
  split_ifs with hsome
  · exact h
  · cases hr : ruleS part e with
    | none => exact h
    | some found =>
      unfold forget Matching.bind
      refine ⟨fun id => ?_, fun p hp => ?_, fun x hx hout => ?_, ?_, ?_⟩
      · dsimp only
        rw [Finset.mem_insert, Finset.mem_insert, h.bound, or_assoc]
      · dsimp only
        rw [lookup_insert_ite, lookup_insert_ite, h.paths p hp]
      · dsimp only
        rw [lookup_insert_ite]
        split_ifs with hpath
        · rfl
        · exact h.covered x hx hout
      · dsimp only
        rw [List.filter_append, h.bindings]
        simp [he]
      · dsimp only
        rw [h.minted]

/-- A pass over all entities against a pass over the scoped ones. -/
theorem sim_foldl {ruleF ruleS : Matching → Entity → Option (Binding × Bool)}
    (hrule : ∀ full part, Sim sorted inside outer full part → ∀ e ∈ sorted,
      inside e.qualifiedPath = true → ruleF full e = ruleS part e)
    (todo : List Entity) (htodo : ∀ e ∈ todo, e ∈ sorted)
    (h : Sim sorted inside outer full part) :
    Sim sorted inside outer (todo.foldl (pathStep ruleF) full)
      ((todo.filter fun e => inside e.qualifiedPath).foldl (pathStep ruleS) part) := by
  induction todo generalizing full part with
  | nil => exact h
  | cons e todo ih =>
    have he := htodo e List.mem_cons_self
    have hrest : ∀ e' ∈ todo, e' ∈ sorted := fun e' he' => htodo e' (List.mem_cons_of_mem _ he')
    cases hin : inside e.qualifiedPath with
    | true =>
      rw [List.filter_cons, if_pos hin, List.foldl_cons, List.foldl_cons]
      exact ih hrest (sim_step h hin (hrule full part h e he hin))
    | false =>
      have hskip : pathStep ruleF full e = full := by
        unfold pathStep
        rw [if_pos (h.covered e he hin)]
      rw [List.filter_cons, if_neg (by rw [hin]; decide), List.foldl_cons, hskip]
      exact ih hrest h

end Simulation

/-! ## The rules agree -/

/-- Candidates are sorted alike in every order they are found in. -/
theorem insertionSort_closerFirst_eq {xs ys : List (DurableId × ℕ)} (h : xs.Perm ys) :
    xs.insertionSort (fun x y => closerFirst x y = true) =
      ys.insertionSort (fun x y => closerFirst x y = true) := by
  have htotal : Std.Total fun x y : DurableId × ℕ => closerFirst x y = true := by
    refine ⟨fun x y => ?_⟩
    simp only [closerFirst, decide_eq_true_eq]
    rcases lt_trichotomy x.2 y.2 with hlt | heq | hgt
    · exact Or.inl (Or.inl hlt)
    · rcases le_total x.1 y.1 with hle | hle
      · exact Or.inl (Or.inr ⟨heq, hle⟩)
      · exact Or.inr (Or.inr ⟨heq.symm, hle⟩)
    · exact Or.inr (Or.inl hgt)
  have htrans : IsTrans (DurableId × ℕ) fun x y => closerFirst x y = true := by
    refine ⟨fun x y z hxy hyz => ?_⟩
    simp only [closerFirst, decide_eq_true_eq] at hxy hyz ⊢
    rcases hxy with hxy | ⟨hxy, hxy'⟩
    · rcases hyz with hyz | ⟨hyz, -⟩
      · exact Or.inl (hxy.trans hyz)
      · exact Or.inl (hyz ▸ hxy)
    · rcases hyz with hyz | ⟨hyz, hyz'⟩
      · exact Or.inl (hxy ▸ hyz)
      · exact Or.inr ⟨hxy.trans hyz, hxy'.trans hyz'⟩
  have hanti : ∀ x y : DurableId × ℕ, closerFirst x y = true → closerFirst y x = true → x = y := by
    intro x y hxy hyx
    simp only [closerFirst, decide_eq_true_eq] at hxy hyx
    have hdist : x.2 = y.2 := by omega
    have hids : x.1 ≤ y.1 ∧ y.1 ≤ x.1 := by
      constructor
      · exact (hxy.resolve_left (by omega)).2
      · exact (hyx.resolve_left (by omega)).2
    exact Prod.ext (le_antisymm hids.1 hids.2) hdist
  have hperm : (xs.insertionSort fun x y => closerFirst x y = true).Perm
      (ys.insertionSort fun x y => closerFirst x y = true) :=
    (List.perm_insertionSort _ xs).trans (h.trans (List.perm_insertionSort _ ys).symm)
  exact hperm.eq_of_pairwise (fun x y _ _ => hanti x y) (List.pairwise_insertionSort _ xs)
    (List.pairwise_insertionSort _ ys)

section Rules

variable {r : IdentityRegistry} {files : Finset String} {sorted : List Entity}
  {inside : String → Bool} {full part : Matching}

/-- A known id is free in the full run exactly when it is free and in scope
in the scoped one. -/
theorem free_iff (h : Sim sorted inside (outsideIds r files) full part) {id : DurableId}
    {a : Anchor} (ha : r.get id = some a) :
    id ∉ full.boundIds ↔ id ∉ part.boundIds ∧ anchorInScope r id (some files) = true := by
  rw [h.bound, anchorInScope_iff ha, not_or]

/-- The second rule chooses among the same anchors. -/
theorem hashRule_sim (h : Sim sorted inside (outsideIds r files) full part) (e : Entity) :
    hashRule r none full e = hashRule r (some files) part e := by
  have hsame : hashCandidates r none full e = hashCandidates r (some files) part e := by
    unfold hashCandidates
    apply List.filter_congr
    intro id _
    cases ha : r.get id with
    | none => simp
    | some a =>
      have hfree := free_iff h ha
      have hall : anchorInScope r id none = true := rfl
      rw [hall, Bool.and_true]
      congr 1
      rw [Bool.eq_iff_iff, Bool.and_eq_true, decide_eq_true_eq, decide_eq_true_eq]
      exact hfree
  unfold hashRule
  rw [hsame]

/-- The third rule chooses among the same anchors, whichever order the two
runs visit them in. -/
theorem structRule_sim (h : Sim sorted inside (outsideIds r files) full part)
    (iter iter' : HashOrder DurableId) (e : Entity) :
    structRule iter r none full e = structRule iter' r (some files) part e := by
  have hsame : structCandidates iter' r none full e =
      structCandidates iter' r (some files) part e := by
    unfold structCandidates
    apply List.filterMap_congr
    intro id _
    cases ha : r.get id with
    | none => rfl
    | some a =>
      have hfree := free_iff h ha
      have hall : anchorInScope r id none = true := rfl
      dsimp only
      simp only [hall, true_and, hfree, and_assoc]
  have hperm : (structCandidates iter r none full e).Perm
      (structCandidates iter' r none full e) := by
    unfold structCandidates
    apply List.Perm.filterMap
    rw [← Multiset.coe_eq_coe, iter.exhaustive, iter'.exhaustive]
  have hsorted := insertionSort_closerFirst_eq hperm
  unfold structRule
  rw [hsorted, hsame]

/-- The last rule takes the same id of the supply. -/
theorem mintRule_sim {outer : Finset DurableId} (h : Sim sorted inside outer full part)
    (mint : ℕ → DurableId) (e : Entity) : mintRule mint full e = mintRule mint part e := by
  unfold mintRule
  rw [h.minted]

end Rules

/-! ## The matched entities of both runs -/

section Matched

variable {r : IdentityRegistry} {files : Finset String} {sorted outside : List Entity}
  {inside : String → Bool}

/-- An entity of another file is held by an outside anchor. -/
theorem holder_of_outside (hc : Consistent r) (ho : OutsideSettled r files outside) {e : Entity}
    (he : e ∈ outside) :
    ∃ id ∈ outsideIds r files, r.byPath.lookup e.qualifiedPath = some id := by
  obtain ⟨id, a, ha, hscope, hpath, -⟩ := ho.anchor e he
  refine ⟨id, mem_outsideIds.mpr ⟨a, ha, hscope⟩, ?_⟩
  rw [← hpath]
  exact hc.live_path id a ha (ho.entity id a ha hscope).1

/-- After the first pass the two runs are in step. -/
theorem sim_firstPass (hc : Consistent r) (ho : OutsideSettled r files outside)
    (hsplit : ∀ e, e ∈ outside ↔ e ∈ sorted ∧ inside e.qualifiedPath = false)
    {full part : Matching} (hfull : FirstPass r sorted full)
    (hpart : FirstPass r (sorted.filter fun e => inside e.qualifiedPath) part) :
    Sim sorted inside (outsideIds r files) full part := by
  refine ⟨fun id => ?_, fun p hp => ?_, fun e he hout => ?_, ?_, ?_⟩
  · rw [hfull.bound, hpart.bound]
    constructor
    · intro h
      obtain ⟨e, he, hholder⟩ := h
      cases hin : inside e.qualifiedPath with
      | true => exact Or.inl ⟨e, List.mem_filter.mpr ⟨he, hin⟩, hholder⟩
      | false =>
        obtain ⟨id', hid', hholder'⟩ := holder_of_outside hc ho ((hsplit e).mpr ⟨he, hin⟩)
        rw [hholder] at hholder'
        rw [Option.some.inj hholder']
        exact Or.inr hid'
    · intro h
      rcases h with ⟨e, he, hholder⟩ | hid
      · exact ⟨e, (List.mem_filter.mp he).1, hholder⟩
      · obtain ⟨a, ha, hscope⟩ := mem_outsideIds.mp hid
        obtain ⟨hlive, e, he, hpath, -⟩ := ho.entity id a ha hscope
        refine ⟨e, ((hsplit e).mp he).1, ?_⟩
        rw [hpath]
        exact hc.live_path id a ha hlive
  · ext b
    rw [hfull.paths, hpart.paths]
    constructor
    · intro h
      obtain ⟨e, he, hpath, hb⟩ := h
      exact ⟨e, List.mem_filter.mpr ⟨he, by rw [hpath]; exact hp⟩, hpath, hb⟩
    · intro h
      obtain ⟨e, he, hpath, hb⟩ := h
      exact ⟨e, (List.mem_filter.mp he).1, hpath, hb⟩
  · obtain ⟨id, -, hholder⟩ := holder_of_outside hc ho ((hsplit e).mpr ⟨he, hout⟩)
    have hb : exactBinding r e =
        some (.exact id (((r.get id).map Anchor.contentHash).getD e.contentHash)) := by
      unfold exactBinding
      rw [hholder]
      rfl
    rw [(hfull.paths _ _).mpr ⟨e, he, rfl, hb⟩]
    rfl
  · rw [hfull.bindings, hpart.bindings, List.filter_filterMap, List.filterMap_filter]
    apply List.filterMap_congr
    intro e _
    cases hb : exactBinding r e with
    | none => simp
    | some b => simp [Option.filter]
  · rw [hfull.minted, hpart.minted]

/-- The two runs are in step after all passes. -/
theorem sim_matchByPath (inside : String → Bool) (hc : Consistent r)
    (ho : OutsideSettled r files outside)
    (hd : (sorted.map Entity.qualifiedPath).Nodup)
    (hsplit : ∀ e, e ∈ outside ↔ e ∈ sorted ∧ inside e.qualifiedPath = false)
    (iter iter' : HashOrder DurableId) (mint : ℕ → DurableId) :
    Sim sorted inside (outsideIds r files) (matchByPath iter mint r none sorted)
      (matchByPath iter' mint r (some files) (sorted.filter fun e => inside e.qualifiedPath)) := by
  have hdpart : ((sorted.filter fun e => inside e.qualifiedPath).map Entity.qualifiedPath).Nodup :=
    hd.sublist (List.filter_sublist.map _)
  have hfull := firstPass_foldl hc.toLinked sorted (firstPass_start r) hd
  have hpart := firstPass_foldl hc.toLinked (sorted.filter fun e => inside e.qualifiedPath)
    (firstPass_start r) hdpart
  have h₁ := sim_firstPass hc ho hsplit hfull hpart
  have h₂ := sim_foldl (fun full part h e _ _ => hashRule_sim h e) sorted (fun _ h => h) h₁
  have h₃ := sim_foldl (fun full part h e _ _ => structRule_sim h iter iter' e) sorted
    (fun _ h => h) h₂
  exact sim_foldl (fun full part h e _ _ => mintRule_sim h mint e) sorted (fun _ h => h) h₃

end Matched

/-! ## The reconciled registries -/

/-- The scoped entities in the order of the whole project are the scoped
entities in their own order. -/
theorem filter_sortEntities {inner outside : List Entity} (inside : String → Bool)
    (hd : ((inner ++ outside).map Entity.qualifiedPath).Nodup)
    (hinner : ∀ e ∈ inner, inside e.qualifiedPath = true)
    (houtside : ∀ e ∈ outside, inside e.qualifiedPath = false) :
    (sortEntities (inner ++ outside)).filter (fun e => inside e.qualifiedPath) =
      sortEntities inner := by
  have hdinner : (inner.map Entity.qualifiedPath).Nodup := by
    rw [List.map_append] at hd
    exact hd.of_append_left
  have hkept : (inner ++ outside).filter (fun e => inside e.qualifiedPath) = inner := by
    rw [List.filter_append, List.filter_eq_self.mpr hinner, List.filter_eq_nil_iff.mpr ?_,
      List.append_nil]
    intro e he
    rw [houtside e he]
    decide
  have hperm : ((sortEntities (inner ++ outside)).filter fun e => inside e.qualifiedPath).Perm
      (sortEntities inner) := by
    refine ((sortEntities_perm (inner ++ outside)).filter _).trans ?_
    rw [hkept]
    exact (sortEntities_perm inner).symm
  have hfull := (sortEntities_strict hd).filter fun e => inside e.qualifiedPath
  exact hperm.eq_of_pairwise (fun a b _ _ hab hba => absurd hba (not_lt_of_gt hab)) hfull
    (sortEntities_strict hdinner)

/-- A binding of an entity tells whether it needs review. -/
theorem review_eq {mint : ℕ → DurableId} {r : IdentityRegistry}
    {scope scope' : Option (Finset String)} {e : Entity} {b : Binding} {review review' : Bool}
    (h : Justified mint r scope e review b) (h' : Justified mint r scope' e review' b) :
    review = review' := by
  cases b with
  | exact id oldHash => exact h.2.2.trans h'.2.2.symm
  | moved id oldPath oldHash => exact h.2.2.2.trans h'.2.2.2.symm
  | struct id confidence oldHash => exact h.2.2.trans h'.2.2.symm
  | minted id => exact h.2.trans h'.2.symm

/-- What a comparison of two registries looks at in an anchor. -/
def facts (a : Anchor) : String × ContentHash × Bool :=
  (a.qualifiedPath, a.contentHash, decide (a.status = .orphaned))

section Registries

variable {r : IdentityRegistry} {files : Finset String} {inner outside : List Entity}
  {mint : ℕ → DurableId} {revision : Revision} {full part : Reconciliation × IdentityRegistry}
  {planF planP : List Bound}

/-- The entities of both runs that carry one path are the same. -/
theorem entity_eq_of_path (hd : ((inner ++ outside).map Entity.qualifiedPath).Nodup)
    (hF : Outcome mint r (inner ++ outside) revision none full planF)
    (hP : Outcome mint r inner revision (some files) part planP) {x y : Bound} (hx : x ∈ planP)
    (hy : y ∈ planF) (h : y.entity.qualifiedPath = x.entity.qualifiedPath) :
    y.entity = x.entity := by
  have hxe : x.entity ∈ inner := by
    rw [← (sortEntities_perm inner).mem_iff, ← hP.entities]
    exact List.mem_map_of_mem hx
  have hye : y.entity ∈ inner ++ outside := by
    rw [← (sortEntities_perm (inner ++ outside)).mem_iff, ← hF.entities]
    exact List.mem_map_of_mem hy
  exact eq_of_path_eq hd hye (List.mem_append_left _ hxe) h

/-- An entry of the scoped run is an entry of the full one. -/
theorem exists_full_entry (hd : ((inner ++ outside).map Entity.qualifiedPath).Nodup)
    (hF : Outcome mint r (inner ++ outside) revision none full planF)
    (hP : Outcome mint r inner revision (some files) part planP)
    (hsub : ∀ b ∈ part.1.bindings, b ∈ full.1.bindings) {x : Bound} (hx : x ∈ planP) :
    ∃ y ∈ planF, y.entity = x.entity ∧ y.binding = x.binding ∧ y.review = x.review := by
  have hlisted : (x.entity.qualifiedPath, x.binding) ∈ part.1.bindings :=
    hP.bindings.symm.subset (List.mem_map_of_mem hx)
  obtain ⟨y, hy, hpair⟩ := List.mem_map.mp (hF.bindings.subset (hsub _ hlisted))
  have hpath : y.entity.qualifiedPath = x.entity.qualifiedPath := congrArg Prod.fst hpair
  have hbinding : y.binding = x.binding := congrArg Prod.snd hpair
  have hentity := entity_eq_of_path hd hF hP hx hy hpath
  refine ⟨y, hy, hentity, hbinding, ?_⟩
  have hjy := hF.justified y hy
  rw [hentity, hbinding] at hjy
  exact review_eq hjy (hP.justified x hx)

/-- The full run binds the entity of an outside anchor to it. -/
theorem exists_outside_entry (hc : Consistent r) (ho : OutsideSettled r files outside)
    (hF : Outcome mint r (inner ++ outside) revision none full planF) {id : DurableId}
    (hid : id ∈ outsideIds r files) :
    ∃ a, ∃ y ∈ planF, r.get id = some a ∧ a.status ≠ .orphaned ∧ y.id = id ∧
      y.entity.qualifiedPath = a.qualifiedPath ∧ y.entity.contentHash = a.contentHash := by
  obtain ⟨a, ha, hscope⟩ := mem_outsideIds.mp hid
  obtain ⟨hlive, e, he, hpath, hhash⟩ := ho.entity id a ha hscope
  have hmem : e ∈ planF.map Bound.entity := by
    rw [hF.entities, (sortEntities_perm (inner ++ outside)).mem_iff]
    exact List.mem_append_right _ he
  obtain ⟨y, hy, hye⟩ := List.mem_map.mp hmem
  have hholder : r.byPath.lookup y.entity.qualifiedPath = some id := by
    rw [hye, hpath]
    exact hc.live_path id a ha hlive
  have hyid := (hF.indexed y hy id hholder).1
  exact ⟨a, y, hy, ha, hlive, hyid, hye ▸ hpath, hye ▸ hhash⟩

/-- The full run claims what the scoped run claims and the outside anchors. -/
theorem mem_claimed_full (hc : Consistent r) (ho : OutsideSettled r files outside)
    (hd : ((inner ++ outside).map Entity.qualifiedPath).Nodup)
    (hF : Outcome mint r (inner ++ outside) revision none full planF)
    (hP : Outcome mint r inner revision (some files) part planP)
    (hbind : full.1.bindings.filter (fun b => decide (b.1 ∈ inner.map Entity.qualifiedPath)) =
      part.1.bindings) (hsub : ∀ b ∈ part.1.bindings, b ∈ full.1.bindings) (id : DurableId) :
    id ∈ claimed planF ↔ id ∈ claimed planP ∨ id ∈ outsideIds r files := by
  constructor
  · intro h
    obtain ⟨y, hy, hyid⟩ := mem_claimed.mp h
    have hye : y.entity ∈ inner ++ outside := by
      rw [← (sortEntities_perm (inner ++ outside)).mem_iff, ← hF.entities]
      exact List.mem_map_of_mem hy
    rcases List.mem_append.mp hye with hin | hout
    · have hlisted : (y.entity.qualifiedPath, y.binding) ∈ part.1.bindings := by
        rw [← hbind]
        exact List.mem_filter.mpr ⟨hF.bindings.symm.subset (List.mem_map_of_mem hy),
          decide_eq_true (List.mem_map_of_mem hin)⟩
      obtain ⟨x, hx, hpair⟩ := List.mem_map.mp (hP.bindings.subset hlisted)
      have hbinding : x.binding = y.binding := congrArg Prod.snd hpair
      refine Or.inl (mem_claimed.mpr ⟨x, hx, ?_⟩)
      rw [← hyid]
      exact congrArg Binding.id hbinding
    · obtain ⟨id', hid', hholder⟩ := holder_of_outside hc ho hout
      have hyid' := (hF.indexed y hy id' hholder).1
      rw [← hyid, hyid']
      exact Or.inr hid'
  · intro h
    rcases h with hclaimed | hid
    · obtain ⟨x, hx, hxid⟩ := mem_claimed.mp hclaimed
      obtain ⟨y, hy, -, hbinding, -⟩ := exists_full_entry hd hF hP hsub hx
      refine mem_claimed.mpr ⟨y, hy, ?_⟩
      rw [← hxid]
      exact congrArg Binding.id hbinding
    · obtain ⟨a, y, hy, -, -, hyid, -⟩ := exists_outside_entry hc ho hF hid
      exact mem_claimed.mpr ⟨y, hy, hyid⟩

/-- Both runs retire the same anchors. -/
theorem vanished_full_iff {claimedF claimedP : Finset DurableId}
    (hclaimed : ∀ id, id ∈ claimedF ↔ id ∈ claimedP ∨ id ∈ outsideIds r files) (id : DurableId) :
    vanished none claimedF r id = true ↔ vanished (some files) claimedP r id = true := by
  rw [vanished_iff, vanished_iff, hclaimed, not_or]
  constructor
  · intro h
    obtain ⟨hfree, -, a, ha, hlive⟩ := h
    exact ⟨hfree.1, (anchorInScope_iff ha).mpr hfree.2, a, ha, hlive⟩
  · intro h
    obtain ⟨hfree, hscope, a, ha, hlive⟩ := h
    exact ⟨⟨hfree, (anchorInScope_iff ha).mp hscope⟩, rfl, a, ha, hlive⟩

/-- An outside anchor keeps its facts in both runs. -/
theorem facts_outside (ho : OutsideSettled r files outside)
    (hc : Consistent r) (hF : Outcome mint r (inner ++ outside) revision none full planF)
    (hP : Outcome mint r inner revision (some files) part planP) {id : DurableId}
    (hid : id ∈ outsideIds r files) (hfree : id ∉ claimed planP) :
    (full.2.get id).map facts = (part.2.get id).map facts := by
  obtain ⟨a, y, hy, ha, hlive, hyid, hpath, hhash⟩ := exists_outside_entry hc ho hF hid
  obtain ⟨a', ha', hpath', hhash', hlive'⟩ := hF.get_bound_live hy
  rw [hyid] at ha'
  have hstays : vanished (some files) (claimed planP) r id ≠ true := by
    intro hv
    exact (anchorInScope_iff ha).mp (vanished_iff.mp hv).2.1 hid
  rw [ha', hP.get_other id hfree, if_neg hstays, ha, Option.map_some, Option.map_some]
  unfold facts
  rw [hpath', hhash', hpath, hhash, decide_eq_false hlive', decide_eq_false hlive]

/-- An anchor that the scoped run binds is the same after both runs. -/
theorem get_of_claimed (hd : ((inner ++ outside).map Entity.qualifiedPath).Nodup)
    (hF : Outcome mint r (inner ++ outside) revision none full planF)
    (hP : Outcome mint r inner revision (some files) part planP)
    (hsub : ∀ b ∈ part.1.bindings, b ∈ full.1.bindings) {id : DurableId}
    (hid : id ∈ claimed planP) : full.2.get id = part.2.get id := by
  obtain ⟨x, hx, hxid⟩ := mem_claimed.mp hid
  obtain ⟨y, hy, hentity, hbinding, hreview⟩ := exists_full_entry hd hF hP hsub hx
  have hyid : y.id = x.id := congrArg Binding.id hbinding
  have hanchor : boundAnchor revision y (r.get y.id) = boundAnchor revision x (r.get x.id) := by
    unfold boundAnchor
    rw [hyid, hentity, hbinding, hreview]
  have hget := hF.get_bound y hy
  rw [hanchor, ← hP.get_bound x hx, hyid, hxid] at hget
  exact hget

end Registries

/-- The full run binds the entities of the scoped files as the scoped run
does. -/
theorem bindings_scoped {r : IdentityRegistry} (hc : Consistent r) (mint : ℕ → DurableId)
    (iter iter' : HashOrder DurableId) {files : Finset String} {inner outside : List Entity}
    (hd : ((inner ++ outside).map Entity.qualifiedPath).Nodup)
    (ho : OutsideSettled r files outside) (revision : Revision) :
    (reconcile iter mint r (inner ++ outside) revision).1.bindings.filter
        (fun b => decide (b.1 ∈ inner.map Entity.qualifiedPath)) =
      (reconcileScoped iter' mint r inner revision files).1.bindings := by
  have hdinner : (inner.map Entity.qualifiedPath).Nodup := by
    rw [List.map_append] at hd
    exact hd.of_append_left
  have hapart : ∀ e ∈ outside, e.qualifiedPath ∉ inner.map Entity.qualifiedPath := by
    intro e he hmem
    rw [List.map_append, List.nodup_append] at hd
    exact hd.2.2 _ hmem _ (List.mem_map_of_mem he) rfl
  have hsorted : ((sortEntities (inner ++ outside)).map Entity.qualifiedPath).Nodup :=
    ((sortEntities_perm (inner ++ outside)).map _).nodup_iff.mpr hd
  have hsortedInner : ((sortEntities inner).map Entity.qualifiedPath).Nodup :=
    ((sortEntities_perm inner).map _).nodup_iff.mpr hdinner
  have hfilter : (sortEntities (inner ++ outside)).filter
      (fun e => decide (e.qualifiedPath ∈ inner.map Entity.qualifiedPath)) =
      sortEntities inner :=
    filter_sortEntities (fun p => decide (p ∈ inner.map Entity.qualifiedPath)) hd
      (fun e he => decide_eq_true (List.mem_map_of_mem he))
      (fun e he => decide_eq_false (hapart e he))
  have hsplit : ∀ e, e ∈ outside ↔ e ∈ sortEntities (inner ++ outside) ∧
      decide (e.qualifiedPath ∈ inner.map Entity.qualifiedPath) = false := by
    intro e
    rw [(sortEntities_perm (inner ++ outside)).mem_iff, List.mem_append, decide_eq_false_iff_not]
    constructor
    · intro he
      exact ⟨Or.inr he, hapart e he⟩
    · intro h
      exact h.1.resolve_left fun he => h.2 (List.mem_map_of_mem he)
  -- the matched entities agree, position by position of the scoped list
  have hsim := sim_matchByPath (fun p => decide (p ∈ inner.map Entity.qualifiedPath)) hc ho
    hsorted hsplit iter iter' mint
  rw [hfilter, ← forget_matchEntities iter mint r none hsorted,
    ← forget_matchEntities iter' mint r (some files) hsortedInner] at hsim
  exact hsim.bindings

/-- Reconciling the entities of the scoped files binds them, retires anchors
and leaves anchors as reconciling the whole project does, when the anchors
outside the scope are exactly the entities of the other files. -/
theorem reconcileScoped_refines_reconcile {r : IdentityRegistry} (hc : Consistent r)
    {mint : ℕ → DurableId} (hf : Fresh mint r) (iter iter' : HashOrder DurableId)
    {files : Finset String} {inner outside : List Entity}
    (hd : ((inner ++ outside).map Entity.qualifiedPath).Nodup)
    (ho : OutsideSettled r files outside) (revision : Revision) :
    (reconcile iter mint r (inner ++ outside) revision).1.bindings.filter
        (fun b => decide (b.1 ∈ inner.map Entity.qualifiedPath)) =
      (reconcileScoped iter' mint r inner revision files).1.bindings ∧
    (∀ id, id ∈ (reconcile iter mint r (inner ++ outside) revision).1.retired ↔
      id ∈ (reconcileScoped iter' mint r inner revision files).1.retired) ∧
    ∀ id, ((reconcile iter mint r (inner ++ outside) revision).2.get id).map facts =
      ((reconcileScoped iter' mint r inner revision files).2.get id).map facts := by
  have hdinner : (inner.map Entity.qualifiedPath).Nodup := by
    rw [List.map_append] at hd
    exact hd.of_append_left
  have hbind := bindings_scoped hc mint iter iter' hd ho revision
  have hsub : ∀ b ∈ (reconcileImpl iter' mint r inner revision (some files)).1.bindings,
      b ∈ (reconcileImpl iter mint r (inner ++ outside) revision none).1.bindings := by
    intro b hb
    have hb' : b ∈ (reconcileScoped iter' mint r inner revision files).1.bindings := hb
    rw [← hbind] at hb'
    exact (List.mem_filter.mp hb').1
  obtain ⟨planF, hF⟩ := reconcileImpl_outcome hc.toLinked hf iter hd revision none
  obtain ⟨planP, hP⟩ := reconcileImpl_outcome hc.toLinked hf iter' hdinner revision (some files)
  have hclaimed := mem_claimed_full hc ho hd hF hP hbind hsub
  refine ⟨hbind, fun id => ?_, fun id => ?_⟩
  · exact (hF.retired id).trans ((vanished_full_iff hclaimed id).trans (hP.retired id).symm)
  · by_cases hp : id ∈ claimed planP
    · exact congrArg (Option.map facts) (get_of_claimed hd hF hP hsub hp)
    · by_cases hid : id ∈ outsideIds r files
      · exact facts_outside ho hc hF hP hid hp
      · have hnot : id ∉ claimed planF := fun h => ((hclaimed id).mp h).elim hp hid
        have hgetF := hF.get_other id hnot
        have hgetP := hP.get_other id hp
        simp only [vanished_full_iff hclaimed id] at hgetF
        exact congrArg (Option.map facts) (hgetF.trans hgetP.symm)

/-- A function of one file is edited while another file stays: reconciling
the edited file alone binds and leaves what reconciling both does. -/
theorem edited_file_refines :
    let r := runCalls [wholeCall 0 1 [topFunction "a.py" "f" 1, topFunction "b.py" "g" 2]]
    (reconcile HashOrder.increasing (longIds 2) r
        ([topFunction "a.py" "f" 3] ++ [topFunction "b.py" "g" 2]) 2).1.bindings.filter
        (fun b => decide (b.1 ∈ [topFunction "a.py" "f" 3].map Entity.qualifiedPath)) =
      (reconcileScoped HashOrder.increasing (longIds 2) r [topFunction "a.py" "f" 3] 2
        {"a.py"}).1.bindings ∧
    (reconcileScoped HashOrder.increasing (longIds 2) r [topFunction "a.py" "f" 3] 2
        {"a.py"}).1.bindings = [("a.py::f", .exact "A" 1)] := by
  intro r
  have hreach : ReachableBy (fun r c => DistinctPaths r c ∧ KeepsPaths r c) r :=
    .step (wholeCall 0 1 [topFunction "a.py" "f" 1, topFunction "b.py" "g" 2]) .start
      (longIds_fresh (by decide +kernel)) ⟨by decide +kernel, by decide +kernel⟩
  have hc := consistent_of_indexed (indexed_of_reachable hreach)
  have hall : ∀ id ∈ r.byId.keys, ∀ a ∈ r.get id,
      fileInScope (some {"a.py"}) a.qualifiedPath = false → a.status ≠ .orphaned ∧
        ∃ e ∈ [topFunction "b.py" "g" 2], e.qualifiedPath = a.qualifiedPath ∧
          e.contentHash = a.contentHash := by decide +kernel
  have hanchor : ∀ e ∈ [topFunction "b.py" "g" 2], ∃ id ∈ r.byId.keys, ∃ a ∈ r.get id,
      fileInScope (some {"a.py"}) a.qualifiedPath = false ∧ a.qualifiedPath = e.qualifiedPath ∧
        a.contentHash = e.contentHash := by decide +kernel
  have ho : OutsideSettled r {"a.py"} [topFunction "b.py" "g" 2] :=
    ⟨fun id a ha => hall id ((mem_keys_iff _ _).mpr ⟨a, ha⟩) a ha, fun e he => by
      obtain ⟨id, -, a, ha, hrest⟩ := hanchor e he
      exact ⟨id, a, ha, hrest⟩⟩
  exact ⟨(reconcileScoped_refines_reconcile hc (longIds_fresh (by decide +kernel))
    HashOrder.increasing HashOrder.increasing (by decide +kernel) ho 2).1, by decide +kernel⟩

end Tyo3.ScopedReconciliation
