import Tyo3.CodeGraphs
import Tyo3.Runs

/-!
# Transitive queries

The transitive queries walk a subgraph from which the edges of other kinds
were removed by their nodes. Which one of several parallel edges disappears is
not known, but as many are left as there are edges of the wanted kinds. The
subgraph is kept until a mutation, so it always belongs to the present edges.
Hence a transitive query is the closure of the direct one.
-/

namespace Tyo3.TransitiveQueries

open CodeGraphs FiniteMaps ParallelEdges Runs

open CodeGraph

/-! ## Runs of a graph -/

/-- A call on a graph. -/
inductive Operation where
  | addNode (node : SymbolNode)
  | addEdge (edge : String × String × EdgeData)
  | applyCodeDelta (delta : CodeDelta)
  | rebuildIndexes
  | pinAt (revision : ℕ)
  | transitiveDependencies (durableId : String) (kinds : Option (Finset EdgeKind))
  | transitiveDependents (durableId : String) (kinds : Option (Finset EdgeKind))

/-- The graph after a mutation, or the same graph when it was refused. -/
def mutated (g : CodeGraph) (f : CodeGraph → CodeGraph) : CodeGraph :=
  match g.mutate f with
  | .ok g' => g'
  | .error _ => g

/-- The graph after a call. -/
def Operation.run (rx : Rustworkx) (g : CodeGraph) : Operation → CodeGraph
  | .addNode node => mutated g fun g => g.addNode node
  | .addEdge edge => mutated g fun g => g.addEdge edge
  | .applyCodeDelta delta => mutated g fun g => g.applyCodeDelta delta
  | .rebuildIndexes => g.rebuildIndexes
  | .pinAt revision => g.pinAt revision
  | .transitiveDependencies durableId kinds => (g.transitiveDependencies rx durableId kinds).2
  | .transitiveDependents durableId kinds => (g.transitiveDependents rx durableId kinds).2

/-- The indexes belong to the nodes and the edges. -/
structure Indexed (g : CodeGraph) : Prop where
  /-- Every id has its node under its number. -/
  index : ∀ id idx, g.idToIndex.lookup id = some idx ↔
    (g.nodes[idx]?).map SymbolNode.durableId = some id
  /-- Edges join nodes. -/
  ends : ∀ e ∈ g.edges, e.1 < g.nodes.length ∧ e.2.1 < g.nodes.length

/-- Every kept subgraph is one of the present edges. -/
structure Cached (g : CodeGraph) : Prop where
  /-- The edges of other kinds were removed by their nodes. -/
  removed : ∀ kinds sub, g.semanticSubgraphCache.lookup kinds = some sub →
    RemovesEach g.edges (unwanted (fun data : EdgeData => data.kind ∈ kinds) g.edges) sub

theorem cached_of_empty {g : CodeGraph} (h : g.semanticSubgraphCache = ∅) : Cached g := by
  refine ⟨fun kinds sub hsub => ?_⟩
  rw [h, Finmap.lookup_empty] at hsub
  cases hsub

/-- What holds of a graph holds after a mutation that keeps it. -/
theorem mutated_keeps {P : CodeGraph → Prop} {g : CodeGraph} {f : CodeGraph → CodeGraph}
    (hg : P g) (hf : P (f g)) : P (mutated g f) := by
  unfold mutated CodeGraph.mutate
  by_cases hfrozen : g.frozen = true
  · rw [if_pos hfrozen]
    exact hg
  · rw [if_neg hfrozen]
    exact hf

/-! ## The indexes -/

theorem indexed_new : Indexed CodeGraph.new := by
  refine ⟨fun id idx => ?_, fun e he => absurd he List.not_mem_nil⟩
  unfold CodeGraph.new
  simp

theorem Indexed.addNode {g : CodeGraph} (h : Indexed g) (node : SymbolNode) :
    Indexed (g.addNode node) := by
  unfold CodeGraph.addNode
  split
  · exact h
  · rename_i hnew
    refine ⟨fun id idx => ?_, fun e he => ?_⟩
    · rw [lookup_insert_ite, List.getElem?_append]
      by_cases hidx : idx < g.nodes.length
      · -- an earlier number keeps its node
        rw [if_pos hidx]
        by_cases hid : id = node.durableId
        · have hold := h.index id idx
          rw [hid, hnew] at hold
          rw [if_pos hid, hid]
          refine iff_of_false (fun heq => ?_) fun hmap => ?_
          · have hlast := Option.some.inj heq
            omega
          · exact absurd (hold.mpr hmap) (by simp)
        · rw [if_neg hid]
          exact h.index id idx
      · rw [if_neg hidx]
        by_cases hlast : idx = g.nodes.length
        · subst hlast
          by_cases hid : id = node.durableId
          · rw [if_pos hid, hid]
            simp
          · rw [if_neg hid, h.index]
            simp [Ne.symm hid]
        · have hbeyond : 1 ≤ idx - g.nodes.length := by omega
          have hnone : [node][idx - g.nodes.length]? = none := by
            rw [List.getElem?_eq_none_iff]
            exact hbeyond
          rw [hnone]
          refine iff_of_false (fun heq => ?_) (by simp)
          split at heq
          · exact hlast (Option.some.inj heq).symm
          · have hsome := (h.index id idx).mp heq
            rw [List.getElem?_eq_none (by omega)] at hsome
            cases hsome
    · have hold := h.ends e he
      simp only [List.length_append, List.length_singleton]
      omega

theorem Indexed.addEdge {g : CodeGraph} (h : Indexed g) (edge : String × String × EdgeData) :
    Indexed (g.addEdge edge) := by
  unfold CodeGraph.addEdge
  split
  · rename_i source target hsource htarget
    have hbound : ∀ {id idx}, g.idToIndex.lookup id = some idx → idx < g.nodes.length := by
      intro id idx hid
      by_contra hge
      have hsome := (h.index id idx).mp hid
      rw [List.getElem?_eq_none (by omega)] at hsome
      cases hsome
    refine ⟨h.index, fun e he => ?_⟩
    rcases List.mem_append.mp he with hold | hadded
    · exact h.ends e hold
    · rw [List.mem_singleton.mp hadded]
      exact ⟨hbound hsource, hbound htarget⟩
  · exact h

theorem Indexed.applyCodeDelta (g : CodeGraph) (delta : CodeDelta) :
    Indexed (g.applyCodeDelta delta) := by
  have hcleared : Indexed { CodeGraph.new with revision := g.revision } :=
    ⟨indexed_new.index, indexed_new.ends⟩
  have hnodes : ∀ (nodes : List SymbolNode) {g : CodeGraph}, Indexed g →
      Indexed (nodes.foldl CodeGraph.addNode g) := by
    intro nodes
    induction nodes with
    | nil => exact fun h => h
    | cons node nodes ih => exact fun h => ih (h.addNode node)
  have hedges : ∀ (edges : List (String × String × EdgeData)) {g : CodeGraph}, Indexed g →
      Indexed (edges.foldl CodeGraph.addEdge g) := by
    intro edges
    induction edges with
    | nil => exact fun h => h
    | cons edge edges ih => exact fun h => ih (h.addEdge edge)
  have hfilled := hedges delta.edgesAdded (hnodes delta.nodesUpserted hcleared)
  exact ⟨hfilled.index, hfilled.ends⟩

/-- No two nodes have one id. -/
theorem Indexed.nodup {g : CodeGraph} (h : Indexed g) :
    (g.nodes.map SymbolNode.durableId).Nodup := by
  rw [List.nodup_iff_injective_getElem]
  rintro ⟨i, hi⟩ ⟨j, hj⟩ heq
  rw [List.length_map] at hi hj
  simp only [List.getElem_map] at heq
  have hfirst : g.idToIndex.lookup (g.nodes[i]).durableId = some i := by
    rw [h.index, List.getElem?_eq_getElem hi]
    rfl
  have hsecond : g.idToIndex.lookup (g.nodes[i]).durableId = some j := by
    rw [h.index, List.getElem?_eq_getElem hj, heq]
    rfl
  rw [hfirst] at hsecond
  exact Fin.ext (Option.some.inj hsecond)

theorem Indexed.rebuildIndexes {g : CodeGraph} (h : Indexed g) : Indexed g.rebuildIndexes := by
  refine ⟨fun id idx => ?_, h.ends⟩
  have hkeys : g.nodes.zipIdx.map (fun p => p.1.durableId) =
      g.nodes.map SymbolNode.durableId := by
    have hfst := congrArg (List.map SymbolNode.durableId) (List.zipIdx_map_fst 0 g.nodes)
    rw [List.map_map] at hfst
    exact hfst
  have hnodup : (g.nodes.zipIdx.map fun p => p.1.durableId).Nodup := by
    rw [hkeys]
    exact h.nodup
  unfold CodeGraph.rebuildIndexes
  dsimp only
  rw [lookup_foldl_insert hnodup]
  simp only [Finmap.lookup_empty, reduceCtorEq, and_false, or_false, Option.map_eq_some_iff]
  constructor
  · rintro ⟨⟨node, number⟩, hmem, hid, hnumber⟩
    rw [List.mem_zipIdx_iff_getElem?] at hmem
    dsimp only at hmem hid hnumber
    rw [hnumber] at hmem
    exact ⟨node, hmem, hid⟩
  · rintro ⟨node, hnode, hid⟩
    exact ⟨(node, idx), List.mem_zipIdx_iff_getElem?.mpr hnode, hid, rfl⟩

/-! ## The subgraphs -/

theorem Cached.addNode {g : CodeGraph} (h : Cached g) (node : SymbolNode) :
    Cached (g.addNode node) := by
  unfold CodeGraph.addNode
  split
  · exact h
  · exact cached_of_empty rfl

theorem Cached.addEdge {g : CodeGraph} (h : Cached g) (edge : String × String × EdgeData) :
    Cached (g.addEdge edge) := by
  unfold CodeGraph.addEdge
  split
  · exact cached_of_empty rfl
  · exact h

section Library

variable {rx : Rustworkx} (hrx : rx.Documented) {g : CodeGraph}

include hrx

/-- A subgraph is one of the present edges, whether it was kept or not. -/
theorem removesEach_semanticSubgraph (h : Cached g) (kinds : Finset EdgeKind) :
    RemovesEach g.edges (unwanted (fun data : EdgeData => data.kind ∈ kinds) g.edges)
      (g.semanticSubgraph rx kinds).1 := by
  unfold CodeGraph.semanticSubgraph
  split
  · rename_i cached hcached
    exact h.removed kinds cached hcached
  · exact hrx.removeEdgesFrom _ _ (count_unwanted_le _ g.edges)

/-- A query keeps the graph and adds a subgraph at most. -/
theorem semanticSubgraph_graph (kinds : Finset EdgeKind) (hi : Indexed g) (h : Cached g) :
    Indexed (g.semanticSubgraph rx kinds).2 ∧ Cached (g.semanticSubgraph rx kinds).2 := by
  have hremoves := removesEach_semanticSubgraph hrx h kinds
  unfold CodeGraph.semanticSubgraph at hremoves ⊢
  split
  · exact ⟨hi, h⟩
  · rename_i hnone
    rw [hnone] at hremoves
    refine ⟨⟨hi.index, hi.ends⟩, ⟨fun other sub hsub => ?_⟩⟩
    rw [lookup_insert_ite] at hsub
    split at hsub
    · rename_i hother
      rw [hother, ← Option.some.inj hsub]
      exact hremoves
    · exact h.removed other sub hsub

omit hrx in
/-- The graph after a walk is the one with the subgraph. -/
theorem walkFrom_graph (walk : Edges → ℕ → Finset ℕ) (durableId : String)
    (kinds : Option (Finset EdgeKind)) :
    (g.walkFrom rx walk durableId kinds).2 = (g.semanticSubgraph rx (edgeKinds kinds)).2 := by
  unfold CodeGraph.walkFrom
  dsimp only
  split <;> rfl

/-- Every call keeps the indexes and the subgraphs in order. -/
theorem operation_keeps (op : Operation) (hi : Indexed g) (h : Cached g) :
    Indexed (op.run rx g) ∧ Cached (op.run rx g) := by
  cases op with
  | addNode node =>
    exact mutated_keeps (P := fun g => Indexed g ∧ Cached g) ⟨hi, h⟩
      ⟨hi.addNode node, h.addNode node⟩
  | addEdge edge =>
    exact mutated_keeps (P := fun g => Indexed g ∧ Cached g) ⟨hi, h⟩
      ⟨hi.addEdge edge, h.addEdge edge⟩
  | applyCodeDelta delta =>
    exact mutated_keeps (P := fun g => Indexed g ∧ Cached g) ⟨hi, h⟩
      ⟨Indexed.applyCodeDelta g delta, cached_of_empty rfl⟩
  | rebuildIndexes => exact ⟨hi.rebuildIndexes, cached_of_empty rfl⟩
  | pinAt revision => exact ⟨⟨hi.index, hi.ends⟩, cached_of_empty rfl⟩
  | transitiveDependencies durableId kinds =>
    have hkeeps := semanticSubgraph_graph hrx (edgeKinds kinds) hi h
    rw [← @walkFrom_graph rx g rx.descendants durableId kinds] at hkeeps
    exact hkeeps
  | transitiveDependents durableId kinds =>
    have hkeeps := semanticSubgraph_graph hrx (edgeKinds kinds) hi h
    rw [← @walkFrom_graph rx g rx.ancestors durableId kinds] at hkeeps
    exact hkeeps

/-- After every run the indexes and the subgraphs are in order. -/
theorem run_keeps (operations : List Operation) :
    Indexed (run (fun g op => Operation.run rx g op) CodeGraph.new operations) ∧
      Cached (run (fun g op => Operation.run rx g op) CodeGraph.new operations) := by
  have hall : Along (fun g op => Operation.run rx g op) (fun _ _ => True) CodeGraph.new
      operations := along_of_forall fun _ _ => trivial
  have hstep : ∀ g op, Indexed g ∧ Cached g → True →
      Indexed (Operation.run rx g op) ∧ Cached (Operation.run rx g op) :=
    fun g op h _ => operation_keeps hrx op h.1 h.2
  exact invariant_run hstep ⟨indexed_new, cached_of_empty rfl⟩ hall

/-! ## Queries and edges -/

/-- One symbol uses another one by an edge of some kinds. -/
def Uses (g : CodeGraph) (kinds : Finset EdgeKind) (a b : String) : Prop :=
  ∃ source target, g.idToIndex.lookup a = some source ∧ g.idToIndex.lookup b = some target ∧
    ∃ e ∈ g.edges, ends e = (source, target) ∧ e.2.2.kind ∈ kinds

omit hrx in
/-- The ids of some nodes. -/
theorem mem_idsAt (hi : Indexed g) {indices : Finset ℕ} {id : String} :
    id ∈ g.idsAt indices ↔ ∃ idx ∈ indices, g.idToIndex.lookup id = some idx := by
  unfold CodeGraph.idsAt
  simp only [Finset.mem_biUnion, Option.mem_toFinset, Option.mem_def, hi.index]

/-- The direct dependencies follow the edges. -/
theorem mem_dependencies (hi : Indexed g) {kinds : Option (Finset EdgeKind)} {a b : String} :
    b ∈ g.dependencies rx a kinds ↔ Uses g (edgeKinds kinds) a b := by
  unfold CodeGraph.dependencies Uses
  rw [mem_idsAt hi]
  unfold CodeGraph.edgesOfKind
  cases hsource : g.idToIndex.lookup a with
  | none => simp
  | some source =>
    simp only [Bool.false_eq_true, if_false, List.map_map, List.mem_toFinset, List.mem_map,
      List.mem_filter, hrx.outEdges, decide_eq_true_eq, Function.comp_apply, Option.some.injEq]
    constructor
    · rintro ⟨target, ⟨e, ⟨⟨he, hfrom⟩, hkind⟩, hto⟩, htarget⟩
      exact ⟨source, target, rfl, htarget, e, he, Prod.ext hfrom hto, hkind⟩
    · rintro ⟨source', target, hsame, htarget, e, he, hends, hkind⟩
      rw [← hsame] at hends
      exact ⟨target, ⟨e, ⟨⟨he, congrArg Prod.fst hends⟩, hkind⟩, congrArg Prod.snd hends⟩, htarget⟩

/-- So do the direct dependents. -/
theorem mem_dependents (hi : Indexed g) {kinds : Option (Finset EdgeKind)} {a b : String} :
    a ∈ g.dependents rx b kinds ↔ Uses g (edgeKinds kinds) a b := by
  unfold CodeGraph.dependents Uses
  rw [mem_idsAt hi]
  unfold CodeGraph.edgesOfKind
  cases htarget : g.idToIndex.lookup b with
  | none => simp
  | some target =>
    simp only [if_true, List.map_map, List.mem_toFinset, List.mem_map, List.mem_filter,
      hrx.inEdges, decide_eq_true_eq, Function.comp_apply, Option.some.injEq]
    constructor
    · rintro ⟨source, ⟨e, ⟨⟨he, hto⟩, hkind⟩, hfrom⟩, hsource⟩
      exact ⟨source, target, hsource, rfl, e, he, Prod.ext hfrom hto, hkind⟩
    · rintro ⟨source, target', hsource, hsame, e, he, hends, hkind⟩
      rw [← hsame] at hends
      exact ⟨source, ⟨e, ⟨⟨he, congrArg Prod.snd hends⟩, hkind⟩, congrArg Prod.fst hends⟩, hsource⟩

omit hrx in
/-- Uses by ids are walks by numbers in a subgraph of the kinds. -/
theorem transGen_uses_iff (hi : Indexed g) {kinds : Finset EdgeKind} {sub : Edges}
    (hsub : RemovesEach g.edges (unwanted (fun data : EdgeData => data.kind ∈ kinds) g.edges) sub)
    {a b : String} {source target : ℕ} (ha : g.idToIndex.lookup a = some source)
    (hb : g.idToIndex.lookup b = some target) :
    Relation.TransGen (Uses g kinds) a b ↔ Relation.TransGen (Linked sub) source target := by
  have hlinked := hsub.linked_iff (fun data : EdgeData => data.kind ∈ kinds)
  have hnumber : ∀ id idx, (g.nodes.map SymbolNode.durableId)[idx]? = some id ↔
      g.idToIndex.lookup id = some idx := by
    intro id idx
    rw [List.getElem?_map, hi.index]
  have huses : Uses g kinds = NamedLink (g.nodes.map SymbolNode.durableId) sub := by
    funext x y
    unfold Uses NamedLink
    simp only [hnumber, hlinked]
  have hends : ∀ e ∈ sub, e.1 < (g.nodes.map SymbolNode.durableId).length := by
    intro e he
    rw [List.length_map]
    exact (hi.ends e (hsub.subset he)).1
  rw [huses]
  exact transGen_namedLink hi.nodup hends ((hnumber a source).mpr ha) ((hnumber b target).mpr hb)

omit hrx in
/-- The answer of a walk. -/
theorem mem_walkFrom (hi : Indexed g) {walk : Edges → ℕ → Finset ℕ} {durableId x : String}
    {kinds : Option (Finset EdgeKind)} :
    x ∈ (g.walkFrom rx walk durableId kinds).1 ↔
      ∃ start idx, g.idToIndex.lookup durableId = some start ∧ g.idToIndex.lookup x = some idx ∧
        idx ∈ walk (g.semanticSubgraph rx (edgeKinds kinds)).1 start := by
  have hsame : (g.semanticSubgraph rx (edgeKinds kinds)).2.idToIndex = g.idToIndex ∧
      ∀ indices, (g.semanticSubgraph rx (edgeKinds kinds)).2.idsAt indices = g.idsAt indices := by
    unfold CodeGraph.semanticSubgraph
    split <;> exact ⟨rfl, fun _ => rfl⟩
  unfold CodeGraph.walkFrom
  dsimp only
  rw [hsame.1]
  cases hstart : g.idToIndex.lookup durableId with
  | none => simp
  | some start =>
    dsimp only
    rw [hsame.2, mem_idsAt hi]
    constructor
    · rintro ⟨idx, hin, hx⟩
      exact ⟨start, idx, rfl, hx, hin⟩
    · rintro ⟨start', idx, hstart', hx, hin⟩
      rw [← Option.some.inj hstart'] at hin
      exact ⟨idx, hin, hx⟩

omit hrx in
/-- Different ids have different numbers. -/
theorem Indexed.ne_iff (hi : Indexed g) {a b : String} {i j : ℕ}
    (ha : g.idToIndex.lookup a = some i) (hb : g.idToIndex.lookup b = some j) :
    a ≠ b ↔ i ≠ j := by
  refine not_congr ⟨fun hab => ?_, fun hij => ?_⟩
  · rw [hab, hb] at ha
    exact (Option.some.inj ha).symm
  · have hfirst := (hi.index a i).mp ha
    rw [hij, (hi.index b j).mp hb] at hfirst
    exact (Option.some.inj hfirst).symm

/-- A walk forwards finds what is used. -/
theorem mem_transitiveDependencies (hi : Indexed g) (hc : Cached g) {durableId x : String}
    {kinds : Option (Finset EdgeKind)} :
    x ∈ (g.transitiveDependencies rx durableId kinds).1 ↔
      x ≠ durableId ∧ Relation.TransGen (Uses g (edgeKinds kinds)) durableId x := by
  have hsub := removesEach_semanticSubgraph hrx hc (edgeKinds kinds)
  unfold CodeGraph.transitiveDependencies
  rw [mem_walkFrom hi]
  constructor
  · rintro ⟨start, idx, hstart, hx, hin⟩
    obtain ⟨hpath, hne⟩ := (hrx.descendants _ _ _).mp hin
    exact ⟨(hi.ne_iff hx hstart).mpr hne, (transGen_uses_iff hi hsub hstart hx).mpr hpath⟩
  · rintro ⟨hne, hpath⟩
    obtain ⟨_, ⟨start, -, hstart, -⟩, -⟩ := Relation.TransGen.head'_iff.mp hpath
    obtain ⟨_, -, ⟨-, idx, -, hx, -⟩⟩ := Relation.TransGen.tail'_iff.mp hpath
    refine ⟨start, idx, hstart, hx, (hrx.descendants _ _ _).mpr ⟨?_, (hi.ne_iff hx hstart).mp hne⟩⟩
    exact (transGen_uses_iff hi hsub hstart hx).mp hpath

/-- A walk backwards finds the users. -/
theorem mem_transitiveDependents (hi : Indexed g) (hc : Cached g) {durableId x : String}
    {kinds : Option (Finset EdgeKind)} :
    x ∈ (g.transitiveDependents rx durableId kinds).1 ↔
      x ≠ durableId ∧ Relation.TransGen (Uses g (edgeKinds kinds)) x durableId := by
  have hsub := removesEach_semanticSubgraph hrx hc (edgeKinds kinds)
  unfold CodeGraph.transitiveDependents
  rw [mem_walkFrom hi]
  constructor
  · rintro ⟨start, idx, hstart, hx, hin⟩
    obtain ⟨hpath, hne⟩ := (hrx.ancestors _ _ _).mp hin
    exact ⟨(hi.ne_iff hx hstart).mpr hne.symm, (transGen_uses_iff hi hsub hx hstart).mpr hpath⟩
  · rintro ⟨hne, hpath⟩
    obtain ⟨_, ⟨idx, -, hx, -⟩, -⟩ := Relation.TransGen.head'_iff.mp hpath
    obtain ⟨_, -, ⟨-, start, -, hstart, -⟩⟩ := Relation.TransGen.tail'_iff.mp hpath
    refine ⟨start, idx, hstart, hx,
      (hrx.ancestors _ _ _).mpr ⟨?_, ((hi.ne_iff hx hstart).mp hne).symm⟩⟩
    exact (transGen_uses_iff hi hsub hx hstart).mp hpath

/-- After every run of mutations and queries, the transitive dependents of a
symbol are the other symbols that lead to it by taking dependents again and
again, and its transitive dependencies are those it leads to by taking
dependencies. -/
theorem transitive_eq_closure (operations : List Operation) (durableId : String)
    (kinds : Option (Finset EdgeKind)) :
    let g := run (fun g op => Operation.run rx g op) CodeGraph.new operations
    (∀ x, x ∈ (g.transitiveDependents rx durableId kinds).1 ↔ x ≠ durableId ∧
      Relation.TransGen (fun a b => a ∈ g.dependents rx b kinds) x durableId) ∧
    ∀ x, x ∈ (g.transitiveDependencies rx durableId kinds).1 ↔ x ≠ durableId ∧
      Relation.TransGen (fun a b => b ∈ g.dependencies rx a kinds) durableId x := by
  intro g
  obtain ⟨hi, hc⟩ := run_keeps hrx operations
  have hback : (fun a b => a ∈ g.dependents rx b kinds) = Uses g (edgeKinds kinds) := by
    funext a b
    exact propext (mem_dependents hrx hi)
  have hforth : (fun a b => b ∈ g.dependencies rx a kinds) = Uses g (edgeKinds kinds) := by
    funext a b
    exact propext (mem_dependencies hrx hi)
  rw [hback, hforth]
  exact ⟨fun x => mem_transitiveDependents hrx hi hc, fun x => mem_transitiveDependencies hrx hi hc⟩

end Library

/-! ## Parallel edges of a small graph -/

/-- A graph library that removes the first of several edges. -/
def firstEdges : Rustworkx where
  inEdges edges idx := edges.filter fun e => e.2.1 = idx
  outEdges edges idx := edges.filter fun e => e.1 = idx
  removeEdgesFrom := removeFirst
  descendants := beyond
  ancestors edges := beyond (flipped edges)

theorem firstEdges_documented : firstEdges.Documented where
  inEdges edges idx e := by
    unfold firstEdges
    rw [List.mem_filter, decide_eq_true_eq]
  outEdges edges idx e := by
    unfold firstEdges
    rw [List.mem_filter, decide_eq_true_eq]
  removeEdgesFrom edges pairs h := removesEach_removeFirst h
  descendants := mem_beyond
  ancestors := mem_beyond_flipped

/-- A node of the small graph. -/
def smallNode (durableId : String) : SymbolNode :=
  ⟨durableId, durableId, durableId, .function, "m.py", ⟨⟨1, 1⟩, ⟨1, 1⟩⟩, none, none, ∅, false, none⟩

/-- An edge of the small graph. -/
def smallEdge (kind : EdgeKind) : EdgeData := ⟨kind, none, none, none⟩

/-- The outer function contains the inner one and calls it, the inner one calls
the outer one, and a third one calls the outer one. -/
def smallDelta : CodeDelta where
  revision := some 1
  nodesUpserted := [smallNode "outer", smallNode "inner", smallNode "caller"]
  edgesAdded := [("outer", "inner", smallEdge .contains), ("outer", "inner", smallEdge .references),
    ("inner", "outer", smallEdge .references), ("caller", "outer", smallEdge .references)]

/-- The calls on the small graph: a query, and an edge after it. -/
def smallRun : List Operation :=
  [.applyCodeDelta smallDelta, .transitiveDependents "inner" none,
    .addEdge ("inner", "caller", smallEdge .defines)]

/-- The small graph. -/
def smallGraph : CodeGraph := run (fun g op => Operation.run firstEdges g op) CodeGraph.new smallRun

/-- The caller is a dependent of the inner function, by a call that has a
containment beside it. -/
theorem caller_depends_on_inner :
    "caller" ∈ (smallGraph.transitiveDependents firstEdges "inner" none).1 ∧
      Relation.TransGen (fun a b => a ∈ smallGraph.dependents firstEdges b none) "caller"
        "inner" := by
  have hin : "caller" ∈ (smallGraph.transitiveDependents firstEdges "inner" none).1 := by
    decide +kernel
  have hclosure := (transitive_eq_closure firstEdges_documented smallRun "inner" none).1
  exact ⟨hin, ((hclosure "caller").mp hin).2⟩

end Tyo3.TransitiveQueries
