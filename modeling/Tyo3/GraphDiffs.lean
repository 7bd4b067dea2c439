import Tyo3.LayerGraphs
import Tyo3.NumberedCopies

/-!
# Differences of code graphs

The difference of two code graphs lists nodes by their ids, and edges by the
ids they join and what they carry, parallel edges one by one. It is exact: what
it removes and adds makes the edges of the one graph those of the other one,
copy by copy. Between the graphs of two layers it lists what the delta of the
layers lists, apart from nodes that are sent again.
-/

namespace Tyo3.GraphDiffs

open CodeGraphs CodeLayer CodeLayerBuilder CodeLayerFiles CodeLayerParity FiniteMaps JoinedEdges
  LayerDeltas LayerGraphs NumberedCopies Runs TransitiveQueries

open Tyo3.Configuration (entries)

/-! ## The difference -/

/-- One edge of a difference. -/
structure EdgeDiff where
  /-- Id of the source. -/
  sourceId : String
  /-- Id of the target. -/
  targetId : String
  /-- What the edge carries. -/
  data : EdgeData
  deriving DecidableEq

/-- A structural difference between two graphs. -/
structure GraphDiff where
  /-- Nodes of the later graph only. -/
  addedNodes : List SymbolNode
  /-- Nodes of the earlier graph only. -/
  removedNodes : List SymbolNode
  /-- Edges of the later graph only. -/
  addedEdges : List EdgeDiff
  /-- Edges of the earlier graph only. -/
  removedEdges : List EdgeDiff

/-- Whether anything is listed. -/
def GraphDiff.changed (d : GraphDiff) : Bool :=
  !d.addedNodes.isEmpty || !d.removedNodes.isEmpty || !d.addedEdges.isEmpty ||
    !d.removedEdges.isEmpty

/-- A range as a tuple. -/
def rangeKey : Option Range → Option (ℕ × ℕ × ℕ × ℕ)
  | none => none
  | some r => some (r.start.line, r.start.column, r.stop.line, r.stop.column)

/-- What tells edges apart, copies aside. -/
structure EdgeKey where
  /-- Id of the source. -/
  sourceId : String
  /-- Id of the target. -/
  targetId : String
  /-- Kind of the edge. -/
  kind : CodeGraphs.EdgeKind
  /-- File of the place. -/
  file : Option String
  /-- Range of the place. -/
  range : Option (ℕ × ℕ × ℕ × ℕ)
  /-- Role of the name. -/
  role : Option ReferenceRole
  deriving DecidableEq

/-- The key of an edge, without the number of the copy. -/
def baseKey (e : EdgeDiff) : EdgeKey :=
  ⟨e.sourceId, e.targetId, e.data.kind, e.data.file, rangeKey e.data.range, e.data.role⟩

/-- The id of the node with a number. -/
def durableIdAt (g : CodeGraph) (idx : ℕ) : String :=
  ((g.nodes[idx]?).map SymbolNode.durableId).getD ""

/-- The edges of a graph with the ids of their nodes. -/
def edgeDiffs (g : CodeGraph) : List EdgeDiff :=
  g.edges.map fun e => ⟨durableIdAt g e.1, durableIdAt g e.2.1, e.2.2⟩

/-- The edges by their keys and the numbers of the copies. -/
def edgeMap (g : CodeGraph) : FMap (EdgeKey × ℕ) EdgeDiff :=
  (numbered baseKey (edgeDiffs g)).members

/-- The nodes by their ids. -/
def nodesById (g : CodeGraph) : FMap String SymbolNode :=
  g.nodes.foldl (fun nodes node => nodes.insert node.durableId node) ∅

/-- The nodes of the first graph whose ids the second one lacks, by increasing id. -/
def nodesOnlyIn (g other : CodeGraph) : List SymbolNode :=
  (HashOrder.increasing.order ((nodesById g).keys \ (nodesById other).keys)).filterMap
    (nodesById g).lookup

section Diff

/- The text of a key, and the order in which the keys of a set are met. -/
variable (repr : EdgeKey × ℕ → String) (iter : HashOrder (EdgeKey × ℕ))

/-- The edges of the first graph whose keys the second one lacks, sorted by the
texts of the keys. -/
def edgesOnlyIn (g other : CodeGraph) : List EdgeDiff :=
  (sortedBy repr iter ((edgeMap g).keys \ (edgeMap other).keys)).filterMap (edgeMap g).lookup

/-- What the later graph has and the earlier one has not, and the other way. -/
def diff (after before : CodeGraph) : GraphDiff where
  addedNodes := nodesOnlyIn after before
  removedNodes := nodesOnlyIn before after
  addedEdges := edgesOnlyIn repr iter after before
  removedEdges := edgesOnlyIn repr iter before after

end Diff

/-! ## Nodes -/

/-- The members of a sorted set come in order. -/
theorem pairwise_increasing {K : Type*} [LinearOrder K] (s : Finset K) :
    (HashOrder.increasing.order s).Pairwise (· < ·) := by
  have hle : (HashOrder.increasing.order s).Pairwise (· ≤ ·) := by
    obtain ⟨values, hnodup⟩ := s
    induction values using Quot.induction_on with
    | _ values => exact List.pairwise_insertionSort _ values
  exact hle.imp₂ (fun a b hab hne => lt_of_le_of_ne hab hne) (HashOrder.nodup_order _ s)

/-- Sorting and selecting can be exchanged. -/
theorem increasing_filter {K : Type*} [LinearOrder K] (s : Finset K) (keep : K → Prop)
    [DecidablePred keep] : HashOrder.increasing.order (s.filter keep) =
      (HashOrder.increasing.order s).filter fun k => keep k := by
  have hperm : (HashOrder.increasing.order (s.filter keep)).Perm
      ((HashOrder.increasing.order s).filter fun k => keep k) := by
    refine (List.perm_ext_iff_of_nodup (HashOrder.nodup_order _ _)
      ((HashOrder.nodup_order _ _).filter _)).mpr fun k => ?_
    rw [HashOrder.mem_order, List.mem_filter, HashOrder.mem_order, Finset.mem_filter,
      decide_eq_true_eq]
  exact hperm.eq_of_pairwise (fun a b _ _ hab hba => absurd hab (lt_asymm hba))
    (pairwise_increasing _) ((pairwise_increasing s).filter _)

section Nodes

variable {g other : CodeGraph}

/-- A node is kept under its id. -/
theorem lookup_nodesById (hi : Indexed g) {id : String} {node : SymbolNode} :
    (nodesById g).lookup id = some node ↔ node ∈ g.nodes ∧ node.durableId = id := by
  have hfilled := @lookup_foldl_insert String SymbolNode _ SymbolNode SymbolNode.durableId
    (fun node => node) g.nodes hi.nodup ∅ id node
  unfold nodesById
  rw [hfilled]
  constructor
  · rintro (⟨found, hfound, hid, rfl⟩ | ⟨-, hnone⟩)
    · exact ⟨hfound, hid⟩
    · rw [Finmap.lookup_empty] at hnone
      cases hnone
  · exact fun ⟨hmem, hid⟩ => .inl ⟨node, hmem, hid, rfl⟩

theorem mem_keys_nodesById (hi : Indexed g) {id : String} :
    id ∈ (nodesById g).keys ↔ ∃ node ∈ g.nodes, node.durableId = id := by
  rw [mem_keys_iff]
  exact exists_congr fun node => lookup_nodesById hi

/-- The nodes that are listed, and in which order. -/
theorem mem_nodesOnlyIn (hi : Indexed g) (hother : Indexed other) {node : SymbolNode} :
    node ∈ nodesOnlyIn g other ↔
      node ∈ g.nodes ∧ ∀ n ∈ other.nodes, n.durableId ≠ node.durableId := by
  unfold nodesOnlyIn
  simp only [List.mem_filterMap, HashOrder.mem_order, Finset.mem_sdiff, mem_keys_nodesById hother,
    mem_keys_nodesById hi, lookup_nodesById hi]
  constructor
  · rintro ⟨_, ⟨-, hnew⟩, hnode, rfl⟩
    exact ⟨hnode, fun n hn heq => hnew ⟨n, hn, heq⟩⟩
  · rintro ⟨hnode, hnew⟩
    exact ⟨node.durableId, ⟨⟨node, hnode, rfl⟩, fun ⟨n, hn, heq⟩ => hnew n hn heq⟩, hnode, rfl⟩

/-- The ids of the listed nodes. -/
theorem ids_nodesOnlyIn (hi : Indexed g) : (nodesOnlyIn g other).map SymbolNode.durableId =
    HashOrder.increasing.order ((nodesById g).keys \ (nodesById other).keys) := by
  unfold nodesOnlyIn
  rw [List.map_filterMap]
  refine (List.filterMap_congr fun id hid => ?_).trans List.filterMap_some
  rw [HashOrder.mem_order, Finset.mem_sdiff, mem_keys_iff] at hid
  obtain ⟨⟨node, hnode⟩, -⟩ := hid
  rw [hnode, Option.map_some, ((lookup_nodesById hi).mp hnode).2]

end Nodes

/-! ## Edges -/

/-- The key leaves nothing of an edge out. -/
theorem baseKey_injective : Function.Injective baseKey := by
  have hrange : Function.Injective rangeKey := by
    rintro (_ | ⟨⟨_, _⟩, ⟨_, _⟩⟩) (_ | ⟨⟨_, _⟩, ⟨_, _⟩⟩) heq
    · rfl
    · cases heq
    · cases heq
    · cases heq
      rfl
  rintro ⟨_, _, ⟨_, _, _, _⟩⟩ ⟨_, _, ⟨_, _, _, _⟩⟩ heq
  unfold baseKey at heq
  simp only [EdgeKey.mk.injEq, hrange.eq_iff] at heq
  obtain ⟨rfl, rfl, rfl, rfl, rfl, rfl⟩ := heq
  rfl

section Edges

variable {repr : EdgeKey × ℕ → String} {iter : HashOrder (EdgeKey × ℕ)}

/-- The listed edges are those the first graph has more of, copy by copy. -/
theorem coe_edgesOnlyIn (g other : CodeGraph) :
    (edgesOnlyIn repr iter g other : Multiset EdgeDiff) =
      (edgeDiffs g : Multiset EdgeDiff) - edgeDiffs other :=
  coe_filterMap_sdiff baseKey_injective (edgeDiffs other) (edgeDiffs g) (coe_sortedBy repr iter _)

/-- The difference does not depend on the order in which keys are met, when
their texts tell them apart. -/
theorem diff_eq_of_text (hrepr : Function.Injective repr) (iter' : HashOrder (EdgeKey × ℕ))
    (after before : CodeGraph) : diff repr iter' after before = diff repr iter after before := by
  unfold diff edgesOnlyIn
  rw [sortedBy_eq hrepr iter' iter, sortedBy_eq hrepr iter' iter]

/-- A difference lists the nodes of the one graph whose ids the other one
lacks, by increasing id, and the edges it has more of, copy by copy. -/
structure Exact (d : GraphDiff) (before after : CodeGraph) : Prop where
  /-- New nodes. -/
  addedNodes : ∀ node, node ∈ d.addedNodes ↔
    node ∈ after.nodes ∧ ∀ n ∈ before.nodes, n.durableId ≠ node.durableId
  /-- They are in order. -/
  addedInOrder : (d.addedNodes.map SymbolNode.durableId).Pairwise (· < ·)
  /-- Nodes that are gone. -/
  removedNodes : ∀ node, node ∈ d.removedNodes ↔
    node ∈ before.nodes ∧ ∀ n ∈ after.nodes, n.durableId ≠ node.durableId
  /-- They are in order. -/
  removedInOrder : (d.removedNodes.map SymbolNode.durableId).Pairwise (· < ·)
  /-- New edges. -/
  addedEdges : (d.addedEdges : Multiset EdgeDiff) =
    (edgeDiffs after : Multiset EdgeDiff) - edgeDiffs before
  /-- Edges that are gone. -/
  removedEdges : (d.removedEdges : Multiset EdgeDiff) =
    (edgeDiffs before : Multiset EdgeDiff) - edgeDiffs after

theorem exact_diff {before after : CodeGraph} (hbefore : Indexed before) (hafter : Indexed after) :
    Exact (diff repr iter after before) before after where
  addedNodes _ := mem_nodesOnlyIn hafter hbefore
  addedInOrder := (ids_nodesOnlyIn hafter).symm ▸ pairwise_increasing _
  removedNodes _ := mem_nodesOnlyIn hbefore hafter
  removedInOrder := (ids_nodesOnlyIn hbefore).symm ▸ pairwise_increasing _
  addedEdges := coe_edgesOnlyIn after before
  removedEdges := coe_edgesOnlyIn before after

theorem changed_eq_false {d : GraphDiff} : d.changed = false ↔
    (d.addedNodes = [] ∧ d.removedNodes = []) ∧ d.addedEdges = [] ∧ d.removedEdges = [] := by
  unfold GraphDiff.changed
  simp only [Bool.or_eq_false_iff, Bool.not_eq_false', List.isEmpty_iff]
  tauto

/-- Nothing is listed exactly when the ids are the same and the edges are the
same, copy by copy. What else changed of a node is not looked at. -/
theorem Exact.changed_iff {d : GraphDiff} {before after : CodeGraph} (h : Exact d before after) :
    d.changed = false ↔
      (∀ id, id ∈ before.nodes.map SymbolNode.durableId ↔
        id ∈ after.nodes.map SymbolNode.durableId) ∧
      (edgeDiffs before).Perm (edgeDiffs after) := by
  have hnone : ∀ {xs : List SymbolNode} {these others : List SymbolNode},
      (∀ node, node ∈ xs ↔ node ∈ these ∧ ∀ n ∈ others, n.durableId ≠ node.durableId) →
      (xs = [] ↔ ∀ id ∈ these.map SymbolNode.durableId,
        id ∈ others.map SymbolNode.durableId) := by
    intro xs these others hlisted
    rw [List.eq_nil_iff_forall_not_mem]
    simp only [hlisted, List.mem_map, not_and, not_forall, not_not, forall_exists_index, and_imp,
      forall_apply_eq_imp_iff₂, exists_prop]
  have hedges : d.addedEdges = [] ∧ d.removedEdges = [] ↔
      (edgeDiffs before).Perm (edgeDiffs after) := by
    rw [← Multiset.coe_eq_zero, ← Multiset.coe_eq_zero, h.addedEdges, h.removedEdges,
      sub_eq_zero_both, Multiset.coe_eq_coe]
  rw [changed_eq_false, hnone h.addedNodes, hnone h.removedNodes, hedges]
  refine and_congr_left fun _ => ?_
  exact ⟨fun hboth id => ⟨hboth.2 id, hboth.1 id⟩,
    fun hsame => ⟨fun id hid => (hsame id).mpr hid, fun id hid => (hsame id).mp hid⟩⟩

/-- For any two graphs that mutations and queries made, the difference is
exact, it turns the edges of the earlier graph into those of the later one,
and it is empty when ids and edges are the same. -/
theorem diff_patches {rx : Rustworkx} (hrx : rx.Documented) (earlier later : List Operation) :
    let before := run (fun g op => Operation.run rx g op) CodeGraph.new earlier
    let after := run (fun g op => Operation.run rx g op) CodeGraph.new later
    let d := diff repr iter after before
    Exact d before after ∧
      (edgeDiffs before : Multiset EdgeDiff) - d.removedEdges + d.addedEdges = edgeDiffs after ∧
      (d.changed = false ↔
        (∀ id, id ∈ before.nodes.map SymbolNode.durableId ↔
          id ∈ after.nodes.map SymbolNode.durableId) ∧
        (edgeDiffs before).Perm (edgeDiffs after)) := by
  intro before after d
  have hexact : Exact d before after :=
    exact_diff (run_keeps hrx earlier).1 (run_keeps hrx later).1
  refine ⟨hexact, ?_, hexact.changed_iff⟩
  rw [hexact.addedEdges, hexact.removedEdges, sub_sub_add]

end Edges

/-- A second copy of an edge of the small graph is added. -/
def copiedRun : List Operation :=
  smallRun ++ [.addEdge ("outer", "inner", smallEdge .references)]

theorem diff_patches_copy :
    (diff (fun key => key.1.sourceId) ⟨Finset.toList, Finset.coe_toList⟩
      (run (fun g op => Operation.run firstEdges g op) CodeGraph.new copiedRun)
      (run (fun g op => Operation.run firstEdges g op) CodeGraph.new smallRun)).addedEdges =
    [⟨"outer", "inner", smallEdge .references⟩] := by
  have hexact := (@diff_patches (fun key => key.1.sourceId) ⟨Finset.toList, Finset.coe_toList⟩
    firstEdges firstEdges_documented smallRun copiedRun).1
  have hmore : (edgeDiffs (run (fun g op => Operation.run firstEdges g op) CodeGraph.new
        copiedRun) : Multiset EdgeDiff) -
      edgeDiffs (run (fun g op => Operation.run firstEdges g op) CodeGraph.new smallRun) =
      {⟨"outer", "inner", smallEdge .references⟩} := by decide +kernel
  exact Multiset.coe_eq_singleton.mp (hexact.addedEdges.trans hmore)

/-! ## The graphs of two layers -/

/-- A node is found as it is kept under its id. -/
theorem symbol_eq {g : CodeGraph} (hi : Indexed g) (id : String) :
    g.symbol id = (nodesById g).lookup id := by
  ext node
  rw [lookup_nodesById hi]
  unfold CodeGraph.symbol
  constructor
  · intro hsome
    obtain ⟨idx, hidx, hnode⟩ := Option.bind_eq_some_iff.mp hsome
    have hid := (hi.index id idx).mp hidx
    rw [hnode] at hid
    exact ⟨List.mem_of_getElem? hnode, Option.some.inj hid⟩
  · rintro ⟨hmem, rfl⟩
    obtain ⟨idx, hidx⟩ := List.mem_iff_getElem?.mp hmem
    rw [(hi.index node.durableId idx).mpr (by rw [hidx, Option.map_some]), Option.bind_some, hidx]

/-- An edge that joins two known nodes is added with their ids. -/
theorem edgeDiffs_addEdge {g : CodeGraph} (hi : Indexed g) {edge : String × String × EdgeData}
    {source target : ℕ} (hsource : g.idToIndex.lookup edge.1 = some source)
    (htarget : g.idToIndex.lookup edge.2.1 = some target) :
    edgeDiffs (g.addEdge edge) = edgeDiffs g ++ [⟨edge.1, edge.2.1, edge.2.2⟩] := by
  have hid : ∀ {id idx}, g.idToIndex.lookup id = some idx → durableIdAt g idx = id := by
    intro id idx hidx
    unfold durableIdAt
    rw [(hi.index id idx).mp hidx, Option.getD_some]
  unfold edgeDiffs CodeGraph.addEdge
  rw [hsource, htarget]
  dsimp only
  rw [List.map_append, List.map_singleton]
  unfold durableIdAt at hid ⊢
  dsimp only
  rw [hid hsource, hid htarget]

theorem edgeDiffs_foldl_addEdge {edges : List (String × String × EdgeData)} {g : CodeGraph}
    (hi : Indexed g) (hknown : ∀ e ∈ edges, (∃ idx, g.idToIndex.lookup e.1 = some idx) ∧
      ∃ idx, g.idToIndex.lookup e.2.1 = some idx) :
    edgeDiffs (edges.foldl CodeGraph.addEdge g) =
      edgeDiffs g ++ edges.map fun e => ⟨e.1, e.2.1, e.2.2⟩ := by
  induction edges generalizing g with
  | nil => exact (List.append_nil _).symm
  | cons e edges ih =>
    obtain ⟨⟨⟨source, hsource⟩, ⟨target, htarget⟩⟩, hrest⟩ := List.forall_mem_cons.mp hknown
    have hindex : (g.addEdge e).idToIndex = g.idToIndex := (foldl_addEdge [e] g).2.1
    rw [List.foldl_cons, ih (hi.addEdge e) (hindex.symm ▸ hrest),
      edgeDiffs_addEdge hi hsource htarget, List.append_assoc, List.map_cons,
      List.singleton_append]

/-- An edge of a layer with what it carries in the graph. -/
def edgeDiffOf (e : Edge) : EdgeDiff := ⟨(arcOf e).1, (arcOf e).2.1, (arcOf e).2.2⟩

theorem edgeDiffOf_injective : Function.Injective edgeDiffOf := by
  have hkind : Function.Injective graphKind := by
    intro a b
    cases a <;> cases b <;> decide
  rintro ⟨_, _, _, _, _, _⟩ ⟨_, _, _, _, _, _⟩ heq
  unfold edgeDiffOf arcOf at heq
  simp only [EdgeDiff.mk.injEq, EdgeData.mk.injEq, hkind.eq_iff] at heq
  obtain ⟨rfl, rfl, rfl, rfl, rfl, rfl⟩ := heq
  rfl

section Layers

variable (layer : Layer) (revision : ℕ)

/-- The nodes of the graph of a layer. -/
theorem lookup_nodesById_graph (id : String) :
    (nodesById (CodeGraph.new.applyCodeDelta (layerDelta layer revision))).lookup id =
      (layer.nodes.lookup id).map (symbolOf id) := by
  rw [← symbol_eq (indexed_graph layer revision), symbol_graph]

theorem keys_nodesById_graph :
    (nodesById (CodeGraph.new.applyCodeDelta (layerDelta layer revision))).keys =
      layer.nodes.keys := by
  ext id
  rw [mem_keys_iff, mem_keys_iff, lookup_nodesById_graph]
  simp only [Option.map_eq_some_iff]
  constructor
  · rintro ⟨_, node, hnode, -⟩
    exact ⟨node, hnode⟩
  · rintro ⟨node, hnode⟩
    exact ⟨_, node, hnode, rfl⟩

/-- The graph of a layer whose edges join its nodes has an edge for each. -/
theorem edgeDiffs_graph (h : Joined layer) :
    edgeDiffs (CodeGraph.new.applyCodeDelta (layerDelta layer revision)) =
      (HashOrder.increasing.order layer.edges).map edgeDiffOf := by
  have hfilled : edgeDiffs (CodeGraph.new.applyCodeDelta (layerDelta layer revision)) =
      edgeDiffs ((layerDelta layer revision).edgesAdded.foldl CodeGraph.addEdge
        ((layerDelta layer revision).nodesUpserted.foldl CodeGraph.addNode CodeGraph.new)) := rfl
  have hnone : edgeDiffs ((layerDelta layer revision).nodesUpserted.foldl CodeGraph.addNode
      CodeGraph.new) = [] := by
    unfold edgeDiffs
    rw [edges_foldl_addNode]
    rfl
  obtain ⟨-, hindex, -⟩ := applyCodeDelta_new (layerDelta layer revision)
  have hsame := hindex.trans (foldl_addEdge (layerDelta layer revision).edgesAdded
    ((layerDelta layer revision).nodesUpserted.foldl CodeGraph.addNode CodeGraph.new)).2.1
  rw [hfilled, edgeDiffs_foldl_addEdge (Indexed.foldl_addNode _ indexed_new), hnone, List.nil_append]
  · unfold layerDelta edgeDiffOf
    rw [List.map_map]
    rfl
  · intro edge hedge
    unfold layerDelta at hedge
    obtain ⟨e, he, rfl⟩ := List.mem_map.mp hedge
    obtain ⟨hsource, htarget⟩ := h.ends e ((HashOrder.mem_order _ _ _).mp he)
    rw [← hsame]
    exact ⟨(known_graph layer revision _).mpr hsource, (known_graph layer revision _).mpr htarget⟩

end Layers

/-! ## The difference and the delta -/

/-- Read a sent edge. -/
def readEdge (dto : CodeEdgeDto) : Option EdgeDiff :=
  (codeEdge dto).map fun e => ⟨e.1, e.2.1, e.2.2⟩

section Delta

variable {repr : EdgeKey × ℕ → String} {iter : HashOrder (EdgeKey × ℕ)} {prev next : Layer}
  {revision revision' : ℕ}

/-- The nodes of one layer whose ids the other one lacks, as their graphs list them. -/
theorem nodesOnlyIn_graph : nodesOnlyIn (CodeGraph.new.applyCodeDelta (layerDelta next revision'))
      (CodeGraph.new.applyCodeDelta (layerDelta prev revision)) =
    ((HashOrder.increasing.order next.nodes.keys).filter fun id => id ∉ prev.nodes.keys).filterMap
      fun id => (next.nodes.lookup id).map (symbolOf id) := by
  unfold nodesOnlyIn
  rw [keys_nodesById_graph, keys_nodesById_graph, Finset.sdiff_eq_filter, increasing_filter]
  exact List.filterMap_congr fun id _ => lookup_nodesById_graph next revision' id

/-- A delta sends every node whose id is new, and it is read back. -/
theorem read_new_nodes (hread : Readable next) {rescan : Bool} :
    (((diffFrom next prev revision rescan).nodesUpserted.filter fun dto =>
        dto.durableId ∉ prev.nodes.keys).map symbolNodeFromDto) =
      (((HashOrder.increasing.order next.nodes.keys).filter fun id =>
        id ∉ prev.nodes.keys).filterMap fun id =>
          (next.nodes.lookup id).map (symbolOf id)).map some := by
  unfold diffFrom entries
  dsimp only
  rw [List.filterMap_filterMap, List.filter_filterMap, List.map_filterMap, List.filterMap_filter,
    List.map_filterMap]
  refine List.filterMap_congr fun id hid => ?_
  rw [HashOrder.mem_order, mem_keys_iff] at hid
  obtain ⟨node, hnode⟩ := hid
  rw [hnode, Option.map_some, Option.bind_some]
  by_cases hnew : id ∈ prev.nodes.keys
  · have hsent : ∀ dto, sentNode prev id node = some dto → dto.durableId = id := by
      intro dto hdto
      unfold sentNode at hdto
      split at hdto
      · cases hdto
        rfl
      · cases hdto
    cases hdto : sentNode prev id node with
    | none => simp [hnew]
    | some dto => simp [hsent dto hdto, hnew]
  · have hnone : prev.nodes.lookup id = none := by
      rwa [Finmap.mem_keys, ← Finmap.lookup_eq_none] at hnew
    have hsent : sentNode prev id node = some (nodeDto id node) := by
      unfold sentNode
      rw [if_pos (changeOf_eq_upserted_iff.mpr fun p hp => absurd (hnone ▸ hp) (by simp))]
    have hback : symbolNodeFromDto (nodeDto id node) = some (symbolOf id node) := by
      rw [symbolNodeFromDto_nodeDto, if_pos (hread.nodes id node hnode)]
    have hid : (nodeDto id node).durableId = id := rfl
    rw [hsent]
    simp [hnew, hback, hid]

/-- A delta sends every edge of the one layer that the other one has not, and
they are read back. -/
theorem read_new_edges (hread : Readable next) :
    ((HashOrder.increasing.order (next.edges \ prev.edges)).map edgeDto).map readEdge =
      ((HashOrder.increasing.order (next.edges \ prev.edges)).map edgeDiffOf).map some := by
  rw [List.map_map, List.map_map]
  refine List.map_congr_left fun e he => ?_
  have hmem : e ∈ next.edges := (Finset.mem_sdiff.mp ((HashOrder.mem_order _ _ _).mp he)).1
  rw [Function.comp_apply, Function.comp_apply]
  unfold readEdge
  rw [codeEdge_edgeDto, if_pos (hread.edges e hmem)]
  rfl

/-- The edges that the graph of one layer has more of than that of the other one. -/
theorem edgesOnlyIn_graph (hprev : Joined prev) (hnext : Joined next) :
    (edgesOnlyIn repr iter (CodeGraph.new.applyCodeDelta (layerDelta next revision'))
      (CodeGraph.new.applyCodeDelta (layerDelta prev revision))).Perm
    ((HashOrder.increasing.order (next.edges \ prev.edges)).map edgeDiffOf) := by
  have hmap : ∀ edges : Finset Edge, ((HashOrder.increasing.order edges).map edgeDiffOf :
      Multiset EdgeDiff) = (edges.map ⟨edgeDiffOf, edgeDiffOf_injective⟩).val := by
    intro edges
    rw [← Multiset.map_coe, HashOrder.exhaustive, Finset.map_val]
    rfl
  rw [← Multiset.coe_eq_coe, coe_edgesOnlyIn, edgeDiffs_graph next revision' hnext,
    edgeDiffs_graph prev revision hprev, hmap, hmap, hmap, Finset.map_sdiff, Finset.sdiff_val]

/-- Between the graphs of two layers, each one of a full build over some
answers of the engine or of a run of scoped builds, the structural difference
and the delta agree: they list the same ids as gone and the same edges as new
and as gone, and the new nodes of the difference are those the delta sends for
ids that were not there before. -/
theorem diff_eq_delta {outPrev outNext : Outputs}
    (hprev : prev = build outPrev ∨ ScopedRun outPrev prev)
    (hnext : next = build outNext ∨ ScopedRun outNext next) {before after : CodeGraph}
    (hbefore : graphOf prev revision = some before) (hafter : graphOf next revision' = some after)
    (head : ℕ) (rescan : Bool) :
    let d := diff repr iter after before
    let delta := diffFrom next prev head rescan
    d.removedNodes.map SymbolNode.durableId = delta.nodesRemoved ∧
      d.addedNodes.map some = (delta.nodesUpserted.filter fun dto =>
        dto.durableId ∉ prev.nodes.keys).map symbolNodeFromDto ∧
      (d.addedEdges.map some).Perm (delta.edgesAdded.map readEdge) ∧
      (d.removedEdges.map some).Perm (delta.edgesRemoved.map readEdge) := by
  intro d delta
  have hjoinedPrev : Joined prev := (hprev.elim id eq_build_of_scopedRun) ▸ joined_build outPrev
  have hjoinedNext : Joined next := (hnext.elim id eq_build_of_scopedRun) ▸ joined_build outNext
  obtain ⟨hreadPrev, rfl⟩ := graphOf_eq_some.mp hbefore
  obtain ⟨hreadNext, rfl⟩ := graphOf_eq_some.mp hafter
  refine ⟨?_, ?_, ?_, ?_⟩
  · show (nodesOnlyIn _ _).map SymbolNode.durableId = _
    rw [ids_nodesOnlyIn (indexed_graph prev revision), keys_nodesById_graph, keys_nodesById_graph,
      Finset.sdiff_eq_filter, increasing_filter]
    rfl
  · rw [read_new_nodes hreadNext]
    exact congrArg _ nodesOnlyIn_graph
  · show ((edgesOnlyIn repr iter _ _).map some).Perm (((HashOrder.increasing.order
      (next.edges \ prev.edges)).map edgeDto).map readEdge)
    rw [read_new_edges hreadNext]
    exact (edgesOnlyIn_graph hjoinedPrev hjoinedNext).map some
  · show ((edgesOnlyIn repr iter _ _).map some).Perm (((HashOrder.increasing.order
      (prev.edges \ next.edges)).map edgeDto).map readEdge)
    rw [read_new_edges hreadPrev]
    exact (edgesOnlyIn_graph hjoinedNext hjoinedPrev).map some

end Delta

/-- The module of the function, which it no longer declares. -/
def callerAlone : Outputs :=
  { callerOf "h1" with symbols := fun native =>
      if native = "/p/a.py" ∨ native = "/p/b.py" ∨ native = "/p/c.py" then some [] else none }

theorem diff_eq_delta_callerAlone : ∃ before after,
    graphOf (build (callerOf "h1")) 1 = some before ∧
      graphOf (build callerAlone) 2 = some after ∧
      (diff (fun key => key.1.sourceId) ⟨Finset.toList, Finset.coe_toList⟩ after
        before).removedNodes.map SymbolNode.durableId = ["e1"] := by
  obtain ⟨before, hbefore⟩ := Option.isSome_iff_exists.mp
    (show (graphOf (build (callerOf "h1")) 1).isSome by decide +kernel)
  obtain ⟨after, hafter⟩ := Option.isSome_iff_exists.mp
    (show (graphOf (build callerAlone) 2).isSome by decide +kernel)
  have hgone : (diffFrom (build callerAlone) (build (callerOf "h1")) 2 false).nodesRemoved =
      ["e1"] := by decide +kernel
  exact ⟨before, after, hbefore, hafter,
    (@diff_eq_delta (fun key => key.1.sourceId) ⟨Finset.toList, Finset.coe_toList⟩ _ _ _ _ _ _
      (.inl rfl) (.inl rfl) before after hbefore hafter 2 false).1.trans hgone⟩

end Tyo3.GraphDiffs
