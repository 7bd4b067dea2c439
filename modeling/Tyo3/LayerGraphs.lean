import Tyo3.AffectedClosure
import Tyo3.CodeLayerParity
import Tyo3.JoinedEdges
import Tyo3.LayerDeltas
import Tyo3.TransitiveQueries

/-!
# Code graphs of a layer

The code graph of a session is filled from the full delta of the layer: every
node and edge is read back from the texts it is sent as. It has the nodes of
the layer, and the edges that join two of them. Where all edges do, the
transitive dependents that the graph finds by walking backwards are what the
affected closure of the layer finds by its index.
-/

namespace Tyo3.LayerGraphs

open AffectedClosure CodeGraphs CodeLayer CodeLayerBuilder CodeLayerFiles CodeLayerParity
  FiniteMaps JoinedEdges LayerDeltas LayerOrder ParallelEdges TransitiveQueries Worklists

open Tyo3.Configuration (entries)

open DerivedLayers (symbolKindStr)

/-! ## Reading a delta -/

/-- A symbol kind by its text. -/
def symbolKind : String → Option SymbolKindDto
  | "module" => some .module_
  | "class_" => some .class_
  | "function" => some .function
  | "method" => some .method
  | "constructor" => some .constructor
  | "variable" => some .variable_
  | "constant" => some .constant
  | "field" => some .field
  | "parameter" => some .parameter
  | "property" => some .property
  | "type_parameter" => some .typeParameter
  | "import_" => some .import_
  | "unknown" => some .unknown
  | _ => none

/-- An edge kind by its text. -/
def edgeKind : String → Option CodeGraphs.EdgeKind
  | "defines" => some .defines
  | "contains" => some .contains
  | "references" => some .references
  | "imports" => some .imports
  | "inherits" => some .inherits
  | "overrides" => some .overrides
  | "type_of" => some .typeOf
  | "returns" => some .returns
  | "instantiates" => some .instantiates
  | _ => none

/-- A role by its text. -/
def referenceRole : String → Option ReferenceRole
  | "read" => some .read
  | "write" => some .write
  | "import" => some .import_
  | "definition" => some .definition
  | "other" => some .other
  | _ => none

/-- Positions count from one, and a range does not end before its start. -/
def ValidRange (r : Range) : Prop :=
  1 ≤ r.start.line ∧ 1 ≤ r.start.column ∧ 1 ≤ r.stop.line ∧ 1 ≤ r.stop.column ∧
    (r.start.line < r.stop.line ∨
      r.start.line = r.stop.line ∧ r.start.column ≤ r.stop.column)

instance (r : Range) : Decidable (ValidRange r) := inferInstanceAs (Decidable (_ ∧ _))

/-- Validate a range. -/
def validate (r : Range) : Option Range := if ValidRange r then some r else none

/-- Validate a range, if there is one. -/
def coerceRange : Option Range → Option (Option Range)
  | none => some none
  | some r => (validate r).map some

/-- Read a node. -/
def symbolNodeFromDto (n : CodeNodeDto) : Option SymbolNode := do
  let kind ← symbolKind n.kind
  let range ← validate n.range
  let selectionRange ← coerceRange n.nameRange
  some
    { durableId := n.durableId
      name := n.name
      qualifiedName := n.qualifiedName
      kind := kind
      file := n.file
      range := range
      selectionRange := selectionRange
      contentHash := n.contentHash
      contentHashes := n.contentHashes
      external := n.external
      package := n.package }

/-- Read a role; the empty text is none. -/
def readRole : Option String → Option (Option ReferenceRole)
  | none => some none
  | some text => if text = "" then some none else (referenceRole text).map some

/-- Read an edge with the ids of its nodes. -/
def codeEdge (e : CodeEdgeDto) : Option (String × String × EdgeData) := do
  let kind ← edgeKind e.kind
  let range ← coerceRange e.range
  let role ← readRole e.role
  some (e.sourceId, e.destinationId, ⟨kind, e.file, range, role⟩)

/-- Read a delta. -/
def readDelta (d : CodeDeltaDto) : Option CodeDelta := do
  let nodes ← d.nodesUpserted.mapM symbolNodeFromDto
  let edges ← d.edgesAdded.mapM codeEdge
  some ⟨some d.revision, nodes, edges⟩

/-- The code graph of a layer, unless something in it cannot be read. -/
def graphOf (layer : Layer) (revision : ℕ) : Option CodeGraph :=
  (readDelta (fullCodeDelta layer revision)).map CodeGraph.new.applyCodeDelta

/-! ## What is read -/

/-- The kind of a layer edge in the graph. -/
def graphKind : CodeLayer.EdgeKind → CodeGraphs.EdgeKind
  | .defines => .defines
  | .contains => .contains
  | .references => .references
  | .imports => .imports
  | .inherits => .inherits
  | .overrides => .overrides

/-- The symbol of a node. -/
def symbolOf (id : String) (node : NodeData) : SymbolNode where
  durableId := id
  name := node.name
  qualifiedName := node.qualifiedName
  kind := node.kind
  file := node.file
  range := node.range
  selectionRange := node.nameRange
  contentHash := node.contentHash
  contentHashes := node.contentHashes
  external := node.external
  package := node.package

/-- The edge of the graph for an edge of the layer. -/
def arcOf (e : Edge) : String × String × EdgeData :=
  (e.source, e.target, ⟨graphKind e.kind, e.file, e.range, e.role⟩)

/-- Every range of the layer can be read. -/
structure Readable (layer : Layer) : Prop where
  /-- Ranges of nodes. -/
  nodes : ∀ id node, layer.nodes.lookup id = some node →
    ValidRange node.range ∧ ∀ r, node.nameRange = some r → ValidRange r
  /-- Ranges of edges. -/
  edges : ∀ e ∈ layer.edges, ∀ r, e.range = some r → ValidRange r

theorem symbolKind_str (kind : SymbolKindDto) : symbolKind (symbolKindStr kind) = some kind := by
  cases kind <;> rfl

theorem edgeKind_str (kind : CodeLayer.EdgeKind) :
    edgeKind (edgeKindStr kind) = some (graphKind kind) := by
  cases kind <;> rfl

theorem readRole_str (role : Option ReferenceRole) : readRole (role.map roleStr) = some role := by
  cases role with
  | none => rfl
  | some role => cases role <;> rfl

theorem coerceRange_eq {range : Option Range} :
    coerceRange range = if ∀ r, range = some r → ValidRange r then some range else none := by
  cases range with
  | none => exact (if_pos fun r hr => by cases hr).symm
  | some r =>
    have hone : (∀ r', some r = some r' → ValidRange r') ↔ ValidRange r := by
      constructor
      · exact fun hall => hall r rfl
      · rintro hr _ ⟨⟩
        exact hr
    unfold coerceRange validate
    by_cases hr : ValidRange r
    · rw [if_pos (hone.mpr hr)]
      dsimp only
      rw [if_pos hr]
      rfl
    · rw [if_neg fun hall => hr (hone.mp hall)]
      dsimp only
      rw [if_neg hr]
      rfl

/-- A node is read back when its ranges are valid. -/
theorem symbolNodeFromDto_nodeDto (id : String) (node : NodeData) :
    symbolNodeFromDto (nodeDto id node) =
      if ValidRange node.range ∧ ∀ r, node.nameRange = some r → ValidRange r then
        some (symbolOf id node)
      else none := by
  unfold symbolNodeFromDto nodeDto
  dsimp only
  rw [symbolKind_str, coerceRange_eq]
  unfold validate
  by_cases hrange : ValidRange node.range
  · by_cases hname : ∀ r, node.nameRange = some r → ValidRange r
    · rw [if_pos hrange, if_pos hname, if_pos ⟨hrange, hname⟩]
      rfl
    · rw [if_pos hrange, if_neg hname, if_neg (not_and_of_not_right _ hname)]
      rfl
  · rw [if_neg hrange, if_neg (not_and_of_not_left _ hrange)]
    rfl

/-- An edge is read back when its range is valid. -/
theorem codeEdge_edgeDto (e : Edge) : codeEdge (edgeDto e) =
    if ∀ r, e.range = some r → ValidRange r then some (arcOf e) else none := by
  unfold codeEdge edgeDto
  dsimp only
  rw [edgeKind_str, coerceRange_eq, readRole_str]
  by_cases hrange : ∀ r, e.range = some r → ValidRange r
  · rw [if_pos hrange, if_pos hrange]
    rfl
  · rw [if_neg hrange, if_neg hrange]
    rfl

/-- A list is read when each of its members is. -/
theorem mapM_ite {α β γ : Type*} {read : β → Option γ} {send : α → β} {ok : α → Prop}
    [DecidablePred ok] {value : α → γ}
    (hread : ∀ x, read (send x) = if ok x then some (value x) else none) (xs : List α) :
    (xs.map send).mapM read = if ∀ x ∈ xs, ok x then some (xs.map value) else none := by
  induction xs with
  | nil => rfl
  | cons x xs ih =>
    rw [List.map_cons, List.mapM_cons, hread, ih]
    by_cases hx : ok x
    · by_cases hxs : ∀ y ∈ xs, ok y
      · rw [if_pos hx, if_pos hxs, if_pos (List.forall_mem_cons.mpr ⟨hx, hxs⟩)]
        rfl
      · rw [if_pos hx, if_neg hxs, if_neg fun h => hxs (List.forall_mem_cons.mp h).2]
        rfl
    · rw [if_neg hx, if_neg fun h => hx (List.forall_mem_cons.mp h).1]
      rfl

/-- The full delta sends every node and edge. -/
theorem fullCodeDelta_lists (layer : Layer) (revision : ℕ) :
    (fullCodeDelta layer revision).nodesUpserted =
        (entries layer.nodes).map (fun entry => nodeDto entry.1 entry.2) ∧
      (fullCodeDelta layer revision).edgesAdded =
        (HashOrder.increasing.order layer.edges).map edgeDto := by
  constructor
  · have hsent : ∀ entry : String × NodeData, sentNode Layer.new entry.1 entry.2 =
        some (nodeDto entry.1 entry.2) := by
      intro entry
      refine if_pos (changeOf_eq_upserted_iff.mpr fun p hp => ?_)
      rw [Layer.new, Finmap.lookup_empty] at hp
      cases hp
    unfold fullCodeDelta diffFrom
    dsimp only
    simp only [hsent]
    exact congrFun (List.filterMap_eq_map (f := fun entry : String × NodeData =>
      nodeDto entry.1 entry.2)) _
  · have hall : layer.edges \ Layer.new.edges = layer.edges := Finset.sdiff_empty
    unfold fullCodeDelta diffFrom
    dsimp only
    rw [hall]

/-- The nodes and edges of a layer as the graph adds them. -/
def layerDelta (layer : Layer) (revision : ℕ) : CodeDelta where
  revision := some revision
  nodesUpserted := (entries layer.nodes).map fun entry => symbolOf entry.1 entry.2
  edgesAdded := (HashOrder.increasing.order layer.edges).map arcOf

theorem mem_entries {V : Type*} {m : FMap String V} {id : String} {v : V} :
    (id, v) ∈ entries m ↔ m.lookup id = some v := by
  unfold entries
  simp only [List.mem_filterMap, HashOrder.mem_order, Option.map_eq_some_iff, Prod.mk.injEq]
  constructor
  · rintro ⟨_, -, _, hlookup, rfl, rfl⟩
    exact hlookup
  · exact fun hlookup => ⟨id, (mem_keys_iff m id).mpr ⟨v, hlookup⟩, v, hlookup, rfl, rfl⟩

/-- The full delta is read exactly when every range can be. -/
theorem readDelta_fullCodeDelta (layer : Layer) (revision : ℕ) :
    (Readable layer → readDelta (fullCodeDelta layer revision) = some (layerDelta layer revision)) ∧
      (¬ Readable layer → readDelta (fullCodeDelta layer revision) = none) := by
  classical
  obtain ⟨hnodes, hedges⟩ := fullCodeDelta_lists layer revision
  have hreadNodes := mapM_ite (fun entry : String × NodeData =>
    symbolNodeFromDto_nodeDto entry.1 entry.2) (entries layer.nodes)
  have hreadEdges := mapM_ite codeEdge_edgeDto (HashOrder.increasing.order layer.edges)
  have hiff : Readable layer ↔
      (∀ entry ∈ entries layer.nodes, ValidRange entry.2.range ∧
        ∀ r, entry.2.nameRange = some r → ValidRange r) ∧
      ∀ e ∈ HashOrder.increasing.order layer.edges, ∀ r, e.range = some r → ValidRange r := by
    constructor
    · exact fun h => ⟨fun entry hentry => h.nodes entry.1 entry.2 (mem_entries.mp hentry),
        fun e he => h.edges e ((HashOrder.mem_order _ _ _).mp he)⟩
    · exact fun h => ⟨fun id node hnode => h.1 (id, node) (mem_entries.mpr hnode),
        fun e he => h.2 e ((HashOrder.mem_order _ _ _).mpr he)⟩
  unfold readDelta
  rw [hnodes, hedges, hreadNodes, hreadEdges, hiff]
  constructor
  · rintro ⟨hall, hall'⟩
    rw [if_pos hall, if_pos hall']
    rfl
  · intro hnot
    by_cases hall : ∀ entry ∈ entries layer.nodes, ValidRange entry.2.range ∧
        ∀ r, entry.2.nameRange = some r → ValidRange r
    · rw [if_pos hall, if_neg fun hall' => hnot ⟨hall, hall'⟩]
      rfl
    · rw [if_neg hall]
      rfl

/-- So is the graph. -/
theorem graphOf_eq_some {layer : Layer} {revision : ℕ} {g : CodeGraph} :
    graphOf layer revision = some g ↔
      Readable layer ∧ g = CodeGraph.new.applyCodeDelta (layerDelta layer revision) := by
  obtain ⟨hread, hnone⟩ := readDelta_fullCodeDelta layer revision
  unfold graphOf
  by_cases h : Readable layer
  · rw [hread h, Option.map_some, Option.some_inj, eq_comm, and_iff_right h]
  · rw [hnone h]
    exact iff_of_false (by simp) fun hg => h hg.1

/-! ## Nodes and edges of the graph -/

/-- A node is looked up as the first one that was added with its id. -/
theorem symbol_addNode {g : CodeGraph} (hi : Indexed g) (node : SymbolNode) (id : String) :
    (g.addNode node).symbol id =
      (g.symbol id).or (if node.durableId = id then some node else none) := by
  have hlookup : ∀ {idx}, g.idToIndex.lookup id = some idx → idx < g.nodes.length := by
    intro idx hidx
    by_contra hge
    have hsome := (hi.index id idx).mp hidx
    rw [List.getElem?_eq_none (by omega)] at hsome
    cases hsome
  unfold CodeGraph.symbol CodeGraph.addNode
  split
  · rename_i idx hknown
    by_cases hid : node.durableId = id
    · have hsome := (hi.index _ idx).mp hknown
      rw [hid] at hknown
      obtain ⟨found, hfound, -⟩ := Option.map_eq_some_iff.mp hsome
      rw [hknown, Option.bind_some, hfound, Option.some_or]
    · rw [if_neg hid, Option.or_none]
  · rename_i hnew
    dsimp only
    rw [lookup_insert_ite]
    by_cases hid : id = node.durableId
    · rw [if_pos hid, if_pos hid.symm, hid, hnew]
      simp
    · rw [if_neg hid, if_neg (Ne.symm hid), Option.or_none]
      cases hidx : g.idToIndex.lookup id with
      | none => rfl
      | some idx =>
        rw [Option.bind_some, Option.bind_some, List.getElem?_append_left (hlookup hidx)]

theorem Indexed.foldl_addNode (nodes : List SymbolNode) {g : CodeGraph} (hi : Indexed g) :
    Indexed (nodes.foldl CodeGraph.addNode g) := by
  induction nodes generalizing g with
  | nil => exact hi
  | cons node nodes ih => exact ih (hi.addNode node)

theorem symbol_foldl_addNode (nodes : List SymbolNode) {g : CodeGraph} (hi : Indexed g)
    (id : String) : (nodes.foldl CodeGraph.addNode g).symbol id =
      (g.symbol id).or (nodes.find? fun node => node.durableId = id) := by
  induction nodes generalizing g with
  | nil => exact Option.or_none.symm
  | cons node nodes ih =>
    rw [List.foldl_cons, ih (hi.addNode node), symbol_addNode hi, Option.or_assoc,
      List.find?_cons]
    by_cases hid : node.durableId = id
    · simp [hid]
    · simp [hid]

/-- Adding nodes adds no edges. -/
theorem edges_foldl_addNode (nodes : List SymbolNode) (g : CodeGraph) :
    (nodes.foldl CodeGraph.addNode g).edges = g.edges := by
  induction nodes generalizing g with
  | nil => rfl
  | cons node nodes ih =>
    rw [List.foldl_cons, ih]
    unfold CodeGraph.addNode
    split <;> rfl

/-- Adding edges adds those between known nodes. -/
theorem foldl_addEdge (edges : List (String × String × EdgeData)) (g : CodeGraph) :
    (edges.foldl CodeGraph.addEdge g).nodes = g.nodes ∧
      (edges.foldl CodeGraph.addEdge g).idToIndex = g.idToIndex ∧
      ∀ arc, arc ∈ (edges.foldl CodeGraph.addEdge g).edges ↔ arc ∈ g.edges ∨
        ∃ e ∈ edges, g.idToIndex.lookup e.1 = some arc.1 ∧
          g.idToIndex.lookup e.2.1 = some arc.2.1 ∧ e.2.2 = arc.2.2 := by
  induction edges generalizing g with
  | nil => exact ⟨rfl, rfl, fun arc => by simp⟩
  | cons e edges ih =>
    have hone : (g.addEdge e).nodes = g.nodes ∧ (g.addEdge e).idToIndex = g.idToIndex ∧
        ∀ arc, arc ∈ (g.addEdge e).edges ↔ arc ∈ g.edges ∨
          g.idToIndex.lookup e.1 = some arc.1 ∧ g.idToIndex.lookup e.2.1 = some arc.2.1 ∧
            e.2.2 = arc.2.2 := by
      unfold CodeGraph.addEdge
      cases hsource : g.idToIndex.lookup e.1 with
      | none => exact ⟨rfl, rfl, fun arc => (or_iff_left fun h => by cases h.1).symm⟩
      | some source =>
        cases htarget : g.idToIndex.lookup e.2.1 with
        | none => exact ⟨rfl, rfl, fun arc => (or_iff_left fun h => by cases h.2.1).symm⟩
        | some target =>
          refine ⟨rfl, rfl, fun arc => ?_⟩
          rw [List.mem_append, List.mem_singleton, Option.some_inj, Option.some_inj]
          refine or_congr_right ⟨?_, ?_⟩
          · rintro rfl
            exact ⟨rfl, rfl, rfl⟩
          · rintro ⟨hfrom, hto, hdata⟩
            exact Prod.ext hfrom.symm (Prod.ext hto.symm hdata.symm)
    obtain ⟨hnodes, hindex, harcs⟩ := ih (g.addEdge e)
    rw [List.foldl_cons]
    refine ⟨hnodes.trans hone.1, hindex.trans hone.2.1, fun arc => ?_⟩
    rw [harcs, hone.2.2, hone.2.1, List.exists_mem_cons_iff, or_assoc]

/-- A new graph with the nodes and edges of a delta. -/
theorem applyCodeDelta_new (delta : CodeDelta) :
    let filled := delta.edgesAdded.foldl CodeGraph.addEdge
      (delta.nodesUpserted.foldl CodeGraph.addNode CodeGraph.new)
    (CodeGraph.new.applyCodeDelta delta).nodes = filled.nodes ∧
      (CodeGraph.new.applyCodeDelta delta).idToIndex = filled.idToIndex ∧
      (CodeGraph.new.applyCodeDelta delta).edges = filled.edges := ⟨rfl, rfl, rfl⟩

section Graph

variable (layer : Layer) (revision : ℕ)

/-- The graph that a readable layer gives. -/
theorem indexed_graph : Indexed (CodeGraph.new.applyCodeDelta (layerDelta layer revision)) :=
  Indexed.applyCodeDelta _ _

/-- The graph has the nodes of the layer. -/
theorem symbol_graph (id : String) :
    (CodeGraph.new.applyCodeDelta (layerDelta layer revision)).symbol id =
      (layer.nodes.lookup id).map (symbolOf id) := by
  obtain ⟨hnodes, hindex, -⟩ := applyCodeDelta_new (layerDelta layer revision)
  obtain ⟨hkeepNodes, hkeepIndex, -⟩ := foldl_addEdge (layerDelta layer revision).edgesAdded
    ((layerDelta layer revision).nodesUpserted.foldl CodeGraph.addNode CodeGraph.new)
  have hempty : CodeGraph.new.symbol id = none := by
    unfold CodeGraph.symbol CodeGraph.new
    rw [Finmap.lookup_empty]
    rfl
  have hfound : ((layerDelta layer revision).nodesUpserted.find? fun node => node.durableId = id) =
      (layer.nodes.lookup id).map (symbolOf id) := by
    have hkeyed : ∀ k v w, some (symbolOf k v) = some w → w.durableId = k := by
      rintro k v w ⟨⟩
      rfl
    have hsame : (layerDelta layer revision).nodesUpserted =
        (entries layer.nodes).filterMap fun entry => some (symbolOf entry.1 entry.2) :=
      (congrFun (List.filterMap_eq_map (f := fun entry : String × NodeData =>
        symbolOf entry.1 entry.2)) _).symm
    rw [hsame]
    refine (find?_entries hkeyed id).trans ?_
    cases layer.nodes.lookup id <;> rfl
  have hfilled := symbol_foldl_addNode (layerDelta layer revision).nodesUpserted indexed_new id
  rw [hempty, Option.none_or, hfound] at hfilled
  rw [← hfilled]
  unfold CodeGraph.symbol
  rw [hnodes, hindex, hkeepNodes, hkeepIndex]

/-- A node of the layer has a number. -/
theorem known_graph (id : String) :
    (∃ idx, (CodeGraph.new.applyCodeDelta (layerDelta layer revision)).idToIndex.lookup id =
      some idx) ↔ layer.hasNode id = true := by
  have hi := indexed_graph layer revision
  have hsymbol := symbol_graph layer revision id
  unfold CodeGraph.symbol at hsymbol
  rw [hasNode_iff]
  constructor
  · rintro ⟨idx, hidx⟩
    obtain ⟨found, hfound, -⟩ := Option.map_eq_some_iff.mp ((hi.index id idx).mp hidx)
    rw [hidx, Option.bind_some, hfound] at hsymbol
    obtain ⟨node, hnode, -⟩ := Option.map_eq_some_iff.mp hsymbol.symm
    exact ⟨node, hnode⟩
  · rintro ⟨node, hnode⟩
    rw [hnode, Option.map_some] at hsymbol
    obtain ⟨idx, hidx, -⟩ := Option.bind_eq_some_iff.mp hsymbol
    exact ⟨idx, hidx⟩

/-- The edges of the graph are those of the layer between numbered nodes. -/
theorem mem_edges_graph (arc : Arc ℕ EdgeData) :
    let g := CodeGraph.new.applyCodeDelta (layerDelta layer revision)
    arc ∈ g.edges ↔ ∃ e ∈ layer.edges, g.idToIndex.lookup e.source = some arc.1 ∧
      g.idToIndex.lookup e.target = some arc.2.1 ∧ (arcOf e).2.2 = arc.2.2 := by
  intro g
  obtain ⟨-, hindex, hedges⟩ := applyCodeDelta_new (layerDelta layer revision)
  obtain ⟨-, hkeep, harcs⟩ := foldl_addEdge (layerDelta layer revision).edgesAdded
    ((layerDelta layer revision).nodesUpserted.foldl CodeGraph.addNode CodeGraph.new)
  have hnone : ((layerDelta layer revision).nodesUpserted.foldl CodeGraph.addNode
      CodeGraph.new).edges = [] := edges_foldl_addNode _ _
  have hsent : ∀ edge, edge ∈ (layerDelta layer revision).edgesAdded ↔
      ∃ e ∈ layer.edges, arcOf e = edge := by
    intro edge
    unfold layerDelta
    simp only [List.mem_map, HashOrder.mem_order]
  show arc ∈ (CodeGraph.new.applyCodeDelta (layerDelta layer revision)).edges ↔ _
  rw [hedges, harcs, hnone, or_iff_right List.not_mem_nil, hindex, hkeep]
  constructor
  · rintro ⟨edge, hedge, hfrom, hto, hdata⟩
    obtain ⟨e, he, rfl⟩ := (hsent edge).mp hedge
    exact ⟨e, he, hfrom, hto, hdata⟩
  · rintro ⟨e, he, hfrom, hto, hdata⟩
    exact ⟨arcOf e, (hsent _).mpr ⟨e, he, rfl⟩, hfrom, hto, hdata⟩

/-- A symbol uses another one in the graph when an edge of the layer joins
them and both have nodes. -/
theorem uses_graph (kinds : Finset CodeGraphs.EdgeKind) (a b : String) :
    Uses (CodeGraph.new.applyCodeDelta (layerDelta layer revision)) kinds a b ↔
      layer.hasNode a = true ∧ layer.hasNode b = true ∧
        ∃ e ∈ layer.edges, e.source = a ∧ e.target = b ∧ graphKind e.kind ∈ kinds := by
  have hi := indexed_graph layer revision
  have hmem := mem_edges_graph layer revision
  rw [← known_graph layer revision a, ← known_graph layer revision b]
  unfold Uses
  constructor
  · rintro ⟨source, target, hsource, htarget, arc, harc, hends, hkind⟩
    obtain ⟨e, he, hfrom, hto, hdata⟩ := (hmem arc).mp harc
    refine ⟨⟨source, hsource⟩, ⟨target, htarget⟩, e, he, ?_, ?_, ?_⟩
    · by_contra hne
      exact (hi.ne_iff hfrom hsource).mp hne (congrArg Prod.fst hends)
    · by_contra hne
      exact (hi.ne_iff hto htarget).mp hne (congrArg Prod.snd hends)
    · rwa [← hdata] at hkind
  · rintro ⟨⟨source, hsource⟩, ⟨target, htarget⟩, e, he, rfl, rfl, hkind⟩
    exact ⟨source, target, hsource, htarget, (source, target, (arcOf e).2.2),
      (hmem _).mpr ⟨e, he, hsource, htarget, rfl⟩, rfl, hkind⟩

end Graph

/-! ## The affected closure and the graph -/

/-- The kinds of dependencies are the same on both sides. -/
theorem graphKind_mem (kind : CodeLayer.EdgeKind) :
    graphKind kind ∈ DEPENDENCY_EDGE_KINDS ↔ kind.isDependency = true := by
  cases kind <;> decide

/-- In a layer whose edges join its nodes, the sources that are listed for a
symbol are those that use it in the graph. -/
theorem mem_sourcesOf_iff_uses {layer : Layer} (h : Joined layer) (revision : ℕ) (a b : String) :
    a ∈ layer.sourcesOf b ↔
      Uses (CodeGraph.new.applyCodeDelta (layerDelta layer revision)) DEPENDENCY_EDGE_KINDS
        a b := by
  rw [h.index.sourcesOf_eq, ReverseDependencies.mem_dependents, uses_graph]
  constructor
  · rintro ⟨e, he, hkind, rfl, rfl⟩
    exact ⟨(h.ends e he).1, (h.ends e he).2, e, he, rfl, rfl, (graphKind_mem e.kind).mpr hkind⟩
  · rintro ⟨-, -, e, he, hsource, htarget, hkind⟩
    exact ⟨e, he, (graphKind_mem e.kind).mp hkind, htarget, hsource⟩

/-- The affected closure holds the seeds and what leads to them in the graph. -/
theorem mem_affectedClosure_iff {layer : Layer} (h : Joined layer) (prev : Layer) (revision : ℕ)
    {seeds : Finset String} {x : String} :
    x ∈ layer.affectedClosureWithDeleted prev seeds ∅ ↔ ∃ seed ∈ seeds, Relation.ReflTransGen
      (Uses (CodeGraph.new.applyCodeDelta (layerDelta layer revision)) DEPENDENCY_EDGE_KINDS)
      x seed := by
  have hnext : (fun a b => b ∈ dependentsOf layer prev ∅ a) = Function.swap
      (Uses (CodeGraph.new.applyCodeDelta (layerDelta layer revision)) DEPENDENCY_EDGE_KINDS) := by
    funext a b
    have hsources := mem_sourcesOf_iff_uses h revision b a
    unfold dependentsOf Function.swap
    rw [← propext hsources, Set.mem_ofPred_eq]
    exact propext (or_iff_left fun hdeleted => Finset.notMem_empty a hdeleted.1)
  have hmem := mem_isLeast_iff (isLeast_affectedClosure layer prev seeds ∅) (x := x)
  rw [hnext] at hmem
  rw [← Finset.mem_coe, hmem]
  simp only [Relation.reflTransGen_swap, Finset.mem_coe]

/-- The set of entities that a commit announces as affected, and the impact
that the code graph of the layer reports, agree: the impact of an id is its
affected closure without the id, and the affected closure of some seeds holds
them and their impacts. The layer is one of a full build over any answers of
the engine, or of a run of scoped builds. -/
theorem affectedClosure_eq_impact {rx : Rustworkx} (hrx : rx.Documented) {out : Outputs}
    {layer : Layer} (hlayer : layer = build out ∨ ScopedRun out layer) {revision : ℕ}
    {g : CodeGraph} (hg : graphOf layer revision = some g) (prev : Layer) :
    (∀ id, (g.transitiveDependents rx id none).1 =
      (layer.affectedClosureWithDeleted prev {id} ∅).erase id) ∧
    ∀ seeds, layer.affectedClosureWithDeleted prev seeds ∅ =
      seeds ∪ seeds.biUnion fun id => (g.transitiveDependents rx id none).1 := by
  have hbuild : layer = build out := hlayer.elim id eq_build_of_scopedRun
  have hjoined : Joined layer := hbuild ▸ joined_build out
  obtain ⟨-, rfl⟩ := graphOf_eq_some.mp hg
  have himpact : ∀ x id, x ∈ ((CodeGraph.new.applyCodeDelta
      (layerDelta layer revision)).transitiveDependents rx id none).1 ↔ _ := fun x id =>
    mem_transitiveDependents hrx (indexed_graph layer revision) (cached_of_empty rfl)
  have hclosure : ∀ x seeds, x ∈ layer.affectedClosureWithDeleted prev seeds ∅ ↔ _ :=
    fun x seeds => mem_affectedClosure_iff hjoined prev revision
  constructor
  · intro id
    ext x
    rw [himpact, Finset.mem_erase, hclosure]
    simp only [Finset.mem_singleton, exists_eq_left]
    rw [Relation.reflTransGen_iff_eq_or_transGen]
    exact and_congr_right fun hne => (or_iff_right fun heq => hne heq.symm).symm
  · intro seeds
    ext x
    simp only [Finset.mem_union, Finset.mem_biUnion, himpact]
    rw [hclosure]
    constructor
    · rintro ⟨seed, hseed, hpath⟩
      by_cases hx : x = seed
      · exact .inl (hx ▸ hseed)
      · rcases Relation.reflTransGen_iff_eq_or_transGen.mp hpath with heq | htrans
        · exact absurd heq.symm hx
        · exact .inr ⟨seed, hseed, hx, htrans⟩
    · rintro (hx | ⟨seed, hseed, -, hpath⟩)
      · exact ⟨x, hx, .refl⟩
      · exact ⟨seed, hseed, hpath.to_reflTransGen⟩

/-- A change of the function affects the module that reads it. -/
theorem affectedClosure_callerOf : ∃ g, graphOf (build (callerOf "h1")) 1 = some g ∧
    "<module>b.py" ∈ (g.transitiveDependents firstEdges "e1" none).1 ∧
    (build (callerOf "h1")).affectedClosureWithDeleted Layer.new {"e1"} ∅ =
      {"e1"} ∪ ({"e1"} : Finset String).biUnion fun id =>
        (g.transitiveDependents firstEdges id none).1 := by
  have hread : (graphOf (build (callerOf "h1")) 1).isSome = true := by decide +kernel
  obtain ⟨g, hg⟩ := Option.isSome_iff_exists.mp hread
  obtain ⟨himpact, hclosure⟩ := affectedClosure_eq_impact firstEdges_documented (.inl rfl) hg
    Layer.new
  refine ⟨g, hg, ?_, hclosure {"e1"}⟩
  rw [himpact]
  decide +kernel

end Tyo3.LayerGraphs
