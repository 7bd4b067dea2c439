import Tyo3.CodeLayer
import Tyo3.FiniteMaps
import Tyo3.ParallelEdges

/-!
# Code graphs

The code graph of a session or a snapshot is built from the code delta. Its
nodes are numbered in the order they were added, its edges are those of a
multigraph, and ids and files are looked up in indexes. The subgraph of a set
of edge kinds is kept until the next mutation. What the graph library does
is an argument, with its documented behaviour as a hypothesis.
-/

namespace Tyo3.CodeGraphs

open FiniteMaps ParallelEdges

open CodeLayer (Range ReferenceRole SymbolKindDto)

/-! ## Payloads -/

/-- A symbol in the code graph. -/
structure SymbolNode where
  /-- Durable id. -/
  durableId : String
  /-- Unqualified name. -/
  name : String
  /-- Dotted name. -/
  qualifiedName : String
  /-- Kind of the symbol. -/
  kind : SymbolKindDto
  /-- File, relative to the project. -/
  file : String
  /-- Range of the definition. -/
  range : Range
  /-- Range of the name. -/
  selectionRange : Option Range
  /-- Hash under the default profile. -/
  contentHash : Option String
  /-- Hashes by profile. -/
  contentHashes : FMap String String
  /-- Whether the node stands for something outside of the project. -/
  external : Bool
  /-- Package of such a node. -/
  package : Option String
  deriving DecidableEq, Inhabited

/-- Kinds of relationships. -/
inductive EdgeKind where
  | defines | contains | references | imports | inherits | overrides | typeOf | returns
  | instantiates
  deriving DecidableEq, Repr

/-- The kinds that make a node depend on another one. -/
def DEPENDENCY_EDGE_KINDS : Finset EdgeKind :=
  {.references, .imports, .inherits, .overrides, .typeOf, .returns, .instantiates}

/-- Payload of an edge. -/
structure EdgeData where
  /-- Kind of the edge. -/
  kind : EdgeKind
  /-- File of the place. -/
  file : Option String
  /-- Range of the place. -/
  range : Option Range
  /-- Role of the name. -/
  role : Option ReferenceRole
  deriving DecidableEq

/-- The edges of a graph between the numbers of nodes. -/
abbrev Edges := List (Arc ℕ EdgeData)

/-- A full code delta. -/
structure CodeDelta where
  /-- The revision, if it is known. -/
  revision : Option ℕ
  /-- All nodes. -/
  nodesUpserted : List SymbolNode
  /-- All edges, with the ids of their nodes. -/
  edgesAdded : List (String × String × EdgeData)

/-! ## The graph library -/

/-- What the code calls of the graph library. -/
structure Rustworkx where
  /-- Edges into a node. -/
  inEdges : Edges → ℕ → Edges
  /-- Edges out of a node. -/
  outEdges : Edges → ℕ → Edges
  /-- Remove one edge for each pair of nodes. -/
  removeEdgesFrom : Edges → List (ℕ × ℕ) → Edges
  /-- Nodes reached from a node. -/
  descendants : Edges → ℕ → Finset ℕ
  /-- Nodes that reach a node. -/
  ancestors : Edges → ℕ → Finset ℕ

/-- The documented behaviour of the graph library. The order of the edges of a
node is not documented, nor which one of several edges is removed. -/
structure Rustworkx.Documented (rx : Rustworkx) : Prop where
  /-- All edges into a node. -/
  inEdges : ∀ edges idx e, e ∈ rx.inEdges edges idx ↔ e ∈ edges ∧ e.2.1 = idx
  /-- All edges out of a node. -/
  outEdges : ∀ edges idx e, e ∈ rx.outEdges edges idx ↔ e ∈ edges ∧ e.1 = idx
  /-- For each listed pair some one edge is removed, if there are enough. -/
  removeEdgesFrom : ∀ edges pairs, (∀ p, pairs.count p ≤ between edges p) →
    RemovesEach edges pairs (rx.removeEdgesFrom edges pairs)
  /-- What is reached from a node, without the node itself. -/
  descendants : ∀ edges u v, v ∈ rx.descendants edges u ↔ Beyond edges u v
  /-- What reaches a node, without the node itself. -/
  ancestors : ∀ edges u v, v ∈ rx.ancestors edges u ↔ Beyond edges v u

/-! ## The graph -/

/-- The code graph. -/
structure CodeGraph where
  /-- Nodes by their number. -/
  nodes : List SymbolNode
  /-- Edges. -/
  edges : Edges
  /-- Number of the node of an id. -/
  idToIndex : FMap String ℕ
  /-- Numbers of the nodes of a file. -/
  fileToNodes : FMap String (List ℕ)
  /-- Subgraphs by the kinds of their edges. -/
  semanticSubgraphCache : FMap (Finset EdgeKind) Edges
  /-- The revision, if it is known. -/
  revision : Option ℕ
  /-- Whether the graph is pinned. -/
  frozen : Bool

namespace CodeGraph

/-- A graph without nodes. -/
def new : CodeGraph := ⟨[], [], ∅, ∅, ∅, none, false⟩

/-- Append the number of a node to those of its file. -/
def indexFile (files : FMap String (List ℕ)) (file : String) (idx : ℕ) : FMap String (List ℕ) :=
  files.insert file ((files.lookup file).getD [] ++ [idx])

/-- Add a node, unless its id is known. -/
def addNode (g : CodeGraph) (node : SymbolNode) : CodeGraph :=
  match g.idToIndex.lookup node.durableId with
  | some _ => g
  | none =>
    { g with
      nodes := g.nodes ++ [node]
      idToIndex := g.idToIndex.insert node.durableId g.nodes.length
      fileToNodes := indexFile g.fileToNodes node.file g.nodes.length
      semanticSubgraphCache := ∅ }

/-- Add an edge between two nodes, if both are known. -/
def addEdge (g : CodeGraph) (edge : String × String × EdgeData) : CodeGraph :=
  match g.idToIndex.lookup edge.1, g.idToIndex.lookup edge.2.1 with
  | some source, some target =>
    { g with
      edges := g.edges ++ [(source, target, edge.2.2)]
      semanticSubgraphCache := ∅ }
  | _, _ => g

/-- Replace the graph by the nodes and edges of a code delta. -/
def applyCodeDelta (g : CodeGraph) (delta : CodeDelta) : CodeGraph :=
  let cleared := { new with revision := g.revision }
  let filled := delta.edgesAdded.foldl addEdge (delta.nodesUpserted.foldl addNode cleared)
  { filled with
    semanticSubgraphCache := ∅
    revision := delta.revision.or filled.revision }

/-- Build the indexes again from the nodes. -/
def rebuildIndexes (g : CodeGraph) : CodeGraph :=
  { g with
    idToIndex := g.nodes.zipIdx.foldl (fun index p => index.insert p.1.durableId p.2) ∅
    fileToNodes := g.nodes.zipIdx.foldl (fun files p => indexFile files p.1.file p.2) ∅
    semanticSubgraphCache := ∅ }

/-- A copy pinned at a revision. -/
def pinAt (g : CodeGraph) (revision : ℕ) : CodeGraph :=
  { g with semanticSubgraphCache := ∅, revision := some revision, frozen := true }

/-- A mutation of a pinned graph is refused. -/
def mutate (g : CodeGraph) (f : CodeGraph → CodeGraph) : Except String CodeGraph :=
  if g.frozen then .error "Cannot mutate a revision-pinned CodeGraph" else .ok (f g)

/-! ## Queries -/

/-- The node of an id. -/
def symbol (g : CodeGraph) (durableId : String) : Option SymbolNode :=
  (g.idToIndex.lookup durableId).bind fun idx => g.nodes[idx]?

/-- The ids of some nodes. -/
def idsAt (g : CodeGraph) (indices : Finset ℕ) : Finset String :=
  indices.biUnion fun idx => ((g.nodes[idx]?).map SymbolNode.durableId).toFinset

section Queries

variable (rx : Rustworkx) (g : CodeGraph)

/-- The edges of some kinds of a node: those out of it with their targets, or
those into it with their sources. -/
def edgesOfKind (durableId : String) (kinds : Finset EdgeKind) (incoming : Bool) :
    List (ℕ × EdgeData) :=
  match g.idToIndex.lookup durableId with
  | none => []
  | some idx =>
    if incoming then
      ((rx.inEdges g.edges idx).filter fun e => e.2.2.kind ∈ kinds).map fun e => (e.1, e.2.2)
    else ((rx.outEdges g.edges idx).filter fun e => e.2.2.kind ∈ kinds).map fun e => e.2

/-- The enclosing symbol: the source of the first edge of containment. -/
def parent (durableId : String) : Option SymbolNode :=
  (edgesOfKind rx g durableId {.defines, .contains} true).head?.bind fun edge => g.nodes[edge.1]?

/-- The kinds of a query; by default those of dependencies. -/
def edgeKinds (kinds : Option (Finset EdgeKind)) : Finset EdgeKind :=
  kinds.getD DEPENDENCY_EDGE_KINDS

/-- Everything a symbol directly depends on. -/
def dependencies (durableId : String) (kinds : Option (Finset EdgeKind)) : Finset String :=
  idsAt g ((edgesOfKind rx g durableId (edgeKinds kinds) false).map Prod.fst).toFinset

/-- Everything that directly depends on a symbol. -/
def dependents (durableId : String) (kinds : Option (Finset EdgeKind)) : Finset String :=
  idsAt g ((edgesOfKind rx g durableId (edgeKinds kinds) true).map Prod.fst).toFinset

/-- The subgraph of some kinds, kept for the next time. The edges of other
kinds are removed by their nodes. -/
def semanticSubgraph (kinds : Finset EdgeKind) : Edges × CodeGraph :=
  match g.semanticSubgraphCache.lookup kinds with
  | some cached => (cached, g)
  | none =>
    let sub := rx.removeEdgesFrom g.edges
      (unwanted (fun data : EdgeData => data.kind ∈ kinds) g.edges)
    (sub, { g with semanticSubgraphCache := g.semanticSubgraphCache.insert kinds sub })

/-- The symbols that a walk over the subgraph of some kinds finds. -/
def walkFrom (walk : Edges → ℕ → Finset ℕ) (durableId : String)
    (kinds : Option (Finset EdgeKind)) : Finset String × CodeGraph :=
  let (filtered, g) := semanticSubgraph rx g (edgeKinds kinds)
  match g.idToIndex.lookup durableId with
  | none => (∅, g)
  | some idx => (idsAt g (walk filtered idx), g)

/-- Everything a symbol depends on. -/
def transitiveDependencies (durableId : String) (kinds : Option (Finset EdgeKind)) :
    Finset String × CodeGraph := walkFrom rx g rx.descendants durableId kinds

/-- Everything that depends on a symbol. -/
def transitiveDependents (durableId : String) (kinds : Option (Finset EdgeKind)) :
    Finset String × CodeGraph := walkFrom rx g rx.ancestors durableId kinds

end Queries

end CodeGraph

end Tyo3.CodeGraphs
