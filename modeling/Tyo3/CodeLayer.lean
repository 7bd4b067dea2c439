import Mathlib.Algebra.GroupWithZero.Nat
import Mathlib.Data.Prod.Lex
import Mathlib.Order.WithBot
import Tyo3.FiniteMaps
import Tyo3.TextSearch
import Tyo3.Worklists

/-!
# The code layer

The structural state of one revision: nodes by durable id, a set of edges, a
reverse-dependency index kept in step with the dependency edges, and the
nodes of every file in insertion order. Paths inside the layer are relative
to the project root.
-/

namespace Tyo3.CodeLayer

open FiniteMaps TextSearch

/-- A position in a text, both counted from one. -/
structure Position where
  /-- Line. -/
  line : ℕ
  /-- Column. -/
  column : ℕ
  deriving DecidableEq, Repr, Inhabited

/-- A range between two positions. -/
structure Range where
  /-- Where the range starts. -/
  start : Position
  /-- Where the range ends. -/
  stop : Position
  deriving DecidableEq, Repr, Inhabited

/-- Kinds of symbols as the layer reports them. -/
inductive SymbolKindDto where
  | module_ | class_ | function | method | constructor | variable_ | constant | field
  | parameter | property | typeParameter | import_ | unknown
  deriving DecidableEq, Repr, Inhabited

/-- The part a name plays at one place. -/
inductive ReferenceRole where
  | read | write | import_ | definition | other
  deriving DecidableEq, Repr, Inhabited

/-- Kinds of edges. -/
inductive EdgeKind where
  | defines | contains | references | imports | inherits | overrides
  deriving DecidableEq, Repr, Inhabited

/-- Containment is nesting, every other kind is a dependency. -/
def EdgeKind.isDependency : EdgeKind → Bool
  | .defines => false
  | .contains => false
  | .references => true
  | .imports => true
  | .inherits => true
  | .overrides => true

/-- One relationship. Only references and imports carry a place. -/
structure Edge where
  /-- Id of the source node. -/
  source : String
  /-- Id of the target node. -/
  target : String
  /-- Kind of the edge. -/
  kind : EdgeKind
  /-- Role of the name, for references. -/
  role : Option ReferenceRole
  /-- File of the place. -/
  file : Option String
  /-- Range of the place. -/
  range : Option Range
  deriving DecidableEq, Repr

/-- Place of a kind in the order of edges. -/
def EdgeKind.rank : EdgeKind → ℕ
  | .defines => 0
  | .contains => 1
  | .references => 2
  | .imports => 3
  | .inherits => 4
  | .overrides => 5

/-- Place of a role in the order of edges, which is the order of its text. -/
def ReferenceRole.rank : ReferenceRole → ℕ
  | .definition => 0
  | .import_ => 1
  | .other => 2
  | .read => 3
  | .write => 4

/-- The four numbers of a range in comparison order. -/
def Range.key (r : Range) : ℕ ×ₗ ℕ ×ₗ ℕ ×ₗ ℕ :=
  toLex (r.start.line, toLex (r.start.column, toLex (r.stop.line, r.stop.column)))

/-- The fields of an edge in comparison order. -/
def Edge.key (e : Edge) :
    String ×ₗ String ×ₗ ℕ ×ₗ WithBot ℕ ×ₗ WithBot String ×ₗ WithBot (ℕ ×ₗ ℕ ×ₗ ℕ ×ₗ ℕ) :=
  toLex (e.source, toLex (e.target, toLex (e.kind.rank, toLex (e.role.map ReferenceRole.rank,
    toLex (e.file, e.range.map Range.key)))))

/-- Kinds of equal rank are equal. -/
theorem EdgeKind.rank_injective : Function.Injective EdgeKind.rank := by
  intro a b h
  cases a <;> cases b <;> first | rfl | exact absurd h (by decide)

/-- Roles of equal rank are equal. -/
theorem ReferenceRole.rank_injective : Function.Injective ReferenceRole.rank := by
  intro a b h
  cases a <;> cases b <;> first | rfl | exact absurd h (by decide)

/-- A range is given by its four numbers. -/
theorem Range.key_injective : Function.Injective Range.key := by
  rintro ⟨⟨a, b⟩, ⟨c, d⟩⟩ ⟨⟨a', b'⟩, ⟨c', d'⟩⟩ h
  simp only [Range.key, EmbeddingLike.apply_eq_iff_eq, Prod.mk.injEq] at h
  obtain ⟨rfl, rfl, rfl, rfl⟩ := h
  rfl

/-- An edge is given by its fields. -/
theorem Edge.key_injective : Function.Injective Edge.key := by
  rintro ⟨s, t, k, r, f, g⟩ ⟨s', t', k', r', f', g'⟩ h
  have hs : s = s' := congrArg (fun x => (ofLex x).1) h
  have h₁ := congrArg (fun x => (ofLex x).2) h
  have ht : t = t' := congrArg (fun x => (ofLex x).1) h₁
  have h₂ := congrArg (fun x => (ofLex x).2) h₁
  have hk : k.rank = k'.rank := congrArg (fun x => (ofLex x).1) h₂
  have h₃ := congrArg (fun x => (ofLex x).2) h₂
  have hr : r.map ReferenceRole.rank = r'.map ReferenceRole.rank :=
    congrArg (fun x => (ofLex x).1) h₃
  have h₄ := congrArg (fun x => (ofLex x).2) h₃
  have hf : f = f' := congrArg (fun x => (ofLex x).1) h₄
  have hg : g.map Range.key = g'.map Range.key := congrArg (fun x => (ofLex x).2) h₄
  have hrole := Option.map_injective ReferenceRole.rank_injective hr
  have hrange := Option.map_injective Range.key_injective hg
  rw [hs, ht, EdgeKind.rank_injective hk, hrole, hf, hrange]

/-- Edges in the order of their fields. -/
instance : LinearOrder Edge := LinearOrder.lift' Edge.key Edge.key_injective

/-- The file of every external stub. -/
def externalFile : String := "<external>"

/-- The qualified name of every module node. -/
def moduleQualifiedName : String := "<module>"

/-- Id of the module node of a file. -/
def makeModuleDurableId (file : String) : String := moduleQualifiedName ++ file

/-- Id of the module stub of a package outside the project. -/
def makeExternalModuleId (package : String) : String := package ++ "::" ++ moduleQualifiedName

/-- Id of a stub for a target outside the project. -/
def makeExternalSymbolId (packageOrFile name : String) : String := packageOrFile ++ "::" ++ name

/-- The payload of a node. -/
structure NodeData where
  /-- Unqualified name, the stem of the file for a module. -/
  name : String
  /-- Dotted name. -/
  qualifiedName : String
  /-- Kind of the symbol. -/
  kind : SymbolKindDto
  /-- File of the node. -/
  file : String
  /-- Range of the definition. -/
  range : Range
  /-- Range of the name, absent for modules and stubs. -/
  nameRange : Option Range
  /-- Hash under the default profile. -/
  contentHash : Option String
  /-- Hashes by profile. -/
  contentHashes : FMap String String
  /-- Whether the node is a stub for something outside the project. -/
  external : Bool
  /-- Package of a stub. -/
  package : Option String
  deriving DecidableEq

/-- The three populations of nodes. -/
inductive Population where
  | entity | module_ | external
  deriving DecidableEq, Repr

/-- Whether an id has the shape of a module id. -/
def isModuleId (durableId : String) : Bool :=
  moduleQualifiedName.toList.isPrefixOf durableId.toList

/-- The population of a node; a stub is recognised by its payload only. -/
def NodeData.population (node : NodeData) (durableId : String) : Population :=
  if node.external then .external
  else if isModuleId durableId then .module_
  else .entity

/-- The structural state of one revision. -/
structure Layer where
  /-- Nodes by durable id. -/
  nodes : FMap String NodeData
  /-- Edges. -/
  edges : Finset Edge
  /-- Sources of the dependency edges into a target. -/
  reverseDeps : FMap String (Finset String)
  /-- Node ids of a file in insertion order, the module first. -/
  fileToNodes : FMap String (List String)
  deriving DecidableEq

/-- The layer before the first build. -/
def Layer.new : Layer := ⟨∅, ∅, ∅, ∅⟩

namespace Layer

/-- A layer without nodes and edges. -/
def isEmpty (layer : Layer) : Bool :=
  decide (layer.nodes.keys = ∅) && decide (layer.edges = ∅)

/-- Whether a node exists. -/
def hasNode (layer : Layer) (durableId : String) : Bool := (layer.nodes.lookup durableId).isSome

/-- Insert or replace a node. -/
def upsertNode (layer : Layer) (durableId : String) (node : NodeData) : Layer :=
  { layer with nodes := layer.nodes.insert durableId node }

/-- Sources listed for a target. -/
def sourcesOf (layer : Layer) (target : String) : Finset String :=
  (layer.reverseDeps.lookup target).getD ∅

/-- Insert an edge and list its source when it is a dependency. -/
def addEdge (layer : Layer) (edge : Edge) : Layer :=
  { layer with
    reverseDeps :=
      if edge.kind.isDependency then
        layer.reverseDeps.insert edge.target (insert edge.source (layer.sourcesOf edge.target))
      else layer.reverseDeps
    edges := insert edge layer.edges }

/-- Remove an edge. Its source stays listed while another dependency edge
joins the same two nodes; a target without sources is dropped. -/
def removeEdge (layer : Layer) (edge : Edge) : Layer :=
  if edge ∈ layer.edges then
    let edges := layer.edges.erase edge
    let stillDep := decide (∃ e ∈ edges, e.kind.isDependency = true ∧ e.source = edge.source ∧
      e.target = edge.target)
    let reverseDeps :=
      if edge.kind.isDependency && !stillDep then
        match layer.reverseDeps.lookup edge.target with
        | none => layer.reverseDeps
        | some sources =>
          if sources.erase edge.source = ∅ then layer.reverseDeps.erase edge.target
          else layer.reverseDeps.insert edge.target (sources.erase edge.source)
      else layer.reverseDeps
    { layer with edges := edges, reverseDeps := reverseDeps }
  else layer

/-- One step of the closure: an id seen before is skipped, a new one brings
its dependents, a deleted one also those of the previous layer. -/
def closureStep (layer prev : Layer) (deleted : Finset String) (visited : Finset String)
    (id : String) : Finset String × List String :=
  if id ∈ visited then (visited, [])
  else
    let visited := insert id visited
    let fresh := fun sources : Finset String =>
      (HashOrder.increasing.order sources).filter fun source => source ∉ visited
    (visited, fresh (layer.sourcesOf id) ++ if id ∈ deleted then fresh (prev.sourcesOf id) else [])

/-- Number of listed sources of a layer. -/
def sourceCount (layer : Layer) : ℕ :=
  ((HashOrder.increasing.order layer.reverseDeps.keys).map fun t => (layer.sourcesOf t).card).sum

/-- The seeds and everything that depends on them, following the previous
layer at deleted ids. -/
def affectedClosureWithDeleted (layer prev : Layer) (seeds deleted : Finset String) :
    Finset String :=
  Worklists.run (closureStep layer prev deleted)
    (seeds.card + layer.sourceCount + prev.sourceCount) ∅ (HashOrder.increasing.order seeds)

end Layer

/-- The module range. -/
def moduleRange : Range := ⟨⟨1, 1⟩, ⟨1, 1⟩⟩

/-- The stem of a file: the last path segment without its last extension. -/
def fileStem (file : String) : String :=
  let base := (splitOn '/' file).getLastD file
  match rsplitOnce "." base with
  | some (stem, _) => if stem = "" then base else stem
  | none => base

/-- The segment after the first site-packages segment that has one. -/
def packageInParts : List String → Option String
  | part :: next :: rest =>
    if part = "site-packages" then some next else packageInParts (next :: rest)
  | _ => none

/-- The package of an installed file below a virtual environment. -/
def packageInVenv (sep filePath : String) : Option String :=
  match splitOnce sep filePath with
  | none => none
  | some (_, rest) =>
    let parts := splitOn '/' rest
    if parts.length > 2 ∧ parts.head? = some "lib" then packageInParts parts else none

/-- The package of a file outside the project, by the shape of its path. -/
def inferPackage (filePath : String) : Option String :=
  let installed := match splitOnce "site-packages/" filePath with
    | some (_, rest) => match (splitOn '/' rest).head? with
      | some first => if first = "" then none else some first
      | none => none
    | none => none
  match installed with
  | some package => some package
  | none =>
    if occursIn "/lib/python" filePath || occursIn "typeshed" filePath then some "stdlib"
    else (packageInVenv "/.venv/" filePath).or (packageInVenv "/venv/" filePath)

end Tyo3.CodeLayer
