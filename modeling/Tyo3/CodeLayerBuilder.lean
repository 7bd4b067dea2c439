import Tyo3.CodeLayer

/-!
# Building the code layer

The producer reads what the analysis engine says about each file and builds
the layer in passes: all nodes, containment, references and imports, all
inheritance edges, all override edges. A full build starts from nothing; a
scoped build starts from the previous layer, drops the dirty files and runs
the same passes over those that still exist.
-/

namespace Tyo3.CodeLayerBuilder

open CodeLayer FiniteMaps TextSearch

/-- A symbol of a file as the engine reports it. -/
structure SymbolDto where
  /-- Unqualified name. -/
  name : String
  /-- Dotted name, absent at the top level. -/
  qualifiedName : Option String
  /-- Kind of the symbol. -/
  kind : SymbolKindDto
  /-- Range of the definition. -/
  range : Range
  /-- Range of the name. -/
  selectionRange : Option Range
  /-- Dotted name of the enclosing symbol. -/
  containerName : Option String
  /-- Durable id of the symbol, absent when it is not bound. -/
  durableId : Option String
  /-- Hash under the default profile. -/
  contentHash : Option String
  /-- Hashes by profile. -/
  contentHashes : FMap String String
  deriving DecidableEq

/-- A name at one place of a file with its resolved target. -/
structure NameOccurrence where
  /-- Where the name stands. -/
  range : Range
  /-- Native path of the file that defines the target. -/
  targetFile : Option String
  /-- Name of the target. -/
  targetName : Option String
  /-- Dotted name of the target. -/
  targetQualifiedName : Option String
  /-- Role of the name. -/
  role : ReferenceRole
  deriving DecidableEq, Repr

/-- A direct supertype of a class. -/
structure Supertype where
  /-- Name of the supertype. -/
  name : String
  /-- Native path of its file. -/
  path : String
  deriving DecidableEq, Repr

/-- What the engine says about the files of a project. A failed query gives
none. -/
structure Outputs where
  /-- Path of the project root. -/
  root : String
  /-- Native paths of the listed files. -/
  files : List String
  /-- Symbols of a file in document order. -/
  symbols : String → Option (List SymbolDto)
  /-- Names of a file in document order. -/
  occurrences : String → Option (List NameOccurrence)
  /-- Files of the definitions found from a position. -/
  gotoDefinition : String → Position → Option (List String)
  /-- Direct supertypes of the class at a position. -/
  supertypes : String → Position → Option (List Supertype)

/-- One entry of the range cache. -/
structure RangeCacheEntry where
  /-- Range of the node. -/
  range : Range
  /-- Id of the node. -/
  durableId : String
  deriving DecidableEq, Repr

/-- A listed file with its symbols. -/
structure FileSymbols where
  /-- Path relative to the root. -/
  graphPath : String
  /-- Path as listed. -/
  nativePath : String
  /-- Symbols in document order. -/
  symbols : List SymbolDto

/-- The layer under construction with its secondary indexes. -/
structure Builder where
  /-- The layer so far. -/
  layer : Layer
  /-- Node of a name in a file; the empty id marks an ambiguous name. -/
  nameToId : FMap (String × String) String
  /-- Node ids of a file in insertion order. -/
  fileToNodes : FMap String (List String)
  /-- Ranges of the nodes of a file, smallest span first. -/
  rangeCache : FMap String (List RangeCacheEntry)
  /-- Files of the project. -/
  projectFiles : Finset String

/-- A builder without any node. -/
def Builder.new : Builder := ⟨Layer.new, ∅, ∅, ∅, ∅⟩

/-- The path of a native path below the root; any other path unchanged. -/
def toGraphPath (root native : String) : String :=
  match stripPrefix root native with
  | none => native
  | some rest =>
    let rest := (stripPrefix "/" rest).getD rest
    if rest = "" then native else rest

namespace Builder

variable (b : Builder)

/-- Ids listed for a file. -/
def idsOf (file : String) : List String := (b.fileToNodes.lookup file).getD []

/-- The path of a target: relative for a file of the project, else native. -/
def normalizeTarget (root native : String) : String :=
  if toGraphPath root native ∈ b.projectFiles then toGraphPath root native else native

/-- Register a name. A second node of the same name makes it ambiguous. -/
def registerName (file name did : String) : Builder :=
  match b.nameToId.lookup (file, name) with
  | none => { b with nameToId := b.nameToId.insert (file, name) did }
  | some existing =>
    if existing = did then b else { b with nameToId := b.nameToId.insert (file, name) "" }

/-- Append a node to the list of its file. -/
def pushNode (file did : String) : Builder :=
  { b with fileToNodes := b.fileToNodes.insert file (b.idsOf file ++ [did]) }

/-- Insert a node. -/
def upsertNode (did : String) (node : NodeData) : Builder :=
  { b with layer := b.layer.upsertNode did node }

/-- The payload of a module node. -/
def moduleNode (file : String) : NodeData where
  name := fileStem file
  qualifiedName := moduleQualifiedName
  kind := .module_
  file := file
  range := moduleRange
  nameRange := none
  contentHash := none
  contentHashes := ∅
  external := false
  package := none

/-- The payload of the node of a symbol. -/
def symbolNode (file : String) (symbol : SymbolDto) : NodeData where
  name := symbol.name
  qualifiedName := symbol.qualifiedName.getD symbol.name
  kind := symbol.kind
  file := file
  range := symbol.range
  nameRange := symbol.selectionRange
  contentHash := symbol.contentHash
  contentHashes := symbol.contentHashes
  external := false
  package := none

/-- The payload of a stub. -/
def stubNode (name qualifiedName : String) (kind : SymbolKindDto) (package : String) :
    NodeData where
  name := name
  qualifiedName := qualifiedName
  kind := kind
  file := externalFile
  range := moduleRange
  nameRange := none
  contentHash := none
  contentHashes := ∅
  external := true
  package := some package

/-- Insert the module node of a file unless it exists. -/
def materializeModule (file : String) : Builder :=
  if b.layer.hasNode (makeModuleDurableId file) then b
  else
    let b := b.upsertNode (makeModuleDurableId file) (moduleNode file)
    let table := b.nameToId.insert (file, moduleQualifiedName) (makeModuleDurableId file)
    let b := { b with nameToId := table }
    b.pushNode file (makeModuleDurableId file)

/-- Insert the node of a symbol. A symbol without id is skipped, and so is
one whose id has a node already. -/
def materializeSymbol (file : String) (b : Builder) (symbol : SymbolDto) : Builder :=
  match symbol.durableId with
  | none => b
  | some did =>
    if b.layer.hasNode did then b
    else
      let b := b.upsertNode did (symbolNode file symbol)
      let b := b.registerName file symbol.name did
      let b := b.registerName file (symbol.qualifiedName.getD symbol.name) did
      b.pushNode file did

/-- Insert the nodes of a file. -/
def materializeFileNodes (file : String) (symbols : List SymbolDto) : Builder :=
  symbols.foldl (materializeSymbol file) (b.materializeModule file)

/-- Insert a stub unless its id has a node. -/
def addStubNode (did name qualifiedName : String) (kind : SymbolKindDto) (package : String) :
    Builder :=
  if b.layer.hasNode did then b
  else b.upsertNode did (stubNode name qualifiedName kind package)

/-- The node of a name in a file: by the name table, or else the first node
listed for the file that has the name. -/
def findSymbolInFile (file name : String) : Option String :=
  match b.nameToId.lookup (file, name) with
  | some cached => if cached ≠ "" then some cached else scan
  | none => scan
where
  /-- The ordered scan behind the name table. -/
  scan : Option String := (b.idsOf file).find? fun did =>
    match b.layer.nodes.lookup did with
    | some node => decide (node.name = name ∨ node.qualifiedName = name)
    | none => false

/-- Insert an edge if both of its nodes exist. -/
def tryAddEdge (edge : Edge) : Builder :=
  if b.layer.hasNode edge.source && b.layer.hasNode edge.target then
    { b with layer := b.layer.addEdge edge }
  else b

/-- An edge without a place. -/
def plainEdge (source target : String) (kind : EdgeKind) : Edge :=
  ⟨source, target, kind, none, none, none⟩

/-- The parent of a symbol: the node of its container, or else the module. -/
def parentId (file : String) (symbol : SymbolDto) : String :=
  match symbol.containerName with
  | some cn => (b.findSymbolInFile file cn).getD (makeModuleDurableId file)
  | none => makeModuleDurableId file

/-- Insert the containment edge of one symbol. -/
def addContainmentEdge (file : String) (b : Builder) (symbol : SymbolDto) : Builder :=
  match symbol.durableId with
  | none => b
  | some did =>
    let parentId := b.parentId file symbol
    if b.layer.hasNode parentId then
      let kind := if parentId = makeModuleDurableId file then EdgeKind.defines else .contains
      b.tryAddEdge (plainEdge parentId did kind)
    else b

/-- Insert the containment edges of a file. -/
def addContainmentEdges (file : String) (symbols : List SymbolDto) : Builder :=
  symbols.foldl (addContainmentEdge file) b

/-- Smaller spans first: by number of lines, then by end column. -/
def spanLe (x y : RangeCacheEntry) : Bool :=
  decide (x.range.stop.line - x.range.start.line < y.range.stop.line - y.range.start.line ∨
    x.range.stop.line - x.range.start.line = y.range.stop.line - y.range.start.line ∧
      x.range.stop.column ≤ y.range.stop.column)

/-- Ranges of the nodes of a file that are not modules, sorted by span. -/
def rangeEntries (file : String) : List RangeCacheEntry :=
  let entries := (b.idsOf file).filterMap fun did =>
    match b.layer.nodes.lookup did with
    | none => none
    | some node => if node.kind = .module_ then none else some ⟨node.range, did⟩
  entries.insertionSort fun x y => spanLe x y = true

/-- Rebuild the range cache of a file. -/
def buildRangeCache (file : String) : Builder :=
  { b with rangeCache := b.rangeCache.insert file (b.rangeEntries file) }

/-- Positions in text order. -/
def positionLe (p q : Position) : Bool :=
  decide (p.line < q.line ∨ p.line = q.line ∧ p.column ≤ q.column)

/-- The smallest cached node around a range, or else the module. -/
def findEnclosingSymbol (file : String) (range : Range) : Option String :=
  let cache := (b.rangeCache.lookup file).getD []
  match cache.find? fun entry => positionLe entry.range.start range.start &&
      positionLe range.stop entry.range.stop with
  | some entry => some entry.durableId
  | none =>
    if b.layer.hasNode (makeModuleDurableId file) then some (makeModuleDurableId file) else none

/-- A stub for a reference target outside the project. -/
def ensureExternalTarget (targetFile targetName : String) : Builder × Option String :=
  if targetFile ∈ b.projectFiles then (b, none)
  else
    let package := inferPackage targetFile
    let did := match package with
      | some p => makeExternalSymbolId p targetName
      | none => makeExternalSymbolId targetFile targetName
    (b.addStubNode did targetName targetName .unknown (package.getD "unknown"), some did)

/-- Insert the import edge between two files, with a module stub for a
target outside the project. -/
def addImportEdge (sourceFile targetFile : String) (range : Range) : Builder :=
  if b.layer.hasNode (makeModuleDurableId sourceFile) then
    let edgeTo := fun target : String =>
      (⟨makeModuleDurableId sourceFile, target, .imports, none, some sourceFile, some range⟩ : Edge)
    if b.layer.hasNode (makeModuleDurableId targetFile) then
      b.tryAddEdge (edgeTo (makeModuleDurableId targetFile))
    else if targetFile ∈ b.projectFiles then b
    else
      let package := (inferPackage targetFile).getD "unknown"
      let b := b.addStubNode (makeExternalModuleId package) package moduleQualifiedName .module_
        package
      b.tryAddEdge (edgeTo (makeExternalModuleId package))
  else b

/-- Insert the import edge of an import whose target only the definition
search finds. -/
def resolveImportViaGoto (out : Outputs) (nativeFile file : String) (range : Range) : Builder :=
  match out.gotoDefinition nativeFile range.start with
  | some (target :: _) =>
    let targetFile := b.normalizeTarget out.root target
    if targetFile ≠ file then b.addImportEdge file targetFile range else b
  | _ => b

/-- The node of a reference target: by dotted name, by name, or a stub. -/
def referenceTarget (targetFile targetName : String) (qualified : Option String) :
    Builder × Option String :=
  match qualified.bind (b.findSymbolInFile targetFile) with
  | some did => (b, some did)
  | none => match b.findSymbolInFile targetFile targetName with
    | some did => (b, some did)
    | none =>
      if targetFile ∈ b.projectFiles then (b, none)
      else b.ensureExternalTarget targetFile targetName

/-- Insert the edges of one occurrence. -/
def resolveOccurrence (out : Outputs) (file nativeFile : String) (b : Builder)
    (occ : NameOccurrence) : Builder :=
  if occ.role = .import_ ∧ occ.targetFile = none then
    b.resolveImportViaGoto out nativeFile file occ.range
  else match occ.targetFile, occ.targetName with
    | some targetFileRaw, some targetName =>
      let targetFile := b.normalizeTarget out.root targetFileRaw
      match b.referenceTarget targetFile targetName occ.targetQualifiedName with
      | (b, none) => b
      | (b, some targetDid) => match b.findEnclosingSymbol file occ.range with
        | none => b
        | some enclosingId =>
          if enclosingId = targetDid then b
          else if occ.role = .import_ then
            if targetFile ≠ file then b.addImportEdge file targetFile occ.range else b
          else
            let b := b.tryAddEdge
              ⟨enclosingId, targetDid, .references, some occ.role, some file, some occ.range⟩
            if targetFile ≠ file then b.addImportEdge file targetFile occ.range else b
    | _, _ => b

/-- Insert the reference and import edges of a file. -/
def resolveReferences (out : Outputs) (file nativeFile : String) : Builder :=
  match out.occurrences nativeFile with
  | none => b
  | some occurrences => occurrences.foldl (resolveOccurrence out file nativeFile) b

/-- The node of a supertype: by name in its file, or else a stub when its
file belongs to a package or has no nodes. -/
def supertypeTarget (superFile name : String) : Builder × Option String :=
  match b.findSymbolInFile superFile name with
  | some did => (b, some did)
  | none =>
    let package := match inferPackage superFile with
      | some p => some p
      | none => if (b.fileToNodes.lookup superFile).isSome then none else some "unknown"
    match package with
    | some pkg =>
      (b.addStubNode (makeExternalSymbolId pkg name) name (pkg ++ "." ++ name) .class_ pkg,
        some (makeExternalSymbolId pkg name))
    | none => (b, none)

/-- Insert the inheritance edge to one supertype. -/
def inheritFrom (out : Outputs) (did : String) (b : Builder) (supertype : Supertype) : Builder :=
  match b.supertypeTarget (b.normalizeTarget out.root supertype.path) supertype.name with
  | (b, none) => b
  | (b, some superDid) => b.tryAddEdge (plainEdge did superDid .inherits)

/-- Where the supertypes of a class are asked for: at its name. -/
def nameStart (symbol : SymbolDto) : Position :=
  match symbol.selectionRange with
  | some r => r.start
  | none => symbol.range.start

/-- Insert the inheritance edges of one symbol. -/
def inheritsSymbol (out : Outputs) (nativeFile : String) (b : Builder) (symbol : SymbolDto) :
    Builder :=
  if symbol.kind = .class_ then
    match symbol.durableId, out.supertypes nativeFile (nameStart symbol) with
    | some did, some supertypes => supertypes.foldl (inheritFrom out did) b
    | _, _ => b
  else b

/-- Insert the inheritance edges of a file. -/
def inheritsPass (out : Outputs) (nativeFile : String) (symbols : List SymbolDto) : Builder :=
  symbols.foldl (inheritsSymbol out nativeFile) b

end Builder

/-! ## Overrides -/

/-- Targets of the inheritance edges of a node, in id order. -/
def parentsOf (edges : Finset Edge) (did : String) : List String :=
  HashOrder.increasing.order
    ((edges.filter fun e => e.source = did ∧ e.kind = .inherits).image Edge.target)

/-- Targets of the containment edges of a node, in id order. -/
def childrenOf (edges : Finset Edge) (did : String) : List String :=
  HashOrder.increasing.order
    ((edges.filter fun e => e.source = did ∧ (e.kind = .defines ∨ e.kind = .contains)).image
      Edge.target)

/-- Note the methods of an ancestor under their names, the first one wins. -/
def noteMethod (nodes : FMap String NodeData) (methods : FMap String String) (child : String) :
    FMap String String :=
  match nodes.lookup child with
  | none => methods
  | some node =>
    if (node.kind = .method ∨ node.kind = .constructor) ∧ methods.lookup node.name = none then
      methods.insert node.name child
    else methods

/-- What the walk over the ancestors has seen. -/
structure AncestorWalk where
  /-- Classes seen. -/
  visited : Finset String
  /-- The first method found for a name. -/
  methods : FMap String String

/-- Look at one parent: note its methods, and queue it when it is new. -/
def visitParent (layer : Layer) (acc : AncestorWalk × List String) (parent : String) :
    AncestorWalk × List String :=
  ({ visited := insert parent acc.1.visited
     methods := (childrenOf layer.edges parent).foldl (noteMethod layer.nodes) acc.1.methods },
    if parent ∈ acc.1.visited then acc.2 else acc.2 ++ [parent])

/-- Look at all parents of one class. -/
def ancestorStep (layer : Layer) (walk : AncestorWalk) (current : String) :
    AncestorWalk × List String :=
  (parentsOf layer.edges current).foldl (visitParent layer) (walk, [])

/-- All targets of inheritance edges. -/
def inheritTargets (edges : Finset Edge) : Finset String :=
  (edges.filter fun e => e.kind = .inherits).image Edge.target

/-- Methods of the ancestors of a class by name, nearest level first. Every
class is queued once, which bounds the walk. -/
def ancestorMethods (layer : Layer) (did : String) : FMap String String :=
  (Worklists.run (ancestorStep layer) ((inheritTargets layer.edges).card + 1)
    ⟨{did}, ∅⟩ [did]).methods

namespace Builder

variable (b : Builder)

/-- The methods and constructors directly inside a class. -/
def childMethods (symbols : List SymbolDto) (symbol : SymbolDto) : List SymbolDto :=
  symbols.filter fun s => (s.kind = .method ∨ s.kind = .constructor) ∧
    s.containerName = some symbol.name

/-- Insert the override edge of one method. -/
def overrideMethod (ancestors : FMap String String) (b : Builder) (method : SymbolDto) : Builder :=
  match ancestors.lookup method.name, method.durableId with
  | some parent, some did => b.tryAddEdge (plainEdge did parent .overrides)
  | _, _ => b

/-- Insert the override edges of one class. -/
def overridesSymbol (file : String) (symbols : List SymbolDto) (b : Builder)
    (symbol : SymbolDto) : Builder :=
  if symbol.kind = .class_ then
    match b.findSymbolInFile file (symbol.qualifiedName.getD symbol.name) with
    | none => b
    | some did =>
      if childMethods symbols symbol = [] then b
      else (childMethods symbols symbol).foldl (overrideMethod (ancestorMethods b.layer did)) b
  else b

/-- Insert the override edges of a file. -/
def overridesPass (file : String) (symbols : List SymbolDto) : Builder :=
  symbols.foldl (overridesSymbol file symbols) b

/-- All passes over a list of files. -/
def runPasses (out : Outputs) (files : List FileSymbols) : Builder :=
  let b := files.foldl (fun b fs => b.materializeFileNodes fs.graphPath fs.symbols) b
  let b := files.foldl (fun b fs =>
    (b.addContainmentEdges fs.graphPath fs.symbols).buildRangeCache fs.graphPath) b
  let b := files.foldl (fun b fs => b.resolveReferences out fs.graphPath fs.nativePath) b
  let b := files.foldl (fun b fs => b.inheritsPass out fs.nativePath fs.symbols) b
  files.foldl (fun b fs => b.overridesPass fs.graphPath fs.symbols) b

/-- Publish the file lists onto the layer. -/
def syncFileToNodes : Layer := { b.layer with fileToNodes := b.fileToNodes }

/-- Drop the nodes of a file, the edges that start there and its entries in
the secondary indexes. -/
def evictFile (b : Builder) (file : String) : Builder :=
  let ids := b.idsOf file
  let outgoing := HashOrder.increasing.order (b.layer.edges.filter fun e => e.source ∈ ids)
  let layer := outgoing.foldl Layer.removeEdge b.layer
  { layer := { layer with nodes := ids.foldl (fun nodes id => nodes.erase id) layer.nodes }
    nameToId := (HashOrder.increasing.order (b.nameToId.keys.image Prod.snd)).foldl
      (fun table name => table.erase (file, name)) b.nameToId
    fileToNodes := b.fileToNodes.erase file
    rangeCache := b.rangeCache.erase file
    projectFiles := b.projectFiles }

/-- Drop the stubs that no edge points at. -/
def gcExternalStubs : Builder :=
  let referenced := b.layer.edges.image Edge.target
  let doomed := (HashOrder.increasing.order b.layer.nodes.keys).filter fun id =>
    match b.layer.nodes.lookup id with
    | some node => decide (node.population id = .external ∧ id ∉ referenced)
    | none => false
  { b with layer :=
    { b.layer with nodes := doomed.foldl (fun nodes id => nodes.erase id) b.layer.nodes } }

/-- Register the names of one carried node. -/
def replayNode (file : String) (b : Builder) (id : String) : Builder :=
  match b.layer.nodes.lookup id with
  | none => b
  | some node =>
    if node.qualifiedName = moduleQualifiedName then
      { b with nameToId := b.nameToId.insert (file, moduleQualifiedName) id }
    else (b.registerName file node.name id).registerName file node.qualifiedName id

/-- Rebuild the secondary indexes of one carried file. -/
def replayFile (b : Builder) (file : String) : Builder :=
  ((b.idsOf file).foldl (replayNode file) b).buildRangeCache file

/-- A builder that carries the previous layer, its secondary indexes rebuilt
without asking the engine. -/
def seeded (prev : Layer) : Builder :=
  (HashOrder.increasing.order prev.fileToNodes.keys).foldl replayFile
    { layer := prev, nameToId := ∅, fileToNodes := prev.fileToNodes, rangeCache := ∅
      projectFiles := ∅ }

end Builder

/-- Listed files below the root, with both of their paths. -/
def projectListing (out : Outputs) : List (String × String) :=
  (out.files.map fun native => (toGraphPath out.root native, native)).filter fun file =>
    file.1 ≠ file.2

/-- The files of a listing whose symbols the engine reports. -/
def collectSymbols (out : Outputs) (listing : List (String × String)) : List FileSymbols :=
  listing.filterMap fun file => (out.symbols file.2).map fun symbols => ⟨file.1, file.2, symbols⟩

/-- Build the layer from nothing. -/
def build (out : Outputs) : Layer :=
  let listing := projectListing out
  let b := { Builder.new with projectFiles := (listing.map Prod.fst).toFinset }
  (b.runPasses out (collectSymbols out listing)).syncFileToNodes

/-- Add the file that an import edge starts in. -/
def widenBy (layer : Layer) (dirty : Finset String) (e : Edge) : Finset String :=
  match layer.nodes.lookup e.source with
  | some node => if node.file ≠ "" ∧ node.file ≠ externalFile then insert node.file dirty else dirty
  | none => dirty

/-- The dirty files and the files that import one of them in the layer. -/
def widenDirty (layer : Layer) (seedDirty : Finset String) : Finset String :=
  let seedModules := seedDirty.image makeModuleDurableId
  let importers := layer.edges.filter fun e => e.kind = .imports ∧ e.target ∈ seedModules
  (HashOrder.increasing.order importers).foldl (widenBy layer) seedDirty

/-- Rebuild the dirty files over the previous layer. -/
def buildScoped (out : Outputs) (prev : Layer) (seedDirty : Finset String) : Layer :=
  let listing := projectListing out
  let currentNative := listing.foldl (fun m file => m.insert file.1 file.2) (∅ : FMap String String)
  let b := { Builder.seeded prev with projectFiles := (listing.map Prod.fst).toFinset }
  let dirty := HashOrder.increasing.order (widenDirty b.layer seedDirty)
  let b := dirty.foldl Builder.evictFile b
  let existing := dirty.filterMap fun f => (currentNative.lookup f).map fun native => (f, native)
  (b.runPasses out (collectSymbols out existing)).gcExternalStubs.syncFileToNodes

end Tyo3.CodeLayerBuilder
