import Mathlib.Data.List.Find
import Tyo3.CodeLayerFiles

/-!
# What the passes add to the code layer

After the nodes are there, a pass only adds parts: a stub, an edge, or both.
Which parts a file adds depends on what a builder looks up, and two builders
that hold the same files look up the same. So the parts of a file are a
function of the files, and a pass over any builder that holds these files
adds exactly them.
-/

namespace Tyo3.CodeLayerParts

open CodeLayer CodeLayerBuilder CodeLayerFiles FiniteMaps ReverseDependencies

/-! ## Builders that look up the same -/

/-- Two builders answer all lookups alike. -/
structure Sees (b w : Builder) : Prop where
  /-- Names. -/
  find : ∀ file n, b.findSymbolInFile file n = w.findSymbolInFile file n
  /-- Module nodes. -/
  modules : ∀ file, b.layer.hasNode (makeModuleDurableId file) =
    w.layer.hasNode (makeModuleDurableId file)
  /-- Which files have nodes. -/
  listed : ∀ file, (b.fileToNodes.lookup file).isSome = (w.fileToNodes.lookup file).isSome
  /-- Ranges of the nodes of a file. -/
  ranges : ∀ file, b.rangeEntries file = w.rangeEntries file
  /-- Files of the project. -/
  projectFiles : b.projectFiles = w.projectFiles

/-- Builders agree on the names of a file when they agree on its table, its
list and the nodes on the list. -/
theorem findSymbolInFile_congr {b w : Builder} {file : String}
    (hnames : ∀ n, b.nameToId.lookup (file, n) = w.nameToId.lookup (file, n))
    (hids : b.idsOf file = w.idsOf file)
    (hnodes : ∀ id ∈ w.idsOf file, b.layer.nodes.lookup id = w.layer.nodes.lookup id) (n : String) :
    b.findSymbolInFile file n = w.findSymbolInFile file n := by
  have hscan : Builder.findSymbolInFile.scan b file n = Builder.findSymbolInFile.scan w file n := by
    unfold Builder.findSymbolInFile.scan
    rw [hids]
    apply List.find?_congr
    intro id hid
    rw [hnodes id hid]
  unfold Builder.findSymbolInFile
  rw [hnames n, hscan]

theorem rangeEntries_congr {b w : Builder} {file : String} (hids : b.idsOf file = w.idsOf file)
    (hnodes : ∀ id ∈ w.idsOf file, b.layer.nodes.lookup id = w.layer.nodes.lookup id) :
    b.rangeEntries file = w.rangeEntries file := by
  unfold Builder.rangeEntries
  rw [hids]
  simp only
  congr 1
  apply List.filterMap_congr
  intro id hid
  rw [hnodes id hid]

/-- Either a held file has the path, or none has. -/
theorem held_or_not (files : Set FileSymbols) (file : String) :
    (∃ fs ∈ files, fs.graphPath = file) ∨ ∀ fs ∈ files, fs.graphPath ≠ file := by
  by_cases h : ∃ fs ∈ files, fs.graphPath = file
  · exact .inl h
  · exact .inr fun fs hfs hpath => h ⟨fs, hfs, hpath⟩

/-- A path that is not held has no module node. -/
theorem no_module_of_not_held {files : Set FileSymbols} {b : Builder} (hsep : Separate files)
    (h : Holds files b) {file : String} (hfile : ∀ fs ∈ files, fs.graphPath ≠ file) :
    b.layer.nodes.lookup (makeModuleDurableId file) = none := by
  cases hnode : b.layer.nodes.lookup (makeModuleDurableId file) with
  | none => rfl
  | some node =>
    exfalso
    have hshape := isModuleId_makeModuleDurableId file
    cases hext : node.external with
    | true =>
      have hstub := (h.nodes.stubs _ node hnode hext).1
      rw [hshape] at hstub
      cases hstub
    | false =>
      obtain ⟨fs, hfs, hsolo⟩ := (h.nodes.own _ node hext).mp hnode
      rcases List.mem_cons.mp ((filed_solo fs).inside _ node hsolo).2 with hmodule | hsymbol
      · exact hfile fs hfs (makeModuleDurableId_injective hmodule).symm
      · have hnot := (hsep.shapes fs hfs _ hsymbol).1
        rw [hshape] at hnot
        cases hnot

/-- Builders that hold the same files of the same project look up the
same. -/
theorem sees_of_holds {files : Set FileSymbols} (hsep : Separate files) {b w : Builder}
    (hb : Holds files b) (hw : Holds files w) (hproject : b.projectFiles = w.projectFiles) :
    Sees b w := by
  have hids : ∀ file, b.idsOf file = w.idsOf file := by
    intro file
    rcases held_or_not files file with ⟨fs, hfs, rfl⟩ | hnone
    · rw [hb.lists.idsOf_eq hfs, hw.lists.idsOf_eq hfs]
    · rw [hb.lists.idsOf_none hnone, hw.lists.idsOf_none hnone]
  have hnames : ∀ file n, b.nameToId.lookup (file, n) = w.nameToId.lookup (file, n) := by
    intro file n
    rcases held_or_not files file with ⟨fs, hfs, rfl⟩ | hnone
    · rw [hb.names.own fs hfs, hw.names.own fs hfs]
    · rw [hb.names.none file hnone, hw.names.none file hnone]
  have hnodes : ∀ file, ∀ id ∈ w.idsOf file,
      b.layer.nodes.lookup id = w.layer.nodes.lookup id := by
    intro file id hid
    rcases held_or_not files file with ⟨fs, hfs, rfl⟩ | hnone
    · rw [hw.lists.idsOf_eq hfs] at hid
      have hfile := mem_fileIds_of_mem_idsOf hid
      rw [hb.nodes.lookup_eq hsep hfs hfile, hw.nodes.lookup_eq hsep hfs hfile]
    · rw [hw.lists.idsOf_none hnone] at hid
      exact absurd hid List.not_mem_nil
  constructor
  · exact fun file n => findSymbolInFile_congr (hnames file) (hids file) (hnodes file) n
  · intro file
    unfold Layer.hasNode
    rcases held_or_not files file with ⟨fs, hfs, rfl⟩ | hnone
    · rw [hb.nodes.lookup_eq hsep hfs List.mem_cons_self,
        hw.nodes.lookup_eq hsep hfs List.mem_cons_self]
    · rw [no_module_of_not_held hsep hb hnone, no_module_of_not_held hsep hw hnone]
  · intro file
    rcases held_or_not files file with ⟨fs, hfs, rfl⟩ | hnone
    · rw [hb.lists.own fs hfs, hw.lists.own fs hfs]
    · rw [hb.lists.none file hnone, hw.lists.none file hnone]
  · exact fun file => rangeEntries_congr (hids file) (hnodes file)
  · exact hproject

/-! ## Parts -/

/-- A stub, an edge, or a stub with the edge into it. -/
structure LayerPart where
  /-- The stub that is asked for. -/
  stub : Option (String × NodeData)
  /-- The edge. -/
  edge : Option Edge

/-- Ask for a stub: nothing happens when its id has a node. -/
def askStub (b : Builder) : Option (String × NodeData) → Builder
  | none => b
  | some (id, node) => if b.layer.hasNode id then b else b.upsertNode id node

/-- Add an edge if there is one. -/
def askEdge (b : Builder) : Option Edge → Builder
  | none => b
  | some edge => b.tryAddEdge edge

/-- Add a part. -/
def applyPart (b : Builder) (part : LayerPart) : Builder := askEdge (askStub b part.stub) part.edge

/-- The edges of parts. -/
def edgesOf (parts : List LayerPart) : List Edge := parts.filterMap LayerPart.edge

/-- The payload of the first request for a stub. -/
def firstStub (parts : List LayerPart) (id : String) : Option NodeData :=
  parts.findSome? fun part =>
    match part.stub with
    | some (stub, node) => if stub = id then some node else none
    | none => none

/-- What a file adds fits the files that are held: stubs look like stubs,
edges start in the file and end in a held file or at the stub of the part. -/
structure PartOf (files : Set FileSymbols) (fs : FileSymbols) (part : LayerPart) : Prop where
  /-- Payload and id of the stub. -/
  stub : ∀ id node, part.stub = some (id, node) → node.external = true ∧ ':' ∈ id.toList
  /-- Start of the edge. -/
  source : ∀ edge, part.edge = some edge → edge.source ∈ (solo fs).idsOf fs.graphPath
  /-- End of the edge. -/
  target : ∀ edge, part.edge = some edge →
    (∃ g ∈ files, edge.target ∈ (solo g).idsOf g.graphPath) ∨
      ∃ node, part.stub = some (edge.target, node)

/-- One builder is another one with parts added. -/
structure Grown (b b' : Builder) (parts : List LayerPart) : Prop where
  /-- Nodes: those before, and the first request for each other stub. -/
  nodes : ∀ id, b'.layer.nodes.lookup id = (b.layer.nodes.lookup id).or (firstStub parts id)
  /-- Edges: those before and those of the parts. -/
  edges : ∀ e, e ∈ b'.layer.edges ↔ e ∈ b.layer.edges ∨ e ∈ edgesOf parts
  /-- The index stays in step. -/
  index : IndexInStep b.layer → IndexInStep b'.layer
  /-- Id lists. -/
  lists : b'.fileToNodes = b.fileToNodes
  /-- Names. -/
  names : b'.nameToId = b.nameToId
  /-- Files of the project. -/
  projectFiles : b'.projectFiles = b.projectFiles

theorem firstStub_append (parts parts' : List LayerPart) (id : String) :
    firstStub (parts ++ parts') id = (firstStub parts id).or (firstStub parts' id) := by
  unfold firstStub
  exact List.findSome?_append

theorem edgesOf_append (parts parts' : List LayerPart) :
    edgesOf (parts ++ parts') = edgesOf parts ++ edgesOf parts' := List.filterMap_append

theorem grown_refl (b : Builder) : Grown b b [] where
  nodes _ := Option.or_none.symm
  edges _ := (or_iff_left List.not_mem_nil).symm
  index := id
  lists := rfl
  names := rfl
  projectFiles := rfl

theorem Grown.trans {b b' b'' : Builder} {parts parts' : List LayerPart} (h : Grown b b' parts)
    (h' : Grown b' b'' parts') : Grown b b'' (parts ++ parts') where
  nodes id := by rw [h'.nodes id, h.nodes id, firstStub_append, Option.or_assoc]
  edges e := by rw [h'.edges e, h.edges e, edgesOf_append, List.mem_append, or_assoc]
  index hb := h'.index (h.index hb)
  lists := h'.lists.trans h.lists
  names := h'.names.trans h.names
  projectFiles := h'.projectFiles.trans h.projectFiles

/-- Building a range cache adds nothing to the layer. -/
theorem grown_buildRangeCache (b : Builder) (file : String) :
    Grown b (b.buildRangeCache file) [] := by
  have h := grown_refl b
  exact ⟨h.nodes, h.edges, h.index, rfl, rfl, rfl⟩

theorem grown_askStub (b : Builder) (stub : Option (String × NodeData)) :
    Grown b (askStub b stub) [⟨stub, none⟩] := by
  have hedges : ∀ e, e ∈ b.layer.edges ↔ e ∈ b.layer.edges ∨ e ∈ edgesOf [⟨stub, none⟩] :=
    fun e => (or_iff_left List.not_mem_nil).symm
  cases stub with
  | none => exact ⟨fun _ => Option.or_none.symm, hedges, id, rfl, rfl, rfl⟩
  | some request =>
    obtain ⟨stubId, node⟩ := request
    have hfirst : ∀ id, firstStub [⟨some (stubId, node), none⟩] id =
        if stubId = id then some node else none := by
      intro id
      unfold firstStub
      rw [List.findSome?_cons]
      by_cases hid : stubId = id
      · simp [hid]
      · simp [hid]
    unfold askStub
    simp only
    split
    · rename_i hhas
      refine ⟨?_, hedges, id, rfl, rfl, rfl⟩
      intro id
      rw [hfirst]
      by_cases hid : stubId = id
      · obtain ⟨old, hold⟩ := hasNode_iff.mp hhas
        rw [← hid, hold, Option.some_or]
      · rw [if_neg hid, Option.or_none]
    · rename_i habsent
      refine ⟨?_, hedges, ?_, rfl, rfl, rfl⟩
      · intro id
        have hnone : b.layer.nodes.lookup stubId = none :=
          hasNode_eq_false_iff.mp (Bool.eq_false_iff.mpr habsent)
        rw [hfirst]
        unfold Builder.upsertNode Layer.upsertNode
        simp only [lookup_insert_ite]
        by_cases hid : id = stubId
        · rw [if_pos hid, if_pos hid.symm, hid, hnone, Option.none_or]
        · rw [if_neg hid, if_neg (Ne.symm hid), Option.or_none]
      · exact id

theorem grown_askEdge {b : Builder} {edge : Option Edge}
    (hends : ∀ e, edge = some e → b.layer.hasNode e.source = true ∧ b.layer.hasNode e.target = true) :
    Grown b (askEdge b edge) [⟨none, edge⟩] := by
  have hnodes : ∀ id, b.layer.nodes.lookup id =
      (b.layer.nodes.lookup id).or (firstStub [⟨none, edge⟩] id) := fun _ => Option.or_none.symm
  cases edge with
  | none => exact ⟨hnodes, fun e => (or_iff_left List.not_mem_nil).symm, id, rfl, rfl, rfl⟩
  | some edge =>
    obtain ⟨hsource, htarget⟩ := hends edge rfl
    have hadd : askEdge b (some edge) = { b with layer := b.layer.addEdge edge } := by
      unfold askEdge Builder.tryAddEdge
      simp only [hsource, htarget, Bool.and_self, if_true]
    rw [hadd]
    refine ⟨hnodes, ?_, fun hb => hb.addEdge edge, rfl, rfl, rfl⟩
    intro e
    have hone : edgesOf [⟨none, some edge⟩] = [edge] := rfl
    rw [hone, List.mem_singleton]
    exact Finset.mem_insert.trans or_comm

/-- The ids of held files have nodes. -/
theorem Holds.hasNode {files : Set FileSymbols} {b : Builder} (h : Holds files b)
    (hsep : Separate files) {fs : FileSymbols} (hfs : fs ∈ files) {id : String}
    (hid : id ∈ (solo fs).idsOf fs.graphPath) : b.layer.hasNode id = true := by
  have hsolo := ((filed_solo fs).listed id).mp hid
  unfold Layer.hasNode at hsolo ⊢
  rwa [h.nodes.lookup_eq hsep hfs (mem_fileIds_of_mem_idsOf hid)]

/-- Adding a part of a held file adds its stub and its edge. -/
theorem grown_applyPart {files : Set FileSymbols} {b : Builder} (h : Holds files b)
    (hsep : Separate files) {fs : FileSymbols} (hfs : fs ∈ files) {part : LayerPart}
    (hpart : PartOf files fs part) : Grown b (applyPart b part) [part] := by
  have hstub := grown_askStub b part.stub
  have hkeep : ∀ id, b.layer.hasNode id = true → (askStub b part.stub).layer.hasNode id = true := by
    intro id hhas
    obtain ⟨node, hnode⟩ := hasNode_iff.mp hhas
    exact hasNode_iff.mpr ⟨node, by rw [hstub.nodes id, hnode, Option.some_or]⟩
  have hedge : Grown (askStub b part.stub) (applyPart b part) [⟨none, part.edge⟩] := by
    apply grown_askEdge
    intro e he
    refine ⟨hkeep _ (Holds.hasNode h hsep hfs (hpart.source e he)), ?_⟩
    rcases hpart.target e he with ⟨g, hg, hid⟩ | ⟨node, hnode⟩
    · exact hkeep _ (Holds.hasNode h hsep hg hid)
    · rw [hnode]
      unfold askStub
      simp only
      split
      · rename_i hhas
        exact hhas
      · rw [hasNode_iff]
        exact ⟨node, (lookup_insert_ite _ _ _ _).trans (if_pos rfl)⟩
  have hboth := hstub.trans hedge
  refine ⟨?_, ?_, hboth.index, hboth.lists, hboth.names, hboth.projectFiles⟩
  · intro id
    have hsame : firstStub ([⟨part.stub, none⟩] ++ [⟨none, part.edge⟩]) id = firstStub [part] id := by
      rw [firstStub_append]
      exact Option.or_none
    rw [hboth.nodes id, hsame]
  · intro e
    rw [hboth.edges e]
    have hsame : edgesOf ([⟨part.stub, none⟩] ++ [⟨none, part.edge⟩]) = edgesOf [part] := by
      rw [edgesOf_append]
      rfl
    rw [hsame]

/-- Parts keep the files that are held. -/
theorem Grown.holds {files : Set FileSymbols} {b b' : Builder} {parts : List LayerPart}
    (hgrown : Grown b b' parts) (h : Holds files b)
    (hstubs : ∀ part ∈ parts, ∀ id node, part.stub = some (id, node) →
      node.external = true ∧ StubShaped id) : Holds files b' := by
  have hfirst : ∀ id node, firstStub parts id = some node →
      node.external = true ∧ StubShaped id := by
    intro id node hnode
    obtain ⟨part, hpart, hstub⟩ := List.exists_of_findSome?_eq_some hnode
    cases hask : part.stub with
    | none => simp [hask] at hstub
    | some request =>
      obtain ⟨stubId, payload⟩ := request
      simp only [hask] at hstub
      split at hstub
      · rename_i hid
        rw [← hid, ← Option.some.inj hstub]
        exact hstubs part hpart stubId payload hask
      · cases hstub
  refine ⟨⟨?_, ?_⟩, hgrown.lists ▸ h.lists, hgrown.names ▸ h.names⟩
  · intro id node hext
    rw [← h.nodes.own id node hext, hgrown.nodes id]
    cases hold : b.layer.nodes.lookup id with
    | some old => rw [Option.some_or]
    | none =>
      rw [Option.none_or]
      constructor
      · intro hnode
        have hstub := (hfirst id node hnode).1
        rw [hext] at hstub
        cases hstub
      · intro hnode
        cases hnode
  · intro id node hnode hext
    rw [hgrown.nodes id] at hnode
    cases hold : b.layer.nodes.lookup id with
    | some old =>
      rw [hold, Option.some_or] at hnode
      exact h.nodes.stubs id node (hold.trans hnode) hext
    | none =>
      rw [hold, Option.none_or] at hnode
      exact (hfirst id node hnode).2

/-! ## The parts of a file -/

/-- The parts of the import edge between two files. -/
def importParts (w : Builder) (source target : String) (range : Range) : List LayerPart :=
  let edgeTo := fun id : String =>
    (⟨makeModuleDurableId source, id, .imports, none, some source, some range⟩ : Edge)
  if w.layer.hasNode (makeModuleDurableId source) then
    if w.layer.hasNode (makeModuleDurableId target) then
      [⟨none, some (edgeTo (makeModuleDurableId target))⟩]
    else if target ∈ w.projectFiles then []
    else
      let package := (inferPackage target).getD "unknown"
      [⟨some (makeExternalModuleId package,
          Builder.stubNode package moduleQualifiedName .module_ package),
        some (edgeTo (makeExternalModuleId package))⟩]
  else []

/-- The stub of a reference target outside the project. -/
def externalTarget (targetFile targetName : String) : String × NodeData :=
  (makeExternalSymbolId ((inferPackage targetFile).getD targetFile) targetName,
    Builder.stubNode targetName targetName .unknown ((inferPackage targetFile).getD "unknown"))

/-- What a reference target leads to: a node of its file, a stub, or
nothing. -/
def targetOf (w : Builder) (targetFile targetName : String) (qualified : Option String) :
    Option (Option (String × NodeData) × String) :=
  match qualified.bind (w.findSymbolInFile targetFile) with
  | some did => some (none, did)
  | none => match w.findSymbolInFile targetFile targetName with
    | some did => some (none, did)
    | none =>
      if targetFile ∈ w.projectFiles then none
      else some (some (externalTarget targetFile targetName),
        (externalTarget targetFile targetName).1)

/-- The smallest node of a file around a range, or else its module. -/
def enclosing (w : Builder) (file : String) (range : Range) : Option String :=
  match (w.rangeEntries file).find? fun entry =>
      Builder.positionLe entry.range.start range.start &&
        Builder.positionLe range.stop entry.range.stop with
  | some entry => some entry.durableId
  | none =>
    if w.layer.hasNode (makeModuleDurableId file) then some (makeModuleDurableId file) else none

/-- The parts of an import edge to another file. -/
def importOther (w : Builder) (file target : String) (range : Range) : List LayerPart :=
  if target ≠ file then importParts w file target range else []

/-- The parts of an occurrence whose target is known. -/
def resolvedParts (w : Builder) (file targetFile : String) (occ : NameOccurrence)
    (stub : Option (String × NodeData)) (did : String) : List LayerPart :=
  match enclosing w file occ.range with
  | none => [⟨stub, none⟩]
  | some enclosingId =>
    if enclosingId = did then [⟨stub, none⟩]
    else if occ.role = .import_ then ⟨stub, none⟩ :: importOther w file targetFile occ.range
    else
      ⟨stub, some ⟨enclosingId, did, .references, some occ.role, some file, some occ.range⟩⟩ ::
        importOther w file targetFile occ.range

/-- The parts of an import that only the definition search resolves. -/
def gotoParts (w : Builder) (out : Outputs) (fs : FileSymbols) (occ : NameOccurrence) :
    List LayerPart :=
  match out.gotoDefinition fs.nativePath occ.range.start with
  | some (target :: _) =>
    importOther w fs.graphPath (w.normalizeTarget out.root target) occ.range
  | _ => []

/-- The parts of one occurrence. -/
def occurrenceParts (w : Builder) (out : Outputs) (fs : FileSymbols) (occ : NameOccurrence) :
    List LayerPart :=
  if occ.role = .import_ ∧ occ.targetFile = none then gotoParts w out fs occ
  else match occ.targetFile, occ.targetName with
    | some targetFileRaw, some targetName =>
      match targetOf w (w.normalizeTarget out.root targetFileRaw) targetName
          occ.targetQualifiedName with
      | none => []
      | some (stub, did) =>
        resolvedParts w fs.graphPath (w.normalizeTarget out.root targetFileRaw) occ stub did
    | _, _ => []

/-- The parts of the references and imports of a file. -/
def referenceParts (w : Builder) (out : Outputs) (fs : FileSymbols) : List LayerPart :=
  ((out.occurrences fs.nativePath).getD []).flatMap (occurrenceParts w out fs)

/-- The part of the containment edge of a symbol. -/
def containmentParts (w : Builder) (file : String) (symbol : SymbolDto) : List LayerPart :=
  match symbol.durableId with
  | none => []
  | some did =>
    let parentId := w.parentId file symbol
    [⟨none, some (Builder.plainEdge parentId did
      (if parentId = makeModuleDurableId file then EdgeKind.defines else .contains))⟩]

/-- What a supertype leads to: a node of its file, a stub, or nothing. -/
def supertypeOf (w : Builder) (superFile name : String) :
    Option (Option (String × NodeData) × String) :=
  match w.findSymbolInFile superFile name with
  | some did => some (none, did)
  | none =>
    let package := match inferPackage superFile with
      | some p => some p
      | none => if (w.fileToNodes.lookup superFile).isSome then none else some "unknown"
    package.map fun pkg =>
      (some (makeExternalSymbolId pkg name, Builder.stubNode name (pkg ++ "." ++ name) .class_ pkg),
        makeExternalSymbolId pkg name)

/-- The part of one supertype of a class. -/
def supertypeParts (w : Builder) (out : Outputs) (did : String) (supertype : Supertype) :
    List LayerPart :=
  match supertypeOf w (w.normalizeTarget out.root supertype.path) supertype.name with
  | none => []
  | some (stub, superDid) => [⟨stub, some (Builder.plainEdge did superDid .inherits)⟩]

/-- The parts of the supertypes of one symbol. -/
def inheritParts (w : Builder) (out : Outputs) (fs : FileSymbols) (symbol : SymbolDto) :
    List LayerPart :=
  if symbol.kind = .class_ then
    match symbol.durableId, out.supertypes fs.nativePath (Builder.nameStart symbol) with
    | some did, some supertypes => supertypes.flatMap (supertypeParts w out did)
    | _, _ => []
  else []

/-- The part of the override edge of one method. -/
def overridePart (ancestors : FMap String String) (method : SymbolDto) : List LayerPart :=
  match ancestors.lookup method.name, method.durableId with
  | some parent, some did => [⟨none, some (Builder.plainEdge did parent .overrides)⟩]
  | _, _ => []

/-- The parts of the override edges of one class, by the ancestors in a
layer. -/
def overrideParts (w : Builder) (layer : Layer) (fs : FileSymbols) (symbol : SymbolDto) :
    List LayerPart :=
  if symbol.kind = .class_ then
    match w.findSymbolInFile fs.graphPath (symbol.qualifiedName.getD symbol.name) with
    | none => []
    | some did =>
      (Builder.childMethods fs.symbols symbol).flatMap (overridePart (ancestorMethods layer did))
  else []

/-! ## The passes add the parts -/

theorem addStubNode_eq (b : Builder) (did name qualifiedName : String) (kind : SymbolKindDto)
    (package : String) :
    b.addStubNode did name qualifiedName kind package =
      askStub b (some (did, Builder.stubNode name qualifiedName kind package)) := rfl

theorem normalizeTarget_eq {b w : Builder} (h : Sees b w) (root native : String) :
    b.normalizeTarget root native = w.normalizeTarget root native := by
  unfold Builder.normalizeTarget
  rw [h.projectFiles]

/-- Adding an import edge adds its parts. -/
theorem addImportEdge_eq {b w : Builder} (h : Sees b w) (source target : String) (range : Range) :
    b.addImportEdge source target range =
      (importParts w source target range).foldl applyPart b := by
  unfold Builder.addImportEdge importParts
  simp only [h.modules, h.projectFiles]
  split
  · split
    · rfl
    · split
      · rfl
      · rfl
  · rfl

theorem importOther_eq {b w : Builder} (h : Sees b w) (file target : String) (range : Range) :
    (if target ≠ file then b.addImportEdge file target range else b) =
      (importOther w file target range).foldl applyPart b := by
  unfold importOther
  split
  · exact addImportEdge_eq h file target range
  · rfl

/-- Resolving a target asks for its stub. -/
theorem referenceTarget_eq {b w : Builder} (h : Sees b w) (targetFile targetName : String)
    (qualified : Option String) :
    b.referenceTarget targetFile targetName qualified =
      match targetOf w targetFile targetName qualified with
      | none => (b, none)
      | some (stub, did) => (askStub b stub, some did) := by
  unfold Builder.referenceTarget targetOf Builder.ensureExternalTarget
  have hfind : b.findSymbolInFile targetFile = w.findSymbolInFile targetFile :=
    funext fun n => h.find targetFile n
  simp only [hfind, h.projectFiles, addStubNode_eq]
  cases qualified.bind (w.findSymbolInFile targetFile) with
  | some did => rfl
  | none =>
    cases w.findSymbolInFile targetFile targetName with
    | some did => rfl
    | none =>
      by_cases hproject : targetFile ∈ w.projectFiles
      · simp only [if_pos hproject]
      · simp only [if_neg hproject, externalTarget]
        cases inferPackage targetFile <;> rfl

theorem findEnclosingSymbol_eq {b w : Builder} (h : Sees b w) {file : String}
    (hcache : b.rangeCache.lookup file = some (w.rangeEntries file)) (range : Range) :
    b.findEnclosingSymbol file range = enclosing w file range := by
  unfold Builder.findEnclosingSymbol enclosing
  rw [hcache, h.modules]
  rfl

theorem askStub_rangeCache (b : Builder) (stub : Option (String × NodeData)) :
    (askStub b stub).rangeCache = b.rangeCache := by
  cases stub with
  | none => rfl
  | some request =>
    unfold askStub
    simp only
    split <;> rfl

theorem askEdge_rangeCache (b : Builder) (edge : Option Edge) :
    (askEdge b edge).rangeCache = b.rangeCache := by
  cases edge with
  | none => rfl
  | some edge =>
    unfold askEdge Builder.tryAddEdge
    simp only
    split <;> rfl

/-- Parts leave the range caches. -/
theorem applyParts_rangeCache (parts : List LayerPart) (b : Builder) :
    (parts.foldl applyPart b).rangeCache = b.rangeCache := by
  induction parts generalizing b with
  | nil => rfl
  | cons part parts ih =>
    rw [List.foldl_cons, ih]
    unfold applyPart
    rw [askEdge_rangeCache, askStub_rangeCache]

/-- Going on from a resolved target adds the parts of the occurrence. -/
theorem resolvedParts_eq {b w : Builder} {file targetFile : String} {occ : NameOccurrence}
    {stub : Option (String × NodeData)} {did : String} (hstub : Sees (askStub b stub) w)
    (hedge : ∀ edge, Sees (askEdge (askStub b stub) edge) w)
    (hcache : b.rangeCache.lookup file = some (w.rangeEntries file)) :
    (match (askStub b stub).findEnclosingSymbol file occ.range with
      | none => askStub b stub
      | some enclosingId =>
        if enclosingId = did then askStub b stub
        else if occ.role = .import_ then
          if targetFile ≠ file then (askStub b stub).addImportEdge file targetFile occ.range
          else askStub b stub
        else
          let b := (askStub b stub).tryAddEdge
            ⟨enclosingId, did, .references, some occ.role, some file, some occ.range⟩
          if targetFile ≠ file then b.addImportEdge file targetFile occ.range else b) =
      (resolvedParts w file targetFile occ stub did).foldl applyPart b := by
  have hfound := findEnclosingSymbol_eq hstub (by rw [askStub_rangeCache]; exact hcache) occ.range
  unfold resolvedParts
  rw [hfound]
  cases enclosing w file occ.range with
  | none => rfl
  | some enclosingId =>
    by_cases hself : enclosingId = did
    · simp only [if_pos hself]
      rfl
    · simp only [if_neg hself]
      by_cases himport : occ.role = .import_
      · simp only [if_pos himport]
        exact importOther_eq hstub file targetFile occ.range
      · simp only [if_neg himport]
        exact importOther_eq (hedge (some _)) file targetFile occ.range

/-- Resolving an occurrence adds its parts. -/
theorem resolveOccurrence_eq {b w : Builder} {out : Outputs} {fs : FileSymbols}
    {occ : NameOccurrence} (h : Sees b w)
    (hstub : ∀ part ∈ occurrenceParts w out fs occ, ∀ edge,
      Sees (askEdge (askStub b part.stub) edge) w)
    (hcache : b.rangeCache.lookup fs.graphPath = some (w.rangeEntries fs.graphPath)) :
    Builder.resolveOccurrence out fs.graphPath fs.nativePath b occ =
      (occurrenceParts w out fs occ).foldl applyPart b := by
  unfold Builder.resolveOccurrence
  unfold occurrenceParts at hstub ⊢
  split
  · unfold Builder.resolveImportViaGoto gotoParts
    simp only [normalizeTarget_eq h]
    cases out.gotoDefinition fs.nativePath occ.range.start with
    | none => rfl
    | some targets =>
      cases targets with
      | nil => rfl
      | cons target targets => exact importOther_eq h _ _ _
  · rename_i hrole
    rw [if_neg hrole] at hstub
    cases hfile : occ.targetFile with
    | none => rfl
    | some targetFileRaw =>
      cases hname : occ.targetName with
      | none => rfl
      | some targetName =>
        simp only [hfile, hname] at hstub
        simp only [normalizeTarget_eq h, referenceTarget_eq h]
        cases htarget : targetOf w (w.normalizeTarget out.root targetFileRaw) targetName
            occ.targetQualifiedName with
        | none => rfl
        | some found =>
          obtain ⟨stub, did⟩ := found
          simp only [htarget] at hstub
          have hasked : ∀ edge, Sees (askEdge (askStub b stub) edge) w := by
            have hmem : ∃ part ∈ resolvedParts w fs.graphPath
                (w.normalizeTarget out.root targetFileRaw) occ stub did, part.stub = stub := by
              unfold resolvedParts
              cases enclosing w fs.graphPath occ.range with
              | none => exact ⟨_, List.mem_cons_self, rfl⟩
              | some enclosingId =>
                simp only
                split
                · exact ⟨_, List.mem_cons_self, rfl⟩
                · split <;> exact ⟨_, List.mem_cons_self, rfl⟩
            obtain ⟨part, hpart, rfl⟩ := hmem
            exact hstub part hpart
          exact resolvedParts_eq (hasked none) hasked hcache

/-- Resolving a supertype asks for its stub. -/
theorem supertypeTarget_eq {b w : Builder} (h : Sees b w) (superFile name : String) :
    b.supertypeTarget superFile name =
      match supertypeOf w superFile name with
      | none => (b, none)
      | some (stub, did) => (askStub b stub, some did) := by
  unfold Builder.supertypeTarget supertypeOf
  simp only [h.find, h.listed, addStubNode_eq]
  cases w.findSymbolInFile superFile name with
  | some did => rfl
  | none =>
    cases inferPackage superFile with
    | some package => rfl
    | none => cases (w.fileToNodes.lookup superFile).isSome <;> rfl

/-- Inheriting from a supertype adds its part. -/
theorem inheritFrom_eq {b w : Builder} (h : Sees b w) (out : Outputs) (did : String)
    (supertype : Supertype) :
    Builder.inheritFrom out did b supertype =
      (supertypeParts w out did supertype).foldl applyPart b := by
  unfold Builder.inheritFrom supertypeParts
  rw [normalizeTarget_eq h, supertypeTarget_eq h]
  cases supertypeOf w (w.normalizeTarget out.root supertype.path) supertype.name with
  | none => rfl
  | some found => rfl

/-! ## The parts fit the files -/

theorem colon_mem_makeExternalSymbolId (packageOrFile name : String) :
    ':' ∈ (makeExternalSymbolId packageOrFile name).toList := by
  unfold makeExternalSymbolId
  simp only [String.toList_append, List.mem_append]
  exact .inl (.inr (by decide))

theorem colon_mem_makeExternalModuleId (package : String) :
    ':' ∈ (makeExternalModuleId package).toList :=
  colon_mem_makeExternalSymbolId package moduleQualifiedName

section Fits

variable {files : Set FileSymbols} {w : Builder} (hw : Holds files w)
include hw

/-- A name leads to an id of a held file with this path. -/
theorem mem_of_find {file n id : String} (h : w.findSymbolInFile file n = some id) :
    ∃ g ∈ files, g.graphPath = file ∧ id ∈ (solo g).idsOf g.graphPath := by
  have hscan : Builder.findSymbolInFile.scan w file n = some id → id ∈ w.idsOf file :=
    fun hfound => List.mem_of_find?_eq_some hfound
  rcases held_or_not files file with ⟨g, hg, rfl⟩ | hnone
  · refine ⟨g, hg, rfl, ?_⟩
    have hids := hw.lists.idsOf_eq hg
    unfold Builder.findSymbolInFile at h
    cases hcached : w.nameToId.lookup (g.graphPath, n) with
    | none =>
      rw [hcached] at h
      exact hids ▸ hscan h
    | some cached =>
      rw [hcached] at h
      by_cases hempty : cached ≠ ""
      · simp only [if_pos hempty] at h
        rw [hw.names.own g hg n] at hcached
        rw [← Option.some.inj h]
        exact ((filed_solo g).names n cached hcached).resolve_left hempty
      · simp only [if_neg hempty] at h
        exact hids ▸ hscan h
  · have hids := hw.lists.idsOf_none hnone
    unfold Builder.findSymbolInFile at h
    rw [hw.names.none file hnone n] at h
    have hin := hscan h
    rw [hids] at hin
    exact absurd hin List.not_mem_nil

/-- A module node belongs to a held file with its path. -/
theorem mem_of_module (hsep : Separate files) {file : String}
    (h : w.layer.hasNode (makeModuleDurableId file) = true) :
    ∃ g ∈ files, g.graphPath = file ∧ makeModuleDurableId file ∈ (solo g).idsOf g.graphPath := by
  rcases held_or_not files file with ⟨g, hg, rfl⟩ | hnone
  · exact ⟨g, hg, rfl, (filed_solo g).module_⟩
  · rw [hasNode_eq_false_iff.mpr (no_module_of_not_held hsep hw hnone)] at h
    cases h

theorem mem_of_enclosing {fs : FileSymbols} (hfs : fs ∈ files) {range : Range} {id : String}
    (h : enclosing w fs.graphPath range = some id) : id ∈ (solo fs).idsOf fs.graphPath := by
  unfold enclosing at h
  split at h
  · rename_i entry hentry
    have hmem := List.mem_of_find?_eq_some hentry
    unfold Builder.rangeEntries at hmem
    simp only [List.mem_insertionSort, List.mem_filterMap] at hmem
    obtain ⟨did, hdid, hnode⟩ := hmem
    rw [hw.lists.idsOf_eq hfs] at hdid
    rw [← Option.some.inj h]
    cases hlookup : w.layer.nodes.lookup did with
    | none => simp [hlookup] at hnode
    | some node =>
      simp only [hlookup] at hnode
      split at hnode
      · cases hnode
      · rw [← Option.some.inj hnode]
        exact hdid
  · split at h
    · rw [← Option.some.inj h]
      exact (filed_solo fs).module_
    · cases h

/-- A supertype or reference target is an id of a held file or the stub that
is asked for. -/
def Reaches (files : Set FileSymbols) (found : Option (String × NodeData) × String) : Prop :=
  (∃ g ∈ files, found.2 ∈ (solo g).idsOf g.graphPath) ∨ ∃ node, found.1 = some (found.2, node)

/-- A stub that is asked for looks like one. -/
def AsksStub (stub : Option (String × NodeData)) : Prop :=
  ∀ id node, stub = some (id, node) → node.external = true ∧ ':' ∈ id.toList

omit hw in
theorem asksStub_none : AsksStub none := fun _ _ h => by cases h

omit hw in
theorem partOf_stub {fs : FileSymbols} {stub : Option (String × NodeData)} (h : AsksStub stub) :
    PartOf files fs ⟨stub, none⟩ := by
  refine ⟨h, ?_, ?_⟩
  · intro edge hedge
    cases hedge
  · intro edge hedge
    cases hedge

omit hw in
theorem partOf_edge {fs : FileSymbols} {stub : Option (String × NodeData)} {edge : Edge}
    (h : AsksStub stub) (hsource : edge.source ∈ (solo fs).idsOf fs.graphPath)
    (htarget : Reaches files (stub, edge.target)) : PartOf files fs ⟨stub, some edge⟩ := by
  refine ⟨h, ?_, ?_⟩
  · intro e he
    rw [← Option.some.inj he]
    exact hsource
  · intro e he
    rw [← Option.some.inj he]
    exact htarget

theorem partOf_import (hsep : Separate files) {fs : FileSymbols} {target : String} {range : Range}
    {part : LayerPart} (h : part ∈ importOther w fs.graphPath target range) : PartOf files fs part := by
  have hsource := (filed_solo fs).module_
  unfold importOther importParts at h
  split at h
  swap
  · exact absurd h List.not_mem_nil
  split at h
  swap
  · exact absurd h List.not_mem_nil
  split at h
  · rename_i hmodule
    obtain ⟨g, hg, -, hid⟩ := mem_of_module hw hsep hmodule
    rw [List.mem_singleton.mp h]
    exact partOf_edge asksStub_none hsource (.inl ⟨g, hg, hid⟩)
  · split at h
    · exact absurd h List.not_mem_nil
    · rw [List.mem_singleton.mp h]
      refine partOf_edge ?_ hsource (.inr ⟨_, rfl⟩)
      intro id node hstub
      cases hstub
      exact ⟨rfl, colon_mem_makeExternalModuleId _⟩

theorem targetOf_fits {targetFile targetName : String} {qualified : Option String}
    {found : Option (String × NodeData) × String}
    (h : targetOf w targetFile targetName qualified = some found) :
    AsksStub found.1 ∧ Reaches files found := by
  unfold targetOf at h
  split at h
  · rename_i did hfind
    cases h
    obtain ⟨name, -, hname⟩ := Option.bind_eq_some_iff.mp hfind
    obtain ⟨g, hg, -, hid⟩ := mem_of_find hw hname
    exact ⟨asksStub_none, .inl ⟨g, hg, hid⟩⟩
  · split at h
    · rename_i did hfind
      cases h
      obtain ⟨g, hg, -, hid⟩ := mem_of_find hw hfind
      exact ⟨asksStub_none, .inl ⟨g, hg, hid⟩⟩
    · split at h
      · cases h
      · cases h
        refine ⟨?_, .inr ⟨_, rfl⟩⟩
        intro id node hstub
        cases hstub
        exact ⟨rfl, colon_mem_makeExternalSymbolId _ _⟩

theorem partOf_occurrence (hsep : Separate files) {out : Outputs} {fs : FileSymbols}
    (hfs : fs ∈ files) {occ : NameOccurrence} {part : LayerPart}
    (h : part ∈ occurrenceParts w out fs occ) : PartOf files fs part := by
  unfold occurrenceParts at h
  split at h
  · unfold gotoParts at h
    split at h
    · exact partOf_import hw hsep h
    · exact absurd h List.not_mem_nil
  · split at h
    swap
    · exact absurd h List.not_mem_nil
    split at h
    · exact absurd h List.not_mem_nil
    · rename_i stub did htarget
      have hfits := targetOf_fits hw htarget
      unfold resolvedParts at h
      split at h
      · rw [List.mem_singleton.mp h]
        exact partOf_stub hfits.1
      · rename_i enclosingId henclosing
        have hsource := mem_of_enclosing hw hfs henclosing
        split at h
        · rw [List.mem_singleton.mp h]
          exact partOf_stub hfits.1
        · split at h
          · rcases List.mem_cons.mp h with hfirst | himport
            · rw [hfirst]
              exact partOf_stub hfits.1
            · exact partOf_import hw hsep himport
          · rcases List.mem_cons.mp h with hfirst | himport
            · rw [hfirst]
              exact partOf_edge hfits.1 hsource hfits.2
            · exact partOf_import hw hsep himport

omit hw in
/-- The id of a symbol is an id of its file. -/
theorem mem_idsOf_of_symbol {fs : FileSymbols} {symbol : SymbolDto} {did : String}
    (hmem : symbol ∈ fs.symbols) (hdid : symbol.durableId = some did) :
    did ∈ (solo fs).idsOf fs.graphPath :=
  ((filed_solo fs).listed did).mpr (hasNode_solo hmem hdid)

theorem partOf_containment (hsep : Separate files) {fs : FileSymbols} (hfs : fs ∈ files)
    {symbol : SymbolDto} (hmem : symbol ∈ fs.symbols) {part : LayerPart}
    (h : part ∈ containmentParts w fs.graphPath symbol) : PartOf files fs part := by
  unfold containmentParts at h
  split at h
  · exact absurd h List.not_mem_nil
  · rename_i did hdid
    have hsource : w.parentId fs.graphPath symbol ∈ (solo fs).idsOf fs.graphPath := by
      unfold Builder.parentId
      split
      · rename_i cn _
        cases hfind : w.findSymbolInFile fs.graphPath cn with
        | none => exact (filed_solo fs).module_
        | some id =>
          obtain ⟨g, hg, hpath, hid⟩ := mem_of_find hw hfind
          rw [hsep.paths g hg fs hfs hpath] at hid
          exact hid
      · exact (filed_solo fs).module_
    rw [List.mem_singleton.mp h]
    exact partOf_edge asksStub_none hsource (.inl ⟨fs, hfs, mem_idsOf_of_symbol hmem hdid⟩)

theorem partOf_inherit {out : Outputs} {fs : FileSymbols} {symbol : SymbolDto}
    (hmem : symbol ∈ fs.symbols) {part : LayerPart} (h : part ∈ inheritParts w out fs symbol) :
    PartOf files fs part := by
  unfold inheritParts at h
  split at h
  swap
  · exact absurd h List.not_mem_nil
  split at h
  swap
  · exact absurd h List.not_mem_nil
  rename_i did supertypes hdid _
  obtain ⟨supertype, -, hpart⟩ := List.mem_flatMap.mp h
  unfold supertypeParts at hpart
  split at hpart
  · exact absurd hpart List.not_mem_nil
  rename_i stub superDid hsuper
  have hfits : AsksStub stub ∧ Reaches files (stub, superDid) := by
    unfold supertypeOf at hsuper
    split at hsuper
    · rename_i found hfind
      cases hsuper
      obtain ⟨g, hg, -, hid⟩ := mem_of_find hw hfind
      exact ⟨asksStub_none, .inl ⟨g, hg, hid⟩⟩
    · obtain ⟨pkg, -, hpkg⟩ := Option.map_eq_some_iff.mp hsuper
      cases hpkg
      refine ⟨?_, .inr ⟨_, rfl⟩⟩
      intro id node hstub
      cases hstub
      exact ⟨rfl, colon_mem_makeExternalSymbolId _ _⟩
  rw [List.mem_singleton.mp hpart]
  exact partOf_edge hfits.1 (mem_idsOf_of_symbol hmem hdid) hfits.2

end Fits

end Tyo3.CodeLayerParts
