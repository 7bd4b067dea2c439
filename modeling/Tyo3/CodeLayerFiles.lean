import Tyo3.CodeLayerBuilder
import Tyo3.ReverseDependencies

/-!
# The part of one file in the code layer

The nodes, the name table and the id list of a file depend on its symbols
alone: they are those of a builder that has seen nothing but this file. A
builder holds a set of files when its parts are those of these files and all
its other nodes are stubs. Materializing a file adds its part, evicting one
drops it, and replaying the previous layer restores the name tables.
-/

namespace Tyo3.CodeLayerFiles

open CodeLayer CodeLayerBuilder FiniteMaps

/-- The builder that has seen one file only. -/
def solo (fs : FileSymbols) : Builder :=
  Builder.new.materializeFileNodes fs.graphPath fs.symbols

/-! ## Registering names -/

/-- The entry of a name after a node is registered under it. -/
def registered (existing : Option String) (did : String) : String :=
  match existing with
  | none => did
  | some id => if id = did then did else ""

theorem registerName_lookup (b : Builder) (file name did : String) (key : String × String) :
    (b.registerName file name did).nameToId.lookup key =
      if key = (file, name) then some (registered (b.nameToId.lookup (file, name)) did)
      else b.nameToId.lookup key := by
  unfold Builder.registerName registered
  cases hold : b.nameToId.lookup (file, name) with
  | none => simp only [lookup_insert_ite]
  | some existing =>
    by_cases hsame : existing = did
    · simp only [if_pos hsame]
      by_cases hkey : key = (file, name)
      · rw [if_pos hkey, hkey, hold, hsame]
      · rw [if_neg hkey]
    · simp only [if_neg hsame, lookup_insert_ite]

@[simp] theorem registerName_layer (b : Builder) (file name did : String) :
    (b.registerName file name did).layer = b.layer := by
  unfold Builder.registerName
  split
  · rfl
  · split <;> rfl

@[simp] theorem registerName_fileToNodes (b : Builder) (file name did : String) :
    (b.registerName file name did).fileToNodes = b.fileToNodes := by
  unfold Builder.registerName
  split
  · rfl
  · split <;> rfl

@[simp] theorem registerName_rangeCache (b : Builder) (file name did : String) :
    (b.registerName file name did).rangeCache = b.rangeCache := by
  unfold Builder.registerName
  split
  · rfl
  · split <;> rfl

@[simp] theorem registerName_projectFiles (b : Builder) (file name did : String) :
    (b.registerName file name did).projectFiles = b.projectFiles := by
  unfold Builder.registerName
  split
  · rfl
  · split <;> rfl

/-- Two builders with the same names in a file have the same names in it
after the same registration. -/
theorem registerName_congr {b b' : Builder} {file : String}
    (h : ∀ n, b.nameToId.lookup (file, n) = b'.nameToId.lookup (file, n)) (name did n : String) :
    (b.registerName file name did).nameToId.lookup (file, n) =
      (b'.registerName file name did).nameToId.lookup (file, n) := by
  rw [registerName_lookup, registerName_lookup, h name, h n]

/-- Registration in one file leaves the names of the others. -/
theorem registerName_other (b : Builder) {file other : String} (hne : other ≠ file)
    (name did n : String) :
    (b.registerName file name did).nameToId.lookup (other, n) = b.nameToId.lookup (other, n) := by
  rw [registerName_lookup, if_neg]
  exact fun hkey => hne (congrArg Prod.fst hkey)

/-! ## Materializing a symbol -/

/-- The builder after a symbol with a new id. -/
def withSymbol (b : Builder) (file : String) (symbol : SymbolDto) (did : String) : Builder :=
  (((b.upsertNode did (Builder.symbolNode file symbol)).registerName file symbol.name did).registerName
    file (symbol.qualifiedName.getD symbol.name) did).pushNode file did

theorem materializeSymbol_eq (b : Builder) (file : String) (symbol : SymbolDto) :
    Builder.materializeSymbol file b symbol =
      match symbol.durableId with
      | none => b
      | some did => if b.layer.hasNode did then b else withSymbol b file symbol did := rfl

theorem withSymbol_nodes (b : Builder) (file : String) (symbol : SymbolDto) (did id : String) :
    (withSymbol b file symbol did).layer.nodes.lookup id =
      if id = did then some (Builder.symbolNode file symbol) else b.layer.nodes.lookup id := by
  unfold withSymbol Builder.pushNode
  simp only [registerName_layer]
  exact lookup_insert_ite _ _ _ _

theorem withSymbol_fileToNodes (b : Builder) (file : String) (symbol : SymbolDto)
    (did other : String) :
    (withSymbol b file symbol did).fileToNodes.lookup other =
      if other = file then some (b.idsOf file ++ [did]) else b.fileToNodes.lookup other := by
  unfold withSymbol Builder.pushNode Builder.idsOf
  simp only [registerName_fileToNodes]
  exact lookup_insert_ite _ _ _ _

theorem withSymbol_idsOf (b : Builder) (file : String) (symbol : SymbolDto) (did : String) :
    (withSymbol b file symbol did).idsOf file = b.idsOf file ++ [did] := by
  unfold Builder.idsOf
  rw [withSymbol_fileToNodes, if_pos rfl]
  rfl

theorem withSymbol_names (b : Builder) (file : String) (symbol : SymbolDto) (did n : String) :
    (withSymbol b file symbol did).nameToId.lookup (file, n) =
      ((b.registerName file symbol.name did).registerName file
        (symbol.qualifiedName.getD symbol.name) did).nameToId.lookup (file, n) := by
  have hbase : ∀ m, (b.upsertNode did (Builder.symbolNode file symbol)).nameToId.lookup (file, m) =
      b.nameToId.lookup (file, m) := fun _ => rfl
  exact registerName_congr (registerName_congr hbase _ _) _ _ n

theorem withSymbol_otherNames (b : Builder) {file other : String} (hne : other ≠ file)
    (symbol : SymbolDto) (did n : String) :
    (withSymbol b file symbol did).nameToId.lookup (other, n) = b.nameToId.lookup (other, n) := by
  unfold withSymbol Builder.pushNode
  simp only
  rw [registerName_other _ hne, registerName_other _ hne]
  rfl

/-- The builder after the module node of a file. -/
def withModule (b : Builder) (file : String) : Builder :=
  Builder.pushNode
    { b.upsertNode (makeModuleDurableId file) (Builder.moduleNode file) with
      nameToId := b.nameToId.insert (file, moduleQualifiedName) (makeModuleDurableId file) }
    file (makeModuleDurableId file)

theorem materializeModule_eq (b : Builder) (file : String) :
    b.materializeModule file =
      if b.layer.hasNode (makeModuleDurableId file) then b else withModule b file := rfl

theorem withModule_nodes (b : Builder) (file id : String) :
    (withModule b file).layer.nodes.lookup id =
      if id = makeModuleDurableId file then some (Builder.moduleNode file)
      else b.layer.nodes.lookup id := lookup_insert_ite _ _ _ _

theorem withModule_fileToNodes (b : Builder) (file other : String) :
    (withModule b file).fileToNodes.lookup other =
      if other = file then some (b.idsOf file ++ [makeModuleDurableId file])
      else b.fileToNodes.lookup other := lookup_insert_ite _ _ _ _

theorem withModule_names (b : Builder) (file : String) (key : String × String) :
    (withModule b file).nameToId.lookup key =
      if key = (file, moduleQualifiedName) then some (makeModuleDurableId file)
      else b.nameToId.lookup key := lookup_insert_ite _ _ _ _

/-! ## A file next to others -/

/-- The durable ids of the symbols of a file. -/
def durableIds (fs : FileSymbols) : List String := fs.symbols.filterMap SymbolDto.durableId

/-- The ids a file may have nodes under. -/
def fileIds (fs : FileSymbols) : List String :=
  makeModuleDurableId fs.graphPath :: durableIds fs

/-- Nothing in a builder belongs to a file. -/
structure Fresh (fs : FileSymbols) (b : Builder) : Prop where
  /-- No list of ids. -/
  lists : b.fileToNodes.lookup fs.graphPath = none
  /-- No names. -/
  names : ∀ n, b.nameToId.lookup (fs.graphPath, n) = none
  /-- No nodes. -/
  nodes : ∀ id ∈ fileIds fs, b.layer.nodes.lookup id = none

/-- One builder is another one with the part of a file taken from a third. -/
structure Joins (file : String) (b part joined : Builder) : Prop where
  /-- Nodes of both. -/
  nodes : ∀ id, joined.layer.nodes.lookup id =
    (part.layer.nodes.lookup id).or (b.layer.nodes.lookup id)
  /-- Names of the file. -/
  names : ∀ n, joined.nameToId.lookup (file, n) = part.nameToId.lookup (file, n)
  /-- Names of the other files. -/
  otherNames : ∀ other n, other ≠ file →
    joined.nameToId.lookup (other, n) = b.nameToId.lookup (other, n)
  /-- The list of the file. -/
  lists : joined.fileToNodes.lookup file = part.fileToNodes.lookup file
  /-- The lists of the other files. -/
  otherLists : ∀ other, other ≠ file →
    joined.fileToNodes.lookup other = b.fileToNodes.lookup other

theorem Joins.idsOf_eq {file : String} {b part joined : Builder} (h : Joins file b part joined) :
    joined.idsOf file = part.idsOf file := by
  unfold Builder.idsOf
  rw [h.lists]

/-- The module node joins to a builder without the file. -/
theorem joins_module {fs : FileSymbols} {b : Builder} (h : Fresh fs b) :
    Joins fs.graphPath b (Builder.new.materializeModule fs.graphPath)
      (b.materializeModule fs.graphPath) := by
  have hnode := h.nodes (makeModuleDurableId fs.graphPath) List.mem_cons_self
  have habsent : b.layer.hasNode (makeModuleDurableId fs.graphPath) = false := by
    unfold Layer.hasNode
    rw [hnode]
    rfl
  have hlists : b.idsOf fs.graphPath = [] := by
    unfold Builder.idsOf
    rw [h.lists]
    rfl
  have hpart : Builder.new.materializeModule fs.graphPath = withModule Builder.new fs.graphPath := rfl
  have hjoined : b.materializeModule fs.graphPath = withModule b fs.graphPath := by
    rw [materializeModule_eq, habsent]
    rfl
  rw [hpart, hjoined]
  constructor
  · intro id
    rw [withModule_nodes, withModule_nodes]
    split <;> rfl
  · intro n
    rw [withModule_names, withModule_names, h.names n]
    rfl
  · intro other n hne
    rw [withModule_names, if_neg fun hkey => hne (congrArg Prod.fst hkey)]
  · rw [withModule_fileToNodes, withModule_fileToNodes, if_pos rfl, if_pos rfl, hlists]
    rfl
  · intro other hne
    rw [withModule_fileToNodes, if_neg hne]

/-- A symbol joins to a builder without its id. -/
theorem Joins.symbol {file : String} {b part joined : Builder} (h : Joins file b part joined)
    (symbol : SymbolDto)
    (hfresh : ∀ did, symbol.durableId = some did → b.layer.nodes.lookup did = none) :
    Joins file b (Builder.materializeSymbol file part symbol)
      (Builder.materializeSymbol file joined symbol) := by
  rw [materializeSymbol_eq, materializeSymbol_eq]
  cases hdid : symbol.durableId with
  | none => exact h
  | some did =>
    have hsame : joined.layer.hasNode did = part.layer.hasNode did := by
      unfold Layer.hasNode
      rw [h.nodes did, hfresh did hdid, Option.or_none]
    simp only [hsame]
    split
    · exact h
    · constructor
      · intro id
        rw [withSymbol_nodes, withSymbol_nodes, h.nodes id]
        split <;> rfl
      · intro n
        rw [withSymbol_names, withSymbol_names]
        exact registerName_congr (registerName_congr h.names _ _) _ _ _
      · intro other n hne
        rw [withSymbol_otherNames _ hne, h.otherNames other n hne]
      · rw [withSymbol_fileToNodes, withSymbol_fileToNodes, if_pos rfl, if_pos rfl, h.idsOf_eq]
      · intro other hne
        rw [withSymbol_fileToNodes, if_neg hne, h.otherLists other hne]

/-- A file joins to a builder without it. -/
theorem joins_file {fs : FileSymbols} {b : Builder} (h : Fresh fs b) :
    Joins fs.graphPath b (solo fs) (b.materializeFileNodes fs.graphPath fs.symbols) := by
  have hfold : ∀ (symbols : List SymbolDto) (part joined : Builder),
      (∀ symbol ∈ symbols, symbol ∈ fs.symbols) → Joins fs.graphPath b part joined →
      Joins fs.graphPath b (symbols.foldl (Builder.materializeSymbol fs.graphPath) part)
        (symbols.foldl (Builder.materializeSymbol fs.graphPath) joined) := by
    intro symbols
    induction symbols with
    | nil => exact fun _ _ _ hjoins => hjoins
    | cons symbol symbols ih =>
      intro part joined hmem hjoins
      apply ih _ _ fun s hs => hmem s (List.mem_cons_of_mem _ hs)
      apply hjoins.symbol
      intro did hdid
      apply h.nodes
      apply List.mem_cons_of_mem
      exact List.mem_filterMap.mpr ⟨symbol, hmem symbol List.mem_cons_self, hdid⟩
  exact hfold fs.symbols _ _ (fun _ hs => hs) (joins_module h)

/-! ## A file alone -/

/-- What holds with the module node and is kept by every symbol holds of the
whole file. -/
theorem solo_induction {fs : FileSymbols} {P : Builder → Prop}
    (hmodule : P (withModule Builder.new fs.graphPath))
    (hsymbol : ∀ b symbol did, symbol ∈ fs.symbols → symbol.durableId = some did →
      b.layer.hasNode did = false → P b → P (withSymbol b fs.graphPath symbol did)) :
    P (solo fs) := by
  have hfold : ∀ (symbols : List SymbolDto) (b : Builder),
      (∀ symbol ∈ symbols, symbol ∈ fs.symbols) → P b →
      P (symbols.foldl (Builder.materializeSymbol fs.graphPath) b) := by
    intro symbols
    induction symbols with
    | nil => exact fun _ _ hb => hb
    | cons symbol symbols ih =>
      intro b hmem hb
      apply ih _ fun s hs => hmem s (List.mem_cons_of_mem _ hs)
      rw [materializeSymbol_eq]
      cases hdid : symbol.durableId with
      | none => exact hb
      | some did =>
        simp only
        split
        · exact hb
        · rename_i hhas
          have habsent : b.layer.hasNode did = false := Bool.eq_false_iff.mpr hhas
          exact hsymbol b symbol did (hmem symbol List.mem_cons_self) hdid habsent hb
  exact hfold fs.symbols _ (fun _ hs => hs) hmodule

theorem hasNode_iff {layer : Layer} {id : String} :
    layer.hasNode id = true ↔ ∃ node, layer.nodes.lookup id = some node := by
  unfold Layer.hasNode
  exact Option.isSome_iff_exists

theorem hasNode_eq_false_iff {layer : Layer} {id : String} :
    layer.hasNode id = false ↔ layer.nodes.lookup id = none := by
  unfold Layer.hasNode
  exact Option.isSome_eq_false_iff.trans Option.isNone_iff_eq_none

/-- The tables of a file alone fit together. -/
structure Filed (fs : FileSymbols) (b : Builder) : Prop where
  /-- The listed ids are those with a node. -/
  listed : ∀ id, id ∈ b.idsOf fs.graphPath ↔ b.layer.hasNode id = true
  /-- Every node belongs to the file. -/
  inside : ∀ id node, b.layer.nodes.lookup id = some node →
    node.external = false ∧ id ∈ fileIds fs
  /-- A name leads to a listed id unless it is ambiguous. -/
  names : ∀ n id, b.nameToId.lookup (fs.graphPath, n) = some id →
    id = "" ∨ id ∈ b.idsOf fs.graphPath
  /-- The module node is listed. -/
  module_ : makeModuleDurableId fs.graphPath ∈ b.idsOf fs.graphPath

theorem withModule_idsOf_new (file : String) :
    (withModule Builder.new file).idsOf file = [makeModuleDurableId file] := by
  unfold Builder.idsOf
  rw [withModule_fileToNodes, if_pos rfl]
  rfl

theorem registered_eq (existing : Option String) (did : String) :
    registered existing did = did ∨ registered existing did = "" := by
  unfold registered
  cases existing with
  | none => exact .inl rfl
  | some id =>
    by_cases hsame : id = did
    · exact .inl (if_pos hsame)
    · exact .inr (if_neg hsame)

/-- A registration adds no name of another node. -/
theorem registerName_value {b : Builder} {file name did n id : String}
    (h : (b.registerName file name did).nameToId.lookup (file, n) = some id) :
    id = "" ∨ id = did ∨ b.nameToId.lookup (file, n) = some id := by
  rw [registerName_lookup] at h
  split at h
  · rcases registered_eq (b.nameToId.lookup (file, name)) did with hdid | hnone
    · exact .inr (.inl (Option.some.inj h ▸ hdid))
    · exact .inl (Option.some.inj h ▸ hnone)
  · exact .inr (.inr h)

theorem filed_module (fs : FileSymbols) : Filed fs (withModule Builder.new fs.graphPath) := by
  have hids := withModule_idsOf_new fs.graphPath
  have hnodes : ∀ id node,
      (withModule Builder.new fs.graphPath).layer.nodes.lookup id = some node →
      id = makeModuleDurableId fs.graphPath ∧ node = Builder.moduleNode fs.graphPath := by
    intro id node hnode
    rw [withModule_nodes] at hnode
    split at hnode
    · rename_i hid
      exact ⟨hid, (Option.some.inj hnode).symm⟩
    · cases hnode
  constructor
  · intro id
    rw [hids, List.mem_singleton, hasNode_iff]
    constructor
    · intro hid
      exact ⟨Builder.moduleNode fs.graphPath, by rw [withModule_nodes, if_pos hid]⟩
    · intro hnode
      exact (hnodes id _ hnode.choose_spec).1
  · intro id node hnode
    have hboth := hnodes id node hnode
    rw [hboth.1, hboth.2]
    exact ⟨rfl, List.mem_cons_self⟩
  · intro n id hname
    rw [withModule_names] at hname
    split at hname
    · rw [hids, List.mem_singleton]
      exact .inr (Option.some.inj hname).symm
    · cases hname
  · rw [hids]
    exact List.mem_singleton_self _

theorem Filed.symbol {fs : FileSymbols} {b : Builder} (h : Filed fs b) {symbol : SymbolDto}
    {did : String} (hmem : symbol ∈ fs.symbols) (hdid : symbol.durableId = some did) :
    Filed fs (withSymbol b fs.graphPath symbol did) := by
  have hids := withSymbol_idsOf b fs.graphPath symbol did
  constructor
  · intro id
    rw [hids, List.mem_append, List.mem_singleton, h.listed id, hasNode_iff, hasNode_iff,
      withSymbol_nodes]
    by_cases hid : id = did
    · rw [if_pos hid]
      exact ⟨fun _ => ⟨_, rfl⟩, fun _ => .inr hid⟩
    · rw [if_neg hid]
      exact ⟨fun hold => hold.resolve_right hid, .inl⟩
  · intro id node hnode
    rw [withSymbol_nodes] at hnode
    split at hnode
    · rename_i hid
      rw [hid, ← Option.some.inj hnode]
      exact ⟨rfl, List.mem_cons_of_mem _ (List.mem_filterMap.mpr ⟨symbol, hmem, hdid⟩)⟩
    · exact h.inside id node hnode
  · intro n id hname
    rw [withSymbol_names] at hname
    rw [hids, List.mem_append, List.mem_singleton]
    rcases registerName_value hname with hnone | hnew | hname'
    · exact .inl hnone
    · exact .inr (.inr hnew)
    · rcases registerName_value hname' with hnone | hnew | hold
      · exact .inl hnone
      · exact .inr (.inr hnew)
      · exact (h.names n id hold).imp_right .inl
  · rw [hids]
    exact List.mem_append_left _ h.module_

/-- The tables of a file alone fit together. -/
theorem filed_solo (fs : FileSymbols) : Filed fs (solo fs) :=
  solo_induction (filed_module fs) fun _ _ _ hmem hdid _ h => h.symbol hmem hdid

/-- The module node of a file is never replaced. -/
theorem module_solo (fs : FileSymbols) :
    (solo fs).layer.nodes.lookup (makeModuleDurableId fs.graphPath) =
      some (Builder.moduleNode fs.graphPath) := by
  refine solo_induction (P := fun s => s.layer.nodes.lookup (makeModuleDurableId fs.graphPath) =
    some (Builder.moduleNode fs.graphPath)) ?_ ?_
  · rw [withModule_nodes, if_pos rfl]
  · intro b symbol did _ _ habsent hmodule
    have hne : makeModuleDurableId fs.graphPath ≠ did := by
      intro hsame
      rw [hsame] at hmodule
      have hhas := hasNode_iff.mpr ⟨_, hmodule⟩
      rw [habsent] at hhas
      cases hhas
    rw [withSymbol_nodes, if_neg hne]
    exact hmodule

/-- Every symbol with an id has a node. -/
theorem hasNode_solo {fs : FileSymbols} {symbol : SymbolDto} {did : String}
    (hmem : symbol ∈ fs.symbols) (hdid : symbol.durableId = some did) :
    (solo fs).layer.hasNode did = true := by
  have hkeep : ∀ (b : Builder) (s : SymbolDto), b.layer.hasNode did = true →
      (Builder.materializeSymbol fs.graphPath b s).layer.hasNode did = true := by
    intro b s hb
    rw [materializeSymbol_eq]
    split
    · exact hb
    · split
      · exact hb
      · rename_i did' _ _
        rw [hasNode_iff, withSymbol_nodes]
        split
        · exact ⟨_, rfl⟩
        · exact hasNode_iff.mp hb
  have hmake : ∀ b : Builder,
      (Builder.materializeSymbol fs.graphPath b symbol).layer.hasNode did = true := by
    intro b
    rw [materializeSymbol_eq, hdid]
    simp only
    split
    · rename_i hhas
      exact hhas
    · rw [hasNode_iff, withSymbol_nodes, if_pos rfl]
      exact ⟨_, rfl⟩
  have hfold : ∀ (symbols : List SymbolDto) (b : Builder),
      (symbol ∈ symbols ∨ b.layer.hasNode did = true) →
      (symbols.foldl (Builder.materializeSymbol fs.graphPath) b).layer.hasNode did = true := by
    intro symbols
    induction symbols with
    | nil => exact fun b hb => hb.resolve_left List.not_mem_nil
    | cons s symbols ih =>
      intro b hb
      apply ih
      rcases hb with hin | hhas
      · rcases List.mem_cons.mp hin with hsame | hrest
        · exact .inr (hsame ▸ hmake b)
        · exact .inl hrest
      · exact .inr (hkeep b s hhas)
  exact hfold fs.symbols _ (.inl hmem)

/-! ## Sets of files -/

/-- Ids of the shape of a stub. -/
def StubShaped (id : String) : Prop := isModuleId id = false ∧ ':' ∈ id.toList

/-- The files of a project keep apart: no two have one path or share a
durable id, and durable ids have neither the shape of a module id nor that of
a stub. -/
structure Separate (files : Set FileSymbols) : Prop where
  /-- One file for a path. -/
  paths : ∀ fs ∈ files, ∀ fs' ∈ files, fs.graphPath = fs'.graphPath → fs = fs'
  /-- One file for a durable id. -/
  owners : ∀ fs ∈ files, ∀ fs' ∈ files, ∀ did ∈ durableIds fs, did ∈ durableIds fs' → fs = fs'
  /-- Shape of the durable ids. -/
  shapes : ∀ fs ∈ files, ∀ did ∈ durableIds fs, isModuleId did = false ∧ ':' ∉ did.toList
  /-- Only a module is called like one. -/
  qualified : ∀ fs ∈ files, ∀ symbol ∈ fs.symbols,
    symbol.qualifiedName.getD symbol.name ≠ moduleQualifiedName

theorem Separate.mono {files files' : Set FileSymbols} (h : Separate files) (hsub : files' ⊆ files) :
    Separate files' where
  paths fs hfs fs' hfs' := h.paths fs (hsub hfs) fs' (hsub hfs')
  owners fs hfs fs' hfs' := h.owners fs (hsub hfs) fs' (hsub hfs')
  shapes fs hfs := h.shapes fs (hsub hfs)
  qualified fs hfs := h.qualified fs (hsub hfs)

theorem isModuleId_makeModuleDurableId (file : String) :
    isModuleId (makeModuleDurableId file) = true := by
  unfold isModuleId makeModuleDurableId
  rw [String.toList_append, List.isPrefixOf_iff_prefix]
  exact List.prefix_append _ _

theorem makeModuleDurableId_injective {file file' : String}
    (h : makeModuleDurableId file = makeModuleDurableId file') : file = file' := by
  unfold makeModuleDurableId at h
  have hlist := congrArg String.toList h
  rw [String.toList_append, String.toList_append] at hlist
  exact String.toList_injective (List.append_cancel_left hlist)

/-- No two files share an id. -/
theorem Separate.ids_disjoint {files : Set FileSymbols} (h : Separate files) {fs fs' : FileSymbols}
    (hfs : fs ∈ files) (hfs' : fs' ∈ files) {id : String} (hid : id ∈ fileIds fs)
    (hid' : id ∈ fileIds fs') : fs = fs' := by
  have hshape : ∀ {g : FileSymbols} (_ : g ∈ files) {file : String},
      makeModuleDurableId file ∉ durableIds g := by
    intro g hg file hmem
    have hnot := (h.shapes g hg _ hmem).1
    rw [isModuleId_makeModuleDurableId] at hnot
    cases hnot
  rcases List.mem_cons.mp hid with hmodule | hsymbol
  · rcases List.mem_cons.mp hid' with hmodule' | hsymbol'
    · exact h.paths fs hfs fs' hfs' (makeModuleDurableId_injective (hmodule.symm.trans hmodule'))
    · exact absurd (hmodule ▸ hsymbol') (hshape hfs')
  · rcases List.mem_cons.mp hid' with hmodule' | hsymbol'
    · exact absurd (hmodule' ▸ hsymbol) (hshape hfs)
    · exact h.owners fs hfs fs' hfs' id hsymbol hsymbol'

/-- No id of a file has the shape of a stub. -/
theorem Separate.not_stubShaped {files : Set FileSymbols} (h : Separate files) {fs : FileSymbols}
    (hfs : fs ∈ files) {id : String} (hid : id ∈ fileIds fs) : ¬ StubShaped id := by
  intro hstub
  rcases List.mem_cons.mp hid with hmodule | hsymbol
  · have hshape := hstub.1
    rw [hmodule, isModuleId_makeModuleDurableId] at hshape
    cases hshape
  · exact (h.shapes fs hfs id hsymbol).2 hstub.2

/-- The nodes of a set of files and stubs. -/
structure NodesOf (files : Set FileSymbols) (nodes : FMap String NodeData) : Prop where
  /-- The nodes that are no stubs are those of the files. -/
  own : ∀ id node, node.external = false →
    (nodes.lookup id = some node ↔ ∃ fs ∈ files, (solo fs).layer.nodes.lookup id = some node)
  /-- The other nodes have the shape of a stub. -/
  stubs : ∀ id node, nodes.lookup id = some node → node.external = true → StubShaped id

/-- The id lists of a set of files. -/
structure ListsOf (files : Set FileSymbols) (lists : FMap String (List String)) : Prop where
  /-- The list of a file. -/
  own : ∀ fs ∈ files, lists.lookup fs.graphPath = (solo fs).fileToNodes.lookup fs.graphPath
  /-- No other list. -/
  none : ∀ file, (∀ fs ∈ files, fs.graphPath ≠ file) → lists.lookup file = none

/-- The name tables of a set of files. -/
structure NamesOf (files : Set FileSymbols) (names : FMap (String × String) String) : Prop where
  /-- The names of a file. -/
  own : ∀ fs ∈ files, ∀ n,
    names.lookup (fs.graphPath, n) = (solo fs).nameToId.lookup (fs.graphPath, n)
  /-- No other names. -/
  none : ∀ file, (∀ fs ∈ files, fs.graphPath ≠ file) → ∀ n, names.lookup (file, n) = none

/-- A builder holds a set of files. -/
structure Holds (files : Set FileSymbols) (b : Builder) : Prop where
  /-- Nodes. -/
  nodes : NodesOf files b.layer.nodes
  /-- Id lists. -/
  lists : ListsOf files b.fileToNodes
  /-- Names. -/
  names : NamesOf files b.nameToId

/-- An id of a file has its own node and no other. -/
theorem NodesOf.lookup_eq {files : Set FileSymbols} {nodes : FMap String NodeData}
    (h : NodesOf files nodes) (hsep : Separate files) {fs : FileSymbols} (hfs : fs ∈ files)
    {id : String} (hid : id ∈ fileIds fs) :
    nodes.lookup id = (solo fs).layer.nodes.lookup id := by
  cases hsolo : (solo fs).layer.nodes.lookup id with
  | some node =>
    have hinside := (filed_solo fs).inside id node hsolo
    exact (h.own id node hinside.1).mpr ⟨fs, hfs, hsolo⟩
  | none =>
    cases hnode : nodes.lookup id with
    | none => rfl
    | some node =>
      exfalso
      cases hext : node.external with
      | true => exact hsep.not_stubShaped hfs hid (h.stubs id node hnode hext)
      | false =>
        obtain ⟨fs', hfs', hsolo'⟩ := (h.own id node hext).mp hnode
        have hid' := ((filed_solo fs').inside id node hsolo').2
        rw [hsep.ids_disjoint hfs hfs' hid hid', hsolo'] at hsolo
        cases hsolo

theorem holds_new (projectFiles : Finset String) :
    Holds ∅ { Builder.new with projectFiles := projectFiles } where
  nodes := by
    constructor
    · intro id node _
      constructor
      · intro hnode
        cases hnode
      · rintro ⟨fs, hfs, _⟩
        exact absurd hfs (Set.notMem_empty fs)
    · intro id node hnode
      cases hnode
  lists := ⟨fun fs hfs => absurd hfs (Set.notMem_empty fs), fun _ _ => rfl⟩
  names := ⟨fun fs hfs => absurd hfs (Set.notMem_empty fs), fun _ _ _ => rfl⟩

/-- A file whose path is not held yet is fresh. -/
theorem Holds.fresh {files : Set FileSymbols} {b : Builder} (h : Holds files b) {fs : FileSymbols}
    (hsep : Separate (insert fs files)) (hnew : ∀ fs' ∈ files, fs'.graphPath ≠ fs.graphPath) :
    Fresh fs b where
  lists := h.lists.none fs.graphPath hnew
  names := h.names.none fs.graphPath hnew
  nodes := by
    intro id hid
    cases hnode : b.layer.nodes.lookup id with
    | none => rfl
    | some node =>
      exfalso
      cases hext : node.external with
      | true =>
        exact hsep.not_stubShaped (Set.mem_insert fs files) hid (h.nodes.stubs id node hnode hext)
      | false =>
        obtain ⟨fs', hfs', hsolo⟩ := (h.nodes.own id node hext).mp hnode
        have hid' := ((filed_solo fs').inside id node hsolo).2
        have hsame := hsep.ids_disjoint (Set.mem_insert fs files) (Set.mem_insert_of_mem fs hfs')
          hid hid'
        exact hnew fs' hfs' (congrArg FileSymbols.graphPath hsame.symm)

/-- Materializing a file that is not held yet adds its part. -/
theorem Holds.materialize {files : Set FileSymbols} {b : Builder} (h : Holds files b)
    {fs : FileSymbols} (hsep : Separate (insert fs files))
    (hnew : ∀ fs' ∈ files, fs'.graphPath ≠ fs.graphPath) :
    Holds (insert fs files) (b.materializeFileNodes fs.graphPath fs.symbols) := by
  have hjoins := joins_file (h.fresh hsep hnew)
  have hsolo := filed_solo fs
  refine ⟨⟨?_, ?_⟩, ⟨?_, ?_⟩, ⟨?_, ?_⟩⟩
  · intro id node hext
    rw [hjoins.nodes id]
    constructor
    · intro hnode
      cases hpart : (solo fs).layer.nodes.lookup id with
      | some node' =>
        rw [hpart] at hnode
        exact ⟨fs, Set.mem_insert fs files, hpart.trans hnode⟩
      | none =>
        rw [hpart, Option.none_or] at hnode
        obtain ⟨fs', hfs', hsolo'⟩ := (h.nodes.own id node hext).mp hnode
        exact ⟨fs', Set.mem_insert_of_mem fs hfs', hsolo'⟩
    · rintro ⟨fs', hfs', hnode⟩
      rcases Set.mem_insert_iff.mp hfs' with hsame | hold
      · rw [hsame] at hnode
        rw [hnode, Option.some_or]
      · have hpart : (solo fs).layer.nodes.lookup id = none := by
          cases hpart : (solo fs).layer.nodes.lookup id with
          | none => rfl
          | some node' =>
            have hid := (hsolo.inside id node' hpart).2
            have hid' := ((filed_solo fs').inside id node hnode).2
            have hsame := hsep.ids_disjoint (Set.mem_insert fs files) hfs' hid hid'
            exact absurd (congrArg FileSymbols.graphPath hsame.symm) (hnew fs' hold)
        rw [hpart, Option.none_or]
        exact (h.nodes.own id node hext).mpr ⟨fs', hold, hnode⟩
  · intro id node hnode hext
    rw [hjoins.nodes id] at hnode
    cases hpart : (solo fs).layer.nodes.lookup id with
    | some node' =>
      rw [hpart, Option.some_or] at hnode
      have hinside := (hsolo.inside id node' hpart).1
      rw [Option.some.inj hnode, hext] at hinside
      cases hinside
    | none =>
      rw [hpart, Option.none_or] at hnode
      exact h.nodes.stubs id node hnode hext
  · intro fs' hfs'
    rcases Set.mem_insert_iff.mp hfs' with hsame | hold
    · rw [hsame]
      exact hjoins.lists
    · rw [hjoins.otherLists fs'.graphPath (hnew fs' hold)]
      exact h.lists.own fs' hold
  · intro file hfile
    have hne := hfile fs (Set.mem_insert fs files)
    rw [hjoins.otherLists file hne.symm]
    exact h.lists.none file fun fs' hfs' => hfile fs' (Set.mem_insert_of_mem fs hfs')
  · intro fs' hfs' n
    rcases Set.mem_insert_iff.mp hfs' with hsame | hold
    · rw [hsame]
      exact hjoins.names n
    · rw [hjoins.otherNames fs'.graphPath n (hnew fs' hold)]
      exact h.names.own fs' hold n
  · intro file hfile n
    have hne := hfile fs (Set.mem_insert fs files)
    rw [hjoins.otherNames file n hne.symm]
    exact h.names.none file (fun fs' hfs' => hfile fs' (Set.mem_insert_of_mem fs hfs')) n

/-- What materializing leaves alone. -/
structure SameEdges (b b' : Builder) : Prop where
  /-- Edges. -/
  edges : b'.layer.edges = b.layer.edges
  /-- Reverse dependencies. -/
  reverseDeps : b'.layer.reverseDeps = b.layer.reverseDeps
  /-- Files of the project. -/
  projectFiles : b'.projectFiles = b.projectFiles

theorem SameEdges.trans {b b' b'' : Builder} (h : SameEdges b b') (h' : SameEdges b' b'') :
    SameEdges b b'' :=
  ⟨h'.edges.trans h.edges, h'.reverseDeps.trans h.reverseDeps,
    h'.projectFiles.trans h.projectFiles⟩

theorem sameEdges_materializeSymbol (file : String) (b : Builder) (symbol : SymbolDto) :
    SameEdges b (Builder.materializeSymbol file b symbol) := by
  rw [materializeSymbol_eq]
  split
  · exact ⟨rfl, rfl, rfl⟩
  · split
    · exact ⟨rfl, rfl, rfl⟩
    · unfold withSymbol Builder.pushNode
      constructor <;> simp only [registerName_layer, registerName_projectFiles] <;> rfl

theorem sameEdges_materializeFileNodes (b : Builder) (file : String) (symbols : List SymbolDto) :
    SameEdges b (b.materializeFileNodes file symbols) := by
  have hmodule : SameEdges b (b.materializeModule file) := by
    rw [materializeModule_eq]
    split <;> exact ⟨rfl, rfl, rfl⟩
  have hfold : ∀ (symbols : List SymbolDto) (b : Builder),
      SameEdges b (symbols.foldl (Builder.materializeSymbol file) b) := by
    intro symbols
    induction symbols with
    | nil => exact fun _ => ⟨rfl, rfl, rfl⟩
    | cons symbol symbols ih =>
      exact fun b => (sameEdges_materializeSymbol file b symbol).trans (ih _)
  exact hmodule.trans (hfold symbols _)

/-- Materializing the files of a list with paths of their own adds their
parts. -/
theorem Holds.materializeAll {files : Set FileSymbols} {b : Builder} (h : Holds files b)
    {added : List FileSymbols} (hsep : Separate (files ∪ {fs | fs ∈ added}))
    (hnew : ∀ fs ∈ added, ∀ fs' ∈ files, fs'.graphPath ≠ fs.graphPath)
    (hpaths : (added.map FileSymbols.graphPath).Nodup) :
    Holds (files ∪ {fs | fs ∈ added})
      (added.foldl (fun b fs => b.materializeFileNodes fs.graphPath fs.symbols) b) := by
  induction added generalizing files b with
  | nil =>
    have hnone : files ∪ {fs | fs ∈ ([] : List FileSymbols)} = files := by
      ext fs
      simp
    rw [hnone]
    exact h
  | cons fs added ih =>
    have hunion : files ∪ {g | g ∈ fs :: added} = insert fs files ∪ {g | g ∈ added} := by
      ext g
      simp only [Set.mem_union, Set.mem_ofPred_eq, List.mem_cons, Set.mem_insert_iff]
      tauto
    rw [hunion] at hsep ⊢
    rw [List.map_cons, List.nodup_cons] at hpaths
    have hone := h.materialize (hsep.mono Set.subset_union_left) (hnew fs List.mem_cons_self)
    refine ih hone hsep ?_ hpaths.2
    intro g hg fs' hfs'
    rcases Set.mem_insert_iff.mp hfs' with hsame | hold
    · rw [hsame]
      exact fun hpath => hpaths.1 (hpath ▸ List.mem_map_of_mem hg)
    · exact hnew g (List.mem_cons_of_mem _ hg) fs' hold

/-! ## Evicting a file -/

/-- Removing edges one by one. -/
theorem foldl_removeEdge (edges : List Edge) (layer : Layer) :
    (edges.foldl Layer.removeEdge layer).edges = layer.edges.filter (· ∉ edges) ∧
      (edges.foldl Layer.removeEdge layer).nodes = layer.nodes := by
  induction edges generalizing layer with
  | nil =>
    refine ⟨?_, rfl⟩
    rw [Finset.filter_true_of_mem fun _ _ => List.not_mem_nil]
    rfl
  | cons edge edges ih =>
    have hrest := ih (layer.removeEdge edge)
    rw [List.foldl_cons, hrest.1, hrest.2, ReverseDependencies.removeEdge_edges,
      ReverseDependencies.removeEdge_nodes]
    refine ⟨?_, rfl⟩
    ext e
    simp only [Finset.mem_filter, Finset.mem_erase, List.mem_cons]
    tauto

theorem indexInStep_foldl_removeEdge (edges : List Edge) {layer : Layer}
    (h : ReverseDependencies.IndexInStep layer) :
    ReverseDependencies.IndexInStep (edges.foldl Layer.removeEdge layer) := by
  induction edges generalizing layer with
  | nil => exact h
  | cons edge edges ih => exact ih (h.removeEdge edge)

theorem evictFile_edges (b : Builder) (file : String) :
    (b.evictFile file).layer.edges = b.layer.edges.filter fun e => e.source ∉ b.idsOf file := by
  unfold Builder.evictFile
  simp only
  rw [(foldl_removeEdge _ _).1]
  apply Finset.filter_congr
  intro e he
  rw [HashOrder.mem_order, Finset.mem_filter]
  tauto

theorem evictFile_nodes (b : Builder) (file id : String) :
    (b.evictFile file).layer.nodes.lookup id =
      if id ∈ b.idsOf file then none else b.layer.nodes.lookup id := by
  unfold Builder.evictFile
  simp only
  rw [lookup_foldl_erase, (foldl_removeEdge _ _).2]

theorem evictFile_fileToNodes (b : Builder) (file other : String) :
    (b.evictFile file).fileToNodes.lookup other =
      if other = file then none else b.fileToNodes.lookup other := lookup_erase_ite _ _ _

theorem evictFile_names (b : Builder) (file other n : String) :
    (b.evictFile file).nameToId.lookup (other, n) =
      if other = file then none else b.nameToId.lookup (other, n) := by
  have hkeys : (b.evictFile file).nameToId =
      ((HashOrder.increasing.order (b.nameToId.keys.image Prod.snd)).map fun name =>
        (file, name)).foldl (fun table key => table.erase key) b.nameToId := by
    rw [List.foldl_map]
    rfl
  rw [hkeys, lookup_foldl_erase]
  by_cases hother : other = file
  · rw [if_pos hother, hother]
    split
    · rfl
    · rename_i hout
      cases hname : b.nameToId.lookup (file, n) with
      | none => rfl
      | some id =>
        have hkey : (file, n) ∈ b.nameToId.keys := (mem_keys_iff _ _).mpr ⟨id, hname⟩
        have hmem : n ∈ HashOrder.increasing.order (b.nameToId.keys.image Prod.snd) :=
          (HashOrder.mem_order _ _ _).mpr (Finset.mem_image_of_mem Prod.snd hkey)
        exact absurd (List.mem_map_of_mem hmem) hout
  · have hout : (other, n) ∉ (HashOrder.increasing.order (b.nameToId.keys.image Prod.snd)).map
        fun name => (file, name) := by
      intro hmem
      obtain ⟨name, _, hkey⟩ := List.mem_map.mp hmem
      exact hother (congrArg Prod.fst hkey).symm
    rw [if_neg hother, if_neg hout]

/-- The listed ids of a file. -/
theorem ListsOf.idsOf_eq {files : Set FileSymbols} {b : Builder} (h : ListsOf files b.fileToNodes)
    {fs : FileSymbols} (hfs : fs ∈ files) :
    b.idsOf fs.graphPath = (solo fs).idsOf fs.graphPath := by
  unfold Builder.idsOf
  rw [h.own fs hfs]

/-- A path that is not held has no ids. -/
theorem ListsOf.idsOf_none {files : Set FileSymbols} {b : Builder} (h : ListsOf files b.fileToNodes)
    {file : String} (hfile : ∀ fs ∈ files, fs.graphPath ≠ file) : b.idsOf file = [] := by
  unfold Builder.idsOf
  rw [h.none file hfile]
  rfl

/-- The listed ids of a held path are ids of the file. -/
theorem mem_fileIds_of_mem_idsOf {fs : FileSymbols} {id : String}
    (h : id ∈ (solo fs).idsOf fs.graphPath) : id ∈ fileIds fs := by
  obtain ⟨node, hnode⟩ := hasNode_iff.mp (((filed_solo fs).listed id).mp h)
  exact ((filed_solo fs).inside id node hnode).2

/-- Evicting a path drops its file and nothing else. -/
theorem Holds.evict {files : Set FileSymbols} {b : Builder} (h : Holds files b)
    (hsep : Separate files) (file : String) :
    Holds {fs | fs ∈ files ∧ fs.graphPath ≠ file} (b.evictFile file) := by
  -- The ids of the path are those of the file that has it.
  have howner : ∀ id ∈ b.idsOf file, ∃ fs ∈ files, fs.graphPath = file ∧ id ∈ fileIds fs := by
    intro id hid
    by_cases hheld : ∃ fs ∈ files, fs.graphPath = file
    · obtain ⟨fs, hfs, hpath⟩ := hheld
      rw [← hpath, h.lists.idsOf_eq hfs] at hid
      exact ⟨fs, hfs, hpath, mem_fileIds_of_mem_idsOf hid⟩
    · have hnone := h.lists.idsOf_none fun fs hfs hpath => hheld ⟨fs, hfs, hpath⟩
      rw [hnone] at hid
      exact absurd hid List.not_mem_nil
  have hleft : ∀ fs ∈ files, ∀ id node, (solo fs).layer.nodes.lookup id = some node →
      (id ∈ b.idsOf file ↔ fs.graphPath = file) := by
    intro fs hfs id node hnode
    have hinside := ((filed_solo fs).inside id node hnode).2
    constructor
    · intro hid
      obtain ⟨fs', hfs', hpath, hid'⟩ := howner id hid
      rw [hsep.ids_disjoint hfs hfs' hinside hid', hpath]
    · intro hpath
      rw [← hpath, h.lists.idsOf_eq hfs]
      exact ((filed_solo fs).listed id).mpr (hasNode_iff.mpr ⟨node, hnode⟩)
  refine ⟨⟨?_, ?_⟩, ⟨?_, ?_⟩, ⟨?_, ?_⟩⟩
  · intro id node hext
    rw [evictFile_nodes]
    constructor
    · intro hnode
      split at hnode
      · cases hnode
      · rename_i hout
        obtain ⟨fs, hfs, hsolo⟩ := (h.nodes.own id node hext).mp hnode
        exact ⟨fs, ⟨hfs, fun hpath => hout ((hleft fs hfs id node hsolo).mpr hpath)⟩, hsolo⟩
    · rintro ⟨fs, ⟨hfs, hpath⟩, hsolo⟩
      rw [if_neg fun hid => hpath ((hleft fs hfs id node hsolo).mp hid)]
      exact (h.nodes.own id node hext).mpr ⟨fs, hfs, hsolo⟩
  · intro id node hnode hext
    rw [evictFile_nodes] at hnode
    split at hnode
    · cases hnode
    · exact h.nodes.stubs id node hnode hext
  · intro fs hfs
    rw [evictFile_fileToNodes, if_neg hfs.2]
    exact h.lists.own fs hfs.1
  · intro other hother
    rw [evictFile_fileToNodes]
    split
    · rfl
    · rename_i hne
      exact h.lists.none other fun fs hfs hpath =>
        hother fs ⟨hfs, fun hfile => hne (hpath.symm.trans hfile)⟩ hpath
  · intro fs hfs n
    rw [evictFile_names, if_neg hfs.2]
    exact h.names.own fs hfs.1 n
  · intro other hother n
    rw [evictFile_names]
    split
    · rfl
    · rename_i hne
      exact h.names.none other (fun fs hfs hpath =>
        hother fs ⟨hfs, fun hfile => hne (hpath.symm.trans hfile)⟩ hpath) n

theorem evictFile_idsOf (b : Builder) (file other : String) :
    (b.evictFile file).idsOf other = if other = file then [] else b.idsOf other := by
  unfold Builder.idsOf
  rw [evictFile_fileToNodes]
  split <;> rfl

/-- Evicting paths drops their files and nothing else. -/
theorem Holds.evictAll {files : Set FileSymbols} {b : Builder} (h : Holds files b)
    (hsep : Separate files) (dirty : List String) :
    Holds {fs | fs ∈ files ∧ fs.graphPath ∉ dirty} (dirty.foldl Builder.evictFile b) := by
  induction dirty generalizing files b with
  | nil =>
    have hall : {fs | fs ∈ files ∧ fs.graphPath ∉ ([] : List String)} = files := by
      ext fs
      simp
    rw [hall]
    exact h
  | cons file dirty ih =>
    have hone := h.evict hsep file
    have hrest := ih hone (hsep.mono fun _ hfs => hfs.1)
    have hsame : {fs | fs ∈ {fs | fs ∈ files ∧ fs.graphPath ≠ file} ∧ fs.graphPath ∉ dirty} =
        {fs | fs ∈ files ∧ fs.graphPath ∉ file :: dirty} := by
      ext fs
      simp only [Set.mem_ofPred_eq, List.mem_cons]
      tauto
    rw [hsame] at hrest
    exact hrest

/-- Evicting paths drops the edges that start in their files. -/
theorem mem_edges_evictAll {b : Builder} {dirty : List String} {e : Edge} :
    e ∈ (dirty.foldl Builder.evictFile b).layer.edges ↔
      e ∈ b.layer.edges ∧ ∀ file ∈ dirty, e.source ∉ b.idsOf file := by
  induction dirty generalizing b with
  | nil => simp
  | cons file dirty ih =>
    rw [List.foldl_cons, ih, evictFile_edges, Finset.mem_filter]
    constructor
    · rintro ⟨⟨he, hsource⟩, hrest⟩
      refine ⟨he, ?_⟩
      intro other hother
      by_cases hsame : other = file
      · rw [hsame]
        exact hsource
      · have hout := hrest other ((List.mem_cons.mp hother).resolve_left hsame)
        rwa [evictFile_idsOf, if_neg hsame] at hout
    · rintro ⟨he, hsources⟩
      refine ⟨⟨he, hsources file List.mem_cons_self⟩, ?_⟩
      intro other hother
      rw [evictFile_idsOf]
      split
      · exact List.not_mem_nil
      · exact hsources other (List.mem_cons_of_mem _ hother)

/-- Evicting paths leaves the nodes that they do not list. -/
theorem nodes_evictAll {b : Builder} {dirty : List String} {id : String}
    (h : ∀ file ∈ dirty, id ∉ b.idsOf file) :
    (dirty.foldl Builder.evictFile b).layer.nodes.lookup id = b.layer.nodes.lookup id := by
  induction dirty generalizing b with
  | nil => rfl
  | cons file dirty ih =>
    rw [List.foldl_cons, ih, evictFile_nodes, if_neg (h file List.mem_cons_self)]
    intro other hother
    rw [evictFile_idsOf]
    split
    · exact List.not_mem_nil
    · exact h other (List.mem_cons_of_mem _ hother)

theorem indexInStep_evictAll {b : Builder} (h : ReverseDependencies.IndexInStep b.layer)
    (dirty : List String) :
    ReverseDependencies.IndexInStep (dirty.foldl Builder.evictFile b).layer := by
  induction dirty generalizing b with
  | nil => exact h
  | cons file dirty ih =>
    apply ih
    exact indexInStep_foldl_removeEdge _ h

theorem projectFiles_evictAll (b : Builder) (dirty : List String) :
    (dirty.foldl Builder.evictFile b).projectFiles = b.projectFiles := by
  induction dirty generalizing b with
  | nil => rfl
  | cons file dirty ih => exact ih (b.evictFile file)

/-! ## Replaying a layer -/

/-- Replaying a node only touches the names of its file. -/
structure SameButNames (file : String) (b b' : Builder) : Prop where
  /-- The layer. -/
  layer : b'.layer = b.layer
  /-- The id lists. -/
  lists : b'.fileToNodes = b.fileToNodes
  /-- The names of the other files. -/
  otherNames : ∀ other n, other ≠ file → b'.nameToId.lookup (other, n) = b.nameToId.lookup (other, n)

theorem SameButNames.trans {file : String} {b b' b'' : Builder} (h : SameButNames file b b')
    (h' : SameButNames file b' b'') : SameButNames file b b'' where
  layer := h'.layer.trans h.layer
  lists := h'.lists.trans h.lists
  otherNames other n hne := (h'.otherNames other n hne).trans (h.otherNames other n hne)

theorem sameButNames_replayNode (file : String) (b : Builder) (id : String) :
    SameButNames file b (Builder.replayNode file b id) := by
  unfold Builder.replayNode
  split
  · exact ⟨rfl, rfl, fun _ _ _ => rfl⟩
  · split
    · refine ⟨rfl, rfl, ?_⟩
      intro other n hne
      simp only [lookup_insert_ite]
      rw [if_neg fun hkey => hne (congrArg Prod.fst hkey)]
    · refine ⟨?_, ?_, ?_⟩
      · rw [registerName_layer, registerName_layer]
      · rw [registerName_fileToNodes, registerName_fileToNodes]
      · intro other n hne
        rw [registerName_other _ hne, registerName_other _ hne]

theorem sameButNames_foldl_replayNode (file : String) (ids : List String) (b : Builder) :
    SameButNames file b (ids.foldl (Builder.replayNode file) b) := by
  induction ids generalizing b with
  | nil => exact ⟨rfl, rfl, fun _ _ _ => rfl⟩
  | cons id ids ih => exact (sameButNames_replayNode file b id).trans (ih _)

theorem sameButNames_replayFile (b : Builder) (file : String) :
    SameButNames file b (b.replayFile file) := by
  have hnodes := sameButNames_foldl_replayNode file (b.idsOf file) b
  exact ⟨hnodes.layer, hnodes.lists, hnodes.otherNames⟩

theorem replayNode_symbol {b : Builder} {id : String} {node : NodeData} (file : String)
    (hnode : b.layer.nodes.lookup id = some node)
    (hqualified : node.qualifiedName ≠ moduleQualifiedName) :
    Builder.replayNode file b id =
      (b.registerName file node.name id).registerName file node.qualifiedName id := by
  unfold Builder.replayNode
  rw [hnode]
  exact if_neg hqualified

/-- Replaying the listed nodes restores the names of a file. -/
def Replays (file : String) (s : Builder) : Prop :=
  ∀ b : Builder, (∀ n, b.nameToId.lookup (file, n) = none) →
    (∀ id ∈ s.idsOf file, b.layer.nodes.lookup id = s.layer.nodes.lookup id) →
    ∀ n, ((s.idsOf file).foldl (Builder.replayNode file) b).nameToId.lookup (file, n) =
      s.nameToId.lookup (file, n)

theorem replays_module (fs : FileSymbols) :
    Replays fs.graphPath (withModule Builder.new fs.graphPath) := by
  intro b hnames hnodes n
  have hmodule : b.layer.nodes.lookup (makeModuleDurableId fs.graphPath) =
      some (Builder.moduleNode fs.graphPath) := by
    rw [hnodes _ (filed_module fs).module_, withModule_nodes, if_pos rfl]
  have hreplay : (Builder.replayNode fs.graphPath b (makeModuleDurableId fs.graphPath)).nameToId =
      b.nameToId.insert (fs.graphPath, moduleQualifiedName) (makeModuleDurableId fs.graphPath) := by
    unfold Builder.replayNode
    rw [hmodule]
    exact congrArg Builder.nameToId (if_pos rfl)
  rw [withModule_idsOf_new, List.foldl_cons, List.foldl_nil, hreplay, withModule_names,
    lookup_insert_ite, hnames n]
  rfl

theorem Replays.symbol {fs : FileSymbols} {s : Builder} (h : Replays fs.graphPath s)
    (hfiled : Filed fs s) {symbol : SymbolDto} {did : String}
    (hqualified : symbol.qualifiedName.getD symbol.name ≠ moduleQualifiedName)
    (habsent : s.layer.hasNode did = false) :
    Replays fs.graphPath (withSymbol s fs.graphPath symbol did) := by
  intro b hnames hnodes n
  have hids := withSymbol_idsOf s fs.graphPath symbol did
  have hnew : did ∉ s.idsOf fs.graphPath := by
    intro hin
    have hhas := (hfiled.listed did).mp hin
    rw [habsent] at hhas
    cases hhas
  have hold : ∀ id ∈ s.idsOf fs.graphPath, b.layer.nodes.lookup id = s.layer.nodes.lookup id := by
    intro id hid
    have hne : id ≠ did := fun hsame => hnew (hsame ▸ hid)
    have hnode := hnodes id (by rw [hids]; exact List.mem_append_left _ hid)
    rwa [withSymbol_nodes, if_neg hne] at hnode
  have hdid : b.layer.nodes.lookup did = some (Builder.symbolNode fs.graphPath symbol) := by
    have hin : did ∈ (withSymbol s fs.graphPath symbol did).idsOf fs.graphPath := by
      rw [hids]
      exact List.mem_append_right _ (List.mem_singleton_self did)
    rw [hnodes did hin, withSymbol_nodes, if_pos rfl]
  have hbefore := h b hnames hold
  have hlayer := (sameButNames_foldl_replayNode fs.graphPath (s.idsOf fs.graphPath) b).layer
  rw [← hlayer] at hdid
  rw [hids, List.foldl_append, List.foldl_cons, List.foldl_nil, withSymbol_names,
    replayNode_symbol fs.graphPath hdid hqualified]
  exact registerName_congr (registerName_congr hbefore _ _) _ _ n

/-- Replaying the nodes of a file alone restores its names. -/
theorem replays_solo {fs : FileSymbols}
    (hqualified : ∀ symbol ∈ fs.symbols,
      symbol.qualifiedName.getD symbol.name ≠ moduleQualifiedName) :
    Replays fs.graphPath (solo fs) := by
  have hboth : Filed fs (solo fs) ∧ Replays fs.graphPath (solo fs) :=
    solo_induction (P := fun s => Filed fs s ∧ Replays fs.graphPath s)
      ⟨filed_module fs, replays_module fs⟩ fun _ symbol _ hmem hdid habsent h =>
        ⟨h.1.symbol hmem hdid, h.2.symbol h.1 (hqualified symbol hmem) habsent⟩
  exact hboth.2

/-- Replaying one file after the other restores the names of all of them. -/
theorem foldl_replayFile {files : Set FileSymbols} (hsep : Separate files) {todo : List String}
    {b : Builder} (hnodes : NodesOf files b.layer.nodes) (hlists : ListsOf files b.fileToNodes)
    (hnodup : todo.Nodup) (hnames : ∀ file ∈ todo, ∀ n, b.nameToId.lookup (file, n) = none) :
    (todo.foldl Builder.replayFile b).layer = b.layer ∧
      (todo.foldl Builder.replayFile b).fileToNodes = b.fileToNodes ∧
      (∀ fs ∈ files, fs.graphPath ∈ todo → ∀ n,
        (todo.foldl Builder.replayFile b).nameToId.lookup (fs.graphPath, n) =
          (solo fs).nameToId.lookup (fs.graphPath, n)) ∧
      ∀ file, file ∉ todo → ∀ n,
        (todo.foldl Builder.replayFile b).nameToId.lookup (file, n) =
          b.nameToId.lookup (file, n) := by
  induction todo generalizing b with
  | nil => exact ⟨rfl, rfl, fun _ _ hin => absurd hin List.not_mem_nil, fun _ _ _ => rfl⟩
  | cons file todo ih =>
    have hstep := sameButNames_replayFile b file
    rw [List.nodup_cons] at hnodup
    have hrest := @ih (b.replayFile file) (hstep.layer ▸ hnodes) (hstep.lists ▸ hlists) hnodup.2
      (fun other hother n => by
        have hne : other ≠ file := fun hsame => hnodup.1 (hsame ▸ hother)
        rw [hstep.otherNames other n hne]
        exact hnames other (List.mem_cons_of_mem _ hother) n)
    obtain ⟨hlayer, hlists', hdone, hleft⟩ := hrest
    refine ⟨hlayer.trans hstep.layer, hlists'.trans hstep.lists, ?_, ?_⟩
    · intro fs hfs hin n
      rcases List.mem_cons.mp hin with hpath | htodo
      · have hout : fs.graphPath ∉ todo := fun hin' => hnodup.1 (hpath ▸ hin')
        have hids : b.idsOf fs.graphPath = (solo fs).idsOf fs.graphPath := hlists.idsOf_eq hfs
        have hreplay := replays_solo (hsep.qualified fs hfs) b
          (hnames fs.graphPath (hpath ▸ List.mem_cons_self))
          (fun id hid => hnodes.lookup_eq hsep hfs (mem_fileIds_of_mem_idsOf hid)) n
        rw [List.foldl_cons, hleft fs.graphPath hout n, ← hpath]
        unfold Builder.replayFile Builder.buildRangeCache
        simp only
        rw [hids]
        exact hreplay
      · exact hdone fs hfs htodo n
    · intro other hother n
      have hne : other ≠ file := fun hsame => hother (hsame ▸ List.mem_cons_self)
      rw [List.foldl_cons, hleft other (fun hin => hother (List.mem_cons_of_mem _ hin)) n]
      exact hstep.otherNames other n hne

/-- A builder seeded from a layer holds the files of the layer. -/
theorem holds_seeded {files : Set FileSymbols} {prev : Layer} (hsep : Separate files)
    (hnodes : NodesOf files prev.nodes) (hlists : ListsOf files prev.fileToNodes) :
    Holds files (Builder.seeded prev) ∧ (Builder.seeded prev).layer = prev := by
  have hreplay := @foldl_replayFile files hsep
    (HashOrder.increasing.order prev.fileToNodes.keys)
    { layer := prev, nameToId := ∅, fileToNodes := prev.fileToNodes, rangeCache := ∅
      projectFiles := ∅ } hnodes hlists (HashOrder.nodup_order _ _) (fun _ _ _ => rfl)
  obtain ⟨hlayer, hsame, hdone, hleft⟩ := hreplay
  have hkeys : ∀ fs ∈ files,
      fs.graphPath ∈ HashOrder.increasing.order prev.fileToNodes.keys := by
    intro fs hfs
    rw [HashOrder.mem_order, mem_keys_iff]
    have hmodule := (filed_solo fs).module_
    cases hlist : prev.fileToNodes.lookup fs.graphPath with
    | some ids => exact ⟨ids, rfl⟩
    | none =>
      exfalso
      unfold Builder.idsOf at hmodule
      rw [← hlists.own fs hfs, hlist] at hmodule
      exact List.not_mem_nil hmodule
  refine ⟨⟨?_, ?_, ⟨?_, ?_⟩⟩, hlayer⟩
  · unfold Builder.seeded
    rw [hlayer]
    exact hnodes
  · unfold Builder.seeded
    rw [hsame]
    exact hlists
  · intro fs hfs n
    exact hdone fs hfs (hkeys fs hfs) n
  · intro file hfile n
    have hout : file ∉ HashOrder.increasing.order prev.fileToNodes.keys := by
      rw [HashOrder.mem_order, mem_keys_iff]
      rintro ⟨ids, hlist⟩
      rw [hlists.none file hfile] at hlist
      cases hlist
    exact hleft file hout n

end Tyo3.CodeLayerFiles
