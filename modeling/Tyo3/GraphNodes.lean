import Tyo3.CodeLayerProjects

/-!
# The entity nodes of a full build

Materializing inserts the modules and the symbols with an id, the first
symbol of an id wins. All later passes add edges, and stubs under ids that
have no node. The entity nodes of a build are therefore the nodes of its
symbols, whatever the engine resolves.
-/

namespace Tyo3.GraphNodes

open CodeLayer CodeLayerBuilder CodeLayerFiles CodeLayerParts CodeLayerPasses CodeLayerProjects
  FiniteMaps

/-! ## Passes that add stubs only -/

/-- A builder has the nodes of another one, and stubs. -/
structure OnlyStubs (b b' : Builder) : Prop where
  /-- Nodes stay. -/
  keeps : ∀ id node, b.layer.nodes.lookup id = some node → b'.layer.nodes.lookup id = some node
  /-- New nodes are stubs. -/
  stubs : ∀ id node, b'.layer.nodes.lookup id = some node →
    b.layer.nodes.lookup id = some node ∨ node.external = true ∧ ':' ∈ id.toList
  /-- The nodes listed for the files stay. -/
  lists : b'.fileToNodes = b.fileToNodes

theorem OnlyStubs.refl (b : Builder) : OnlyStubs b b :=
  ⟨fun _ _ h => h, fun _ _ h => .inl h, rfl⟩

theorem OnlyStubs.trans {b b' b'' : Builder} (h : OnlyStubs b b') (h' : OnlyStubs b' b'') :
    OnlyStubs b b'' where
  keeps id node hnode := h'.keeps id node (h.keeps id node hnode)
  stubs id node hnode := by
    rcases h'.stubs id node hnode with hold | hstub
    · exact h.stubs id node hold
    · exact .inr hstub
  lists := h'.lists.trans h.lists

/-- The same nodes. -/
theorem OnlyStubs.of_nodes {b b' : Builder} (h : b'.layer.nodes = b.layer.nodes)
    (hlists : b'.fileToNodes = b.fileToNodes) : OnlyStubs b b' := by
  refine ⟨fun _ _ hnode => ?_, fun _ _ hnode => ?_, hlists⟩
  · rwa [h]
  · rw [h] at hnode
    exact .inl hnode

/-- Steps that add stubs only, one after another. -/
theorem onlyStubs_foldl {α : Type*} {step : Builder → α → Builder}
    (h : ∀ b x, OnlyStubs b (step b x)) (xs : List α) (b : Builder) :
    OnlyStubs b (xs.foldl step b) := by
  induction xs generalizing b with
  | nil => exact OnlyStubs.refl b
  | cons x xs ih => exact (h b x).trans (ih (step b x))

theorem onlyStubs_tryAddEdge (b : Builder) (edge : Edge) : OnlyStubs b (b.tryAddEdge edge) := by
  unfold Builder.tryAddEdge
  split
  · refine OnlyStubs.of_nodes ?_ rfl
    unfold Layer.addEdge
    split <;> rfl
  · exact OnlyStubs.refl b

/-- Asking for a stub keeps the nodes. -/
theorem lookup_addStubNode {b : Builder} {id : String} {node : NodeData}
    (h : b.layer.nodes.lookup id = some node) (did name qualifiedName : String)
    (kind : SymbolKindDto) (package : String) :
    (b.addStubNode did name qualifiedName kind package).layer.nodes.lookup id = some node := by
  unfold Builder.addStubNode
  split
  · exact h
  · rename_i habsent
    have hnone := hasNode_eq_false_iff.mp (Bool.eq_false_iff.mpr habsent)
    have hne : id ≠ did := by
      intro hid
      rw [hid, hnone] at h
      cases h
    exact (lookup_insert_ite _ _ _ _).trans ((if_neg hne).trans h)

theorem onlyStubs_addStubNode (b : Builder) {did : String} (hdid : ':' ∈ did.toList)
    (name qualifiedName : String) (kind : SymbolKindDto) (package : String) :
    OnlyStubs b (b.addStubNode did name qualifiedName kind package) := by
  refine ⟨fun id node hnode => lookup_addStubNode hnode _ _ _ _ _, fun id node hnode => ?_, ?_⟩
  · unfold Builder.addStubNode at hnode
    split at hnode
    · exact .inl hnode
    · have hlookup : (b.upsertNode did
          (Builder.stubNode name qualifiedName kind package)).layer.nodes.lookup id =
          if id = did then some (Builder.stubNode name qualifiedName kind package)
          else b.layer.nodes.lookup id := lookup_insert_ite _ _ _ _
      rw [hlookup] at hnode
      split at hnode
      · rename_i hid
        cases hnode
        exact .inr ⟨rfl, hid ▸ hdid⟩
      · exact .inl hnode
  · unfold Builder.addStubNode
    split <;> rfl

theorem onlyStubs_addContainmentEdge (file : String) (b : Builder) (symbol : SymbolDto) :
    OnlyStubs b (Builder.addContainmentEdge file b symbol) := by
  unfold Builder.addContainmentEdge
  split
  · exact OnlyStubs.refl b
  · dsimp only
    split
    · exact onlyStubs_tryAddEdge b _
    · exact OnlyStubs.refl b

theorem onlyStubs_addImportEdge (b : Builder) (source target : String) (range : Range) :
    OnlyStubs b (b.addImportEdge source target range) := by
  unfold Builder.addImportEdge
  split
  · dsimp only
    split
    · exact onlyStubs_tryAddEdge b _
    · split
      · exact OnlyStubs.refl b
      · exact (onlyStubs_addStubNode b (colon_mem_makeExternalModuleId _) _ _ _ _).trans
          (onlyStubs_tryAddEdge _ _)
  · exact OnlyStubs.refl b

theorem onlyStubs_resolveImportViaGoto (b : Builder) (out : Outputs) (native file : String)
    (range : Range) : OnlyStubs b (b.resolveImportViaGoto out native file range) := by
  unfold Builder.resolveImportViaGoto
  split
  · dsimp only
    split
    · exact onlyStubs_addImportEdge b _ _ _
    · exact OnlyStubs.refl b
  · exact OnlyStubs.refl b

theorem onlyStubs_referenceTarget (b : Builder) (file name : String) (qualified : Option String) :
    OnlyStubs b (b.referenceTarget file name qualified).1 := by
  unfold Builder.referenceTarget
  split
  · exact OnlyStubs.refl b
  · split
    · exact OnlyStubs.refl b
    · split
      · exact OnlyStubs.refl b
      · unfold Builder.ensureExternalTarget
        split
        · exact OnlyStubs.refl b
        · dsimp only
          split
          · exact onlyStubs_addStubNode b (colon_mem_makeExternalSymbolId _ _) _ _ _ _
          · exact onlyStubs_addStubNode b (colon_mem_makeExternalSymbolId _ _) _ _ _ _

/-- The import edge to another file, if there is one. -/
theorem onlyStubs_importOther (b : Builder) (target file : String) (range : Range) :
    OnlyStubs b (if target ≠ file then b.addImportEdge file target range else b) := by
  split
  · exact onlyStubs_addImportEdge b _ _ _
  · exact OnlyStubs.refl b

theorem onlyStubs_resolveOccurrence (out : Outputs) (file native : String) (b : Builder)
    (occ : NameOccurrence) : OnlyStubs b (Builder.resolveOccurrence out file native b occ) := by
  unfold Builder.resolveOccurrence
  split
  · exact onlyStubs_resolveImportViaGoto b _ _ _ _
  · split
    · rename_i targetFileRaw targetName _ _
      have htarget := onlyStubs_referenceTarget b (b.normalizeTarget out.root targetFileRaw)
        targetName occ.targetQualifiedName
      dsimp only
      split
      · rename_i b' hb'
        rw [hb'] at htarget
        exact htarget
      · rename_i b' targetDid hb'
        rw [hb'] at htarget
        refine htarget.trans ?_
        split
        · exact OnlyStubs.refl b'
        · split
          · exact OnlyStubs.refl b'
          · split
            · exact onlyStubs_importOther b' _ _ _
            · exact (onlyStubs_tryAddEdge b' _).trans (onlyStubs_importOther _ _ _ _)
    · exact OnlyStubs.refl b

theorem onlyStubs_resolveReferences (b : Builder) (out : Outputs) (file native : String) :
    OnlyStubs b (b.resolveReferences out file native) := by
  unfold Builder.resolveReferences
  split
  · exact OnlyStubs.refl b
  · exact onlyStubs_foldl (onlyStubs_resolveOccurrence out file native) _ b

theorem onlyStubs_supertypeTarget (b : Builder) (file name : String) :
    OnlyStubs b (b.supertypeTarget file name).1 := by
  unfold Builder.supertypeTarget
  split
  · exact OnlyStubs.refl b
  · dsimp only
    split
    · exact onlyStubs_addStubNode b (colon_mem_makeExternalSymbolId _ _) _ _ _ _
    · exact OnlyStubs.refl b

theorem onlyStubs_inheritFrom (out : Outputs) (did : String) (b : Builder)
    (supertype : Supertype) : OnlyStubs b (Builder.inheritFrom out did b supertype) := by
  have htarget := onlyStubs_supertypeTarget b (b.normalizeTarget out.root supertype.path)
    supertype.name
  unfold Builder.inheritFrom
  split
  · rename_i b' hb'
    rw [hb'] at htarget
    exact htarget
  · rename_i b' superDid hb'
    rw [hb'] at htarget
    exact htarget.trans (onlyStubs_tryAddEdge b' _)

theorem onlyStubs_inheritsSymbol (out : Outputs) (native : String) (b : Builder)
    (symbol : SymbolDto) : OnlyStubs b (Builder.inheritsSymbol out native b symbol) := by
  unfold Builder.inheritsSymbol
  split
  · split
    · exact onlyStubs_foldl (onlyStubs_inheritFrom out _) _ b
    · exact OnlyStubs.refl b
  · exact OnlyStubs.refl b

theorem onlyStubs_overrideMethod (ancestors : FMap String String) (b : Builder)
    (method : SymbolDto) : OnlyStubs b (Builder.overrideMethod ancestors b method) := by
  unfold Builder.overrideMethod
  split
  · exact onlyStubs_tryAddEdge b _
  · exact OnlyStubs.refl b

theorem onlyStubs_overridesSymbol (file : String) (symbols : List SymbolDto) (b : Builder)
    (symbol : SymbolDto) : OnlyStubs b (Builder.overridesSymbol file symbols b symbol) := by
  unfold Builder.overridesSymbol
  split
  · split
    · exact OnlyStubs.refl b
    · split
      · exact OnlyStubs.refl b
      · exact onlyStubs_foldl (onlyStubs_overrideMethod _) _ b
  · exact OnlyStubs.refl b

/-- Running the passes gives the nodes of the materialized files, and stubs. -/
theorem onlyStubs_runPasses (b : Builder) (out : Outputs) (files : List FileSymbols) :
    OnlyStubs (materializeAll b files) (b.runPasses out files) := by
  have hcontainment : ∀ (b : Builder) (fs : FileSymbols), OnlyStubs b
      ((b.addContainmentEdges fs.graphPath fs.symbols).buildRangeCache fs.graphPath) :=
    fun b fs => (onlyStubs_foldl (onlyStubs_addContainmentEdge fs.graphPath) fs.symbols b).trans
      (OnlyStubs.of_nodes rfl rfl)
  have hreferences : ∀ (b : Builder) (fs : FileSymbols), OnlyStubs b
      (b.resolveReferences out fs.graphPath fs.nativePath) :=
    fun b fs => onlyStubs_resolveReferences b out _ _
  have hinherits : ∀ (b : Builder) (fs : FileSymbols), OnlyStubs b
      (b.inheritsPass out fs.nativePath fs.symbols) :=
    fun b fs => onlyStubs_foldl (onlyStubs_inheritsSymbol out fs.nativePath) fs.symbols b
  have hoverrides : ∀ (b : Builder) (fs : FileSymbols), OnlyStubs b
      (b.overridesPass fs.graphPath fs.symbols) :=
    fun b fs => onlyStubs_foldl (onlyStubs_overridesSymbol fs.graphPath fs.symbols) fs.symbols b
  exact (((onlyStubs_foldl hcontainment _ _).trans (onlyStubs_foldl hreferences _ _)).trans
    (onlyStubs_foldl hinherits _ _)).trans (onlyStubs_foldl hoverrides _ _)

/-- A full build has the nodes of its materialized files, and stubs. -/
theorem onlyStubs_build (out : Outputs) :
    OnlyStubs (world out) ((opened out).runPasses out (filesOf out)) :=
  onlyStubs_runPasses (opened out) out (filesOf out)

/-! ## Nodes of symbols -/

/-- Every node that is not a module is the node of a symbol of the files. -/
def FromSymbols (files : List FileSymbols) (b : Builder) : Prop :=
  ∀ id node, b.layer.nodes.lookup id = some node → isModuleId id = false →
    ∃ fs ∈ files, ∃ symbol ∈ fs.symbols, symbol.durableId = some id ∧
      node = Builder.symbolNode fs.graphPath symbol

theorem FromSymbols.module_ {files : List FileSymbols} {b : Builder} (h : FromSymbols files b)
    (file : String) : FromSymbols files (b.materializeModule file) := by
  intro id node hnode hshape
  rw [materializeModule_eq] at hnode
  split at hnode
  · exact h id node hnode hshape
  · rw [withModule_nodes] at hnode
    split at hnode
    · rename_i hid
      rw [hid, isModuleId_makeModuleDurableId] at hshape
      cases hshape
    · exact h id node hnode hshape

theorem FromSymbols.symbol {files : List FileSymbols} {b : Builder} (h : FromSymbols files b)
    {fs : FileSymbols} (hfs : fs ∈ files) {symbol : SymbolDto} (hsymbol : symbol ∈ fs.symbols) :
    FromSymbols files (Builder.materializeSymbol fs.graphPath b symbol) := by
  intro id node hnode hshape
  rw [materializeSymbol_eq] at hnode
  split at hnode
  · exact h id node hnode hshape
  · rename_i did hdid
    split at hnode
    · exact h id node hnode hshape
    · rw [withSymbol_nodes] at hnode
      split at hnode
      · rename_i hid
        cases hnode
        exact ⟨fs, hfs, symbol, hsymbol, by rw [hid, hdid], rfl⟩
      · exact h id node hnode hshape

/-- The materialized files have nodes of their symbols only. -/
theorem fromSymbols_world (out : Outputs) : FromSymbols (filesOf out) (world out) := by
  have hsymbols : ∀ fs ∈ filesOf out, ∀ symbols : List SymbolDto,
      (∀ symbol ∈ symbols, symbol ∈ fs.symbols) → ∀ b, FromSymbols (filesOf out) b →
      FromSymbols (filesOf out) (symbols.foldl (Builder.materializeSymbol fs.graphPath) b) := by
    intro fs hfs symbols
    induction symbols with
    | nil => exact fun _ b hb => hb
    | cons symbol symbols ih =>
      intro hall b hb
      exact ih (fun s hs => hall s (List.mem_cons_of_mem _ hs)) _
        (hb.symbol hfs (hall symbol List.mem_cons_self))
  have hfiles : ∀ todo : List FileSymbols, (∀ fs ∈ todo, fs ∈ filesOf out) → ∀ b,
      FromSymbols (filesOf out) b → FromSymbols (filesOf out) (materializeAll b todo) := by
    intro todo
    induction todo with
    | nil => exact fun _ b hb => hb
    | cons fs todo ih =>
      intro hall b hb
      have hfs := hall fs List.mem_cons_self
      exact ih (fun g hg => hall g (List.mem_cons_of_mem _ hg)) _
        (hsymbols fs hfs fs.symbols (fun _ hs => hs) _ (hb.module_ fs.graphPath))
  refine hfiles (filesOf out) (fun _ hfs => hfs) (opened out) ?_
  intro id node hnode
  cases hnode

/-- Materializing a symbol keeps the nodes. -/
theorem hasNode_materializeSymbol {b : Builder} {id : String} (h : b.layer.hasNode id = true)
    (file : String) (symbol : SymbolDto) :
    (Builder.materializeSymbol file b symbol).layer.hasNode id = true := by
  obtain ⟨node, hnode⟩ := hasNode_iff.mp h
  rw [materializeSymbol_eq]
  split
  · exact h
  · split
    · exact h
    · rw [hasNode_iff, withSymbol_nodes]
      split
      · exact ⟨_, rfl⟩
      · exact ⟨node, hnode⟩

/-- Materializing symbols keeps the nodes. -/
theorem hasNode_foldl_materializeSymbol {id : String} (file : String) (symbols : List SymbolDto)
    {b : Builder} (h : b.layer.hasNode id = true) :
    (symbols.foldl (Builder.materializeSymbol file) b).layer.hasNode id = true := by
  induction symbols generalizing b with
  | nil => exact h
  | cons symbol symbols ih => exact ih (hasNode_materializeSymbol h file symbol)

/-- Materializing files keeps the nodes. -/
theorem hasNode_materializeAll {id : String} (todo : List FileSymbols) {b : Builder}
    (h : b.layer.hasNode id = true) : (materializeAll b todo).layer.hasNode id = true := by
  induction todo generalizing b with
  | nil => exact h
  | cons fs todo ih =>
    apply ih
    apply hasNode_foldl_materializeSymbol
    obtain ⟨node, hnode⟩ := hasNode_iff.mp h
    rw [materializeModule_eq]
    split
    · exact h
    · rw [hasNode_iff, withModule_nodes]
      split
      · exact ⟨_, rfl⟩
      · exact ⟨node, hnode⟩

/-- A symbol with an id has a node once it is materialized. -/
theorem hasNode_materializeSymbol_self {symbol : SymbolDto} {id : String}
    (hid : symbol.durableId = some id) (file : String) (b : Builder) :
    (Builder.materializeSymbol file b symbol).layer.hasNode id = true := by
  rw [materializeSymbol_eq, hid]
  dsimp only
  split
  · assumption
  · rw [hasNode_iff, withSymbol_nodes, if_pos rfl]
    exact ⟨_, rfl⟩

/-- Every symbol with an id has a node. -/
theorem hasNode_world {out : Outputs} {fs : FileSymbols} (hfs : fs ∈ filesOf out)
    {symbol : SymbolDto} (hsymbol : symbol ∈ fs.symbols) {id : String}
    (hid : symbol.durableId = some id) : (world out).layer.hasNode id = true := by
  obtain ⟨front, back, hsplit⟩ := List.append_of_mem hfs
  obtain ⟨first, last, hsymbols⟩ := List.append_of_mem hsymbol
  unfold world materializeAll
  rw [hsplit, List.foldl_append, List.foldl_cons]
  apply hasNode_materializeAll back
  unfold Builder.materializeFileNodes
  rw [hsymbols, List.foldl_append, List.foldl_cons]
  exact hasNode_foldl_materializeSymbol _ _ (hasNode_materializeSymbol_self hid _ _)

/-! ## Entity nodes -/

/-- The node of an entity under an id. -/
def entityNode (layer : Layer) (id : String) : Option NodeData :=
  (layer.nodes.lookup id).filter fun node => decide (node.population id = .entity)

theorem entityNode_eq_some {layer : Layer} {id : String} {node : NodeData} :
    entityNode layer id = some node ↔ layer.nodes.lookup id = some node ∧
      node.external = false ∧ isModuleId id = false := by
  unfold entityNode NodeData.population
  rw [Option.filter_eq_some_iff, decide_eq_true_eq]
  refine and_congr_right fun _ => ?_
  cases node.external with
  | true => simp
  | false =>
    cases isModuleId id with
    | true => simp
    | false => simp

/-- An entity node of a full build is the node of a symbol. -/
theorem symbol_of_entityNode {out : Outputs} {id : String} {node : NodeData}
    (h : entityNode (build out) id = some node) :
    isModuleId id = false ∧ ∃ fs ∈ filesOf out, ∃ symbol ∈ fs.symbols,
      symbol.durableId = some id ∧ node = Builder.symbolNode fs.graphPath symbol := by
  obtain ⟨hnode, hinternal, hshape⟩ := entityNode_eq_some.mp h
  refine ⟨hshape, ?_⟩
  rcases (onlyStubs_build out).stubs id node hnode with hworld | hstub
  · exact fromSymbols_world out id node hworld hshape
  · rw [hinternal] at hstub
    cases hstub.1

/-- Every symbol with an id has an entity node in a full build. -/
theorem entityNode_of_symbol {out : Outputs} {fs : FileSymbols} (hfs : fs ∈ filesOf out)
    {symbol : SymbolDto} (hsymbol : symbol ∈ fs.symbols) {id : String}
    (hid : symbol.durableId = some id) (hshape : isModuleId id = false) :
    ∃ node, entityNode (build out) id = some node := by
  obtain ⟨node, hnode⟩ := hasNode_iff.mp (hasNode_world hfs hsymbol hid)
  have hinternal : node.external = false := internal_world out id node hnode
  have hbuilt := (onlyStubs_build out).keeps id node hnode
  exact ⟨node, entityNode_eq_some.mpr ⟨hbuilt, hinternal, hshape⟩⟩

end Tyo3.GraphNodes
