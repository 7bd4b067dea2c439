import Tyo3.GraphNodes

/-!
# The edges of a full build

Once all nodes are materialized, the passes of a full build only ask for stubs
and for edges, and an edge is inserted only between nodes that exist. So in a
full build every edge joins two nodes and the index is in step, whatever the
engine says about the files.
-/

namespace Tyo3.JoinedEdges

open CodeLayer CodeLayerBuilder CodeLayerFiles CodeLayerPasses CodeLayerProjects FiniteMaps
  GraphNodes ReverseDependencies

/-! ## Asking for stubs and edges -/

/-- One builder comes from another one by asking for stubs and for edges. -/
inductive Asked (b : Builder) : Builder → Prop where
  | start : Asked b b
  | aside {b' other : Builder} (h : Asked b b') (hlayer : other.layer = b'.layer) : Asked b other
  | stub {b' : Builder} (h : Asked b b') (did name qualifiedName : String) (kind : SymbolKindDto)
    (package : String) : Asked b (b'.addStubNode did name qualifiedName kind package)
  | edge {b' : Builder} (h : Asked b b') (edge : Edge) : Asked b (b'.tryAddEdge edge)

theorem Asked.trans {b b' b'' : Builder} (h : Asked b b') (h' : Asked b' b'') : Asked b b'' := by
  induction h' with
  | start => exact h
  | aside _ hlayer ih => exact ih.aside hlayer
  | stub _ did name qualifiedName kind package ih =>
    exact ih.stub did name qualifiedName kind package
  | edge _ edge ih => exact ih.edge edge

/-- Steps that ask, one after another. -/
theorem asked_foldl {α : Type*} {step : Builder → α → Builder} (h : ∀ b x, Asked b (step b x))
    (xs : List α) (b : Builder) : Asked b (xs.foldl step b) := by
  induction xs generalizing b with
  | nil => exact .start
  | cons x xs ih => exact (h b x).trans (ih (step b x))

theorem asked_addContainmentEdge (file : String) (b : Builder) (symbol : SymbolDto) :
    Asked b (Builder.addContainmentEdge file b symbol) := by
  unfold Builder.addContainmentEdge
  split
  · exact .start
  · dsimp only
    split
    · exact Asked.start.edge _
    · exact .start

theorem asked_addImportEdge (b : Builder) (source target : String) (range : Range) :
    Asked b (b.addImportEdge source target range) := by
  unfold Builder.addImportEdge
  split
  · dsimp only
    split
    · exact Asked.start.edge _
    · split
      · exact .start
      · exact (Asked.start.stub _ _ _ _ _).edge _
  · exact .start

theorem asked_resolveImportViaGoto (b : Builder) (out : Outputs) (native file : String)
    (range : Range) : Asked b (b.resolveImportViaGoto out native file range) := by
  unfold Builder.resolveImportViaGoto
  split
  · dsimp only
    split
    · exact asked_addImportEdge b _ _ _
    · exact .start
  · exact .start

theorem asked_referenceTarget (b : Builder) (file name : String) (qualified : Option String) :
    Asked b (b.referenceTarget file name qualified).1 := by
  unfold Builder.referenceTarget
  split
  · exact .start
  · split
    · exact .start
    · split
      · exact .start
      · unfold Builder.ensureExternalTarget
        split
        · exact .start
        · exact Asked.start.stub _ _ _ _ _

/-- The import edge to another file, if there is one. -/
theorem asked_importOther (b : Builder) (target file : String) (range : Range) :
    Asked b (if target ≠ file then b.addImportEdge file target range else b) := by
  split
  · exact asked_addImportEdge b _ _ _
  · exact .start

theorem asked_resolveOccurrence (out : Outputs) (file native : String) (b : Builder)
    (occ : NameOccurrence) : Asked b (Builder.resolveOccurrence out file native b occ) := by
  unfold Builder.resolveOccurrence
  split
  · exact asked_resolveImportViaGoto b _ _ _ _
  · split
    · rename_i targetFileRaw targetName _ _
      have htarget := asked_referenceTarget b (b.normalizeTarget out.root targetFileRaw)
        targetName occ.targetQualifiedName
      dsimp only
      split
      · rename_i b' hb'
        rw [hb'] at htarget
        exact htarget
      · rename_i b' targetDid hb'
        rw [hb'] at htarget
        refine htarget.trans ?_
        split
        · exact .start
        · split
          · exact .start
          · split
            · exact asked_importOther b' _ _ _
            · exact (Asked.start.edge _).trans (asked_importOther _ _ _ _)
    · exact .start

theorem asked_supertypeTarget (b : Builder) (file name : String) :
    Asked b (b.supertypeTarget file name).1 := by
  unfold Builder.supertypeTarget
  split
  · exact .start
  · dsimp only
    split
    · exact Asked.start.stub _ _ _ _ _
    · exact .start

theorem asked_inheritFrom (out : Outputs) (did : String) (b : Builder) (supertype : Supertype) :
    Asked b (Builder.inheritFrom out did b supertype) := by
  have htarget := asked_supertypeTarget b (b.normalizeTarget out.root supertype.path)
    supertype.name
  unfold Builder.inheritFrom
  split
  · rename_i b' hb'
    rw [hb'] at htarget
    exact htarget
  · rename_i b' superDid hb'
    rw [hb'] at htarget
    exact htarget.edge _

theorem asked_overridesSymbol (file : String) (symbols : List SymbolDto) (b : Builder)
    (symbol : SymbolDto) : Asked b (Builder.overridesSymbol file symbols b symbol) := by
  have hmethod : ∀ (ancestors : FMap String String) (b : Builder) (method : SymbolDto),
      Asked b (Builder.overrideMethod ancestors b method) := by
    intro ancestors b method
    unfold Builder.overrideMethod
    split
    · exact Asked.start.edge _
    · exact .start
  unfold Builder.overridesSymbol
  split
  · split
    · exact .start
    · split
      · exact .start
      · exact asked_foldl (hmethod _) _ b
  · exact .start

/-- After all nodes are there, the passes of a full build only ask for stubs
and for edges. -/
theorem asked_build (out : Outputs) :
    Asked (world out) ((opened out).runPasses out (filesOf out)) := by
  have hcontainment : ∀ (b : Builder) (fs : FileSymbols), Asked b
      ((b.addContainmentEdges fs.graphPath fs.symbols).buildRangeCache fs.graphPath) :=
    fun b fs => (asked_foldl (asked_addContainmentEdge fs.graphPath) fs.symbols b).aside rfl
  have hreferences : ∀ (b : Builder) (fs : FileSymbols), Asked b
      (b.resolveReferences out fs.graphPath fs.nativePath) := by
    intro b fs
    unfold Builder.resolveReferences
    split
    · exact .start
    · exact asked_foldl (asked_resolveOccurrence out fs.graphPath fs.nativePath) _ b
  have hinherits : ∀ (b : Builder) (fs : FileSymbols), Asked b
      (b.inheritsPass out fs.nativePath fs.symbols) := by
    intro b fs
    refine asked_foldl (fun b symbol => ?_) fs.symbols b
    unfold Builder.inheritsSymbol
    split
    · split
      · exact asked_foldl (asked_inheritFrom out _) _ b
      · exact .start
    · exact .start
  have hoverrides : ∀ (b : Builder) (fs : FileSymbols), Asked b
      (b.overridesPass fs.graphPath fs.symbols) :=
    fun b fs => asked_foldl (asked_overridesSymbol fs.graphPath fs.symbols) fs.symbols b
  exact (((asked_foldl hcontainment _ _).trans (asked_foldl hreferences _ _)).trans
    (asked_foldl hinherits _ _)).trans (asked_foldl hoverrides _ _)

/-! ## Joined edges -/

/-- The edges of a layer join its nodes, and its index is in step. -/
structure Joined (layer : Layer) : Prop where
  /-- Both ends of an edge are nodes. -/
  ends : ∀ e ∈ layer.edges, layer.hasNode e.source = true ∧ layer.hasNode e.target = true
  /-- The index lists the dependents. -/
  index : IndexInStep layer

/-- Asking for stubs and edges keeps the edges joined. -/
theorem Asked.joined {b b' : Builder} (h : Asked b b') (hb : Joined b.layer) : Joined b'.layer := by
  induction h with
  | start => exact hb
  | aside _ hlayer ih => exact hlayer ▸ ih
  | @stub b' _ did name qualifiedName kind package ih =>
    have hkeeps : ∀ id, b'.layer.hasNode id = true →
        (b'.addStubNode did name qualifiedName kind package).layer.hasNode id = true := by
      intro id hid
      obtain ⟨node, hnode⟩ := hasNode_iff.mp hid
      exact hasNode_iff.mpr ⟨node, lookup_addStubNode hnode _ _ _ _ _⟩
    have hsame : (b'.addStubNode did name qualifiedName kind package).layer.edges = b'.layer.edges ∧
        (b'.addStubNode did name qualifiedName kind package).layer.reverseDeps =
          b'.layer.reverseDeps := by
      unfold Builder.addStubNode
      split <;> exact ⟨rfl, rfl⟩
    refine ⟨fun e he => ?_, fun target => ?_⟩
    · rw [hsame.1] at he
      exact (ih.ends e he).imp (hkeeps _) (hkeeps _)
    · rw [hsame.1, hsame.2]
      exact ih.index target
  | @edge b' _ edge ih =>
    unfold Builder.tryAddEdge
    split
    · rename_i hends
      refine ⟨fun e he => ?_, ih.index.addEdge edge⟩
      rcases Finset.mem_insert.mp he with rfl | hold
      · exact Bool.and_eq_true_iff.mp hends
      · exact ih.ends e hold
    · exact ih

/-- Every edge of a full build joins two nodes, whatever the engine says. -/
theorem joined_build (out : Outputs) : Joined (build out) := by
  have hsame := sameEdges_materializeAll (opened out) (filesOf out)
  have hnone : (world out).layer.edges = ∅ := hsame.edges
  have hlists : (world out).layer.reverseDeps = ∅ := hsame.reverseDeps
  have hworld : Joined (world out).layer := by
    refine ⟨fun e he => ?_, fun target => ?_⟩
    · rw [hnone] at he
      exact absurd he (Finset.notMem_empty e)
    · rw [hlists, hnone]
      rfl
  have hbuilt := (asked_build out).joined hworld
  exact ⟨hbuilt.ends, hbuilt.index⟩

end Tyo3.JoinedEdges
