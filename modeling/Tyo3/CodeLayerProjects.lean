import Tyo3.CodeLayerPasses

/-!
# The full build of a project

A full build is its files, each with the edges it adds, and the first stub
asked for under each id. Whatever the order of the files, a node of the
project is the node of its file alone, and an edge is an edge of the file it
starts in.
-/

namespace Tyo3.CodeLayerProjects

open CodeLayer CodeLayerBuilder CodeLayerFiles CodeLayerParts CodeLayerPasses FiniteMaps
open ReverseDependencies

/-! ## The files of a project -/

/-- The files of the project whose symbols the engine reports. -/
def filesOf (out : Outputs) : List FileSymbols := collectSymbols out (projectListing out)

/-- A builder without nodes that knows the files of the project. -/
def opened (out : Outputs) : Builder :=
  { Builder.new with projectFiles := ((projectListing out).map Prod.fst).toFinset }

/-- All files of the project before any edge. -/
def world (out : Outputs) : Builder := materializeAll (opened out) (filesOf out)

/-- The containment and inheritance edges of the project. -/
def hierarchy (out : Outputs) : Layer where
  nodes := (world out).layer.nodes
  edges := (edgesOf ((filesOf out).flatMap (containmentOf (world out)) ++
    (filesOf out).flatMap (inheritsOf (world out) out))).toFinset
  reverseDeps := ∅
  fileToNodes := ∅

/-- The engine and the registry keep the files of a project apart, and no
stub looks like a module. -/
structure WellFormed (out : Outputs) : Prop where
  /-- No two listed files have one path in the layer. -/
  paths : ((projectListing out).map Prod.fst).Nodup
  /-- No listed file is called like the file of the stubs. -/
  external : ∀ file ∈ projectListing out, file.1 ≠ externalFile
  /-- A durable id belongs to one file. -/
  owners : ∀ fs ∈ filesOf out, ∀ fs' ∈ filesOf out, ∀ did ∈ durableIds fs,
    did ∈ durableIds fs' → fs.graphPath = fs'.graphPath
  /-- Durable ids look neither like module ids nor like stubs. -/
  shapes : ∀ fs ∈ filesOf out, ∀ did ∈ durableIds fs, isModuleId did = false ∧ ':' ∉ did.toList
  /-- No symbol is called like a module. -/
  qualified : ∀ fs ∈ filesOf out, ∀ symbol ∈ fs.symbols,
    symbol.qualifiedName.getD symbol.name ≠ moduleQualifiedName
  /-- No stub looks like a module. -/
  stubs : ∀ fs ∈ filesOf out, NoModuleStubs (referenceParts (world out) out fs) ∧
    NoModuleStubs (inheritsOf (world out) out fs)

theorem mem_collectSymbols {out : Outputs} {listing : List (String × String)} {fs : FileSymbols} :
    fs ∈ collectSymbols out listing ↔
      (fs.graphPath, fs.nativePath) ∈ listing ∧ out.symbols fs.nativePath = some fs.symbols := by
  unfold collectSymbols
  rw [List.mem_filterMap]
  constructor
  · rintro ⟨⟨graph, native⟩, hfile, hsymbols⟩
    obtain ⟨symbols, hout, hfs⟩ := Option.map_eq_some_iff.mp hsymbols
    rw [← hfs]
    exact ⟨hfile, hout⟩
  · rintro ⟨hfile, hsymbols⟩
    exact ⟨_, hfile, Option.map_eq_some_iff.mpr ⟨_, hsymbols, rfl⟩⟩

/-- Distinct paths of a listing stay distinct. -/
theorem nodup_collectSymbols {out : Outputs} {listing : List (String × String)}
    (h : (listing.map Prod.fst).Nodup) :
    ((collectSymbols out listing).map FileSymbols.graphPath).Nodup := by
  have hsub : ((collectSymbols out listing).map FileSymbols.graphPath).Sublist
      (listing.map Prod.fst) := by
    clear h
    induction listing with
    | nil => exact List.Sublist.slnil
    | cons file listing ih =>
      unfold collectSymbols at ih ⊢
      rw [List.filterMap_cons]
      cases out.symbols file.2 with
      | none => exact ih.cons _
      | some symbols => exact ih.cons_cons _
  exact hsub.nodup h

/-- A path of a listing determines its native path. -/
theorem eq_of_mem_listing {listing : List (String × String)} (h : (listing.map Prod.fst).Nodup)
    {file native native' : String} (hfile : (file, native) ∈ listing)
    (hfile' : (file, native') ∈ listing) : native = native' :=
  congrArg Prod.snd (List.inj_on_of_nodup_map h hfile hfile' rfl)

theorem WellFormed.separate {out : Outputs} (h : WellFormed out) :
    Separate {fs | fs ∈ filesOf out} := by
  have hpaths : ∀ fs ∈ filesOf out, ∀ fs' ∈ filesOf out,
      fs.graphPath = fs'.graphPath → fs = fs' := by
    intro fs hfs fs' hfs' hpath
    obtain ⟨hlisted, hsymbols⟩ := mem_collectSymbols.mp hfs
    obtain ⟨hlisted', hsymbols'⟩ := mem_collectSymbols.mp hfs'
    rw [hpath] at hlisted
    have hnative := eq_of_mem_listing h.paths hlisted hlisted'
    rw [hnative, hsymbols'] at hsymbols
    cases fs
    cases fs'
    simp only [FileSymbols.mk.injEq]
    exact ⟨hpath, hnative, (Option.some.inj hsymbols).symm⟩
  exact ⟨hpaths, fun fs hfs fs' hfs' did hdid hdid' =>
    hpaths fs hfs fs' hfs' (h.owners fs hfs fs' hfs' did hdid hdid'), h.shapes, h.qualified⟩

theorem holds_world {out : Outputs} (h : WellFormed out) :
    Holds {fs | fs ∈ filesOf out} (world out) := by
  have hunion : ∅ ∪ {fs | fs ∈ filesOf out} = {fs | fs ∈ filesOf out} := Set.empty_union _
  have hall : Holds (∅ ∪ {fs | fs ∈ filesOf out}) (world out) :=
    (holds_new ((projectListing out).map Prod.fst).toFinset).materializeAll
      (by rw [hunion]; exact h.separate) (fun _ _ fs' hfs' => absurd hfs' (Set.notMem_empty fs'))
      (nodup_collectSymbols h.paths)
  rwa [hunion] at hall

theorem sameEdges_materializeAll (b : Builder) (todo : List FileSymbols) :
    SameEdges b (materializeAll b todo) := by
  induction todo generalizing b with
  | nil => exact ⟨rfl, rfl, rfl⟩
  | cons fs todo ih => exact (sameEdges_materializeFileNodes b _ _).trans (ih _)

/-- No node is a stub. -/
def Internal (b : Builder) : Prop :=
  ∀ id node, b.layer.nodes.lookup id = some node → node.external = false

theorem Internal.symbol {b : Builder} (h : Internal b) (file : String) (symbol : SymbolDto) :
    Internal (Builder.materializeSymbol file b symbol) := by
  rw [materializeSymbol_eq]
  split
  · exact h
  · split
    · exact h
    · intro id node hnode
      rw [withSymbol_nodes] at hnode
      split at hnode
      · rw [← Option.some.inj hnode]
        rfl
      · exact h id node hnode

theorem Internal.module_ {b : Builder} (h : Internal b) (file : String) :
    Internal (b.materializeModule file) := by
  rw [materializeModule_eq]
  split
  · exact h
  · intro id node hnode
    rw [withModule_nodes] at hnode
    split at hnode
    · rw [← Option.some.inj hnode]
      rfl
    · exact h id node hnode

/-- Materializing makes no stubs. -/
theorem internal_world (out : Outputs) : Internal (world out) := by
  have hfile : ∀ (file : String) (symbols : List SymbolDto) (b : Builder), Internal b →
      Internal (symbols.foldl (Builder.materializeSymbol file) b) := by
    intro file symbols
    induction symbols with
    | nil => exact fun _ hb => hb
    | cons symbol symbols ih => exact fun b hb => ih _ (hb.symbol file symbol)
  have hall : ∀ (todo : List FileSymbols) (b : Builder), Internal b →
      Internal (materializeAll b todo) := by
    intro todo
    induction todo with
    | nil => exact fun _ hb => hb
    | cons fs todo ih =>
      exact fun b hb => ih _ (hfile fs.graphPath fs.symbols _ (hb.module_ fs.graphPath))
  apply hall
  intro id node hnode
  cases hnode

/-- Every node of the project is listed for one of its files. -/
theorem listed_of_hierarchy {out : Outputs} (h : WellFormed out) (id : String) (node : NodeData)
    (hnode : (hierarchy out).nodes.lookup id = some node) :
    ∃ g ∈ {fs | fs ∈ filesOf out}, id ∈ (solo g).idsOf g.graphPath := by
  obtain ⟨g, hg, hsolo⟩ :=
    ((holds_world h).nodes.own id node (internal_world out id node hnode)).mp hnode
  exact ⟨g, hg, ((filed_solo g).listed id).mpr (hasNode_iff.mpr ⟨node, hsolo⟩)⟩

/-! ## Kinds of edges -/

theorem kind_of_import {w : Builder} {file target : String} {range : Range} {part : LayerPart}
    {e : Edge} (h : part ∈ importOther w file target range) (hedge : part.edge = some e) :
    e.kind = .imports := by
  unfold importOther importParts at h
  split at h
  swap
  · exact absurd h List.not_mem_nil
  split at h
  swap
  · exact absurd h List.not_mem_nil
  split at h
  · rw [List.mem_singleton.mp h] at hedge
    rw [← Option.some.inj hedge]
  · split at h
    · exact absurd h List.not_mem_nil
    · rw [List.mem_singleton.mp h] at hedge
      rw [← Option.some.inj hedge]

theorem kind_of_reference {w : Builder} {out : Outputs} {fs : FileSymbols} {e : Edge}
    (h : e ∈ edgesOf (referenceParts w out fs)) : e.kind = .references ∨ e.kind = .imports := by
  obtain ⟨part, hpart, hedge⟩ := List.mem_filterMap.mp h
  obtain ⟨occ, -, hocc⟩ := List.mem_flatMap.mp hpart
  unfold occurrenceParts at hocc
  split at hocc
  · unfold gotoParts at hocc
    split at hocc
    · exact .inr (kind_of_import hocc hedge)
    · exact absurd hocc List.not_mem_nil
  · split at hocc
    swap
    · exact absurd hocc List.not_mem_nil
    split at hocc
    · exact absurd hocc List.not_mem_nil
    · unfold resolvedParts at hocc
      split at hocc
      · rw [List.mem_singleton.mp hocc] at hedge
        cases hedge
      · split at hocc
        · rw [List.mem_singleton.mp hocc] at hedge
          cases hedge
        · split at hocc
          · rcases List.mem_cons.mp hocc with hfirst | himport
            · rw [hfirst] at hedge
              cases hedge
            · exact .inr (kind_of_import himport hedge)
          · rcases List.mem_cons.mp hocc with hfirst | himport
            · rw [hfirst] at hedge
              rw [← Option.some.inj hedge]
              exact .inl rfl
            · exact .inr (kind_of_import himport hedge)

theorem kind_of_inherits {w : Builder} {out : Outputs} {fs : FileSymbols} {e : Edge}
    (h : e ∈ edgesOf (inheritsOf w out fs)) : e.kind = .inherits := by
  obtain ⟨part, hpart, hedge⟩ := List.mem_filterMap.mp h
  obtain ⟨symbol, -, hsymbol⟩ := List.mem_flatMap.mp hpart
  unfold inheritParts at hsymbol
  split at hsymbol
  swap
  · exact absurd hsymbol List.not_mem_nil
  split at hsymbol
  swap
  · exact absurd hsymbol List.not_mem_nil
  obtain ⟨supertype, -, hsupertype⟩ := List.mem_flatMap.mp hsymbol
  unfold supertypeParts at hsupertype
  split at hsupertype
  · exact absurd hsupertype List.not_mem_nil
  · rw [List.mem_singleton.mp hsupertype] at hedge
    rw [← Option.some.inj hedge]
    rfl

theorem kind_of_overrides {w : Builder} {layer : Layer} {fs : FileSymbols} {e : Edge}
    (h : e ∈ edgesOf (overridesOf w layer fs)) : e.kind = .overrides := by
  obtain ⟨part, hpart, hedge⟩ := List.mem_filterMap.mp h
  obtain ⟨symbol, -, hsymbol⟩ := List.mem_flatMap.mp hpart
  obtain ⟨-, method, -, did, parent, name, ancestor, -, -, hedge'⟩ := overrideParts_kind hsymbol
  rw [hedge] at hedge'
  rw [Option.some.inj hedge']
  rfl

/-! ## A full build -/

theorem mem_edgesOf_flatMap {α : Type*} {xs : List α} {parts : α → List LayerPart} {e : Edge} :
    e ∈ edgesOf (xs.flatMap parts) ↔ ∃ x ∈ xs, e ∈ edgesOf (parts x) := by
  unfold edgesOf
  simp only [List.mem_filterMap, List.mem_flatMap]
  constructor
  · rintro ⟨part, ⟨x, hx, hpart⟩, hedge⟩
    exact ⟨x, hx, part, hpart, hedge⟩
  · rintro ⟨x, hx, part, hpart, hedge⟩
    exact ⟨part, ⟨x, hx, hpart⟩, hedge⟩

theorem edgesOf_flatMap_congr {α : Type*} {xs : List α} {parts parts' : α → List LayerPart}
    (h : ∀ x ∈ xs, edgesOf (parts x) = edgesOf (parts' x)) :
    edgesOf (xs.flatMap parts) = edgesOf (xs.flatMap parts') := by
  unfold edgesOf at h ⊢
  rw [List.filterMap_flatMap, List.filterMap_flatMap]
  exact List.flatMap_congr h

/-- An edge among the containment, reference and inheritance edges of some
files. -/
theorem mem_edgesOf_structureOf {w : Builder} {out : Outputs} {todo : List FileSymbols} {e : Edge} :
    e ∈ edgesOf (structureOf w out todo) ↔ ∃ fs ∈ todo, e ∈ edgesOf (containmentOf w fs) ∨
      e ∈ edgesOf (referenceParts w out fs) ∨ e ∈ edgesOf (inheritsOf w out fs) := by
  unfold structureOf
  rw [edgesOf_append, edgesOf_append, List.mem_append, List.mem_append, mem_edgesOf_flatMap,
    mem_edgesOf_flatMap, mem_edgesOf_flatMap]
  constructor
  · rintro ((⟨fs, hfs, he⟩ | ⟨fs, hfs, he⟩) | ⟨fs, hfs, he⟩)
    · exact ⟨fs, hfs, .inl he⟩
    · exact ⟨fs, hfs, .inr (.inl he)⟩
    · exact ⟨fs, hfs, .inr (.inr he)⟩
  · rintro ⟨fs, hfs, he | he | he⟩
    · exact .inl (.inl ⟨fs, hfs, he⟩)
    · exact .inl (.inr ⟨fs, hfs, he⟩)
    · exact .inr ⟨fs, hfs, he⟩

theorem mem_hierarchy_edges {out : Outputs} {e : Edge} :
    e ∈ (hierarchy out).edges ↔
      (∃ fs ∈ filesOf out, e ∈ edgesOf (containmentOf (world out) fs)) ∨
        ∃ fs ∈ filesOf out, e ∈ edgesOf (inheritsOf (world out) out fs) := by
  unfold hierarchy
  simp only [List.mem_toFinset]
  rw [edgesOf_append, List.mem_append, mem_edgesOf_flatMap, mem_edgesOf_flatMap]

/-- A builder whose edges, the overrides apart, are those of all files has the
hierarchy of the project. -/
theorem sameHierarchy_of_edges {out : Outputs} (h : WellFormed out) {b : Builder}
    (hb : Working {fs | fs ∈ filesOf out} (world out) b)
    (hedges : ∀ e : Edge, e.kind ≠ .overrides → (e ∈ b.layer.edges ↔
      ∃ fs ∈ filesOf out, e ∈ edgesOf (containmentOf (world out) fs) ∨
        e ∈ edgesOf (referenceParts (world out) out fs) ∨
        e ∈ edgesOf (inheritsOf (world out) out fs))) :
    SameHierarchy b.layer (hierarchy out) := by
  have hworld := holds_world h
  have hcontains : ∀ e : Edge, e.kind = .defines ∨ e.kind = .contains → (e ∈ b.layer.edges ↔
      ∃ fs ∈ filesOf out, e ∈ edgesOf (containmentOf (world out) fs)) := by
    intro e hkind
    rw [hedges e (by rcases hkind with hkind | hkind <;> rw [hkind] <;> decide)]
    refine exists_congr fun fs => and_congr_right fun _ => or_iff_left ?_
    rintro (he | he)
    · rcases kind_of_reference he with hother | hother <;> rw [hother] at hkind <;>
        rcases hkind with hkind | hkind <;> cases hkind
    · rw [kind_of_inherits he] at hkind
      rcases hkind with hkind | hkind <;> cases hkind
  constructor
  · intro e hkind
    rw [hedges e (by rw [hkind]; decide), mem_hierarchy_edges]
    constructor
    · rintro ⟨fs, hfs, he | he | he⟩
      · exact .inl ⟨fs, hfs, he⟩
      · rcases kind_of_reference he with hother | hother <;> rw [hkind] at hother <;> cases hother
      · exact .inr ⟨fs, hfs, he⟩
    · rintro (⟨fs, hfs, he⟩ | ⟨fs, hfs, he⟩)
      · exact ⟨fs, hfs, .inl he⟩
      · exact ⟨fs, hfs, .inr (.inr he)⟩
  · intro e hkind
    rw [hcontains e hkind, mem_hierarchy_edges]
    refine (or_iff_left ?_).symm
    rintro ⟨fs, -, he⟩
    rw [kind_of_inherits he] at hkind
    rcases hkind with hkind | hkind <;> cases hkind
  · intro e he hkind
    obtain ⟨fs, hfs, hin⟩ := (hcontains e hkind).mp he
    obtain ⟨part, hpart, hedge⟩ := List.mem_filterMap.mp hin
    obtain ⟨symbol, hsymbol, hparts⟩ := List.mem_flatMap.mp hpart
    unfold containmentParts at hparts
    split at hparts
    · exact absurd hparts List.not_mem_nil
    · rename_i did hdid
      rw [List.mem_singleton.mp hparts] at hedge
      rw [← Option.some.inj hedge]
      have hid := mem_fileIds_of_mem_idsOf (mem_idsOf_of_symbol hsymbol hdid)
      exact (hb.holds.nodes.lookup_eq h.separate hfs hid).trans
        (hworld.nodes.lookup_eq h.separate hfs hid).symm

/-- All parts of some files of a project. -/
def partsOf (out : Outputs) (todo : List FileSymbols) : List LayerPart :=
  structureOf (world out) out todo ++ todo.flatMap (overridesOf (world out) (hierarchy out))

theorem working_world {out : Outputs} (h : WellFormed out) :
    Working {fs | fs ∈ filesOf out} (world out) (world out) := ⟨holds_world h, rfl⟩

/-- A full build adds all parts of its files. -/
theorem grown_build {out : Outputs} (h : WellFormed out) :
    Grown (world out) ((opened out).runPasses out (filesOf out)) (partsOf out (filesOf out)) := by
  have hstructure := grown_structurePasses h.separate (holds_world h) (fun _ hfs => hfs)
    (fun fs hfs => (h.stubs fs hfs).1) (fun fs hfs => (h.stubs fs hfs).2) (working_world h)
  have hnone : ∀ e, e ∉ (world out).layer.edges := by
    intro e he
    have hsame : (world out).layer.edges = (opened out).layer.edges :=
      (sameEdges_materializeAll (opened out) (filesOf out)).edges
    have hempty : (opened out).layer.edges = ∅ := rfl
    rw [hsame, hempty] at he
    exact Finset.notMem_empty e he
  have hhierarchy := sameHierarchy_of_edges h hstructure.2 fun e _ => by
    rw [hstructure.1.edges e, or_iff_right (hnone e)]
    exact mem_edgesOf_structureOf
  have hfiles : ∀ fs ∈ filesOf out, fs ∈ {fs | fs ∈ filesOf out} := fun _ hfs => hfs
  have hready : Working {fs | fs ∈ filesOf out} (world out)
      (materializeAll (opened out) (filesOf out)) := working_world h
  exact grown_runPasses h.separate (holds_world h) hfiles (fun fs hfs => (h.stubs fs hfs).1)
    (fun fs hfs => (h.stubs fs hfs).2) (listed_of_hierarchy h) hready hhierarchy

/-- The edges that one file adds to a full build. -/
def fileEdges (out : Outputs) (fs : FileSymbols) : List Edge :=
  edgesOf (containmentOf (world out) fs) ++ edgesOf (referenceParts (world out) out fs) ++
    edgesOf (inheritsOf (world out) out fs) ++
    edgesOf (overridesOf (world out) (hierarchy out) fs)

theorem mem_fileEdges {out : Outputs} {fs : FileSymbols} {e : Edge} :
    e ∈ fileEdges out fs ↔ e ∈ edgesOf (containmentOf (world out) fs) ∨
      e ∈ edgesOf (referenceParts (world out) out fs) ∨
      e ∈ edgesOf (inheritsOf (world out) out fs) ∨
      e ∈ edgesOf (overridesOf (world out) (hierarchy out) fs) := by
  unfold fileEdges
  rw [List.mem_append, List.mem_append, List.mem_append, or_assoc, or_assoc]

theorem mem_edgesOf_partsOf {out : Outputs} {todo : List FileSymbols} {e : Edge} :
    e ∈ edgesOf (partsOf out todo) ↔ ∃ fs ∈ todo, e ∈ fileEdges out fs := by
  unfold partsOf
  rw [edgesOf_append, List.mem_append, mem_edgesOf_structureOf, mem_edgesOf_flatMap]
  constructor
  · rintro (⟨fs, hfs, he⟩ | ⟨fs, hfs, he⟩)
    · refine ⟨fs, hfs, mem_fileEdges.mpr ?_⟩
      exact he.imp_right fun hrest => hrest.imp_right .inl
    · exact ⟨fs, hfs, mem_fileEdges.mpr (.inr (.inr (.inr he)))⟩
  · rintro ⟨fs, hfs, he⟩
    rcases mem_fileEdges.mp he with he | he | he | he
    · exact .inl ⟨fs, hfs, .inl he⟩
    · exact .inl ⟨fs, hfs, .inr (.inl he)⟩
    · exact .inl ⟨fs, hfs, .inr (.inr he)⟩
    · exact .inr ⟨fs, hfs, he⟩

/-- Every part belongs to one of the files. -/
theorem partOf_partsOf {out : Outputs} (h : WellFormed out) {todo : List FileSymbols}
    (htodo : ∀ fs ∈ todo, fs ∈ filesOf out) {part : LayerPart} (hpart : part ∈ partsOf out todo) :
    ∃ fs ∈ todo, PartOf {fs | fs ∈ filesOf out} fs part ∧
      ∀ id node, part.stub = some (id, node) → isModuleId id = false := by
  have hworld := holds_world h
  unfold partsOf structureOf at hpart
  simp only [List.mem_append, List.mem_flatMap] at hpart
  rcases hpart with ((⟨fs, hfs, hin⟩ | ⟨fs, hfs, hin⟩) | ⟨fs, hfs, hin⟩) | ⟨fs, hfs, hin⟩
  · obtain ⟨symbol, hsymbol, hin⟩ := List.mem_flatMap.mp hin
    refine ⟨fs, hfs, partOf_containment hworld h.separate (htodo fs hfs) hsymbol hin, ?_⟩
    intro id node hstub
    unfold containmentParts at hin
    split at hin
    · exact absurd hin List.not_mem_nil
    · rw [List.mem_singleton.mp hin] at hstub
      cases hstub
  · obtain ⟨occ, -, hocc⟩ := List.mem_flatMap.mp hin
    exact ⟨fs, hfs, partOf_occurrence hworld h.separate (htodo fs hfs) hocc,
      (h.stubs fs (htodo fs hfs)).1 part hin⟩
  · obtain ⟨symbol, hsymbol, hinherit⟩ := List.mem_flatMap.mp hin
    exact ⟨fs, hfs, partOf_inherit hworld hsymbol hinherit,
      (h.stubs fs (htodo fs hfs)).2 part hin⟩
  · obtain ⟨symbol, hsymbol, hoverride⟩ := List.mem_flatMap.mp hin
    refine ⟨fs, hfs, partOf_override (listed_of_hierarchy h) hoverride, ?_⟩
    intro id node hstub
    rw [(overrideParts_kind hoverride).1] at hstub
    cases hstub

/-- Every stub that is asked for looks like one. -/
theorem stubs_partsOf {out : Outputs} (h : WellFormed out) {todo : List FileSymbols}
    (htodo : ∀ fs ∈ todo, fs ∈ filesOf out) {part : LayerPart} (hpart : part ∈ partsOf out todo)
    (id : String) (node : NodeData) (hstub : part.stub = some (id, node)) :
    node.external = true ∧ StubShaped id := by
  obtain ⟨fs, -, hof, hmodule⟩ := partOf_partsOf h htodo hpart
  have hlooks := hof.stub id node hstub
  exact ⟨hlooks.1, hmodule id node hstub, hlooks.2⟩

/-- The edges of a file start in the file. -/
theorem source_of_fileEdges {out : Outputs} (h : WellFormed out) {fs : FileSymbols}
    (hfs : fs ∈ filesOf out) {e : Edge} (he : e ∈ fileEdges out fs) :
    e.source ∈ (solo fs).idsOf fs.graphPath := by
  have hone : e ∈ edgesOf (partsOf out [fs]) :=
    mem_edgesOf_partsOf.mpr ⟨fs, List.mem_singleton_self fs, he⟩
  obtain ⟨part, hpart, hedge⟩ := List.mem_filterMap.mp hone
  obtain ⟨g, hg, hof, -⟩ := partOf_partsOf h
    (fun g hg => (List.mem_singleton.mp hg) ▸ hfs) hpart
  rw [← List.mem_singleton.mp hg]
  exact hof.source e hedge

/-- A full build, told by its nodes and edges. -/
theorem build_spec {out : Outputs} (h : WellFormed out) :
    (∀ id, (build out).nodes.lookup id =
      ((world out).layer.nodes.lookup id).or (firstStub (partsOf out (filesOf out)) id)) ∧
    (∀ e, e ∈ (build out).edges ↔ ∃ fs ∈ filesOf out, e ∈ fileEdges out fs) ∧
    IndexInStep (build out) ∧ (build out).fileToNodes = (world out).fileToNodes ∧
    NodesOf {fs | fs ∈ filesOf out} (build out).nodes := by
  have hgrown := grown_build h
  have hedges : (world out).layer.edges = ∅ :=
    (sameEdges_materializeAll (opened out) (filesOf out)).edges
  have hindex : IndexInStep (world out).layer := by
    intro target
    have hreverse : (world out).layer.reverseDeps = ∅ :=
      (sameEdges_materializeAll (opened out) (filesOf out)).reverseDeps
    rw [hreverse, hedges]
    rfl
  have hholds := hgrown.holds (holds_world h) fun part hpart =>
    stubs_partsOf h (fun _ hfs => hfs) hpart
  refine ⟨hgrown.nodes, ?_, hgrown.index hindex, hgrown.lists, hholds.nodes⟩
  intro e
  have hin := hgrown.edges e
  rw [hedges, or_iff_right (Finset.notMem_empty e)] at hin
  exact hin.trans mem_edgesOf_partsOf

end Tyo3.CodeLayerProjects
