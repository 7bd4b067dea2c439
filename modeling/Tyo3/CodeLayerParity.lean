import Tyo3.CodeLayerCarrying

/-!
# Scoped builds and full builds

A scoped build over a full build is the full build of the new outputs when
the carried files carry over, and so is every layer along a run of such
commits. It is not when a name is imported and never used, or when a method
two imports away goes.
-/

namespace Tyo3.CodeLayerParity

open CodeLayer CodeLayerBuilder CodeLayerFiles CodeLayerParts CodeLayerPasses FiniteMaps
open CodeLayerProjects CodeLayerCarrying ReverseDependencies

/-! ## A scoped build -/

/-- The builder of a scoped build after the dirty files are evicted. -/
def evicted (out : Outputs) (prev : Layer) (seedDirty : Finset String) : Builder :=
  (HashOrder.increasing.order (widenDirty prev seedDirty)).foldl Builder.evictFile
    { Builder.seeded prev with projectFiles := ((projectListing out).map Prod.fst).toFinset }

/-- A scoped build runs the passes over the dirty files. -/
theorem buildScoped_eq {out : Outputs} {prev : Layer} (hseeded : (Builder.seeded prev).layer = prev)
    (seedDirty : Finset String) :
    buildScoped out prev seedDirty =
      ((evicted out prev seedDirty).runPasses out
        (dirtyFiles out prev seedDirty)).gcExternalStubs.syncFileToNodes := by
  unfold buildScoped evicted dirtyFiles existingDirty currentNative
  simp only [hseeded]

/-- Materializing a file touches only the nodes of its ids. -/
theorem nodes_materializeFileNodes {fs : FileSymbols} {id : String} (hid : id ∉ fileIds fs)
    (b : Builder) :
    (b.materializeFileNodes fs.graphPath fs.symbols).layer.nodes.lookup id =
      b.layer.nodes.lookup id := by
  have hmodule : (b.materializeModule fs.graphPath).layer.nodes.lookup id =
      b.layer.nodes.lookup id := by
    have hne : id ≠ makeModuleDurableId fs.graphPath := fun h => hid (h ▸ List.mem_cons_self)
    rw [materializeModule_eq]
    split
    · rfl
    · rw [withModule_nodes, if_neg hne]
  have hfold : ∀ (symbols : List SymbolDto) (b : Builder), (∀ s ∈ symbols, s ∈ fs.symbols) →
      (symbols.foldl (Builder.materializeSymbol fs.graphPath) b).layer.nodes.lookup id =
        b.layer.nodes.lookup id := by
    intro symbols
    induction symbols with
    | nil => exact fun _ _ => rfl
    | cons symbol symbols ih =>
      intro b hsymbols
      rw [List.foldl_cons, ih _ fun s hs => hsymbols s (List.mem_cons_of_mem _ hs),
        materializeSymbol_eq]
      cases hdid : symbol.durableId with
      | none => rfl
      | some did =>
        have hmem : did ∈ durableIds fs :=
          List.mem_filterMap.mpr ⟨symbol, hsymbols symbol List.mem_cons_self, hdid⟩
        have hne : id ≠ did := fun h => hid (List.mem_cons_of_mem _ (h ▸ hmem))
        simp only
        split
        · rfl
        · rw [withSymbol_nodes, if_neg hne]
  exact (hfold fs.symbols _ fun _ hs => hs).trans hmodule

theorem nodes_materializeAll {todo : List FileSymbols} {id : String}
    (hid : ∀ fs ∈ todo, id ∉ fileIds fs) (b : Builder) :
    (materializeAll b todo).layer.nodes.lookup id = b.layer.nodes.lookup id := by
  induction todo generalizing b with
  | nil => rfl
  | cons fs todo ih =>
    have hrest := ih (fun g hg => hid g (List.mem_cons_of_mem _ hg))
      (b.materializeFileNodes fs.graphPath fs.symbols)
    exact hrest.trans (nodes_materializeFileNodes (hid fs List.mem_cons_self) b)

/-- Collecting stubs drops the stubs that no edge points at. -/
theorem lookup_gcExternalStubs (b : Builder) (id : String) :
    b.gcExternalStubs.layer.nodes.lookup id =
      (b.layer.nodes.lookup id).filter fun node =>
        !node.external || decide (∃ e ∈ b.layer.edges, e.target = id) := by
  unfold Builder.gcExternalStubs
  simp only
  rw [lookup_foldl_erase]
  have hpopulation : ∀ node : NodeData, node.population id = .external ↔ node.external = true := by
    intro node
    unfold NodeData.population
    cases node.external with
    | true => simp
    | false =>
      simp only [Bool.false_eq_true, if_false, iff_false]
      split <;> exact fun h => by cases h
  split
  · rename_i hdoomed
    obtain ⟨-, hdecided⟩ := List.mem_filter.mp hdoomed
    cases hnode : b.layer.nodes.lookup id with
    | none => rfl
    | some node =>
      simp only [hnode, decide_eq_true_eq, hpopulation, Finset.mem_image] at hdecided
      simp [Option.filter, hdecided.1, hdecided.2]
  · rename_i hkept
    cases hnode : b.layer.nodes.lookup id with
    | none => rfl
    | some node =>
      have hkey : id ∈ HashOrder.increasing.order b.layer.nodes.keys := by
        rw [HashOrder.mem_order, mem_keys_iff]
        exact ⟨node, hnode⟩
      have hreferenced : node.external = true → ∃ e ∈ b.layer.edges, e.target = id := by
        intro hext
        by_contra hnone
        apply hkept
        rw [List.mem_filter]
        refine ⟨hkey, ?_⟩
        simp only [hnode, decide_eq_true_eq, hpopulation, Finset.mem_image]
        exact ⟨hext, hnone⟩
      cases hext : node.external with
      | false => simp [Option.filter, hext]
      | true => simp [Option.filter, hreferenced hext]

/-- A stub that a part asks for has a first request. -/
theorem firstStub_ne_none {parts : List LayerPart} {part : LayerPart} {id : String}
    {node : NodeData} (hpart : part ∈ parts) (hstub : part.stub = some (id, node)) :
    firstStub parts id ≠ none := by
  intro hnone
  have hall := List.findSome?_eq_none_iff.mp hnone part hpart
  simp [hstub] at hall

/-- The first request for a stub is one of the parts. -/
theorem mem_of_firstStub {parts : List LayerPart} {id : String} {node : NodeData}
    (h : firstStub parts id = some node) : ∃ part ∈ parts, part.stub = some (id, node) := by
  obtain ⟨part, hpart, hstub⟩ := List.exists_of_findSome?_eq_some h
  refine ⟨part, hpart, ?_⟩
  cases hask : part.stub with
  | none => simp [hask] at hstub
  | some request =>
    obtain ⟨stubId, payload⟩ := request
    simp only [hask] at hstub
    split at hstub
    · rename_i hid
      rw [hid, Option.some.inj hstub]
    · cases hstub

section Scoped

variable {before after : Outputs} {seedDirty : Finset String} (hbefore : WellFormed before)
  (hafter : WellFormed after) (hcovers : Covers before after seedDirty)
include hbefore

/-- A builder seeded from a full build holds its files. -/
theorem holds_seeded_build :
    Holds {fs | fs ∈ filesOf before} (Builder.seeded (build before)) ∧
      (Builder.seeded (build before)).layer = build before := by
  obtain ⟨-, -, -, hlists, hnodes⟩ := build_spec hbefore
  apply holds_seeded hbefore.separate hnodes
  rw [hlists]
  exact (holds_world hbefore).lists

/-- The ids listed for a path belong to the file with this path. -/
theorem mem_idsOf_seeded {file id : String}
    (h : id ∈ (Builder.seeded (build before)).idsOf file) :
    ∃ fs ∈ filesOf before, fs.graphPath = file ∧ id ∈ fileIds fs := by
  have hheld := (holds_seeded_build hbefore).1
  rcases held_or_not {fs | fs ∈ filesOf before} file with ⟨fs, hfs, hpath⟩ | hnone
  · rw [← hpath, hheld.lists.idsOf_eq hfs] at h
    exact ⟨fs, hfs, hpath, mem_fileIds_of_mem_idsOf h⟩
  · rw [hheld.lists.idsOf_none hnone] at h
    exact absurd h List.not_mem_nil

include hcovers

/-- After the eviction the carried files are held. -/
theorem holds_evicted :
    Holds {fs | Carried after (build before) seedDirty fs}
      (evicted after (build before) seedDirty) := by
  have hseeded := (holds_seeded_build hbefore).1
  have hopen : Holds {fs | fs ∈ filesOf before}
      { Builder.seeded (build before) with
        projectFiles := ((projectListing after).map Prod.fst).toFinset } :=
    ⟨hseeded.nodes, hseeded.lists, hseeded.names⟩
  have hall := hopen.evictAll hbefore.separate
    (HashOrder.increasing.order (widenDirty (build before) seedDirty))
  have hsame : {fs | fs ∈ {fs | fs ∈ filesOf before} ∧
      fs.graphPath ∉ HashOrder.increasing.order (widenDirty (build before) seedDirty)} =
      {fs | Carried after (build before) seedDirty fs} := by
    ext fs
    simp only [Set.mem_ofPred_eq, HashOrder.mem_order]
    constructor
    · rintro ⟨hfs, hclean⟩
      exact ⟨(carried_iff hcovers hclean).mp hfs, hclean⟩
    · rintro ⟨hfs, hclean⟩
      exact ⟨(carried_iff hcovers hclean).mpr hfs, hclean⟩
  rw [hsame] at hall
  exact hall

/-- After the eviction the edges of the carried files are left. -/
theorem mem_edges_evicted {e : Edge} :
    e ∈ (evicted after (build before) seedDirty).layer.edges ↔
      ∃ fs, Carried after (build before) seedDirty fs ∧ e ∈ fileEdges before fs := by
  obtain ⟨-, hedges, -⟩ := build_spec hbefore
  have hlayer := (holds_seeded_build hbefore).2
  unfold evicted
  rw [mem_edges_evictAll]
  simp only [hlayer]
  rw [hedges e]
  constructor
  · rintro ⟨⟨fs, hfs, he⟩, hsources⟩
    have hclean : fs.graphPath ∉ widenDirty (build before) seedDirty := by
      intro hdirty
      have hids : (Builder.seeded (build before)).idsOf fs.graphPath =
          (solo fs).idsOf fs.graphPath := (holds_seeded_build hbefore).1.lists.idsOf_eq hfs
      apply hsources fs.graphPath ((HashOrder.mem_order _ _ _).mpr hdirty)
      have hsource := source_of_fileEdges hbefore hfs he
      rw [← hids] at hsource
      exact hsource
    exact ⟨fs, ⟨(carried_iff hcovers hclean).mp hfs, hclean⟩, he⟩
  · rintro ⟨fs, hcarried, he⟩
    have hfs := (carried_iff hcovers hcarried.2).mpr hcarried.1
    refine ⟨⟨fs, hfs, he⟩, ?_⟩
    intro file hfile hsource
    obtain ⟨g, hg, hpath, hid⟩ := mem_idsOf_seeded hbefore hsource
    have hown := mem_fileIds_of_mem_idsOf (source_of_fileEdges hbefore hfs he)
    have hsame := hbefore.separate.ids_disjoint hfs hg hown hid
    apply hcarried.2
    rw [hsame, hpath]
    exact (HashOrder.mem_order _ _ _).mp hfile

include hafter

/-- After the dirty files are materialized all files are held. -/
theorem working_rebuilt :
    Working {fs | fs ∈ filesOf after} (world after)
      (materializeAll (evicted after (build before) seedDirty)
        (dirtyFiles after (build before) seedDirty)) := by
  have hunion : {fs | Carried after (build before) seedDirty fs} ∪
      {fs | fs ∈ dirtyFiles after (build before) seedDirty} = {fs | fs ∈ filesOf after} := by
    ext fs
    simp only [Set.mem_union, Set.mem_ofPred_eq, mem_dirtyFiles hafter, Carried]
    tauto
  have hholds := (holds_evicted hbefore hcovers).materializeAll
    (by rw [hunion]; exact hafter.separate)
    (fun fs hfs fs' hfs' hpath => hfs'.2 (by
      rw [hpath]
      exact ((mem_dirtyFiles hafter).mp hfs).2))
    (nodup_dirtyFiles after (build before) seedDirty)
  rw [hunion] at hholds
  refine ⟨hholds, ?_⟩
  have hproject := (sameEdges_materializeAll (evicted after (build before) seedDirty)
    (dirtyFiles after (build before) seedDirty)).projectFiles
  have hevicted : (evicted after (build before) seedDirty).projectFiles =
      (opened after).projectFiles := projectFiles_evictAll _ _
  have hworld := (sameEdges_materializeAll (opened after) (filesOf after)).projectFiles
  exact (hproject.trans hevicted).trans hworld.symm

variable (hcarries : CarriesOver before after (build before) seedDirty)
include hcarries

/-- Before the override pass the edges, carried overrides apart, are those of
all files. -/
theorem mem_edges_structure {b : Builder}
    (hgrown : Grown (materializeAll (evicted after (build before) seedDirty)
      (dirtyFiles after (build before) seedDirty)) b
      (structureOf (world after) after (dirtyFiles after (build before) seedDirty)))
    {e : Edge} (hkind : e.kind ≠ .overrides) :
    e ∈ b.layer.edges ↔ ∃ fs ∈ filesOf after, e ∈ edgesOf (containmentOf (world after) fs) ∨
      e ∈ edgesOf (referenceParts (world after) after fs) ∨
      e ∈ edgesOf (inheritsOf (world after) after fs) := by
  have hsame := (sameEdges_materializeAll (evicted after (build before) seedDirty)
    (dirtyFiles after (build before) seedDirty)).edges
  have hthree : ∀ fs, e ∈ fileEdges after fs ↔ e ∈ edgesOf (containmentOf (world after) fs) ∨
      e ∈ edgesOf (referenceParts (world after) after fs) ∨
      e ∈ edgesOf (inheritsOf (world after) after fs) := by
    intro fs
    rw [mem_fileEdges]
    refine or_congr_right (or_congr_right (or_iff_left ?_))
    exact fun he => hkind (kind_of_overrides he)
  rw [hgrown.edges e, hsame, mem_edges_evicted hbefore hcovers, mem_edgesOf_structureOf]
  constructor
  · rintro (⟨fs, hcarried, he⟩ | ⟨fs, hdirty, he⟩)
    · have hcarry := fileEdges_carried hbefore hafter hcovers hcarried hcarries
      exact ⟨fs, hcarried.1, (hthree fs).mp (hcarry ▸ he)⟩
    · exact ⟨fs, ((mem_dirtyFiles hafter).mp hdirty).1, he⟩
  · rintro ⟨fs, hfs, he⟩
    by_cases hdirty : fs.graphPath ∈ widenDirty (build before) seedDirty
    · exact .inr ⟨fs, (mem_dirtyFiles hafter).mpr ⟨hfs, hdirty⟩, he⟩
    · have hcarry := fileEdges_carried hbefore hafter hcovers ⟨hfs, hdirty⟩ hcarries
      exact .inl ⟨fs, ⟨hfs, hdirty⟩, hcarry ▸ (hthree fs).mpr he⟩

/-- The passes of a scoped build add the parts of the dirty files. -/
theorem grown_buildScoped :
    Grown (materializeAll (evicted after (build before) seedDirty)
        (dirtyFiles after (build before) seedDirty))
      ((evicted after (build before) seedDirty).runPasses after
        (dirtyFiles after (build before) seedDirty))
      (partsOf after (dirtyFiles after (build before) seedDirty)) := by
  have hready := working_rebuilt hbefore hafter hcovers
  have hfiles : ∀ fs ∈ dirtyFiles after (build before) seedDirty,
      fs ∈ {fs | fs ∈ filesOf after} := fun fs hfs => ((mem_dirtyFiles hafter).mp hfs).1
  have hreferences : ∀ fs ∈ dirtyFiles after (build before) seedDirty,
      NoModuleStubs (referenceParts (world after) after fs) :=
    fun fs hfs => (hafter.stubs fs (hfiles fs hfs)).1
  have hinherits : ∀ fs ∈ dirtyFiles after (build before) seedDirty,
      NoModuleStubs (inheritsOf (world after) after fs) :=
    fun fs hfs => (hafter.stubs fs (hfiles fs hfs)).2
  have hstructure := grown_structurePasses hafter.separate (holds_world hafter) hfiles hreferences
    hinherits hready
  have hhierarchy := sameHierarchy_of_edges hafter hstructure.2 fun e hkind =>
    mem_edges_structure hbefore hafter hcovers hcarries hstructure.1 hkind
  exact grown_runPasses hafter.separate (holds_world hafter) hfiles hreferences hinherits
    (listed_of_hierarchy hafter) hready hhierarchy

/-- A scoped build has the edges of a full build before the stubs are
collected. -/
theorem edges_runPasses :
    ((evicted after (build before) seedDirty).runPasses after
      (dirtyFiles after (build before) seedDirty)).layer.edges = (build after).edges := by
  have hgrown := grown_buildScoped hbefore hafter hcovers hcarries
  have hsame := (sameEdges_materializeAll (evicted after (build before) seedDirty)
    (dirtyFiles after (build before) seedDirty)).edges
  ext e
  rw [hgrown.edges e, hsame, mem_edges_evicted hbefore hcovers, mem_edgesOf_partsOf,
    (build_spec hafter).2.1 e]
  constructor
  · rintro (⟨fs, hcarried, he⟩ | ⟨fs, hdirty, he⟩)
    · have hcarry := fileEdges_carried hbefore hafter hcovers hcarried hcarries
      exact ⟨fs, hcarried.1, hcarry ▸ he⟩
    · exact ⟨fs, ((mem_dirtyFiles hafter).mp hdirty).1, he⟩
  · rintro ⟨fs, hfs, he⟩
    by_cases hdirty : fs.graphPath ∈ widenDirty (build before) seedDirty
    · exact .inr ⟨fs, (mem_dirtyFiles hafter).mpr ⟨hfs, hdirty⟩, he⟩
    · have hcarry := fileEdges_carried hbefore hafter hcovers ⟨hfs, hdirty⟩ hcarries
      exact .inl ⟨fs, ⟨hfs, hdirty⟩, hcarry ▸ he⟩

omit hcovers hcarries in
/-- The stubs of the previous layer are still there when the dirty files are
materialized. -/
theorem lookup_rebuilt_stub {id : String} (hstub : StubShaped id) :
    (materializeAll (evicted after (build before) seedDirty)
      (dirtyFiles after (build before) seedDirty)).layer.nodes.lookup id =
      (build before).nodes.lookup id := by
  have hdirty : ∀ fs ∈ dirtyFiles after (build before) seedDirty, id ∉ fileIds fs :=
    fun fs hfs hid => hafter.separate.not_stubShaped ((mem_dirtyFiles hafter).mp hfs).1 hid hstub
  have hlisted : ∀ file ∈ HashOrder.increasing.order (widenDirty (build before) seedDirty),
      id ∉ (Builder.seeded (build before)).idsOf file := by
    intro file _ hid
    obtain ⟨fs, hfs, -, hown⟩ := mem_idsOf_seeded hbefore hid
    exact hbefore.separate.not_stubShaped hfs hown hstub
  have hevicted : (evicted after (build before) seedDirty).layer.nodes.lookup id =
      (Builder.seeded (build before)).layer.nodes.lookup id := nodes_evictAll hlisted
  rw [nodes_materializeAll hdirty, hevicted, (holds_seeded_build hbefore).2]

/-- A scoped build has the nodes of a full build. -/
theorem nodes_buildScoped (id : String) :
    ((evicted after (build before) seedDirty).runPasses after
      (dirtyFiles after (build before) seedDirty)).gcExternalStubs.layer.nodes.lookup id =
      (build after).nodes.lookup id := by
  have hgrown := grown_buildScoped hbefore hafter hcovers hcarries
  have hready := working_rebuilt hbefore hafter hcovers
  have hedges := edges_runPasses hbefore hafter hcovers hcarries
  have hworld := holds_world hafter
  have hdirty : ∀ fs ∈ dirtyFiles after (build before) seedDirty, fs ∈ filesOf after :=
    fun fs hfs => ((mem_dirtyFiles hafter).mp hfs).1
  have hholds := hgrown.holds hready.holds fun _ hpart => stubs_partsOf hafter hdirty hpart
  obtain ⟨hnodes, hspec, -⟩ := build_spec hafter
  rw [lookup_gcExternalStubs, hedges, hnodes id]
  cases hown : (world after).layer.nodes.lookup id with
  | some node =>
    -- A node of the project is held by both builders.
    have hext := internal_world after id node hown
    have hheld := (hholds.nodes.own id node hext).mpr ((hworld.nodes.own id node hext).mp hown)
    rw [hheld, Option.some_or]
    simp [Option.filter, hext]
  | none =>
    have hstub : ∀ node, ((evicted after (build before) seedDirty).runPasses after
        (dirtyFiles after (build before) seedDirty)).layer.nodes.lookup id = some node →
        node.external = true := by
      intro node hnode
      cases hext : node.external with
      | true => rfl
      | false =>
        have hheld := (hworld.nodes.own id node hext).mpr ((hholds.nodes.own id node hext).mp hnode)
        rw [hown] at hheld
        cases hheld
    rw [Option.none_or]
    cases hfirst : firstStub (partsOf after (filesOf after)) id with
    | some node =>
      obtain ⟨⟨e, he, htarget⟩, hkept⟩ := hcarries.stubs id node hfirst
      obtain ⟨part, hpart, hask⟩ := mem_of_firstStub hfirst
      have hshape := (stubs_partsOf hafter (fun _ hfs => hfs) hpart id node hask).2
      have hreferenced : ∃ e ∈ (build after).edges, e.target = id :=
        ⟨e, (hspec e).mpr (mem_edgesOf_partsOf.mp he), htarget⟩
      rw [hgrown.nodes id, lookup_rebuilt_stub hbefore hafter hshape]
      rcases hkept with hkept | ⟨hnone, hkept⟩
      · rw [hkept, Option.some_or]
        simp [Option.filter, hreferenced]
      · rw [hnone, Option.none_or, hkept]
        simp [Option.filter, hreferenced]
    | none =>
      cases hnode : ((evicted after (build before) seedDirty).runPasses after
          (dirtyFiles after (build before) seedDirty)).layer.nodes.lookup id with
      | none => rfl
      | some node =>
        have hext := hstub node hnode
        have hshape := hholds.nodes.stubs id node hnode hext
        -- No edge points at a stub that nobody asks for.
        have hunreferenced : ¬ ∃ e ∈ (build after).edges, e.target = id := by
          rintro ⟨e, he, htarget⟩
          obtain ⟨part, hpart, hedge⟩ :=
            List.mem_filterMap.mp (mem_edgesOf_partsOf.mpr ((hspec e).mp he))
          obtain ⟨fs, -, hof, -⟩ := partOf_partsOf hafter (fun _ hfs => hfs) hpart
          rcases hof.target e hedge with ⟨g, hg, hid⟩ | ⟨node, hask⟩
          · rw [htarget] at hid
            exact hafter.separate.not_stubShaped hg (mem_fileIds_of_mem_idsOf hid) hshape
          · rw [htarget] at hask
            exact firstStub_ne_none hpart hask hfirst
        simp [Option.filter, hext, hunreferenced]

/-- A scoped build over a full build is the full build of the new outputs. -/
theorem buildScoped_eq_build : buildScoped after (build before) seedDirty = build after := by
  have hgrown := grown_buildScoped hbefore hafter hcovers hcarries
  have hready := working_rebuilt hbefore hafter hcovers
  have hedges := edges_runPasses hbefore hafter hcovers hcarries
  obtain ⟨-, -, hindex, hlists, -⟩ := build_spec hafter
  have hsame := sameEdges_materializeAll (evicted after (build before) seedDirty)
    (dirtyFiles after (build before) seedDirty)
  have hstep : IndexInStep ((evicted after (build before) seedDirty).runPasses after
      (dirtyFiles after (build before) seedDirty)).layer := by
    apply hgrown.index
    have hevicted : IndexInStep (evicted after (build before) seedDirty).layer := by
      apply indexInStep_evictAll
      have hlayer := (holds_seeded_build hbefore).2
      simp only [hlayer]
      exact (build_spec hbefore).2.2.1
    intro target
    rw [hsame.edges, hsame.reverseDeps]
    exact hevicted target
  have hfileToNodes : ((evicted after (build before) seedDirty).runPasses after
      (dirtyFiles after (build before) seedDirty)).fileToNodes = (build after).fileToNodes := by
    rw [hgrown.lists, hlists]
    apply Finmap.ext_lookup
    intro file
    rcases held_or_not {fs | fs ∈ filesOf after} file with ⟨fs, hfs, rfl⟩ | hnone
    · rw [hready.holds.lists.own fs hfs, (holds_world hafter).lists.own fs hfs]
    · rw [hready.holds.lists.none file hnone, (holds_world hafter).lists.none file hnone]
  have hreverse := hstep.reverseDeps_eq hindex hedges
  have hnodes : ((evicted after (build before) seedDirty).runPasses after
      (dirtyFiles after (build before) seedDirty)).gcExternalStubs.layer.nodes =
      (build after).nodes :=
    Finmap.ext_lookup fun id => nodes_buildScoped hbefore hafter hcovers hcarries id
  have hpublished : ∀ b : Builder, b.gcExternalStubs.syncFileToNodes =
      ⟨b.gcExternalStubs.layer.nodes, b.layer.edges, b.layer.reverseDeps, b.fileToNodes⟩ :=
    fun _ => rfl
  rw [buildScoped_eq (holds_seeded_build hbefore).2, hpublished, hnodes, hedges, hreverse,
    hfileToNodes]

end Scoped

/-! ## Runs -/

/-- A run of commits: a full build, and then scoped builds whose dirty sets
hold the changed files and whose carried files carry over. -/
inductive ScopedRun : Outputs → Layer → Prop where
  | full {out : Outputs} (hout : WellFormed out) : ScopedRun out (build out)
  | commit {before after : Outputs} {layer : Layer} {seedDirty : Finset String}
    (hrun : ScopedRun before layer) (hafter : WellFormed after)
    (hcovers : Covers before after seedDirty)
    (hcarries : CarriesOver before after layer seedDirty) :
    ScopedRun after (buildScoped after layer seedDirty)

theorem ScopedRun.wellFormed {out : Outputs} {layer : Layer} (h : ScopedRun out layer) :
    WellFormed out := by
  cases h with
  | full hout => exact hout
  | commit _ hafter _ _ => exact hafter

/-- Along every such run the layer is that of a full build over the current
outputs. -/
theorem eq_build_of_scopedRun {out : Outputs} {layer : Layer} (h : ScopedRun out layer) :
    layer = build out := by
  induction h with
  | full hout => rfl
  | commit hrun hafter hcovers hcarries ih =>
    rw [ih] at hcarries ⊢
    exact buildScoped_eq_build hrun.wellFormed hafter hcovers hcarries

/-- A function that another module reads, and a module that reads a name of
the standard library. The function has the hash. -/
def callerOf (hash : String) : Outputs where
  root := "/p"
  files := ["/p/a.py", "/p/b.py", "/p/c.py"]
  symbols native :=
    if native = "/p/a.py" then
      some [⟨"f", none, .function, ⟨⟨1, 1⟩, ⟨2, 9⟩⟩, some ⟨⟨1, 5⟩, ⟨1, 6⟩⟩, none, some "e1",
        some hash, ∅⟩]
    else if native = "/p/b.py" ∨ native = "/p/c.py" then some []
    else none
  occurrences native :=
    if native = "/p/b.py" then
      some [⟨⟨⟨2, 1⟩, ⟨2, 2⟩⟩, some "/p/a.py", some "f", none, .read⟩]
    else if native = "/p/c.py" then
      some [⟨⟨⟨2, 7⟩, ⟨2, 10⟩⟩, some "/usr/lib/python3/sys.pyi", some "argv", none, .read⟩]
    else some []
  gotoDefinition _ _ := none
  supertypes _ _ := none

theorem wellFormed_callerOf {hash : String} (h : hash = "h1" ∨ hash = "h2") :
    WellFormed (callerOf hash) := by
  have hstubs : ∀ fs ∈ filesOf (callerOf hash),
      (∀ part ∈ referenceParts (world (callerOf hash)) (callerOf hash) fs,
        ∀ request ∈ part.stub, isModuleId request.1 = false) ∧
      ∀ part ∈ inheritsOf (world (callerOf hash)) (callerOf hash) fs,
        ∀ request ∈ part.stub, isModuleId request.1 = false := by
    rcases h with rfl | rfl <;> decide +kernel
  constructor
  · rcases h with rfl | rfl <;> decide +kernel
  · rcases h with rfl | rfl <;> decide +kernel
  · rcases h with rfl | rfl <;> decide +kernel
  · rcases h with rfl | rfl <;> decide +kernel
  · rcases h with rfl | rfl <;> decide +kernel
  · intro fs hfs
    have hboth := hstubs fs hfs
    exact ⟨fun part hpart id node hstub => hboth.1 part hpart (id, node) hstub,
      fun part hpart id node hstub => hboth.2 part hpart (id, node) hstub⟩

/-- A new hash of the function changes the outputs of its file only. -/
theorem covers_callerOf : Covers (callerOf "h1") (callerOf "h2") {"a.py"} := by
  refine ⟨rfl, fun _ _ _ => Iff.rfl, ?_⟩
  intro file hfile native hlisted
  have hother : ∀ listed ∈ projectListing (callerOf "h2"), listed.1 ∉ ({"a.py"} : Finset String) →
      (callerOf "h1").symbols listed.2 = (callerOf "h2").symbols listed.2 := by decide +kernel
  exact ⟨hother (file, native) hlisted hfile, rfl, rfl, rfl⟩

theorem carriesOver_callerOf :
    CarriesOver (callerOf "h1") (callerOf "h2") (build (callerOf "h1")) {"a.py"} := by
  have hmentions : ∀ fs ∈ filesOf (callerOf "h2"),
      ∀ occ ∈ ((callerOf "h2").occurrences fs.nativePath).getD [],
      edgesOf (occurrenceParts (world (callerOf "h1")) (callerOf "h1") fs occ) =
        edgesOf (occurrenceParts (world (callerOf "h2")) (callerOf "h2") fs occ) := by
    decide +kernel
  have hclasses : ∀ fs ∈ filesOf (callerOf "h2"), ∀ symbol ∈ fs.symbols, symbol.kind ≠ .class_ := by
    decide +kernel
  have hstubs : ∀ part ∈ partsOf (callerOf "h2") (filesOf (callerOf "h2")),
      ∀ request ∈ part.stub,
      (∃ e ∈ edgesOf (partsOf (callerOf "h2") (filesOf (callerOf "h2"))), e.target = request.1) ∧
        (build (callerOf "h1")).nodes.lookup request.1 = some request.2 := by
    decide +kernel
  constructor
  · exact fun fs hfs occ hocc _ => hmentions fs hfs.1 occ hocc
  · exact fun fs hfs symbol hsymbol hclass => absurd hclass (hclasses fs hfs.1 symbol hsymbol)
  · exact fun fs hfs symbol hsymbol hclass => absurd hclass (hclasses fs hfs.1 symbol hsymbol)
  · intro id node hfirst
    obtain ⟨part, hpart, hask⟩ := mem_of_firstStub hfirst
    have hboth := hstubs part hpart (id, node) hask
    exact ⟨hboth.1, .inl hboth.2⟩

/-- A commit that changes the function, over a layer that changes. -/
theorem buildScoped_callerOf :
    buildScoped (callerOf "h2") (build (callerOf "h1")) {"a.py"} = build (callerOf "h2") ∧
      build (callerOf "h1") ≠ build (callerOf "h2") :=
  ⟨eq_build_of_scopedRun (.commit (.full (wellFormed_callerOf (.inl rfl)))
    (wellFormed_callerOf (.inr rfl)) covers_callerOf carriesOver_callerOf), by decide +kernel⟩

/-- Two modules; the first one imports a name of the standard library and
never reads it. -/
def unusedImport : Outputs where
  root := "/p"
  files := ["/p/a.py", "/p/b.py"]
  symbols native := if native = "/p/a.py" ∨ native = "/p/b.py" then some [] else none
  occurrences native :=
    if native = "/p/a.py" then
      some [⟨⟨⟨1, 24⟩, ⟨1, 35⟩⟩, some "/usr/lib/python3/__future__.pyi", some "annotations", none,
        .import_⟩]
    else some []
  gotoDefinition _ _ := none
  supertypes _ _ := none

/-- Three classes, each in its own module, each below the one before. The
last one overrides a method that the first one may have. -/
def distantOverride (present : Bool) : Outputs where
  root := "/p"
  files := ["/p/a.py", "/p/b.py", "/p/c.py"]
  symbols native :=
    let cls (name did : String) : SymbolDto :=
      ⟨name, none, .class_, ⟨⟨2, 1⟩, ⟨4, 9⟩⟩, some ⟨⟨2, 7⟩, ⟨2, 8⟩⟩, none, some did, none, ∅⟩
    let method (container qualified did : String) : SymbolDto :=
      ⟨"m", some qualified, .method, ⟨⟨3, 5⟩, ⟨4, 9⟩⟩, some ⟨⟨3, 9⟩, ⟨3, 10⟩⟩, some container,
        some did, none, ∅⟩
    if native = "/p/a.py" then
      some (cls "A" "e1" :: if present then [method "A" "A.m" "e2"] else [])
    else if native = "/p/b.py" then some [cls "B" "e3"]
    else if native = "/p/c.py" then some [cls "C" "e4", method "C" "C.m" "e5"]
    else none
  occurrences native :=
    if native = "/p/b.py" then
      some [⟨⟨⟨2, 9⟩, ⟨2, 10⟩⟩, some "/p/a.py", some "A", none, .read⟩]
    else if native = "/p/c.py" then
      some [⟨⟨⟨2, 9⟩, ⟨2, 10⟩⟩, some "/p/b.py", some "B", none, .read⟩]
    else some []
  gotoDefinition _ _ := none
  supertypes native _ :=
    if native = "/p/b.py" then some [⟨"A", "/p/a.py"⟩]
    else if native = "/p/c.py" then some [⟨"B", "/p/b.py"⟩]
    else some []

/-- Without the method only the outputs of its file differ. -/
theorem covers_distantOverride :
    Covers (distantOverride true) (distantOverride false) {"a.py"} := by
  refine ⟨rfl, fun _ _ _ => Iff.rfl, ?_⟩
  intro file hfile native hlisted
  have hother : ∀ listed ∈ projectListing (distantOverride false),
      listed.1 ∉ ({"a.py"} : Finset String) →
      (distantOverride true).symbols listed.2 = (distantOverride false).symbols listed.2 := by
    decide +kernel
  exact ⟨hother (file, native) hlisted hfile, rfl, rfl, rfl⟩

/-- A scoped build drops the stub of a name that is imported and never read,
and it keeps the override of a method that is gone two imports away. -/
theorem buildScoped_ne_build :
    (Covers unusedImport unusedImport {"b.py"} ∧
      buildScoped unusedImport (build unusedImport) {"b.py"} ≠ build unusedImport) ∧
    (Covers (distantOverride true) (distantOverride false) {"a.py"} ∧
      buildScoped (distantOverride false) (build (distantOverride true)) {"a.py"} ≠
        build (distantOverride false)) := by
  have hkept : decide (Builder.plainEdge "e5" "e2" .overrides ∈
      (buildScoped (distantOverride false) (build (distantOverride true)) {"a.py"}).edges) =
        true := by decide +kernel
  have hgone : decide (Builder.plainEdge "e5" "e2" .overrides ∈
      (build (distantOverride false)).edges) = false := by decide +kernel
  refine ⟨⟨⟨rfl, fun _ _ _ => Iff.rfl, fun _ _ _ _ => ⟨rfl, rfl, rfl, rfl⟩⟩, by decide +kernel⟩,
    covers_distantOverride, ?_⟩
  intro hsame
  rw [hsame, hgone] at hkept
  cases hkept

end Tyo3.CodeLayerParity
