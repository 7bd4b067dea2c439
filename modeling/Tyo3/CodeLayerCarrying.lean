import Tyo3.CodeLayerProjects

/-!
# Files carried from the previous layer

A scoped build rebuilds the dirty files and the files that import one of
them, and carries the others. A name that a carried file mentions and that
leads into the project leads to a file outside the dirty set, since its file
would be an importer otherwise. What is left to ask is that the other names
lead where they led before, that the classes override the same methods, and
that the stubs are found again.
-/

namespace Tyo3.CodeLayerCarrying

open CodeLayer CodeLayerBuilder CodeLayerFiles CodeLayerParts CodeLayerPasses FiniteMaps
open CodeLayerProjects

/-! ## The dirty files -/

/-- The native paths of the listed files by their paths in the layer. -/
def currentNative (out : Outputs) : FMap String String :=
  (projectListing out).foldl (fun m file => m.insert file.1 file.2) ∅

/-- The dirty files that are still listed. -/
def existingDirty (out : Outputs) (prev : Layer) (seedDirty : Finset String) :
    List (String × String) :=
  (HashOrder.increasing.order (widenDirty prev seedDirty)).filterMap fun f =>
    ((currentNative out).lookup f).map fun native => (f, native)

/-- The files that a scoped build rebuilds. -/
def dirtyFiles (out : Outputs) (prev : Layer) (seedDirty : Finset String) : List FileSymbols :=
  collectSymbols out (existingDirty out prev seedDirty)

theorem lookup_currentNative {out : Outputs} (h : ((projectListing out).map Prod.fst).Nodup)
    {file native : String} :
    (currentNative out).lookup file = some native ↔ (file, native) ∈ projectListing out := by
  unfold currentNative
  rw [lookup_foldl_insert h]
  simp

theorem mem_existingDirty {out : Outputs} (h : ((projectListing out).map Prod.fst).Nodup)
    {prev : Layer} {seedDirty : Finset String} {file native : String} :
    (file, native) ∈ existingDirty out prev seedDirty ↔
      file ∈ widenDirty prev seedDirty ∧ (file, native) ∈ projectListing out := by
  unfold existingDirty
  rw [List.mem_filterMap]
  constructor
  · rintro ⟨f, hf, hsome⟩
    obtain ⟨path, hpath, hpair⟩ := Option.map_eq_some_iff.mp hsome
    cases hpair
    exact ⟨(HashOrder.mem_order _ _ _).mp hf, (lookup_currentNative h).mp hpath⟩
  · rintro ⟨hdirty, hlisted⟩
    refine ⟨file, (HashOrder.mem_order _ _ _).mpr hdirty, ?_⟩
    rw [(lookup_currentNative h).mpr hlisted]
    rfl

theorem mem_dirtyFiles {out : Outputs} (h : WellFormed out) {prev : Layer}
    {seedDirty : Finset String} {fs : FileSymbols} :
    fs ∈ dirtyFiles out prev seedDirty ↔
      fs ∈ filesOf out ∧ fs.graphPath ∈ widenDirty prev seedDirty := by
  unfold dirtyFiles filesOf
  rw [mem_collectSymbols, mem_collectSymbols, mem_existingDirty h.paths]
  tauto

theorem nodup_dirtyFiles (out : Outputs) (prev : Layer) (seedDirty : Finset String) :
    ((dirtyFiles out prev seedDirty).map FileSymbols.graphPath).Nodup := by
  apply nodup_collectSymbols
  have hsub : ((existingDirty out prev seedDirty).map Prod.fst).Sublist
      (HashOrder.increasing.order (widenDirty prev seedDirty)) := by
    unfold existingDirty
    generalize HashOrder.increasing.order (widenDirty prev seedDirty) = files
    induction files with
    | nil => exact List.Sublist.slnil
    | cons f files ih =>
      rw [List.filterMap_cons]
      cases (currentNative out).lookup f with
      | none => exact ih.cons _
      | some native => exact ih.cons_cons _
  exact hsub.nodup (HashOrder.nodup_order _ _)

/-- A path of the listing is not empty. -/
theorem graphPath_ne_empty {out : Outputs} {file native : String}
    (h : (file, native) ∈ projectListing out) : file ≠ "" := by
  obtain ⟨hmem, hne⟩ := List.mem_filter.mp h
  obtain ⟨path, -, hpath⟩ := List.mem_map.mp hmem
  have hfile : toGraphPath out.root path = file := congrArg Prod.fst hpath
  have hnative : path = native := congrArg Prod.snd hpath
  intro hempty
  rw [hempty] at hfile
  unfold toGraphPath at hfile
  cases hstrip : TextSearch.stripPrefix out.root path with
  | none =>
    simp only [hstrip] at hfile
    simp [hempty, ← hnative, hfile] at hne
  | some rest =>
    simp only [hstrip] at hfile
    split at hfile
    · simp [hempty, ← hnative, hfile] at hne
    · rename_i hrest
      exact hrest hfile

theorem subset_widenBy (layer : Layer) (dirty : Finset String) (e : Edge) :
    dirty ⊆ widenBy layer dirty e := by
  unfold widenBy
  split
  · split
    · exact Finset.subset_insert _ _
    · exact Finset.Subset.refl _
  · exact Finset.Subset.refl _

theorem subset_foldl_widenBy (layer : Layer) (importers : List Edge) (dirty : Finset String) :
    dirty ⊆ importers.foldl (widenBy layer) dirty := by
  induction importers generalizing dirty with
  | nil => exact Finset.Subset.refl dirty
  | cons e importers ih => exact (subset_widenBy layer dirty e).trans (ih _)

/-- Every seed is dirty. -/
theorem subset_widenDirty (layer : Layer) (seedDirty : Finset String) :
    seedDirty ⊆ widenDirty layer seedDirty := subset_foldl_widenBy layer _ seedDirty

/-- A file with an import edge to a seed is dirty. -/
theorem mem_widenDirty_of_import {layer : Layer} {seedDirty : Finset String} {e : Edge}
    {node : NodeData} (he : e ∈ layer.edges) (hkind : e.kind = .imports)
    (htarget : e.target ∈ seedDirty.image makeModuleDurableId)
    (hnode : layer.nodes.lookup e.source = some node) (hempty : node.file ≠ "")
    (hexternal : node.file ≠ externalFile) : node.file ∈ widenDirty layer seedDirty := by
  have hfold : ∀ (importers : List Edge) (dirty : Finset String), e ∈ importers →
      node.file ∈ importers.foldl (widenBy layer) dirty := by
    intro importers
    induction importers with
    | nil => exact fun _ hin => absurd hin List.not_mem_nil
    | cons first importers ih =>
      intro dirty hin
      rcases List.mem_cons.mp hin with hfirst | hrest
      · have hadded : node.file ∈ widenBy layer dirty first := by
          rw [← hfirst]
          unfold widenBy
          simp only [hnode]
          rw [if_pos ⟨hempty, hexternal⟩]
          exact Finset.mem_insert_self _ _
        exact subset_foldl_widenBy layer importers _ hadded
      · exact ih _ hrest
  apply hfold
  rw [HashOrder.mem_order, Finset.mem_filter]
  exact ⟨he, hkind, htarget⟩

/-! ## The condition -/

/-- The dirty set holds every file whose outputs changed. -/
structure Covers (before after : Outputs) (seedDirty : Finset String) : Prop where
  /-- The project stays at its root. -/
  root : before.root = after.root
  /-- Other files are listed before exactly when they are listed after. -/
  listing : ∀ file ∉ seedDirty, ∀ native,
    (file, native) ∈ projectListing before ↔ (file, native) ∈ projectListing after
  /-- The engine says the same about other files. -/
  outputs : ∀ file ∉ seedDirty, ∀ native, (file, native) ∈ projectListing after →
    before.symbols native = after.symbols native ∧
    before.occurrences native = after.occurrences native ∧
    before.gotoDefinition native = after.gotoDefinition native ∧
    before.supertypes native = after.supertypes native

/-- A file that a scoped build carries over. -/
def Carried (out : Outputs) (prev : Layer) (seedDirty : Finset String) (fs : FileSymbols) : Prop :=
  fs ∈ filesOf out ∧ fs.graphPath ∉ widenDirty prev seedDirty

/-- A native path leads to a file of the project. -/
def InProject (out : Outputs) (native : String) : Prop :=
  toGraphPath out.root native ∈ (filesOf out).map FileSymbols.graphPath

/-- The native path that an occurrence leads to. -/
def nativeTarget (out : Outputs) (fs : FileSymbols) (occ : NameOccurrence) : Option String :=
  if occ.role = .import_ ∧ occ.targetFile = none then
    ((out.gotoDefinition fs.nativePath occ.range.start).getD []).head?
  else occ.targetFile

/-- An occurrence leads to a file of the project, and it also names a node of
this file when the file is in the dirty set. -/
def Bound (out : Outputs) (seedDirty : Finset String) (fs : FileSymbols) (occ : NameOccurrence) :
    Prop :=
  ∃ native ∈ nativeTarget out fs occ, InProject out native ∧
    (toGraphPath out.root native ∈ seedDirty → occ.targetFile ≠ none → ∃ name ∈ occ.targetName,
      targetOf (world out) (toGraphPath out.root native) name occ.targetQualifiedName ≠ none)

/-- The node that a supertype leads to. -/
def supertypeNode (out : Outputs) (supertype : Supertype) : Option String :=
  (supertypeOf (world out) ((world out).normalizeTarget out.root supertype.path)
    supertype.name).map Prod.snd

/-- What the carried files mention outside the project, or without success,
resolves as before, their classes override the same methods, and the stubs of
the new outputs are found again. -/
structure CarriesOver (before after : Outputs) (prev : Layer) (seedDirty : Finset String) :
    Prop where
  /-- An occurrence of a carried file that was not bound gives the same
  edges. -/
  mentions : ∀ fs, Carried after prev seedDirty fs →
    ∀ occ ∈ (after.occurrences fs.nativePath).getD [], ¬ Bound before seedDirty fs occ →
      edgesOf (occurrenceParts (world before) before fs occ) =
        edgesOf (occurrenceParts (world after) after fs occ)
  /-- A supertype of a carried class that is in the dirty set or outside the
  project is the same node. -/
  supertypes : ∀ fs, Carried after prev seedDirty fs → ∀ symbol ∈ fs.symbols,
    symbol.kind = .class_ →
    ∀ supertype ∈ (after.supertypes fs.nativePath (Builder.nameStart symbol)).getD [],
      (InProject before supertype.path → toGraphPath before.root supertype.path ∈ seedDirty) →
      supertypeNode before supertype = supertypeNode after supertype
  /-- Every method of a class of a carried file finds the same method among
  the ancestors of the class. -/
  ancestors : ∀ fs, Carried after prev seedDirty fs → ∀ symbol ∈ fs.symbols,
    symbol.kind = .class_ →
    ∀ did ∈ (world after).findSymbolInFile fs.graphPath (symbol.qualifiedName.getD symbol.name),
    ∀ method ∈ Builder.childMethods fs.symbols symbol,
      (ancestorMethods (hierarchy before) did).lookup method.name =
        (ancestorMethods (hierarchy after) did).lookup method.name
  /-- Every stub that is asked for is the end of an edge, and the payload of
  its first request is that of the previous layer, or else that of the first
  request of a dirty file. -/
  stubs : ∀ id node, firstStub (partsOf after (filesOf after)) id = some node →
    (∃ e ∈ edgesOf (partsOf after (filesOf after)), e.target = id) ∧
    (prev.nodes.lookup id = some node ∨ prev.nodes.lookup id = none ∧
      firstStub (partsOf after (dirtyFiles after prev seedDirty)) id = some node)

/-! ## The carried files -/

/-- A file outside the dirty set was there before, with the same symbols. -/
theorem mem_filesOf_iff {before after : Outputs} {seedDirty : Finset String}
    (hcovers : Covers before after seedDirty) {fs : FileSymbols} (hseed : fs.graphPath ∉ seedDirty) :
    fs ∈ filesOf before ↔ fs ∈ filesOf after := by
  unfold filesOf
  rw [mem_collectSymbols, mem_collectSymbols, hcovers.listing fs.graphPath hseed fs.nativePath]
  refine and_congr_right fun hlisted => ?_
  rw [(hcovers.outputs fs.graphPath hseed fs.nativePath hlisted).1]

/-- A carried file was there before, with the same symbols. -/
theorem carried_iff {before after : Outputs} {prev : Layer} {seedDirty : Finset String}
    (hcovers : Covers before after seedDirty) {fs : FileSymbols}
    (hclean : fs.graphPath ∉ widenDirty prev seedDirty) :
    fs ∈ filesOf before ↔ fs ∈ filesOf after := by
  exact mem_filesOf_iff hcovers fun hin => hclean (subset_widenDirty prev seedDirty hin)

/-- The names of a held file are those of the file alone. -/
theorem find_of_held {files : Set FileSymbols} (hsep : Separate files) {b : Builder}
    (h : Holds files b) {fs : FileSymbols} (hfs : fs ∈ files) (n : String) :
    b.findSymbolInFile fs.graphPath n = (solo fs).findSymbolInFile fs.graphPath n :=
  findSymbolInFile_congr (h.names.own fs hfs) (h.lists.idsOf_eq hfs)
    (fun _ hid => h.nodes.lookup_eq hsep hfs (mem_fileIds_of_mem_idsOf hid)) n

/-- The node around a range of a held file is that of the file alone. -/
theorem enclosing_of_held {files : Set FileSymbols} (hsep : Separate files) {b : Builder}
    (h : Holds files b) {fs : FileSymbols} (hfs : fs ∈ files) (range : Range) :
    enclosing b fs.graphPath range = enclosing (solo fs) fs.graphPath range := by
  have hentries : b.rangeEntries fs.graphPath = (solo fs).rangeEntries fs.graphPath :=
    rangeEntries_congr (h.lists.idsOf_eq hfs) fun _ hid =>
      h.nodes.lookup_eq hsep hfs (mem_fileIds_of_mem_idsOf hid)
  have hmodule : b.layer.hasNode (makeModuleDurableId fs.graphPath) =
      (solo fs).layer.hasNode (makeModuleDurableId fs.graphPath) := by
    unfold Layer.hasNode
    rw [h.nodes.lookup_eq hsep hfs List.mem_cons_self]
  unfold enclosing
  rw [hentries, hmodule]

theorem hasNode_module {out : Outputs} (h : WellFormed out) {fs : FileSymbols}
    (hfs : fs ∈ filesOf out) :
    (world out).layer.hasNode (makeModuleDurableId fs.graphPath) = true :=
  Holds.hasNode (holds_world h) h.separate hfs (filed_solo fs).module_

theorem mem_projectFiles {out : Outputs} {fs : FileSymbols} (hfs : fs ∈ filesOf out) :
    fs.graphPath ∈ (world out).projectFiles := by
  have hworld : (world out).projectFiles = (opened out).projectFiles :=
    (sameEdges_materializeAll (opened out) (filesOf out)).projectFiles
  rw [hworld]
  exact List.mem_toFinset.mpr (List.mem_map_of_mem (mem_collectSymbols.mp hfs).1)

theorem normalizeTarget_world {out : Outputs} {fs : FileSymbols} (hfs : fs ∈ filesOf out)
    {native : String} (hnative : fs.graphPath = toGraphPath out.root native) :
    (world out).normalizeTarget out.root native = fs.graphPath := by
  unfold Builder.normalizeTarget
  rw [if_pos (hnative ▸ mem_projectFiles hfs), hnative]

/-- In a file of the project a name that is not there has no stub. -/
theorem targetOf_world {out : Outputs} (h : WellFormed out) {fs : FileSymbols}
    (hfs : fs ∈ filesOf out) (name : String) (qualified : Option String) :
    targetOf (world out) fs.graphPath name qualified =
      ((qualified.bind ((solo fs).findSymbolInFile fs.graphPath)).or
        ((solo fs).findSymbolInFile fs.graphPath name)).map fun did => (none, did) := by
  have hfind : (world out).findSymbolInFile fs.graphPath =
      (solo fs).findSymbolInFile fs.graphPath :=
    funext fun n => find_of_held h.separate (holds_world h) hfs n
  unfold targetOf
  rw [hfind, if_pos (mem_projectFiles hfs)]
  cases qualified.bind ((solo fs).findSymbolInFile fs.graphPath) with
  | some did => rfl
  | none => cases (solo fs).findSymbolInFile fs.graphPath name <;> rfl

theorem importOther_world {out : Outputs} (h : WellFormed out) {fs g : FileSymbols}
    (hfs : fs ∈ filesOf out) (hg : g ∈ filesOf out) (range : Range) :
    importOther (world out) fs.graphPath g.graphPath range =
      if g.graphPath ≠ fs.graphPath then
        [⟨none, some ⟨makeModuleDurableId fs.graphPath, makeModuleDurableId g.graphPath, .imports,
          none, some fs.graphPath, some range⟩⟩]
      else [] := by
  unfold importOther importParts
  rw [hasNode_module h hfs, hasNode_module h hg]
  rfl

/-- A name of a file alone leads to one of its ids. -/
theorem mem_idsOf_of_find {out : Outputs} (h : WellFormed out) {g : FileSymbols}
    (hg : g ∈ filesOf out) {n did : String}
    (hfind : (solo g).findSymbolInFile g.graphPath n = some did) :
    did ∈ (solo g).idsOf g.graphPath := by
  rw [← find_of_held h.separate (holds_world h) hg n] at hfind
  obtain ⟨g', hg', hpath, hdid⟩ := mem_of_find (holds_world h) hfind
  rwa [h.separate.paths g' hg' g hg hpath] at hdid

/-- A reference to a node of another file of the project adds an import
edge. -/
theorem import_of_resolved {out : Outputs} (h : WellFormed out) {fs g : FileSymbols}
    (hfs : fs ∈ filesOf out) (hg : g ∈ filesOf out) (hother : g.graphPath ≠ fs.graphPath)
    {did : String} (hdid : did ∈ (solo g).idsOf g.graphPath) (occ : NameOccurrence) :
    (⟨makeModuleDurableId fs.graphPath, makeModuleDurableId g.graphPath, .imports, none,
      some fs.graphPath, some occ.range⟩ : Edge) ∈
      edgesOf (resolvedParts (world out) fs.graphPath g.graphPath occ none did) := by
  have himport := importOther_world h hfs hg occ.range
  rw [if_pos hother] at himport
  unfold resolvedParts
  rw [himport]
  cases henclosing : enclosing (world out) fs.graphPath occ.range with
  | none =>
    unfold enclosing at henclosing
    rw [if_pos (hasNode_module h hfs)] at henclosing
    split at henclosing <;> cases henclosing
  | some enclosingId =>
    have hid := mem_of_enclosing (holds_world h) hfs henclosing
    have hne : enclosingId ≠ did := by
      intro hsame
      rw [hsame] at hid
      have hfile := h.separate.ids_disjoint hg hfs (mem_fileIds_of_mem_idsOf hdid)
        (mem_fileIds_of_mem_idsOf hid)
      exact hother (congrArg FileSymbols.graphPath hfile)
    simp only
    rw [if_neg hne]
    split
    · exact List.mem_cons_self
    · exact List.mem_cons_of_mem _ List.mem_cons_self

section CarriedFile

variable {before after : Outputs} {seedDirty : Finset String} (hbefore : WellFormed before)
  (hafter : WellFormed after) (hcovers : Covers before after seedDirty) {fs : FileSymbols}
  (hfs : Carried after (build before) seedDirty fs)
include hfs

theorem not_mem_seed_of_carried : fs.graphPath ∉ seedDirty :=
  fun hin => hfs.2 (subset_widenDirty (build before) seedDirty hin)

include hcovers

theorem mem_before_of_carried : fs ∈ filesOf before := (carried_iff hcovers hfs.2).mpr hfs.1

/-- What the engine says about a carried file is the same before and after. -/
theorem outputs_of_carried :
    before.symbols fs.nativePath = after.symbols fs.nativePath ∧
    before.occurrences fs.nativePath = after.occurrences fs.nativePath ∧
    before.gotoDefinition fs.nativePath = after.gotoDefinition fs.nativePath ∧
    before.supertypes fs.nativePath = after.supertypes fs.nativePath :=
  hcovers.outputs fs.graphPath (not_mem_seed_of_carried hfs) fs.nativePath
    (mem_collectSymbols.mp hfs.1).1

include hbefore hafter

/-- An occurrence of a carried file that leads to a file outside the dirty set
adds the same parts before and after. -/
theorem occurrenceParts_untouched {occ : NameOccurrence} {native : String}
    (hnative : native ∈ nativeTarget before fs occ) {g : FileSymbols} (hg : g ∈ filesOf before)
    (hpath : g.graphPath = toGraphPath before.root native) (hseed : g.graphPath ∉ seedDirty) :
    occurrenceParts (world before) before fs occ = occurrenceParts (world after) after fs occ := by
  have hin := mem_before_of_carried hcovers hfs
  have hgoto := (outputs_of_carried hcovers hfs).2.2.1
  have hg' : g ∈ filesOf after := (mem_filesOf_iff hcovers hseed).mp hg
  have hpath' : g.graphPath = toGraphPath after.root native := hcovers.root ▸ hpath
  have hnormal := normalizeTarget_world hg hpath
  have hnormal' := normalizeTarget_world hg' hpath'
  have hother : ∀ range, importOther (world before) fs.graphPath g.graphPath range =
      importOther (world after) fs.graphPath g.graphPath range := fun range =>
    (importOther_world hbefore hin hg range).trans (importOther_world hafter hfs.1 hg' range).symm
  have henclosing : ∀ range, enclosing (world before) fs.graphPath range =
      enclosing (world after) fs.graphPath range := fun range =>
    (enclosing_of_held hbefore.separate (holds_world hbefore) hin range).trans
      (enclosing_of_held hafter.separate (holds_world hafter) hfs.1 range).symm
  unfold nativeTarget at hnative
  unfold occurrenceParts
  split at hnative
  · rename_i hsearch
    rw [if_pos hsearch, if_pos hsearch]
    unfold gotoParts
    rw [← hgoto]
    cases hfound : before.gotoDefinition fs.nativePath occ.range.start with
    | none => rfl
    | some found =>
      cases found with
      | nil => rfl
      | cons first rest =>
        rw [hfound] at hnative
        have hfirst : first = native := Option.some.inj hnative
        simp only
        rw [hfirst, hnormal, hnormal']
        exact hother occ.range
  · rename_i hsearch
    rw [if_neg hsearch, if_neg hsearch, hnative]
    cases occ.targetName with
    | none => rfl
    | some name =>
      simp only
      rw [hnormal, hnormal', targetOf_world hbefore hg, targetOf_world hafter hg']
      unfold resolvedParts
      simp only [henclosing, hother]

omit hafter in
/-- A carried file has no import edge to a file of the dirty set: its importers
are dirty. -/
theorem no_import_of_seed {g : FileSymbols} (hseed : g.graphPath ∈ seedDirty) (range : Range) :
    (⟨makeModuleDurableId fs.graphPath, makeModuleDurableId g.graphPath, .imports, none,
      some fs.graphPath, some range⟩ : Edge) ∉ edgesOf (referenceParts (world before) before fs) := by
  intro he
  have hin := mem_before_of_carried hcovers hfs
  have hlisted := (mem_collectSymbols.mp hin).1
  obtain ⟨-, hedges, -, -, hnodes⟩ := build_spec hbefore
  have hedge := (hedges _).mpr ⟨fs, hin, mem_fileEdges.mpr (.inr (.inl he))⟩
  have hnode := (hnodes.lookup_eq hbefore.separate hin List.mem_cons_self).trans (module_solo fs)
  exact hfs.2 (mem_widenDirty_of_import hedge rfl (Finset.mem_image_of_mem _ hseed) hnode
    (graphPath_ne_empty hlisted) (hbefore.external _ hlisted))

omit hafter in
/-- What an occurrence of a carried file is bound to is not in the dirty set. -/
theorem not_mem_seed_of_bound {occ : NameOccurrence}
    (hocc : occ ∈ (after.occurrences fs.nativePath).getD []) {native : String}
    (hnative : native ∈ nativeTarget before fs occ) {g : FileSymbols} (hg : g ∈ filesOf before)
    (hpath : g.graphPath = toGraphPath before.root native)
    (hbound : g.graphPath ∈ seedDirty → occ.targetFile ≠ none → ∃ name ∈ occ.targetName,
      targetOf (world before) g.graphPath name occ.targetQualifiedName ≠ none) :
    g.graphPath ∉ seedDirty := by
  intro hseed
  have hin := mem_before_of_carried hcovers hfs
  have hother : g.graphPath ≠ fs.graphPath :=
    fun hsame => not_mem_seed_of_carried hfs (hsame ▸ hseed)
  have hnormal := normalizeTarget_world hg hpath
  have himport := importOther_world hbefore hin hg occ.range
  rw [if_pos hother] at himport
  apply no_import_of_seed hbefore hcovers hfs hseed occ.range
  have hsame := (outputs_of_carried hcovers hfs).2.1
  unfold referenceParts
  rw [hsame, mem_edgesOf_flatMap]
  refine ⟨occ, hocc, ?_⟩
  unfold nativeTarget at hnative
  unfold occurrenceParts
  split at hnative
  · rename_i hsearch
    rw [if_pos hsearch]
    unfold gotoParts
    cases hfound : before.gotoDefinition fs.nativePath occ.range.start with
    | none =>
      rw [hfound] at hnative
      cases hnative
    | some found =>
      rw [hfound] at hnative
      cases found with
      | nil => cases hnative
      | cons first rest =>
        have hfirst : first = native := Option.some.inj hnative
        simp only
        rw [hfirst, hnormal, himport]
        exact List.mem_cons_self
  · rename_i hsearch
    have hfile : occ.targetFile = some native := hnative
    have hsome : occ.targetFile ≠ none := by
      rw [hfile]
      exact Option.some_ne_none native
    obtain ⟨name, hname, htarget⟩ := hbound hseed hsome
    have hname' : occ.targetName = some name := hname
    rw [if_neg hsearch, hfile, hname']
    simp only
    rw [hnormal]
    rw [targetOf_world hbefore hg] at htarget ⊢
    cases hfound : (occ.targetQualifiedName.bind ((solo g).findSymbolInFile g.graphPath)).or
        ((solo g).findSymbolInFile g.graphPath name) with
    | none =>
      rw [hfound] at htarget
      exact absurd rfl htarget
    | some did =>
      have hdid : did ∈ (solo g).idsOf g.graphPath := by
        rcases Option.or_eq_some_iff.mp hfound with hqualified | ⟨-, hplain⟩
        · obtain ⟨qualified, -, hfind⟩ := Option.bind_eq_some_iff.mp hqualified
          exact mem_idsOf_of_find hbefore hg hfind
        · exact mem_idsOf_of_find hbefore hg hplain
      exact import_of_resolved hbefore hin hg hother hdid occ

/-- Every occurrence of a carried file gives the same edges. -/
theorem mentions_carried (hcarries : CarriesOver before after (build before) seedDirty)
    {occ : NameOccurrence} (hocc : occ ∈ (after.occurrences fs.nativePath).getD []) :
    edgesOf (occurrenceParts (world before) before fs occ) =
      edgesOf (occurrenceParts (world after) after fs occ) := by
  by_cases hbound : Bound before seedDirty fs occ
  · obtain ⟨native, hnative, hproject, hnamed⟩ := hbound
    obtain ⟨g, hg, hpath⟩ := List.mem_map.mp hproject
    rw [← hpath] at hnamed
    have hseed := not_mem_seed_of_bound hbefore hcovers hfs hocc hnative hg hpath hnamed
    rw [occurrenceParts_untouched hbefore hafter hcovers hfs hnative hg hpath hseed]
  · exact hcarries.mentions fs hfs occ hocc hbound

omit hfs in
/-- A supertype in a file outside the dirty set is the same node. -/
theorem supertypeOf_carried {supertype : Supertype}
    (hother : (InProject before supertype.path →
        toGraphPath before.root supertype.path ∈ seedDirty) →
      supertypeNode before supertype = supertypeNode after supertype) :
    supertypeNode before supertype = supertypeNode after supertype := by
  by_cases hseed : InProject before supertype.path →
      toGraphPath before.root supertype.path ∈ seedDirty
  · exact hother hseed
  · obtain ⟨hproject, hclean⟩ := Classical.not_imp.mp hseed
    obtain ⟨g, hg, hpath⟩ := List.mem_map.mp hproject
    rw [← hpath] at hclean
    have hg' := (mem_filesOf_iff hcovers hclean).mp hg
    have hpath' : g.graphPath = toGraphPath after.root supertype.path := hcovers.root ▸ hpath
    have hfind := (find_of_held hbefore.separate (holds_world hbefore) hg supertype.name).trans
      (find_of_held hafter.separate (holds_world hafter) hg' supertype.name).symm
    have hlisted := ((holds_world hbefore).lists.own g hg).trans
      ((holds_world hafter).lists.own g hg').symm
    unfold supertypeNode supertypeOf
    rw [normalizeTarget_world hg hpath, normalizeTarget_world hg' hpath']
    rw [hfind, hlisted]

/-- Every supertype of a carried class is the same node. -/
theorem supertypes_carried (hcarries : CarriesOver before after (build before) seedDirty)
    {symbol : SymbolDto} (hsymbol : symbol ∈ fs.symbols) :
    edgesOf (inheritParts (world before) before fs symbol) =
      edgesOf (inheritParts (world after) after fs symbol) := by
  have hsame := (outputs_of_carried hcovers hfs).2.2.2
  unfold inheritParts
  by_cases hclass : symbol.kind = .class_
  swap
  · rw [if_neg hclass, if_neg hclass]
  rw [if_pos hclass, if_pos hclass, hsame]
  cases symbol.durableId with
  | none => rfl
  | some did =>
    cases hsupertypes : after.supertypes fs.nativePath (Builder.nameStart symbol) with
    | none => rfl
    | some supertypes =>
      simp only
      apply edgesOf_flatMap_congr
      intro supertype hsupertype
      have hnode := supertypeOf_carried hbefore hafter hcovers
        (hcarries.supertypes fs hfs symbol hsymbol hclass supertype
          (by rw [hsupertypes]; exact hsupertype))
      unfold supertypeNode at hnode
      unfold supertypeParts
      cases hfound : supertypeOf (world before)
          ((world before).normalizeTarget before.root supertype.path) supertype.name with
      | none =>
        rw [hfound, Option.map_none, eq_comm, Option.map_eq_none_iff] at hnode
        rw [hnode]
      | some found =>
        rw [hfound, Option.map_some, eq_comm, Option.map_eq_some_iff] at hnode
        obtain ⟨found', hfound', hid⟩ := hnode
        rw [hfound']
        simp only
        rw [← hid]
        rfl

/-- A carried file adds the same edges before and after. -/
theorem fileEdges_carried (hcarries : CarriesOver before after (build before) seedDirty) :
    fileEdges before fs = fileEdges after fs := by
  have hin := mem_before_of_carried hcovers hfs
  have hfind : ∀ n, (world before).findSymbolInFile fs.graphPath n =
      (world after).findSymbolInFile fs.graphPath n := fun n =>
    (find_of_held hbefore.separate (holds_world hbefore) hin n).trans
      (find_of_held hafter.separate (holds_world hafter) hfs.1 n).symm
  have hcontainment : containmentOf (world before) fs = containmentOf (world after) fs := by
    unfold containmentOf
    congr 1
    funext symbol
    have hparent : (world before).parentId fs.graphPath symbol =
        (world after).parentId fs.graphPath symbol := by
      unfold Builder.parentId
      split
      · rw [hfind]
      · rfl
    unfold containmentParts
    rw [hparent]
  have hreferences : edgesOf (referenceParts (world before) before fs) =
      edgesOf (referenceParts (world after) after fs) := by
    have hsame := (outputs_of_carried hcovers hfs).2.1
    unfold referenceParts
    rw [hsame]
    exact edgesOf_flatMap_congr fun occ hocc =>
      mentions_carried hbefore hafter hcovers hfs hcarries hocc
  have hinherits : edgesOf (inheritsOf (world before) before fs) =
      edgesOf (inheritsOf (world after) after fs) :=
    edgesOf_flatMap_congr fun symbol hsymbol =>
      supertypes_carried hbefore hafter hcovers hfs hcarries hsymbol
  have hoverrides : edgesOf (overridesOf (world before) (hierarchy before) fs) =
      edgesOf (overridesOf (world after) (hierarchy after) fs) := by
    apply edgesOf_flatMap_congr
    intro symbol hsymbol
    unfold overrideParts
    rw [hfind]
    by_cases hclass : symbol.kind = .class_
    swap
    · rw [if_neg hclass, if_neg hclass]
    rw [if_pos hclass, if_pos hclass]
    cases hdid : (world after).findSymbolInFile fs.graphPath
        (symbol.qualifiedName.getD symbol.name) with
    | none => rfl
    | some did =>
      apply edgesOf_flatMap_congr
      intro method hmethod
      have hlookup := hcarries.ancestors fs hfs symbol hsymbol hclass did hdid method hmethod
      unfold overridePart
      rw [hlookup]
  unfold fileEdges
  rw [hcontainment, hreferences, hinherits, hoverrides]

end CarriedFile

end Tyo3.CodeLayerCarrying
