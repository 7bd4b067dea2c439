import Tyo3.CodeLayerParts

/-!
# The passes of a build

A pass over files that are all held adds the parts of these files, one file
after the other. The override pass reads the layer it extends, but only its
containment and inheritance edges, which no override edge changes.
-/

namespace Tyo3.CodeLayerPasses

open CodeLayer CodeLayerBuilder CodeLayerFiles CodeLayerParts FiniteMaps ReverseDependencies

/-! ## The ancestors of a class -/

/-- Two layers have the same containment and inheritance edges, and the same
nodes below a container. -/
structure SameHierarchy (layer layer' : Layer) : Prop where
  /-- Inheritance edges. -/
  inherits : ∀ e : Edge, e.kind = .inherits → (e ∈ layer.edges ↔ e ∈ layer'.edges)
  /-- Containment edges. -/
  contains : ∀ e : Edge, e.kind = .defines ∨ e.kind = .contains →
    (e ∈ layer.edges ↔ e ∈ layer'.edges)
  /-- Contained nodes. -/
  nodes : ∀ e ∈ layer.edges, e.kind = .defines ∨ e.kind = .contains →
    layer.nodes.lookup e.target = layer'.nodes.lookup e.target

theorem SameHierarchy.parentsOf_eq {layer layer' : Layer} (h : SameHierarchy layer layer')
    (did : String) : parentsOf layer.edges did = parentsOf layer'.edges did := by
  have hfilter : (layer.edges.filter fun e => e.source = did ∧ e.kind = .inherits) =
      layer'.edges.filter fun e => e.source = did ∧ e.kind = .inherits := by
    ext e
    rw [Finset.mem_filter, Finset.mem_filter]
    exact and_congr_left fun hkind => h.inherits e hkind.2
  unfold parentsOf
  rw [hfilter]

theorem SameHierarchy.childrenOf_eq {layer layer' : Layer} (h : SameHierarchy layer layer')
    (did : String) : childrenOf layer.edges did = childrenOf layer'.edges did := by
  have hfilter :
      (layer.edges.filter fun e => e.source = did ∧ (e.kind = .defines ∨ e.kind = .contains)) =
      layer'.edges.filter fun e => e.source = did ∧ (e.kind = .defines ∨ e.kind = .contains) := by
    ext e
    rw [Finset.mem_filter, Finset.mem_filter]
    exact and_congr_left fun hkind => h.contains e hkind.2
  unfold childrenOf
  rw [hfilter]

theorem SameHierarchy.inheritTargets_eq {layer layer' : Layer} (h : SameHierarchy layer layer') :
    inheritTargets layer.edges = inheritTargets layer'.edges := by
  have hfilter : (layer.edges.filter fun e => e.kind = .inherits) =
      layer'.edges.filter fun e => e.kind = .inherits := by
    ext e
    rw [Finset.mem_filter, Finset.mem_filter]
    exact and_congr_left fun hkind => h.inherits e hkind
  unfold inheritTargets
  rw [hfilter]

theorem mem_childrenOf {edges : Finset Edge} {container child : String} :
    child ∈ childrenOf edges container ↔
      ∃ e ∈ edges, (e.kind = .defines ∨ e.kind = .contains) ∧ e.source = container ∧
        e.target = child := by
  unfold childrenOf
  rw [HashOrder.mem_order, Finset.mem_image]
  constructor
  · rintro ⟨e, he, htarget⟩
    have hmem := Finset.mem_filter.mp he
    exact ⟨e, hmem.1, hmem.2.2, hmem.2.1, htarget⟩
  · rintro ⟨e, he, hkind, hsource, htarget⟩
    exact ⟨e, Finset.mem_filter.mpr ⟨he, hsource, hkind⟩, htarget⟩

/-- Notes agree when the noted nodes do. -/
theorem foldl_noteMethod_congr {nodes nodes' : FMap String NodeData} {children : List String}
    (h : ∀ child ∈ children, nodes.lookup child = nodes'.lookup child)
    (methods : FMap String String) :
    children.foldl (noteMethod nodes) methods = children.foldl (noteMethod nodes') methods := by
  induction children generalizing methods with
  | nil => rfl
  | cons child children ih =>
    have hchild : noteMethod nodes methods child = noteMethod nodes' methods child := by
      unfold noteMethod
      rw [h child List.mem_cons_self]
    rw [List.foldl_cons, List.foldl_cons, hchild]
    exact ih (fun c hc => h c (List.mem_cons_of_mem _ hc)) _

/-- The methods of the ancestors depend on the hierarchy only. -/
theorem SameHierarchy.ancestorMethods_eq {layer layer' : Layer} (h : SameHierarchy layer layer')
    (did : String) : ancestorMethods layer did = ancestorMethods layer' did := by
  have hvisit : visitParent layer = visitParent layer' := by
    funext acc parent
    have hnodes : ∀ child ∈ childrenOf layer.edges parent,
        layer.nodes.lookup child = layer'.nodes.lookup child := by
      intro child hchild
      obtain ⟨e, he, hkind, -, htarget⟩ := mem_childrenOf.mp hchild
      rw [← htarget]
      exact h.nodes e he hkind
    unfold visitParent
    rw [foldl_noteMethod_congr hnodes, h.childrenOf_eq]
  have hstep : ancestorStep layer = ancestorStep layer' := by
    funext walk current
    unfold ancestorStep
    rw [hvisit, h.parentsOf_eq]
  unfold ancestorMethods
  rw [hstep, h.inheritTargets_eq]

/-- Every noted method is a node. -/
def NotesNodes (nodes : FMap String NodeData) (methods : FMap String String) : Prop :=
  ∀ name child, methods.lookup name = some child → ∃ node, nodes.lookup child = some node

theorem NotesNodes.note {nodes : FMap String NodeData} {methods : FMap String String}
    (h : NotesNodes nodes methods) (child : String) :
    NotesNodes nodes (noteMethod nodes methods child) := by
  unfold noteMethod
  split
  · exact h
  · rename_i node hnode
    split
    · intro name other hother
      rw [lookup_insert_ite] at hother
      split at hother
      · rw [← Option.some.inj hother]
        exact ⟨node, hnode⟩
      · exact h name other hother
    · exact h

theorem NotesNodes.foldl {nodes : FMap String NodeData} {methods : FMap String String}
    (h : NotesNodes nodes methods) (children : List String) :
    NotesNodes nodes (children.foldl (noteMethod nodes) methods) := by
  induction children generalizing methods with
  | nil => exact h
  | cons child children ih => exact ih (h.note child)

/-- The methods of the ancestors are nodes. -/
theorem ancestorMethods_node {layer : Layer} {did name child : String}
    (h : (ancestorMethods layer did).lookup name = some child) :
    ∃ node, layer.nodes.lookup child = some node := by
  have hstep : ∀ (walk : AncestorWalk) (current : String),
      NotesNodes layer.nodes walk.methods →
      NotesNodes layer.nodes (ancestorStep layer walk current).1.methods := by
    intro walk current hwalk
    have hfold : ∀ (parents : List String) (acc : AncestorWalk × List String),
        NotesNodes layer.nodes acc.1.methods →
        NotesNodes layer.nodes (parents.foldl (visitParent layer) acc).1.methods := by
      intro parents
      induction parents with
      | nil => exact fun _ hacc => hacc
      | cons parent parents ih => exact fun acc hacc => ih _ (hacc.foldl _)
    exact hfold _ (walk, []) hwalk
  have hstart : NotesNodes layer.nodes (∅ : FMap String String) := by
    intro name child hnone
    cases hnone
  have hrun : NotesNodes layer.nodes (ancestorMethods layer did) :=
    @Worklists.run_keeps _ _ (ancestorStep layer)
      (fun walk : AncestorWalk => NotesNodes layer.nodes walk.methods) hstep _ _ _ hstart
  exact hrun name child h

/-! ## Passes as parts -/

/-- No stub of the parts has the shape of a module id. -/
def NoModuleStubs (parts : List LayerPart) : Prop :=
  ∀ part ∈ parts, ∀ id node, part.stub = some (id, node) → isModuleId id = false

/-- A builder at work on held files of the project of another builder. -/
structure Working (files : Set FileSymbols) (w b : Builder) : Prop where
  /-- The files are held. -/
  holds : Holds files b
  /-- The files of the project. -/
  projectFiles : b.projectFiles = w.projectFiles

theorem Working.sees {files : Set FileSymbols} {w b : Builder} (h : Working files w b)
    (hsep : Separate files) (hw : Holds files w) : Sees b w :=
  sees_of_holds hsep h.holds hw h.projectFiles

theorem Working.grown {files : Set FileSymbols} {w b b' : Builder} {parts : List LayerPart}
    (h : Working files w b) (hgrown : Grown b b' parts)
    (hstubs : ∀ part ∈ parts, ∀ id node, part.stub = some (id, node) →
      node.external = true ∧ StubShaped id) : Working files w b' :=
  ⟨hgrown.holds h.holds hstubs, hgrown.projectFiles.trans h.projectFiles⟩

/-- An edge changes neither the nodes nor the indexes. -/
theorem Working.askEdge {files : Set FileSymbols} {w b : Builder} (h : Working files w b)
    (edge : Option Edge) : Working files w (askEdge b edge) := by
  have hsame : (CodeLayerParts.askEdge b edge).layer.nodes = b.layer.nodes ∧
      (CodeLayerParts.askEdge b edge).fileToNodes = b.fileToNodes ∧
      (CodeLayerParts.askEdge b edge).nameToId = b.nameToId ∧
      (CodeLayerParts.askEdge b edge).projectFiles = b.projectFiles := by
    cases edge with
    | none => exact ⟨rfl, rfl, rfl, rfl⟩
    | some edge =>
      unfold CodeLayerParts.askEdge Builder.tryAddEdge
      simp only
      split <;> exact ⟨rfl, rfl, rfl, rfl⟩
  obtain ⟨hnodes, hlists, hnames, hproject⟩ := hsame
  refine ⟨⟨?_, ?_, ?_⟩, hproject.trans h.projectFiles⟩
  · rw [hnodes]
    exact h.holds.nodes
  · rw [hlists]
    exact h.holds.lists
  · rw [hnames]
    exact h.holds.names

/-- A loop whose every step adds parts adds the parts of all steps. -/
theorem grown_foldl {α : Type*} {K : Builder → Prop} {step : Builder → α → Builder}
    {parts : α → List LayerPart} {xs : List α}
    (hstep : ∀ b, K b → ∀ x ∈ xs, Grown b (step b x) (parts x) ∧ K (step b x)) {b : Builder}
    (hb : K b) : Grown b (xs.foldl step b) (xs.flatMap parts) ∧ K (xs.foldl step b) := by
  induction xs generalizing b with
  | nil => exact ⟨grown_refl b, hb⟩
  | cons x xs ih =>
    have hfirst := hstep b hb x List.mem_cons_self
    have hrest := ih (fun b' hb' y hy => hstep b' hb' y (List.mem_cons_of_mem _ hy)) hfirst.2
    exact ⟨hfirst.1.trans hrest.1, hrest.2⟩

section Passes

variable {files : Set FileSymbols} {w : Builder} (hsep : Separate files) (hw : Holds files w)
include hsep

/-- Parts of a held file, added one after the other. -/
theorem grown_applyParts {fs : FileSymbols} (hfs : fs ∈ files) {parts : List LayerPart}
    (hparts : ∀ part ∈ parts, PartOf files fs part) (hstubs : NoModuleStubs parts) {b : Builder}
    (hb : Working files w b) :
    Grown b (parts.foldl applyPart b) parts ∧ Working files w (parts.foldl applyPart b) := by
  have hstep : ∀ b, Working files w b → ∀ part ∈ parts,
      Grown b (applyPart b part) [part] ∧ Working files w (applyPart b part) := by
    intro b hb part hpart
    have hgrown := grown_applyPart hb.holds hsep hfs (hparts part hpart)
    refine ⟨hgrown, hb.grown hgrown ?_⟩
    intro other hother id node hstub
    rw [List.mem_singleton.mp hother] at hstub
    have hlooks := (hparts part hpart).stub id node hstub
    exact ⟨hlooks.1, hstubs part hpart id node hstub, hlooks.2⟩
  have hall := grown_foldl hstep hb
  rwa [List.flatMap_singleton'] at hall

include hw

/-- Adding the containment edge of a symbol adds its part. -/
theorem grown_containment {fs : FileSymbols} (hfs : fs ∈ files) {b : Builder}
    (hb : Working files w b) :
    Grown b (b.addContainmentEdges fs.graphPath fs.symbols)
        (fs.symbols.flatMap (containmentParts w fs.graphPath)) ∧
      Working files w (b.addContainmentEdges fs.graphPath fs.symbols) := by
  apply grown_foldl _ hb
  intro b hb symbol hmem
  have hsees := hb.sees hsep hw
  have hparent : b.parentId fs.graphPath symbol = w.parentId fs.graphPath symbol := by
    unfold Builder.parentId
    split
    · rw [hsees.find]
    · rfl
  have heq : Builder.addContainmentEdge fs.graphPath b symbol =
      (containmentParts w fs.graphPath symbol).foldl applyPart b := by
    unfold Builder.addContainmentEdge containmentParts
    rw [hparent]
    cases symbol.durableId with
    | none => rfl
    | some did =>
      simp only
      split
      · rfl
      · rename_i hnone
        have hsource : b.layer.hasNode (w.parentId fs.graphPath symbol) = false :=
          Bool.eq_false_iff.mpr hnone
        rw [List.foldl_cons, List.foldl_nil]
        unfold applyPart askEdge askStub Builder.tryAddEdge Builder.plainEdge
        simp only [hsource, Bool.false_and, Bool.false_eq_true, if_false]
  rw [heq]
  refine grown_applyParts hsep hfs (fun part hpart => partOf_containment hw hsep hfs hmem hpart)
    ?_ hb
  intro part hpart id node hstub
  unfold containmentParts at hpart
  split at hpart
  · exact absurd hpart List.not_mem_nil
  · rw [List.mem_singleton.mp hpart] at hstub
    cases hstub

/-- Resolving the occurrences of a file adds their parts. -/
theorem grown_references {out : Outputs} {fs : FileSymbols} (hfs : fs ∈ files)
    (hstubs : NoModuleStubs (referenceParts w out fs)) {b : Builder} (hb : Working files w b)
    (hcache : b.rangeCache.lookup fs.graphPath = some (w.rangeEntries fs.graphPath)) :
    Grown b (b.resolveReferences out fs.graphPath fs.nativePath) (referenceParts w out fs) ∧
      Working files w (b.resolveReferences out fs.graphPath fs.nativePath) ∧
      (b.resolveReferences out fs.graphPath fs.nativePath).rangeCache = b.rangeCache := by
  unfold Builder.resolveReferences
  unfold referenceParts at hstubs ⊢
  cases hout : out.occurrences fs.nativePath with
  | none => exact ⟨grown_refl b, hb, rfl⟩
  | some occurrences =>
    rw [hout, Option.getD_some] at hstubs
    rw [Option.getD_some]
    have hstep : ∀ b', Working files w b' ∧ b'.rangeCache = b.rangeCache → ∀ occ ∈ occurrences,
        Grown b' (Builder.resolveOccurrence out fs.graphPath fs.nativePath b' occ)
          (occurrenceParts w out fs occ) ∧
        (Working files w (Builder.resolveOccurrence out fs.graphPath fs.nativePath b' occ) ∧
          (Builder.resolveOccurrence out fs.graphPath fs.nativePath b' occ).rangeCache =
            b.rangeCache) := by
      rintro b' ⟨hb', hcache'⟩ occ hocc
      have hparts : ∀ part ∈ occurrenceParts w out fs occ, PartOf files fs part :=
        fun part hpart => partOf_occurrence hw hsep hfs hpart
      have hnomodules : NoModuleStubs (occurrenceParts w out fs occ) :=
        fun part hpart => hstubs part (List.mem_flatMap.mpr ⟨occ, hocc, hpart⟩)
      have heq : Builder.resolveOccurrence out fs.graphPath fs.nativePath b' occ =
          (occurrenceParts w out fs occ).foldl applyPart b' := by
        apply resolveOccurrence_eq (hb'.sees hsep hw)
        · intro part hpart edge
          have hlooks : ∀ other ∈ [LayerPart.mk part.stub none], ∀ id node,
              other.stub = some (id, node) → node.external = true ∧ StubShaped id := by
            intro other hother id node hstub
            rw [List.mem_singleton.mp hother] at hstub
            have hfits := (hparts part hpart).stub id node hstub
            exact ⟨hfits.1, hnomodules part hpart id node hstub, hfits.2⟩
          have hasked := hb'.grown (grown_askStub b' part.stub) hlooks
          exact (hasked.askEdge edge).sees hsep hw
        · rw [hcache']
          exact hcache
      have hgrown := grown_applyParts hsep hfs hparts hnomodules hb'
      rw [heq]
      exact ⟨hgrown.1, hgrown.2, (applyParts_rangeCache _ _).trans hcache'⟩
    have hall := grown_foldl hstep ⟨hb, rfl⟩
    exact ⟨hall.1, hall.2.1, hall.2.2⟩

/-- Adding the inheritance edges of a file adds their parts. -/
theorem grown_inherits {out : Outputs} {fs : FileSymbols} (hfs : fs ∈ files)
    (hstubs : NoModuleStubs (fs.symbols.flatMap (inheritParts w out fs))) {b : Builder}
    (hb : Working files w b) :
    Grown b (b.inheritsPass out fs.nativePath fs.symbols)
        (fs.symbols.flatMap (inheritParts w out fs)) ∧
      Working files w (b.inheritsPass out fs.nativePath fs.symbols) := by
  apply grown_foldl _ hb
  intro b hb symbol hmem
  have hparts : ∀ part ∈ inheritParts w out fs symbol, PartOf files fs part :=
    fun part hpart => partOf_inherit hw hmem hpart
  have hnomodules : NoModuleStubs (inheritParts w out fs symbol) :=
    fun part hpart => hstubs part (List.mem_flatMap.mpr ⟨symbol, hmem, hpart⟩)
  unfold inheritParts at hparts hnomodules ⊢
  unfold Builder.inheritsSymbol
  by_cases hclass : symbol.kind = .class_
  swap
  · rw [if_neg hclass, if_neg hclass]
    exact ⟨grown_refl b, hb⟩
  rw [if_pos hclass] at hparts hnomodules
  rw [if_pos hclass, if_pos hclass]
  cases hdid : symbol.durableId with
  | none => exact ⟨grown_refl b, hb⟩
  | some did =>
    cases hsuper : out.supertypes fs.nativePath (Builder.nameStart symbol) with
    | none => exact ⟨grown_refl b, hb⟩
    | some supertypes =>
      simp only [hdid, hsuper] at hparts hnomodules
      apply grown_foldl _ hb
      intro b hb supertype hsupertype
      rw [inheritFrom_eq (hb.sees hsep hw)]
      exact grown_applyParts hsep hfs
        (fun part hpart => hparts part (List.mem_flatMap.mpr ⟨supertype, hsupertype, hpart⟩))
        (fun part hpart => hnomodules part (List.mem_flatMap.mpr ⟨supertype, hsupertype, hpart⟩)) hb

omit hsep hw in
/-- The edges of override parts are override edges, and there are no
stubs. -/
theorem overrideParts_kind {layer : Layer} {fs : FileSymbols} {symbol : SymbolDto}
    {part : LayerPart} (h : part ∈ overrideParts w layer fs symbol) :
    part.stub = none ∧ ∃ method ∈ fs.symbols, ∃ did parent name ancestor,
      method.durableId = some did ∧ (ancestorMethods layer ancestor).lookup name = some parent ∧
      part.edge = some (Builder.plainEdge did parent .overrides) := by
  unfold overrideParts at h
  split at h
  swap
  · exact absurd h List.not_mem_nil
  split at h
  · exact absurd h List.not_mem_nil
  rename_i ancestor _
  obtain ⟨method, hmethod, hpart⟩ := List.mem_flatMap.mp h
  unfold overridePart at hpart
  split at hpart
  swap
  · exact absurd hpart List.not_mem_nil
  rename_i parent did hparent hdid
  have hmem : method ∈ fs.symbols := (List.mem_filter.mp hmethod).1
  rw [List.mem_singleton.mp hpart]
  exact ⟨rfl, method, hmem, did, parent, method.name, ancestor, hdid, hparent, rfl⟩

omit hsep hw in
theorem partOf_override {layer : Layer} {fs : FileSymbols}
    (hlayer : ∀ id node, layer.nodes.lookup id = some node →
      ∃ g ∈ files, id ∈ (solo g).idsOf g.graphPath) {symbol : SymbolDto} {part : LayerPart}
    (h : part ∈ overrideParts w layer fs symbol) : PartOf files fs part := by
  obtain ⟨hstub, method, hmethod, did, parent, name, ancestor, hdid, hparent, hedge⟩ :=
    overrideParts_kind h
  obtain ⟨node, hnode⟩ := ancestorMethods_node hparent
  have hpair : part = ⟨none, some (Builder.plainEdge did parent .overrides)⟩ := by
    rw [← hstub, ← hedge]
  rw [hpair]
  exact partOf_edge asksStub_none (mem_idsOf_of_symbol hmethod hdid)
    (.inl (hlayer parent node hnode))

omit hsep hw in
/-- Override edges leave the hierarchy. -/
theorem SameHierarchy.grown {b b' : Builder} {layer : Layer} {parts : List LayerPart}
    (h : SameHierarchy b.layer layer) (hgrown : Grown b b' parts)
    (hstubs : ∀ part ∈ parts, part.stub = none)
    (hkinds : ∀ e ∈ edgesOf parts, e.kind = .overrides) : SameHierarchy b'.layer layer := by
  have hfirst : ∀ id, firstStub parts id = none := by
    intro id
    unfold firstStub
    rw [List.findSome?_eq_none_iff]
    intro part hpart
    rw [hstubs part hpart]
  have hedges : ∀ e : Edge, e.kind ≠ .overrides → (e ∈ b'.layer.edges ↔ e ∈ b.layer.edges) := by
    intro e hkind
    rw [hgrown.edges e]
    exact or_iff_left fun he => hkind (hkinds e he)
  constructor
  · intro e hkind
    rw [hedges e (by rw [hkind]; decide)]
    exact h.inherits e hkind
  · intro e hkind
    rw [hedges e (by rcases hkind with hkind | hkind <;> rw [hkind] <;> decide)]
    exact h.contains e hkind
  · intro e he hkind
    rw [hedges e (by rcases hkind with hkind | hkind <;> rw [hkind] <;> decide)] at he
    rw [hgrown.nodes, hfirst, Option.or_none]
    exact h.nodes e he hkind

/-- Adding the override edges of a file adds their parts, as the ancestors in
a layer with the same hierarchy give them. -/
theorem grown_overrides {layer : Layer} {fs : FileSymbols} (hfs : fs ∈ files)
    (hlayer : ∀ id node, layer.nodes.lookup id = some node →
      ∃ g ∈ files, id ∈ (solo g).idsOf g.graphPath) {b : Builder}
    (hb : Working files w b ∧ SameHierarchy b.layer layer) :
    Grown b (b.overridesPass fs.graphPath fs.symbols)
        (fs.symbols.flatMap (overrideParts w layer fs)) ∧
      (Working files w (b.overridesPass fs.graphPath fs.symbols) ∧
        SameHierarchy (b.overridesPass fs.graphPath fs.symbols).layer layer) := by
  refine grown_foldl (K := fun b => Working files w b ∧ SameHierarchy b.layer layer) ?_ hb
  intro b hb symbol hmem
  have hparts : ∀ part ∈ overrideParts w layer fs symbol, PartOf files fs part :=
    fun part hpart => partOf_override hlayer hpart
  have hstubs : ∀ part ∈ overrideParts w layer fs symbol, part.stub = none :=
    fun part hpart => (overrideParts_kind hpart).1
  have hkinds : ∀ e ∈ edgesOf (overrideParts w layer fs symbol), e.kind = .overrides := by
    intro e he
    obtain ⟨part, hpart, hedge⟩ := List.mem_filterMap.mp he
    obtain ⟨-, method, -, did, parent, name, ancestor, -, -, hedge'⟩ := overrideParts_kind hpart
    rw [hedge] at hedge'
    rw [Option.some.inj hedge']
    rfl
  have heq : Builder.overridesSymbol fs.graphPath fs.symbols b symbol =
      (overrideParts w layer fs symbol).foldl applyPart b := by
    have hmethod : ∀ (ancestors : FMap String String) (methods : List SymbolDto) (b : Builder),
        methods.foldl (Builder.overrideMethod ancestors) b =
          (methods.flatMap (overridePart ancestors)).foldl applyPart b := by
      intro ancestors methods
      induction methods with
      | nil => exact fun _ => rfl
      | cons method methods ih =>
        intro b
        have hone : Builder.overrideMethod ancestors b method =
            (overridePart ancestors method).foldl applyPart b := by
          unfold Builder.overrideMethod overridePart
          cases ancestors.lookup method.name with
          | none => rfl
          | some parent => cases method.durableId <;> rfl
        rw [List.foldl_cons, List.flatMap_cons, List.foldl_append, ih, hone]
    unfold Builder.overridesSymbol overrideParts
    rw [(hb.1.sees hsep hw).find]
    split
    · cases w.findSymbolInFile fs.graphPath (symbol.qualifiedName.getD symbol.name) with
      | none => rfl
      | some did =>
        simp only
        split
        · rename_i hempty
          rw [hempty]
          rfl
        · rw [hb.2.ancestorMethods_eq, hmethod]
    · rfl
  have hgrown := @grown_applyParts files w hsep fs hfs _ hparts
    (fun part hpart id node hstub => by rw [hstubs part hpart] at hstub; cases hstub) b hb.1
  rw [heq]
  exact ⟨hgrown.1, hgrown.2, hb.2.grown hgrown.1 hstubs hkinds⟩

/-- The parts of the containment edges of a file. -/
def containmentOf (w : Builder) (fs : FileSymbols) : List LayerPart :=
  fs.symbols.flatMap (containmentParts w fs.graphPath)

/-- The parts of the inheritance edges of a file. -/
def inheritsOf (w : Builder) (out : Outputs) (fs : FileSymbols) : List LayerPart :=
  fs.symbols.flatMap (inheritParts w out fs)

/-- The parts of the override edges of a file. -/
def overridesOf (w : Builder) (layer : Layer) (fs : FileSymbols) : List LayerPart :=
  fs.symbols.flatMap (overrideParts w layer fs)

/-- The pass over containment edges and range caches. -/
def containmentPass (b : Builder) (todo : List FileSymbols) : Builder :=
  todo.foldl (fun b fs =>
    (b.addContainmentEdges fs.graphPath fs.symbols).buildRangeCache fs.graphPath) b

theorem grown_containmentPass {todo : List FileSymbols} (htodo : ∀ fs ∈ todo, fs ∈ files)
    {b : Builder} (hb : Working files w b) :
    Grown b (containmentPass b todo) (todo.flatMap (containmentOf w)) ∧
      Working files w (containmentPass b todo) := by
  apply grown_foldl _ hb
  intro b hb fs hfs
  have hedges := grown_containment hsep hw (htodo fs hfs) hb
  have hcache := hedges.1.trans (grown_buildRangeCache _ fs.graphPath)
  rw [List.append_nil] at hcache
  refine ⟨hcache, hedges.2.grown (grown_buildRangeCache _ fs.graphPath) ?_⟩
  exact fun part hpart => absurd hpart List.not_mem_nil

omit hsep hw in
theorem addContainmentEdges_rangeCache (b : Builder) (file : String) (symbols : List SymbolDto) :
    (b.addContainmentEdges file symbols).rangeCache = b.rangeCache := by
  have hone : ∀ (b : Builder) (symbol : SymbolDto),
      (Builder.addContainmentEdge file b symbol).rangeCache = b.rangeCache := by
    intro b symbol
    unfold Builder.addContainmentEdge
    split
    · rfl
    · simp only
      split
      · exact askEdge_rangeCache b (some _)
      · rfl
  have hfold : ∀ (symbols : List SymbolDto) (b : Builder),
      (symbols.foldl (Builder.addContainmentEdge file) b).rangeCache = b.rangeCache := by
    intro symbols
    induction symbols with
    | nil => exact fun _ => rfl
    | cons symbol symbols ih => exact fun b => (ih _).trans (hone b symbol)
  exact hfold symbols b

/-- After the pass the ranges of its files are cached. -/
theorem cached_containmentPass {todo : List FileSymbols} (htodo : ∀ fs ∈ todo, fs ∈ files)
    {b : Builder} (hb : Working files w b) {file : String}
    (h : file ∈ todo.map FileSymbols.graphPath ∨
      b.rangeCache.lookup file = some (w.rangeEntries file)) :
    (containmentPass b todo).rangeCache.lookup file = some (w.rangeEntries file) := by
  induction todo generalizing b with
  | nil => exact h.resolve_left List.not_mem_nil
  | cons fs todo ih =>
    have hedges := (grown_containment hsep hw (htodo fs List.mem_cons_self) hb).2
    have hnext := hedges.grown (grown_buildRangeCache _ fs.graphPath)
      (fun part hpart => absurd hpart List.not_mem_nil)
    refine ih (fun g hg => htodo g (List.mem_cons_of_mem _ hg)) hnext ?_
    have hcache : ((b.addContainmentEdges fs.graphPath fs.symbols).buildRangeCache
        fs.graphPath).rangeCache.lookup file =
        if file = fs.graphPath then some (w.rangeEntries fs.graphPath)
        else b.rangeCache.lookup file := by
      unfold Builder.buildRangeCache
      simp only
      rw [lookup_insert_ite, addContainmentEdges_rangeCache, (hedges.sees hsep hw).ranges]
    rw [hcache]
    by_cases hfile : file = fs.graphPath
    · rw [if_pos hfile, hfile]
      exact .inr rfl
    · rw [if_neg hfile]
      exact h.imp_left fun hin => (List.mem_cons.mp hin).resolve_left hfile

/-- The pass over references and imports. -/
def referencePass (out : Outputs) (b : Builder) (todo : List FileSymbols) : Builder :=
  todo.foldl (fun b fs => b.resolveReferences out fs.graphPath fs.nativePath) b

theorem grown_referencePass {out : Outputs} {todo : List FileSymbols}
    (htodo : ∀ fs ∈ todo, fs ∈ files)
    (hstubs : ∀ fs ∈ todo, NoModuleStubs (referenceParts w out fs)) {b : Builder}
    (hb : Working files w b)
    (hcache : ∀ fs ∈ todo,
      b.rangeCache.lookup fs.graphPath = some (w.rangeEntries fs.graphPath)) :
    Grown b (referencePass out b todo) (todo.flatMap (referenceParts w out)) ∧
      Working files w (referencePass out b todo) := by
  have hstep : ∀ b', Working files w b' ∧ b'.rangeCache = b.rangeCache → ∀ fs ∈ todo,
      Grown b' (b'.resolveReferences out fs.graphPath fs.nativePath) (referenceParts w out fs) ∧
      (Working files w (b'.resolveReferences out fs.graphPath fs.nativePath) ∧
        (b'.resolveReferences out fs.graphPath fs.nativePath).rangeCache = b.rangeCache) := by
    intro b' hb' fs hfs
    have hpass := grown_references hsep hw (htodo fs hfs) (hstubs fs hfs) hb'.1
      (by rw [hb'.2]; exact hcache fs hfs)
    exact ⟨hpass.1, hpass.2.1, hpass.2.2.trans hb'.2⟩
  have hall := grown_foldl hstep ⟨hb, rfl⟩
  exact ⟨hall.1, hall.2.1⟩

/-- The pass over inheritance edges. -/
def inheritsLoop (out : Outputs) (b : Builder) (todo : List FileSymbols) : Builder :=
  todo.foldl (fun b fs => b.inheritsPass out fs.nativePath fs.symbols) b

/-- The parts that the passes add before the override edges. -/
def structureOf (w : Builder) (out : Outputs) (todo : List FileSymbols) : List LayerPart :=
  todo.flatMap (containmentOf w) ++ todo.flatMap (referenceParts w out) ++
    todo.flatMap (inheritsOf w out)

/-- The passes before the override pass. -/
def structurePasses (out : Outputs) (b : Builder) (todo : List FileSymbols) : Builder :=
  inheritsLoop out (referencePass out (containmentPass b todo) todo) todo

theorem grown_structurePasses {out : Outputs} {todo : List FileSymbols}
    (htodo : ∀ fs ∈ todo, fs ∈ files)
    (hreferences : ∀ fs ∈ todo, NoModuleStubs (referenceParts w out fs))
    (hinherits : ∀ fs ∈ todo, NoModuleStubs (inheritsOf w out fs)) {b : Builder}
    (hb : Working files w b) :
    Grown b (structurePasses out b todo) (structureOf w out todo) ∧
      Working files w (structurePasses out b todo) := by
  have hcontainment := grown_containmentPass hsep hw htodo hb
  have hreference := grown_referencePass hsep hw htodo hreferences hcontainment.2 fun fs hfs =>
    cached_containmentPass hsep hw htodo hb (.inl (List.mem_map_of_mem hfs))
  have hinherit : Grown _ (structurePasses out b todo) (todo.flatMap (inheritsOf w out)) ∧
      Working files w (structurePasses out b todo) :=
    grown_foldl (fun _ hb fs hfs => grown_inherits hsep hw (htodo fs hfs) (hinherits fs hfs) hb)
      hreference.2
  exact ⟨(hcontainment.1.trans hreference.1).trans hinherit.1, hinherit.2⟩

/-- Materialize files one after the other. -/
def materializeAll (b : Builder) (todo : List FileSymbols) : Builder :=
  todo.foldl (fun b fs => b.materializeFileNodes fs.graphPath fs.symbols) b

/-- All passes add the parts of their files. -/
theorem grown_runPasses {out : Outputs} {todo : List FileSymbols} {layer : Layer}
    (htodo : ∀ fs ∈ todo, fs ∈ files)
    (hreferences : ∀ fs ∈ todo, NoModuleStubs (referenceParts w out fs))
    (hinherits : ∀ fs ∈ todo, NoModuleStubs (inheritsOf w out fs))
    (hlayer : ∀ id node, layer.nodes.lookup id = some node →
      ∃ g ∈ files, id ∈ (solo g).idsOf g.graphPath) {b : Builder}
    (hb : Working files w (materializeAll b todo))
    (hhierarchy : SameHierarchy (structurePasses out (materializeAll b todo) todo).layer layer) :
    Grown (materializeAll b todo) (b.runPasses out todo)
      (structureOf w out todo ++ todo.flatMap (overridesOf w layer)) := by
  have hstructure := grown_structurePasses hsep hw htodo hreferences hinherits hb
  have hoverrides := grown_foldl (K := fun b => Working files w b ∧ SameHierarchy b.layer layer)
    (fun _ hb fs hfs => grown_overrides hsep hw (htodo fs hfs) hlayer hb)
    ⟨hstructure.2, hhierarchy⟩
  exact hstructure.1.trans hoverrides.1

end Passes

end Tyo3.CodeLayerPasses
