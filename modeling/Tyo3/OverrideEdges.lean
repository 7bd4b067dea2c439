import Tyo3.CodeLayerCarrying
import Tyo3.InheritanceWalks
import Tyo3.SymbolNames

/-!
# Override edges

The override pass lists the methods of a class by comparing their container,
which is a dotted name, with the simple name of the class, and it starts the
walk over the ancestors at the node that the dotted name of the class leads
to. So the override edges are exact for a class at the top level whose name
leads to it and to no other class. The methods of a nested class are never
listed, and a second class of the name lists the methods of the first.
-/

namespace Tyo3.OverrideEdges

open CodeLayer CodeLayerBuilder CodeLayerFiles CodeLayerParts CodeLayerPasses FiniteMaps
open CodeLayerProjects CodeLayerCarrying InheritanceWalks SymbolNames Worklists

/-! ## The property -/

/-- A method or constructor directly inside a class. -/
def DirectMethod (fs : FileSymbols) (cls m : SymbolDto) : Prop :=
  m ∈ fs.symbols ∧ (m.kind = .method ∨ m.kind = .constructor) ∧
    m.containerName = some (dottedName cls)

/-- Some class above a class has a method of a name. -/
def Inherited (layer : Layer) (cls name : String) : Prop :=
  ∃ k ancestor m, Ascends layer cls (k + 1) ancestor ∧ HasMethod layer ancestor name m

/-- The override edges of one method. -/
def OverridesFrom (layer : Layer) (md : String) : Set Edge :=
  {e | e ∈ layer.edges ∧ e.kind = .overrides ∧ e.source = md}

/-- After a full build the methods of a class have exactly the override edges
they should have, and the walk over ancestors ends on every layer. -/
structure OverridesExact (out : Outputs) (fs : FileSymbols) (cls : SymbolDto) (did : String) :
    Prop where
  /-- The walk ends. -/
  ends : ∀ layer start, ∃ final, Ends (ancestorStep layer) ⟨{start}, ∅⟩ [start] final ∧
    final.methods = ancestorMethods layer start
  /-- A method that is inherited has one edge, to a nearest one. -/
  one : ∀ m md, DirectMethod fs cls m → m.durableId = some md →
    Inherited (build out) did m.name → ∃ target, Nearest (build out) did m.name target ∧
      OverridesFrom (build out) md = {Builder.plainEdge md target .overrides}
  /-- Any other method has none. -/
  none : ∀ m md, DirectMethod fs cls m → m.durableId = some md →
    ¬ Inherited (build out) did m.name → OverridesFrom (build out) md = ∅

/-- The name of a class leads to it: it stands at the top level, is the only
class of its simple name, and is the only symbol of this name, or the first
one in a file that has another stem. -/
structure LedToByName (fs : FileSymbols) (cls : SymbolDto) : Prop where
  /-- At the top level. -/
  top : cls.containerName = none
  /-- No other class of the name. -/
  only : ∀ t ∈ fs.symbols, t.kind = .class_ → t.name = cls.name → t = cls
  /-- Found by the name. -/
  found : (∀ s ∈ fs.symbols, s.name = cls.name → s = cls) ∨
    fileStem fs.graphPath ≠ cls.name ∧ (fs.symbols.find? fun s => s.name = cls.name) = some cls

/-- Where a method is inherited there is a nearest one. -/
theorem exists_nearest {layer : Layer} {cls name : String} (h : Inherited layer cls name) :
    ∃ m, Nearest layer cls name m := by
  classical
  have hex : ∃ k, ∃ ancestor m, Ascends layer cls (k + 1) ancestor ∧
      HasMethod layer ancestor name m := h
  obtain ⟨ancestor, m, hwalk, hhas⟩ := Nat.find_spec hex
  refine ⟨m, Nat.find hex, ancestor, hwalk, hhas, ?_⟩
  intro j hj other hother m' hhas'
  exact Nat.find_min hex hj ⟨other, m', hother, hhas'⟩

theorem inherited_of_nearest {layer : Layer} {cls name m : String} (h : Nearest layer cls name m) :
    Inherited layer cls name := by
  obtain ⟨k, ancestor, hwalk, hhas, -⟩ := h
  exact ⟨k, ancestor, m, hwalk, hhas⟩

theorem inherits_of_mem {layer : Layer} {cls parent : String}
    (h : Builder.plainEdge cls parent .inherits ∈ layer.edges) : Inherits layer cls parent :=
  ⟨_, h, rfl, rfl, rfl⟩

theorem hasMethod_of_mem {layer : Layer} {container m : String} {node : NodeData}
    (h : Builder.plainEdge container m .contains ∈ layer.edges)
    (hnode : layer.nodes.lookup m = some node) (hkind : node.kind = .method) :
    HasMethod layer container node.name m :=
  ⟨⟨_, h, .inr rfl, rfl, rfl⟩, node, hnode, .inl hkind, rfl⟩

theorem inherited_of_parent {layer : Layer} {cls parent name m : String}
    (h : Inherits layer cls parent) (hhas : HasMethod layer parent name m) :
    Inherited layer cls name := ⟨0, parent, m, ⟨cls, rfl, h⟩, hhas⟩

theorem overridesFrom_eq_empty {layer : Layer} {md : String}
    (h : ∀ e ∈ layer.edges, e.kind = .overrides → e.source ≠ md) : OverridesFrom layer md = ∅ := by
  rw [Set.eq_empty_iff_forall_notMem]
  intro e he
  exact h e he.1 he.2.1 he.2.2

/-- A walk of at least one edge starts with one. -/
theorem exists_inherits_of_ascends {layer : Layer} {cls : String} {k : ℕ} {ancestor : String}
    (h : Ascends layer cls (k + 1) ancestor) : ∃ parent, Inherits layer cls parent := by
  induction k generalizing ancestor with
  | zero =>
    obtain ⟨child, hchild, hinherits⟩ := h
    have heq : child = cls := hchild
    exact ⟨ancestor, heq ▸ hinherits⟩
  | succ k ih =>
    obtain ⟨child, hchild, -⟩ := h
    exact ih hchild

/-! ## The edges of a file -/

theorem mem_containmentOf {w : Builder} {fs : FileSymbols} {e : Edge} :
    e ∈ edgesOf (containmentOf w fs) ↔ ∃ s ∈ fs.symbols, ∃ did, s.durableId = some did ∧
      e = Builder.plainEdge (w.parentId fs.graphPath s) did
        (if w.parentId fs.graphPath s = makeModuleDurableId fs.graphPath then .defines
        else .contains) := by
  unfold containmentOf
  rw [mem_edgesOf_flatMap]
  refine exists_congr fun s => and_congr_right fun _ => ?_
  unfold containmentParts
  cases hdid : s.durableId with
  | none =>
    constructor
    · intro he
      exact absurd he List.not_mem_nil
    · rintro ⟨did, hnone, -⟩
      cases hnone
  | some did =>
    constructor
    · intro he
      exact ⟨did, rfl, List.mem_singleton.mp he⟩
    · rintro ⟨did', hsome, he⟩
      rw [he, ← Option.some.inj hsome]
      exact List.mem_singleton_self _

theorem kind_of_containment {w : Builder} {fs : FileSymbols} {e : Edge}
    (he : e ∈ edgesOf (containmentOf w fs)) : e.kind = .defines ∨ e.kind = .contains := by
  obtain ⟨s, -, did, -, heq⟩ := mem_containmentOf.mp he
  rw [heq]
  unfold Builder.plainEdge
  simp only
  split
  · exact .inl rfl
  · exact .inr rfl

/-- An inheritance edge of a file joins a class with the node of one of its
supertypes. -/
theorem mem_inheritsOf {w : Builder} {out : Outputs} {fs : FileSymbols} {e : Edge} :
    e ∈ edgesOf (inheritsOf w out fs) ↔ ∃ s ∈ fs.symbols, s.kind = .class_ ∧
      ∃ did, s.durableId = some did ∧
      ∃ supertype ∈ (out.supertypes fs.nativePath (Builder.nameStart s)).getD [],
        e ∈ edgesOf (supertypeParts w out did supertype) := by
  unfold inheritsOf
  rw [mem_edgesOf_flatMap]
  refine exists_congr fun s => and_congr_right fun _ => ?_
  unfold inheritParts
  by_cases hclass : s.kind = .class_
  swap
  · rw [if_neg hclass]
    constructor
    · intro he
      exact absurd he List.not_mem_nil
    · intro hs
      exact absurd hs.1 hclass
  rw [if_pos hclass, and_iff_right hclass]
  cases hdid : s.durableId with
  | none =>
    constructor
    · intro he
      exact absurd he List.not_mem_nil
    · rintro ⟨did, hnone, -⟩
      cases hnone
  | some did =>
    cases hsupertypes : out.supertypes fs.nativePath (Builder.nameStart s) with
    | none =>
      constructor
      · intro he
        exact absurd he List.not_mem_nil
      · rintro ⟨did', -, supertype, hin, -⟩
        exact absurd hin List.not_mem_nil
    | some supertypes =>
      simp only [mem_edgesOf_flatMap, Option.getD_some, Option.some.injEq, exists_eq_left']

/-- An override edge of a file starts at a method that a class lists. -/
theorem mem_overridesOf {w : Builder} {layer : Layer} {fs : FileSymbols} {e : Edge} :
    e ∈ edgesOf (overridesOf w layer fs) ↔ ∃ t ∈ fs.symbols, t.kind = .class_ ∧
      ∃ start, w.findSymbolInFile fs.graphPath (dottedName t) = some start ∧
      ∃ m ∈ Builder.childMethods fs.symbols t, ∃ md target, m.durableId = some md ∧
        (ancestorMethods layer start).lookup m.name = some target ∧
        e = Builder.plainEdge md target .overrides := by
  unfold overridesOf
  rw [mem_edgesOf_flatMap]
  refine exists_congr fun t => and_congr_right fun _ => ?_
  unfold overrideParts
  by_cases hclass : t.kind = .class_
  swap
  · rw [if_neg hclass]
    constructor
    · intro he
      exact absurd he List.not_mem_nil
    · intro ht
      exact absurd ht.1 hclass
  rw [if_pos hclass, and_iff_right hclass]
  have hdotted : t.qualifiedName.getD t.name = dottedName t := rfl
  rw [hdotted]
  cases hfind : w.findSymbolInFile fs.graphPath (dottedName t) with
  | none =>
    constructor
    · intro he
      exact absurd he List.not_mem_nil
    · rintro ⟨start, hnone, -⟩
      cases hnone
  | some start =>
    simp only [mem_edgesOf_flatMap, Option.some.injEq, exists_eq_left']
    refine exists_congr fun m => and_congr_right fun _ => ?_
    unfold overridePart
    cases hlookup : (ancestorMethods layer start).lookup m.name with
    | none =>
      constructor
      · intro he
        exact absurd he List.not_mem_nil
      · rintro ⟨md, target, -, hnone, -⟩
        cases hnone
    | some target =>
      cases hmd : m.durableId with
      | none =>
        constructor
        · intro he
          exact absurd he List.not_mem_nil
        · rintro ⟨md, target', hnone, -⟩
          cases hnone
      | some md =>
        constructor
        · intro he
          exact ⟨md, target, rfl, rfl, List.mem_singleton.mp he⟩
        · rintro ⟨md', target', hmd', htarget, he⟩
          rw [he, ← Option.some.inj hmd', ← Option.some.inj htarget]
          exact List.mem_singleton_self _

theorem mem_childMethods {symbols : List SymbolDto} {t m : SymbolDto} :
    m ∈ Builder.childMethods symbols t ↔ m ∈ symbols ∧
      (m.kind = .method ∨ m.kind = .constructor) ∧ m.containerName = some t.name := by
  unfold Builder.childMethods
  rw [List.mem_filter, decide_eq_true_eq]

/-! ## The edges of a full build -/

section FullBuild

variable {out : Outputs} (h : WellFormed out)
include h

/-- A full build has the hierarchy of its project. -/
theorem sameHierarchy_build : SameHierarchy (build out) (hierarchy out) := by
  have hworking := (working_world h).grown (grown_build h) fun part hpart =>
    stubs_partsOf h (fun _ hfs => hfs) hpart
  have hedges : ∀ e, e ∈ ((opened out).runPasses out (filesOf out)).layer.edges ↔
      ∃ fs ∈ filesOf out, e ∈ fileEdges out fs := (build_spec h).2.1
  have hsame := sameHierarchy_of_edges h hworking fun e hkind => by
    rw [hedges e]
    refine exists_congr fun g => and_congr_right fun _ => ?_
    rw [mem_fileEdges]
    exact or_congr_right (or_congr_right (or_iff_left fun he => hkind (kind_of_overrides he)))
  exact ⟨hsame.inherits, hsame.contains, hsame.nodes⟩

/-- The pass that an edge comes from goes by its kind. -/
theorem pass_of_kind {e : Edge} (he : e ∈ (build out).edges) : ∃ g ∈ filesOf out,
    (e.kind = .inherits → e ∈ edgesOf (inheritsOf (world out) out g)) ∧
      (e.kind = .overrides → e ∈ edgesOf (overridesOf (world out) (hierarchy out) g)) := by
  obtain ⟨g, hg, hin⟩ := ((build_spec h).2.1 e).mp he
  refine ⟨g, hg, ?_⟩
  rcases mem_fileEdges.mp hin with hcontains | hreference | hinherits | hoverrides
  · rcases kind_of_containment hcontains with hkind | hkind
    · simp [hkind]
    · simp [hkind]
  · rcases kind_of_reference hreference with hkind | hkind
    · simp [hkind]
    · simp [hkind]
  · simp [kind_of_inherits hinherits, hinherits]
  · simp [kind_of_overrides hoverrides, hoverrides]

theorem inherits_build_iff {cls parent : String} :
    Inherits (build out) cls parent ↔ ∃ g ∈ filesOf out,
      ∃ e ∈ edgesOf (inheritsOf (world out) out g), e.source = cls ∧ e.target = parent := by
  have hedges := (build_spec h).2.1
  constructor
  · rintro ⟨e, he, hkind, hsource, htarget⟩
    obtain ⟨g, hg, hinherits, -⟩ := pass_of_kind h he
    exact ⟨g, hg, e, hinherits hkind, hsource, htarget⟩
  · rintro ⟨g, hg, e, hin, hsource, htarget⟩
    exact ⟨e, (hedges e).mpr ⟨g, hg, mem_fileEdges.mpr (.inr (.inr (.inl hin)))⟩,
      kind_of_inherits hin, hsource, htarget⟩

theorem mem_overrides_build {e : Edge} :
    e ∈ (build out).edges ∧ e.kind = .overrides ↔
      ∃ g ∈ filesOf out, e ∈ edgesOf (overridesOf (world out) (hierarchy out) g) := by
  have hedges := (build_spec h).2.1
  constructor
  · rintro ⟨he, hkind⟩
    obtain ⟨g, hg, -, hoverrides⟩ := pass_of_kind h he
    exact ⟨g, hg, hoverrides hkind⟩
  · rintro ⟨g, hg, hin⟩
    exact ⟨(hedges e).mpr ⟨g, hg, mem_fileEdges.mpr (.inr (.inr (.inr hin)))⟩,
      kind_of_overrides hin⟩

variable {fs : FileSymbols} (hfs : fs ∈ filesOf out) (hnamed : WellNamed fs)
include hfs hnamed

/-- A method has one override edge for each class of its file that lists it,
to what the ancestors of this class have under its name. -/
theorem mem_overridesFrom {m : SymbolDto} (hm : m ∈ fs.symbols) {md : String}
    (hmd : m.durableId = some md) {e : Edge} :
    e ∈ OverridesFrom (build out) md ↔ ∃ t ∈ fs.symbols, t.kind = .class_ ∧
      m ∈ Builder.childMethods fs.symbols t ∧
      ∃ start, (world out).findSymbolInFile fs.graphPath (dottedName t) = some start ∧
      ∃ target, (ancestorMethods (build out) start).lookup m.name = some target ∧
        e = Builder.plainEdge md target .overrides := by
  have hsame := (sameHierarchy_build h).ancestorMethods_eq
  have hsplit : e ∈ OverridesFrom (build out) md ↔
      (e ∈ (build out).edges ∧ e.kind = .overrides) ∧ e.source = md := and_assoc.symm
  rw [hsplit, mem_overrides_build h]
  constructor
  · rintro ⟨⟨g, hg, hin⟩, hsource⟩
    obtain ⟨t, ht, hclass, start, hfind, m', hm', md', target, hmd', hlookup, he⟩ :=
      mem_overridesOf.mp hin
    have hid : md' = md := by rw [← hsource, he]; rfl
    rw [hid] at hmd' he
    have hmem' : m' ∈ g.symbols := (List.mem_filter.mp hm').1
    have hfile : g = fs := h.separate.owners g hg fs hfs md
      (List.mem_filterMap.mpr ⟨m', hmem', hmd'⟩) (List.mem_filterMap.mpr ⟨m, hm, hmd⟩)
    rw [hfile] at ht hfind hm' hmem'
    have hmethod : m' = m := hnamed.eq_of_id hmem' hm (hmd'.trans hmd.symm)
    rw [hmethod] at hm' hlookup
    exact ⟨t, ht, hclass, hm', start, hfind, target, hsame start ▸ hlookup, he⟩
  · rintro ⟨t, ht, hclass, hlisted, start, hfind, target, hlookup, he⟩
    refine ⟨⟨fs, hfs, mem_overridesOf.mpr ⟨t, ht, hclass, start, hfind, m, hlisted, md, target,
      hmd, ?_, he⟩⟩, ?_⟩
    · rw [← hsame start]
      exact hlookup
    · rw [he]
      rfl

/-- A method is a child of the node that its container leads to. -/
theorem hasMethod_of_container {m : SymbolDto} (hm : m ∈ fs.symbols)
    (hkind : m.kind = .method ∨ m.kind = .constructor) {md : String} (hmd : m.durableId = some md)
    {container node : String} (hcontainer : m.containerName = some container)
    (hfind : (world out).findSymbolInFile fs.graphPath container = some node) :
    HasMethod (build out) node m.name md := by
  have hparent : (world out).parentId fs.graphPath m = node := by
    unfold Builder.parentId
    rw [hcontainer]
    simp only [hfind, Option.getD_some]
  have hshapes : ∀ did ∈ durableIds fs, isModuleId did = false :=
    fun did hdid => (h.shapes fs hfs did hdid).1
  obtain ⟨-, hedges, -, -, hnodes⟩ := build_spec h
  have hedge : Builder.plainEdge node md (if node = makeModuleDurableId fs.graphPath then .defines
      else .contains) ∈ edgesOf (containmentOf (world out) fs) :=
    mem_containmentOf.mpr ⟨m, hm, md, hmd, by rw [hparent]⟩
  refine ⟨⟨_, (hedges _).mpr ⟨fs, hfs, mem_fileEdges.mpr (.inl hedge)⟩,
    kind_of_containment hedge, rfl, rfl⟩, Builder.symbolNode fs.graphPath m, ?_, hkind, rfl⟩
  have hid : md ∈ fileIds fs := List.mem_cons_of_mem _ (List.mem_filterMap.mpr ⟨m, hm, hmd⟩)
  exact (hnodes.lookup_eq h.separate hfs hid).trans (lookup_solo hnamed hshapes hm hmd)

/-! ## Names in a full build -/

/-- A name of a file leads where it leads in the file alone. -/
theorem find_world {n : String} (hn : n ≠ moduleQualifiedName) :
    (world out).findSymbolInFile fs.graphPath n = ledTo fs n :=
  (find_of_held h.separate (holds_world h) hfs n).trans
    (find_solo hnamed (fun did hdid => (h.shapes fs hfs did hdid).1) hn)

/-- A name that only one symbol is called by leads to it. -/
theorem find_of_only {s : SymbolDto} (hs : s ∈ fs.symbols) {n : String}
    (hn : n ≠ moduleQualifiedName)
    (honly : ∀ t ∈ fs.symbols, t.name = n ∨ dottedName t = n ↔ t = s) :
    (world out).findSymbolInFile fs.graphPath n = s.durableId := by
  have hone : calledBy fs.symbols n = [s] := calledBy_eq_singleton hnamed hs honly
  rw [find_world h hfs hnamed hn, ledTo_of_one hone]

/-- The dotted name of a nested symbol leads to it. -/
theorem find_nested {s : SymbolDto} (hs : s ∈ fs.symbols) (hnested : s.containerName ≠ none) :
    (world out).findSymbolInFile fs.graphPath (dottedName s) = s.durableId := by
  refine find_of_only h hfs hnamed hs (h.qualified fs hfs s hs) fun t ht => ⟨?_, ?_⟩
  · rintro (hname | hdotted)
    · exact absurd hname (hnamed.name_ne_of_nested hs hnested ht)
    · exact hnamed.eq_of_name ht hs hdotted
  · intro heq
    exact .inr (heq ▸ rfl)

/-- The name of a symbol at the top level leads to it exactly when it is the
only one of its name, or the first in a file of another stem. -/
theorem find_top_iff {s : SymbolDto} (hs : s ∈ fs.symbols) (htop : s.containerName = none) :
    (world out).findSymbolInFile fs.graphPath s.name = s.durableId ↔
      (∀ t ∈ fs.symbols, t.name = s.name → t = s) ∨
        fileStem fs.graphPath ≠ s.name ∧ (fs.symbols.find? fun t => t.name = s.name) = some s := by
  have hn : s.name ≠ moduleQualifiedName := by
    rw [← hnamed.dottedName_top hs htop]
    exact h.qualified fs hfs s hs
  have hcalled := calledBy_top hnamed hs htop
  by_cases honly : ∀ t ∈ fs.symbols, t.name = s.name → t = s
  · refine iff_of_true (find_of_only h hfs hnamed hs hn fun t ht => ?_) (.inl honly)
    rw [or_iff_left_of_imp (name_of_dotted_top hnamed hs htop ht)]
    exact ⟨honly t ht, fun heq => heq ▸ rfl⟩
  · rw [or_iff_right honly, find_world h hfs hnamed hn]
    have hseveral : ∀ t, calledBy fs.symbols s.name ≠ [t] := by
      intro t hone
      apply honly
      have hall : ∀ u ∈ fs.symbols, u.name = s.name → u = t := by
        intro u hu hname
        have hin : u ∈ calledBy fs.symbols s.name :=
          List.mem_filter.mpr ⟨hu, decide_eq_true (.inl hname)⟩
        rw [hone] at hin
        exact List.mem_singleton.mp hin
      intro u hu hname
      rw [hall u hu hname, hall s hs rfl]
    rw [ledTo_of_several hseveral, hcalled, List.head?_filter]
    obtain ⟨did, hdid, -⟩ := hnamed.ids s hs
    by_cases hstem : fileStem fs.graphPath = s.name
    · rw [if_pos hstem]
      refine iff_of_false ?_ fun hboth => hboth.1 hstem
      intro hsame
      have hshape := (h.shapes fs hfs did (List.mem_filterMap.mpr ⟨s, hs, hdid⟩)).1
      rw [hdid] at hsame
      rw [← Option.some.inj hsame, isModuleId_makeModuleDurableId] at hshape
      cases hshape
    · rw [if_neg hstem, and_iff_right hstem]
      constructor
      · intro hsame
        cases hfirst : fs.symbols.find? fun t => t.name = s.name with
        | none =>
          rw [hfirst, Option.bind_none, hdid] at hsame
          cases hsame
        | some t =>
          rw [hfirst, Option.bind_some] at hsame
          rw [hnamed.eq_of_id (List.mem_of_find?_eq_some hfirst) hs hsame]
      · intro hfirst
        rw [hfirst, Option.bind_some]

/-! ## Classes whose name leads to them -/

/-- The methods of a class whose name leads to it are listed by it alone. -/
theorem overridesFrom_of_led {cls : SymbolDto} (hcls : cls ∈ fs.symbols)
    (hclass : cls.kind = .class_) {did : String} (hdid : cls.durableId = some did)
    (hled : LedToByName fs cls) {m : SymbolDto} (hm : DirectMethod fs cls m) {md : String}
    (hmd : m.durableId = some md) {e : Edge} :
    e ∈ OverridesFrom (build out) md ↔
      ∃ target, (ancestorMethods (build out) did).lookup m.name = some target ∧
        e = Builder.plainEdge md target .overrides := by
  have hname := hnamed.dottedName_top hcls hled.top
  have hfind := (find_top_iff h hfs hnamed hcls hled.top).mpr hled.found
  rw [hdid] at hfind
  have hcontainer := hm.2.2
  rw [hname] at hcontainer
  rw [mem_overridesFrom h hfs hnamed hm.1 hmd]
  constructor
  · rintro ⟨t, ht, htclass, hlisted, start, hstart, hrest⟩
    have hown := (mem_childMethods.mp hlisted).2.2
    rw [hcontainer] at hown
    have heq : t = cls := hled.only t ht htclass (Option.some.inj hown).symm
    rw [heq, hname, hfind] at hstart
    rw [← Option.some.inj hstart] at hrest
    exact hrest
  · intro hrest
    exact ⟨cls, hcls, hclass, mem_childMethods.mpr ⟨hm.1, hm.2.1, hcontainer⟩, did,
      by rw [hname, hfind], hrest⟩

/-- The override edges of a class whose name leads to it are exact. -/
theorem overridesExact_of_led {cls : SymbolDto} (hcls : cls ∈ fs.symbols)
    (hclass : cls.kind = .class_) {did : String} (hdid : cls.durableId = some did)
    (hled : LedToByName fs cls) : OverridesExact out fs cls did where
  ends := ends_ancestorMethods
  one := fun m md hm hmd hinherited => by
    obtain ⟨hnearest, hnone⟩ := ancestorMethods_spec (build out) did m.name
    cases hlookup : (ancestorMethods (build out) did).lookup m.name with
    | none =>
      obtain ⟨other, hother⟩ := exists_nearest hinherited
      exact absurd hother (hnone hlookup other)
    | some target =>
      refine ⟨target, hnearest target hlookup, ?_⟩
      ext e
      rw [overridesFrom_of_led h hfs hnamed hcls hclass hdid hled hm hmd, hlookup]
      simp only [Option.some.injEq, exists_eq_left', Set.mem_singleton_iff]
  none := fun m md hm hmd hnot => by
    rw [Set.eq_empty_iff_forall_notMem]
    intro e he
    rw [overridesFrom_of_led h hfs hnamed hcls hclass hdid hled hm hmd] at he
    obtain ⟨target, hlookup, -⟩ := he
    have hnearest := (ancestorMethods_spec (build out) did m.name).1 target hlookup
    exact hnot (inherited_of_nearest hnearest)

end FullBuild

/-! ## A project with one supertype -/

/-- One class has one supertype, which is called by a name of the same
file. -/
def onlySupertype (fs : FileSymbols) (u : SymbolDto) (n : String) :
    String → Position → Option (List Supertype) := fun native position =>
  if native = fs.nativePath ∧ position = Builder.nameStart u then some [⟨n, fs.nativePath⟩]
  else none

theorem mem_onlySupertype {fs : FileSymbols} {u : SymbolDto} {n native : String}
    {position : Position} {supertype : Supertype} :
    supertype ∈ (onlySupertype fs u n native position).getD [] ↔
      native = fs.nativePath ∧ position = Builder.nameStart u ∧ supertype = ⟨n, fs.nativePath⟩ := by
  unfold onlySupertype
  split
  · rename_i hplace
    rw [Option.getD_some, List.mem_singleton, and_iff_right hplace.1, and_iff_right hplace.2]
  · rename_i hplace
    refine iff_of_false List.not_mem_nil ?_
    exact fun hall => hplace ⟨hall.1, hall.2.1⟩

theorem graphPath_eq_of_listed {out : Outputs} {file native : String}
    (hlisted : (file, native) ∈ projectListing out) : file = toGraphPath out.root native := by
  obtain ⟨path, -, hpath⟩ := List.mem_map.mp (List.mem_filter.mp hlisted).1
  obtain ⟨hfile, hnative⟩ := Prod.mk.inj hpath
  rw [← hfile, hnative]

/-- A native path belongs to one file. -/
theorem eq_of_nativePath {out : Outputs} (h : WellFormed out) {fs g : FileSymbols}
    (hfs : fs ∈ filesOf out) (hg : g ∈ filesOf out) (hnative : g.nativePath = fs.nativePath) :
    g = fs := by
  have hpath := graphPath_eq_of_listed (mem_collectSymbols.mp hfs).1
  have hpath' := graphPath_eq_of_listed (mem_collectSymbols.mp hg).1
  rw [hnative, ← hpath] at hpath'
  exact h.separate.paths g hg fs hfs hpath'

section OnlySupertype

variable {out : Outputs} {fs : FileSymbols} (hfs : fs ∈ filesOf out) {u : SymbolDto}
  {n node : String} (hfind : (world out).findSymbolInFile fs.graphPath n = some node)
include hfs hfind

/-- The supertype is a node of the file, without a stub. -/
theorem supertypeParts_only (supertypes : String → Position → Option (List Supertype))
    (did : String) :
    supertypeParts (world out) { out with supertypes := supertypes } did ⟨n, fs.nativePath⟩ =
      [⟨none, some (Builder.plainEdge did node .inherits)⟩] := by
  have hnormal := normalizeTarget_world hfs
    (graphPath_eq_of_listed (mem_collectSymbols.mp hfs).1)
  unfold supertypeParts supertypeOf
  simp only [hnormal, hfind]

theorem wellFormed_only (h : WellFormed out) :
    WellFormed { out with supertypes := onlySupertype fs u n } := by
  refine ⟨h.paths, h.external, h.owners, h.shapes, h.qualified, fun g hg => ?_⟩
  refine ⟨(h.stubs g hg).1, fun part hpart id stub hstub => ?_⟩
  obtain ⟨s, -, hparts⟩ := List.mem_flatMap.mp hpart
  unfold inheritParts at hparts
  split at hparts
  swap
  · exact absurd hparts List.not_mem_nil
  split at hparts
  swap
  · exact absurd hparts List.not_mem_nil
  rename_i did supertypes _ hsupertypes
  obtain ⟨supertype, hin, hpart⟩ := List.mem_flatMap.mp hparts
  have hsome : onlySupertype fs u n g.nativePath (Builder.nameStart s) = some supertypes :=
    hsupertypes
  have hmem : supertype ∈ (onlySupertype fs u n g.nativePath (Builder.nameStart s)).getD [] := by
    rw [hsome]
    exact hin
  have hone := supertypeParts_only hfs hfind (onlySupertype fs u n) did
  rw [(mem_onlySupertype.mp hmem).2.2] at hpart
  have hpart' : part ∈ [(⟨none, some (Builder.plainEdge did node .inherits)⟩ : LayerPart)] :=
    hone ▸ hpart
  rw [List.mem_singleton.mp hpart'] at hstub
  cases hstub

/-- The class inherits from the node of the name, and no other class from
any. -/
theorem inherits_only_iff (h : WellFormed out) (hnamed : WellNamed fs) (hu : u ∈ fs.symbols)
    (huclass : u.kind = .class_) {a b : String} :
    Inherits (build { out with supertypes := onlySupertype fs u n }) a b ↔
      u.durableId = some a ∧ b = node := by
  have hout := wellFormed_only (u := u) hfs hfind h
  rw [inherits_build_iff hout]
  constructor
  · rintro ⟨g, hg, e, he, hsource, htarget⟩
    obtain ⟨s, hs, hclass, did, hdid, supertype, hin, hedge⟩ := mem_inheritsOf.mp he
    obtain ⟨hnative, hposition, hsupertype⟩ := mem_onlySupertype.mp hin
    rw [eq_of_nativePath h hfs hg hnative] at hs
    have hsame : s = u := hnamed.positions s hs u hu hclass huclass hposition
    have hone := supertypeParts_only hfs hfind (onlySupertype fs u n) did
    rw [hsupertype] at hedge
    have hedge' : e ∈ edgesOf [⟨none, some (Builder.plainEdge did node .inherits)⟩] := hone ▸ hedge
    have heq : e = Builder.plainEdge did node .inherits := List.mem_singleton.mp hedge'
    rw [heq] at hsource htarget
    have ha : did = a := hsource
    exact ⟨by rw [← hsame, hdid, ha], htarget.symm⟩
  · rintro ⟨hdid, hnode⟩
    have hedge : Builder.plainEdge a node .inherits ∈ edgesOf
        (inheritsOf (world out) { out with supertypes := onlySupertype fs u n } fs) := by
      refine mem_inheritsOf.mpr ⟨u, hu, huclass, a, hdid, ⟨n, fs.nativePath⟩,
        mem_onlySupertype.mpr ⟨rfl, rfl, rfl⟩, ?_⟩
      rw [supertypeParts_only hfs hfind]
      exact List.mem_singleton_self _
    exact ⟨fs, hfs, _, hedge, rfl, hnode.symm⟩

end OnlySupertype

/-! ## Other classes -/

section Other

variable {out : Outputs} (h : WellFormed out) {fs : FileSymbols} (hfs : fs ∈ filesOf out)
  (hnamed : WellNamed fs) {cls : SymbolDto} (hcls : cls ∈ fs.symbols)
  (hclass : cls.kind = .class_) {did : String} (hdid : cls.durableId = some did)
include h hfs hnamed hcls hclass hdid

omit hclass in
/-- Another symbol of the name is nested, and its dotted name leads to its own
node. -/
theorem find_of_namesake {t : SymbolDto} (ht : t ∈ fs.symbols) (hne : t ≠ cls)
    (hname : t.name = dottedName cls) : ∃ start, t.durableId = some start ∧ start ≠ did ∧
      (world out).findSymbolInFile fs.graphPath (dottedName t) = some start := by
  have hnested : t.containerName ≠ none := by
    intro htop
    have hdotted := hnamed.dottedName_top ht htop
    exact hne (hnamed.eq_of_name ht hcls (hdotted.trans hname))
  obtain ⟨start, hstart, -⟩ := hnamed.ids t ht
  refine ⟨start, hstart, ?_, ?_⟩
  · intro hsame
    exact hne (hnamed.eq_of_id ht hcls (by rw [hstart, hsame, hdid]))
  · rw [find_nested h hfs hnamed ht hnested, hstart]

omit hclass in
/-- When the name of a class leads to the class and a nested class has the
same simple name, the edges are wrong once the nested class inherits. -/
theorem not_exact_of_namesake {m : SymbolDto} (hm : DirectMethod fs cls m)
    (hfind : (world out).findSymbolInFile fs.graphPath (dottedName cls) = some did)
    {t : SymbolDto} (ht : t ∈ fs.symbols) (htclass : t.kind = .class_) (hne : t ≠ cls)
    (hname : t.name = dottedName cls) :
    ¬ OverridesExact { out with supertypes := onlySupertype fs t (dottedName cls) } fs cls did := by
  intro hexact
  have hout := wellFormed_only (u := t) hfs hfind h
  obtain ⟨md, hmd, -⟩ := hnamed.ids m hm.1
  obtain ⟨start, hstart, hother, hfindt⟩ := find_of_namesake h hfs hnamed hcls hdid ht hne hname
  have hhas := hasMethod_of_container hout hfs hnamed hm.1 hm.2.1 hmd hm.2.2 hfind
  -- the class has no ancestors, so its methods should have no edges
  have hnone : ¬ Inherited (build { out with
      supertypes := onlySupertype fs t (dottedName cls) }) did m.name := by
    rintro ⟨k, ancestor, m', hwalk, -⟩
    obtain ⟨parent, hparent⟩ := exists_inherits_of_ascends hwalk
    have hsource := ((inherits_only_iff hfs hfind h hnamed ht htclass).mp hparent).1
    rw [hstart] at hsource
    exact hother (Option.some.inj hsource)
  have hempty := hexact.none m md hm hmd hnone
  -- but the nested class lists them, and finds them in the class
  have hinherits := (inherits_only_iff hfs hfind h hnamed ht htclass).mpr ⟨hstart, rfl⟩
  have hinherited : Inherited (build { out with
      supertypes := onlySupertype fs t (dottedName cls) }) start m.name :=
    inherited_of_parent hinherits hhas
  obtain ⟨other, hnearest⟩ := exists_nearest hinherited
  cases hlookup : (ancestorMethods (build { out with
      supertypes := onlySupertype fs t (dottedName cls) }) start).lookup m.name with
  | none => exact (ancestorMethods_spec _ start m.name).2 hlookup other hnearest
  | some target =>
    have hedge := (mem_overridesFrom hout hfs hnamed hm.1 hmd).mpr ⟨t, ht, htclass,
      mem_childMethods.mpr ⟨hm.1, hm.2.1, hname ▸ hm.2.2⟩, start, hfindt, target, hlookup, rfl⟩
    rw [hempty] at hedge
    exact hedge

/-- When no class lists the methods of a class from its node, the edges are
wrong once the class inherits from where its dotted name leads. -/
theorem not_exact_of_unlisted {m : SymbolDto} (hm : DirectMethod fs cls m) {node : String}
    (hfind : (world out).findSymbolInFile fs.graphPath (dottedName cls) = some node)
    (hunlisted : ∀ t ∈ fs.symbols, t.kind = .class_ → t.name = dottedName cls →
      (world out).findSymbolInFile fs.graphPath (dottedName t) ≠ some did) :
    ¬ OverridesExact { out with supertypes := onlySupertype fs cls (dottedName cls) } fs cls
      did := by
  intro hexact
  have hout := wellFormed_only (u := cls) hfs hfind h
  obtain ⟨md, hmd, -⟩ := hnamed.ids m hm.1
  have hhas := hasMethod_of_container hout hfs hnamed hm.1 hm.2.1 hmd hm.2.2 hfind
  have hinherits := (inherits_only_iff hfs hfind h hnamed hcls hclass).mpr ⟨hdid, rfl⟩
  obtain ⟨target, -, hone⟩ := hexact.one m md hm hmd (inherited_of_parent hinherits hhas)
  have hedge : Builder.plainEdge md target .overrides ∈ OverridesFrom (build { out with
      supertypes := onlySupertype fs cls (dottedName cls) }) md := by
    rw [hone]
    exact Set.mem_singleton _
  obtain ⟨t, ht, htclass, hlisted, start, hstart, target', hlookup, -⟩ :=
    (mem_overridesFrom hout hfs hnamed hm.1 hmd).mp hedge
  have hname := (mem_childMethods.mp hlisted).2.2
  rw [hm.2.2] at hname
  -- only the class itself has an ancestor
  obtain ⟨k, ancestor, hwalk, -⟩ := (ancestorMethods_spec _ start m.name).1 target' hlookup
  obtain ⟨parent, hparent⟩ := exists_inherits_of_ascends hwalk
  have hsource := ((inherits_only_iff hfs hfind h hnamed hcls hclass).mp hparent).1
  rw [hdid] at hsource
  rw [← Option.some.inj hsource] at hstart
  exact hunlisted t ht htclass (Option.some.inj hname).symm hstart

/-- Whatever the supertypes, the override edges of a class are exact, if and
only if it has no methods or its name leads to it. -/
theorem overridesExact_iff :
    (∀ supertypes, WellFormed { out with supertypes := supertypes } →
      OverridesExact { out with supertypes := supertypes } fs cls did) ↔
    (∀ m, ¬ DirectMethod fs cls m) ∨ LedToByName fs cls := by
  constructor
  · intro hexact
    by_contra hnot
    obtain ⟨hmethods, hled⟩ := not_or.mp hnot
    obtain ⟨m, hm⟩ := not_forall_not.mp hmethods
    have hn : dottedName cls ≠ moduleQualifiedName := h.qualified fs hfs cls hcls
    by_cases htop : cls.containerName = none
    · have hname := hnamed.dottedName_top hcls htop
      obtain ⟨node, hnode⟩ := exists_ledTo hnamed hcls rfl
      rw [← find_world h hfs hnamed hn] at hnode
      by_cases hfound : (world out).findSymbolInFile fs.graphPath cls.name = cls.durableId
      · have hthird : ∃ t ∈ fs.symbols, t.kind = .class_ ∧ t.name = cls.name ∧ t ≠ cls := by
          by_contra hnone
          refine hled ⟨htop, fun t ht htclass hsame => ?_,
            (find_top_iff h hfs hnamed hcls htop).mp hfound⟩
          by_contra hne
          exact hnone ⟨t, ht, htclass, hsame, hne⟩
        obtain ⟨t, ht, htclass, hsame, hne⟩ := hthird
        rw [hdid, ← hname] at hfound
        exact not_exact_of_namesake h hfs hnamed hcls hdid hm hfound ht htclass hne
          (hsame.trans hname.symm) (hexact _ (wellFormed_only hfs hfound h))
      · refine not_exact_of_unlisted h hfs hnamed hcls hclass hdid hm hnode ?_
          (hexact _ (wellFormed_only hfs hnode h))
        intro t ht htclass hsame hstart
        by_cases heq : t = cls
        · rw [heq, hname] at hstart
          exact hfound (hstart.trans hdid.symm)
        · obtain ⟨start, -, hother, hfind⟩ := find_of_namesake h hfs hnamed hcls hdid ht heq hsame
          rw [hfind] at hstart
          exact hother (Option.some.inj hstart)
    · have hfind := find_nested h hfs hnamed hcls htop
      rw [hdid] at hfind
      refine not_exact_of_unlisted h hfs hnamed hcls hclass hdid hm hfind ?_
        (hexact _ (wellFormed_only hfs hfind h))
      intro t ht _ hsame
      exact absurd hsame (hnamed.name_ne_of_nested hcls htop ht)
  · rintro (hmethods | hled) supertypes hout
    · exact ⟨ends_ancestorMethods, fun m _ hm => absurd hm (hmethods m),
        fun m _ hm => absurd hm (hmethods m)⟩
    · exact overridesExact_of_led hout hfs hnamed hcls hclass hdid hled

end Other

/-! ## One module -/

/-- A class at a line. -/
def classSymbol (name : String) (container : Option String) (line : ℕ) (did : String) :
    SymbolDto :=
  ⟨name, container.map fun c => c ++ "." ++ name, .class_, ⟨⟨line, 1⟩, ⟨line + 2, 9⟩⟩,
    some ⟨⟨line, 7⟩, ⟨line, 12⟩⟩, container, some did, none, ∅⟩

/-- A method at a line. -/
def methodSymbol (name container : String) (line : ℕ) (did : String) : SymbolDto :=
  ⟨name, some (container ++ "." ++ name), .method, ⟨⟨line, 5⟩, ⟨line, 20⟩⟩,
    some ⟨⟨line, 9⟩, ⟨line, 10⟩⟩, some container, some did, none, ∅⟩

/-- A class, two classes below it, one of them nested, and a method that all
three have. -/
def nestedOverride : FileSymbols where
  graphPath := "a.py"
  nativePath := "/p/a.py"
  symbols :=
    [classSymbol "Base" none 1 "e1", methodSymbol "m" "Base" 2 "e2",
      classSymbol "Outer" none 4 "e3", classSymbol "Inner" (some "Outer") 5 "e4",
      methodSymbol "m" "Outer.Inner" 6 "e5", classSymbol "Below" none 8 "e6",
      methodSymbol "m" "Below" 9 "e7"]

/-- The project with this module. The nested class and the last one inherit
from the first. -/
def nestedProject : Outputs where
  root := "/p"
  files := ["/p/a.py"]
  symbols native := if native = "/p/a.py" then some nestedOverride.symbols else none
  occurrences _ := some []
  gotoDefinition _ _ := none
  supertypes _ position :=
    if position = ⟨5, 7⟩ ∨ position = ⟨8, 7⟩ then some [⟨"Base", "/p/a.py"⟩] else some []

theorem wellFormed_nestedProject : WellFormed nestedProject := by
  have hstubs : ∀ fs ∈ filesOf nestedProject,
      (∀ part ∈ referenceParts (world nestedProject) nestedProject fs,
        ∀ request ∈ part.stub, isModuleId request.1 = false) ∧
      ∀ part ∈ inheritsOf (world nestedProject) nestedProject fs,
        ∀ request ∈ part.stub, isModuleId request.1 = false := by decide +kernel
  refine ⟨by decide +kernel, by decide +kernel, by decide +kernel, by decide +kernel,
    by decide +kernel, fun fs hfs => ?_⟩
  have hboth := hstubs fs hfs
  exact ⟨fun part hpart id node hstub => hboth.1 part hpart (id, node) hstub,
    fun part hpart id node hstub => hboth.2 part hpart (id, node) hstub⟩

theorem wellNamed_nestedOverride : WellNamed nestedOverride := by
  have hids : ∀ s ∈ nestedOverride.symbols, s.durableId ≠ none ∧ s.durableId ≠ some "" := by
    decide +kernel
  refine ⟨fun s hs => ?_, by decide +kernel, by decide +kernel, by decide +kernel,
    by decide +kernel, by decide +kernel⟩
  obtain ⟨did, hdid⟩ := Option.ne_none_iff_exists'.mp (hids s hs).1
  exact ⟨did, hdid, fun hempty => (hids s hs).2 (hempty ▸ hdid)⟩

theorem nestedOverride_mem : nestedOverride ∈ filesOf nestedProject := by
  rw [filesOf, mem_collectSymbols]
  exact ⟨by decide +kernel, by rfl⟩

/-- At the top level the override is found. -/
theorem below_overrides :
    (∀ supertypes, WellFormed { nestedProject with supertypes := supertypes } →
      OverridesExact { nestedProject with supertypes := supertypes } nestedOverride
        (classSymbol "Below" none 8 "e6") "e6") ∧
    Builder.plainEdge "e7" "e2" .overrides ∈ (build nestedProject).edges := by
  refine ⟨(overridesExact_iff wellFormed_nestedProject nestedOverride_mem wellNamed_nestedOverride
    (by decide +kernel) rfl rfl).mpr (.inr ⟨rfl, by decide +kernel, .inl (by decide +kernel)⟩), ?_⟩
  decide +kernel

/-- The nested class inherits the method, and the override edge is missing. -/
theorem inner_overrides_nothing :
    (WellFormed nestedProject ∧ nestedOverride ∈ filesOf nestedProject ∧
      WellNamed nestedOverride) ∧
    (DirectMethod nestedOverride (classSymbol "Inner" (some "Outer") 5 "e4")
        (methodSymbol "m" "Outer.Inner" 6 "e5") ∧
      Inherited (build nestedProject) "e4" "m" ∧
      OverridesFrom (build nestedProject) "e5" = ∅) ∧
    ¬ OverridesExact nestedProject nestedOverride (classSymbol "Inner" (some "Outer") 5 "e4")
      "e4" := by
  have hmethod : DirectMethod nestedOverride (classSymbol "Inner" (some "Outer") 5 "e4")
      (methodSymbol "m" "Outer.Inner" 6 "e5") := ⟨by decide +kernel, .inl rfl, rfl⟩
  have hnone : ∀ e ∈ (build nestedProject).edges, e.kind = .overrides → e.source ≠ "e5" := by
    decide +kernel
  have hempty := overridesFrom_eq_empty hnone
  have hnode : (build nestedProject).nodes.lookup "e2" =
      some (Builder.symbolNode "a.py" (methodSymbol "m" "Base" 2 "e2")) := by decide +kernel
  have hinherited : Inherited (build nestedProject) "e4" "m" :=
    inherited_of_parent (inherits_of_mem (by decide +kernel))
      (@hasMethod_of_mem _ "e1" _ _ (by decide +kernel) hnode rfl)
  refine ⟨⟨wellFormed_nestedProject, nestedOverride_mem, wellNamed_nestedOverride⟩,
    ⟨hmethod, hinherited, hempty⟩, fun hexact => ?_⟩
  obtain ⟨target, -, hone⟩ := hexact.one _ "e5" hmethod rfl hinherited
  rw [hempty] at hone
  exact Set.singleton_ne_empty _ hone.symm

end Tyo3.OverrideEdges
