import Mathlib.Data.List.Find
import Tyo3.CodeLayerFiles
import Tyo3.DocumentSymbols

/-!
# Looking up a symbol of a file by its name

A symbol is entered into the name table of its file under its own name and
under its dotted name, and a second symbol makes an entry ambiguous. So a name
leads to the only symbol that is called so. Among several it leads to the
module when the file is called so, and else to the first in document order.
-/

namespace Tyo3.SymbolNames

open CodeLayer CodeLayerBuilder CodeLayerFiles DocumentSymbols Entities FiniteMaps

/-! ## Names of symbols -/

/-- The dotted name of a symbol, its own name at the top level. -/
def dottedName (s : SymbolDto) : String := s.qualifiedName.getD s.name

/-- The symbols that a name may stand for. -/
def calledBy (symbols : List SymbolDto) (n : String) : List SymbolDto :=
  symbols.filter fun s => s.name = n ∨ dottedName s = n

/-- What the engine and the registry promise about the symbols of a file. -/
structure WellNamed (fs : FileSymbols) : Prop where
  /-- Every symbol has a durable id. -/
  ids : ∀ s ∈ fs.symbols, ∃ did, s.durableId = some did ∧ did ≠ ""
  /-- No two symbols share an id. -/
  distinctIds : (fs.symbols.map SymbolDto.durableId).Nodup
  /-- No two symbols share a dotted name. -/
  distinctNames : (fs.symbols.map dottedName).Nodup
  /-- Names are identifiers. -/
  identifiers : ∀ s ∈ fs.symbols, '.' ∉ s.name.toList
  /-- The dotted name extends that of the container. -/
  collected : ∀ s ∈ fs.symbols, s.qualifiedName = s.containerName.map fun c => c ++ "." ++ s.name
  /-- No two classes have their names at one place. -/
  positions : ∀ s ∈ fs.symbols, ∀ s' ∈ fs.symbols, s.kind = .class_ → s'.kind = .class_ →
    Builder.nameStart s = Builder.nameStart s' → s = s'

mutual

/-- The walk over a document extends the dotted name of the container. -/
theorem collected_tree {ctx : SymbolWalkCtx} {parentName path : Option String} :
    ∀ {tree : SymbolTree}, ∀ s ∈ collectSymbolsRecursive ctx parentName path tree,
      s.qualifiedName = s.containerName.map fun c => c ++ "." ++ s.name
  | .node info children => by
    intro s hs
    unfold collectSymbolsRecursive at hs
    rcases List.mem_cons.mp hs with hroot | hbelow
    · rw [hroot]
    · exact collected_forest s hbelow

theorem collected_forest {ctx : SymbolWalkCtx} {parentName path : Option String} :
    ∀ {trees : List SymbolTree}, ∀ s ∈ collectSymbolsForest ctx parentName path trees,
      s.qualifiedName = s.containerName.map fun c => c ++ "." ++ s.name
  | [] => by
    intro s hs
    rw [collectSymbolsForest] at hs
    exact absurd hs List.not_mem_nil
  | tree :: trees => by
    intro s hs
    rw [collectSymbolsForest] at hs
    rcases List.mem_append.mp hs with htree | hrest
    · exact collected_tree s htree
    · exact collected_forest s hrest

end

section Named

variable {fs : FileSymbols} (h : WellNamed fs)
include h

theorem WellNamed.eq_of_id {s s' : SymbolDto} (hs : s ∈ fs.symbols) (hs' : s' ∈ fs.symbols)
    (hsame : s.durableId = s'.durableId) : s = s' :=
  List.inj_on_of_nodup_map h.distinctIds hs hs' hsame

theorem WellNamed.eq_of_name {s s' : SymbolDto} (hs : s ∈ fs.symbols) (hs' : s' ∈ fs.symbols)
    (hsame : dottedName s = dottedName s') : s = s' :=
  List.inj_on_of_nodup_map h.distinctNames hs hs' hsame

/-- At the top level the dotted name is the name. -/
theorem WellNamed.dottedName_top {s : SymbolDto} (hs : s ∈ fs.symbols)
    (htop : s.containerName = none) : dottedName s = s.name := by
  unfold dottedName
  rw [h.collected s hs, htop]
  rfl

/-- Below a container the dotted name has a dot. -/
theorem WellNamed.dot_mem_of_nested {s : SymbolDto} (hs : s ∈ fs.symbols)
    (hnested : s.containerName ≠ none) : '.' ∈ (dottedName s).toList := by
  obtain ⟨container, hcontainer⟩ := Option.ne_none_iff_exists'.mp hnested
  unfold dottedName
  rw [h.collected s hs, hcontainer, Option.map_some, Option.getD_some, String.toList_append,
    String.toList_append]
  exact List.mem_append_left _ (List.mem_append_right _ List.mem_cons_self)

/-- No symbol has the dotted name of a nested one as its own name. -/
theorem WellNamed.name_ne_of_nested {s t : SymbolDto} (hs : s ∈ fs.symbols)
    (hnested : s.containerName ≠ none) (ht : t ∈ fs.symbols) : t.name ≠ dottedName s := by
  intro hsame
  have hdot := h.dot_mem_of_nested hs hnested
  rw [← hsame] at hdot
  exact h.identifiers t ht hdot

/-- A symbol at the top level has only its name. -/
theorem name_of_dotted_top {s t : SymbolDto} (hs : s ∈ fs.symbols) (htop : s.containerName = none)
    (ht : t ∈ fs.symbols) (hsame : dottedName t = s.name) : t.name = s.name := by
  rw [← h.dottedName_top hs htop] at hsame ⊢
  rw [h.eq_of_name ht hs hsame, h.dottedName_top hs htop]

theorem calledBy_top {s : SymbolDto} (hs : s ∈ fs.symbols) (htop : s.containerName = none) :
    calledBy fs.symbols s.name = fs.symbols.filter fun t => t.name = s.name := by
  unfold calledBy
  apply List.filter_congr
  intro t ht
  rw [decide_eq_decide]
  exact or_iff_left_of_imp (name_of_dotted_top h hs htop ht)

/-- The list of the symbols of a name that only one symbol has. -/
theorem calledBy_eq_singleton {s : SymbolDto} (hs : s ∈ fs.symbols) {n : String}
    (honly : ∀ t ∈ fs.symbols, t.name = n ∨ dottedName t = n ↔ t = s) :
    calledBy fs.symbols n = [s] := by
  obtain ⟨before, after, hsplit⟩ := List.append_of_mem hs
  have hnodup : fs.symbols.Nodup := List.Nodup.of_map _ h.distinctIds
  rw [hsplit, List.nodup_middle, List.nodup_cons] at hnodup
  have hother : ∀ t ∈ before ++ after, ¬ (t.name = n ∨ dottedName t = n) := by
    intro t ht hcalled
    have hmem : t ∈ fs.symbols := by
      rw [hsplit]
      exact (List.perm_middle).symm.subset (List.mem_cons_of_mem s ht)
    exact hnodup.1 ((honly t hmem).mp hcalled ▸ ht)
  unfold calledBy
  rw [hsplit, List.filter_append, List.filter_cons_of_pos (by simpa using (honly s hs).mpr rfl)]
  have hbefore : before.filter (fun t => t.name = n ∨ dottedName t = n) = [] := by
    rw [List.filter_eq_nil_iff]
    intro t ht
    simpa using hother t (List.mem_append_left _ ht)
  have hafter : after.filter (fun t => t.name = n ∨ dottedName t = n) = [] := by
    rw [List.filter_eq_nil_iff]
    intro t ht
    simpa using hother t (List.mem_append_right _ ht)
  rw [hbefore, hafter, List.nil_append]

end Named

/-- What a name of a file leads to: the only symbol that is called so. Among
several it is the module when the file is called so, and else the first. -/
def ledTo (fs : FileSymbols) (n : String) : Option String :=
  match calledBy fs.symbols n with
  | [s] => s.durableId
  | called =>
    if fileStem fs.graphPath = n then some (makeModuleDurableId fs.graphPath)
    else called.head?.bind SymbolDto.durableId

theorem ledTo_of_one {fs : FileSymbols} {n : String} {s : SymbolDto}
    (h : calledBy fs.symbols n = [s]) : ledTo fs n = s.durableId := by
  unfold ledTo
  rw [h]

theorem ledTo_of_several {fs : FileSymbols} {n : String} (h : ∀ s, calledBy fs.symbols n ≠ [s]) :
    ledTo fs n =
      if fileStem fs.graphPath = n then some (makeModuleDurableId fs.graphPath)
      else (calledBy fs.symbols n).head?.bind SymbolDto.durableId := by
  unfold ledTo
  split
  · rename_i s hone
    exact absurd hone (h s)
  · rfl

/-- A name that some symbol is called by leads somewhere. -/
theorem exists_ledTo {fs : FileSymbols} (h : WellNamed fs) {s : SymbolDto} (hs : s ∈ fs.symbols)
    {n : String} (hn : dottedName s = n) : ∃ node, ledTo fs n = some node := by
  have hids : ∀ t ∈ calledBy fs.symbols n, ∃ did, t.durableId = some did := by
    intro t ht
    obtain ⟨did, hdid, -⟩ := h.ids t (List.mem_filter.mp ht).1
    exact ⟨did, hdid⟩
  have hin : s ∈ calledBy fs.symbols n := List.mem_filter.mpr ⟨hs, decide_eq_true (.inr hn)⟩
  unfold ledTo
  split
  · rename_i t hone
    exact hids t (hone ▸ List.mem_cons_self)
  · split
    · exact ⟨_, rfl⟩
    · have hhead := List.head?_eq_some_head (List.ne_nil_of_mem hin)
      rw [hhead, Option.bind_some]
      exact hids _ (List.head_mem _)

/-! ## The name table -/

/-- The entry of a name that stands for nodes. -/
def tableEntry : List String → Option String
  | [] => none
  | [did] => some did
  | _ :: _ :: _ => some ""

theorem registered_registered (existing : Option String) (did : String) :
    registered (some (registered existing did)) did = registered existing did := by
  have hagain : ∀ id, id = did ∨ id = "" → registered (some id) did = id := by
    intro id hid
    unfold registered
    by_cases hsame : id = did
    · rw [hsame]
      exact if_pos rfl
    · simp only [if_neg hsame]
      exact (hid.resolve_left hsame).symm
  exact hagain _ (registered_eq existing did)

/-- A further node makes the entry ambiguous. -/
theorem tableEntry_append {ids : List String} {did : String} (hdid : did ≠ "")
    (hnew : did ∉ ids) : tableEntry (ids ++ [did]) = some (registered (tableEntry ids) did) := by
  match ids with
  | [] => rfl
  | [id] =>
    have hne : id ≠ did := fun hsame => hnew (hsame ▸ List.mem_singleton_self id)
    simp only [List.singleton_append, tableEntry, registered, if_neg hne]
  | _ :: _ :: _ =>
    simp only [List.cons_append, tableEntry, registered, if_neg hdid.symm]

/-- The table after a symbol with a new id. -/
theorem lookup_withSymbol (b : Builder) (file : String) (s : SymbolDto) (did n : String) :
    (withSymbol b file s did).nameToId.lookup (file, n) =
      if s.name = n ∨ dottedName s = n then
        some (registered (b.nameToId.lookup (file, n)) did)
      else b.nameToId.lookup (file, n) := by
  have hpair : ∀ m m' : String, (file, m) = (file, m') ↔ m = m' := by
    intro m m'
    rw [Prod.mk.injEq, and_iff_right rfl]
  have hdotted : s.qualifiedName.getD s.name = dottedName s := rfl
  rw [withSymbol_names, hdotted, registerName_lookup, registerName_lookup, registerName_lookup]
  simp only [hpair]
  by_cases hname : n = s.name
  · rw [if_pos (Or.inl hname.symm), if_pos hname, ← hname]
    by_cases hqualified : n = dottedName s
    · rw [if_pos hqualified, ← hqualified, if_pos rfl, registered_registered]
    · rw [if_neg hqualified]
  · by_cases hqualified : n = dottedName s
    · rw [if_pos hqualified, if_pos (Or.inr hqualified.symm), ← hqualified, if_neg hname]
    · rw [if_neg hqualified, if_neg hname,
        if_neg (not_or.mpr ⟨fun hn => hname hn.symm, fun hn => hqualified hn.symm⟩)]

/-- A builder after the module node and some symbols of a file. -/
structure Entered (file : String) (done : List SymbolDto) (b : Builder) : Prop where
  /-- The ids in document order, the module first. -/
  lists : b.idsOf file = makeModuleDurableId file :: done.filterMap SymbolDto.durableId
  /-- The module node. -/
  module_ : b.layer.nodes.lookup (makeModuleDurableId file) = some (Builder.moduleNode file)
  /-- The nodes of the symbols. -/
  nodes : ∀ s ∈ done, ∀ did, s.durableId = some did →
    b.layer.nodes.lookup did = some (Builder.symbolNode file s)
  /-- No other nodes. -/
  others : ∀ did, b.layer.hasNode did = true →
    did = makeModuleDurableId file ∨ did ∈ done.filterMap SymbolDto.durableId
  /-- The name table. -/
  names : ∀ n, n ≠ moduleQualifiedName → b.nameToId.lookup (file, n) =
    tableEntry ((calledBy done n).filterMap SymbolDto.durableId)

theorem entered_module (file : String) : Entered file [] (withModule Builder.new file) where
  lists := withModule_idsOf_new file
  module_ := by rw [withModule_nodes, if_pos rfl]
  nodes := fun s hs => absurd hs List.not_mem_nil
  others := fun did hdid => by
    obtain ⟨node, hnode⟩ := hasNode_iff.mp hdid
    rw [withModule_nodes] at hnode
    split at hnode
    · rename_i heq
      exact .inl heq
    · cases hnode
  names := fun n hn => by
    rw [withModule_names, if_neg fun hkey => hn (congrArg Prod.snd hkey)]
    rfl

/-- One more symbol. -/
theorem Entered.symbol {file : String} {done : List SymbolDto} {b : Builder}
    (h : Entered file done b) {s : SymbolDto} {did : String} (hdid : s.durableId = some did)
    (hempty : did ≠ "") (hmodule : did ≠ makeModuleDurableId file)
    (hnew : did ∉ done.filterMap SymbolDto.durableId) :
    Entered file (done ++ [s]) (Builder.materializeSymbol file b s) := by
  have habsent : ¬ b.layer.hasNode did = true := fun hhas => (h.others did hhas).elim hmodule hnew
  have hstep : Builder.materializeSymbol file b s = withSymbol b file s did := by
    rw [materializeSymbol_eq, hdid]
    simp only [if_neg habsent]
  have hids : (done ++ [s]).filterMap SymbolDto.durableId =
      done.filterMap SymbolDto.durableId ++ [did] := by
    rw [List.filterMap_append, List.filterMap_cons_some hdid, List.filterMap_nil]
  rw [hstep]
  refine ⟨?_, ?_, fun t ht did' hdid' => ?_, fun did' hhas => ?_, fun n hn => ?_⟩
  · rw [withSymbol_idsOf, h.lists, hids, List.cons_append]
  · rw [withSymbol_nodes, if_neg hmodule.symm, h.module_]
  · rw [withSymbol_nodes]
    rcases List.mem_append.mp ht with hold | hlast
    · rw [if_neg, h.nodes t hold did' hdid']
      intro hsame
      exact hnew (hsame ▸ List.mem_filterMap.mpr ⟨t, hold, hdid'⟩)
    · rw [List.mem_singleton.mp hlast] at hdid' ⊢
      rw [if_pos (Option.some.inj (hdid'.symm.trans hdid))]
  · rw [hids]
    obtain ⟨node, hnode⟩ := hasNode_iff.mp hhas
    rw [withSymbol_nodes] at hnode
    split at hnode
    · rename_i heq
      exact .inr (List.mem_append_right _ (heq ▸ List.mem_singleton_self did'))
    · exact (h.others did' (hasNode_iff.mpr ⟨node, hnode⟩)).imp_right (List.mem_append_left _)
  · have hcalled : did ∉ (calledBy done n).filterMap SymbolDto.durableId := by
      intro hin
      obtain ⟨t, ht, htid⟩ := List.mem_filterMap.mp hin
      exact hnew (List.mem_filterMap.mpr ⟨t, (List.mem_filter.mp ht).1, htid⟩)
    rw [lookup_withSymbol, h.names n hn]
    unfold calledBy at hcalled ⊢
    rw [List.filter_append]
    by_cases hc : s.name = n ∨ dottedName s = n
    · rw [if_pos hc, List.filter_cons_of_pos (by simpa using hc), List.filter_nil,
        List.filterMap_append, List.filterMap_cons_some hdid, List.filterMap_nil,
        tableEntry_append hempty hcalled]
    · rw [if_neg hc, List.filter_cons_of_neg (by simpa using hc), List.filter_nil,
        List.append_nil]

/-- The node of an id has a name, or has it as its dotted name. -/
def answersTo (b : Builder) (n did : String) : Bool :=
  match b.layer.nodes.lookup did with
  | some node => decide (node.name = n ∨ node.qualifiedName = n)
  | none => false

section Solo

variable {fs : FileSymbols} (h : WellNamed fs)
  (hshapes : ∀ did ∈ durableIds fs, isModuleId did = false)
include h hshapes

/-- A file alone has all its symbols entered. -/
theorem entered_solo : Entered fs.graphPath fs.symbols (solo fs) := by
  have hfold : ∀ (todo done : List SymbolDto) (b : Builder), done ++ todo = fs.symbols →
      Entered fs.graphPath done b →
      Entered fs.graphPath fs.symbols (todo.foldl (Builder.materializeSymbol fs.graphPath) b) := by
    intro todo
    induction todo with
    | nil =>
      intro done b hall hb
      rw [List.append_nil] at hall
      exact hall ▸ hb
    | cons s todo ih =>
      intro done b hall hb
      have hs : s ∈ fs.symbols := hall ▸ List.mem_append_right _ List.mem_cons_self
      obtain ⟨did, hdid, hempty⟩ := h.ids s hs
      have hmodule : did ≠ makeModuleDurableId fs.graphPath := by
        intro hsame
        have hshape := hshapes did (List.mem_filterMap.mpr ⟨s, hs, hdid⟩)
        rw [hsame, isModuleId_makeModuleDurableId] at hshape
        cases hshape
      have hnew : did ∉ done.filterMap SymbolDto.durableId := by
        intro hin
        obtain ⟨t, ht, htid⟩ := List.mem_filterMap.mp hin
        have hnodup := h.distinctIds
        rw [← hall, List.map_append, List.map_cons, List.nodup_append] at hnodup
        exact hnodup.2.2 _ (List.mem_map_of_mem ht) _ List.mem_cons_self (htid.trans hdid.symm)
      refine ih (done ++ [s]) _ ?_ (hb.symbol hdid hempty hmodule hnew)
      rw [List.append_assoc, List.singleton_append, hall]
  exact hfold fs.symbols [] _ rfl (entered_module fs.graphPath)

/-- The node of a symbol. -/
theorem lookup_solo {s : SymbolDto} (hs : s ∈ fs.symbols) {did : String}
    (hdid : s.durableId = some did) :
    (solo fs).layer.nodes.lookup did = some (Builder.symbolNode fs.graphPath s) :=
  (entered_solo h hshapes).nodes s hs did hdid

/-- The ordered scan finds the module when the file is called so, and else
the first symbol. -/
theorem scan_solo {n : String} (hn : n ≠ moduleQualifiedName) :
    Builder.findSymbolInFile.scan (solo fs) fs.graphPath n =
      if fileStem fs.graphPath = n then some (makeModuleDurableId fs.graphPath)
      else (calledBy fs.symbols n).head?.bind SymbolDto.durableId := by
  have hentered := entered_solo h hshapes
  have hscan : Builder.findSymbolInFile.scan (solo fs) fs.graphPath n =
      ((solo fs).idsOf fs.graphPath).find? (answersTo (solo fs) n) := rfl
  have hmodule : answersTo (solo fs) n (makeModuleDurableId fs.graphPath) =
      decide (fileStem fs.graphPath = n) := by
    have hqualified : (Builder.moduleNode fs.graphPath).qualifiedName ≠ n := hn.symm
    have hname : (Builder.moduleNode fs.graphPath).name = fileStem fs.graphPath := rfl
    unfold answersTo
    rw [hentered.module_]
    simp only [hqualified, hname, or_false]
  have hcalled : ∀ s ∈ fs.symbols, s.durableId.any (answersTo (solo fs) n) =
      decide (s.name = n ∨ dottedName s = n) := by
    intro s hs
    obtain ⟨did, hdid, -⟩ := h.ids s hs
    unfold answersTo
    rw [hdid, Option.any_some, hentered.nodes s hs did hdid]
    rfl
  unfold calledBy
  rw [hscan, hentered.lists, List.find?_cons, hmodule, List.find?_filterMap, List.head?_filter,
    List.find?_congr hcalled]
  by_cases hstem : fileStem fs.graphPath = n
  · simp only [hstem, decide_true, if_true]
  · simp only [hstem, decide_false, if_false]

/-- Looking up a name in a file alone. -/
theorem find_solo {n : String} (hn : n ≠ moduleQualifiedName) :
    (solo fs).findSymbolInFile fs.graphPath n = ledTo fs n := by
  have hentry := (entered_solo h hshapes).names n hn
  have hscan := scan_solo h hshapes hn
  have hids : ∀ s ∈ calledBy fs.symbols n, ∃ did, s.durableId = some did ∧ did ≠ "" :=
    fun s hs => h.ids s (List.mem_filter.mp hs).1
  unfold Builder.findSymbolInFile ledTo
  rw [hentry, hscan]
  match hcalled : calledBy fs.symbols n with
  | [] => rfl
  | [s] =>
    obtain ⟨did, hdid, hempty⟩ := hids s (by rw [hcalled]; exact List.mem_cons_self)
    rw [List.filterMap_cons_some hdid, List.filterMap_nil]
    exact (if_pos hempty).trans hdid.symm
  | s :: t :: rest =>
    obtain ⟨did, hdid, -⟩ := hids s (by rw [hcalled]; exact List.mem_cons_self)
    obtain ⟨did', hdid', -⟩ := hids t
      (by rw [hcalled]; exact List.mem_cons_of_mem _ List.mem_cons_self)
    rw [List.filterMap_cons_some hdid, List.filterMap_cons_some hdid']
    rfl

end Solo

end Tyo3.SymbolNames
