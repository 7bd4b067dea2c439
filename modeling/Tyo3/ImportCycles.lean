import Tyo3.CycleSearches
import Tyo3.TextSearch
import Tyo3.TransitiveQueries

/-!
# Import cycles

The imports between symbols are gathered into a graph of modules. Cycles are
cut out of a depth-first search over that graph, in any order of the modules
that a module imports. The groups of mutually dependent modules are the strongly
connected components that the graph library finds. When the search has a
result, every cycle is a simple one, every group has a cycle inside, and there
are cycles exactly when there are groups. The search calls itself for every
module of its path, so the recursion limit decides how long a path may be.
-/

namespace Tyo3.ImportCycles

open CodeGraphs CycleSearches FiniteMaps ParallelEdges Runs TextSearch

open CodeLayer (moduleQualifiedName)

open TransitiveQueries (Indexed Operation firstEdges firstEdges_documented indexed_new run_keeps
  smallEdge)

/-- File of an id: the rest of a module id, or the start of a compound one. -/
def fileFromDurableId (durableId : String) : String :=
  match stripPrefix moduleQualifiedName durableId with
  | some file => file
  | none => ((splitOnce "::" durableId).map Prod.fst).getD durableId

/-! ## The graph of modules -/

/-- A graph of modules. -/
structure ModuleGraph where
  /-- Ids of the modules by their number. -/
  nodes : List String
  /-- An edge for each import. -/
  edges : List (Arc ℕ Unit)

/-- Ids of the modules of a graph. -/
def moduleIds (g : CodeGraph) : List String :=
  (g.nodes.filter fun node => node.kind = .module_).map SymbolNode.durableId

/-- Numbers of the modules. -/
def didToMidx (modules : List String) : FMap String ℕ :=
  modules.zipIdx.foldl (fun index p => index.insert p.1 p.2) ∅

/-- The module of every node of a file. When two modules have one file, the
later one counts. -/
def nodeToModule (g : CodeGraph) (modules : List String) : FMap ℕ String :=
  modules.foldl (fun table moduleDid =>
    ((g.fileToNodes.lookup (fileFromDurableId moduleDid)).getD []).foldl
      (fun table ni => table.insert ni moduleDid) table) ∅

/-- The edge between modules for an edge between nodes. -/
def importEdge (table : FMap ℕ String) (index : FMap String ℕ) (e : Arc ℕ EdgeData) :
    Option (Arc ℕ Unit) :=
  if e.2.2.kind ≠ .imports then none
  else
    match table.lookup e.1, table.lookup e.2.1 with
    | some srcMod, some tgtMod =>
      -- an empty id counts as no module
      if srcMod ≠ "" ∧ tgtMod ≠ "" ∧ srcMod ≠ tgtMod then
        match index.lookup srcMod, index.lookup tgtMod with
        | some miSrc, some miTgt => some (miSrc, miTgt, ())
        | _, _ => none
      else none
    | _, _ => none

/-- The graph of modules. Fewer than two modules are left out. -/
def buildModuleGraph (g : CodeGraph) : ModuleGraph :=
  let modules := moduleIds g
  if modules.length < 2 then ⟨[], []⟩
  else ⟨modules, g.edges.filterMap (importEdge (nodeToModule g modules) (didToMidx modules))⟩

/-- The modules that a module imports. -/
def adj (m : ModuleGraph) : FMap String (Finset String) :=
  m.edges.foldl (fun adj e =>
    match m.nodes[e.1]?, m.nodes[e.2.1]? with
    | some src, some tgt => adj.insert src (insert tgt ((adj.lookup src).getD ∅))
    | _, _ => adj) (m.nodes.foldl (fun adj did => adj.insert did ∅) ∅)

/-- The imports of a module in the order a loop over the set has. -/
def successors (iter : String → HashOrder String) (m : ModuleGraph) (u : String) : List String :=
  (iter u).order (((adj m).lookup u).getD ∅)

/-- The search for cycles, with as many calls within each other as the recursion
limit leaves. There is no result when it needs more. -/
def importSearch (frames : ℕ) (iter : String → HashOrder String) (g : CodeGraph) :
    Option (Search String) :=
  let m := buildModuleGraph g
  if m.nodes.length < 2 then some (unvisited []) else searchAll (successors iter m) frames m.nodes

/-- Detect circular import chains. -/
def importCycles (frames : ℕ) (iter : String → HashOrder String) (g : CodeGraph) :
    Option (List (List String)) :=
  (importSearch frames iter g).map Search.cycles

/-- Ids of the modules with given numbers. -/
def modulesAt (m : ModuleGraph) (numbers : List ℕ) : Finset String :=
  (numbers.filterMap fun i => m.nodes[i]?).toFinset

/-- Groups of mutually dependent modules. -/
def importCycleGroups (stronglyConnectedComponents : ℕ → List (Arc ℕ Unit) → List (List ℕ))
    (g : CodeGraph) : List (Finset String) :=
  let m := buildModuleGraph g
  if m.nodes.length < 2 then []
  else
    ((stronglyConnectedComponents m.nodes.length m.edges).filter fun scc =>
      1 < scc.length).map (modulesAt m)

/-- The documented behaviour of the library: the components hold every node,
and each one holds, once, the nodes that are reached from one of its nodes and
reach it. -/
structure Components (stronglyConnectedComponents : ℕ → List (Arc ℕ Unit) → List (List ℕ)) :
    Prop where
  /-- Every node is in a component. -/
  covers : ∀ n edges i, i < n → ∃ scc ∈ stronglyConnectedComponents n edges, i ∈ scc
  /-- A component names no node twice. -/
  nodup : ∀ n edges, ∀ scc ∈ stronglyConnectedComponents n edges, scc.Nodup
  /-- A component holds the nodes that are mutually reachable with one of them. -/
  connected : ∀ n edges, ∀ scc ∈ stronglyConnectedComponents n edges, ∀ i ∈ scc, ∀ j,
    j ∈ scc ↔ j < n ∧ Relation.ReflTransGen (Linked edges) i j ∧
      Relation.ReflTransGen (Linked edges) j i

/-! ## The imports between modules -/

/-- One module imports another one: an import leads from a node of the first to
a node of the second. -/
def Imports (g : CodeGraph) (a b : String) : Prop :=
  a ≠ "" ∧ b ≠ "" ∧ a ≠ b ∧ ∃ e ∈ g.edges, e.2.2.kind = .imports ∧
    (nodeToModule g (moduleIds g)).lookup e.1 = some a ∧
    (nodeToModule g (moduleIds g)).lookup e.2.1 = some b

/-- Different modules have different ids. -/
theorem nodup_moduleIds {g : CodeGraph} (hi : Indexed g) : (moduleIds g).Nodup :=
  hi.nodup.sublist (List.filter_sublist.map SymbolNode.durableId)

/-- The numbers of the modules. -/
theorem lookup_didToMidx {modules : List String} (hnodup : modules.Nodup) {did : String} {i : ℕ} :
    (didToMidx modules).lookup did = some i ↔ modules[i]? = some did := by
  have hkeys : (modules.zipIdx.map fun p => p.1).Nodup := by
    rw [List.zipIdx_map_fst]
    exact hnodup
  unfold didToMidx
  rw [lookup_foldl_insert hkeys]
  simp only [Finmap.lookup_empty, reduceCtorEq, and_false, or_false]
  constructor
  · intro hin
    obtain ⟨p, hp, hdid, hnumber⟩ := hin
    rw [← hdid, ← hnumber]
    exact List.mem_zipIdx_iff_getElem?.mp hp
  · intro hat
    exact ⟨(did, i), List.mem_zipIdx_iff_getElem?.mpr hat, rfl, rfl⟩

/-- A node is of no other modules than the listed ones. -/
theorem mem_of_lookup_nodeToModule {g : CodeGraph} {modules : List String} {ni : ℕ} {did : String}
    (h : (nodeToModule g modules).lookup ni = some did) : did ∈ modules := by
  have hinner : ∀ (numbers : List ℕ) (moduleDid : String) (table : FMap ℕ String),
      (numbers.foldl (fun table ni => table.insert ni moduleDid) table).lookup ni = some did →
      did = moduleDid ∨ table.lookup ni = some did := by
    intro numbers moduleDid
    induction numbers with
    | nil => exact fun table hat => .inr hat
    | cons number numbers ih =>
      intro table hat
      rcases ih _ hat with heq | hold
      · exact .inl heq
      · rw [lookup_insert_ite] at hold
        split at hold
        · exact .inl (Option.some.inj hold).symm
        · exact .inr hold
  have houter : ∀ (rest : List String) (table : FMap ℕ String),
      (rest.foldl (fun table moduleDid =>
        ((g.fileToNodes.lookup (fileFromDurableId moduleDid)).getD []).foldl
          (fun table ni => table.insert ni moduleDid) table) table).lookup ni = some did →
      did ∈ rest ∨ table.lookup ni = some did := by
    intro rest
    induction rest with
    | nil => exact fun table hat => .inr hat
    | cons moduleDid rest ih =>
      intro table hat
      rcases ih _ hat with hin | hold
      · exact .inl (List.mem_cons_of_mem _ hin)
      · rcases hinner _ moduleDid table hold with heq | hbefore
        · exact .inl (heq ▸ List.mem_cons_self)
        · exact .inr hbefore
  rcases houter modules ∅ h with hin | hnone
  · exact hin
  · rw [Finmap.lookup_empty] at hnone
    cases hnone

/-- The edge for an import. -/
theorem importEdge_eq_some {table : FMap ℕ String} {index : FMap String ℕ} {e : Arc ℕ EdgeData}
    {edge : Arc ℕ Unit} :
    importEdge table index e = some edge ↔ e.2.2.kind = .imports ∧
      ∃ a b, a ≠ "" ∧ b ≠ "" ∧ a ≠ b ∧ table.lookup e.1 = some a ∧ table.lookup e.2.1 = some b ∧
        index.lookup a = some edge.1 ∧ index.lookup b = some edge.2.1 := by
  unfold importEdge
  by_cases hkind : e.2.2.kind = .imports
  · rw [if_neg (not_not.mpr hkind)]
    cases ha : table.lookup e.1 with
    | none => simp
    | some a =>
      cases hb : table.lookup e.2.1 with
      | none => simp
      | some b =>
        by_cases hcond : a ≠ "" ∧ b ≠ "" ∧ a ≠ b
        · dsimp only
          rw [if_pos hcond]
          obtain ⟨source, target, ⟨⟩⟩ := edge
          cases hsource : index.lookup a with
          | none => simp [hkind, hsource]
          | some miSrc =>
            cases htarget : index.lookup b with
            | none => simp [hkind, htarget]
            | some miTgt => simp [hkind, hsource, htarget, hcond]
        · dsimp only
          rw [if_neg hcond]
          refine iff_of_false (by simp) fun h => hcond ?_
          obtain ⟨-, a', b', hane, hbne, hne, ha', hb', -⟩ := h
          rw [Option.some.inj ha', Option.some.inj hb']
          exact ⟨hane, hbne, hne⟩
  · rw [if_pos hkind]
    exact iff_of_false (by simp) fun h => hkind h.1

section Modules

variable {g : CodeGraph} (hi : Indexed g)

include hi

/-- The edges of the graph of modules are the imports. -/
theorem namedLink_iff {a b : String} :
    NamedLink (buildModuleGraph g).nodes (buildModuleGraph g).edges a b ↔ Imports g a b := by
  have hnodup := nodup_moduleIds hi
  unfold buildModuleGraph
  dsimp only
  by_cases hfew : (moduleIds g).length < 2
  · -- two different modules are needed for an import
    rw [if_pos hfew]
    refine iff_of_false (fun h => ?_) fun h => ?_
    · obtain ⟨i, j, ha, -⟩ := h
      cases ha
    · obtain ⟨-, -, hne, e, -, -, ha, hb⟩ := h
      have hina := mem_of_lookup_nodeToModule ha
      have hinb := mem_of_lookup_nodeToModule hb
      match hids : moduleIds g, hfew with
      | [], _ =>
        rw [hids] at hina
        cases hina
      | [only], _ =>
        rw [hids] at hina hinb
        exact hne ((List.mem_singleton.mp hina).trans (List.mem_singleton.mp hinb).symm)
  · rw [if_neg hfew]
    unfold NamedLink Linked Imports
    simp only [List.mem_filterMap, importEdge_eq_some, lookup_didToMidx hnodup]
    constructor
    · intro h
      obtain ⟨i, j, hati, hatj, edge, ⟨e, he, hkind, a', b', hane, hbne, hne, ha, hb, hsource,
        htarget⟩, hends⟩ := h
      have hfrom : edge.1 = i := congrArg Prod.fst hends
      have hto : edge.2.1 = j := congrArg Prod.snd hends
      rw [hfrom, hati] at hsource
      rw [hto, hatj] at htarget
      rw [Option.some.inj hsource, Option.some.inj htarget]
      exact ⟨hane, hbne, hne, e, he, hkind, ha, hb⟩
    · intro h
      obtain ⟨hane, hbne, hne, e, he, hkind, ha, hb⟩ := h
      obtain ⟨i, hati⟩ := List.mem_iff_getElem?.mp (mem_of_lookup_nodeToModule ha)
      obtain ⟨j, hatj⟩ := List.mem_iff_getElem?.mp (mem_of_lookup_nodeToModule hb)
      exact ⟨i, j, hati, hatj, (i, j, ()),
        ⟨e, he, hkind, a, b, hane, hbne, hne, ha, hb, hati, hatj⟩, rfl⟩

/-- The edges join modules. -/
theorem edges_in_range : ∀ e ∈ (buildModuleGraph g).edges,
    e.1 < (buildModuleGraph g).nodes.length ∧ e.2.1 < (buildModuleGraph g).nodes.length := by
  have hnodup := nodup_moduleIds hi
  unfold buildModuleGraph
  dsimp only
  by_cases hfew : (moduleIds g).length < 2
  · rw [if_pos hfew]
    exact fun e he => absurd he List.not_mem_nil
  · rw [if_neg hfew]
    intro edge hedge
    obtain ⟨e, -, hsome⟩ := List.mem_filterMap.mp hedge
    obtain ⟨-, a, b, -, -, -, -, -, hsource, htarget⟩ := importEdge_eq_some.mp hsome
    rw [lookup_didToMidx hnodup] at hsource htarget
    exact ⟨(List.getElem?_eq_some_iff.mp hsource).1, (List.getElem?_eq_some_iff.mp htarget).1⟩

theorem nodup_nodes : (buildModuleGraph g).nodes.Nodup := by
  unfold buildModuleGraph
  dsimp only
  by_cases hfew : (moduleIds g).length < 2
  · rw [if_pos hfew]
    exact List.nodup_nil
  · rw [if_neg hfew]
    exact nodup_moduleIds hi

end Modules

/-- The sets of imports follow the edges. -/
theorem mem_adj (m : ModuleGraph) {u v : String} :
    v ∈ ((adj m).lookup u).getD ∅ ↔ NamedLink m.nodes m.edges u v := by
  have hempty : ∀ (ids : List String) (table : FMap String (Finset String)),
      v ∉ (table.lookup u).getD ∅ →
      v ∉ ((ids.foldl (fun adj did => adj.insert did ∅) table).lookup u).getD ∅ := by
    intro ids
    induction ids with
    | nil => exact fun _ h => h
    | cons did ids ih =>
      intro table h
      refine ih _ ?_
      rw [lookup_insert_ite]
      split
      · exact Finset.notMem_empty v
      · exact h
  have hfold : ∀ (edges : List (Arc ℕ Unit)) (table : FMap String (Finset String)),
      v ∈ ((edges.foldl (fun adj e =>
        match m.nodes[e.1]?, m.nodes[e.2.1]? with
        | some src, some tgt => adj.insert src (insert tgt ((adj.lookup src).getD ∅))
        | _, _ => adj) table).lookup u).getD ∅ ↔
      v ∈ (table.lookup u).getD ∅ ∨ NamedLink m.nodes edges u v := by
    intro edges
    induction edges with
    | nil =>
      intro table
      refine (or_iff_left fun h => ?_).symm
      obtain ⟨i, j, -, -, e, he, -⟩ := h
      cases he
    | cons e edges ih =>
      intro table
      have hsplit : NamedLink m.nodes (e :: edges) u v ↔
          m.nodes[e.1]? = some u ∧ m.nodes[e.2.1]? = some v ∨ NamedLink m.nodes edges u v := by
        unfold NamedLink Linked ends
        simp only [List.exists_mem_cons_iff, Prod.mk.injEq]
        grind
      rw [List.foldl_cons, ih, hsplit, ← or_assoc]
      refine or_congr ?_ Iff.rfl
      cases hsrc : m.nodes[e.1]? with
      | none => simp
      | some src =>
        cases htgt : m.nodes[e.2.1]? with
        | none => simp
        | some tgt =>
          dsimp only
          rw [lookup_insert_ite]
          by_cases hu : u = src
          · rw [if_pos hu, hu, Option.getD_some, Finset.mem_insert]
            simp only [Option.some.injEq, true_and]
            rw [or_comm, eq_comm]
          · rw [if_neg hu]
            simp [Ne.symm hu]
  unfold adj
  rw [hfold]
  refine or_iff_right (hempty m.nodes ∅ ?_)
  rw [Finmap.lookup_empty]
  exact Finset.notMem_empty v

/-! ## The search and the components -/

/-- The graph holds all modules, or none of fewer than two. -/
theorem nodes_eq (g : CodeGraph) :
    (buildModuleGraph g).nodes = if (moduleIds g).length < 2 then [] else moduleIds g := by
  unfold buildModuleGraph
  dsimp only
  by_cases hfew : (moduleIds g).length < 2
  · rw [if_pos hfew, if_pos hfew]
  · rw [if_neg hfew, if_neg hfew]

/-- A graph of fewer than two modules is empty. -/
theorem nodes_eq_nil {g : CodeGraph} (h : (buildModuleGraph g).nodes.length < 2) :
    (buildModuleGraph g).nodes = [] := by
  rw [nodes_eq] at h ⊢
  by_cases hfew : (moduleIds g).length < 2
  · rw [if_pos hfew]
  · rw [if_neg hfew] at h
    exact absurd h hfew

section Detection

variable {g : CodeGraph} (hi : Indexed g) (iter : String → HashOrder String)

include hi

/-- The search follows the imports. -/
theorem mem_successors {u v : String} :
    v ∈ successors iter (buildModuleGraph g) u ↔ Imports g u v := by
  unfold successors
  rw [HashOrder.mem_order, mem_adj, namedLink_iff hi]

theorem successors_eq :
    (fun a b => b ∈ successors iter (buildModuleGraph g) a) = Imports g := by
  funext a b
  exact propext (mem_successors hi iter)

/-- Imports join modules of the graph. -/
theorem mem_nodes_of_imports {a b : String} (h : Imports g a b) :
    a ∈ (buildModuleGraph g).nodes ∧ b ∈ (buildModuleGraph g).nodes := by
  obtain ⟨i, j, ha, hb, -⟩ := (namedLink_iff hi).mpr h
  exact ⟨List.mem_of_getElem? ha, List.mem_of_getElem? hb⟩

/-- What is reached from a module of the graph is one. -/
theorem mem_nodes_of_reaches {a b : String} (ha : a ∈ (buildModuleGraph g).nodes)
    (h : Relation.ReflTransGen (Imports g) a b) : b ∈ (buildModuleGraph g).nodes := by
  induction h with
  | refl => exact ha
  | tail _ hlast _ => exact (mem_nodes_of_imports hi hlast).2

theorem successors_mem : ∀ u ∈ (buildModuleGraph g).nodes,
    ∀ v ∈ successors iter (buildModuleGraph g) u, v ∈ (buildModuleGraph g).nodes :=
  fun _ _ _ hv => (mem_nodes_of_imports hi ((mem_successors hi iter).mp hv)).2

/-- Reachability by numbers is reachability by imports. -/
theorem reaches_iff {a b : String} {i j : ℕ} (ha : (buildModuleGraph g).nodes[i]? = some a)
    (hb : (buildModuleGraph g).nodes[j]? = some b) :
    Relation.ReflTransGen (Linked (buildModuleGraph g).edges) i j ↔
      Relation.ReflTransGen (Imports g) a b := by
  have hlinks : NamedLink (buildModuleGraph g).nodes (buildModuleGraph g).edges = Imports g := by
    funext x y
    exact propext (namedLink_iff hi)
  have hends : ∀ e ∈ (buildModuleGraph g).edges, e.1 < (buildModuleGraph g).nodes.length :=
    fun e he => (edges_in_range hi e he).1
  rw [← reflTransGen_namedLink (nodup_nodes hi) hends ha hb, hlinks]

omit hi in
/-- A search with a result is one over the graph of modules. -/
theorem searchAll_of_importSearch {frames : ℕ} {s : Search String}
    (hsearch : importSearch frames iter g = some s) :
    searchAll (successors iter (buildModuleGraph g)) frames (buildModuleGraph g).nodes = some s := by
  unfold importSearch at hsearch
  dsimp only at hsearch
  by_cases hfew : (buildModuleGraph g).nodes.length < 2
  · rw [if_pos hfew] at hsearch
    rw [nodes_eq_nil hfew]
    exact hsearch
  · rwa [if_neg hfew] at hsearch

variable {iter} {frames : ℕ} {s : Search String}

/-- What is found are simple cycles of imports. -/
theorem simpleCycle_of_mem (hsearch : importSearch frames iter g = some s) {c : List String}
    (hc : c ∈ s.cycles) : SimpleCycle (Imports g) c := by
  have hall := searchAll_of_importSearch iter hsearch
  have hcycle := (searchAll_spec (successors_mem hi iter) hall).1.cycles c hc
  rwa [successors_eq hi iter] at hcycle

/-- Two modules that lead to each other have a cycle among the modules that
lead to them and back. -/
theorem exists_importCycle (hsearch : importSearch frames iter g = some s) {a b : String}
    (ha : a ∈ (buildModuleGraph g).nodes) (hab : a ≠ b)
    (hto : Relation.ReflTransGen (Imports g) a b) (hback : Relation.ReflTransGen (Imports g) b a) :
    ∃ c ∈ s.cycles, ∀ x ∈ c,
      Relation.ReflTransGen (Imports g) a x ∧ Relation.ReflTransGen (Imports g) x a := by
  have hcycle := @exists_cycle _ _ (successors iter (buildModuleGraph g)) _
    (successors_mem hi iter) _ _ (searchAll_of_importSearch iter hsearch) a b ha hab
  rw [successors_eq hi iter] at hcycle
  exact hcycle hto hback

/-- Every module of the graph is visited once. -/
theorem visited_nodes (hsearch : importSearch frames iter g = some s) :
    s.visited.Perm (buildModuleGraph g).nodes :=
  visited_perm (successors_mem hi iter) (nodup_nodes hi) (searchAll_of_importSearch iter hsearch)

variable {scc : ℕ → List (Arc ℕ Unit) → List (List ℕ)} (hscc : Components scc)

include hscc

/-- Every group has a cycle inside. -/
theorem exists_cycle_in_group (hsearch : importSearch frames iter g = some s)
    {group : Finset String} (hgroup : group ∈ importCycleGroups scc g) :
    ∃ c ∈ s.cycles, ∀ x ∈ c, x ∈ group := by
  unfold importCycleGroups at hgroup
  dsimp only at hgroup
  by_cases hfew : (buildModuleGraph g).nodes.length < 2
  · rw [if_pos hfew] at hgroup
    cases hgroup
  · rw [if_neg hfew] at hgroup
    obtain ⟨comp, hcomp, heq⟩ := List.mem_map.mp hgroup
    obtain ⟨hin, hlong⟩ := List.mem_filter.mp hcomp
    have htwo : 1 < comp.length := of_decide_eq_true hlong
    have hconnected := hscc.connected _ _ comp hin
    -- the first two numbers of the component
    have hi₀ : comp[0] ∈ comp := List.getElem_mem _
    have hi₁ : comp[1] ∈ comp := List.getElem_mem _
    have hne : comp[0] ≠ comp[1] := by
      intro hsame
      have hzero := (List.Nodup.getElem_inj_iff (hscc.nodup _ _ comp hin)).mp hsame
      omega
    have hlt₀ := ((hconnected _ hi₀ _).mp hi₀).1
    obtain ⟨hlt₁, hto, hback⟩ := (hconnected _ hi₀ _).mp hi₁
    have hat₀ := List.getElem?_eq_getElem hlt₀
    have hat₁ := List.getElem?_eq_getElem hlt₁
    have hab : (buildModuleGraph g).nodes[comp[0]] ≠ (buildModuleGraph g).nodes[comp[1]] := by
      intro hsame
      exact hne ((List.Nodup.getElem_inj_iff (nodup_nodes hi)).mp hsame)
    rw [reaches_iff hi hat₀ hat₁] at hto
    rw [reaches_iff hi hat₁ hat₀] at hback
    obtain ⟨c, hc, hall⟩ := exists_importCycle hi hsearch (List.getElem_mem hlt₀) hab hto hback
    refine ⟨c, hc, fun x hx => ?_⟩
    obtain ⟨hfrom, hreturn⟩ := hall x hx
    have hnode := mem_nodes_of_reaches hi (List.getElem_mem hlt₀) hfrom
    obtain ⟨k, hatk⟩ := List.mem_iff_getElem?.mp hnode
    have hk : k ∈ comp := by
      rw [hconnected _ hi₀, reaches_iff hi hat₀ hatk, reaches_iff hi hatk hat₀]
      exact ⟨(List.getElem?_eq_some_iff.mp hatk).1, hfrom, hreturn⟩
    rw [← heq]
    unfold modulesAt
    rw [List.mem_toFinset, List.mem_filterMap]
    exact ⟨k, hk, hatk⟩

/-- A cycle belongs to a group, so there is one. -/
theorem exists_group_of_cycle (hsearch : importSearch frames iter g = some s) {c : List String}
    (hc : c ∈ s.cycles) : importCycleGroups scc g ≠ [] := by
  have hcycle := simpleCycle_of_mem hi hsearch hc
  obtain ⟨first, last, hfirst, hlast, hedge⟩ := hcycle.closes
  obtain ⟨hinlast, hinfirst⟩ := mem_nodes_of_imports hi hedge
  have hforth := hcycle.reaches (List.mem_of_head? hfirst) (List.mem_of_getLast? hlast)
  obtain ⟨i, hati⟩ := List.mem_iff_getElem?.mp hinlast
  obtain ⟨j, hatj⟩ := List.mem_iff_getElem?.mp hinfirst
  have hlti := (List.getElem?_eq_some_iff.mp hati).1
  have hltj := (List.getElem?_eq_some_iff.mp hatj).1
  obtain ⟨comp, hcomp, hicomp⟩ := hscc.covers _ (buildModuleGraph g).edges i hlti
  have hjcomp : j ∈ comp := by
    rw [hscc.connected _ _ comp hcomp i hicomp, reaches_iff hi hati hatj, reaches_iff hi hatj hati]
    exact ⟨hltj, .single hedge, hforth⟩
  have hij : i ≠ j := by
    intro hsame
    rw [hsame, hatj] at hati
    exact hedge.2.2.1 (Option.some.inj hati).symm
  have hlong : 1 < comp.length := by
    match comp, hicomp, hjcomp with
    | [only], hicomp, hjcomp =>
      exact absurd ((List.mem_singleton.mp hicomp).trans (List.mem_singleton.mp hjcomp).symm) hij
    | _ :: _ :: rest, _, _ =>
      rw [List.length_cons, List.length_cons]
      omega
  have hmany : ¬(buildModuleGraph g).nodes.length < 2 := by
    intro hfew
    rw [nodes_eq_nil hfew] at hinlast
    cases hinlast
  unfold importCycleGroups
  dsimp only
  rw [if_neg hmany]
  refine List.ne_nil_of_mem (List.mem_map_of_mem (List.mem_filter.mpr ⟨hcomp, ?_⟩))
  exact decide_eq_true hlong

end Detection

/-! ## Paths that are too long -/

/-- The search has a result when no path of fresh modules has more modules than
calls may be within each other. -/
theorem exists_importSearch {g : CodeGraph} (hi : Indexed g) {frames : ℕ}
    (hshort : ∀ path, FreshPath (Imports g) (buildModuleGraph g).nodes path → path.length ≤ frames)
    (iter : String → HashOrder String) : ∃ s, importSearch frames iter g = some s := by
  unfold importSearch
  dsimp only
  by_cases hfew : (buildModuleGraph g).nodes.length < 2
  · rw [if_pos hfew]
    exact ⟨_, rfl⟩
  · rw [if_neg hfew]
    cases hall : searchAll (successors iter (buildModuleGraph g)) frames (buildModuleGraph g).nodes with
    | some s => exact ⟨s, rfl⟩
    | none =>
      obtain ⟨path, hpath, hlong⟩ :=
        exists_path_of_searchAll_eq_none (successors_mem hi iter) hall
      rw [successors_eq hi iter] at hpath
      have hle := hshort path hpath
      omega

/-- An order that begins with a given element where it is there. -/
def beginningWith {K : Type*} [DecidableEq K] (k : K) (iter : HashOrder K) : HashOrder K where
  order s := if k ∈ s then k :: (iter.order s).erase k else iter.order s
  exhaustive s := by
    by_cases hk : k ∈ s
    · have hperm := List.perm_cons_erase ((iter.mem_order s k).mpr hk)
      rw [if_pos hk, ← iter.exhaustive s]
      exact Multiset.coe_eq_coe.mpr hperm.symm
    · rw [if_neg hk]
      exact iter.exhaustive s

/-- Orders in which every module of a path begins with the next one. -/
def alongPath (path : List String) (u : String) : HashOrder String :=
  match path[path.idxOf u + 1]? with
  | some v => beginningWith v HashOrder.increasing
  | none => HashOrder.increasing

/-- The search along a path of fresh modules has no result when the path has
more modules than calls may be within each other. -/
theorem importSearch_alongPath {g : CodeGraph} (hi : Indexed g) {path : List String}
    (hpath : FreshPath (Imports g) (buildModuleGraph g).nodes path) {frames : ℕ}
    (hlong : frames < path.length) : importSearch frames (alongPath path) g = none := by
  have hmany : ¬(buildModuleGraph g).nodes.length < 2 := by
    intro hfew
    obtain ⟨before, first, after, hnodes, -⟩ := hpath.fresh
    rw [nodes_eq_nil hfew] at hnodes
    cases before <;> cases hnodes
  have hchain : path.IsChain fun a b =>
      (successors (alongPath path) (buildModuleGraph g) a).head? = some b := by
    refine List.isChain_iff_getElem.mpr fun i hlt => ?_
    have hedge := List.isChain_iff_getElem.mp hpath.chain i hlt
    have hnext : path[path.idxOf path[i] + 1]? = some path[i + 1] := by
      rw [hpath.nodup.idxOf_getElem i (by omega), List.getElem?_eq_getElem hlt]
    have hin : path[i + 1] ∈ ((adj (buildModuleGraph g)).lookup path[i]).getD ∅ := by
      rw [mem_adj, namedLink_iff hi]
      exact hedge
    unfold successors alongPath
    rw [hnext]
    dsimp only [beginningWith]
    rw [if_pos hin]
    rfl
  have hfresh := hpath
  rw [← successors_eq hi (alongPath path)] at hfresh
  unfold importSearch
  dsimp only
  rw [if_neg hmany]
  exact searchAll_eq_none_of_path (successors_mem hi (alongPath path)) hfresh hchain hlong

/-! ## What is detected -/

/-- What a search of a graph should have found and visited. -/
structure Right (scc : ℕ → List (Arc ℕ Unit) → List (List ℕ)) (g : CodeGraph) (s : Search String) :
    Prop where
  /-- What was found are simple cycles of imports. -/
  simple : ∀ c ∈ s.cycles, SimpleCycle (Imports g) c
  /-- Every group has a cycle inside. -/
  grouped : ∀ group ∈ importCycleGroups scc g, ∃ c ∈ s.cycles, ∀ x ∈ c, x ∈ group
  /-- There are cycles exactly when there are groups. -/
  nothing : s.cycles = [] ↔ importCycleGroups scc g = []
  /-- Every module was visited once. -/
  visited : s.visited.Perm (if (moduleIds g).length < 2 then [] else moduleIds g)

/-- A search with a result has found the cycles. -/
theorem right_of_importSearch {g : CodeGraph} (hi : Indexed g)
    {scc : ℕ → List (Arc ℕ Unit) → List (List ℕ)} (hscc : Components scc) {frames : ℕ}
    {iter : String → HashOrder String} {s : Search String}
    (hsearch : importSearch frames iter g = some s) : Right scc g s where
  simple c hc := simpleCycle_of_mem hi hsearch hc
  grouped group hgroup := exists_cycle_in_group hi hscc hsearch hgroup
  nothing := by
    constructor
    · intro hnone
      refine List.eq_nil_iff_forall_not_mem.mpr fun group hgroup => ?_
      obtain ⟨c, hc, -⟩ := exists_cycle_in_group hi hscc hsearch hgroup
      rw [hnone] at hc
      cases hc
    · intro hnone
      refine List.eq_nil_iff_forall_not_mem.mpr fun c hc => ?_
      exact exists_group_of_cycle hi hscc hsearch hc hnone
  visited := by
    rw [← nodes_eq]
    exact visited_nodes hi hsearch

/-- The import cycles are returned, and they are right. -/
def Detected (frames : ℕ) (iter : String → HashOrder String)
    (scc : ℕ → List (Arc ℕ Unit) → List (List ℕ)) (g : CodeGraph) : Prop :=
  ∃ s, importSearch frames iter g = some s ∧ importCycles frames iter g = some s.cycles ∧
    Right scc g s

/-- After every run of a graph, what a search returns is right; and the search
returns in every order of the imports exactly when no path of different modules
is longer than calls may be within each other, where each module of the path
imports the next one and no module listed before the first one leads to any of
them. -/
theorem importCycles_detected_iff {rx : Rustworkx} (hrx : rx.Documented)
    {scc : ℕ → List (Arc ℕ Unit) → List (List ℕ)} (hscc : Components scc) (frames : ℕ)
    (operations : List Operation) :
    let g := run (fun g op => Operation.run rx g op) CodeGraph.new operations
    (∀ iter s, importSearch frames iter g = some s → Right scc g s) ∧
    ((∀ iter, Detected frames iter scc g) ↔
      ∀ path, FreshPath (Imports g) (buildModuleGraph g).nodes path → path.length ≤ frames) := by
  intro g
  have hi := (run_keeps hrx operations).1
  have hright : ∀ iter s, importSearch frames iter g = some s → Right scc g s :=
    fun iter s hsearch => right_of_importSearch hi hscc hsearch
  refine ⟨hright, fun hall path hpath => ?_, fun hshort iter => ?_⟩
  · by_contra hlong
    obtain ⟨s, hsearch, -⟩ := hall (alongPath path)
    rw [importSearch_alongPath hi hpath (not_le.mp hlong)] at hsearch
    cases hsearch
  · obtain ⟨s, hsearch⟩ := exists_importSearch hi hshort iter
    refine ⟨s, hsearch, ?_, hright iter s hsearch⟩
    unfold importCycles
    rw [hsearch]
    rfl

/-! ## Two modules that import each other -/

/-- Components by walks from every node. -/
def walkedComponents (n : ℕ) (edges : List (Arc ℕ Unit)) : List (List ℕ) :=
  ((List.range n).map fun i => (List.range n).filter fun j =>
    j = i ∨ j ∈ beyond edges i ∧ i ∈ beyond edges j).dedup

/-- A walk finds what is mutually reachable. -/
theorem mutual_iff (edges : List (Arc ℕ Unit)) (i j : ℕ) :
    (j = i ∨ j ∈ beyond edges i ∧ i ∈ beyond edges j) ↔
      Relation.ReflTransGen (Linked edges) i j ∧ Relation.ReflTransGen (Linked edges) j i := by
  by_cases hij : j = i
  · rw [hij]
    exact iff_of_true (.inl rfl) ⟨.refl, .refl⟩
  · rw [mem_beyond, mem_beyond]
    unfold Beyond
    rw [Relation.reflTransGen_iff_eq_or_transGen, Relation.reflTransGen_iff_eq_or_transGen]
    simp only [hij, Ne.symm hij, false_or, ne_eq, not_false_eq_true, and_true]

theorem walkedComponents_documented : Components walkedComponents where
  covers n edges i hlt := by
    refine ⟨_, List.mem_dedup.mpr (List.mem_map_of_mem (List.mem_range.mpr hlt)), ?_⟩
    rw [List.mem_filter, decide_eq_true_eq]
    exact ⟨List.mem_range.mpr hlt, .inl rfl⟩
  nodup n edges scc hscc := by
    obtain ⟨i, -, heq⟩ := List.mem_map.mp (List.mem_dedup.mp hscc)
    rw [← heq]
    exact List.nodup_range.filter _
  connected n edges scc hscc i hi j := by
    obtain ⟨k, -, heq⟩ := List.mem_map.mp (List.mem_dedup.mp hscc)
    rw [← heq, List.mem_filter, decide_eq_true_eq, mutual_iff] at hi
    rw [← heq, List.mem_filter, decide_eq_true_eq, mutual_iff, List.mem_range]
    refine and_congr_right fun _ => ⟨fun h => ?_, fun h => ?_⟩
    · exact ⟨hi.2.2.trans h.1, h.2.trans hi.2.1⟩
    · exact ⟨hi.2.1.trans h.1, h.2.trans hi.2.2⟩

/-- The node of a module. -/
def moduleNode (file : String) : SymbolNode :=
  ⟨CodeLayer.makeModuleDurableId file, file, moduleQualifiedName, .module_, file,
    ⟨⟨1, 1⟩, ⟨1, 1⟩⟩, none, none, ∅, false, none⟩

/-- Two modules import each other, and a third one imports the first. -/
def roundDelta : CodeDelta where
  revision := some 1
  nodesUpserted := [moduleNode "a.py", moduleNode "b.py", moduleNode "c.py"]
  edgesAdded := [("<module>a.py", "<module>b.py", smallEdge .imports),
    ("<module>b.py", "<module>a.py", smallEdge .imports),
    ("<module>c.py", "<module>a.py", smallEdge .imports)]

/-- The graph of the three modules. -/
def roundGraph : CodeGraph :=
  run (fun g op => Operation.run firstEdges g op) CodeGraph.new [.applyCodeDelta roundDelta]

/-- A path of fresh modules has no more modules than the graph. -/
theorem length_le_of_freshPath {g : CodeGraph} (hi : Indexed g) {path : List String}
    (hpath : FreshPath (Imports g) (buildModuleGraph g).nodes path) :
    path.length ≤ (buildModuleGraph g).nodes.length := by
  obtain ⟨before, first, after, hnodes, hfirst, -⟩ := hpath.fresh
  obtain ⟨rest, hrest⟩ := List.head?_eq_some_iff.mp hfirst
  have hstart : first ∈ (buildModuleGraph g).nodes := by
    rw [hnodes]
    exact List.mem_append_right _ List.mem_cons_self
  have hsub : path ⊆ (buildModuleGraph g).nodes := by
    intro a ha
    have hchain := hpath.chain
    rw [hrest] at hchain ha
    exact mem_nodes_of_reaches hi hstart (reaches_of_chain hchain a ha)
  exact (List.subperm_of_subset hpath.nodup hsub).length_le

/-- The two modules are a group, and there is a cycle within it. -/
theorem two_modules_detected :
    importCycleGroups walkedComponents roundGraph = [{"<module>a.py", "<module>b.py"}] ∧
    ∃ s, importCycles 3 (fun _ => HashOrder.increasing) roundGraph = some s ∧
      ∃ c ∈ s, ∀ x ∈ c, x ∈ ({"<module>a.py", "<module>b.py"} : Finset String) := by
  have hgroups : importCycleGroups walkedComponents roundGraph =
      [{"<module>a.py", "<module>b.py"}] := by
    decide +kernel
  have hnodes : (buildModuleGraph roundGraph).nodes.length = 3 := by decide +kernel
  have hi : Indexed roundGraph :=
    (run_keeps firstEdges_documented [.applyCodeDelta roundDelta]).1
  have hshort : ∀ path, FreshPath (Imports roundGraph) (buildModuleGraph roundGraph).nodes path →
      path.length ≤ 3 :=
    fun path hpath => (length_le_of_freshPath hi hpath).trans_eq hnodes
  obtain ⟨s, -, hcycles, hright⟩ := (importCycles_detected_iff firstEdges_documented
    walkedComponents_documented 3 [.applyCodeDelta roundDelta]).2.mpr hshort
      fun _ => HashOrder.increasing
  refine ⟨hgroups, s.cycles, hcycles, hright.grouped _ ?_⟩
  change _ ∈ importCycleGroups walkedComponents roundGraph
  rw [hgroups]
  exact List.mem_singleton_self _

/-! ## A ring of modules -/

/-- The file of a module of a ring. -/
def ringFile (i : ℕ) : String := String.ofList (List.replicate i 'm') ++ ".py"

/-- The id of a module of a ring. -/
def ringModule (i : ℕ) : String := CodeLayer.makeModuleDurableId (ringFile i)

/-- A ring of modules: each one imports the next, the last one the first. -/
def ringDelta (n : ℕ) : CodeDelta where
  revision := some 1
  nodesUpserted := (List.range n).map fun i => moduleNode (ringFile i)
  edgesAdded := (List.range n).map fun i =>
    (ringModule i, ringModule ((i + 1) % n), smallEdge .imports)

/-- The graph of a ring. -/
def ringGraph (n : ℕ) : CodeGraph :=
  run (fun g op => Operation.run firstEdges g op) CodeGraph.new [.applyCodeDelta (ringDelta n)]

/-- The file index of a graph belongs to its nodes. -/
def FilesIndexed (g : CodeGraph) : Prop :=
  ∀ file idx, idx ∈ (g.fileToNodes.lookup file).getD [] ↔
    (g.nodes[idx]?).map SymbolNode.file = some file

theorem FilesIndexed.addNode {g : CodeGraph} (h : FilesIndexed g) (node : SymbolNode) :
    FilesIndexed (g.addNode node) := by
  intro file idx
  unfold CodeGraph.addNode
  split
  · exact h file idx
  · have hfile : idx ∈ ((CodeGraph.indexFile g.fileToNodes node.file g.nodes.length).lookup
        file).getD [] ↔ idx ∈ (g.fileToNodes.lookup file).getD [] ∨
          file = node.file ∧ idx = g.nodes.length := by
      unfold CodeGraph.indexFile
      rw [lookup_insert_ite]
      by_cases heq : file = node.file
      · rw [if_pos heq, Option.getD_some, List.mem_append, List.mem_singleton, heq]
        simp
      · rw [if_neg heq]
        simp [heq]
    dsimp only
    rw [hfile, h, List.getElem?_append]
    by_cases hlt : idx < g.nodes.length
    · rw [if_pos hlt]
      refine or_iff_left fun hlast => ?_
      omega
    · rw [if_neg hlt, List.getElem?_eq_none (by omega)]
      by_cases hlast : idx = g.nodes.length
      · simp [hlast, eq_comm]
      · have hbeyond : [node][idx - g.nodes.length]? = none := by
          rw [List.getElem?_eq_none_iff, List.length_singleton]
          omega
        rw [hbeyond]
        simp [hlast]

/-- New nodes are added in their order. -/
theorem nodes_foldl_addNode (nodes : List SymbolNode) {g : CodeGraph} (hi : Indexed g)
    (hnodup : ((g.nodes ++ nodes).map SymbolNode.durableId).Nodup) :
    (nodes.foldl CodeGraph.addNode g).nodes = g.nodes ++ nodes := by
  induction nodes generalizing g with
  | nil => rw [List.foldl_nil, List.append_nil]
  | cons node nodes ih =>
    have hnew : g.idToIndex.lookup node.durableId = none := by
      cases hlookup : g.idToIndex.lookup node.durableId with
      | none => rfl
      | some idx =>
        rw [hi.index, Option.map_eq_some_iff] at hlookup
        obtain ⟨known, hknown, hid⟩ := hlookup
        rw [List.map_append, List.nodup_append] at hnodup
        refine absurd hid (hnodup.2.2 known.durableId ?_ node.durableId ?_)
        · exact List.mem_map_of_mem (List.mem_of_getElem? hknown)
        · exact List.mem_map_of_mem List.mem_cons_self
    have hadded : (g.addNode node).nodes = g.nodes ++ [node] := by
      unfold CodeGraph.addNode
      rw [hnew]
    rw [List.foldl_cons, ih (hi.addNode node), hadded, List.append_assoc, List.singleton_append]
    rw [hadded, List.append_assoc, List.singleton_append]
    exact hnodup

/-- Adding edges leaves the nodes and their indexes. -/
theorem foldl_addEdge_keeps (edges : List (String × String × EdgeData)) (g : CodeGraph) :
    (edges.foldl CodeGraph.addEdge g).nodes = g.nodes ∧
      (edges.foldl CodeGraph.addEdge g).idToIndex = g.idToIndex ∧
      (edges.foldl CodeGraph.addEdge g).fileToNodes = g.fileToNodes ∧
      g.edges ⊆ (edges.foldl CodeGraph.addEdge g).edges := by
  induction edges generalizing g with
  | nil => exact ⟨rfl, rfl, rfl, List.Subset.refl _⟩
  | cons edge edges ih =>
    obtain ⟨hnodes, hindex, hfiles, hedges⟩ := ih (g.addEdge edge)
    rw [List.foldl_cons, hnodes, hindex, hfiles]
    have hone : (g.addEdge edge).nodes = g.nodes ∧ (g.addEdge edge).idToIndex = g.idToIndex ∧
        (g.addEdge edge).fileToNodes = g.fileToNodes ∧ g.edges ⊆ (g.addEdge edge).edges := by
      unfold CodeGraph.addEdge
      split
      · exact ⟨rfl, rfl, rfl, List.subset_append_left _ _⟩
      · exact ⟨rfl, rfl, rfl, List.Subset.refl _⟩
    exact ⟨hone.1, hone.2.1, hone.2.2.1, List.Subset.trans hone.2.2.2 hedges⟩

/-- An edge between known nodes is added. -/
theorem mem_foldl_addEdge {edges : List (String × String × EdgeData)} {g : CodeGraph}
    {edge : String × String × EdgeData} (hin : edge ∈ edges) {i j : ℕ}
    (hsource : g.idToIndex.lookup edge.1 = some i)
    (htarget : g.idToIndex.lookup edge.2.1 = some j) :
    (i, j, edge.2.2) ∈ (edges.foldl CodeGraph.addEdge g).edges := by
  obtain ⟨before, after, hsplit⟩ := List.append_of_mem hin
  obtain ⟨-, hindex, -, -⟩ := foldl_addEdge_keeps before g
  have hadded : (i, j, edge.2.2) ∈ ((before.foldl CodeGraph.addEdge g).addEdge edge).edges := by
    generalize before.foldl CodeGraph.addEdge g = g' at hindex ⊢
    unfold CodeGraph.addEdge
    rw [hindex, hsource, htarget]
    exact List.mem_append_right _ (List.mem_singleton_self _)
  rw [hsplit, List.foldl_append, List.foldl_cons]
  exact (foldl_addEdge_keeps after _).2.2.2 hadded

/-- Where modules have different files, a node is of the module of its file. -/
theorem lookup_nodeToModule {g : CodeGraph} (hfiles : FilesIndexed g) {modules : List String}
    (hapart : ∀ a ∈ modules, ∀ b ∈ modules, fileFromDurableId a = fileFromDurableId b → a = b)
    {ni : ℕ} {node : SymbolNode} (hnode : g.nodes[ni]? = some node) {did : String}
    (hdid : did ∈ modules) (hfile : fileFromDurableId did = node.file) :
    (nodeToModule g modules).lookup ni = some did := by
  have hinner : ∀ (numbers : List ℕ) (moduleDid : String) (table : FMap ℕ String),
      (numbers.foldl (fun table ni => table.insert ni moduleDid) table).lookup ni =
        if ni ∈ numbers then some moduleDid else table.lookup ni := by
    intro numbers moduleDid
    induction numbers with
    | nil => exact fun table => rfl
    | cons number numbers ih =>
      intro table
      rw [List.foldl_cons, ih, lookup_insert_ite]
      by_cases hlater : ni ∈ numbers
      · rw [if_pos hlater, if_pos (List.mem_cons_of_mem _ hlater)]
      · rw [if_neg hlater]
        exact if_congr (by simp [hlater]) rfl rfl
  have houter : ∀ (rest : List String) (table : FMap ℕ String), rest ⊆ modules →
      did ∈ rest ∨ table.lookup ni = some did →
      (rest.foldl (fun table moduleDid =>
        ((g.fileToNodes.lookup (fileFromDurableId moduleDid)).getD []).foldl
          (fun table ni => table.insert ni moduleDid) table) table).lookup ni = some did := by
    intro rest
    induction rest with
    | nil => exact fun table _ hor => hor.resolve_left List.not_mem_nil
    | cons moduleDid rest ih =>
      intro table hsub hor
      refine ih _ (List.Subset.trans (List.subset_cons_self _ _) hsub) ?_
      have hof : ni ∈ (g.fileToNodes.lookup (fileFromDurableId moduleDid)).getD [] ↔
          did = moduleDid := by
        rw [hfiles, hnode, Option.map_some, ← hfile, Option.some.injEq]
        exact ⟨hapart did hdid moduleDid (hsub List.mem_cons_self), congrArg fileFromDurableId⟩
      rw [hinner]
      by_cases hhere : did = moduleDid
      · rw [if_pos (hof.mpr hhere), hhere]
        exact .inr rfl
      · rw [if_neg fun hin => hhere (hof.mp hin)]
        exact hor.imp_left fun hin => (List.mem_cons.mp hin).resolve_left hhere
  exact houter modules ∅ (List.Subset.refl _) (.inl hdid)

/-- The file of a module id. -/
theorem fileFromDurableId_module (file : String) :
    fileFromDurableId (CodeLayer.makeModuleDurableId file) = file := by
  have hstart : stripPrefix moduleQualifiedName (moduleQualifiedName ++ file) = some file := by
    unfold stripPrefix
    rw [String.toList_append, if_pos (by simp), List.drop_left, String.ofList_toList]
  unfold fileFromDurableId CodeLayer.makeModuleDurableId
  rw [hstart]

/-- The modules of a ring are different. -/
theorem ringFile_injective : Function.Injective ringFile := by
  intro i j heq
  have hlength := congrArg (fun text : String => text.toList.length) heq
  simpa [ringFile] using hlength

theorem ringModule_injective : Function.Injective ringModule := by
  intro i j heq
  have hfiles := congrArg fileFromDurableId heq
  unfold ringModule at hfiles
  rw [fileFromDurableId_module, fileFromDurableId_module] at hfiles
  exact ringFile_injective hfiles

theorem ringModule_ne_empty (i : ℕ) : ringModule i ≠ "" := by
  intro heq
  have hlength := congrArg (fun text : String => text.toList.length) heq
  simp [ringModule, CodeLayer.makeModuleDurableId, moduleQualifiedName] at hlength

section Ring

variable (n : ℕ)

/-- The nodes of a ring are indexed. -/
theorem ringGraph_nodes :
    (ringGraph n).nodes = (List.range n).map (fun i => moduleNode (ringFile i)) ∧
      FilesIndexed (ringGraph n) ∧ Indexed (ringGraph n) := by
  have hi : Indexed { CodeGraph.new with revision := CodeGraph.new.revision } :=
    ⟨indexed_new.index, indexed_new.ends⟩
  have hstart : FilesIndexed { CodeGraph.new with revision := CodeGraph.new.revision } := by
    intro file idx
    simp [CodeGraph.new]
  have hfiles : ∀ (nodes : List SymbolNode) {g : CodeGraph}, FilesIndexed g →
      FilesIndexed (nodes.foldl CodeGraph.addNode g) := by
    intro nodes
    induction nodes with
    | nil => exact fun h => h
    | cons node nodes ih => exact fun h => ih (h.addNode node)
  have hids : ((ringDelta n).nodesUpserted.map SymbolNode.durableId).Nodup := by
    unfold ringDelta
    rw [List.map_map]
    exact List.nodup_range.map ringModule_injective
  have hnodes := nodes_foldl_addNode (ringDelta n).nodesUpserted hi hids
  have hfilled := hfiles (ringDelta n).nodesUpserted hstart
  obtain ⟨hkept, -, hkeptFiles, -⟩ := foldl_addEdge_keeps (ringDelta n).edgesAdded
    ((ringDelta n).nodesUpserted.foldl CodeGraph.addNode
      { CodeGraph.new with revision := CodeGraph.new.revision })
  refine ⟨hkept.trans hnodes, fun file idx => ?_, ?_⟩
  · change idx ∈ ((List.foldl CodeGraph.addEdge _ _).fileToNodes.lookup file).getD [] ↔
      ((List.foldl CodeGraph.addEdge _ _).nodes[idx]?).map SymbolNode.file = some file
    rw [hkept, hkeptFiles]
    exact hfilled file idx
  · exact Indexed.applyCodeDelta CodeGraph.new (ringDelta n)

theorem moduleIds_ringGraph : moduleIds (ringGraph n) = (List.range n).map ringModule := by
  unfold moduleIds
  rw [(ringGraph_nodes n).1, List.filter_eq_self.mpr, List.map_map]
  · rfl
  · intro node hnode
    obtain ⟨i, -, heq⟩ := List.mem_map.mp hnode
    rw [← heq]
    rfl

/-- Each module of a ring imports the next one. -/
theorem imports_ringGraph {i : ℕ} (hlt : i + 1 < n) :
    Imports (ringGraph n) (ringModule i) (ringModule (i + 1)) := by
  obtain ⟨hnodes, hfiles, hi⟩ := ringGraph_nodes n
  have hat : ∀ j, j < n → (ringGraph n).nodes[j]? = some (moduleNode (ringFile j)) := by
    intro j hj
    rw [hnodes, List.getElem?_map, List.getElem?_range hj]
    rfl
  have hindex : ∀ j, j < n → (ringGraph n).idToIndex.lookup (ringModule j) = some j := by
    intro j hj
    rw [hi.index, hat j hj]
    rfl
  have hapart : ∀ a ∈ (List.range n).map ringModule, ∀ b ∈ (List.range n).map ringModule,
      fileFromDurableId a = fileFromDurableId b → a = b := by
    intro a ha b hb heq
    obtain ⟨k, -, hk⟩ := List.mem_map.mp ha
    obtain ⟨l, -, hl⟩ := List.mem_map.mp hb
    rw [← hk, ← hl] at heq ⊢
    unfold ringModule at heq ⊢
    rw [fileFromDurableId_module, fileFromDurableId_module] at heq
    rw [heq]
  have hmodule : ∀ j, j < n →
      (nodeToModule (ringGraph n) (moduleIds (ringGraph n))).lookup j = some (ringModule j) := by
    intro j hj
    rw [moduleIds_ringGraph]
    exact lookup_nodeToModule hfiles hapart (hat j hj)
      (List.mem_map_of_mem (List.mem_range.mpr hj)) (fileFromDurableId_module _)
  have hedge : (i, i + 1, smallEdge .imports) ∈ (ringGraph n).edges := by
    have hadded : (ringModule i, ringModule ((i + 1) % n), smallEdge .imports) ∈
        (ringDelta n).edgesAdded :=
      List.mem_map.mpr ⟨i, List.mem_range.mpr (by omega), rfl⟩
    rw [Nat.mod_eq_of_lt hlt] at hadded
    have hkept := (foldl_addEdge_keeps (ringDelta n).edgesAdded
      ((ringDelta n).nodesUpserted.foldl CodeGraph.addNode
        { CodeGraph.new with revision := CodeGraph.new.revision })).2.1
    refine mem_foldl_addEdge hadded ?_ ?_
    · rw [← hkept]
      exact hindex i (by omega)
    · rw [← hkept]
      exact hindex (i + 1) hlt
  refine ⟨ringModule_ne_empty i, ringModule_ne_empty (i + 1), fun heq => ?_, _, hedge, rfl,
    hmodule i (by omega), hmodule (i + 1) hlt⟩
  have hsame := ringModule_injective heq
  omega

/-- The modules of a ring are a path from the first one. -/
theorem freshPath_ring (htwo : 2 ≤ n) :
    FreshPath (Imports (ringGraph n)) (buildModuleGraph (ringGraph n)).nodes
      ((List.range n).map ringModule) := by
  have hnodes : (buildModuleGraph (ringGraph n)).nodes = (List.range n).map ringModule := by
    rw [nodes_eq, moduleIds_ringGraph, List.length_map, List.length_range, if_neg (by omega)]
  refine ⟨List.isChain_iff_getElem.mpr fun i hlt => ?_, List.nodup_range.map ringModule_injective,
    [], ringModule 0, ((List.range n).map ringModule).tail, ?_, ?_, fun a ha => ?_⟩
  · rw [List.length_map, List.length_range] at hlt
    simp only [List.getElem_map, List.getElem_range]
    exact imports_ringGraph n hlt
  · obtain ⟨k, rfl⟩ := Nat.exists_eq_add_of_le' htwo
    rw [hnodes, List.range_succ_eq_map]
    rfl
  · obtain ⟨k, rfl⟩ := Nat.exists_eq_add_of_le' htwo
    rw [List.range_succ_eq_map]
    rfl
  · exact absurd ha List.not_mem_nil

end Ring

/-- In a ring of 1100 modules the search does not return when a thousand calls
may be within each other. -/
theorem long_ring_not_detected :
    ¬ Detected 1000 (alongPath ((List.range 1100).map ringModule)) walkedComponents
      (ringGraph 1100) := by
  intro hdetected
  obtain ⟨s, hsearch, -⟩ := hdetected
  have hlong : 1000 < ((List.range 1100).map ringModule).length := by
    rw [List.length_map, List.length_range]
    decide
  rw [importSearch_alongPath (ringGraph_nodes 1100).2.2 (freshPath_ring 1100 (by decide)) hlong]
    at hsearch
  cases hsearch

end Tyo3.ImportCycles
