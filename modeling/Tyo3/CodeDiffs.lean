import Tyo3.GraphNodes
import Tyo3.IdentityScope
import Tyo3.Snapshots

/-!
# Code diffs of snapshots

The graph of a snapshot is the code layer it carries, or else one built from
its pinned content with its registry. The code diff of two graphs compares
their entity nodes by durable id: ids of one graph only, ids with different
hashes, and ids with one hash at different places. Edges are compared as
sets of ends, kind and role.
-/

namespace Tyo3.CodeDiffs

open CodeLayer CodeLayerBuilder CodeLayerFiles CodeLayerProjects CommitFunnel CommitPlan
  ContentStore DocumentSymbols Entities FiniteMaps GraphNodes IdentityAnchors IdentityScope
  Snapshots SystemPaths

/-! ## Graphs of snapshots -/

/-- What the builder of the code layer reads of a snapshot. -/
def snapshotOutputs (crates : Crates) (answers : Answers) (s : Snapshot) : Outputs where
  root := s.root.asStr
  files := (sourceFiles crates answers).map SystemPath.asStr
  symbols native :=
    ((sourceFiles crates answers).find? fun p => p.asStr = native).map fun p =>
      collectSymbolsForest
        { filePath := native
          registry := s.registry
          rangeOf := answers.rangeOf p
          profileHashes := answers.profileHashes p
          profiles := s.hashProfiles
          defaultProfile := s.defaultHashProfile } none none (answers.documentSymbols p)
  occurrences := answers.occurrences
  gotoDefinition := answers.gotoDefinition
  supertypes := answers.supertypes

/-- The graph of a snapshot. -/
def graph (crates : Crates) (engine : Engine) (s : Snapshot) : Layer :=
  match s.codeLayer with
  | some layer => layer
  | none => build (snapshotOutputs crates (engine.answers s.generation) s)

/-- A snapshot of a past revision builds its graph from the past content with
the registry of the head it was taken from. -/
theorem graph_pin_past (crates : Crates) (engine : Engine) (head : HeadState)
    (generation : ContentMap) (revision : Revision) :
    graph crates engine (pin head generation revision none false) =
      build (outputs crates (engine.answers generation) head) := rfl

/-! ## The diff -/

/-- An edge as the diff compares it. -/
abbrev EdgeKey := String × String × EdgeKind × Option ReferenceRole

/-- Structural code diff between two revisions. -/
structure CodeDiff where
  /-- Ids of the later graph only. -/
  added : Finset DurableId
  /-- Ids of the earlier graph only. -/
  removed : Finset DurableId
  /-- Ids of both graphs with different hashes. -/
  changed : Finset DurableId
  /-- Ids of both graphs with one hash and different places. -/
  moved : Finset DurableId
  /-- Edges of the later graph only. -/
  edgesAdded : Finset EdgeKey
  /-- Edges of the earlier graph only. -/
  edgesRemoved : Finset EdgeKey

/-- The ids of the entity nodes of a graph. -/
def entityIds (layer : Layer) : Finset DurableId :=
  layer.nodes.keys.filter fun id => (entityNode layer id).isSome

/-- Whether the entity nodes of an id in two graphs pass a comparison. -/
def compareNodes (after before : Layer) (test : NodeData → NodeData → Bool) (id : DurableId) :
    Bool :=
  match entityNode after id, entityNode before id with
  | some a, some b => test a b
  | _, _ => false

/-- The edges of a graph that touch an entity. -/
def edgeSet (layer : Layer) : Finset EdgeKey :=
  (layer.edges.filter fun e => (entityNode layer e.source).isSome ∨
    (entityNode layer e.target).isSome).image fun e => (e.source, e.target, e.kind, e.role)

/-- Compute the code diff of two graphs. -/
def computeCodeDiff (after before : Layer) : CodeDiff where
  added := entityIds after \ entityIds before
  removed := entityIds before \ entityIds after
  changed := (entityIds after ∩ entityIds before).filter fun id =>
    compareNodes after before (fun a b => decide (a.contentHash ≠ b.contentHash)) id
  moved := (entityIds after ∩ entityIds before).filter fun id =>
    compareNodes after before (fun a b => decide (a.contentHash = b.contentHash ∧
      (a.file ≠ b.file ∨ a.qualifiedName ≠ b.qualifiedName))) id
  edgesAdded := edgeSet after \ edgeSet before
  edgesRemoved := edgeSet before \ edgeSet after

theorem mem_entityIds {layer : Layer} {id : DurableId} :
    id ∈ entityIds layer ↔ ∃ node, entityNode layer id = some node := by
  unfold entityIds
  rw [Finset.mem_filter, Option.isSome_iff_exists, mem_keys_iff]
  refine and_iff_right_of_imp ?_
  rintro ⟨node, hnode⟩
  exact ⟨node, (entityNode_eq_some.mp hnode).1⟩

/-- A comparison holds for nodes of both graphs. -/
theorem compareNodes_iff {after before : Layer} {test : NodeData → NodeData → Bool}
    {id : DurableId} :
    compareNodes after before test id = true ↔ ∃ a b, entityNode after id = some a ∧
      entityNode before id = some b ∧ test a b = true := by
  unfold compareNodes
  cases entityNode after id with
  | none => simp
  | some a =>
    cases entityNode before id with
    | none => simp
    | some b => simp

theorem mem_compared {after before : Layer} {test : NodeData → NodeData → Bool} {id : DurableId} :
    id ∈ (entityIds after ∩ entityIds before).filter
      (fun id => compareNodes after before test id = true) ↔
      ∃ a b, entityNode after id = some a ∧ entityNode before id = some b ∧ test a b = true := by
  rw [Finset.mem_filter, compareNodes_iff, Finset.mem_inter, mem_entityIds, mem_entityIds]
  refine and_iff_right_of_imp ?_
  rintro ⟨a, b, ha, hb, -⟩
  exact ⟨⟨a, ha⟩, b, hb⟩

/-! ## Symbols and entities -/

/-- In lists that correspond entry by entry, every right entry has a left
one. -/
theorem exists_left_of_forall₂ {α β : Type*} {R : α → β → Prop} {xs : List α} {ys : List β}
    (h : List.Forall₂ R xs ys) {y : β} (hy : y ∈ ys) : ∃ x ∈ xs, R x y := by
  induction h with
  | nil => cases hy
  | cons hxy _ ih =>
    rcases List.mem_cons.mp hy with rfl | hmem
    · exact ⟨_, List.mem_cons_self, hxy⟩
    · obtain ⟨x, hx, hR⟩ := ih hmem
      exact ⟨x, List.mem_cons_of_mem _ hx, hR⟩

/-- In lists that correspond entry by entry, every left entry has a right
one. -/
theorem exists_right_of_forall₂ {α β : Type*} {R : α → β → Prop} {xs : List α} {ys : List β}
    (h : List.Forall₂ R xs ys) {x : α} (hx : x ∈ xs) : ∃ y ∈ ys, R x y := by
  have hflip : List.Forall₂ (flip R) ys xs := List.Forall₂.flip h
  exact exists_left_of_forall₂ hflip hx

/-- A symbol describes an entity: the id under its path, the hash of its
range and its dotted name. -/
structure Describes (ctx : SymbolWalkCtx) (hashOf : TextRange → ContentHash) (e : Entity)
    (symbol : SymbolDto) : Prop where
  /-- The id of the anchor under the path. -/
  durableId : symbol.durableId =
    ((ctx.registry.byPath.lookup e.qualifiedPath).bind ctx.registry.get).map Anchor.id
  /-- The hash under the default profile. -/
  contentHash : ctx.profiles ≠ ∅ →
    symbol.contentHash = (ctx.contentHashes e.fullRange).lookup ctx.defaultProfile
  /-- The dotted name. -/
  qualifiedName : symbol.qualifiedName.getD symbol.name = e.qualifiedName
  /-- The hash of the entity is the one of its range. -/
  hashed : e.contentHash = hashOf e.fullRange

mutual

/-- The walks for symbols and for entities see the same tree. -/
theorem describes_recursive (ctx : SymbolWalkCtx) (hashOf : TextRange → ContentHash)
    (parentQualified parentDotted : Option String) : ∀ tree : SymbolTree,
    List.Forall₂ (Describes ctx hashOf)
      (collectEntitiesRecursive hashOf ctx.filePath parentQualified parentDotted tree)
      (collectSymbolsRecursive ctx parentDotted parentQualified tree)
  | .node info children => by
    unfold collectEntitiesRecursive collectSymbolsRecursive
    cases parentDotted with
    | none =>
      refine .cons ⟨rfl, fun hne => if_neg hne, rfl, rfl⟩ ?_
      exact describes_forest ctx hashOf _ _ children
    | some dotted =>
      refine .cons ⟨rfl, fun hne => if_neg hne, rfl, rfl⟩ ?_
      exact describes_forest ctx hashOf _ _ children

/-- The walks for symbols and for entities see the same trees. -/
theorem describes_forest (ctx : SymbolWalkCtx) (hashOf : TextRange → ContentHash)
    (parentQualified parentDotted : Option String) : ∀ trees : List SymbolTree,
    List.Forall₂ (Describes ctx hashOf)
      (collectEntitiesForest hashOf ctx.filePath parentQualified parentDotted trees)
      (collectSymbolsForest ctx parentDotted parentQualified trees)
  | [] => by
    unfold collectEntitiesForest collectSymbolsForest
    exact .nil
  | tree :: trees => by
    unfold collectEntitiesForest collectSymbolsForest
    exact List.rel_append (describes_recursive ctx hashOf _ _ tree)
      (describes_forest ctx hashOf _ _ trees)

end

/-- A key that is written during a fold keeps its value, when the other steps
leave it in place. -/
theorem lookup_foldl_of_mem {write : FMap String String → String → FMap String String}
    {key value : String} (hwrite : ∀ m, (write m key).lookup key = some value)
    (hkeep : ∀ m other, other ≠ key → m.lookup key = some value →
      (write m other).lookup key = some value) {keys : List String} (hmem : key ∈ keys)
    (m : FMap String String) : (keys.foldl write m).lookup key = some value := by
  have hfold : ∀ (keys : List String) (m : FMap String String),
      key ∈ keys ∨ m.lookup key = some value → (keys.foldl write m).lookup key = some value := by
    intro keys
    induction keys with
    | nil =>
      rintro m (hmem | hfound)
      · cases hmem
      · exact hfound
    | cons first keys ih =>
      intro m hcases
      rw [List.foldl_cons]
      apply ih
      by_cases hfirst : first = key
      · rw [hfirst]
        exact .inr (hwrite m)
      · rcases hcases with hmem | hfound
        · exact .inl ((List.mem_cons.mp hmem).resolve_left fun h => hfirst h.symm)
        · exact .inr (hkeep m first hfirst hfound)
  exact hfold keys m (.inl hmem)

/-- Hashes by profile are the hashes of the engine as texts. -/
theorem lookup_contentHashes (ctx : SymbolWalkCtx) (range : TextRange) {profile : String}
    (hprofile : profile ∈ ctx.profiles) {hash : ContentHash}
    (hhash : (ctx.profileHashes range).lookup profile = some hash) :
    (ctx.contentHashes range).lookup profile = some (toString hash.val) := by
  unfold SymbolWalkCtx.contentHashes
  refine lookup_foldl_of_mem (fun hashes => ?_) (fun hashes other hother hfound => ?_)
    ((HashOrder.mem_order _ _ _).mpr hprofile) ∅
  · rw [hhash]
    exact Finmap.lookup_insert hashes
  · cases (ctx.profileHashes range).lookup other with
    | none => exact hfound
    | some otherHash =>
      dsimp only
      rw [lookup_insert_ite, if_neg hother.symm]
      exact hfound

/-! ## Entities in the graph -/

/-- Extraction over one content: the files are listed once and lie below the
root, qualified paths are distinct, and the default profile of a head is the
one entities are hashed under. -/
structure Extracts (crates : Crates) (answers : Answers) (head : HeadState) : Prop where
  /-- No file twice. -/
  listed : ((sourceFiles crates answers).map SystemPath.asStr).Nodup
  /-- All files below the root. -/
  below : ∀ p ∈ sourceFiles crates answers, toGraphPath head.root.asStr p.asStr ≠ p.asStr
  /-- No qualified path twice. -/
  distinct : ((extractEntities crates answers).map Entity.qualifiedPath).Nodup
  /-- The default profile is configured. -/
  configured : head.defaultHashProfile ∈ head.hashProfiles
  /-- The default profile gives the hash of the entity. -/
  hashed : ∀ p ∈ sourceFiles crates answers, ∀ e ∈ fileEntities answers p,
    (answers.profileHashes p e.fullRange).lookup head.defaultHashProfile = some e.contentHash

/-- The node of an entity: its hash as a text, its file in the graph and its
dotted name. -/
structure NodeOf (root : String) (e : Entity) (node : NodeData) : Prop where
  /-- The hash. -/
  contentHash : node.contentHash = some (toString e.contentHash.val)
  /-- The file. -/
  file : node.file = toGraphPath root e.file
  /-- The dotted name. -/
  qualifiedName : node.qualifiedName = e.qualifiedName

/-- What the walk over a file reads when the registry is the one of a head. -/
def walkOf (answers : Answers) (head : HeadState) (p : SystemPath) : SymbolWalkCtx where
  filePath := p.asStr
  registry := head.registry
  rangeOf := answers.rangeOf p
  profileHashes := answers.profileHashes p
  profiles := head.hashProfiles
  defaultProfile := head.defaultHashProfile

/-- The files of a build are the listed files with their symbols. -/
theorem mem_filesOf_outputs {crates : Crates} {answers : Answers} {head : HeadState}
    (h : Extracts crates answers head) {fs : FileSymbols} :
    fs ∈ filesOf (outputs crates answers head) ↔ ∃ p ∈ sourceFiles crates answers,
      fs = ⟨toGraphPath head.root.asStr p.asStr, p.asStr,
        collectSymbolsForest (walkOf answers head p) none none (answers.documentSymbols p)⟩ := by
  have hfind : ∀ p ∈ sourceFiles crates answers,
      ((sourceFiles crates answers).find? fun q => q.asStr = p.asStr) = some p :=
    fun p hp => find?_eq_some_of_nodup h.listed hp rfl
  have hlisting : ∀ file native, (file, native) ∈ projectListing (outputs crates answers head) ↔
      ∃ p ∈ sourceFiles crates answers, file = toGraphPath head.root.asStr p.asStr ∧
        native = p.asStr := by
    intro file native
    unfold projectListing outputs
    dsimp only
    rw [List.mem_filter, List.mem_map]
    constructor
    · rintro ⟨⟨native', hnative, hpair⟩, -⟩
      obtain ⟨p, hp, hstr⟩ := List.mem_map.mp hnative
      cases hpair
      exact ⟨p, hp, by rw [hstr], hstr.symm⟩
    · rintro ⟨p, hp, rfl, rfl⟩
      exact ⟨⟨p.asStr, List.mem_map_of_mem hp, rfl⟩, decide_eq_true (h.below p hp)⟩
  unfold filesOf
  rw [mem_collectSymbols, hlisting]
  constructor
  · rintro ⟨⟨p, hp, hfile, hnative⟩, hsymbols⟩
    refine ⟨p, hp, ?_⟩
    unfold outputs at hsymbols
    dsimp only at hsymbols
    rw [hnative, hfind p hp] at hsymbols
    cases fs
    simp only [FileSymbols.mk.injEq]
    exact ⟨hfile, hnative, (Option.some.inj hsymbols).symm⟩
  · rintro ⟨p, hp, rfl⟩
    refine ⟨⟨p, hp, rfl, rfl⟩, ?_⟩
    unfold outputs
    dsimp only
    rw [hfind p hp]
    rfl

section Nodes

variable {crates : Crates} {answers : Answers} {head : HeadState} {id : DurableId}

/-- A symbol of a file describes an entity of the file. -/
theorem describes_file (answers : Answers) (head : HeadState) (p : SystemPath) :
    List.Forall₂ (Describes (walkOf answers head p) (answers.contentHash p))
      (fileEntities answers p)
      (collectSymbolsForest (walkOf answers head p) none none (answers.documentSymbols p)) :=
  describes_forest (walkOf answers head p) (answers.contentHash p) none none
    (answers.documentSymbols p)

/-- The id of a symbol is the holder of the path of its entity. -/
theorem durableId_eq_some_iff {p : SystemPath} {e : Entity} {symbol : SymbolDto}
    (hs : head.registry.Sound)
    (h : Describes (walkOf answers head p) (answers.contentHash p) e symbol) :
    symbol.durableId = some id ↔ head.registry.byPath.lookup e.qualifiedPath = some id := by
  rw [h.durableId]
  have hregistry : (walkOf answers head p).registry = head.registry := rfl
  rw [hregistry]
  cases hpath : head.registry.byPath.lookup e.qualifiedPath with
  | none => simp
  | some holder =>
    obtain ⟨a, ha, -⟩ := hs.path_anchor _ _ hpath
    have hkey : a.id = holder := head.registry.keyed holder a ha
    rw [Option.bind_some, ha, Option.map_some, hkey]

/-- The node of a symbol is the node of its entity. -/
theorem nodeOf_symbolNode (hx : Extracts crates answers head) {p : SystemPath}
    (hp : p ∈ sourceFiles crates answers) {e : Entity} (he : e ∈ fileEntities answers p)
    {symbol : SymbolDto}
    (h : Describes (walkOf answers head p) (answers.contentHash p) e symbol) :
    NodeOf head.root.asStr e
      (Builder.symbolNode (toGraphPath head.root.asStr p.asStr) symbol) := by
  have hne : (walkOf answers head p).profiles ≠ ∅ := Finset.ne_empty_of_mem hx.configured
  have hhash := lookup_contentHashes (walkOf answers head p) e.fullRange hx.configured
    (hx.hashed p hp e he)
  have hfile : e.file = p.asStr := file_of_mem_fileEntities he
  refine ⟨(h.contentHash hne).trans hhash, ?_, h.qualifiedName⟩
  rw [hfile]
  rfl

/-- An entity node of the graph is the node of an entity whose path its id
holds. -/
theorem entity_of_entityNode (hs : head.registry.Sound) (hx : Extracts crates answers head)
    {node : NodeData} (h : entityNode (build (outputs crates answers head)) id = some node) :
    isModuleId id = false ∧ ∃ e ∈ extractEntities crates answers,
      head.registry.byPath.lookup e.qualifiedPath = some id ∧ NodeOf head.root.asStr e node := by
  obtain ⟨hshape, fs, hfs, symbol, hsymbol, hid, hnode⟩ := symbol_of_entityNode h
  obtain ⟨p, hp, hfile⟩ := (mem_filesOf_outputs hx).mp hfs
  rw [hfile] at hsymbol hnode
  obtain ⟨e, he, hdescribes⟩ := exists_left_of_forall₂ (describes_file answers head p) hsymbol
  refine ⟨hshape, e, mem_extractEntities.mpr ⟨p, hp, he⟩,
    (durableId_eq_some_iff hs hdescribes).mp hid, ?_⟩
  rw [hnode]
  exact nodeOf_symbolNode hx hp he hdescribes

/-- An entity whose path is held by an id has its node in the graph. -/
theorem entityNode_of_entity (hs : head.registry.Sound) (hx : Extracts crates answers head)
    {e : Entity} (he : e ∈ extractEntities crates answers)
    (hpath : head.registry.byPath.lookup e.qualifiedPath = some id)
    (hshape : isModuleId id = false) :
    ∃ node, entityNode (build (outputs crates answers head)) id = some node ∧
      NodeOf head.root.asStr e node := by
  obtain ⟨p, hp, hein⟩ := mem_extractEntities.mp he
  obtain ⟨symbol, hsymbol, hdescribes⟩ := exists_right_of_forall₂ (describes_file answers head p) hein
  have hid := (durableId_eq_some_iff hs hdescribes).mpr hpath
  have hfs := (mem_filesOf_outputs hx).mpr ⟨p, hp, rfl⟩
  obtain ⟨node, hnode⟩ := entityNode_of_symbol hfs hsymbol hid hshape
  obtain ⟨-, e', he', hpath', hnodeOf⟩ := entity_of_entityNode hs hx hnode
  -- one path leads to the id, and one entity has this path
  have hsame : e' = e := List.inj_on_of_nodup_map hx.distinct he' he
    (hs.linked.path_injective hpath' hpath)
  rw [hsame] at hnodeOf
  exact ⟨node, hnode, hnodeOf⟩

end Nodes

end Tyo3.CodeDiffs
