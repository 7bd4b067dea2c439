import Tyo3.DerivedLayers
import Tyo3.LayerOrder
import Tyo3.Runs

/-!
# Deltas of the code layer

A delta says what became of the nodes and edges of one layer in the next one:
a node is sent whole when it is new or differs in a structural field, with its
place alone when it only moved, and not at all otherwise. Against the empty
layer every node and edge is sent. A mirror holds the nodes and edges as they
are sent and is kept up to date by deltas alone. It follows a layer exactly as
long as no field that a delta does not look at changes on its own.
-/

namespace Tyo3.LayerDeltas

open CodeLayer Tyo3.Configuration DerivedLayers FiniteMaps LayerOrder Runs

/-! ## What is sent -/

/-- A node with all of its fields. -/
structure CodeNodeDto where
  /-- Durable id. -/
  durableId : String
  /-- Unqualified name. -/
  name : String
  /-- Dotted name. -/
  qualifiedName : String
  /-- Kind of the symbol, as a text. -/
  kind : String
  /-- File of the node. -/
  file : String
  /-- Range of the definition. -/
  range : Range
  /-- Range of the name. -/
  nameRange : Option Range
  /-- Hash under the default profile. -/
  contentHash : Option String
  /-- Hashes by profile. -/
  contentHashes : FMap String String
  /-- Whether the node is a stub. -/
  external : Bool
  /-- Package of a stub. -/
  package : Option String
  deriving DecidableEq

/-- A node at a new place. -/
structure CodeNodeMovedDto where
  /-- Durable id. -/
  durableId : String
  /-- File of the node. -/
  file : String
  /-- Range of the definition. -/
  range : Range
  /-- Range of the name. -/
  nameRange : Option Range
  deriving DecidableEq

/-- An edge. -/
structure CodeEdgeDto where
  /-- Id of the source. -/
  sourceId : String
  /-- Id of the target. -/
  destinationId : String
  /-- Kind of the edge, as a text. -/
  kind : String
  /-- Role of the name, as a text. -/
  role : Option String
  /-- File of the place. -/
  file : Option String
  /-- Range of the place. -/
  range : Option Range
  deriving DecidableEq

/-- A delta between two layers. -/
structure CodeDeltaDto where
  /-- The revision of the next layer. -/
  revision : ℕ
  /-- Whether the delta is a full one. -/
  rescan : Bool
  /-- Nodes that are new or differ in a structural field. -/
  nodesUpserted : List CodeNodeDto
  /-- Ids of the nodes that are gone. -/
  nodesRemoved : List String
  /-- Nodes that only moved. -/
  nodesMoved : List CodeNodeMovedDto
  /-- New edges. -/
  edgesAdded : List CodeEdgeDto
  /-- Edges that are gone. -/
  edgesRemoved : List CodeEdgeDto
  deriving DecidableEq

/-- The text of an edge kind. -/
def edgeKindStr : EdgeKind → String
  | .defines => "defines"
  | .contains => "contains"
  | .references => "references"
  | .imports => "imports"
  | .inherits => "inherits"
  | .overrides => "overrides"

/-- The text of a role. -/
def roleStr : ReferenceRole → String
  | .read => "read"
  | .write => "write"
  | .import_ => "import"
  | .definition => "definition"
  | .other => "other"

/-- The node as it is sent. -/
def nodeDto (durableId : String) (node : NodeData) : CodeNodeDto where
  durableId := durableId
  name := node.name
  qualifiedName := node.qualifiedName
  kind := symbolKindStr node.kind
  file := node.file
  range := node.range
  nameRange := node.nameRange
  contentHash := node.contentHash
  contentHashes := node.contentHashes
  external := node.external
  package := node.package

/-- The edge as it is sent. -/
def edgeDto (edge : Edge) : CodeEdgeDto where
  sourceId := edge.source
  destinationId := edge.target
  kind := edgeKindStr edge.kind
  role := edge.role.map roleStr
  file := edge.file
  range := edge.range

/-! ## The delta -/

/-- Two nodes agree in the fields that make a node be sent again. -/
def structurallySame (node other : NodeData) : Bool :=
  decide (node.name = other.name) && decide (node.qualifiedName = other.qualifiedName) &&
  decide (node.kind = other.kind) && decide (node.contentHash = other.contentHash) &&
  decide (node.external = other.external)

/-- What becomes of a node of the next layer. -/
inductive NodeChange where
  | upserted | moved | unchanged
  deriving DecidableEq, Repr

/-- A node compared with the one of its id before. -/
def changeOf (before : Option NodeData) (node : NodeData) : NodeChange :=
  match before with
  | none => .upserted
  | some p =>
    if structurallySame p node = false then .upserted
    else if p.file ≠ node.file ∨ p.range ≠ node.range then .moved
    else .unchanged

/-- The node of the next layer, if it is sent whole. -/
def sentNode (prev : Layer) (id : String) (node : NodeData) : Option CodeNodeDto :=
  if changeOf (prev.nodes.lookup id) node = .upserted then some (nodeDto id node) else none

/-- The place of a node of the next layer, if it only moved. -/
def sentPlace (prev : Layer) (id : String) (node : NodeData) : Option CodeNodeMovedDto :=
  if changeOf (prev.nodes.lookup id) node = .moved then
    some ⟨id, node.file, node.range, node.nameRange⟩
  else none

/-- The delta from one layer to the next. -/
def diffFrom (next prev : Layer) (revision : ℕ) (rescan : Bool) : CodeDeltaDto where
  revision := revision
  rescan := rescan
  nodesUpserted := (entries next.nodes).filterMap fun entry => sentNode prev entry.1 entry.2
  nodesRemoved := (HashOrder.increasing.order prev.nodes.keys).filter fun id => id ∉ next.nodes.keys
  nodesMoved := (entries next.nodes).filterMap fun entry => sentPlace prev entry.1 entry.2
  edgesAdded := (HashOrder.increasing.order (next.edges \ prev.edges)).map edgeDto
  edgesRemoved := (HashOrder.increasing.order (prev.edges \ next.edges)).map edgeDto

/-- The full delta of a layer. -/
def fullCodeDelta (layer : Layer) (revision : ℕ) : CodeDeltaDto :=
  diffFrom layer Layer.new revision true

/-! ## Mirrors -/

/-- The nodes and edges as they were sent. -/
@[ext] structure Mirror where
  /-- The node of an id. -/
  nodes : String → Option CodeNodeDto
  /-- Edges. -/
  edges : Set CodeEdgeDto

/-- A mirror to which nothing was sent. -/
def Mirror.empty : Mirror := ⟨fun _ => none, ∅⟩

/-- The mirror of a layer. -/
def mirrorOf (layer : Layer) : Mirror where
  nodes id := (layer.nodes.lookup id).map (nodeDto id)
  edges := edgeDto '' layer.edges

/-- What a delta makes of the node of an id: a node that is sent replaces it,
a removed one is dropped, a moved one gets its new place. -/
def nodeAfter (delta : CodeDeltaDto) (id : String) (node : Option CodeNodeDto) :
    Option CodeNodeDto :=
  match delta.nodesUpserted.find? fun dto => dto.durableId = id with
  | some sent => some sent
  | none =>
    if id ∈ delta.nodesRemoved then none
    else match delta.nodesMoved.find? fun dto => dto.durableId = id with
      | some place => node.map fun dto =>
        { dto with file := place.file, range := place.range, nameRange := place.nameRange }
      | none => node

/-- The mirror after a delta. -/
def Mirror.apply (m : Mirror) (delta : CodeDeltaDto) : Mirror where
  nodes id := nodeAfter delta id (m.nodes id)
  edges := (m.edges \ {dto | dto ∈ delta.edgesRemoved}) ∪ {dto | dto ∈ delta.edgesAdded}

/-- No node changes only in a field that the delta does not look at: the
hashes by profile, the package, or the range of the name of a node that stays
in its place. -/
def Carried (prev next : Layer) : Prop :=
  ∀ id p node, prev.nodes.lookup id = some p → next.nodes.lookup id = some node →
    structurallySame p node = true → p.contentHashes = node.contentHashes ∧
      p.package = node.package ∧
      (p.file = node.file → p.range = node.range → p.nameRange = node.nameRange)

/-! ## What a delta lists -/

/-- In a list of what is known of some keys, a key is found with what is known
of it. -/
theorem find?_filterMap_of_key {K V : Type*} [DecidableEq K] {key : V → K} {value : K → Option V}
    (hkey : ∀ k v, value k = some v → key v = k) (keys : List K) (k : K) :
    ((keys.filterMap value).find? fun v => key v = k) = if k ∈ keys then value k else none := by
  induction keys with
  | nil => simp
  | cons first keys ih =>
    cases hfirst : value first with
    | none =>
      rw [List.filterMap_cons_none hfirst, ih]
      by_cases hk : k = first
      · rw [hk, hfirst]
        simp
      · simp [hk]
    | some v =>
      rw [List.filterMap_cons_some hfirst, List.find?_cons]
      by_cases hk : k = first
      · have hv : key v = k := (hkey first v hfirst).trans hk.symm
        rw [hk] at hv ⊢
        simp [hv, hfirst]
      · have hv : key v ≠ k := fun h => hk (h.symm.trans (hkey first v hfirst))
        simp [hv, hk, ih]

/-- A list made from the entries of a map, searched by key. -/
theorem find?_entries {V W : Type*} {m : FMap String V} {key : W → String}
    {value : String → V → Option W} (hkey : ∀ k v w, value k v = some w → key w = k) (k : String) :
    (((entries m).filterMap fun entry => value entry.1 entry.2).find? fun w => key w = k) =
      (m.lookup k).bind (value k) := by
  have hlist : ((entries m).filterMap fun entry => value entry.1 entry.2) =
      (HashOrder.increasing.order m.keys).filterMap fun k => (m.lookup k).bind (value k) := by
    unfold entries
    rw [List.filterMap_filterMap]
    refine List.filterMap_congr fun k _ => ?_
    cases m.lookup k <;> rfl
  rw [hlist, find?_filterMap_of_key]
  · split
    · rfl
    · rename_i habsent
      have hnone : m.lookup k = none := by
        rw [HashOrder.mem_order, Finmap.mem_keys] at habsent
        exact Finmap.lookup_eq_none.mpr habsent
      rw [hnone]
      rfl
  · intro k w hw
    obtain ⟨v, -, hv⟩ := Option.bind_eq_some_iff.mp hw
    exact hkey k v w hv

variable {prev next : Layer} {revision : ℕ} {rescan : Bool}

/-- The node that a delta sends for an id. -/
theorem find?_nodesUpserted (id : String) :
    ((diffFrom next prev revision rescan).nodesUpserted.find? fun dto => dto.durableId = id) =
      (next.nodes.lookup id).bind (sentNode prev id) := by
  refine @find?_entries NodeData CodeNodeDto next.nodes CodeNodeDto.durableId (sentNode prev)
    (fun k node dto hdto => ?_) id
  unfold sentNode at hdto
  split at hdto
  · cases hdto
    rfl
  · cases hdto

/-- The place that a delta sends for an id. -/
theorem find?_nodesMoved (id : String) :
    ((diffFrom next prev revision rescan).nodesMoved.find? fun dto => dto.durableId = id) =
      (next.nodes.lookup id).bind (sentPlace prev id) := by
  refine @find?_entries NodeData CodeNodeMovedDto next.nodes CodeNodeMovedDto.durableId
    (sentPlace prev) (fun k node dto hdto => ?_) id
  unfold sentPlace at hdto
  split at hdto
  · cases hdto
    rfl
  · cases hdto

/-- The ids that a delta removes. -/
theorem mem_nodesRemoved {id : String} :
    id ∈ (diffFrom next prev revision rescan).nodesRemoved ↔
      id ∈ prev.nodes.keys ∧ next.nodes.lookup id = none := by
  unfold diffFrom
  dsimp only
  rw [List.mem_filter, HashOrder.mem_order, decide_eq_true_eq, Finmap.mem_keys (s := next.nodes),
    Finmap.lookup_eq_none]

/-! ## Nodes after a delta -/

/-- A node that was there is sent whole when it differs in a structural field. -/
theorem changeOf_eq_upserted_iff {before : Option NodeData} {node : NodeData} :
    changeOf before node = .upserted ↔ ∀ p, before = some p → structurallySame p node = false := by
  unfold changeOf
  cases before with
  | none => simp
  | some p =>
    dsimp only
    split_ifs with hsame hplace <;> simp_all

/-- What a delta makes of the node of an id that both layers have. -/
theorem nodeAfter_of_both {id : String} {p node : NodeData}
    (hprev : prev.nodes.lookup id = some p) (hnext : next.nodes.lookup id = some node) :
    nodeAfter (diffFrom next prev revision rescan) id (some (nodeDto id p)) =
      match changeOf (some p) node with
      | .upserted => some (nodeDto id node)
      | .moved => some { nodeDto id p with
          file := node.file, range := node.range, nameRange := node.nameRange }
      | .unchanged => some (nodeDto id p) := by
  have hkept : id ∉ (diffFrom next prev revision rescan).nodesRemoved := fun hremoved => by
    rw [mem_nodesRemoved, hnext] at hremoved
    exact absurd hremoved.2 (by simp)
  unfold nodeAfter
  rw [find?_nodesUpserted, find?_nodesMoved, hnext, Option.bind_some, Option.bind_some,
    if_neg hkept]
  unfold sentNode sentPlace
  rw [hprev]
  cases changeOf (some p) node <;> rfl

/-- A node of the next layer alone is sent. -/
theorem nodeAfter_of_new {id : String} {node : NodeData} (hprev : prev.nodes.lookup id = none)
    (hnext : next.nodes.lookup id = some node) (before : Option CodeNodeDto) :
    nodeAfter (diffFrom next prev revision rescan) id before = some (nodeDto id node) := by
  unfold nodeAfter
  rw [find?_nodesUpserted, hnext, Option.bind_some]
  unfold sentNode
  rw [hprev, if_pos (changeOf_eq_upserted_iff.mpr fun p hp => by cases hp)]

/-- A node of the previous layer alone is dropped. -/
theorem nodeAfter_of_gone {id : String} (hnext : next.nodes.lookup id = none) :
    nodeAfter (diffFrom next prev revision rescan) id ((prev.nodes.lookup id).map (nodeDto id)) =
      none := by
  unfold nodeAfter
  rw [find?_nodesUpserted, find?_nodesMoved, hnext, Option.bind_none, Option.bind_none]
  cases hprev : prev.nodes.lookup id with
  | none => exact ite_self none
  | some p =>
    have hlisted : id ∈ (diffFrom next prev revision rescan).nodesRemoved :=
      mem_nodesRemoved.mpr ⟨(mem_keys_iff _ _).mpr ⟨p, hprev⟩, hnext⟩
    exact if_pos hlisted

/-- The node of an id follows exactly when what changed of it is sent. -/
theorem nodeAfter_eq_iff (id : String) :
    nodeAfter (diffFrom next prev revision rescan) id ((prev.nodes.lookup id).map (nodeDto id)) =
        (next.nodes.lookup id).map (nodeDto id) ↔
      ∀ p node, prev.nodes.lookup id = some p → next.nodes.lookup id = some node →
        structurallySame p node = true → p.contentHashes = node.contentHashes ∧
          p.package = node.package ∧
          (p.file = node.file → p.range = node.range → p.nameRange = node.nameRange) := by
  cases hnext : next.nodes.lookup id with
  | none => exact iff_of_true (nodeAfter_of_gone hnext) fun p node _ hnode => by cases hnode
  | some node =>
    cases hprev : prev.nodes.lookup id with
    | none => exact iff_of_true (nodeAfter_of_new hprev hnext _) fun p node hp => by cases hp
    | some p =>
      have hone : (∀ p' node', some p = some p' → some node = some node' →
          structurallySame p' node' = true → p'.contentHashes = node'.contentHashes ∧
            p'.package = node'.package ∧
            (p'.file = node'.file → p'.range = node'.range → p'.nameRange = node'.nameRange)) ↔
          (structurallySame p node = true → p.contentHashes = node.contentHashes ∧
            p.package = node.package ∧
            (p.file = node.file → p.range = node.range → p.nameRange = node.nameRange)) := by
        constructor
        · exact fun h => h p node rfl rfl
        · rintro h _ _ ⟨⟩ ⟨⟩
          exact h
      rw [hone, Option.map_some, Option.map_some, nodeAfter_of_both hprev hnext]
      unfold changeOf
      dsimp only
      by_cases hsame : structurallySame p node = true
      · obtain ⟨hname, hqualified, hkind, hhash, hexternal⟩ :
            p.name = node.name ∧ p.qualifiedName = node.qualifiedName ∧ p.kind = node.kind ∧
              p.contentHash = node.contentHash ∧ p.external = node.external := by
          simpa [structurallySame, and_assoc] using hsame
        rw [if_neg (by rw [hsame]; exact Bool.noConfusion)]
        by_cases hplace : p.file ≠ node.file ∨ p.range ≠ node.range
        · have hmoved : ({ nodeDto id p with
              file := node.file, range := node.range, nameRange := node.nameRange } : CodeNodeDto) =
              nodeDto id node ↔
              p.contentHashes = node.contentHashes ∧ p.package = node.package := by
            simp [nodeDto, hname, hqualified, hkind, hhash, hexternal]
          rw [if_pos hplace]
          dsimp only
          rw [Option.some_inj, hmoved]
          constructor
          · exact fun h _ => ⟨h.1, h.2, fun hfile hrange =>
              (hplace.elim (fun hne => hne hfile) fun hne => hne hrange).elim⟩
          · exact fun h => ⟨(h hsame).1, (h hsame).2.1⟩
        · obtain ⟨hfile, hrange⟩ := not_or.mp hplace
          have hkept : nodeDto id p = nodeDto id node ↔ p.nameRange = node.nameRange ∧
              p.contentHashes = node.contentHashes ∧ p.package = node.package := by
            simp [nodeDto, hname, hqualified, hkind, hhash, hexternal, not_not.mp hfile,
              not_not.mp hrange]
          rw [if_neg hplace]
          dsimp only
          rw [Option.some_inj, hkept]
          constructor
          · exact fun h _ => ⟨h.2.1, h.2.2, fun _ _ => h.1⟩
          · exact fun h => ⟨(h hsame).2.2 (not_not.mp hfile) (not_not.mp hrange), (h hsame).1,
              (h hsame).2.1⟩
      · rw [if_pos (Bool.eq_false_iff.mpr hsame)]
        exact iff_of_true rfl fun htrue => absurd htrue hsame

/-! ## Edges after a delta -/

theorem edgeKindStr_injective : Function.Injective edgeKindStr := by
  intro a b h
  cases a <;> cases b <;> first | rfl | exact absurd h (by decide)

theorem roleStr_injective : Function.Injective roleStr := by
  intro a b h
  cases a <;> cases b <;> first | rfl | exact absurd h (by decide)

/-- Different edges are sent differently. -/
theorem edgeDto_injective : Function.Injective edgeDto := by
  rintro ⟨source, target, kind, role, file, range⟩ ⟨source', target', kind', role', file', range'⟩ h
  simp only [edgeDto, CodeEdgeDto.mk.injEq] at h
  obtain ⟨rfl, rfl, hkind, hrole, rfl, rfl⟩ := h
  rw [edgeKindStr_injective hkind, Option.map_injective roleStr_injective hrole]

/-- The edges follow every delta. -/
theorem edges_apply (prev next : Layer) (revision : ℕ) (rescan : Bool) :
    ((mirrorOf prev).apply (diffFrom next prev revision rescan)).edges = (mirrorOf next).edges := by
  have hlisted : ∀ edges : Finset Edge,
      {dto | dto ∈ (HashOrder.increasing.order edges).map edgeDto} = edgeDto '' edges := by
    intro edges
    ext dto
    simp only [Set.mem_ofPred_eq, List.mem_map, HashOrder.mem_order, Set.mem_image, Finset.mem_coe]
  unfold Mirror.apply mirrorOf diffFrom
  dsimp only
  rw [hlisted, hlisted, Finset.coe_sdiff, Finset.coe_sdiff, ← Set.image_sdiff edgeDto_injective,
    ← Set.image_union]
  congr 1
  ext e
  simp only [Set.mem_union, Set.mem_sdiff, Finset.mem_coe]
  tauto

/-! ## Mirrors along a run -/

/-- A mirror follows a layer through a delta exactly when no field that deltas
do not look at changes on its own. -/
theorem apply_diffFrom_iff (prev next : Layer) (revision : ℕ) (rescan : Bool) :
    (mirrorOf prev).apply (diffFrom next prev revision rescan) = mirrorOf next ↔
      Carried prev next := by
  rw [Mirror.ext_iff]
  have hedges := edges_apply prev next revision rescan
  constructor
  · intro h id p node hp hnode hsame
    exact (nodeAfter_eq_iff id).mp (congrFun h.1 id) p node hp hnode hsame
  · intro hcarried
    exact ⟨funext fun id => (nodeAfter_eq_iff id).mpr fun p node => hcarried id p node, hedges⟩

theorem mirrorOf_new : mirrorOf Layer.new = Mirror.empty := by
  refine Mirror.ext (funext fun id => ?_) ?_
  · have hnone : Layer.new.nodes.lookup id = none := Finmap.lookup_empty id
    show (Layer.new.nodes.lookup id).map (nodeDto id) = none
    rw [hnone]
    rfl
  · exact (congrArg (edgeDto '' ·) Finset.coe_empty).trans (Set.image_empty edgeDto)

/-- The full delta of a layer fills an empty mirror. -/
theorem apply_fullCodeDelta (layer : Layer) (revision : ℕ) :
    Mirror.empty.apply (fullCodeDelta layer revision) = mirrorOf layer := by
  rw [← mirrorOf_new]
  refine (apply_diffFrom_iff Layer.new layer revision true).mpr fun id p node hp => ?_
  rw [Layer.new, Finmap.lookup_empty] at hp
  cases hp

/-- A layer and a mirror of it. -/
structure Followed where
  /-- The layer. -/
  layer : Layer
  /-- The mirror. -/
  mirror : Mirror

/-- The next layer of a run with its revision; the mirror gets the delta. -/
def follow (s : Followed) (next : Layer × ℕ) : Followed :=
  ⟨next.1, s.mirror.apply (diffFrom next.1 s.layer next.2 false)⟩

/-- A mirror that starts with a full delta and then gets the delta of every
step is the mirror of the layer after each step of a run, exactly when in no
step a field that deltas do not look at changes on its own. -/
theorem mirror_follows_iff (first : Layer) (revision : ℕ) (layers : List (Layer × ℕ)) :
    Along follow (fun s next => (follow s next).mirror = mirrorOf next.1)
        ⟨first, Mirror.empty.apply (fullCodeDelta first revision)⟩ layers ↔
      Along follow (fun s next => Carried s.layer next.1)
        ⟨first, Mirror.empty.apply (fullCodeDelta first revision)⟩ layers := by
  rw [apply_fullCodeDelta]
  induction layers generalizing first with
  | nil => exact Iff.rfl
  | cons next layers ih =>
    have hstep : (follow ⟨first, mirrorOf first⟩ next).mirror = mirrorOf next.1 ↔
        Carried first next.1 := apply_diffFrom_iff first next.1 next.2 false
    unfold Along
    rw [hstep]
    -- after a step that is followed the mirror is the one of the next layer again
    refine and_congr_right fun hcarried => ?_
    have hnext : follow ⟨first, mirrorOf first⟩ next = ⟨next.1, mirrorOf next.1⟩ :=
      congrArg (Followed.mk next.1) (hstep.mpr hcarried)
    rw [hnext]
    exact ih next.1

end Tyo3.LayerDeltas
