import Tyo3.IdentityAnchors

/-!
# Reconciliation of extracted entities with the registry

Four passes over the entities in path order choose a binding for each one:
the anchor of the same path, an unconsumed anchor of the same hash, an
unconsumed anchor of the same name, kind and container, or a minted id. The
bindings are then applied to the registry and the anchors that no entity
claimed are retired. Fresh ids come from a supply, since a minted id depends
on nothing the program computes.
-/

namespace Tyo3.IdentityReconciliation

open Entities FiniteMaps IdentityAnchors TextSearch

/-- Confidence of a structural match; there is only one level. -/
inductive Confidence where
  | low
  deriving DecidableEq, Repr

/-- How one entity was bound. Every bind to a known anchor keeps the hash
the anchor had before the apply phase overwrites it. -/
inductive Binding where
  | exact (id : DurableId) (oldHash : ContentHash)
  | moved (id : DurableId) (oldPath : String) (oldHash : ContentHash)
  | struct (id : DurableId) (confidence : Confidence) (oldHash : ContentHash)
  | minted (id : DurableId)
  deriving DecidableEq, Repr, Inhabited

/-- The id an entity was bound to. -/
def Binding.id : Binding → DurableId
  | .exact id _ => id
  | .moved id _ _ => id
  | .struct id _ _ => id
  | .minted id => id

/-- Whether the id was minted for this entity. -/
def Binding.isMinted : Binding → Bool
  | .minted _ => true
  | _ => false

/-- Whether the entity kept its path. -/
def Binding.isExact : Binding → Bool
  | .exact _ _ => true
  | _ => false

/-- Outcome of one reconciliation. -/
structure Reconciliation where
  /-- Path and binding of every entity, pass by pass. -/
  bindings : List (String × Binding)
  /-- Anchors that went from live to orphaned. -/
  retired : List DurableId
  /-- Ids flagged for human review. -/
  needsReview : List DurableId
  deriving DecidableEq, Repr

/-- The accumulators the four passes share. -/
structure Matching where
  /-- Ids already given to an entity. -/
  boundIds : Finset DurableId
  /-- Positions of the entities that already have a binding. -/
  matchedEntities : Finset ℕ
  /-- Bindings in the order they were made. -/
  bindings : List (String × Binding)
  /-- The last binding made for each path. -/
  bindingsByPath : FMap String Binding
  /-- Ids flagged for review. -/
  needsReview : List DurableId
  /-- Number of ids taken from the supply. -/
  minted : ℕ

/-- The accumulators before the first pass. -/
def Matching.start : Matching where
  boundIds := ∅
  matchedEntities := ∅
  bindings := []
  bindingsByPath := ∅
  needsReview := []
  minted := 0

/-- Record a binding for the entity at one position. -/
def Matching.bind (st : Matching) (idx : ℕ) (e : Entity) (b : Binding) (review : Bool) :
    Matching where
  boundIds := insert b.id st.boundIds
  matchedEntities := insert idx st.matchedEntities
  bindings := st.bindings ++ [(e.qualifiedPath, b)]
  bindingsByPath := st.bindingsByPath.insert e.qualifiedPath b
  needsReview := if review then st.needsReview ++ [b.id] else st.needsReview
  minted := if b.isMinted then st.minted + 1 else st.minted

/-- One entity of a pass: unless it has a binding already, it is offered to
the rule of the pass, which returns a binding and whether it needs review. -/
def matchStep (rule : Matching → Entity → Option (Binding × Bool)) (st : Matching)
    (cell : Entity × ℕ) : Matching :=
  if cell.2 ∈ st.matchedEntities then st
  else match rule st cell.1 with
    | none => st
    | some (b, review) => st.bind cell.2 cell.1 b review

/-- One pass over the sorted entities with their positions. -/
def matchPass (rule : Matching → Entity → Option (Binding × Bool)) (sorted : List Entity)
    (st : Matching) : Matching :=
  sorted.zipIdx.foldl (matchStep rule) st

/-- The file part of a qualified path, absent without a separator. -/
def anchorFile (qualifiedPath : String) : Option String :=
  (splitOnce "::" qualifiedPath).map Prod.fst

/-- Whether the file part of a path is one of the scoped files. -/
def fileInScope (scope : Option (Finset String)) (qualifiedPath : String) : Bool :=
  match scope with
  | none => true
  | some files => match anchorFile qualifiedPath with
    | some file => decide (file ∈ files)
    | none => false

/-- Whether the anchor of an id lies in a scoped file. -/
def anchorInScope (r : IdentityRegistry) (id : DurableId) (scope : Option (Finset String)) :
    Bool :=
  match scope with
  | none => true
  | some files => match r.get id with
    | some a => fileInScope (some files) a.qualifiedPath
    | none => false

/-- The scope test of an id with an anchor reads the path of the anchor. -/
theorem anchorInScope_eq {r : IdentityRegistry} {scope : Option (Finset String)} {id : DurableId}
    {a : Anchor} (ha : r.get id = some a) :
    anchorInScope r id scope = fileInScope scope a.qualifiedPath := by
  unfold anchorInScope
  cases scope with
  | none => rfl
  | some files => simp only [ha]

/-- Rule of the first pass: the unconsumed anchor of the same path. -/
def exactRule (r : IdentityRegistry) (st : Matching) (e : Entity) : Option (Binding × Bool) :=
  match r.byPath.lookup e.qualifiedPath with
  | none => none
  | some id =>
    if id ∈ st.boundIds then none
    else
      let oldHash := ((r.get id).map Anchor.contentHash).getD e.contentHash
      some (.exact id oldHash, decide (oldHash ≠ e.contentHash))

/-- Unconsumed anchors in scope that carry the hash of an entity, at another
path or outside the path index. -/
def hashCandidates (r : IdentityRegistry) (scope : Option (Finset String)) (st : Matching)
    (e : Entity) : List DurableId :=
  (r.hashIds e.contentHash).filter fun id =>
    decide (id ∉ st.boundIds) && anchorInScope r id scope &&
      match r.get id with
      | none => false
      | some a => decide (a.qualifiedPath ≠ e.qualifiedPath ∨
          r.byPath.lookup a.qualifiedPath = none)

/-- Rule of the second pass: the smallest candidate of the same hash. -/
def hashRule (r : IdentityRegistry) (scope : Option (Finset String)) (st : Matching)
    (e : Entity) : Option (Binding × Bool) :=
  match (hashCandidates r scope st e).min? with
  | none => none
  | some id => match r.get id with
    | some a => some (.moved id a.qualifiedPath a.contentHash, false)
    | none => some (.moved id "" e.contentHash, false)

/-- Distance first, id second. -/
def closerFirst (x y : DurableId × ℕ) : Bool := decide (x.2 < y.2 ∨ x.2 = y.2 ∧ x.1 ≤ y.1)

/-- Unconsumed anchors in scope of the same name, kind and container, each
with the distance between the two paths. -/
def structCandidates (iter : HashOrder DurableId) (r : IdentityRegistry)
    (scope : Option (Finset String)) (st : Matching) (e : Entity) : List (DurableId × ℕ) :=
  (iter.order r.byId.keys).filterMap fun id =>
    match r.get id with
    | none => none
    | some a =>
      if id ∉ st.boundIds ∧ anchorInScope r id scope = true ∧ a.name = e.name ∧
          a.kind = e.kind ∧ a.container = e.container then
        some (id, editDistance a.qualifiedPath e.qualifiedPath)
      else none

/-- Rule of the third pass: the closest structural candidate, flagged for
review. -/
def structRule (iter : HashOrder DurableId) (r : IdentityRegistry)
    (scope : Option (Finset String)) (st : Matching) (e : Entity) : Option (Binding × Bool) :=
  match ((structCandidates iter r scope st e).insertionSort fun x y => closerFirst x y = true) with
  | [] => none
  | (id, _) :: _ =>
    some (.struct id .low (((r.get id).map Anchor.contentHash).getD e.contentHash), true)

/-- Rule of the last pass: the next id of the supply. -/
def mintRule (mint : ℕ → DurableId) (st : Matching) (_ : Entity) : Option (Binding × Bool) :=
  some (.minted (mint st.minted), false)

/-- Entities in the order of path, then of hash. -/
def entityLe (a b : Entity) : Bool :=
  decide (a.qualifiedPath < b.qualifiedPath ∨
    a.qualifiedPath = b.qualifiedPath ∧ a.contentHash ≤ b.contentHash)

/-- The deterministic order in which all passes visit the entities. -/
def sortEntities (entities : List Entity) : List Entity :=
  entities.insertionSort fun a b => entityLe a b = true

/-- All four passes over the sorted entities. -/
def matchEntities (iter : HashOrder DurableId) (mint : ℕ → DurableId) (r : IdentityRegistry)
    (scope : Option (Finset String)) (sorted : List Entity) : Matching :=
  let st := matchPass (exactRule r) sorted Matching.start
  let st := matchPass (hashRule r scope) sorted st
  let st := matchPass (structRule iter r scope) sorted st
  matchPass (mintRule mint) sorted st

/-- Apply one binding to the registry. A clean match clears a review or
orphan mark; a minted id gets its first anchor. -/
def applyBinding (revision : Revision) (needsReview : List DurableId) (r : IdentityRegistry)
    (e : Entity) (b : Binding) : IdentityRegistry :=
  match b with
  | .minted id => r.insert
      { id := id, qualifiedPath := e.qualifiedPath, contentHash := e.contentHash, kind := e.kind
        firstSeenRev := revision, lastSeenRev := revision, status := .active }
  | b =>
    let bound := r.rebind b.id e.qualifiedPath e.contentHash revision
    if b.id ∈ needsReview then bound else bound.setStatus b.id .active

/-- Apply the binding stored for the path of every entity. -/
def applyBindings (revision : Revision) (st : Matching) (sorted : List Entity)
    (r : IdentityRegistry) : IdentityRegistry :=
  sorted.foldl (fun r e =>
    match st.bindingsByPath.lookup e.qualifiedPath with
    | none => r
    | some b => applyBinding revision st.needsReview r e b) r

/-- Flag every id that needs review. -/
def flagNeedsReview (needsReview : List DurableId) (r : IdentityRegistry) : IdentityRegistry :=
  needsReview.foldl (fun r id => r.setStatus id .needsReview) r

/-- One step of the retirement loop: a live anchor in scope that no entity
claimed is orphaned and reported. -/
def retireStep (revision : Revision) (scope : Option (Finset String)) (boundIds : Finset DurableId)
    (acc : List DurableId × IdentityRegistry) (id : DurableId) :
    List DurableId × IdentityRegistry :=
  if id ∈ boundIds then acc
  else if anchorInScope acc.2 id scope = false then acc
  else if acc.2.statusOf id = some .orphaned then acc
  else (acc.1 ++ [id], acc.2.retire id revision)

/-- Retire the vanished anchors, in the order of the anchor store. -/
def retireVanished (iter : HashOrder DurableId) (revision : Revision)
    (scope : Option (Finset String)) (boundIds : Finset DurableId) (r : IdentityRegistry) :
    List DurableId × IdentityRegistry :=
  (iter.order r.byId.keys).foldl (retireStep revision scope boundIds) ([], r)

/-- Reconcile entities with the registry. Without a scope every anchor may be
retired; with one, only anchors of the scoped files. -/
def reconcileImpl (iter : HashOrder DurableId) (mint : ℕ → DurableId) (r : IdentityRegistry)
    (entities : List Entity) (revision : Revision) (scope : Option (Finset String)) :
    Reconciliation × IdentityRegistry :=
  let sorted := sortEntities entities
  let st := matchEntities iter mint r scope sorted
  let applied := flagNeedsReview st.needsReview (applyBindings revision st sorted r)
  let vanished := retireVanished iter revision scope st.boundIds applied
  ({ bindings := st.bindings, retired := vanished.1, needsReview := st.needsReview }, vanished.2)

/-- Reconcile the entities of the whole project. -/
def reconcile (iter : HashOrder DurableId) (mint : ℕ → DurableId) (r : IdentityRegistry)
    (entities : List Entity) (revision : Revision) : Reconciliation × IdentityRegistry :=
  reconcileImpl iter mint r entities revision none

/-- Reconcile the entities of a set of files. -/
def reconcileScoped (iter : HashOrder DurableId) (mint : ℕ → DurableId) (r : IdentityRegistry)
    (entities : List Entity) (revision : Revision) (scope : Finset String) :
    Reconciliation × IdentityRegistry :=
  reconcileImpl iter mint r entities revision (some scope)

end Tyo3.IdentityReconciliation
