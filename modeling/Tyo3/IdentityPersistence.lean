import Tyo3.IdentityRuns
import Tyo3.JsonValues

/-!
# The persisted registry

Only the anchors are stored, sorted by id; loading rebuilds both indexes by
inserting the anchors one by one. Orphans are inserted like live anchors, so
the loaded path index may differ from the one in memory. Reconciliation sees
the difference exactly at the paths of the entities it is given.
-/

namespace Tyo3.IdentityPersistence

open Entities FiniteMaps IdentityAnchors IdentityMatching IdentityPostState
  IdentityReconciliation IdentityRuns JsonValues

/-- Errors of loading a registry. -/
inductive FormatError where
  | json (message : String)
  | missingField (field : String)
  | unknownVersion (version : ℕ)
  deriving DecidableEq, Repr

/-- The stored name of a kind. -/
def kindToStr : SymbolKind → String
  | .module_ => "module"
  | .class_ => "class"
  | .function => "function"
  | .method => "method"
  | .constructor => "constructor"
  | .variable_ => "variable"
  | .constant => "constant"
  | .field => "field"
  | .parameter => "parameter"
  | .property => "property"
  | .typeParameter => "type_parameter"
  | .import_ => "import"

/-- The kind of a stored name; an unknown name is a variable. -/
def strToKind (s : String) : SymbolKind :=
  if s = "module" then .module_
  else if s = "class" then .class_
  else if s = "function" then .function
  else if s = "method" then .method
  else if s = "constructor" then .constructor
  else if s = "variable" then .variable_
  else if s = "constant" then .constant
  else if s = "field" then .field
  else if s = "parameter" then .parameter
  else if s = "property" then .property
  else if s = "type_parameter" then .typeParameter
  else if s = "import" then .import_
  else .variable_

/-- The stored name of a status. -/
def statusToStr : IdentityStatus → String
  | .active => "active"
  | .needsReview => "needs_review"
  | .orphaned => "orphaned"

/-- The status of a stored name; an unknown name is active. -/
def strToStatus (s : String) : IdentityStatus :=
  if s = "needs_review" then .needsReview
  else if s = "orphaned" then .orphaned
  else .active

/-- Stored kinds read back. -/
theorem strToKind_kindToStr (k : SymbolKind) : strToKind (kindToStr k) = k := by
  cases k <;> decide

/-- Stored statuses read back. -/
theorem strToStatus_statusToStr (s : IdentityStatus) : strToStatus (statusToStr s) = s := by
  cases s <;> decide

/-- The stored form of an anchor. -/
def anchorEntry (a : Anchor) : Json :=
  .obj
    [("content_hash", .str (toString a.contentHash.val)), ("first_seen_rev", .nat a.firstSeenRev),
      ("id", .str a.id), ("kind", .str (kindToStr a.kind)),
      ("last_seen_rev", .nat a.lastSeenRev), ("qualified_path", .str a.qualifiedPath),
      ("status", .str (statusToStr a.status))]

/-- The anchors in the order of their ids. -/
def sortedAnchors (r : IdentityRegistry) : List Anchor :=
  (HashOrder.increasing.order r.byId.keys).filterMap r.get

/-- The stored form of a registry. -/
def toJsonValue (r : IdentityRegistry) : Json :=
  .obj [("anchors", .arr ((sortedAnchors r).map anchorEntry)), ("format_version", .nat 1)]

/-- Serialise the versioned registry format. -/
def toBytes (codec : Codec) (r : IdentityRegistry) : Except String Bytes :=
  codec.toVecPretty (toJsonValue r)

/-- A field that must be there and of the right type. -/
def require {α : Type*} (field : String) (value : Option α) : Except FormatError α :=
  match value with
  | some v => .ok v
  | none => .error (.missingField field)

/-- Read one stored anchor. -/
def readAnchor (entry : Json) : Except FormatError Anchor := do
  let id ← require "id" (entry.index "id").asStr
  let qualifiedPath ← require "qualified_path" (entry.index "qualified_path").asStr
  let hashStr ← require "content_hash" (entry.index "content_hash").asStr
  let kindStr ← require "kind" (entry.index "kind").asStr
  let firstRev ← require "first_seen_rev" (entry.index "first_seen_rev").asU64
  let lastRev ← require "last_seen_rev" (entry.index "last_seen_rev").asU64
  let statusStr := (entry.index "status").asStr.getD "active"
  let hash ← match parseUnsigned (2 ^ 128) hashStr with
    | none => .error (.json ("invalid content_hash: " ++ hashStr))
    | some hash => .ok hash
  return { id := id, qualifiedPath := qualifiedPath, contentHash := hash
           kind := strToKind kindStr, firstSeenRev := firstRev, lastSeenRev := lastRev
           status := strToStatus statusStr }

/-- Insert the stored anchors one by one. -/
def readAnchors (entries : List Json) (r : IdentityRegistry) :
    Except FormatError IdentityRegistry :=
  entries.foldlM (fun r entry => do
    let anchor ← readAnchor entry
    .ok (r.insert anchor)) r

/-- Deserialise from a JSON value. -/
def fromJsonValue (root : Json) : Except FormatError IdentityRegistry := do
  let version ← require "format_version" (root.index "format_version").asU64
  if version > 1 then .error (.unknownVersion version)
  else do
    let anchors ← require "anchors" (root.index "anchors").asArray
    readAnchors anchors IdentityRegistry.empty

/-- Deserialise from JSON text. -/
def fromJson (codec : Codec) (text : String) : Except FormatError IdentityRegistry :=
  match codec.fromStr text with
  | .error e => .error (.json e)
  | .ok root => fromJsonValue root

/-- Deserialise the versioned registry format. -/
def fromBytes (codec : Codec) (bytes : Bytes) : Except FormatError IdentityRegistry :=
  match codec.fromUtf8 bytes with
  | .error e => .error (.json e)
  | .ok text => fromJson codec text

/-! ## What loading restores -/

/-- A stored anchor reads back. -/
theorem readAnchor_anchorEntry (a : Anchor) : readAnchor (anchorEntry a) = .ok a := by
  have hid : (anchorEntry a).index "id" = .str a.id := rfl
  have hpath : (anchorEntry a).index "qualified_path" = .str a.qualifiedPath := rfl
  have hhash : (anchorEntry a).index "content_hash" = .str (toString a.contentHash.val) := rfl
  have hkind : (anchorEntry a).index "kind" = .str (kindToStr a.kind) := rfl
  have hfirst : (anchorEntry a).index "first_seen_rev" = .nat a.firstSeenRev := rfl
  have hlast : (anchorEntry a).index "last_seen_rev" = .nat a.lastSeenRev := rfl
  have hstatus : (anchorEntry a).index "status" = .str (statusToStr a.status) := rfl
  unfold readAnchor
  simp only [hid, hpath, hhash, hkind, hfirst, hlast, hstatus, Json.asStr, Json.asU64, require,
    Option.getD_some, parseUnsigned_toString, strToKind_kindToStr, strToStatus_statusToStr, bind,
    Except.bind, pure, Except.pure]

/-- The registry that loading the anchors of a registry builds. -/
def reloaded (r : IdentityRegistry) : IdentityRegistry :=
  (sortedAnchors r).foldl IdentityRegistry.insert IdentityRegistry.empty

/-- Reading stored anchors inserts them in order. -/
theorem readAnchors_map (anchors : List Anchor) (r : IdentityRegistry) :
    readAnchors (anchors.map anchorEntry) r = .ok (anchors.foldl IdentityRegistry.insert r) := by
  unfold readAnchors
  induction anchors generalizing r with
  | nil => rfl
  | cons a anchors ih =>
    rw [List.map_cons, List.foldlM_cons, List.foldl_cons, readAnchor_anchorEntry]
    exact ih (r.insert a)

/-- Storing and loading never fails and builds the reloaded registry. -/
theorem fromBytes_toBytes {codec : Codec} {r : IdentityRegistry}
    (hc : codec.RoundTrips (toJsonValue r)) :
    ∃ bytes, toBytes codec r = .ok bytes ∧ fromBytes codec bytes = .ok (reloaded r) := by
  obtain ⟨bytes, text, hprint, hutf, hparse⟩ := hc
  refine ⟨bytes, hprint, ?_⟩
  have hversion : (toJsonValue r).index "format_version" = .nat 1 := rfl
  have hanchors : (toJsonValue r).index "anchors" =
      .arr ((sortedAnchors r).map anchorEntry) := rfl
  have hvalue : fromJsonValue (toJsonValue r) = .ok (reloaded r) := by
    have hread := readAnchors_map (sortedAnchors r) IdentityRegistry.empty
    unfold fromJsonValue
    rw [hversion, hanchors]
    exact hread
  unfold fromBytes fromJson
  simp only [hutf, hparse, hvalue]

/-- The stored anchors are the anchors, each under its id. -/
theorem mem_sortedAnchors {r : IdentityRegistry} {a : Anchor} :
    a ∈ sortedAnchors r ↔ r.get a.id = some a := by
  unfold sortedAnchors
  rw [List.mem_filterMap]
  constructor
  · rintro ⟨id, -, ha⟩
    rw [r.keyed id a ha]
    exact ha
  · intro ha
    refine ⟨a.id, ?_, ha⟩
    rw [HashOrder.mem_order, mem_keys_iff]
    exact ⟨a, ha⟩

/-- Stored anchors have pairwise different ids. -/
theorem sortedAnchors_ids_nodup (r : IdentityRegistry) :
    ((sortedAnchors r).map Anchor.id).Nodup := by
  have hids : (sortedAnchors r).map Anchor.id =
      (HashOrder.increasing.order r.byId.keys).filterMap fun id => (r.get id).map Anchor.id := by
    unfold sortedAnchors
    rw [List.map_filterMap]
  have hself : ((HashOrder.increasing.order r.byId.keys).filterMap fun id =>
      (r.get id).map Anchor.id) = HashOrder.increasing.order r.byId.keys := by
    have hall : ∀ id ∈ HashOrder.increasing.order r.byId.keys,
        (r.get id).map Anchor.id = some id := by
      intro id hid
      rw [HashOrder.mem_order, mem_keys_iff] at hid
      obtain ⟨a, ha⟩ := hid
      rw [show r.get id = some a from ha, Option.map_some, r.keyed id a ha]
    rw [List.filterMap_congr hall, List.filterMap_some]
  rw [hids, hself]
  exact HashOrder.nodup_order _ _

/-- The last anchor of a path in the order of ids, orphans included. -/
def lastAt (r : IdentityRegistry) (p : String) : Option DurableId :=
  ((sortedAnchors r).filter fun a => a.qualifiedPath = p).getLast?.map Anchor.id

section Inserting

/-- What a run of insertions of unknown ids builds. -/
theorem foldl_insert_spec (anchors : List Anchor) (r : IdentityRegistry)
    (hnd : (anchors.map Anchor.id).Nodup) (hnew : ∀ a ∈ anchors, r.get a.id = none) :
    (∀ id, (anchors.foldl IdentityRegistry.insert r).get id =
      ((anchors.find? fun a => a.id = id).or (r.get id))) ∧
    ∀ p, (anchors.foldl IdentityRegistry.insert r).byPath.lookup p =
      (((anchors.filter fun a => a.qualifiedPath = p).getLast?.map Anchor.id).or
        (r.byPath.lookup p)) := by
  induction anchors generalizing r with
  | nil => simp
  | cons a anchors ih =>
    obtain ⟨ha, hrest⟩ := List.nodup_cons.mp (List.map_cons ▸ hnd)
    have hfirst := hnew a List.mem_cons_self
    have hlater : ∀ b ∈ anchors, (r.insert a).get b.id = none := by
      intro b hb
      have hne : b.id ≠ a.id := fun h => ha (h ▸ List.mem_map_of_mem hb)
      rw [IdentityRegistry.get_insert, if_neg hne]
      exact hnew b (List.mem_cons_of_mem _ hb)
    obtain ⟨hget, hpath⟩ := ih (r.insert a) hrest hlater
    refine ⟨?_, ?_⟩
    · intro id
      rw [List.foldl_cons, hget, IdentityRegistry.get_insert, List.find?_cons]
      by_cases h : id = a.id
      · have hnone : anchors.find? (fun b => b.id = id) = none := by
          rw [List.find?_eq_none]
          intro b hb hbid
          exact ha (h ▸ (of_decide_eq_true hbid) ▸ List.mem_map_of_mem hb)
        rw [hnone, if_pos h]
        simp [h]
      · simp [h, Ne.symm h]
    · intro p
      rw [List.foldl_cons, hpath, IdentityRegistry.byPath_insert hfirst]
      by_cases h : p = a.qualifiedPath
      · rw [if_pos h, List.filter_cons_of_pos (by simp [h]), List.getLast?_cons]
        cases (anchors.filter fun b => b.qualifiedPath = p).getLast? with
        | none => rfl
        | some b => rfl
      · rw [if_neg h, List.filter_cons_of_neg (by simp [Ne.symm h])]

end Inserting

/-- Loading restores every anchor. -/
theorem get_reloaded (r : IdentityRegistry) (id : DurableId) : (reloaded r).get id = r.get id := by
  have hspec := (foldl_insert_spec (sortedAnchors r) IdentityRegistry.empty
    (sortedAnchors_ids_nodup r) (fun _ _ => rfl)).1 id
  unfold reloaded
  rw [hspec, show IdentityRegistry.empty.get id = none from rfl, Option.or_none]
  cases hg : r.get id with
  | none =>
    rw [List.find?_eq_none]
    intro a ha haid
    rw [mem_sortedAnchors, of_decide_eq_true haid, hg] at ha
    cases ha
  | some a =>
    have hid := r.keyed id a hg
    have hmem : a ∈ sortedAnchors r := mem_sortedAnchors.mpr (hid ▸ hg)
    exact find?_eq_some_of_nodup (sortedAnchors_ids_nodup r) hmem hid

/-- Loading gives every path to the last anchor that has it. -/
theorem byPath_reloaded (r : IdentityRegistry) (p : String) :
    (reloaded r).byPath.lookup p = lastAt r p := by
  have hspec := (foldl_insert_spec (sortedAnchors r) IdentityRegistry.empty
    (sortedAnchors_ids_nodup r) (fun _ _ => rfl)).2 p
  unfold reloaded lastAt
  rw [hspec, show IdentityRegistry.empty.byPath.lookup p = none from Finmap.lookup_empty p,
    Option.or_none]

/-- The loaded indexes are sound. -/
theorem sound_reloaded (r : IdentityRegistry) : (reloaded r).Sound := by
  have hrun : ∀ (anchors : List Anchor) (s : IdentityRegistry), s.Sound →
      (anchors.foldl IdentityRegistry.insert s).Sound := by
    intro anchors
    induction anchors with
    | nil => exact fun _ h => h
    | cons a anchors ih => exact fun s h => ih (s.insert a) (h.insert a)
  exact hrun _ _ IdentityRegistry.Sound.empty

/-! ## Registries that reconciliation cannot tell apart -/

/-- Lists with the same members have the same least member. -/
theorem min?_congr {xs ys : List DurableId} (h : ∀ x, x ∈ xs ↔ x ∈ ys) : xs.min? = ys.min? := by
  have hle : ∀ {us vs : List DurableId} {a : DurableId}, (∀ x, x ∈ us ↔ x ∈ vs) →
      us.min? = some a → vs.min? = some a := by
    intro us vs a huv ha
    rw [List.min?_eq_some_iff] at ha ⊢
    exact ⟨(huv a).mp ha.1, fun b hb => ha.2 b ((huv b).mpr hb)⟩
  cases hx : xs.min? with
  | some a => exact (hle h hx).symm
  | none =>
    cases hy : ys.min? with
    | none => rfl
    | some b =>
      have hback := hle (fun x => (h x).symm) hy
      rw [hx] at hback
      cases hback

/-- Two registries with the same anchors, whose path indexes agree on a list
of entities. -/
structure Alike (r s : IdentityRegistry) (entities : List Entity) : Prop where
  /-- The first registry is sound. -/
  left : r.Sound
  /-- The second registry is sound. -/
  right : s.Sound
  /-- The anchors are the same. -/
  get : ∀ id, s.get id = r.get id
  /-- The path entries of the entities are the same. -/
  path : ∀ e ∈ entities, s.byPath.lookup e.qualifiedPath = r.byPath.lookup e.qualifiedPath

section Alike

variable {r s : IdentityRegistry} {entities : List Entity}

/-- The scope test reads only the anchor. -/
theorem anchorInScope_congr (h : ∀ id, s.get id = r.get id) (id : DurableId)
    (scope : Option (Finset String)) : anchorInScope s id scope = anchorInScope r id scope := by
  unfold anchorInScope
  rw [h]

/-- The keys are the same when the anchors are. -/
theorem keys_congr (h : ∀ id, s.get id = r.get id) : s.byId.keys = r.byId.keys := by
  ext id
  rw [mem_keys_iff, mem_keys_iff]
  simp only [show s.byId.lookup id = r.byId.lookup id from h id]

/-- The first pass decides alike. -/
theorem Alike.exactRule_eq (h : Alike r s entities) (st : Matching) {e : Entity} (he : e ∈ entities) :
    exactRule s st e = exactRule r st e := by
  unfold IdentityReconciliation.exactRule
  simp only [h.path e he, h.get]

/-- The second pass decides alike: the ids under a hash are the same, and
the path index only matters at the path of the entity itself. -/
theorem Alike.hashRule_eq (h : Alike r s entities) (scope : Option (Finset String)) (st : Matching)
    {e : Entity} (he : e ∈ entities) : hashRule s scope st e = hashRule r scope st e := by
  have hmem : ∀ id, id ∈ hashCandidates s scope st e ↔ id ∈ hashCandidates r scope st e := by
    intro id
    have hlisted : id ∈ s.hashIds e.contentHash ↔ id ∈ r.hashIds e.contentHash := by
      rw [h.right.mem_hashIds, h.left.mem_hashIds, h.get]
    have hfree : ∀ a : Anchor,
        (a.qualifiedPath ≠ e.qualifiedPath ∨ s.byPath.lookup a.qualifiedPath = none) ↔
        (a.qualifiedPath ≠ e.qualifiedPath ∨ r.byPath.lookup a.qualifiedPath = none) := by
      intro a
      by_cases hp : a.qualifiedPath = e.qualifiedPath
      · rw [hp, h.path e he]
      · exact iff_of_true (Or.inl hp) (Or.inl hp)
    unfold hashCandidates
    simp only [List.mem_filter, hlisted, anchorInScope_congr h.get, h.get, hfree]
  unfold IdentityReconciliation.hashRule
  simp only [min?_congr hmem, h.get]

/-- Distance then id is a linear order on the candidates. -/
theorem closerFirst_total (x y : DurableId × ℕ) :
    closerFirst x y = true ∨ closerFirst y x = true := by
  simp only [closerFirst, decide_eq_true_eq]
  rcases le_total x.1 y.1 with h | h
  · by_cases hd : x.2 = y.2
    · exact Or.inl (Or.inr ⟨hd, h⟩)
    · omega
  · by_cases hd : x.2 = y.2
    · exact Or.inr (Or.inr ⟨hd.symm, h⟩)
    · omega

/-- Distance then id is transitive. -/
theorem closerFirst_trans {x y z : DurableId × ℕ} (hxy : closerFirst x y = true)
    (hyz : closerFirst y z = true) : closerFirst x z = true := by
  simp only [closerFirst, decide_eq_true_eq] at *
  rcases hxy with hxy | ⟨hxy, hid⟩
  · left
    omega
  · rcases hyz with hyz | ⟨hyz, hid'⟩
    · left
      omega
    · exact Or.inr ⟨hxy.trans hyz, hid.trans hid'⟩

/-- Distance then id is antisymmetric. -/
theorem closerFirst_antisymm {x y : DurableId × ℕ} (hxy : closerFirst x y = true)
    (hyx : closerFirst y x = true) : x = y := by
  simp only [closerFirst, decide_eq_true_eq] at *
  have hd : x.2 = y.2 := by omega
  have hxy' : x.1 ≤ y.1 := (hxy.resolve_left (by omega)).2
  have hyx' : y.1 ≤ x.1 := (hyx.resolve_left (by omega)).2
  exact Prod.ext (le_antisymm hxy' hyx') hd

/-- The third pass decides alike, whatever order the anchor stores have. -/
theorem structRule_congr (h : ∀ id, s.get id = r.get id) (iter iter' : HashOrder DurableId)
    (scope : Option (Finset String)) (st : Matching) (e : Entity) :
    structRule iter' s scope st e = structRule iter r scope st e := by
  have horder : (iter'.order s.byId.keys).Perm (iter.order r.byId.keys) := by
    rw [← Multiset.coe_eq_coe, iter'.exhaustive, iter.exhaustive, keys_congr h]
  have hperm : (structCandidates iter' s scope st e).Perm (structCandidates iter r scope st e) := by
    unfold structCandidates
    simp only [h, anchorInScope_congr h]
    exact horder.filterMap _
  have : Std.Total fun x y => closerFirst x y = true := ⟨closerFirst_total⟩
  have : IsTrans (DurableId × ℕ) fun x y => closerFirst x y = true :=
    ⟨fun _ _ _ => closerFirst_trans⟩
  have : Std.Antisymm fun x y => closerFirst x y = true := ⟨fun _ _ => closerFirst_antisymm⟩
  have hsort : (structCandidates iter' s scope st e).insertionSort (fun x y => closerFirst x y = true) =
      (structCandidates iter r scope st e).insertionSort (fun x y => closerFirst x y = true) := by
    refine List.Perm.eq_of_pairwise' (List.pairwise_insertionSort _ _)
      (List.pairwise_insertionSort _ _) ?_
    exact (List.perm_insertionSort _ _).trans (hperm.trans (List.perm_insertionSort _ _).symm)
  unfold IdentityReconciliation.structRule
  simp only [hsort, h]

/-- A pass gives the same matching when its rule decides alike. -/
theorem matchPass_congr {rule rule' : Matching → Entity → Option (Binding × Bool)}
    {sorted : List Entity} (h : ∀ st, ∀ e ∈ sorted, rule' st e = rule st e) (st : Matching) :
    matchPass rule' sorted st = matchPass rule sorted st := by
  unfold matchPass
  refine List.foldl_ext _ _ st ?_
  intro st' cell hcell
  have he : cell.1 ∈ sorted := List.fst_mem_of_mem_zipIdx hcell
  unfold matchStep
  rw [h st' cell.1 he]

/-- All four passes give the same matching. -/
theorem Alike.matchEntities_eq (h : Alike r s entities) (iter iter' : HashOrder DurableId)
    (mint : ℕ → DurableId) (scope : Option (Finset String)) :
    matchEntities iter' mint s scope (sortEntities entities) =
      matchEntities iter mint r scope (sortEntities entities) := by
  have hmem : ∀ e ∈ sortEntities entities, e ∈ entities :=
    fun e he => (sortEntities_perm entities).mem_iff.mp he
  unfold IdentityReconciliation.matchEntities
  dsimp only
  rw [matchPass_congr fun st e he => h.exactRule_eq st (hmem e he),
    matchPass_congr fun st e he => h.hashRule_eq scope st (hmem e he),
    matchPass_congr fun st e _ => structRule_congr h.get iter iter' scope st e]

/-- Applying the same bindings to the same anchors gives the same anchors. -/
theorem get_applyBindings_congr (h : ∀ id, s.get id = r.get id) (revision : Revision)
    (st : Matching) (sorted : List Entity) (id : DurableId) :
    (applyBindings revision st sorted s).get id = (applyBindings revision st sorted r).get id := by
  unfold applyBindings
  induction sorted generalizing r s with
  | nil => exact h id
  | cons e sorted ih =>
    rw [List.foldl_cons, List.foldl_cons]
    apply ih
    intro id'
    cases st.bindingsByPath.lookup e.qualifiedPath with
    | none => exact h id'
    | some b =>
      have hs := get_applyBinding revision st.needsReview s ⟨0, e, b, false⟩ id'
      have hr := get_applyBinding revision st.needsReview r ⟨0, e, b, false⟩ id'
      refine hs.trans (Eq.trans ?_ hr.symm)
      rw [h, h]

/-- Retirement of the same anchors gives the same anchors and reports the
same ids. -/
theorem retireVanished_congr (h : ∀ id, s.get id = r.get id) (iter iter' : HashOrder DurableId)
    (revision : Revision) (scope : Option (Finset String)) (boundIds : Finset DurableId) :
    (∀ id, (retireVanished iter' revision scope boundIds s).2.get id =
      (retireVanished iter revision scope boundIds r).2.get id) ∧
    ∀ id, id ∈ (retireVanished iter' revision scope boundIds s).1 ↔
      id ∈ (retireVanished iter revision scope boundIds r).1 := by
  have hlisted : ∀ (it : HashOrder DurableId) (q : IdentityRegistry), ∀ id ∈ it.order q.byId.keys,
      ∃ a, q.get id = some a := by
    intro it q id hid
    rw [it.mem_order, mem_keys_iff] at hid
    exact hid
  have hmem : ∀ id, id ∈ iter'.order s.byId.keys ↔ id ∈ iter.order r.byId.keys := by
    intro id
    rw [iter'.mem_order, iter.mem_order, keys_congr h]
  have hvan : ∀ id, vanished scope boundIds s id = vanished scope boundIds r id :=
    fun id => vanished_congr (h id)
  obtain ⟨hs₁, hs₂, -⟩ := foldl_retireStep revision scope boundIds (iter'.order s.byId.keys)
    (iter'.nodup_order _) ([], s) (hlisted iter' s)
  obtain ⟨hr₁, hr₂, -⟩ := foldl_retireStep revision scope boundIds (iter.order r.byId.keys)
    (iter.nodup_order _) ([], r) (hlisted iter r)
  refine ⟨?_, ?_⟩
  · intro id
    refine (hs₂ id).trans (Eq.trans ?_ (hr₂ id).symm)
    simp only [hmem, hvan, h]
  · intro id
    unfold retireVanished
    rw [hs₁, hr₁, List.nil_append, List.nil_append, List.mem_filter, List.mem_filter, hmem, hvan]

end Alike

/-- Two reconciliations that cannot be told apart by bindings, by the set of
retired ids or by the resulting anchors. -/
def SameOutcome (x y : Reconciliation × IdentityRegistry) : Prop :=
  x.1.bindings = y.1.bindings ∧ (∀ id, id ∈ x.1.retired ↔ id ∈ y.1.retired) ∧ x.2.byId = y.2.byId

/-- Registries that agree on the entities reconcile to the same outcome. -/
theorem Alike.sameOutcome {r s : IdentityRegistry} {c : Call} (h : Alike r s c.entities)
    (iter' : HashOrder DurableId) : SameOutcome (c.run r) (Call.run { c with iter := iter' } s) := by
  have hst := h.matchEntities_eq c.iter iter' c.mint c.scope
  have happly := get_applyBindings_congr h.get c.revision
    (matchEntities c.iter c.mint r c.scope (sortEntities c.entities)) (sortEntities c.entities)
  unfold Call.run reconcileImpl
  dsimp only
  rw [hst]
  generalize matchEntities c.iter c.mint r c.scope (sortEntities c.entities) = st at happly
  have hflag : ∀ id, (flagNeedsReview st.needsReview
      (applyBindings c.revision st (sortEntities c.entities) s)).get id =
      (flagNeedsReview st.needsReview
        (applyBindings c.revision st (sortEntities c.entities) r)).get id := by
    intro id
    rw [get_flagNeedsReview, get_flagNeedsReview, happly]
  obtain ⟨hget, hret⟩ := retireVanished_congr hflag c.iter iter' c.revision c.scope st.boundIds
  refine ⟨rfl, fun id => (hret id).symm, ?_⟩
  exact Finmap.ext_lookup fun id => (hget id).symm

/-- Among the bindings, the exact ones at a path name the holder of the
path, and an indexed path of an entity has one. -/
theorem exact_mem_bindings_iff {r : IdentityRegistry} (hs : r.Sound) {c : Call}
    (hf : Fresh c.mint r) {e : Entity} (he : e ∈ c.entities) (id : DurableId) :
    (∃ oldHash, (e.qualifiedPath, Binding.exact id oldHash) ∈ (c.run r).1.bindings) ↔
      r.byPath.lookup e.qualifiedPath = some id := by
  obtain ⟨exact, rest, ht, hexact, -, -, hindexed⟩ :=
    matchEntities_tracks c.iter hs.linked hf c.scope (sortEntities c.entities)
  have hbindings : (c.run r).1.bindings =
      (exact ++ rest).map fun x => (x.entity.qualifiedPath, x.binding) := ht.bindings
  rw [hbindings]
  constructor
  · rintro ⟨oldHash, hmem⟩
    obtain ⟨x, hx, hxe⟩ := List.mem_map.mp hmem
    have hj := ht.justified x hx
    have hb : x.binding = .exact id oldHash := congrArg Prod.snd hxe
    have hp : x.entity.qualifiedPath = e.qualifiedPath := congrArg Prod.fst hxe
    rw [hb] at hj
    rw [← hp]
    exact hj.1
  · intro hlook
    have he' : e ∈ sortEntities c.entities := (sortEntities_perm _).mem_iff.mpr he
    obtain ⟨x, hx, hxid⟩ := hindexed e he' id hlook
    have hx' : x ∈ exact ++ rest := List.mem_append_left _ hx
    have hj := ht.justified x hx'
    have hisExact := hexact x hx
    cases hb : x.binding with
    | exact k oldHash =>
      rw [hb] at hj
      have hk : k = id := by
        rw [← hxid]
        exact (congrArg Binding.id hb).symm
      have hp := hs.linked.path_injective (hk ▸ hj.1) hlook
      refine ⟨oldHash, List.mem_map.mpr ⟨x, hx', ?_⟩⟩
      rw [hp, hb, hk]
    | moved _ _ _ =>
      rw [hb] at hisExact
      cases hisExact
    | struct _ _ _ =>
      rw [hb] at hisExact
      cases hisExact
    | minted _ =>
      rw [hb] at hisExact
      cases hisExact

/-- A stored and loaded registry reconciles like the one in memory exactly
when, at every path of an entity, the holder in memory is the last anchor of
that path in the order of ids, orphans included. -/
theorem reload_transparent_iff {r : IdentityRegistry} (hr : ReachableBy DistinctPaths r)
    {codec : Codec} (hc : codec.RoundTrips (toJsonValue r)) (c : Call) (hf : Fresh c.mint r)
    (iter' : HashOrder DurableId) :
    ∃ bytes s, toBytes codec r = .ok bytes ∧ fromBytes codec bytes = .ok s ∧
      (SameOutcome (c.run r) (Call.run { c with iter := iter' } s) ↔
        ∀ e ∈ c.entities, r.byPath.lookup e.qualifiedPath = lastAt r e.qualifiedPath) := by
  have hs := hr.sound
  have hs' := sound_reloaded r
  obtain ⟨bytes, hto, hfrom⟩ := fromBytes_toBytes hc
  refine ⟨bytes, reloaded r, hto, hfrom, ?_⟩
  constructor
  · rintro ⟨hbind, -, -⟩ e he
    have hf' : Fresh c.mint (reloaded r) :=
      ⟨hf.injective, fun k => (get_reloaded r _).trans (hf.unknown k)⟩
    rw [← byPath_reloaded]
    refine Option.ext fun id => ?_
    rw [← exact_mem_bindings_iff hs hf he id, hbind]
    exact exact_mem_bindings_iff (c := { c with iter := iter' }) hs' hf' he id
  · intro hpath
    have halike : Alike r (reloaded r) c.entities :=
      ⟨hs, hs', get_reloaded r, fun e he => (byPath_reloaded r _).trans (hpath e he).symm⟩
    exact halike.sameOutcome iter'

/-- The registry after a function of two was deleted. -/
def afterDeletion : IdentityRegistry :=
  runCalls
    [wholeCall 0 1 [topFunction "a.py" "f" 1, topFunction "a.py" "g" 2],
      wholeCall 2 2 [topFunction "a.py" "g" 2]]

/-- The run that leads there. -/
theorem afterDeletion_reachable : ReachableBy DistinctPaths afterDeletion := by
  refine ReachableBy.step (wholeCall 2 2 [topFunction "a.py" "g" 2]) ?_
    (longIds_fresh (by decide +kernel)) (by decide +kernel)
  exact ReachableBy.step (wholeCall 0 1 [topFunction "a.py" "f" 1, topFunction "a.py" "g" 2])
    ReachableBy.start (longIds_fresh (by decide +kernel)) (by decide +kernel)

/-- The remaining function moves and the deleted one comes back elsewhere:
a restart in between goes unnoticed. -/
theorem reload_transparent_after_move :
    ∃ bytes s, toBytes (Codec.reading (toJsonValue afterDeletion)) afterDeletion = .ok bytes ∧
      fromBytes (Codec.reading (toJsonValue afterDeletion)) bytes = .ok s ∧
      SameOutcome
        ((wholeCall 2 3 [topFunction "b.py" "f" 1, topFunction "b.py" "g" 2]).run afterDeletion)
        ((wholeCall 2 3 [topFunction "b.py" "f" 1, topFunction "b.py" "g" 2]).run s) := by
  obtain ⟨bytes, s, hto, hfrom, hiff⟩ := reload_transparent_iff afterDeletion_reachable
    (Codec.reading_roundTrips _)
    (wholeCall 2 3 [topFunction "b.py" "f" 1, topFunction "b.py" "g" 2])
    (longIds_fresh (by decide +kernel)) HashOrder.increasing
  exact ⟨bytes, s, hto, hfrom, hiff.mpr (by decide +kernel)⟩

/-- The deleted function comes back at its path with a new body: in memory it
gets a fresh id, after a restart it is bound to the orphan. -/
theorem reload_not_transparent :
    ReachableBy DistinctPaths afterDeletion ∧ Fresh (longIds 2) afterDeletion ∧
    ∃ bytes s, toBytes (Codec.reading (toJsonValue afterDeletion)) afterDeletion = .ok bytes ∧
      fromBytes (Codec.reading (toJsonValue afterDeletion)) bytes = .ok s ∧
      ((wholeCall 2 3 [topFunction "a.py" "f" 3]).run afterDeletion).1.bindings =
        [("a.py::f", .minted "AAA")] ∧
      ((wholeCall 2 3 [topFunction "a.py" "f" 3]).run s).1.bindings =
        [("a.py::f", .exact "A" 1)] ∧
      ¬SameOutcome ((wholeCall 2 3 [topFunction "a.py" "f" 3]).run afterDeletion)
        ((wholeCall 2 3 [topFunction "a.py" "f" 3]).run s) := by
  obtain ⟨bytes, hto, hfrom⟩ :=
    fromBytes_toBytes (Codec.reading_roundTrips (toJsonValue afterDeletion))
  have hmemory : ((wholeCall 2 3 [topFunction "a.py" "f" 3]).run afterDeletion).1.bindings =
      [("a.py::f", .minted "AAA")] := by decide +kernel
  have hrestart : ((wholeCall 2 3 [topFunction "a.py" "f" 3]).run
      (reloaded afterDeletion)).1.bindings = [("a.py::f", .exact "A" 1)] := by decide +kernel
  refine ⟨afterDeletion_reachable, longIds_fresh (by decide +kernel), bytes,
    reloaded afterDeletion, hto, hfrom, hmemory, hrestart, ?_⟩
  rintro ⟨hsame, -, -⟩
  rw [hmemory, hrestart] at hsame
  simp at hsame

end Tyo3.IdentityPersistence
