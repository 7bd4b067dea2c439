import Tyo3.Entities
import Tyo3.FiniteMaps
import Tyo3.TextSearch

/-!
# The identity registry and its three indexes

A durable id is bound to the last known facts about its entity. The anchors
are the authoritative store; the path index and the hash index are kept in
step by hand in every mutator. A retired anchor leaves the path index and
stays in the hash index, so that a returning body finds its id again.
-/

namespace Tyo3.IdentityAnchors

open Entities FiniteMaps TextSearch

/-- A minted identity: an opaque text that is compared and never parsed. -/
abbrev DurableId := String

/-- Lifecycle of an identity. -/
inductive IdentityStatus where
  | active | needsReview | orphaned
  deriving DecidableEq, Repr

/-- A durable id with the last known facts about its entity. -/
structure Anchor where
  /-- The id under which the anchor is stored. -/
  id : DurableId
  /-- Last known file and dotted position, joined by double colons. -/
  qualifiedPath : String
  /-- Last known hash of the normalised definition. -/
  contentHash : ContentHash
  /-- Kind the entity had when the anchor was minted. -/
  kind : SymbolKind
  /-- Revision that minted the id. -/
  firstSeenRev : Revision
  /-- Revision that last bound or retired the id. -/
  lastSeenRev : Revision
  /-- Lifecycle status. -/
  status : IdentityStatus
  deriving DecidableEq, Repr

/-- The unqualified name: what follows the last double colon. -/
def Anchor.name (a : Anchor) : String :=
  match rsplitOnce "::" a.qualifiedPath with
  | some (_, leaf) => leaf
  | none => a.qualifiedPath

/-- What precedes the last double colon, absent when that is empty. -/
def Anchor.container (a : Anchor) : Option String :=
  match rsplitOnce "::" a.qualifiedPath with
  | some (front, _) => if front = "" then none else some front
  | none => none

/-- Replace the anchor of an id, if it has one. -/
def modifyAnchor (anchors : FMap DurableId Anchor) (id : DurableId) (f : Anchor → Anchor) :
    FMap DurableId Anchor :=
  match anchors.lookup id with
  | none => anchors
  | some a => anchors.insert id (f a)

/-- Modification touches one id and keeps absent ids absent. -/
theorem lookup_modifyAnchor (anchors : FMap DurableId Anchor) (id id' : DurableId)
    (f : Anchor → Anchor) :
    (modifyAnchor anchors id f).lookup id' =
      if id' = id then (anchors.lookup id).map f else anchors.lookup id' := by
  unfold modifyAnchor
  cases ha : anchors.lookup id with
  | none =>
    by_cases h : id' = id
    · rw [if_pos h, h, ha]
      rfl
    · rw [if_neg h]
  | some a => exact lookup_insert_ite anchors id id' (f a)

/-- The registry. An anchor is always stored under its own id. -/
structure IdentityRegistry where
  /-- Authoritative store. -/
  byId : FMap DurableId Anchor
  /-- Qualified path to id, the index of exact matches. -/
  byPath : FMap String DurableId
  /-- Content hash to ids, the index of hash matches. -/
  byHash : FMap ContentHash (List DurableId)
  /-- Every anchor carries the id it is stored under. -/
  keyed : ∀ id a, byId.lookup id = some a → a.id = id

/-- Equal stores and equal indexes make equal registries. -/
@[ext]
theorem IdentityRegistry.ext {r s : IdentityRegistry} (hid : r.byId = s.byId)
    (hpath : r.byPath = s.byPath) (hhash : r.byHash = s.byHash) : r = s := by
  cases r
  cases s
  cases hid
  cases hpath
  cases hhash
  rfl

/-- The registry of a project that was never opened. -/
def IdentityRegistry.empty : IdentityRegistry where
  byId := ∅
  byPath := ∅
  byHash := ∅
  keyed := by simp

namespace IdentityRegistry

/-- The anchor of an id. -/
def get (r : IdentityRegistry) (id : DurableId) : Option Anchor := r.byId.lookup id

/-- Ids listed under a content hash. -/
def hashIds (r : IdentityRegistry) (hash : ContentHash) : List DurableId :=
  (r.byHash.lookup hash).getD []

/-- The status of an id, absent for an unknown id. -/
def statusOf (r : IdentityRegistry) (id : DurableId) : Option IdentityStatus :=
  (r.get id).map Anchor.status

end IdentityRegistry

/-- Drop an id from one hash, and the hash itself when no id is left. -/
def removeFromHashIndex (byHash : FMap ContentHash (List DurableId)) (hash : ContentHash)
    (id : DurableId) : FMap ContentHash (List DurableId) :=
  match byHash.lookup hash with
  | none => byHash
  | some ids =>
    let kept := ids.filter fun x => x ≠ id
    if kept = [] then byHash.erase hash else byHash.insert hash kept

/-- List an id under a hash, after the ids already there. -/
def pushHashIndex (byHash : FMap ContentHash (List DurableId)) (hash : ContentHash)
    (id : DurableId) : FMap ContentHash (List DurableId) :=
  byHash.insert hash ((byHash.lookup hash).getD [] ++ [id])

/-- Removal filters the list of one hash and leaves all others alone. -/
theorem getD_removeFromHashIndex (byHash : FMap ContentHash (List DurableId))
    (hash hash' : ContentHash) (id : DurableId) :
    ((removeFromHashIndex byHash hash id).lookup hash').getD [] =
      if hash' = hash then ((byHash.lookup hash).getD []).filter (fun x => x ≠ id)
      else (byHash.lookup hash').getD [] := by
  unfold removeFromHashIndex
  cases hl : byHash.lookup hash with
  | none =>
    by_cases h : hash' = hash
    · rw [if_pos h, h, hl]
      rfl
    · rw [if_neg h]
  | some ids =>
    dsimp only
    split
    · rename_i hnil
      rw [lookup_erase_ite]
      by_cases h : hash' = hash
      · rw [if_pos h, if_pos h, Option.getD_some, hnil]
        rfl
      · rw [if_neg h, if_neg h]
    · rw [lookup_insert_ite]
      by_cases h : hash' = hash
      · rw [if_pos h, if_pos h]
        rfl
      · rw [if_neg h, if_neg h]

/-- Listing appends to one hash and leaves all others alone. -/
theorem getD_pushHashIndex (byHash : FMap ContentHash (List DurableId))
    (hash hash' : ContentHash) (id : DurableId) :
    ((pushHashIndex byHash hash id).lookup hash').getD [] =
      if hash' = hash then (byHash.lookup hash).getD [] ++ [id]
      else (byHash.lookup hash').getD [] := by
  unfold pushHashIndex
  rw [lookup_insert_ite]
  by_cases h : hash' = hash
  · rw [if_pos h, if_pos h]
    rfl
  · rw [if_neg h, if_neg h]

/-- Move an id in the hash index: off the old hash, then onto the new one. -/
def rehash (byHash : FMap ContentHash (List DurableId)) (old new : ContentHash)
    (id : DurableId) : FMap ContentHash (List DurableId) :=
  pushHashIndex (removeFromHashIndex byHash old id) new id

namespace IdentityRegistry

/-- Insert an anchor. An anchor already stored under the same id gives up
its old index entries first. -/
def insert (r : IdentityRegistry) (anchor : Anchor) : IdentityRegistry where
  byId := r.byId.insert anchor.id anchor
  byPath :=
    let kept := match r.get anchor.id with
      | some old => r.byPath.erase old.qualifiedPath
      | none => r.byPath
    kept.insert anchor.qualifiedPath anchor.id
  byHash :=
    let kept := match r.get anchor.id with
      | some old => removeFromHashIndex r.byHash old.contentHash anchor.id
      | none => r.byHash
    pushHashIndex kept anchor.contentHash anchor.id
  keyed := by
    intro id a ha
    rw [lookup_insert_ite] at ha
    split at ha
    · rename_i h
      cases ha
      exact h.symm
    · exact r.keyed id a ha

/-- Give an existing anchor a new path and hash and stamp the revision; an
unknown id is left alone. The entry of the old path is dropped whoever
holds it. -/
def rebind (r : IdentityRegistry) (id : DurableId) (newPath : String) (newHash : ContentHash)
    (rev : Revision) : IdentityRegistry :=
  match r.get id with
  | none => r
  | some old =>
    { byId := modifyAnchor r.byId id fun a =>
        { a with qualifiedPath := newPath, contentHash := newHash, lastSeenRev := rev }
      byPath := (r.byPath.erase old.qualifiedPath).insert newPath id
      byHash := rehash r.byHash old.contentHash newHash id
      keyed := by
        intro id' a ha
        rw [lookup_modifyAnchor] at ha
        split at ha
        · rename_i h
          obtain ⟨b, hb, rfl⟩ := Option.map_eq_some_iff.mp ha
          exact (r.keyed id b hb).trans h.symm
        · exact r.keyed id' a ha }

/-- Retire an anchor: orphan it and drop its path entry, keep its hash
entry. An anchor that is orphaned already is left alone. -/
def retire (r : IdentityRegistry) (id : DurableId) (rev : Revision) : IdentityRegistry :=
  match r.get id with
  | none => r
  | some old =>
    if old.status = .orphaned then r
    else
      { byId := modifyAnchor r.byId id fun a => { a with lastSeenRev := rev, status := .orphaned }
        byPath := r.byPath.erase old.qualifiedPath
        byHash := r.byHash
        keyed := by
          intro id' a ha
          rw [lookup_modifyAnchor] at ha
          split at ha
          · rename_i h
            obtain ⟨b, hb, rfl⟩ := Option.map_eq_some_iff.mp ha
            exact (r.keyed id b hb).trans h.symm
          · exact r.keyed id' a ha }

/-- Set the lifecycle status of an anchor. -/
def setStatus (r : IdentityRegistry) (id : DurableId) (status : IdentityStatus) :
    IdentityRegistry where
  byId := modifyAnchor r.byId id fun a => { a with status := status }
  byPath := r.byPath
  byHash := r.byHash
  keyed := by
    intro id' a ha
    rw [lookup_modifyAnchor] at ha
    split at ha
    · rename_i h
      obtain ⟨b, hb, rfl⟩ := Option.map_eq_some_iff.mp ha
      exact (r.keyed id b hb).trans h.symm
    · exact r.keyed id' a ha

/-- An anchor after its insertion. -/
@[simp]
theorem get_insert (r : IdentityRegistry) (anchor : Anchor) (id : DurableId) :
    (r.insert anchor).get id = if id = anchor.id then some anchor else r.get id :=
  lookup_insert_ite r.byId anchor.id id anchor

/-- Only one anchor changes when an id is bound again. -/
@[simp]
theorem get_rebind (r : IdentityRegistry) (id id' : DurableId) (path : String)
    (hash : ContentHash) (rev : Revision) :
    (r.rebind id path hash rev).get id' =
      if id' = id then (r.get id).map fun a =>
        { a with qualifiedPath := path, contentHash := hash, lastSeenRev := rev }
      else r.get id' := by
  unfold rebind
  cases hg : r.get id with
  | none =>
    by_cases h : id' = id
    · rw [if_pos h, h, hg]
      rfl
    · rw [if_neg h]
  | some old =>
    refine (lookup_modifyAnchor r.byId id id' _).trans ?_
    rw [show r.byId.lookup id = some old from hg]
    rfl

/-- A status change reaches one anchor only. -/
@[simp]
theorem get_setStatus (r : IdentityRegistry) (id id' : DurableId) (status : IdentityStatus) :
    (r.setStatus id status).get id' =
      if id' = id then (r.get id).map fun a => { a with status := status } else r.get id' :=
  lookup_modifyAnchor r.byId id id' _

/-- Retirement orphans one live anchor and changes nothing else. -/
@[simp]
theorem get_retire (r : IdentityRegistry) (id id' : DurableId) (rev : Revision) :
    (r.retire id rev).get id' =
      if id' = id then (r.get id).map fun a =>
        if a.status = .orphaned then a else { a with lastSeenRev := rev, status := .orphaned }
      else r.get id' := by
  unfold retire
  cases hg : r.get id with
  | none =>
    by_cases h : id' = id
    · rw [if_pos h, h, hg]
      rfl
    · rw [if_neg h]
  | some old =>
    dsimp only
    split
    · rename_i ho
      by_cases h : id' = id
      · rw [if_pos h, h, hg, Option.map_some, if_pos ho]
      · rw [if_neg h]
    · rename_i ho
      refine (lookup_modifyAnchor r.byId id id' _).trans ?_
      by_cases h : id' = id
      · rw [if_pos h, if_pos h, show r.byId.lookup id = some old from hg, Option.map_some,
          Option.map_some, if_neg ho]
      · rw [if_neg h, if_neg h]
        rfl

/-- Path entries after a rebind of a known id. -/
theorem byPath_rebind {r : IdentityRegistry} {id : DurableId} {old : Anchor}
    (hg : r.get id = some old) (path q : String) (hash : ContentHash) (rev : Revision) :
    (r.rebind id path hash rev).byPath.lookup q =
      if q = path then some id
      else if q = old.qualifiedPath then none else r.byPath.lookup q := by
  unfold rebind
  rw [hg]
  dsimp only
  rw [lookup_insert_ite, lookup_erase_ite]

/-- Hash entries after a rebind of a known id. -/
theorem hashIds_rebind {r : IdentityRegistry} {id : DurableId} {old : Anchor}
    (hg : r.get id = some old) (path : String) (hash h : ContentHash) (rev : Revision) :
    (r.rebind id path hash rev).hashIds h =
      (if h = old.contentHash then (r.hashIds h).filter (fun x => x ≠ id) else r.hashIds h) ++
        (if h = hash then [id] else []) := by
  unfold rebind
  rw [hg]
  unfold hashIds
  dsimp only
  unfold rehash
  rw [getD_pushHashIndex]
  by_cases h1 : h = hash
  · subst h1
    rw [if_pos rfl, if_pos rfl, getD_removeFromHashIndex]
    by_cases h2 : h = old.contentHash
    · rw [if_pos h2, if_pos h2, h2]
    · rw [if_neg h2, if_neg h2]
  · rw [if_neg h1, if_neg h1, List.append_nil, getD_removeFromHashIndex]
    by_cases h2 : h = old.contentHash
    · rw [if_pos h2, if_pos h2, h2]
    · rw [if_neg h2, if_neg h2]

/-- Path entries after the insertion of a fresh anchor. -/
theorem byPath_insert {r : IdentityRegistry} {anchor : Anchor} (hg : r.get anchor.id = none)
    (q : String) :
    (r.insert anchor).byPath.lookup q =
      if q = anchor.qualifiedPath then some anchor.id else r.byPath.lookup q := by
  unfold insert
  rw [hg]
  exact lookup_insert_ite _ _ _ _

/-- Hash entries after the insertion of a fresh anchor. -/
theorem hashIds_insert {r : IdentityRegistry} {anchor : Anchor} (hg : r.get anchor.id = none)
    (h : ContentHash) :
    (r.insert anchor).hashIds h =
      r.hashIds h ++ (if h = anchor.contentHash then [anchor.id] else []) := by
  unfold insert hashIds
  rw [hg]
  dsimp only
  rw [getD_pushHashIndex]
  by_cases h1 : h = anchor.contentHash
  · rw [if_pos h1, if_pos h1, h1]
  · rw [if_neg h1, if_neg h1, List.append_nil]

/-- An insertion over a stored id is a rebind that also replaces the other
facts: the two leave the same indexes. -/
theorem insert_known_indexes {r : IdentityRegistry} {anchor old : Anchor}
    (hg : r.get anchor.id = some old) (rev : Revision) :
    (r.insert anchor).byPath =
        (r.rebind anchor.id anchor.qualifiedPath anchor.contentHash rev).byPath ∧
      (r.insert anchor).byHash =
        (r.rebind anchor.id anchor.qualifiedPath anchor.contentHash rev).byHash := by
  unfold insert rebind
  rw [hg]
  exact ⟨rfl, rfl⟩

/-- Path entries after a retirement: those of a live anchor's path go. -/
theorem byPath_retire {r : IdentityRegistry} {id : DurableId} {old : Anchor}
    (hg : r.get id = some old) (ho : old.status ≠ .orphaned) (rev : Revision) (q : String) :
    (r.retire id rev).byPath.lookup q =
      if q = old.qualifiedPath then none else r.byPath.lookup q := by
  unfold retire
  rw [hg]
  dsimp only
  rw [if_neg ho]
  exact lookup_erase_ite _ _ _

/-- Retirement never touches the hash index. -/
@[simp]
theorem hashIds_retire (r : IdentityRegistry) (id : DurableId) (rev : Revision)
    (h : ContentHash) : (r.retire id rev).hashIds h = r.hashIds h := by
  unfold retire
  split
  · rfl
  · split <;> rfl

/-- What the mutators keep on every input: both indexes list only anchors
that carry the path or hash they are listed under, and every anchor, live or
orphaned, is listed exactly once under its hash. -/
structure Sound (r : IdentityRegistry) : Prop where
  /-- A path entry names an anchor of that path. -/
  path_anchor : ∀ p id, r.byPath.lookup p = some id →
    ∃ a, r.get id = some a ∧ a.qualifiedPath = p
  /-- A hash entry names an anchor of that hash. -/
  hash_anchor : ∀ h id, id ∈ r.hashIds h → ∃ a, r.get id = some a ∧ a.contentHash = h
  /-- An anchor is listed once under its hash. -/
  hash_once : ∀ id a, r.get id = some a → (r.hashIds a.contentHash).count id = 1

/-- The empty registry is sound. -/
theorem Sound.empty : Sound IdentityRegistry.empty where
  path_anchor p id h := by simp [IdentityRegistry.empty] at h
  hash_anchor h id hm := by simp [hashIds, IdentityRegistry.empty] at hm
  hash_once id a h := by simp [get, IdentityRegistry.empty] at h

/-- Both indexes list only anchors that carry the path or hash they are
listed under. -/
structure Linked (r : IdentityRegistry) : Prop where
  /-- A path entry names an anchor of that path. -/
  path_anchor : ∀ p id, r.byPath.lookup p = some id →
    ∃ a, r.get id = some a ∧ a.qualifiedPath = p
  /-- A hash entry names an anchor of that hash. -/
  hash_anchor : ∀ h id, id ∈ r.hashIds h → ∃ a, r.get id = some a ∧ a.contentHash = h

/-- A sound registry is linked. -/
theorem Sound.linked {r : IdentityRegistry} (hs : Sound r) : Linked r :=
  ⟨hs.path_anchor, hs.hash_anchor⟩

/-- No two paths lead to one id. -/
theorem Linked.path_injective {r : IdentityRegistry} (hl : Linked r) {p q : String}
    {id : DurableId} (hp : r.byPath.lookup p = some id) (hq : r.byPath.lookup q = some id) :
    p = q := by
  obtain ⟨a, ha, hap⟩ := hl.path_anchor p id hp
  obtain ⟨b, hb, hbq⟩ := hl.path_anchor q id hq
  rw [ha] at hb
  cases hb
  exact hap.symm.trans hbq

/-- The hash index lists exactly the anchors of a hash. -/
theorem Sound.mem_hashIds {r : IdentityRegistry} (hs : Sound r) (h : ContentHash)
    (id : DurableId) : id ∈ r.hashIds h ↔ ∃ a, r.get id = some a ∧ a.contentHash = h := by
  constructor
  · exact hs.hash_anchor h id
  · rintro ⟨a, ha, rfl⟩
    have hc := hs.hash_once id a ha
    exact List.count_pos_iff.mp (by omega)

/-- Indexes stay sound when the anchors keep their paths and hashes. -/
theorem Sound.of_same_keys {r s : IdentityRegistry} (hs : Sound r)
    (hpath : ∀ p id, s.byPath.lookup p = some id → r.byPath.lookup p = some id)
    (hhash : ∀ h, s.hashIds h = r.hashIds h)
    (hget : ∀ id, (s.get id).map (fun a => (a.qualifiedPath, a.contentHash)) =
      (r.get id).map fun a => (a.qualifiedPath, a.contentHash)) : Sound s := by
  have back : ∀ {id a}, r.get id = some a →
      ∃ b, s.get id = some b ∧ b.qualifiedPath = a.qualifiedPath ∧ b.contentHash = a.contentHash := by
    intro id a ha
    have h := hget id
    rw [ha, Option.map_some] at h
    obtain ⟨b, hb, he⟩ := Option.map_eq_some_iff.mp h
    exact ⟨b, hb, congrArg Prod.fst he, congrArg Prod.snd he⟩
  refine ⟨?_, ?_, ?_⟩
  · intro p id hp
    obtain ⟨a, ha, hap⟩ := hs.path_anchor p id (hpath p id hp)
    obtain ⟨b, hb, hbp, -⟩ := back ha
    exact ⟨b, hb, hbp.trans hap⟩
  · intro h id hm
    rw [hhash] at hm
    obtain ⟨a, ha, hah⟩ := hs.hash_anchor h id hm
    obtain ⟨b, hb, -, hbh⟩ := back ha
    exact ⟨b, hb, hbh.trans hah⟩
  · intro id b hb
    have h := hget id
    rw [hb, Option.map_some] at h
    obtain ⟨a, ha, he⟩ := Option.map_eq_some_iff.mp h.symm
    have hh : a.contentHash = b.contentHash := congrArg Prod.snd he
    rw [hhash, ← hh]
    exact hs.hash_once id a ha

/-- Changing a status keeps the indexes sound. -/
theorem Sound.setStatus {r : IdentityRegistry} (hs : Sound r) (id : DurableId)
    (status : IdentityStatus) : Sound (r.setStatus id status) := by
  refine hs.of_same_keys (fun _ _ h => h) (fun _ => rfl) ?_
  intro id'
  rw [get_setStatus]
  by_cases h : id' = id
  · rw [if_pos h, h, Option.map_map]
    rfl
  · rw [if_neg h]

/-- Retiring an anchor keeps the indexes sound. -/
theorem Sound.retire {r : IdentityRegistry} (hs : Sound r) (id : DurableId) (rev : Revision) :
    Sound (r.retire id rev) := by
  refine hs.of_same_keys ?_ (hashIds_retire r id rev) ?_
  · intro p x hp
    cases hg : r.get id with
    | none =>
      simp only [IdentityRegistry.retire, hg] at hp
      exact hp
    | some old =>
      by_cases ho : old.status = .orphaned
      · simp only [IdentityRegistry.retire, hg, if_pos ho] at hp
        exact hp
      · rw [byPath_retire hg ho] at hp
        split at hp
        · cases hp
        · exact hp
  · intro id'
    rw [get_retire]
    by_cases h : id' = id
    · rw [if_pos h, h, Option.map_map]
      congr 1
      funext a
      simp only [Function.comp_apply]
      split <;> rfl
    · rw [if_neg h]

/-- Binding an id again keeps the indexes sound. -/
theorem Sound.rebind {r : IdentityRegistry} (hs : Sound r) (id : DurableId) (path : String)
    (hash : ContentHash) (rev : Revision) : Sound (r.rebind id path hash rev) := by
  cases hg : r.get id with
  | none =>
    simp only [IdentityRegistry.rebind, hg]
    exact hs
  | some old =>
    refine ⟨?_, ?_, ?_⟩
    · intro p x hp
      rw [byPath_rebind hg] at hp
      rw [get_rebind]
      split at hp
      · rename_i h
        cases hp
        rw [if_pos rfl, hg]
        exact ⟨_, rfl, h.symm⟩
      · split at hp
        · cases hp
        · rename_i h
          obtain ⟨a, ha, hap⟩ := hs.path_anchor p x hp
          have hx : x ≠ id := by
            rintro rfl
            rw [hg] at ha
            cases ha
            exact h hap.symm
          rw [if_neg hx]
          exact ⟨a, ha, hap⟩
    · intro h x hm
      rw [hashIds_rebind hg, List.mem_append] at hm
      rw [get_rebind]
      rcases hm with hm | hm
      · have hold : x ∈ r.hashIds h ∧ (h = old.contentHash → x ≠ id) := by
          split at hm
          · have hf := List.mem_filter.mp hm
            exact ⟨hf.1, fun _ => of_decide_eq_true hf.2⟩
          · rename_i hne
            exact ⟨hm, fun he => (hne he).elim⟩
        obtain ⟨a, ha, hah⟩ := hs.hash_anchor h x hold.1
        have hx : x ≠ id := by
          rintro rfl
          rw [hg] at ha
          cases ha
          exact hold.2 hah.symm rfl
        rw [if_neg hx]
        exact ⟨a, ha, hah⟩
      · split at hm
        · rename_i h1
          rw [List.mem_singleton] at hm
          rw [if_pos hm, hg]
          exact ⟨_, rfl, h1.symm⟩
        · cases hm
    · intro x a ha
      rw [get_rebind] at ha
      rw [hashIds_rebind hg, List.count_append]
      split at ha
      · rename_i hx
        rw [hg] at ha
        cases ha
        subst hx
        have hrest : List.count x (if hash = old.contentHash then
            (r.hashIds hash).filter (fun y => y ≠ x) else r.hashIds hash) = 0 := by
          apply List.count_eq_zero.mpr
          split
          · intro hm
            exact of_decide_eq_true (List.mem_filter.mp hm).2 rfl
          · rename_i hne
            intro hm
            obtain ⟨b, hb, hbh⟩ := hs.hash_anchor hash x hm
            rw [hg] at hb
            cases hb
            exact hne hbh.symm
        rw [hrest, if_pos rfl, List.count_singleton_self]
      · rename_i hx
        have hnew : List.count x (if a.contentHash = hash then [id] else []) = 0 := by
          apply List.count_eq_zero.mpr
          split
          · rw [List.mem_singleton]
            exact hx
          · exact List.not_mem_nil
        have hold : List.count x (if a.contentHash = old.contentHash then
            (r.hashIds a.contentHash).filter (fun y => y ≠ id) else r.hashIds a.contentHash) =
            (r.hashIds a.contentHash).count x := by
          split
          · exact List.count_filter (by simpa using hx)
          · rfl
        rw [hnew, hold, hs.hash_once x a ha]

/-- Inserting an anchor keeps the indexes sound, fresh or not. -/
theorem Sound.insert {r : IdentityRegistry} (hs : Sound r) (anchor : Anchor) :
    Sound (r.insert anchor) := by
  cases hg : r.get anchor.id with
  | some old =>
    -- over a stored id the indexes are those of a rebind, proved sound above
    have hr := hs.rebind anchor.id anchor.qualifiedPath anchor.contentHash 0
    obtain ⟨hpath, hhash⟩ := insert_known_indexes hg 0
    refine hr.of_same_keys (fun p id h => hpath ▸ h) (fun h => ?_) ?_
    · unfold hashIds
      rw [hhash]
    · intro id
      rw [get_insert, get_rebind]
      by_cases h : id = anchor.id
      · rw [if_pos h, if_pos h, hg]
        rfl
      · rw [if_neg h, if_neg h]
  | none =>
    refine ⟨?_, ?_, ?_⟩
    · intro p x hp
      rw [byPath_insert hg] at hp
      rw [get_insert]
      split at hp
      · rename_i h
        cases hp
        rw [if_pos rfl]
        exact ⟨anchor, rfl, h.symm⟩
      · obtain ⟨a, ha, hap⟩ := hs.path_anchor p x hp
        have hx : x ≠ anchor.id := by
          rintro rfl
          rw [hg] at ha
          cases ha
        rw [if_neg hx]
        exact ⟨a, ha, hap⟩
    · intro h x hm
      rw [hashIds_insert hg, List.mem_append] at hm
      rw [get_insert]
      rcases hm with hm | hm
      · obtain ⟨a, ha, hah⟩ := hs.hash_anchor h x hm
        have hx : x ≠ anchor.id := by
          rintro rfl
          rw [hg] at ha
          cases ha
        rw [if_neg hx]
        exact ⟨a, ha, hah⟩
      · split at hm
        · rename_i h1
          rw [List.mem_singleton] at hm
          rw [if_pos hm]
          exact ⟨anchor, rfl, h1.symm⟩
        · cases hm
    · intro x a ha
      rw [get_insert] at ha
      rw [hashIds_insert hg, List.count_append]
      split at ha
      · rename_i hx
        cases ha
        have hrest : List.count x (r.hashIds anchor.contentHash) = 0 := by
          apply List.count_eq_zero.mpr
          intro hm
          obtain ⟨b, hb, -⟩ := hs.hash_anchor anchor.contentHash x hm
          rw [hx, hg] at hb
          cases hb
        rw [hrest, if_pos rfl, hx, List.count_singleton_self]
      · rename_i hx
        have hnew : List.count x (if a.contentHash = anchor.contentHash then [anchor.id] else []) =
            0 := by
          apply List.count_eq_zero.mpr
          split
          · rw [List.mem_singleton]
            exact hx
          · exact List.not_mem_nil
        rw [hnew, hs.hash_once x a ha]

end IdentityRegistry

end Tyo3.IdentityAnchors
