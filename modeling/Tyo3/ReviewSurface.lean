import Tyo3.OrphanedNodes
import Tyo3.PinnedIdentity

/-!
# The review list of the daemon

The daemon joins the ids to be reviewed and the orphaned ids with the nodes
of the code graph and leaves out every id without a node. The graph has
nodes for the symbols of the present content, so an orphaned id has lost its
node together with its symbol. The list is complete exactly when every id
that it is about still has a node in its last known file: at the heads of
sessions, when no id is orphaned and every id to be reviewed has a node.
-/

namespace Tyo3.ReviewSurface

open AuthoredStore CodeDiffs CodeLayer CodeLayerBuilder CommitFunnel CommitPlan Entities FiniteMaps
  IdentityAnchors IdentityReconciliation OrphanedNodes PinnedIdentity ProjectSessions Runs Snapshots
  SystemPaths

/-- Why an id is listed. -/
inductive ReviewKind where
  | needsReview | orphaned
  deriving DecidableEq, Repr

/-- One entry of the list. -/
structure ReviewItem where
  /-- Id of the entity. -/
  durableId : DurableId
  /-- Name of its node. -/
  name : String
  /-- File of its node. -/
  path : String
  /-- Range of its node. -/
  range : Range
  /-- Why it is listed. -/
  state : ReviewKind
  deriving DecidableEq, Repr

/-- The ids the list is about, each with the reason. -/
def flaggedIds (iter : HashOrder DurableId) (s : Snapshot) : List (DurableId × ReviewKind) :=
  (s.needsReview.map fun id => (id, ReviewKind.needsReview)) ++
    (s.orphaned iter).map fun id => (id, ReviewKind.orphaned)

/-- The entry of an id: none without a node, and none for a node of another
file when a file is asked for. -/
def reviewItem (g : Layer) (rel : Option String) (cell : DurableId × ReviewKind) :
    Option ReviewItem :=
  match g.nodes.lookup cell.1 with
  | none => none
  | some node =>
    if rel.isSome ∧ some node.file ≠ rel then none
    else some ⟨cell.1, node.name, node.file, node.range, cell.2⟩

/-- The review list, of all files or of one file given by its path in the
project. -/
def reviewState (crates : Crates) (engine : Engine) (iter : HashOrder DurableId)
    (head : HeadState) (rel : Option String) : List ReviewItem :=
  (flaggedIds iter (headSnapshot head)).filterMap
    (reviewItem (graph crates engine (headSnapshot head)) rel)

/-! ## Entries -/

/-- An id with a reason is flagged. -/
def Flagged (head : HeadState) (id : DurableId) : ReviewKind → Prop
  | .needsReview => id ∈ needsReviewIds head.config head.authored head.registry
  | .orphaned => head.registry.statusOf id = some .orphaned

instance (head : HeadState) (id : DurableId) (state : ReviewKind) :
    Decidable (Flagged head id state) :=
  match state with
  | .needsReview => inferInstanceAs (Decidable (id ∈ _))
  | .orphaned => inferInstanceAs (Decidable (_ = _))

theorem mem_flaggedIds {iter : HashOrder DurableId} {head : HeadState} {id : DurableId}
    {state : ReviewKind} :
    (id, state) ∈ flaggedIds iter (headSnapshot head) ↔ Flagged head id state := by
  have horphaned : id ∈ (headSnapshot head).orphaned iter ↔
      head.registry.statusOf id = some .orphaned := by
    unfold Snapshot.orphaned
    rw [List.mem_filter, HashOrder.mem_order, mem_keys_iff, decide_eq_true_eq]
    refine and_iff_right_of_imp fun hstatus => ?_
    obtain ⟨a, ha, -⟩ := Option.map_eq_some_iff.mp hstatus
    exact ⟨a, ha⟩
  unfold flaggedIds
  rw [List.mem_append, List.mem_map, List.mem_map]
  cases state with
  | needsReview => simp [Flagged, Snapshot.needsReview, headSnapshot, pin]
  | orphaned => simp [Flagged, horphaned]

/-- No id is flagged twice for one reason. -/
theorem nodup_flaggedIds (iter : HashOrder DurableId) (s : Snapshot) :
    (flaggedIds iter s).Nodup := by
  have hreview : s.needsReview.Nodup := HashOrder.nodup_order _ _
  have horphaned : (s.orphaned iter).Nodup := (iter.nodup_order _).filter _
  unfold flaggedIds
  rw [List.nodup_append]
  refine ⟨hreview.map fun x y h => congrArg Prod.fst h,
    horphaned.map fun x y h => congrArg Prod.fst h, ?_⟩
  intro x hx y hy hxy
  obtain ⟨i, -, rfl⟩ := List.mem_map.mp hx
  obtain ⟨j, -, rfl⟩ := List.mem_map.mp hy
  cases congrArg Prod.snd hxy

/-- Number of entries of an id for a reason. -/
def entriesOf (items : List ReviewItem) (id : DurableId) (state : ReviewKind) : ℕ :=
  items.countP fun item => (item.durableId, item.state) = (id, state)

/-- Entries are made for their id and reason. -/
theorem key_reviewItem {g : Layer} {rel : Option String} {cell : DurableId × ReviewKind}
    {item : ReviewItem} (h : reviewItem g rel cell = some item) :
    (item.durableId, item.state) = cell := by
  unfold reviewItem at h
  split at h
  · cases h
  · split at h
    · cases h
    · cases h
      rfl

/-- From a list without repetitions every cell gives one entry or none. -/
theorem entriesOf_filterMap {g : Layer} {rel : Option String} {id : DurableId}
    {state : ReviewKind} {cells : List (DurableId × ReviewKind)} (hnodup : cells.Nodup) :
    entriesOf (cells.filterMap (reviewItem g rel)) id state =
      if (id, state) ∈ cells ∧ (reviewItem g rel (id, state)).isSome then 1 else 0 := by
  unfold entriesOf
  induction cells with
  | nil => simp
  | cons cell cells ih =>
    obtain ⟨hfirst, hrest⟩ := List.nodup_cons.mp hnodup
    have hih := ih hrest
    cases hitem : reviewItem g rel cell with
    | none =>
      rw [List.filterMap_cons_none hitem, hih]
      by_cases hcell : (id, state) = cell
      · simp [hcell, hitem]
      · simp [hcell]
    | some item =>
      have hkey := key_reviewItem hitem
      rw [List.filterMap_cons_some hitem, List.countP_cons, hih, hkey]
      by_cases hcell : cell = (id, state)
      · subst hcell
        simp [hfirst, hitem]
      · have hne : (id, state) ≠ cell := fun h => hcell h.symm
        simp [hcell, hne]

/-- How often an id is listed for a reason. -/
theorem entriesOf_reviewState (crates : Crates) (engine : Engine) (iter : HashOrder DurableId)
    (head : HeadState) (rel : Option String) (id : DurableId) (state : ReviewKind) :
    entriesOf (reviewState crates engine iter head rel) id state =
      if Flagged head id state ∧
        (reviewItem (graph crates engine (headSnapshot head)) rel (id, state)).isSome
      then 1 else 0 := by
  unfold reviewState
  rw [entriesOf_filterMap (nodup_flaggedIds iter _)]
  simp only [mem_flaggedIds]

/-! ## Completeness -/

/-- The last known file of an id, by its path in the project. -/
def lastKnownFile (head : HeadState) (id : DurableId) : Option String :=
  (head.registry.get id).map fun a =>
    toGraphPath head.root.asStr (fileOfQualifiedPath a.qualifiedPath)

/-- The list has one entry for each id to be reviewed and for each orphaned
id, of one file or of all, and no id for both reasons. -/
structure Surfaces (crates : Crates) (engine : Engine) (iter : HashOrder DurableId)
    (head : HeadState) : Prop where
  /-- All files. -/
  whole : ∀ id state, entriesOf (reviewState crates engine iter head none) id state =
    if Flagged head id state then 1 else 0
  /-- One file. -/
  ofFile : ∀ rel id state, entriesOf (reviewState crates engine iter head (some rel)) id state =
    if Flagged head id state ∧ lastKnownFile head id = some rel then 1 else 0
  /-- One reason. -/
  apart : ∀ rel, ∀ item ∈ reviewState crates engine iter head rel,
    ∀ other ∈ reviewState crates engine iter head rel,
      item.durableId = other.durableId → item.state = other.state

/-- Every id to be reviewed and every orphaned id has a node in the graph of
the head, in its last known file. -/
def Visible (crates : Crates) (engine : Engine) (head : HeadState) : Prop :=
  ∀ id state, Flagged head id state →
    ∃ node, (graph crates engine (headSnapshot head)).nodes.lookup id = some node ∧
      lastKnownFile head id = some node.file

/-- An orphaned id is not to be reviewed. -/
theorem state_eq_of_flagged {head : HeadState} {id : DurableId} {state other : ReviewKind}
    (h : Flagged head id state) (h' : Flagged head id other) : state = other := by
  have hapart : Flagged head id .needsReview → ¬Flagged head id .orphaned := by
    intro hreview horphaned
    obtain ⟨a, ha, hlive, -⟩ := mem_needsReviewIds.mp hreview
    obtain ⟨b, hb, hstatus⟩ := Option.map_eq_some_iff.mp horphaned
    have hsame : a = b := Option.some_inj.mp (ha.symm.trans hb)
    exact hlive (hsame ▸ hstatus)
  cases state <;> cases other
  · rfl
  · exact (hapart h h').elim
  · exact (hapart h' h).elim
  · rfl

/-- Without a file an entry needs a node. -/
theorem isSome_reviewItem_none {g : Layer} {cell : DurableId × ReviewKind} :
    (reviewItem g none cell).isSome = true ↔ ∃ node, g.nodes.lookup cell.1 = some node := by
  unfold reviewItem
  cases g.nodes.lookup cell.1 with
  | none => simp
  | some node => simp

/-- With a file an entry needs a node of this file. -/
theorem isSome_reviewItem_some {g : Layer} {rel : String} {cell : DurableId × ReviewKind} :
    (reviewItem g (some rel) cell).isSome = true ↔
      ∃ node, g.nodes.lookup cell.1 = some node ∧ node.file = rel := by
  unfold reviewItem
  cases g.nodes.lookup cell.1 with
  | none => simp
  | some node =>
    by_cases hfile : node.file = rel
    · simp [hfile]
    · simp [hfile]

/-- Two counts of at most one agree exactly when their conditions do. -/
theorem ite_one_zero_eq_iff {c d : Prop} [Decidable c] [Decidable d] :
    ((if c then 1 else 0 : ℕ) = if d then 1 else 0) ↔ (c ↔ d) := by
  by_cases hc : c <;> by_cases hd : d <;> simp [hc, hd]

/-- The review list is complete exactly when every id that it is about is
visible in the graph. -/
theorem surfaces_iff (crates : Crates) (engine : Engine) (iter : HashOrder DurableId)
    (head : HeadState) : Surfaces crates engine iter head ↔ Visible crates engine head := by
  constructor
  · intro h id state hflagged
    have hwhole := h.whole id state
    rw [entriesOf_reviewState, ite_one_zero_eq_iff, isSome_reviewItem_none] at hwhole
    obtain ⟨-, node, hnode⟩ := hwhole.mpr hflagged
    have hofFile := h.ofFile node.file id state
    rw [entriesOf_reviewState, ite_one_zero_eq_iff, isSome_reviewItem_some] at hofFile
    exact ⟨node, hnode, (hofFile.mp ⟨hflagged, node, hnode, rfl⟩).2⟩
  · intro hvisible
    refine ⟨?_, ?_, ?_⟩
    · intro id state
      rw [entriesOf_reviewState, ite_one_zero_eq_iff, isSome_reviewItem_none]
      refine and_iff_left_of_imp fun hflagged => ?_
      obtain ⟨node, hnode, -⟩ := hvisible id state hflagged
      exact ⟨node, hnode⟩
    · intro rel id state
      rw [entriesOf_reviewState, ite_one_zero_eq_iff, isSome_reviewItem_some]
      refine and_congr_right fun hflagged => ?_
      obtain ⟨node, hnode, hfile⟩ := hvisible id state hflagged
      rw [hfile, Option.some_inj]
      constructor
      · rintro ⟨other, hother, hrel⟩
        rwa [← Option.some_inj.mp (hother.symm.trans hnode)]
      · exact fun hrel => ⟨node, hnode, hrel⟩
    · intro rel item hitem other hother hid
      obtain ⟨cell, hcell, hmade⟩ := List.mem_filterMap.mp hitem
      obtain ⟨cell', hcell', hmade'⟩ := List.mem_filterMap.mp hother
      rw [← key_reviewItem hmade] at hcell
      rw [← key_reviewItem hmade', ← hid] at hcell'
      exact state_eq_of_flagged (mem_flaggedIds.mp hcell) (mem_flaggedIds.mp hcell')

/-! ## Heads of sessions -/

section Sessions

variable {crates : Crates} {engine : Engine} {head : HeadState} {id : DurableId}

/-- A live anchor in a file was last known there. -/
theorem lastKnownFile_of_livesIn {file : String}
    (h : LivesIn head.root.asStr head.registry file id) : lastKnownFile head id = some file := by
  obtain ⟨p, native, ⟨a, ha, -, hpath⟩, hnative, hfile⟩ := h
  have hpart : fileOfQualifiedPath a.qualifiedPath = native := by
    unfold fileOfQualifiedPath
    rw [hpath]
    exact congrArg (Option.getD · p) hnative
  unfold lastKnownFile
  rw [ha, Option.map_some, hpart, toGraphPath_of_nativeToGraph hfile]

/-- Where nodes belong to live anchors, no orphaned id is listed. -/
theorem orphaned_unlisted (h : Shown crates engine head) (iter : HashOrder DurableId)
    (rel : Option String) (hid : Plain id) :
    entriesOf (reviewState crates engine iter head rel) id .orphaned = 0 := by
  rw [entriesOf_reviewState, if_neg]
  rintro ⟨hflagged, hitem⟩
  have hnone := h.lookup_orphaned hid hflagged
  unfold reviewItem at hitem
  dsimp only at hitem
  rw [hnone] at hitem
  cases hitem

/-- Where nodes belong to live anchors, everything that the list is about is
visible exactly when no id is orphaned and every id to be reviewed has a
node. -/
theorem visible_iff (h : Shown crates engine head)
    (hplain : ∀ id a, head.registry.get id = some a → Plain id) :
    Visible crates engine head ↔ (∀ id, head.registry.statusOf id ≠ some .orphaned) ∧
      ∀ id ∈ needsReviewIds head.config head.authored head.registry,
        ∃ node, (graph crates engine (headSnapshot head)).nodes.lookup id = some node := by
  constructor
  · intro hvisible
    refine ⟨fun id horphaned => ?_, fun id hreview => ?_⟩
    · obtain ⟨a, ha, -⟩ := Option.map_eq_some_iff.mp horphaned
      obtain ⟨node, hnode, -⟩ := hvisible id .orphaned horphaned
      rw [h.lookup_orphaned (hplain id a ha) horphaned] at hnode
      cases hnode
    · obtain ⟨node, hnode, -⟩ := hvisible id .needsReview hreview
      exact ⟨node, hnode⟩
  · rintro ⟨hnone, hnodes⟩ id state hflagged
    cases state with
    | orphaned => exact absurd hflagged (hnone id)
    | needsReview =>
      obtain ⟨a, ha, -⟩ := mem_needsReviewIds.mp hflagged
      obtain ⟨node, hnode⟩ := hnodes id hflagged
      exact ⟨node, hnode, lastKnownFile_of_livesIn (h.livesIn (hplain id a ha) hnode)⟩

/-- At every head of a run of ordinary steps no orphaned id is listed. The
ids that the list is about are visible exactly when none of them is orphaned
and all of them have a node. -/
theorem review_runSessions {root : SystemPath} {steps : List SessionStep}
    (h : Along (takeStep crates root) (OrdinaryStep crates engine root) (.closed ∅) steps)
    (hhead : runSessions crates root steps = .opened head)
    (hplain : ∀ id a, head.registry.get id = some a → Plain id) :
    (∀ iter rel id, Plain id →
      entriesOf (reviewState crates engine iter head rel) id .orphaned = 0) ∧
    (Visible crates engine head ↔ (∀ id, head.registry.statusOf id ≠ some .orphaned) ∧
      ∀ id ∈ needsReviewIds head.config head.authored head.registry,
        ∃ node, (graph crates engine (headSnapshot head)).nodes.lookup id = some node) := by
  have hshown := shown_runSessions h hhead
  exact ⟨fun iter rel _ hid => orphaned_unlisted hshown iter rel hid, visible_iff hshown hplain⟩

end Sessions

/-- The head of a project of one file after the file was removed. -/
def removedHead : HeadState :=
  (commit (listedCrates [⟨["p", "a.py"]⟩]) (listedEnv [⟨["p", "a.py"]⟩] ∅)
    (listedHead [⟨["p", "a.py"]⟩]
      ((∅ : Disk).insert ⟨["p", "a.py"]⟩ (.file "x = 1")) ⟨["p"]⟩) (.syncPath ⟨["p", "a.py"]⟩)).2

/-- A file is removed: the id of its variable is orphaned, and the review
list is empty. -/
theorem orphaned_not_listed :
    Reachable (listedCrates [⟨["p", "a.py"]⟩]) removedHead ∧
    removedHead.registry.statusOf "A" = some .orphaned ∧
    reviewState (listedCrates [⟨["p", "a.py"]⟩]) (listedEngine [⟨["p", "a.py"]⟩])
      HashOrder.increasing removedHead none = [] ∧
    ¬Surfaces (listedCrates [⟨["p", "a.py"]⟩]) (listedEngine [⟨["p", "a.py"]⟩])
      HashOrder.increasing removedHead := by
  have horphaned : removedHead.registry.statusOf "A" = some .orphaned := by decide +kernel
  have hempty : reviewState (listedCrates [⟨["p", "a.py"]⟩]) (listedEngine [⟨["p", "a.py"]⟩])
      HashOrder.increasing removedHead none = [] := by decide +kernel
  refine ⟨(listedHead_reachable _ _ _).step (.commit _ (.syncPath ⟨["p", "a.py"]⟩)), horphaned,
    hempty, ?_⟩
  intro h
  have hwhole := h.whole "A" .orphaned
  have hflagged : Flagged removedHead "A" .orphaned := horphaned
  rw [hempty, if_pos hflagged] at hwhole
  cases hwhole

end Tyo3.ReviewSurface
