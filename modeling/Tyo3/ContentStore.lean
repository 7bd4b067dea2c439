import Tyo3.Entities
import Tyo3.SystemPaths

/-!
# The revisioned content store

A generation holds the documents of one revision. Staging builds the next
generation without touching the store; publishing swaps it in, counts one
revision up and keeps the last generations for time travel.
-/

namespace Tyo3.ContentStore

open Entities FiniteMaps SystemPaths

/-- A document, or the mark of a path that is known to be absent. -/
inductive Document where
  | text (content : String) (version : ℕ)
  | deleted (version : ℕ)
  deriving DecidableEq, Repr

/-- The text of a document. -/
def Document.textOf : Document → Option String
  | .text content _ => some content
  | .deleted _ => none

/-- All documents of one revision. -/
structure ContentMap where
  /-- Documents of paths. -/
  system : FMap SystemPath Document
  /-- Documents without a place on disk. -/
  virtualFiles : FMap String Document
  deriving DecidableEq

/-- A generation without documents. -/
def ContentMap.new : ContentMap := ⟨∅, ∅⟩

/-- The text a generation holds for a path. -/
def ContentMap.textAt (m : ContentMap) (p : SystemPath) : Option String :=
  (m.system.lookup p).bind Document.textOf

/-- One write. -/
inductive Change where
  | insert (path : SystemPath) (text : String)
  | delete (path : SystemPath)
  | insertVirtual (path : String) (text : String)
  | forget (path : SystemPath)
  deriving DecidableEq, Repr

/-- The store. -/
structure Store where
  /-- Documents of the head revision. -/
  generation : ContentMap
  /-- The head revision. -/
  revision : Revision
  /-- Number of versions handed out. -/
  versionCounter : ℕ
  /-- The generations kept for time travel. -/
  retained : FMap Revision ContentMap
  /-- How many generations are kept. -/
  retainCap : ℕ

/-- A store at revision zero. -/
def Store.withRetainCap (retainCap : ℕ) : Store where
  generation := ContentMap.new
  revision := 0
  versionCounter := 0
  retained := (∅ : FMap Revision ContentMap).insert 0 ContentMap.new
  retainCap := retainCap

/-- Apply one write, taking a version from the counter when it stores a
document. -/
def applyChange (acc : ContentMap × ℕ) : Change → ContentMap × ℕ
  | .insert path text =>
    ({ acc.1 with system := acc.1.system.insert path (.text text (acc.2 + 1)) }, acc.2 + 1)
  | .delete path =>
    ({ acc.1 with system := acc.1.system.insert path (.deleted (acc.2 + 1)) }, acc.2 + 1)
  | .insertVirtual path text =>
    ({ acc.1 with virtualFiles := acc.1.virtualFiles.insert path (.text text (acc.2 + 1)) },
      acc.2 + 1)
  | .forget path => ({ acc.1 with system := acc.1.system.erase path }, acc.2)

namespace Store

/-- Remove the oldest kept generation. -/
def dropOldest (retained : FMap Revision ContentMap) : FMap Revision ContentMap :=
  match (HashOrder.increasing.order retained.keys).head? with
  | some oldest => retained.erase oldest
  | none => retained

/-- Keep the head generation, and drop the oldest ones beyond the cap. -/
def recordRetained (s : Store) : Store :=
  let retained := s.retained.insert s.revision s.generation
  { s with retained := dropOldest^[retained.keys.card - s.retainCap] retained }

/-- Build the next generation without publishing it. -/
def stage (s : Store) (changes : List Change) : ContentMap × Store :=
  let staged := changes.foldl applyChange (s.generation, s.versionCounter)
  (staged.1, { s with versionCounter := staged.2 })

/-- The next generation of a commit that changes no content. -/
def stageUnchanged (s : Store) : ContentMap := s.generation

/-- Publish a generation as the next revision. -/
def publishStaged (s : Store) (generation : ContentMap) : Store :=
  recordRetained { s with generation := generation, revision := s.revision + 1 }

/-- The revision the next publication gets. -/
def nextRevision (s : Store) : Revision := s.revision + 1

/-- Apply a batch of writes as one revision. -/
def applyBatch (s : Store) (changes : List Change) : Store :=
  let staged := changes.foldl applyChange (s.generation, s.versionCounter)
  recordRetained
    { s with generation := staged.1, versionCounter := staged.2, revision := s.revision + 1 }

/-- The generation kept for a revision. -/
def generationAt (s : Store) (rev : Revision) : Option ContentMap := s.retained.lookup rev

/-- The content of the head revision, as a snapshot pins it. -/
def capture (s : Store) : ContentMap := s.generation

/-- The oldest revision that is kept, the head when none is. -/
def oldestRetained (s : Store) : Revision :=
  ((HashOrder.increasing.order s.retained.keys).head?).getD s.revision

end Store

/-- Read paths from disk: a text, a deletion for an absent file, nothing for
a file that cannot be read. -/
def readDiskChanges (disk : Disk) (paths : List SystemPath) : List Change :=
  paths.filterMap fun p =>
    match readToString disk p with
    | .ok text => some (.insert p text)
    | .error .notFound => some (.delete p)
    | .error .other => none

/-- The regular files among the walked entries that a filter accepts. -/
def walkRelevantFiles (walk : Disk → SystemPath → List SystemPath) (disk : Disk)
    (root : SystemPath) (filter : SystemPath → Bool) : List SystemPath :=
  (walk disk root).filter fun p => isFile disk p && filter p

/-- Read the whole project into one revision. -/
def Store.ingestProject (s : Store) (walk : Disk → SystemPath → List SystemPath) (disk : Disk)
    (root : SystemPath) (filter : SystemPath → Bool) : Store :=
  s.applyBatch (readDiskChanges disk (walkRelevantFiles walk disk root filter))

/-- Stage a generation in which every walked file is read again, except for
the skipped ones. -/
def Store.stageReingest (s : Store) (walk : Disk → SystemPath → List SystemPath) (disk : Disk)
    (root : SystemPath) (filter : SystemPath → Bool) (skip : Finset SystemPath) :
    ContentMap × Store :=
  s.stage (readDiskChanges disk
    ((walkRelevantFiles walk disk root filter).filter fun p => p ∉ skip))

/-! ## What a batch of writes leaves at a path -/

/-- What a write to the disk paths stores at a path, if it concerns it. -/
def Change.effectAt (p : SystemPath) : Change → Option (Option String)
  | .insert path text => if path = p then some (some text) else none
  | .delete path => if path = p then some none else none
  | .insertVirtual _ _ => none
  | .forget path => if path = p then some none else none

/-- One write decides the text at its own path only. -/
theorem textAt_applyChange (acc : ContentMap × ℕ) (c : Change) (p : SystemPath) :
    (applyChange acc c).1.textAt p = (c.effectAt p).getD (acc.1.textAt p) := by
  cases c with
  | insert path text =>
    unfold ContentMap.textAt applyChange Change.effectAt
    dsimp only
    rw [lookup_insert_ite]
    by_cases h : p = path
    · rw [if_pos h, if_pos h.symm]
      rfl
    · rw [if_neg h, if_neg (Ne.symm h)]
      rfl
  | delete path =>
    unfold ContentMap.textAt applyChange Change.effectAt
    dsimp only
    rw [lookup_insert_ite]
    by_cases h : p = path
    · rw [if_pos h, if_pos h.symm]
      rfl
    · rw [if_neg h, if_neg (Ne.symm h)]
      rfl
  | insertVirtual path text => rfl
  | forget path =>
    unfold ContentMap.textAt applyChange Change.effectAt
    dsimp only
    rw [lookup_erase_ite]
    by_cases h : p = path
    · rw [if_pos h, if_pos h.symm]
      rfl
    · rw [if_neg h, if_neg (Ne.symm h)]
      rfl

/-- A batch leaves the document at a path that none of its writes concerns. -/
theorem lookup_foldl_of_effectAt_none {changes : List Change} {p : SystemPath}
    (h : ∀ c ∈ changes, c.effectAt p = none) (acc : ContentMap × ℕ) :
    (changes.foldl applyChange acc).1.system.lookup p = acc.1.system.lookup p := by
  induction changes generalizing acc with
  | nil => rfl
  | cons c changes ih =>
    have hc := h c List.mem_cons_self
    rw [List.foldl_cons, ih (fun c' hc' => h c' (List.mem_cons_of_mem _ hc'))]
    cases c with
    | insert path text =>
      have hne : p ≠ path := fun heq => by simp [Change.effectAt, heq] at hc
      exact Finmap.lookup_insert_of_ne _ hne
    | delete path =>
      have hne : p ≠ path := fun heq => by simp [Change.effectAt, heq] at hc
      exact Finmap.lookup_insert_of_ne _ hne
    | insertVirtual path text => rfl
    | forget path =>
      have hne : p ≠ path := fun heq => by simp [Change.effectAt, heq] at hc
      exact Finmap.lookup_erase_ne hne

/-- The last write that concerns a path decides its text. -/
theorem textAt_foldl_applyChange (changes : List Change) (acc : ContentMap × ℕ)
    (p : SystemPath) :
    (changes.foldl applyChange acc).1.textAt p =
      ((changes.filterMap (Change.effectAt p)).getLast?).getD (acc.1.textAt p) := by
  induction changes generalizing acc with
  | nil => rfl
  | cons c changes ih =>
    rw [List.foldl_cons, ih, textAt_applyChange]
    cases hc : c.effectAt p with
    | none => rw [List.filterMap_cons_none hc, Option.getD_none]
    | some effect =>
      rw [List.filterMap_cons_some hc, List.getLast?_cons]
      rfl

/-- The text of a staged generation. -/
theorem textAt_stage (s : Store) (changes : List Change) (p : SystemPath) :
    (s.stage changes).1.textAt p =
      ((changes.filterMap (Change.effectAt p)).getLast?).getD (s.generation.textAt p) :=
  textAt_foldl_applyChange changes (s.generation, s.versionCounter) p

/-- A document after a batch was there before or stands at a written path. -/
theorem lookup_foldl_applyChange {changes : List Change} {acc : ContentMap × ℕ} {p : SystemPath}
    {d : Document} (h : (changes.foldl applyChange acc).1.system.lookup p = some d) :
    acc.1.system.lookup p = some d ∨ ∃ c ∈ changes, ∃ effect, c.effectAt p = some effect := by
  induction changes generalizing acc with
  | nil => exact Or.inl h
  | cons c changes ih =>
    rw [List.foldl_cons] at h
    rcases ih h with hd | ⟨c', hc', he⟩
    · cases hc : c.effectAt p with
      | some effect => exact Or.inr ⟨c, List.mem_cons_self, effect, hc⟩
      | none =>
        left
        cases c with
        | insert path text =>
          have hne : p ≠ path := by
            rintro rfl
            simp [Change.effectAt] at hc
          simpa [applyChange, lookup_insert_ite, hne] using hd
        | delete path =>
          have hne : p ≠ path := by
            rintro rfl
            simp [Change.effectAt] at hc
          simpa [applyChange, lookup_insert_ite, hne] using hd
        | insertVirtual path text => exact hd
        | forget path =>
          have hne : p ≠ path := by
            rintro rfl
            simp [Change.effectAt] at hc
          simpa [applyChange, lookup_erase_ite, hne] using hd
    · exact Or.inr ⟨c', List.mem_cons_of_mem _ hc', he⟩

/-- Dropping generations adds none. -/
theorem lookup_of_iterate_dropOldest (n : ℕ) {retained : FMap Revision ContentMap}
    {rev : Revision} {m : ContentMap} (h : (Store.dropOldest^[n] retained).lookup rev = some m) :
    retained.lookup rev = some m := by
  induction n generalizing retained with
  | zero => exact h
  | succ n ih =>
    rw [Function.iterate_succ_apply] at h
    have hdropped := ih h
    unfold Store.dropOldest at hdropped
    split at hdropped
    · rw [lookup_erase_ite] at hdropped
      split at hdropped
      · cases hdropped
      · exact hdropped
    · exact hdropped

end Tyo3.ContentStore
