import Tyo3.ContentStore

/-!
# Staging, publishing and applying

The store has two loops over the same list of writes. One runs inside a
mutation that swaps the generation and counts the revision up; the other
stages a generation and takes versions directly from the counter of the
store. Both are written out here as the store has them, and both leave what
the fold of single writes leaves.
-/

namespace Tyo3.StagedPublication

open ContentStore Entities FiniteMaps SystemPaths

/-! ## The two loops -/

/-- Take a version from the counter. -/
def nextVersion : StateM ℕ ℕ := fun counter => (counter + 1, counter + 1)

/-- Change a copy of the content with versions from the counter, swap the
generation and count the revision up. -/
def mutate (s : Store) (f : ContentMap → StateM ℕ ContentMap) : Revision × Store :=
  let changed := f s.generation s.versionCounter
  let s := { s with
    generation := changed.1
    versionCounter := changed.2
    revision := s.revision + 1 }.recordRetained
  (s.revision, s)

/-- The loop of a batch. -/
def batchLoop : List Change → ContentMap → StateM ℕ ContentMap
  | [], m => pure m
  | .insert path text :: changes, m => do
    let d := Document.text text (← nextVersion)
    batchLoop changes { m with system := m.system.insert path d }
  | .delete path :: changes, m => do
    let d := Document.deleted (← nextVersion)
    batchLoop changes { m with system := m.system.insert path d }
  | .forget path :: changes, m => batchLoop changes { m with system := m.system.erase path }
  | .insertVirtual path text :: changes, m => do
    let d := Document.text text (← nextVersion)
    batchLoop changes { m with virtualFiles := m.virtualFiles.insert path d }

/-- Apply a batch as one revision. -/
def applyBatchLoop (s : Store) (changes : List Change) : Revision × Store :=
  mutate s (batchLoop changes)

/-- One write of the staging loop, which counts in the store itself. -/
def stageStep (acc : ContentMap × Store) : Change → ContentMap × Store
  | .insert path text =>
    let s := { acc.2 with versionCounter := acc.2.versionCounter + 1 }
    ({ acc.1 with system := acc.1.system.insert path (.text text s.versionCounter) }, s)
  | .delete path =>
    let s := { acc.2 with versionCounter := acc.2.versionCounter + 1 }
    ({ acc.1 with system := acc.1.system.insert path (.deleted s.versionCounter) }, s)
  | .forget path => ({ acc.1 with system := acc.1.system.erase path }, acc.2)
  | .insertVirtual path text =>
    let s := { acc.2 with versionCounter := acc.2.versionCounter + 1 }
    ({ acc.1 with virtualFiles := acc.1.virtualFiles.insert path (.text text s.versionCounter) }, s)

/-- Stage a batch without publishing it. -/
def stageLoop (s : Store) (changes : List Change) : ContentMap × Store :=
  changes.foldl stageStep (s.generation, s)

/-- The batch loop is the fold of the single writes. -/
theorem batchLoop_eq (changes : List Change) (m : ContentMap) (counter : ℕ) :
    batchLoop changes m counter = changes.foldl applyChange (m, counter) := by
  induction changes generalizing m counter with
  | nil => rfl
  | cons c changes ih =>
    rw [List.foldl_cons]
    cases c with
    | insert path text => exact ih _ (counter + 1)
    | delete path => exact ih _ (counter + 1)
    | forget path => exact ih _ counter
    | insertVirtual path text => exact ih _ (counter + 1)

/-- Applying a batch is what the store does with the fold. -/
theorem applyBatchLoop_eq (s : Store) (changes : List Change) :
    (applyBatchLoop s changes).2 = s.applyBatch changes := by
  unfold applyBatchLoop mutate Store.applyBatch
  rw [batchLoop_eq]

/-- The staging loop is the fold of the single writes, and the store changes
in its counter only. -/
theorem foldl_stageStep (changes : List Change) (m : ContentMap) (s : Store) :
    changes.foldl stageStep (m, s) =
      ((changes.foldl applyChange (m, s.versionCounter)).1,
        { s with versionCounter := (changes.foldl applyChange (m, s.versionCounter)).2 }) := by
  induction changes generalizing m s with
  | nil => rfl
  | cons c changes ih =>
    rw [List.foldl_cons, List.foldl_cons]
    cases c with
    | insert path text => exact ih _ { s with versionCounter := s.versionCounter + 1 }
    | delete path => exact ih _ { s with versionCounter := s.versionCounter + 1 }
    | forget path => exact ih _ s
    | insertVirtual path text => exact ih _ { s with versionCounter := s.versionCounter + 1 }

/-- Staging is what the store does with the fold. -/
theorem stageLoop_eq (s : Store) (changes : List Change) : stageLoop s changes = s.stage changes :=
  foldl_stageStep changes s.generation s

/-! ## Up to versions -/

/-- The documents of a generation without their versions: at every path a
text, a mark of deletion or nothing. -/
def documents (m : ContentMap) :
    (SystemPath → Option (Option String)) × (String → Option (Option String)) :=
  (fun path => (m.system.lookup path).map Document.textOf,
    fun path => (m.virtualFiles.lookup path).map Document.textOf)

/-- Two stores differ in versions at most. -/
structure SameButVersions (s s' : Store) : Prop where
  /-- The head has the same documents. -/
  generation : documents s.generation = documents s'.generation
  /-- The revision is the same. -/
  revision : s.revision = s'.revision
  /-- The same revisions are kept, with the same documents. -/
  retained : ∀ rev, (s.retained.lookup rev).map documents = (s'.retained.lookup rev).map documents
  /-- As many generations are kept. -/
  retainCap : s.retainCap = s'.retainCap

/-- A write does the same to the documents, whatever the counter. -/
theorem documents_applyChange {m m' : ContentMap} (h : documents m = documents m') (n n' : ℕ)
    (c : Change) : documents (applyChange (m, n) c).1 = documents (applyChange (m', n') c).1 := by
  have hsystem : ∀ path, (m.system.lookup path).map Document.textOf =
      (m'.system.lookup path).map Document.textOf := fun path =>
    congrFun (congrArg Prod.fst h) path
  have hvirtual : ∀ path, (m.virtualFiles.lookup path).map Document.textOf =
      (m'.virtualFiles.lookup path).map Document.textOf := fun path =>
    congrFun (congrArg Prod.snd h) path
  cases c with
  | insert path text =>
    refine Prod.ext (funext fun p => ?_) (funext hvirtual)
    simp only [documents, applyChange, lookup_insert_ite]
    split
    · rfl
    · exact hsystem p
  | delete path =>
    refine Prod.ext (funext fun p => ?_) (funext hvirtual)
    simp only [documents, applyChange, lookup_insert_ite]
    split
    · rfl
    · exact hsystem p
  | forget path =>
    refine Prod.ext (funext fun p => ?_) (funext hvirtual)
    simp only [documents, applyChange, lookup_erase_ite]
    split
    · rfl
    · exact hsystem p
  | insertVirtual path text =>
    refine Prod.ext (funext hsystem) (funext fun p => ?_)
    simp only [documents, applyChange, lookup_insert_ite]
    split
    · rfl
    · exact hvirtual p

/-- A batch does the same to the documents, whatever the counter. -/
theorem documents_foldl (changes : List Change) {m m' : ContentMap}
    (h : documents m = documents m') (n n' : ℕ) :
    documents (changes.foldl applyChange (m, n)).1 =
      documents (changes.foldl applyChange (m', n')).1 := by
  induction changes generalizing m m' n n' with
  | nil => exact h
  | cons c changes ih =>
    rw [List.foldl_cons, List.foldl_cons]
    exact ih (documents_applyChange h n n' c) _ _

/-- Maps of generations with the same documents have the same keys. -/
theorem keys_eq_of_documents {kept kept' : FMap Revision ContentMap}
    (h : ∀ rev, (kept.lookup rev).map documents = (kept'.lookup rev).map documents) :
    kept.keys = kept'.keys := by
  ext rev
  rw [mem_keys_iff, mem_keys_iff, ← Option.isSome_iff_exists, ← Option.isSome_iff_exists,
    ← Option.isSome_map, h rev, Option.isSome_map]

/-- The oldest generation is told by the keys. -/
theorem documents_dropOldest {kept kept' : FMap Revision ContentMap}
    (h : ∀ rev, (kept.lookup rev).map documents = (kept'.lookup rev).map documents)
    (rev : Revision) : ((Store.dropOldest kept).lookup rev).map documents =
      ((Store.dropOldest kept').lookup rev).map documents := by
  unfold Store.dropOldest
  rw [keys_eq_of_documents h]
  cases (HashOrder.increasing.order kept'.keys).head? with
  | none => exact h rev
  | some oldest =>
    dsimp only
    rw [lookup_erase_ite, lookup_erase_ite]
    split
    · rfl
    · exact h rev

/-- Publishing keeps two stores the same but for versions. -/
theorem SameButVersions.publishStaged {s s' : Store} (h : SameButVersions s s')
    {m m' : ContentMap} (hm : documents m = documents m') :
    SameButVersions (s.publishStaged m) (s'.publishStaged m') := by
  have hinsert : ∀ rev, (Finmap.lookup rev (s.retained.insert (s.revision + 1) m)).map documents =
      (Finmap.lookup rev (s'.retained.insert (s'.revision + 1) m')).map documents := by
    intro rev
    rw [lookup_insert_ite, lookup_insert_ite, h.revision]
    split
    · exact congrArg some hm
    · exact h.retained rev
  have hdrop : ∀ (n : ℕ) (kept kept' : FMap Revision ContentMap),
      (∀ rev, (kept.lookup rev).map documents = (kept'.lookup rev).map documents) →
      ∀ rev, ((Store.dropOldest^[n] kept).lookup rev).map documents =
        ((Store.dropOldest^[n] kept').lookup rev).map documents := by
    intro n
    induction n with
    | zero => exact fun kept kept' hk => hk
    | succ n ih =>
      intro kept kept' hk
      rw [Function.iterate_succ_apply, Function.iterate_succ_apply]
      exact ih _ _ (documents_dropOldest hk)
  refine ⟨hm, congrArg (· + 1) h.revision, ?_, h.retainCap⟩
  have hkeys := keys_eq_of_documents hinsert
  unfold Store.publishStaged Store.recordRetained
  dsimp only
  rw [hkeys, h.retainCap]
  exact hdrop _ _ _ hinsert

/-- Staging and publishing is applying; staging alone changes the counter
only; and a stage that is not published leaves no trace but versions. -/
theorem stage_publish_eq_apply (s : Store) (changes : List Change) :
    (stageLoop s changes).2.publishStaged (stageLoop s changes).1 = (applyBatchLoop s changes).2 ∧
    ((stageLoop s changes).2.publishStaged (stageLoop s changes).1).revision =
      (applyBatchLoop s changes).1 ∧
    (∃ counter, (stageLoop s changes).2 = { s with versionCounter := counter }) ∧
    ∀ dropped, SameButVersions
      ((stageLoop (stageLoop s dropped).2 changes).2.publishStaged
        (stageLoop (stageLoop s dropped).2 changes).1)
      ((stageLoop s changes).2.publishStaged (stageLoop s changes).1) := by
  have hpublished : (stageLoop s changes).2.publishStaged (stageLoop s changes).1 =
      (applyBatchLoop s changes).2 := by
    rw [stageLoop_eq, applyBatchLoop_eq]
    rfl
  refine ⟨hpublished, ?_, ⟨_, congrArg Prod.snd (stageLoop_eq s changes)⟩, ?_⟩
  · rw [hpublished]
    rfl
  · intro dropped
    simp only [stageLoop_eq]
    have hstores : SameButVersions ((s.stage dropped).2.stage changes).2
        (s.stage changes).2 := ⟨rfl, rfl, fun _ => rfl, rfl⟩
    have hdocs : documents ((s.stage dropped).2.stage changes).1 =
        documents (s.stage changes).1 := documents_foldl changes rfl _ _
    exact hstores.publishStaged hdocs

example : ((stageLoop (Store.withRetainCap 1) [.insert ⟨["a"]⟩ "x", .forget ⟨["a"]⟩,
    .delete ⟨["a"]⟩]).1.system.lookup ⟨["a"]⟩) = some (.deleted 2) := by decide

end Tyo3.StagedPublication
