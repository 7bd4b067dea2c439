import Tyo3.ContentStore

/-!
# Versions of documents and the overlay

The engine reads files through an overlay over the disk and takes the version
of a document for the revision of the file. Every stored document takes a
version of its own from one counter, also in a staged generation that is
dropped later. So a version tells the text, whichever generations the live
overlay shows one after the other.
-/

namespace Tyo3.OverlayVersions

open FiniteMaps Entities SystemPaths ContentStore

/-! ## Reading through the overlay -/

/-- What kind of file a path is. -/
inductive FileType where
  | file | directory
  deriving DecidableEq, Repr

/-- What the engine learns of a path without reading it. -/
structure Metadata where
  /-- Revision of the file. -/
  revision : ℕ
  /-- Kind of file. -/
  fileType : FileType
  deriving DecidableEq, Repr

/-- The file system under the overlay. -/
structure Native where
  /-- Metadata of a path. -/
  pathMetadata : SystemPath → Except ReadError Metadata
  /-- Text of a file. -/
  readToString : SystemPath → Except ReadError String

/-- Content that stands before the file system: the live head, or a frozen
view of one revision. -/
structure OverlaySystem where
  /-- The documents. -/
  content : ContentMap
  /-- The file system under them. -/
  native : Native
  /-- Revision of a frozen view. -/
  frozen : Option Revision

/-- Whether documents stand below a path. -/
def OverlaySystem.isSynthesisedDirectory (o : OverlaySystem) (path : SystemPath) : Bool :=
  decide (∃ key ∈ o.content.system.keys, key ≠ path ∧ key.isUnder path = true)

/-- Metadata of a path. A frozen view does not fall back to the disk. -/
def OverlaySystem.pathMetadata (o : OverlaySystem) (path : SystemPath) :
    Except ReadError Metadata :=
  match o.content.system.lookup path with
  | some (.text _ version) => .ok ⟨version, .file⟩
  | some (.deleted _) => .error .notFound
  | none =>
    if o.frozen.isSome then
      if o.isSynthesisedDirectory path then .ok ⟨0, .directory⟩ else .error .notFound
    else o.native.pathMetadata path

/-- Text of a path. A frozen view does not fall back to the disk. -/
def OverlaySystem.readToString (o : OverlaySystem) (path : SystemPath) : Except ReadError String :=
  match o.content.system.lookup path with
  | some (.text text _) => .ok text
  | some (.deleted _) => .error .notFound
  | none => if o.frozen.isSome then .error .notFound else o.native.readToString path

/-- Show another generation. -/
def OverlaySystem.publish (o : OverlaySystem) (generation : ContentMap) : OverlaySystem :=
  { o with content := generation }

/-! ## The ledger of versions -/

/-- The version of a document. -/
def Document.version : Document → ℕ
  | .text _ version => version
  | .deleted version => version

/-- A generation holds a document at some path. -/
def Holds (generation : ContentMap) (d : Document) : Prop :=
  (∃ path, generation.system.lookup path = some d) ∨
    ∃ path, generation.virtualFiles.lookup path = some d

/-- The documents written so far, each with a version of its own that the
counter has passed. -/
structure Ledger (known : Set Document) (counter : ℕ) : Prop where
  /-- No version is ahead of the counter. -/
  bounded : ∀ d ∈ known, Document.version d ≤ counter
  /-- A version tells the document. -/
  functional : ∀ d ∈ known, ∀ d' ∈ known, Document.version d = Document.version d' → d = d'

/-- A document with the next version enters the ledger. -/
theorem Ledger.insert {known : Set Document} {counter : ℕ} (h : Ledger known counter)
    {d : Document} (hd : Document.version d = counter + 1) :
    Ledger (Insert.insert d known) (counter + 1) := by
  refine ⟨?_, ?_⟩
  · intro other hother
    rcases Set.mem_insert_iff.mp hother with hnew | hold
    · rw [hnew, hd]
    · have hbound := h.bounded other hold
      omega
  · intro first hfirst second hsecond hversion
    rcases Set.mem_insert_iff.mp hfirst with hnew | hold
    · rcases Set.mem_insert_iff.mp hsecond with hnew' | hold'
      · rw [hnew, hnew']
      · have hbound := h.bounded second hold'
        rw [hnew, hd] at hversion
        omega
    · rcases Set.mem_insert_iff.mp hsecond with hnew' | hold'
      · have hbound := h.bounded first hold
        rw [hnew', hd] at hversion
        omega
      · exact h.functional first hold second hold' hversion

/-- A system document written into a generation is the only new one. -/
theorem holds_insert_system {g : ContentMap} {path : SystemPath} {d d' : Document}
    (h : Holds { g with system := g.system.insert path d } d') : d' = d ∨ Holds g d' := by
  rcases h with ⟨other, hother⟩ | ⟨other, hother⟩
  · rcases eq_or_lookup_of_lookup_insert hother with hnew | hold
    · exact Or.inl hnew
    · exact Or.inr (Or.inl ⟨other, hold⟩)
  · exact Or.inr (Or.inr ⟨other, hother⟩)

/-- A virtual document written into a generation is the only new one. -/
theorem holds_insert_virtual {g : ContentMap} {path : String} {d d' : Document}
    (h : Holds { g with virtualFiles := g.virtualFiles.insert path d } d') :
    d' = d ∨ Holds g d' := by
  rcases h with ⟨other, hother⟩ | ⟨other, hother⟩
  · exact Or.inr (Or.inl ⟨other, hother⟩)
  · rcases eq_or_lookup_of_lookup_insert hother with hnew | hold
    · exact Or.inl hnew
    · exact Or.inr (Or.inr ⟨other, hold⟩)

/-- A generation without a path holds no new document. -/
theorem holds_erase_system {g : ContentMap} {path : SystemPath} {d : Document}
    (h : Holds { g with system := g.system.erase path } d) : Holds g d := by
  rcases h with ⟨other, hother⟩ | ⟨other, hother⟩
  · exact Or.inl ⟨other, lookup_of_lookup_erase hother⟩
  · exact Or.inr ⟨other, hother⟩

/-- One write: the new generation holds old documents and the one that took
the next version. -/
theorem ledger_applyChange {known : Set Document} {acc : ContentMap × ℕ}
    (h : Ledger known acc.2) (hknown : ∀ d, Holds acc.1 d → d ∈ known) (c : Change) :
    ∃ known', known ⊆ known' ∧ Ledger known' (applyChange acc c).2 ∧
      ∀ d, Holds (applyChange acc c).1 d → d ∈ known' := by
  cases c with
  | insert path text =>
    refine ⟨insert (.text text (acc.2 + 1)) known, Set.subset_insert _ _, h.insert rfl, ?_⟩
    exact fun d hd => (holds_insert_system hd).imp_right (hknown d)
  | delete path =>
    refine ⟨insert (.deleted (acc.2 + 1)) known, Set.subset_insert _ _, h.insert rfl, ?_⟩
    exact fun d hd => (holds_insert_system hd).imp_right (hknown d)
  | insertVirtual path text =>
    refine ⟨insert (.text text (acc.2 + 1)) known, Set.subset_insert _ _, h.insert rfl, ?_⟩
    exact fun d hd => (holds_insert_virtual hd).imp_right (hknown d)
  | forget path =>
    refine ⟨known, subset_rfl, h, ?_⟩
    exact fun d hd => hknown d (holds_erase_system hd)

/-- A batch of writes extends the ledger. -/
theorem ledger_foldl {known : Set Document} (changes : List Change) {acc : ContentMap × ℕ}
    (h : Ledger known acc.2) (hknown : ∀ d, Holds acc.1 d → d ∈ known) :
    ∃ known', known ⊆ known' ∧ Ledger known' (changes.foldl applyChange acc).2 ∧
      ∀ d, Holds (changes.foldl applyChange acc).1 d → d ∈ known' := by
  induction changes generalizing known acc with
  | nil => exact ⟨known, subset_rfl, h, hknown⟩
  | cons c changes ih =>
    obtain ⟨first, hfirst, hledger, hholds⟩ := ledger_applyChange h hknown c
    obtain ⟨last, hlast, hrest⟩ := ih hledger hholds
    exact ⟨last, hfirst.trans hlast, hrest⟩

/-! ## Runs -/

/-- A store with every generation it has handed out. Only such a generation
is published or shown by the overlay; one that is dropped or rolled back
stays in the list, since the overlay may have shown it. -/
inductive Observed (cap : ℕ) : Store → List ContentMap → Prop
  | start : Observed cap (Store.withRetainCap cap) [ContentMap.new]
  | applyBatch {s : Store} {seen : List ContentMap} (changes : List Change) :
      Observed cap s seen →
      Observed cap (s.applyBatch changes) ((s.applyBatch changes).capture :: seen)
  | stage {s : Store} {seen : List ContentMap} (changes : List Change) :
      Observed cap s seen → Observed cap (s.stage changes).2 ((s.stage changes).1 :: seen)
  | publishStaged {s : Store} {seen : List ContentMap} (generation : ContentMap) :
      generation ∈ seen → Observed cap s seen → Observed cap (s.publishStaged generation) seen

/-- A batch on a store extends its ledger. -/
theorem ledger_batch {known : Set Document} {s : Store} (changes : List Change)
    (h : Ledger known s.versionCounter) (hknown : ∀ d, Holds s.generation d → d ∈ known) :
    ∃ known', known ⊆ known' ∧
      Ledger known' (changes.foldl applyChange (s.generation, s.versionCounter)).2 ∧
      ∀ d, Holds (changes.foldl applyChange (s.generation, s.versionCounter)).1 d → d ∈ known' := by
  have hstart : Ledger known (s.generation, s.versionCounter).2 := h
  exact ledger_foldl changes hstart hknown

/-- One ledger covers all generations of a run. -/
theorem Observed.ledger {cap : ℕ} {s : Store} {seen : List ContentMap}
    (h : Observed cap s seen) :
    s.generation ∈ seen ∧ ∃ known, Ledger known s.versionCounter ∧
      ∀ g ∈ seen, ∀ d, Holds g d → d ∈ known := by
  induction h with
  | start =>
    refine ⟨List.mem_singleton.mpr rfl, ∅, ⟨fun d hd => hd.elim, fun d hd => hd.elim⟩, ?_⟩
    intro g hg d hd
    rw [List.mem_singleton] at hg
    rw [hg] at hd
    rcases hd with ⟨path, hpath⟩ | ⟨path, hpath⟩
    · exact absurd hpath (by simp [ContentMap.new])
    · exact absurd hpath (by simp [ContentMap.new])
  | @applyBatch s seen changes hrun ih =>
    obtain ⟨hhead, known, hledger, hknown⟩ := ih
    obtain ⟨known', hsub, hledger', hholds⟩ := ledger_batch changes hledger
      (hknown s.generation hhead)
    refine ⟨List.mem_cons_self, known', hledger', ?_⟩
    intro g hg d hd
    rcases List.mem_cons.mp hg with hnew | hold
    · rw [hnew] at hd
      exact hholds d hd
    · exact hsub (hknown g hold d hd)
  | @stage s seen changes hrun ih =>
    obtain ⟨hhead, known, hledger, hknown⟩ := ih
    obtain ⟨known', hsub, hledger', hholds⟩ := ledger_batch changes hledger
      (hknown s.generation hhead)
    refine ⟨List.mem_cons_of_mem _ hhead, known', hledger', ?_⟩
    intro g hg d hd
    rcases List.mem_cons.mp hg with hnew | hold
    · rw [hnew] at hd
      exact hholds d hd
    · exact hsub (hknown g hold d hd)
  | publishStaged generation hmem hrun ih => exact ⟨hmem, ih.2⟩

/-- A path with a text has a text document. -/
theorem lookup_of_textAt_isSome {g : ContentMap} {path : SystemPath}
    (h : (g.textAt path).isSome) :
    ∃ text version, g.system.lookup path = some (.text text version) := by
  unfold ContentMap.textAt at h
  cases hd : g.system.lookup path with
  | none =>
    rw [hd] at h
    cases h
  | some d =>
    cases d with
    | text content version => exact ⟨content, version, rfl⟩
    | deleted version =>
      rw [hd] at h
      cases h

/-- The text a generation holds at a path is what the live overlay reads, and
its version is the revision of the file. -/
theorem reads_of_lookup {o : OverlaySystem} {path : SystemPath} {text : String} {version : ℕ}
    (h : o.content.system.lookup path = some (.text text version)) :
    o.pathMetadata path = .ok ⟨version, .file⟩ ∧ o.readToString path = .ok text := by
  unfold OverlaySystem.pathMetadata OverlaySystem.readToString
  rw [h]
  exact ⟨rfl, rfl⟩

/-- In every run no version is attached to two documents with different
texts. So two overlays that show generations of the run, and have a text at a
path, read the same text there when they report the same revision. -/
theorem Observed.versions_identify_content {cap : ℕ} {s : Store} {seen : List ContentMap}
    (h : Observed cap s seen) :
    (∀ g ∈ seen, ∀ g' ∈ seen, ∀ d d', Holds g d → Holds g' d' →
      Document.version d = Document.version d' → d.textOf = d'.textOf) ∧
    ∀ o o' : OverlaySystem, o.content ∈ seen → o'.content ∈ seen → ∀ path,
      (o.content.textAt path).isSome → (o'.content.textAt path).isSome →
      (o.pathMetadata path).map Metadata.revision = (o'.pathMetadata path).map Metadata.revision →
      o.readToString path = o'.readToString path := by
  obtain ⟨-, known, hledger, hknown⟩ := h.ledger
  have hsame : ∀ g ∈ seen, ∀ g' ∈ seen, ∀ d d', Holds g d → Holds g' d' →
      Document.version d = Document.version d' → d = d' := fun g hg g' hg' d d' hd hd' =>
    hledger.functional d (hknown g hg d hd) d' (hknown g' hg' d' hd')
  refine ⟨fun g hg g' hg' d d' hd hd' hv => by rw [hsame g hg g' hg' d d' hd hd' hv], ?_⟩
  intro o o' ho ho' path htext htext' hrev
  obtain ⟨text, version, hlookup⟩ := lookup_of_textAt_isSome htext
  obtain ⟨text', version', hlookup'⟩ := lookup_of_textAt_isSome htext'
  have hreads := reads_of_lookup hlookup
  have hreads' := reads_of_lookup hlookup'
  rw [hreads.1, hreads'.1] at hrev
  have hversion : version = version' := Except.ok.inj hrev
  have hdoc := hsame o.content ho o'.content ho' _ _ (Or.inl ⟨path, hlookup⟩)
    (Or.inl ⟨path, hlookup'⟩) hversion
  have htexts : text = text' := (Document.text.inj hdoc).1
  rw [hreads.2, hreads'.2, htexts]

/-- A store with one published text. -/
def published : Store := (Store.withRetainCap 2).applyBatch [.insert ⟨["p", "a.py"]⟩ "a = 1"]

/-- Its live overlay over an empty disk. -/
def publishedOverlay : OverlaySystem :=
  ⟨published.capture, ⟨fun _ => .error .notFound, fun _ => .error .notFound⟩, none⟩

/-- The overlay while a commit is staged. -/
def stagedOverlay : OverlaySystem :=
  publishedOverlay.publish (published.stage [.insert ⟨["p", "a.py"]⟩ "a = 2"]).1

/-- The overlay after the commit was rolled back. -/
def rolledBackOverlay : OverlaySystem := stagedOverlay.publish published.capture

/-- The overlay shows a published text, then a staged one, and the published
one again: the revision and the text are those of before. -/
theorem readToString_rolledBack :
    stagedOverlay.readToString ⟨["p", "a.py"]⟩ = .ok "a = 2" ∧
    publishedOverlay.readToString ⟨["p", "a.py"]⟩ =
      rolledBackOverlay.readToString ⟨["p", "a.py"]⟩ := by
  have hrun : Observed 2 (published.stage [.insert ⟨["p", "a.py"]⟩ "a = 2"]).2
      [stagedOverlay.content, published.capture, ContentMap.new] :=
    .stage _ (.applyBatch _ .start)
  have hmem : published.capture ∈ [stagedOverlay.content, published.capture, ContentMap.new] :=
    List.mem_cons_of_mem _ List.mem_cons_self
  exact ⟨rfl, hrun.versions_identify_content.2 publishedOverlay rolledBackOverlay hmem hmem
    ⟨["p", "a.py"]⟩ rfl rfl rfl⟩

end Tyo3.OverlayVersions
