import Tyo3.ArtifactFiles
import Tyo3.AtomicFiles
import Tyo3.AuthoredLoading

/-!
# Files that are replaced as a whole

The sidecar and the artifact store write a file under a temporary name, wait
for the disk and rename it; they do not wait for the directory. Writers take
their steps in any order, fail anywhere, and the system crashes at any time;
leftovers stay behind. What the loading of records and the store make of the
directories is what they would make of them after writes that happen as a whole:
some of those that ended up to the last crash, and all that ended after it.
-/

namespace Tyo3.DurableFiles

open ArtifactFiles AtomicFiles AuthoredLoading Directories FiniteMaps Runs SystemPaths TextSearch

open DerivedLayers (utf8)

open JsonValues (Bytes)

/-- Whether a file name is that of a temporary file. -/
def endsInTmp (name : String) : Bool := ".tmp".toList.isSuffixOf name.toList

theorem endsInTmp_append (stem : String) : endsInTmp (stem ++ ".tmp") = true := by
  unfold endsInTmp
  rw [String.toList_append, List.isSuffixOf_iff_suffix]
  exact List.suffix_append _ _

/-! ## The sidecar -/

section Sidecar

/-- The name of a file with another extension. A name that is only an extension
is kept before it. -/
def withExtension (extension : String) (name : String) : String :=
  match rsplitOnce "." name with
  | some (stem, _) => (if stem = "" then name else stem) ++ "." ++ extension
  | none => name ++ "." ++ extension

/-- The path beside a path where it is written first. -/
def tmpPath (p : SystemPath) : SystemPath :=
  match p.fileName with
  | none => p
  | some name => ⟨p.components.dropLast ++ [withExtension "tmp" name]⟩

/-- A path of a file that is not temporary. -/
def Whole (p : SystemPath) : Prop := ∃ name, p.fileName = some name ∧ endsInTmp name = false

theorem endsInTmp_withExtension (name : String) : endsInTmp (withExtension "tmp" name) = true := by
  unfold withExtension
  split
  · rw [String.append_assoc]
    exact endsInTmp_append _
  · rw [String.append_assoc]
    exact endsInTmp_append _

/-- A path beside a path is that of a temporary file. -/
theorem tmpPath_ne {p q : SystemPath} (hp : Whole p) (hq : Whole q) : tmpPath q ≠ p := by
  rintro rfl
  obtain ⟨name, hname, -⟩ := hq
  obtain ⟨other, hother, hplain⟩ := hp
  have hfile : (tmpPath q).components.getLast? = some (withExtension "tmp" name) := by
    unfold tmpPath
    rw [hname]
    exact List.getLast?_concat
  have heq : other = withExtension "tmp" name := by
    unfold SystemPath.fileName at hother
    rw [hfile] at hother
    dsimp only at hother
    split at hother
    · cases hother
    · exact (Option.some.inj hother).symm
  rw [heq, endsInTmp_withExtension] at hplain
  cases hplain

theorem rsplitOnce_tmp (stem : String) : rsplitOnce "." (stem ++ ".tmp") = some (stem, "tmp") := by
  have hsplit : splitLast ['.'] (stem.toList ++ ".tmp".toList) =
      some (stem.toList, "tmp".toList) := by
    generalize stem.toList = cs
    induction cs with
    | nil => decide
    | cons c cs ih => simp only [List.cons_append, splitLast, ih]
  unfold rsplitOnce
  rw [String.toList_append, show ".".toList = ['.'] from rfl, hsplit]
  simp

/-- A file of records is not temporary. -/
theorem whole_of_json {p : SystemPath} (h : p.extension = some "json") : Whole p := by
  unfold SystemPath.extension at h
  cases hname : p.fileName with
  | none =>
    rw [hname] at h
    cases h
  | some name =>
    refine ⟨name, hname, ?_⟩
    rw [hname] at h
    cases htmp : endsInTmp name with
    | false => rfl
    | true =>
      -- the last dot is that of the temporary file
      obtain ⟨stem, hstem⟩ := List.isSuffixOf_iff_suffix.mp htmp
      have heq : name = String.ofList stem ++ ".tmp" := by
        apply String.toList_inj.mp
        rw [String.toList_append, String.toList_ofList, hstem]
      rw [heq] at h
      simp only [rsplitOnce_tmp] at h
      split at h
      · cases h
      · exact absurd (Option.some.inj h) (by decide)

/-- Loading a file of records looks at what is not temporary. -/
theorem whole_of_mem {listing : HashOrder SystemPath} {files : FMap SystemPath Bytes}
    {dir p : SystemPath} (h : p ∈ recordFiles listing files dir) : Whole p :=
  whole_of_json (of_decide_eq_true (List.mem_filter.mp h).2).2

/-- Files that agree on what is not temporary have the same record files. -/
theorem mem_recordFiles_congr {files files' : FMap SystemPath Bytes}
    (h : ∀ p, Whole p → files.lookup p = files'.lookup p) (listing : HashOrder SystemPath)
    {dir p : SystemPath} (hp : p ∈ recordFiles listing files dir) :
    p ∈ recordFiles listing files' dir := by
  have hwhole := whole_of_mem hp
  unfold recordFiles at hp ⊢
  rw [List.mem_filter, HashOrder.mem_order, mem_keys_iff] at hp ⊢
  rw [← h p hwhole]
  exact hp

/-- Files that agree on what is not temporary load alike. -/
theorem loadFiles_congr (codec : JsonValues.Codec) {files files' : FMap SystemPath Bytes}
    (h : ∀ p, Whole p → files.lookup p = files'.lookup p) (keep : Bool)
    {m : AuthoredStore.AuthoredMap} {paths : List SystemPath} (hpaths : ∀ p ∈ paths, Whole p) :
    loadFiles codec files keep m paths = loadFiles codec files' keep m paths := by
  unfold loadFiles
  induction paths generalizing m with
  | nil => rfl
  | cons p paths ih =>
    obtain ⟨hp, hrest⟩ := List.forall_mem_cons.mp hpaths
    rw [List.foldlM_cons, List.foldlM_cons, h p hp]
    congr 1
    funext m
    exact ih hrest

variable {W : Type*} [DecidableEq W]

/-- Whatever steps the writers of the sidecar take, fail or end in crashes, as
long as no two of them fill one temporary file: of the writes that ended up to
the last crash some are kept, all that ended after it are. The record files are
those of these writes, they hold the same, so that they load alike in any order,
and every file holds what it held or all bytes of a write. -/
theorem records_atomic {names : FMap SystemPath ℕ} {files : ℕ → Bytes} {next : ℕ}
    (hsingle : Single names) (hnext : ∀ name file, names.lookup name = some file → file < next)
    (early late : List (Act SystemPath W UInt8)) (hlate : ∀ a ∈ late, ¬ a.IsCrash)
    (hapart : Along (State.step tmpPath 0) (Apart tmpPath Whole) (State.rest names files next)
      (early ++ late)) :
    let start : State SystemPath W UInt8 := State.rest names files next
    let found := (run (State.step tmpPath 0) start (early ++ late)).contents
    ∃ kept : List (SystemPath × Bytes), kept.Sublist (completed tmpPath 0 start early) ∧
      let whole := written start.contents
        (kept ++ completed tmpPath 0 (run (State.step tmpPath 0) start early) late)
      (∀ listing dir p, p ∈ recordFiles listing found dir ↔ p ∈ recordFiles listing whole dir) ∧
      (∀ codec listing dir keep m (paths : List SystemPath),
        paths ⊆ recordFiles listing found dir →
        loadFiles codec found keep m paths = loadFiles codec whole keep m paths) ∧
      ∀ p bytes, Whole p → found.lookup p = some bytes →
        start.contents.lookup p = some bytes ∨ ∃ w, Act.create w p bytes ∈ early ++ late := by
  intro start found
  obtain ⟨kept, hkept, hagree⟩ := contents_run (fun _ _ => tmpPath_ne) early late hlate
    (sound_rest hsingle hnext files) rfl hapart
  refine ⟨kept, hkept, fun listing dir p => ⟨mem_recordFiles_congr hagree listing,
    mem_recordFiles_congr (fun p hp => (hagree p hp).symm) listing⟩,
    fun codec listing dir keep m paths hpaths =>
      loadFiles_congr codec hagree keep fun p hp => whole_of_mem (hpaths hp),
    fun p bytes hp hlookup => ?_⟩
  rw [hagree p hp] at hlookup
  rcases lookup_written_cases hlookup with hold | hended
  · exact .inl hold
  · have hall : (p, bytes) ∈ completed tmpPath 0 start (early ++ late) := by
      rw [completed_append]
      exact (hkept.append (List.Sublist.refl _)).subset hended
    rcases begun_of_completed _ hall with ⟨w, hw⟩ | hbegun
    · cases hw
    · exact .inr hbegun

/-- The record of a note. -/
def note (id : String) : SystemPath := recordPath ⟨["p"]⟩ "notes" id

/-- A note that is on the disk. -/
def noteNames : FMap SystemPath ℕ := (∅ : FMap SystemPath ℕ).insert (note "a") 0

/-- One note is replaced while another is written, and the system crashes. -/
def noteActs (kept : ℕ → Bool) : List (Act SystemPath Bool UInt8) :=
  [.create true (note "a") [5, 6], .write true 1, .create false (note "b") [7], .write false 1,
    .sync false, .rename false, .write true 1, .crash (fun _ => [0]) kept]

theorem noteNames_lookup {p : SystemPath} {file : ℕ} (h : noteNames.lookup p = some file) :
    p = note "a" ∧ file = 0 := by
  unfold noteNames at h
  rw [lookup_insert_ite] at h
  split at h
  · rename_i hp
    exact ⟨hp, (Option.some.inj h).symm⟩
  · rw [Finmap.lookup_empty] at h
    cases h

instance (p : SystemPath) : Decidable (Whole p) :=
  match h : p.fileName with
  | none => isFalse fun hw => by
      obtain ⟨name, hname, -⟩ := hw
      rw [h] at hname
      cases hname
  | some name =>
    if hname : endsInTmp name = false then isTrue ⟨name, h, hname⟩
    else isFalse fun hw => by
      obtain ⟨other, hother, hplain⟩ := hw
      rw [h] at hother
      exact hname (Option.some.inj hother ▸ hplain)

theorem apart_noteActs : Along (State.step tmpPath 0) (Apart tmpPath Whole)
    (State.rest noteNames (fun _ => [1, 2]) 1) (noteActs (fun _ => true) ++ []) := by
  decide +kernel

theorem records_atomic_note :
    (State.rest noteNames (fun _ => [1, 2]) 1 : State SystemPath Bool UInt8).contents.lookup
        (note "b") = some [7] ∨
      ∃ w, Act.create w (note "b") [7] ∈ noteActs (fun _ => true) ++ [] := by
  obtain ⟨_, _, _, _, hheld⟩ := records_atomic
    (fun name name' file hname hname' => by
      rw [(noteNames_lookup hname).1, (noteNames_lookup hname').1])
    (fun name file hname => by rw [(noteNames_lookup hname).2]; exact Nat.zero_lt_one)
    (noteActs fun _ => true) [] (by simp) apart_noteActs
  exact hheld (note "b") [7] (by decide +kernel) (by rw [State.lookup_contents]; decide +kernel)

/-- The old note is still there. The new one is whole, or its name is lost. -/
example : let found kept := (run (State.step tmpPath 0) (State.rest noteNames (fun _ => [1, 2]) 1)
      (noteActs kept)).contents
    (∀ kept ∈ [fun _ => true, fun _ => false], (found kept).lookup (note "a") = some [1, 2]) ∧
      (found fun _ => true).lookup (note "b") = some [7] ∧
      (found fun _ => false).lookup (note "b") = none := by
  intro found
  simp only [List.forall_mem_cons, List.not_mem_nil, false_implies, implies_true, and_true, found,
    State.lookup_contents]
  decide +kernel

end Sidecar

/-! ## The artifact store -/

section Store

/-- The path beside the path of an artifact where it is written first. -/
def tmpSuffix (p : List String) : List String :=
  match p.getLast? with
  | none => p
  | some name => p.dropLast ++ [name ++ ".tmp"]

/-- A path of a key with a plain hash. -/
def KeyPath (p : List String) : Prop :=
  ∃ hash version, Plain hash ∧ p = path (hash ++ ":" ++ version)

/-- The last part of the path of a key is its hash. -/
theorem getLast?_path {hash : String} (hplain : Plain hash) (version : String) :
    (path (hash ++ ":" ++ version)).getLast? = some hash := by
  rw [path_of_plain hplain]
  split <;> rfl

/-- The hash of a key is no temporary name. -/
theorem plain_ne_append {hash : String} (hplain : Plain hash) (stem : String) :
    hash ≠ stem ++ ".tmp" := by
  rintro rfl
  have hdot : '.' ∈ (stem ++ ".tmp").toList := by
    rw [String.toList_append]
    exact List.mem_append_right _ (by decide)
  exact absurd (hplain.2 '.' hdot) (by decide)

theorem tmpSuffix_path {hash : String} (hplain : Plain hash) (version : String) :
    tmpSuffix (path (hash ++ ":" ++ version)) =
      (path (hash ++ ":" ++ version)).dropLast ++ [hash ++ ".tmp"] := by
  unfold tmpSuffix
  rw [getLast?_path hplain]

/-- A temporary path is that of no key. -/
theorem tmpSuffix_ne {p q : List String} (hp : KeyPath p) (hq : KeyPath q) : tmpSuffix q ≠ p := by
  obtain ⟨hash, version, hplain, hpath⟩ := hp
  obtain ⟨hash', version', hplain', hpath'⟩ := hq
  rw [hpath, hpath', tmpSuffix_path hplain']
  intro heq
  have hlast : some (hash' ++ ".tmp") = some hash :=
    List.getLast?_concat.symm.trans
      ((congrArg List.getLast? heq).trans (getLast?_path hplain version))
  exact plain_ne_append hplain hash' (Option.some.inj hlast).symm

/-- A temporary file is not listed. -/
theorem listedKey_tmpSuffix (decode : Bytes → String) {hash : String} (hplain : Plain hash)
    (version : String) :
    FsStore.listedKey decode (tmpSuffix (path (hash ++ ":" ++ version))) = none := by
  have htmp : FsStore.isTemporary (hash ++ ".tmp") = true := by
    have hlength : 0 < hash.length := Nat.pos_of_ne_zero fun hzero =>
      hplain.1 (String.length_eq_zero_iff.mp hzero)
    have hmore : 4 < (hash ++ ".tmp").length := by
      have hfour : ".tmp".length = 4 := by decide
      rw [String.length_append, hfour]
      omega
    unfold FsStore.isTemporary
    rw [decide_eq_true hmore, Bool.true_and]
    exact endsInTmp_append hash
  rw [tmpSuffix_path hplain, path_of_plain hplain]
  split
  · rfl
  · simp [FsStore.listedKey, htmp]

variable {W : Type*} [DecidableEq W]

/-- Whatever steps the writers of the store take, fail or end in crashes, as long
as no two of them fill one temporary file: of the writes that ended up to the
last crash some are kept, all that ended after it are. The store finds the
artifacts of these writes and of no others, lists their keys, and collects them
alike. -/
theorem store_atomic {names : FMap (List String) ℕ} {files : ℕ → Bytes} {next : ℕ}
    (hsingle : Single names) (hnext : ∀ name file, names.lookup name = some file → file < next)
    (hmade : ∀ name file, names.lookup name = some file → KeyPath name)
    {decode : Bytes → String} (hdecode : ∀ text, decode (utf8 text) = text)
    (early late : List (Act (List String) W UInt8)) (hlate : ∀ a ∈ late, ¬ a.IsCrash)
    (hapart : Along (State.step tmpSuffix 0) (Apart tmpSuffix KeyPath)
      (State.rest names files next) (early ++ late)) :
    let start : State (List String) W UInt8 := State.rest names files next
    let found : FsStore := (run (State.step tmpSuffix 0) start (early ++ late)).contents
    ∃ kept : List (List String × Bytes), kept.Sublist (completed tmpSuffix 0 start early) ∧
      let whole : FsStore := written start.contents
        (kept ++ completed tmpSuffix 0 (run (State.step tmpSuffix 0) start early) late)
      (∀ hash version, Plain hash →
        found.get (hash ++ ":" ++ version) = whole.get (hash ++ ":" ++ version)) ∧
      found.iterKeys decode = whole.iterKeys decode ∧
      ∀ iter reachable hash version, Plain hash →
        (found.prune decode iter reachable).get (hash ++ ":" ++ version) =
          (whole.prune decode iter reachable).get (hash ++ ":" ++ version) := by
  intro start found
  have hsound : Sound tmpSuffix KeyPath start := sound_rest hsingle hnext files
  obtain ⟨kept, hkept, hagree⟩ := contents_run (fun _ _ => tmpSuffix_ne) early late hlate hsound
    rfl hapart
  refine ⟨kept, hkept, ?_⟩
  intro whole
  have hget : ∀ hash version, Plain hash →
      found.get (hash ++ ":" ++ version) = whole.get (hash ++ ":" ++ version) :=
    fun hash version hplain => hagree _ ⟨hash, version, hplain, rfl⟩
  -- what is there besides the artifacts is not listed
  have hfound : Clean decode found := by
    intro p hp
    obtain ⟨bytes, hbytes⟩ := (mem_keys_iff _ _).mp hp
    rw [State.lookup_contents] at hbytes
    obtain ⟨file, hfile, -⟩ := Option.map_eq_some_iff.mp hbytes
    have hfinal := (stored_run (fun _ _ => tmpSuffix_ne) _ hsound hapart).1
    refine names_run (P := fun p => (∃ hash version, Plain hash ∧
      p = path (hash ++ ":" ++ version)) ∨ FsStore.listedKey decode p = none)
      ?_ (fun _ _ => tmpSuffix_ne) _ hsound hapart (fun name file h => .inl ?_)
      (hfinal.dir.links hfile)
    · rintro p ⟨hash, version, hplain, hpath⟩
      refine ⟨.inl ⟨hash, version, hplain, hpath⟩, .inr ?_⟩
      rw [hpath]
      exact listedKey_tmpSuffix decode hplain version
    · rcases h with hname | ⟨c, hc, -⟩
      · exact hmade name file hname
      · cases hc
  have hwhole : Clean decode whole := by
    intro p hp
    obtain ⟨bytes, hbytes⟩ := (mem_keys_iff _ _).mp hp
    rcases lookup_written_cases hbytes with hold | hended
    · rw [State.lookup_contents] at hold
      obtain ⟨file, hfile, -⟩ := Option.map_eq_some_iff.mp hold
      exact .inl (hmade p file hfile)
    · have hall : (p, bytes) ∈ completed tmpSuffix 0 start (early ++ late) := by
        rw [completed_append]
        exact (hkept.append (List.Sublist.refl _)).subset hended
      exact .inl (target_of_completed (fun _ _ => tmpSuffix_ne) _ hsound hapart hall)
  refine ⟨hget, ?_, fun iter reachable hash version hplain => ?_⟩
  · ext key
    rw [mem_iterKeys hdecode hfound, mem_iterKeys hdecode hwhole]
    constructor
    · rintro ⟨hash, version, hplain, hlisted, rfl, hsome⟩
      exact ⟨hash, version, hplain, hlisted, rfl, hget hash version hplain ▸ hsome⟩
    · rintro ⟨hash, version, hplain, hlisted, rfl, hsome⟩
      exact ⟨hash, version, hplain, hlisted, rfl, (hget hash version hplain).symm ▸ hsome⟩
  · rw [get_prune hdecode hfound hplain, get_prune hdecode hwhole hplain, hget hash version hplain]

/-- A write that is lost. -/
def lostActs : List (Act (List String) Unit UInt8) :=
  [.create () ["v", "ab", "ab"] [1, 2], .write () 1, .crash (fun _ => [0]) fun _ => false]

/-- A write that ends. -/
def putActs : List (Act (List String) Unit UInt8) :=
  [.create () ["v", "ab", "ab"] [3], .write () 1, .sync (), .rename ()]

theorem keyPath_put : KeyPath ["v", "ab", "ab"] :=
  ⟨"ab", "v", ⟨by decide, by simp⟩, by decide⟩

theorem apart_putActs : Along (State.step tmpSuffix 0) (Apart tmpSuffix KeyPath)
    (State.rest ∅ (fun _ => []) 0) (lostActs ++ putActs) :=
  ⟨⟨keyPath_put, fun _ hother => absurd rfl hother⟩, trivial, trivial,
    ⟨keyPath_put, fun _ hother => absurd rfl hother⟩, trivial, trivial, trivial, trivial⟩

theorem store_atomic_put :
    ∃ kept : List (List String × Bytes),
      kept.Sublist (completed tmpSuffix 0 (State.rest ∅ (fun _ => []) 0) lostActs) ∧
      FsStore.iterKeys sampleDecode (run (State.step tmpSuffix 0)
          (State.rest ∅ (fun _ => []) 0) (lostActs ++ putActs)).contents =
        FsStore.iterKeys sampleDecode
          (written (State.rest ∅ (fun _ => []) 0 : State (List String) Unit UInt8).contents
            (kept ++ completed tmpSuffix 0 (run (State.step tmpSuffix 0)
              (State.rest ∅ (fun _ => []) 0) lostActs) putActs)) := by
  obtain ⟨kept, hkept, -, hkeys, -⟩ := store_atomic
    (fun _ _ _ h => by cases (Finmap.lookup_empty _).symm.trans h)
    (fun _ _ h => by cases (Finmap.lookup_empty _).symm.trans h)
    (fun _ _ h => by cases (Finmap.lookup_empty _).symm.trans h) sampleDecode_utf8 lostActs putActs
    (by simp [putActs, Act.IsCrash]) apart_putActs
  exact ⟨kept, hkept, hkeys⟩

/-- Two writers of one artifact are not apart: the one that ends renames what
the other has emptied. -/
example : (run (State.step tmpSuffix 0) (State.rest ∅ (fun _ => []) 0)
    ([.create true ["v", "ab", "ab"] [1, 2], .write true 2, .sync true,
      .create false ["v", "ab", "ab"] [3], .rename true] :
        List (Act (List String) Bool UInt8))).read ["v", "ab", "ab"] = some [] := by
  decide +kernel

end Store

end Tyo3.DurableFiles
