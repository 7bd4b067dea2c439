import Tyo3.OverlayVersions

/-!
# Files and directories of a frozen view

A frozen view answers four questions about a path from the keys of its
generation: its text, its metadata, its source type and the entries of its
directory. Files are those of the text documents in all four. A directory is
made up from any key below it, also from the mark of a deleted file, and a
listing makes it up even where a document stands. The answers agree exactly
when every path with a key below it has no document and a text below it.
-/

namespace Tyo3.FrozenDirectories

open ContentStore Entities FiniteMaps OverlayVersions SystemPaths

/-! ## Source types and listings -/

/-- Kinds of Python source. -/
inductive PySourceType where
  | python | stub | ipynb
  deriving DecidableEq, Repr

/-- One entry of a directory. -/
structure DirectoryEntry where
  /-- Path of the entry. -/
  path : SystemPath
  /-- Kind of the entry. -/
  fileType : FileType
  deriving DecidableEq, Repr

/-- What the engine's libraries and the file system answer besides texts and
metadata. -/
structure Host where
  /-- The source type of an extension. -/
  tryFromExtension : String → Option PySourceType
  /-- The source type of a file on disk. -/
  sourceType : SystemPath → Option PySourceType
  /-- The entries of a directory on disk. -/
  readDirectory : SystemPath → Except ReadError (List DirectoryEntry)

/-- The source type of a path. A text without a known extension is Python. -/
def sourceType (host : Host) (o : OverlaySystem) (path : SystemPath) : Option PySourceType :=
  match o.content.system.lookup path with
  | some (.text _ _) => (path.extension.bind host.tryFromExtension).or (some .python)
  | some (.deleted _) => none
  | none => if o.frozen.isSome then none else host.sourceType path

/-- What follows a directory in a path. -/
def stripDirectory (key dir : SystemPath) : Option (List String) :=
  if dir.components.isPrefixOf key.components then
    some (key.components.drop dir.components.length)
  else none

/-- What a listing has collected. -/
structure Enumeration where
  /-- Files, in the order of the keys. -/
  entries : List DirectoryEntry
  /-- Directories, sorted and without repetition. -/
  directDirs : List SystemPath

/-- Add a directory to the sorted ones. -/
def insertDirectory (dirs : List SystemPath) (dir : SystemPath) : List SystemPath :=
  if dir ∈ dirs then dirs
  else dirs.orderedInsert (fun a b => a.components ≤ b.components) dir

/-- What one key adds to the listing of a directory: a text right below it is
a file, a key further below gives the directory on the way. -/
def enumerateKey (o : OverlaySystem) (dir : SystemPath) (acc : Enumeration) (key : SystemPath) :
    Enumeration :=
  match stripDirectory key dir with
  | none => acc
  | some [] => acc
  | some [name] =>
    match o.content.system.lookup key with
    | some (.text _ _) => { acc with entries := acc.entries ++ [⟨dir.join [name], .file⟩] }
    | _ => acc
  | some (name :: _ :: _) =>
    { acc with directDirs := insertDirectory acc.directDirs (dir.join [name]) }

/-- The entries of a directory. -/
def readDirectory (host : Host) (iter : HashOrder SystemPath) (o : OverlaySystem)
    (dir : SystemPath) : Except ReadError (List DirectoryEntry) :=
  if o.frozen.isSome then
    let found := (iter.order o.content.system.keys).foldl (enumerateKey o dir) ⟨[], []⟩
    .ok (found.entries ++ found.directDirs.map fun path => ⟨path, .directory⟩)
  else host.readDirectory dir

/-- A view of one generation without the disk behind it. -/
def frozenView (content : ContentMap) (native : Native) (revision : Revision) : OverlaySystem :=
  ⟨content, native, some revision⟩

/-! ## What is listed -/

theorem stripDirectory_eq_some {key dir : SystemPath} {rest : List String} :
    stripDirectory key dir = some rest ↔ key = dir.join rest := by
  unfold stripDirectory SystemPath.join
  constructor
  · intro h
    split at h
    · rename_i hprefix
      obtain ⟨tail, htail⟩ := List.isPrefixOf_iff_prefix.mp hprefix
      rw [← htail, List.drop_left, Option.some_inj] at h
      rw [← h, htail]
    · cases h
  · intro h
    have hprefix : dir.components.isPrefixOf key.components = true := by
      rw [List.isPrefixOf_iff_prefix, h]
      exact List.prefix_append _ _
    rw [if_pos hprefix, h, List.drop_left]

theorem join_inj {dir : SystemPath} {rest rest' : List String}
    (h : dir.join rest = dir.join rest') : rest = rest' :=
  List.append_cancel_left (congrArg SystemPath.components h)

/-- A text document stands at a path. -/
def IsText (content : ContentMap) (path : SystemPath) : Prop :=
  ∃ text version, content.system.lookup path = some (.text text version)

/-- Files of one more key. -/
theorem mem_entries_enumerateKey {o : OverlaySystem} {dir key : SystemPath} {acc : Enumeration}
    {e : DirectoryEntry} : e ∈ (enumerateKey o dir acc key).entries ↔
      e ∈ acc.entries ∨ (∃ name, key = dir.join [name]) ∧ IsText o.content key ∧
        e = ⟨key, .file⟩ := by
  unfold enumerateKey
  cases hrest : stripDirectory key dir with
  | none =>
    have hnot : ¬∃ name, key = dir.join [name] := by
      rintro ⟨name, hname⟩
      rw [stripDirectory_eq_some.mpr hname] at hrest
      cases hrest
    simp [hnot]
  | some rest =>
    have hkey := stripDirectory_eq_some.mp hrest
    have hsingle : (∃ name, key = dir.join [name]) ↔ ∃ name, rest = [name] := by
      constructor
      · rintro ⟨name, hname⟩
        exact ⟨name, join_inj (hkey.symm.trans hname)⟩
      · rintro ⟨name, hname⟩
        exact ⟨name, hname ▸ hkey⟩
    rw [hsingle]
    match rest, hkey with
    | [], _ => simp
    | _ :: _ :: _, _ => simp
    | [name], hkey =>
      unfold IsText
      dsimp only
      rw [← hkey]
      cases o.content.system.lookup key with
      | none => simp
      | some d => cases d <;> simp

/-- Directories of one more key. -/
theorem mem_directDirs_enumerateKey {o : OverlaySystem} {dir key d : SystemPath}
    {acc : Enumeration} : d ∈ (enumerateKey o dir acc key).directDirs ↔
      d ∈ acc.directDirs ∨ ∃ name next rest, key = dir.join (name :: next :: rest) ∧
        d = dir.join [name] := by
  have hinsert : ∀ x, d ∈ insertDirectory acc.directDirs x ↔ d ∈ acc.directDirs ∨ d = x := by
    intro x
    unfold insertDirectory
    split
    · rename_i hmem
      refine ⟨Or.inl, fun h => h.elim id fun heq => heq ▸ hmem⟩
    · rw [List.mem_orderedInsert, or_comm]
  unfold enumerateKey
  cases hrest : stripDirectory key dir with
  | none =>
    have hnot : ¬∃ name next rest, key = dir.join (name :: next :: rest) ∧ d = dir.join [name] := by
      rintro ⟨name, next, rest, hkey, -⟩
      rw [stripDirectory_eq_some.mpr hkey] at hrest
      cases hrest
    exact (or_iff_left hnot).symm
  | some rest =>
    have hkey := stripDirectory_eq_some.mp hrest
    have hdeep : (∃ name next more, key = dir.join (name :: next :: more) ∧ d = dir.join [name]) ↔
        ∃ name next more, rest = name :: next :: more ∧ d = dir.join [name] := by
      refine exists_congr fun name => exists_congr fun next => exists_congr fun more =>
        and_congr_left fun _ => ?_
      exact ⟨fun h => join_inj (hkey.symm.trans h), fun h => h ▸ hkey⟩
    rw [hdeep]
    match rest with
    | [] => simp
    | name :: next :: more =>
      dsimp only
      rw [hinsert]
      simp
    | [name] =>
      dsimp only
      split <;> simp

/-- The listing of a frozen view: the texts right below the directory, and
the directories on the way to keys further below. -/
theorem mem_readDirectory {host : Host} {iter : HashOrder SystemPath} {content : ContentMap}
    {native : Native} {revision : Revision} {dir : SystemPath} {e : DirectoryEntry} :
    (∃ entries, readDirectory host iter (frozenView content native revision) dir = .ok entries ∧
      e ∈ entries) ↔
      ((∃ name, e.path = dir.join [name]) ∧ IsText content e.path ∧ e.fileType = .file) ∨
      ((∃ key ∈ content.system.keys, ∃ name next rest, key = dir.join (name :: next :: rest) ∧
        e.path = dir.join [name]) ∧ e.fileType = .directory) := by
  have hfiles : ∀ (keys : List SystemPath) (acc : Enumeration), e ∈ (keys.foldl
      (enumerateKey (frozenView content native revision) dir) acc).entries ↔
        e ∈ acc.entries ∨ ∃ key ∈ keys, (∃ name, key = dir.join [name]) ∧
          IsText content key ∧ e = ⟨key, .file⟩ := by
    intro keys
    induction keys with
    | nil => simp
    | cons key keys ih =>
      intro acc
      rw [List.foldl_cons, ih, mem_entries_enumerateKey, List.exists_mem_cons_iff, or_assoc]
      rfl
  have hdirs : ∀ (d : SystemPath) (keys : List SystemPath) (acc : Enumeration), d ∈ (keys.foldl
      (enumerateKey (frozenView content native revision) dir) acc).directDirs ↔
      d ∈ acc.directDirs ∨ ∃ key ∈ keys, ∃ name next rest, key = dir.join (name :: next :: rest) ∧
        d = dir.join [name] := by
    intro d keys
    induction keys with
    | nil => simp
    | cons key keys ih =>
      intro acc
      rw [List.foldl_cons, ih, mem_directDirs_enumerateKey, List.exists_mem_cons_iff, or_assoc]
  have hlist : readDirectory host iter (frozenView content native revision) dir =
      .ok (((iter.order content.system.keys).foldl
        (enumerateKey (frozenView content native revision) dir) ⟨[], []⟩).entries ++
        (((iter.order content.system.keys).foldl
          (enumerateKey (frozenView content native revision) dir) ⟨[], []⟩).directDirs.map
            fun path => ⟨path, .directory⟩)) := rfl
  rw [hlist]
  simp only [Except.ok.injEq, exists_eq_left', List.mem_append, List.mem_map, hfiles, hdirs,
    List.not_mem_nil, false_or, HashOrder.mem_order]
  refine or_congr ?_ ?_
  · constructor
    · rintro ⟨key, -, hname, htext, rfl⟩
      exact ⟨hname, htext, rfl⟩
    · rintro ⟨hname, htext, htype⟩
      obtain ⟨text, version, hlookup⟩ := htext
      refine ⟨e.path, (mem_keys_iff _ _).mpr ⟨_, hlookup⟩, hname, ⟨text, version, hlookup⟩, ?_⟩
      rw [← htype]
  · constructor
    · rintro ⟨d, hd, rfl⟩
      exact ⟨hd, rfl⟩
    · rintro ⟨hd, htype⟩
      refine ⟨e.path, hd, ?_⟩
      rw [← htype]

/-! ## Consistency -/

/-- Reading a path succeeds. -/
def Readable (o : OverlaySystem) (path : SystemPath) : Prop :=
  ∃ text, o.readToString path = .ok text

/-- The metadata of a path report this kind. -/
def Reports (o : OverlaySystem) (path : SystemPath) (fileType : FileType) : Prop :=
  ∃ metadata, o.pathMetadata path = .ok metadata ∧ metadata.fileType = fileType

/-- The listing of a directory has a path with this kind. -/
def Lists (host : Host) (iter : HashOrder SystemPath) (o : OverlaySystem)
    (dir path : SystemPath) (fileType : FileType) : Prop :=
  ∃ entries, readDirectory host iter o dir = .ok entries ∧ ⟨path, fileType⟩ ∈ entries

/-- A key lies strictly below a path. -/
def Below (key path : SystemPath) : Prop := key ≠ path ∧ key.isUnder path = true

/-- The answers about one path agree. Its parent is asked where it has one. -/
structure Consistent (host : Host) (iter : HashOrder SystemPath) (o : OverlaySystem)
    (path : SystemPath) : Prop where
  /-- What can be read is a file. -/
  file : Readable o path ↔ Reports o path .file
  /-- What can be read has a source type. -/
  typed : Readable o path ↔ sourceType host o path ≠ none
  /-- What can be read is listed as a file. -/
  listedFile : ∀ dir name, path = dir.join [name] →
    (Readable o path ↔ Lists host iter o dir path .file)
  /-- A directory is listed as one. -/
  listedDirectory : ∀ dir name, path = dir.join [name] →
    (Reports o path .directory ↔ Lists host iter o dir path .directory)
  /-- A directory has a text below it and is no document. -/
  directory : Reports o path .directory ↔
    (∃ key, Below key path ∧ IsText o.content key) ∧ o.content.system.lookup path = none

/-- Every path with a key below it has no document, unless it is the root,
and a path without a document has a text below it as well. -/
def Grounded (content : ContentMap) : Prop :=
  ∀ path, (∃ key ∈ content.system.keys, Below key path) →
    (path.components ≠ [] → content.system.lookup path = none) ∧
    (content.system.lookup path = none → ∃ key, Below key path ∧ IsText content key)

section Answers

variable {content : ContentMap} {native : Native} {revision : Revision} {path : SystemPath}

theorem readable_iff : Readable (frozenView content native revision) path ↔
    IsText content path := by
  unfold Readable IsText OverlaySystem.readToString
  cases hd : (frozenView content native revision).content.system.lookup path with
  | none =>
    have hd' : content.system.lookup path = none := hd
    simp [frozenView, hd']
  | some d =>
    have hd' : content.system.lookup path = some d := hd
    cases d <;> simp [hd']

theorem reports_file_iff : Reports (frozenView content native revision) path .file ↔
    IsText content path := by
  unfold Reports IsText OverlaySystem.pathMetadata
  cases hd : (frozenView content native revision).content.system.lookup path with
  | none =>
    have hd' : content.system.lookup path = none := hd
    have hfrozen : (frozenView content native revision).frozen.isSome = true := rfl
    by_cases hdir : (frozenView content native revision).isSynthesisedDirectory path = true
    · simp [hdir, hd', hfrozen]
    · simp [hdir, hd', hfrozen]
  | some d =>
    have hd' : content.system.lookup path = some d := hd
    cases d <;> simp [hd']

/-- A directory is a path without a document that some key lies below. -/
theorem reports_directory_iff : Reports (frozenView content native revision) path .directory ↔
    content.system.lookup path = none ∧ ∃ key ∈ content.system.keys, Below key path := by
  have hdir : (frozenView content native revision).isSynthesisedDirectory path = true ↔
      ∃ key ∈ content.system.keys, Below key path := by
    unfold OverlaySystem.isSynthesisedDirectory
    exact decide_eq_true_iff
  unfold Reports OverlaySystem.pathMetadata
  cases hd : (frozenView content native revision).content.system.lookup path with
  | none =>
    have hd' : content.system.lookup path = none := hd
    have hfrozen : (frozenView content native revision).frozen.isSome = true := rfl
    rw [← hdir]
    by_cases hb : (frozenView content native revision).isSynthesisedDirectory path = true
    · simp [hb, hd', hfrozen]
    · simp [hb, hd', hfrozen]
  | some d =>
    have hd' : content.system.lookup path = some d := hd
    cases d <;> simp [hd']

theorem sourceType_ne_none_iff {host : Host} :
    sourceType host (frozenView content native revision) path ≠ none ↔ IsText content path := by
  unfold sourceType IsText
  cases hd : (frozenView content native revision).content.system.lookup path with
  | none =>
    have hd' : content.system.lookup path = none := hd
    simp [frozenView, hd']
  | some d =>
    have hd' : content.system.lookup path = some d := hd
    cases d with
    | deleted version => simp [hd']
    | text content version =>
      cases (path.extension.bind host.tryFromExtension) <;> simp [hd']

/-- A listing shows the texts right below. -/
theorem lists_file_iff {host : Host} {iter : HashOrder SystemPath} {dir : SystemPath}
    {name : String} (hpath : path = dir.join [name]) :
    Lists host iter (frozenView content native revision) dir path .file ↔
      IsText content path := by
  unfold Lists
  rw [mem_readDirectory]
  constructor
  · rintro (⟨-, htext, -⟩ | ⟨-, htype⟩)
    · exact htext
    · cases htype
  · exact fun htext => Or.inl ⟨⟨name, hpath⟩, htext, rfl⟩

/-- A listing shows a directory wherever a key lies below. -/
theorem lists_directory_iff {host : Host} {iter : HashOrder SystemPath} {dir : SystemPath}
    {name : String} (hpath : path = dir.join [name]) :
    Lists host iter (frozenView content native revision) dir path .directory ↔
      ∃ key ∈ content.system.keys, Below key path := by
  have hbelow : ∀ key, Below key path ↔
      ∃ next rest, key = dir.join (name :: next :: rest) := by
    intro key
    unfold Below SystemPath.isUnder
    rw [List.isPrefixOf_iff_prefix, hpath]
    constructor
    · rintro ⟨hne, tail, htail⟩
      cases tail with
      | nil =>
        refine (hne ?_).elim
        rw [List.append_nil] at htail
        cases key
        exact congrArg SystemPath.mk htail.symm
      | cons next rest =>
        have hsplit : key.components = dir.components ++ name :: next :: rest := by
          rw [← htail]
          simp [SystemPath.join]
        refine ⟨next, rest, ?_⟩
        cases key
        exact congrArg SystemPath.mk hsplit
    · rintro ⟨next, rest, rfl⟩
      refine ⟨?_, next :: rest, by simp [SystemPath.join]⟩
      intro heq
      have hrest := join_inj heq
      simp at hrest
  unfold Lists
  rw [mem_readDirectory]
  constructor
  · rintro (⟨-, -, htype⟩ | ⟨⟨key, hkey, first, next, rest, hdeep, hsame⟩, -⟩)
    · cases htype
    · have hname : name = first := by
        have hjoin := join_inj (hpath.symm.trans hsame)
        simpa using hjoin
      exact ⟨key, hkey, (hbelow key).mpr ⟨next, rest, hname ▸ hdeep⟩⟩
  · rintro ⟨key, hkey, hb⟩
    obtain ⟨next, rest, hdeep⟩ := (hbelow key).mp hb
    exact Or.inr ⟨⟨key, hkey, name, next, rest, hdeep, hpath⟩, rfl⟩

end Answers

/-- A frozen view is consistent exactly when its keys are grounded. -/
theorem consistent_iff (host : Host) (iter : HashOrder SystemPath) (content : ContentMap)
    (native : Native) (revision : Revision) :
    (∀ path, Consistent host iter (frozenView content native revision) path) ↔
      Grounded content := by
  constructor
  · intro h path hbelow
    refine ⟨?_, ?_⟩
    · intro hroot
      -- the parent lists the path as a directory, so the metadata must say so too
      obtain ⟨front, name, hsplit⟩ := List.eq_nil_or_concat path.components |>.resolve_left hroot
      rw [List.concat_eq_append] at hsplit
      have hpath : path = SystemPath.join ⟨front⟩ [name] := by
        cases path
        exact congrArg SystemPath.mk hsplit
      have hreports := ((h path).listedDirectory ⟨front⟩ name hpath).mpr
        ((lists_directory_iff hpath).mpr hbelow)
      exact (reports_directory_iff.mp hreports).1
    · intro hnone
      exact ((h path).directory.mp (reports_directory_iff.mpr ⟨hnone, hbelow⟩)).1
  · intro hwell path
    refine ⟨?_, ?_, ?_, ?_, ?_⟩
    · rw [readable_iff, reports_file_iff]
    · rw [readable_iff, sourceType_ne_none_iff]
    · intro dir name hpath
      rw [readable_iff, lists_file_iff hpath]
    · intro dir name hpath
      rw [reports_directory_iff, lists_directory_iff hpath]
      refine and_iff_right_of_imp fun hbelow => (hwell path hbelow).1 ?_
      rw [hpath]
      simp [SystemPath.join]
    · rw [reports_directory_iff, and_comm]
      refine and_congr_left fun hnone => ?_
      constructor
      · exact fun hbelow => (hwell path hbelow).2 hnone
      · rintro ⟨key, hb, text, version, hkey⟩
        exact ⟨key, (mem_keys_iff _ _).mpr ⟨_, hkey⟩, hb⟩

/-- A store in which the only file of a package was written and deleted. -/
def emptiedPackage : Store :=
  ((Store.withRetainCap 64).applyBatch [.insert ⟨["p", "pkg", "m.py"]⟩ "x = 1"]).applyBatch
    [.delete ⟨["p", "pkg", "m.py"]⟩]

/-- The package of the deleted file is still reported as a directory, though
no text lies below it. -/
theorem emptied_package_reported :
    Reports (frozenView emptiedPackage.generation ⟨fun _ => .error .notFound,
      fun _ => .error .notFound⟩ 2) ⟨["p", "pkg"]⟩ .directory ∧
    ¬∀ host iter path, Consistent host iter (frozenView emptiedPackage.generation
      ⟨fun _ => .error .notFound, fun _ => .error .notFound⟩ 2) path := by
  have hkeys : emptiedPackage.generation.system.keys = {⟨["p", "pkg", "m.py"]⟩} := by
    decide +kernel
  have hfile : ∀ text version, emptiedPackage.generation.system.lookup ⟨["p", "pkg", "m.py"]⟩ ≠
      some (.text text version) := by
    have hdeleted : emptiedPackage.generation.system.lookup ⟨["p", "pkg", "m.py"]⟩ =
        some (.deleted 2) := by decide +kernel
    intro text version htext
    rw [hdeleted] at htext
    cases htext
  have hreports : Reports (frozenView emptiedPackage.generation ⟨fun _ => .error .notFound,
      fun _ => .error .notFound⟩ 2) ⟨["p", "pkg"]⟩ .directory := by
    refine reports_directory_iff.mpr ⟨by decide +kernel, ⟨["p", "pkg", "m.py"]⟩, ?_, ?_⟩
    · rw [hkeys]
      exact Finset.mem_singleton_self _
    · exact ⟨by decide, by decide⟩
  refine ⟨hreports, ?_⟩
  intro h
  have hdirectory := (h ⟨fun _ => none, fun _ => none, fun _ => .error .notFound⟩
    ⟨Finset.toList, Finset.coe_toList⟩ ⟨["p", "pkg"]⟩).directory
  obtain ⟨⟨key, -, text, version, hkey⟩, -⟩ := hdirectory.mp hreports
  have hmem := (mem_keys_iff _ _).mpr ⟨_, hkey⟩
  have hsame : key = ⟨["p", "pkg", "m.py"]⟩ := by
    change key ∈ emptiedPackage.generation.system.keys at hmem
    rwa [hkeys, Finset.mem_singleton] at hmem
  rw [hsame] at hkey
  exact hfile text version hkey

end Tyo3.FrozenDirectories
