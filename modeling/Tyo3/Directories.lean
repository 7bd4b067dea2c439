import Tyo3.FiniteMaps

/-!
# Names on the disk

A directory gives names to files. Its changes need not be on the disk, so that
after a crash any of them may be missing. While new files get temporary names
and a file takes another name once, a file has one name at most, whatever
changes a crash leaves. Nothing here names a program.
-/

namespace Tyo3.Directories

open FiniteMaps

/-- A change of the names that need not be on the disk. -/
inductive Change (N : Type*)
  /-- A new file gets a name. -/
  | link (name : N) (file : ℕ)
  /-- A file takes another name. -/
  | move (source name : N) (file : ℕ)

/-- The name that a change gives, and to which file. -/
def Change.gives {N : Type*} : Change N → N × ℕ
  | .link name file => (name, file)
  | .move _ name file => (name, file)

/-- The names as they are, and what of them is on the disk. -/
structure Directory (N : Type*) where
  /-- Files by their names. -/
  names : FMap N ℕ
  /-- The names that are on the disk. -/
  durable : FMap N ℕ
  /-- What was changed since then. -/
  changes : List (Change N)
  /-- The files so far. -/
  next : ℕ

/-- The changes that a crash leaves, by their places. -/
def survivors {N : Type*} (kept : ℕ → Bool) (changes : List (Change N)) : List (Change N) :=
  (changes.zipIdx.filter fun c => kept c.2).map Prod.fst

theorem survivors_sublist {N : Type*} (kept : ℕ → Bool) (changes : List (Change N)) :
    (survivors kept changes).Sublist changes := by
  have hall := (List.filter_sublist (p := fun c : Change N × ℕ => kept c.2)
    (l := changes.zipIdx)).map Prod.fst
  rwa [List.zipIdx_map_fst] at hall

section Names

variable {N : Type*} [DecidableEq N]

/-- Names after a change. -/
def Change.apply (names : FMap N ℕ) : Change N → FMap N ℕ
  | .link name file => names.insert name file
  | .move source name file => (names.erase source).insert name file

/-- Names after changes. -/
def replayed (names : FMap N ℕ) (changes : List (Change N)) : FMap N ℕ :=
  changes.foldl Change.apply names

namespace Directory

/-- Give a new file a name. -/
def create (d : Directory N) (name : N) : Directory N where
  names := d.names.insert name d.next
  durable := d.durable
  changes := d.changes ++ [.link name d.next]
  next := d.next + 1

/-- Give a file another name, which it takes from what had it. -/
def rename (d : Directory N) (source name : N) (file : ℕ) : Directory N where
  names := (d.names.erase source).insert name file
  durable := d.durable
  changes := d.changes ++ [.move source name file]
  next := d.next

/-- The system crashes. Some of the changes were on the disk. -/
def crash (d : Directory N) (kept : ℕ → Bool) : Directory N where
  names := replayed d.durable (survivors kept d.changes)
  durable := replayed d.durable (survivors kept d.changes)
  changes := []
  next := d.next

/-- A file has a name on the disk, or gets it by a change. -/
def Links (d : Directory N) (name : N) (file : ℕ) : Prop :=
  d.durable.lookup name = some file ∨ ∃ c ∈ d.changes, c.gives = (name, file)

end Directory

/-- A change gives a new file a temporary name, or a file takes another name
that is not temporary. -/
def Change.Proper (isTarget : N → Prop) : Change N → Prop
  | .link name _ => ¬ isTarget name
  | .move source name _ => ¬ isTarget source ∧ isTarget name

/-- A name comes from those before or from a change. -/
theorem lookup_replayed {names : FMap N ℕ} {changes : List (Change N)} {name : N} {file : ℕ}
    (h : (replayed names changes).lookup name = some file) :
    names.lookup name = some file ∨ ∃ c ∈ changes, c.gives = (name, file) := by
  unfold replayed at h
  induction changes generalizing names with
  | nil => exact .inl h
  | cons c changes ih =>
    rcases ih h with hold | ⟨c', hc', hgives⟩
    · have hone : names.lookup name = some file ∨ c.gives = (name, file) := by
        cases c with
        | link name' file' =>
          change (names.insert name' file').lookup name = some file at hold
          rw [lookup_insert_ite] at hold
          split at hold
          · rename_i hname
            cases hold
            exact .inr (by rw [hname]; rfl)
          · exact .inl hold
        | move source name' file' =>
          change ((names.erase source).insert name' file').lookup name = some file at hold
          rw [lookup_insert_ite, lookup_erase_ite] at hold
          split at hold
          · rename_i hname
            cases hold
            exact .inr (by rw [hname]; rfl)
          · split at hold
            · cases hold
            · exact .inl hold
      exact hone.imp_right fun hgives => ⟨c, List.mem_cons_self, hgives⟩
    · exact .inr ⟨c', List.mem_cons_of_mem _ hc', hgives⟩

/-- A file has one name at most. -/
def Single (names : FMap N ℕ) : Prop := ∀ name name' file,
  names.lookup name = some file → names.lookup name' = some file → name = name'

theorem Single.erase {names : FMap N ℕ} (h : Single names) (name : N) :
    Single (names.erase name) := by
  have hold : ∀ other file, (names.erase name).lookup other = some file →
      names.lookup other = some file := by
    intro other file hin
    rw [lookup_erase_ite] at hin
    split at hin
    · cases hin
    · exact hin
  exact fun other other' file hother hother' =>
    h other other' file (hold other file hother) (hold other' file hother')

/-- A name is given to a file that no other name has. -/
theorem Single.insert {names : FMap N ℕ} (h : Single names) {name : N} {file : ℕ}
    (hfree : ∀ other ≠ name, names.lookup other ≠ some file) :
    Single (names.insert name file) := by
  have hold : ∀ other file', other ≠ name →
      (names.insert name file).lookup other = some file' →
      names.lookup other = some file' ∧ file' ≠ file := by
    intro other file' hne hin
    rw [lookup_insert_ite, if_neg hne] at hin
    exact ⟨hin, fun heq => hfree other hne (heq ▸ hin)⟩
  have hnew : ∀ file', (names.insert name file).lookup name = some file' → file' = file := by
    intro file' hin
    rw [lookup_insert_ite, if_pos rfl] at hin
    exact (Option.some.inj hin).symm
  intro other other' file' hother hother'
  by_cases heq : other = name
  · by_cases heq' : other' = name
    · rw [heq, heq']
    · rw [heq] at hother
      exact absurd (hnew file' hother) (hold other' file' heq' hother').2
  · by_cases heq' : other' = name
    · rw [heq'] at hother'
      exact absurd (hnew file' hother') (hold other file' heq hother).2
    · exact h other other' file' (hold other file' heq hother).1 (hold other' file' heq' hother').1

/-- What holds of the names while new files get temporary names and files take
other names once. -/
structure Directory.Sound (isTarget : N → Prop) (d : Directory N) : Prop where
  /-- The names are those on the disk with all changes. -/
  live : d.names = replayed d.durable d.changes
  /-- Files are numbered in the order in which they are created. -/
  numbered : ∀ name file, d.Links name file → file < d.next
  /-- The file of a temporary name has no other one, on the disk or by a change. -/
  own : ∀ name file, ¬ isTarget name → d.names.lookup name = some file →
    ∀ name', d.Links name' file → name' = name
  /-- Whatever changes a crash leaves, a file has one name at most. -/
  single : ∀ left : List (Change N), left.Sublist d.changes → Single (replayed d.durable left)
  /-- Only what is renamed has a name that is not temporary. -/
  proper : ∀ c ∈ d.changes, c.Proper isTarget

namespace Directory

variable {isTarget : N → Prop} {d : Directory N}

/-- Names after some of the changes are among all that were given. -/
theorem links_of_replayed {left : List (Change N)} (hleft : left.Sublist d.changes) {name : N}
    {file : ℕ} (h : (replayed d.durable left).lookup name = some file) : d.Links name file :=
  (lookup_replayed h).imp_right fun hc => hc.imp fun _ hc => ⟨hleft.subset hc.1, hc.2⟩

theorem Sound.links (h : d.Sound isTarget) {name : N} {file : ℕ}
    (hname : d.names.lookup name = some file) : d.Links name file := by
  rw [h.live] at hname
  exact links_of_replayed (List.Sublist.refl _) hname

/-- A file has one name at most. -/
theorem Sound.unique (h : d.Sound isTarget) {name name' : N} {file : ℕ}
    (hname : d.names.lookup name = some file) (hname' : d.names.lookup name' = some file) :
    name = name' := by
  rw [h.live] at hname hname'
  exact h.single _ (List.Sublist.refl _) name name' file hname hname'

omit [DecidableEq N] in
/-- What is left of changes after one more. -/
theorem sublist_concat {changes left : List (Change N)} {c : Change N}
    (h : left.Sublist (changes ++ [c])) :
    left.Sublist changes ∨ ∃ before, before.Sublist changes ∧ left = before ++ [c] := by
  obtain ⟨before, last, rfl, hbefore, hlast⟩ := List.sublist_append_iff.mp h
  rcases List.sublist_singleton.mp hlast with rfl | rfl
  · exact .inl (by rwa [List.append_nil])
  · exact .inr ⟨before, hbefore, rfl⟩

theorem replayed_concat (names : FMap N ℕ) (changes : List (Change N)) (c : Change N) :
    replayed names (changes ++ [c]) = c.apply (replayed names changes) := by
  unfold replayed
  rw [List.foldl_append, List.foldl_cons, List.foldl_nil]

/-- The names that a change more gives. -/
theorem links_concat (names durable : FMap N ℕ) (changes : List (Change N)) (c : Change N)
    (next next' : ℕ) {name : N} {file : ℕ} :
    (Directory.mk names durable (changes ++ [c]) next).Links name file ↔
      (Directory.mk names durable changes next').Links name file ∨ c.gives = (name, file) := by
  unfold Links
  dsimp only
  simp only [List.mem_append, List.mem_singleton, or_and_right, exists_or, exists_eq_left]
  rw [or_assoc]

theorem links_create {name other : N} {file : ℕ} :
    (d.create name).Links other file ↔ d.Links other file ∨ (name, d.next) = (other, file) :=
  links_concat _ d.durable d.changes (.link name d.next) _ d.next

theorem links_rename {source name other : N} {file file' : ℕ} :
    (d.rename source name file).Links other file' ↔
      d.Links other file' ∨ (name, file) = (other, file') :=
  links_concat _ d.durable d.changes (.move source name file) _ d.next

/-- A new file gets a temporary name. -/
theorem Sound.create (h : d.Sound isTarget) {name : N} (hname : ¬ isTarget name) :
    (d.create name).Sound isTarget := by
  refine ⟨?_, fun other file hlink => ?_, fun other file hother hfile other' hlink => ?_,
    fun left hleft => ?_, fun c hc => ?_⟩
  · change d.names.insert name d.next = replayed d.durable (d.changes ++ [.link name d.next])
    rw [replayed_concat, ← h.live]
    rfl
  · rcases links_create.mp hlink with hold | hnew
    · exact (h.numbered other file hold).trans (Nat.lt_succ_self _)
    · cases hnew
      exact Nat.lt_succ_self _
  · change (d.names.insert name d.next).lookup other = some file at hfile
    rw [lookup_insert_ite] at hfile
    split at hfile
    · rename_i heq
      rcases links_create.mp hlink with hold | hnew
      · -- the new file had no name before
        have hlt := h.numbered other' file hold
        rw [← Option.some.inj hfile] at hlt
        exact absurd hlt (lt_irrefl _)
      · rw [heq, (Prod.mk.inj hnew).1]
    · rcases links_create.mp hlink with hold | hnew
      · exact h.own other file hother hfile other' hold
      · have hlt := h.numbered other file (h.links hfile)
        rw [← (Prod.mk.inj hnew).2] at hlt
        exact absurd hlt (lt_irrefl _)
  · rcases sublist_concat hleft with hold | ⟨before, hbefore, rfl⟩
    · exact h.single left hold
    · change Single (replayed d.durable (before ++ [.link name d.next]))
      rw [replayed_concat]
      exact (h.single before hbefore).insert fun other _ hin =>
        lt_irrefl _ (h.numbered other d.next (links_of_replayed hbefore hin))
  · rcases List.mem_append.mp hc with hold | hnew
    · exact h.proper c hold
    · rw [List.mem_singleton.mp hnew]
      exact hname

/-- The file of a temporary name takes another name. -/
theorem Sound.rename (h : d.Sound isTarget) {source name : N} {file : ℕ}
    (hsource : ¬ isTarget source) (hname : isTarget name)
    (hfile : d.names.lookup source = some file) :
    (d.rename source name file).Sound isTarget := by
  refine ⟨?_, fun other file' hlink => ?_, fun other file' hother hfile' other' hlink => ?_,
    fun left hleft => ?_, fun c hc => ?_⟩
  · change (d.names.erase source).insert name file =
      replayed d.durable (d.changes ++ [.move source name file])
    rw [replayed_concat, ← h.live]
    rfl
  · rcases links_rename.mp hlink with hold | hnew
    · exact h.numbered other file' hold
    · cases hnew
      exact h.numbered source file (h.links hfile)
  · change ((d.names.erase source).insert name file).lookup other = some file' at hfile'
    rw [lookup_insert_ite, lookup_erase_ite] at hfile'
    split at hfile'
    · rename_i heq
      exact absurd (heq ▸ hname) hother
    · split at hfile'
      · cases hfile'
      · rename_i hne
        rcases links_rename.mp hlink with hold | hnew
        · exact h.own other file' hother hfile' other' hold
        · -- the renamed file had one name only
          rw [← (Prod.mk.inj hnew).2] at hfile'
          exact absurd (h.unique hfile' hfile) hne
  · rcases sublist_concat hleft with hold | ⟨before, hbefore, rfl⟩
    · exact h.single left hold
    · change Single (replayed d.durable (before ++ [.move source name file]))
      rw [replayed_concat]
      refine ((h.single before hbefore).erase source).insert fun other _ hin => ?_
      rw [lookup_erase_ite] at hin
      split at hin
      · cases hin
      · rename_i hne
        exact hne (h.own source file hsource hfile other (links_of_replayed hbefore hin))
  · rcases List.mem_append.mp hc with hold | hnew
    · exact h.proper c hold
    · rw [List.mem_singleton.mp hnew]
      exact ⟨hsource, hname⟩

/-- After a crash every name was given before. -/
theorem links_of_crash {kept : ℕ → Bool} {name : N} {file : ℕ}
    (h : (d.crash kept).Links name file) : d.Links name file := by
  rcases h with hname | ⟨c, hc, -⟩
  · exact links_of_replayed (survivors_sublist kept d.changes) hname
  · cases hc

/-- The system crashes. -/
theorem Sound.crash (h : d.Sound isTarget) (kept : ℕ → Bool) : (d.crash kept).Sound isTarget where
  live := rfl
  numbered name file hlink := h.numbered name file (links_of_crash hlink)
  own name file _ hname name' hlink := by
    rcases hlink with hname' | ⟨c, hc, -⟩
    · exact h.single _ (survivors_sublist kept d.changes) name' name file hname' hname
    · cases hc
  single left hleft := by
    rw [List.sublist_nil.mp hleft]
    exact h.single _ (survivors_sublist kept d.changes)
  proper c hc := by cases hc

/-- All names are on the disk. -/
theorem sound_start {names : FMap N ℕ} (hsingle : Single names) {next : ℕ}
    (hnext : ∀ name file, names.lookup name = some file → file < next) :
    (Directory.mk names names [] next).Sound isTarget where
  live := rfl
  numbered name file hlink := by
    rcases hlink with hname | ⟨c, hc, -⟩
    · exact hnext name file hname
    · cases hc
  own name file _ hname name' hlink := by
    rcases hlink with hname' | ⟨c, hc, -⟩
    · exact hsingle name' name file hname' hname
    · cases hc
  single left hleft := by
    rw [List.sublist_nil.mp hleft]
    exact hsingle
  proper c hc := by cases hc

end Directory

end Names

end Tyo3.Directories
