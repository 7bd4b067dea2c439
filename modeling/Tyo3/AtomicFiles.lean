import Mathlib.Data.Fintype.Basic
import Tyo3.Directories
import Tyo3.Runs

/-!
# Replacing files as a whole

A writer fills a temporary file, brings it to the disk and renames it over the
file it is for. Any number of writers take their steps in any order, give up
anywhere, and the system crashes at any time. After a crash a file that was not
brought to the disk holds anything, and names that were given since the crash
before may be missing, for the directory is not brought to the disk. While no
two writers fill one temporary file, a reader of the other files sees writes
that happen as a whole, in the order of the renamings; of those before a crash
some may be undone. Nothing here names a program.
-/

namespace Tyo3.AtomicFiles

open Directories FiniteMaps Runs

/-- A file without its name. -/
structure File (β : Type*) where
  /-- What it holds. -/
  data : List β
  /-- Whether that is on the disk. -/
  synced : Bool

/-- What a writer does. -/
inductive Stage (N β : Type*)
  /-- Nothing. -/
  | idle
  /-- It has written so many bytes to its file. -/
  | writing (path : N) (bytes : List β) (file written : ℕ)
  /-- All bytes are on the disk. -/
  | synced (path : N) (bytes : List β) (file : ℕ)

/-- The write of a writer. -/
def Stage.write {N β : Type*} : Stage N β → Option (N × List β)
  | .idle => none
  | .writing path bytes _ _ => some (path, bytes)
  | .synced path bytes _ => some (path, bytes)

/-- The file that a writer is for. -/
def Stage.target {N β : Type*} : Stage N β → Option N
  | .idle => none
  | .writing path _ _ _ => some path
  | .synced path _ _ => some path

/-- The files, their names and the writers. -/
structure State (N W β : Type*) where
  /-- The names of the files. -/
  dir : Directory N
  /-- The files. -/
  files : ℕ → File β
  /-- The writers. -/
  stages : W → Stage N β

/-- What happens. -/
inductive Act (N W β : Type*)
  /-- A writer creates its temporary file, or empties it. -/
  | create (w : W) (path : N) (bytes : List β)
  /-- A writer writes some of the bytes that are left. -/
  | write (w : W) (n : ℕ)
  /-- A writer that has written all waits for the disk. -/
  | sync (w : W)
  /-- A writer gives the file its name. -/
  | rename (w : W)
  /-- A writer gives up. -/
  | abandon (w : W)
  /-- All writers end. What was not on the disk is lost, of the changed names
  those that are not kept. -/
  | crash (lost : ℕ → List β) (kept : ℕ → Bool)

/-- Whether the system crashes. -/
def Act.IsCrash {N W β : Type*} : Act N W β → Prop
  | .crash _ _ => True
  | _ => False

section Steps

variable {N W β : Type*} (temporary : N → N)

/-- Write a piece at a place. -/
def overwrite (fill : β) (data : List β) (place : ℕ) (piece : List β) : List β :=
  data.take place ++ List.replicate (place - data.length) fill ++ piece ++
    data.drop (place + piece.length)

namespace State

/-- Change a file. -/
def setFile (s : State N W β) (file : ℕ) (f : File β) : State N W β :=
  { s with files := Function.update s.files file f }

variable [DecidableEq N]

/-- What a reader finds under a name. -/
def read (s : State N W β) (name : N) : Option (List β) :=
  (s.dir.names.lookup name).map fun file => (s.files file).data

/-- The files by their names. -/
def contents (s : State N W β) : FMap N (List β) :=
  Finmap.keysLookupEquiv.symm ⟨⟨s.dir.names.keys, s.read⟩, fun name => by
    unfold read
    rw [Option.isSome_map, Finmap.lookup_isSome]
    exact Finmap.mem_keys.symm⟩

theorem lookup_contents (s : State N W β) (name : N) : s.contents.lookup name = s.read name :=
  Finmap.keysLookupEquiv_symm_apply_lookup _ _

/-- The file under a name, a new one when there is none. -/
def openFile (s : State N W β) (name : N) : ℕ × State N W β :=
  match s.dir.names.lookup name with
  | some file => (file, s)
  | none => (s.dir.next, { s with dir := s.dir.create name })

/-- Give the file of one name another name, which it takes from what had it. -/
def renameFile (s : State N W β) (source name : N) : State N W β :=
  match s.dir.names.lookup source with
  | none => s
  | some file => { s with dir := s.dir.rename source name file }

/-- The write that ends in a step. -/
def completes (s : State N W β) : Act N W β → Option (N × List β)
  | .rename w =>
    match s.stages w with
    | .synced path bytes _ => (s.dir.names.lookup (temporary path)).map fun _ => (path, bytes)
    | _ => none
  | _ => none

variable [DecidableEq W]

/-- Change what a writer does. -/
def setStage (s : State N W β) (w : W) (stage : Stage N β) : State N W β :=
  { s with stages := Function.update s.stages w stage }

/-- The next state. -/
def step (fill : β) (s : State N W β) : Act N W β → State N W β
  | .create w path bytes =>
    match s.stages w with
    | .idle =>
      let opened := s.openFile (temporary path)
      (opened.2.setFile opened.1 ⟨[], false⟩).setStage w (.writing path bytes opened.1 0)
    | _ => s
  | .write w n =>
    match s.stages w with
    | .writing path bytes file written =>
      let piece := (bytes.drop written).take n
      (s.setFile file ⟨overwrite fill (s.files file).data written piece, false⟩).setStage w
        (.writing path bytes file (written + piece.length))
    | _ => s
  | .sync w =>
    match s.stages w with
    | .writing path bytes file written =>
      if written = bytes.length then
        (s.setFile file ⟨(s.files file).data, true⟩).setStage w (.synced path bytes file)
      else s
    | _ => s
  | .rename w =>
    match s.stages w with
    | .synced path _ _ => (s.renameFile (temporary path) path).setStage w .idle
    | _ => s
  | .abandon w => s.setStage w .idle
  | .crash lost kept =>
    { dir := s.dir.crash kept
      files := fun file => if (s.files file).synced then s.files file else ⟨lost file, true⟩
      stages := fun _ => .idle }

end State

/-- A writer begins for a file that is no temporary one, and while no other
writer fills the temporary file. -/
def Apart (isTarget : N → Prop) (s : State N W β) : Act N W β → Prop
  | .create w path _ => isTarget path ∧ ∀ other ≠ w, ∀ path', (s.stages other).target = some path' →
      temporary path' ≠ temporary path
  | _ => True

variable [DecidableEq N]

/-- Files after writes that happen as a whole. -/
def replay (contents : N → Option (List β)) (writes : List (N × List β)) : N → Option (List β) :=
  writes.foldl (fun contents write => Function.update contents write.1 (some write.2)) contents

variable [DecidableEq W]

instance [Fintype W] {isTarget : N → Prop} [DecidablePred isTarget] (s : State N W β) :
    (a : Act N W β) → Decidable (Apart temporary isTarget s a)
  | .create w path _ => inferInstanceAs (Decidable (isTarget path ∧ ∀ other ≠ w,
      ∀ path' ∈ (s.stages other).target, temporary path' ≠ temporary path))
  | .write _ _ => isTrue trivial
  | .sync _ => isTrue trivial
  | .rename _ => isTrue trivial
  | .abandon _ => isTrue trivial
  | .crash _ _ => isTrue trivial

/-- The writes that end in a run, in their order. -/
def completed (fill : β) : State N W β → List (Act N W β) → List (N × List β)
  | _, [] => []
  | s, a :: acts =>
    (s.completes temporary a).toList ++ completed fill (s.step temporary fill a) acts

end Steps

/-- A file after it was changed. -/
theorem State.files_setFile {N W β : Type*} (s : State N W β) (file : ℕ) (f : File β) :
    (s.setFile file f).files file = f := Function.update_self _ _ _

/-- Writing the next bytes behind those before gives more of them. -/
theorem overwrite_take {β : Type*} (fill : β) (bytes : List β) {written : ℕ}
    (h : written ≤ bytes.length) (n : ℕ) :
    overwrite fill (bytes.take written) written ((bytes.drop written).take n) =
      bytes.take (written + ((bytes.drop written).take n).length) := by
  have hlength : (bytes.take written).length = written := List.length_take_of_le h
  have htake : (bytes.take written).take written = bytes.take written :=
    List.take_of_length_le hlength.le
  have hdrop : ∀ k, (bytes.take written).drop (written + k) = [] := fun k =>
    List.drop_eq_nil_of_le (by rw [hlength]; exact Nat.le_add_right _ _)
  unfold overwrite
  rw [htake, hdrop, hlength, Nat.sub_self, List.replicate_zero, List.append_nil, List.append_nil,
    List.take_add]
  exact congrArg _ (List.prefix_iff_eq_take.mp (List.take_prefix _ _))

/-! ## What is on the disk -/

section Stored

variable {N W β : Type*} [DecidableEq N]

/-- The files by their names on the disk. -/
def State.stored (s : State N W β) (name : N) : Option (List β) :=
  (s.dir.durable.lookup name).map fun file => (s.files file).data

/-- The write that a change of the names ends. -/
def changeWrite (files : ℕ → File β) : Change N → Option (N × List β)
  | .link _ _ => none
  | .move _ name file => some (name, (files file).data)

/-- The writes that ended since the last crash. -/
def State.ended (s : State N W β) : List (N × List β) :=
  s.dir.changes.filterMap (changeWrite s.files)

/-- A file after writes depends on that file before. -/
theorem replay_congr {contents contents' : N → Option (List β)} {name : N}
    (h : contents name = contents' name) (writes : List (N × List β)) :
    replay contents writes name = replay contents' writes name := by
  unfold replay
  induction writes generalizing contents contents' with
  | nil => exact h
  | cons write writes ih =>
    refine ih ?_
    dsimp only
    by_cases hname : name = write.1
    · subst hname
      rw [Function.update_self, Function.update_self]
    · rw [Function.update_of_ne hname, Function.update_of_ne hname]
      exact h

theorem replay_append (contents : N → Option (List β)) (before after : List (N × List β)) :
    replay contents (before ++ after) = replay (replay contents before) after :=
  List.foldl_append

/-- What a reader finds after changes are the writes that they end. -/
theorem read_replayed {isTarget : N → Prop} (files : ℕ → File β) {changes : List (Change N)}
    (hproper : ∀ c ∈ changes, c.Proper isTarget) (names : FMap N ℕ) {name : N}
    (hname : isTarget name) :
    ((replayed names changes).lookup name).map (fun file => (files file).data) =
      replay (fun name => (names.lookup name).map fun file => (files file).data)
        (changes.filterMap (changeWrite files)) name := by
  induction changes generalizing names with
  | nil => rfl
  | cons c changes ih =>
    obtain ⟨hc, hchanges⟩ := List.forall_mem_cons.mp hproper
    refine (ih hchanges (c.apply names)).trans ?_
    cases c with
    | link temporary file =>
      refine replay_congr ?_ _
      have hne : name ≠ temporary := fun heq => hc (heq ▸ hname)
      change ((names.insert temporary file).lookup name).map _ = _
      rw [lookup_insert_ite, if_neg hne]
    | move source target file =>
      refine replay_congr ?_ _
      have hne : name ≠ source := fun heq => hc.1 (heq ▸ hname)
      change (((names.erase source).insert target file).lookup name).map _ =
        Function.update (fun name => (names.lookup name).map fun file => (files file).data) target
          (some (files file).data) name
      rw [lookup_insert_ite, lookup_erase_ite]
      by_cases heq : name = target
      · rw [if_pos heq, heq, Function.update_self]
        rfl
      · rw [if_neg heq, if_neg hne, Function.update_of_ne heq]

end Stored

/-! ## What writers find -/

section Invariant

variable {N W β : Type*} [DecidableEq N] [DecidableEq W] {temporary : N → N} {isTarget : N → Prop}
  {fill : β} {s : State N W β}

/-- What is known of the file of a writer. -/
def Stage.Holds (temporary : N → N) (isTarget : N → Prop) (s : State N W β) : Stage N β → Prop
  | .idle => True
  | .writing path bytes file written =>
      isTarget path ∧ s.dir.names.lookup (temporary path) = some file ∧ written ≤ bytes.length ∧
        (s.files file).data = bytes.take written
  | .synced path bytes file => isTarget path ∧ s.dir.names.lookup (temporary path) = some file ∧
      s.files file = ⟨bytes, true⟩

/-- What holds while writers are apart. -/
structure Sound (temporary : N → N) (isTarget : N → Prop) (s : State N W β) : Prop where
  /-- Names are given as they should be. -/
  dir : s.dir.Sound isTarget
  /-- What is not temporary is on the disk. -/
  synced : ∀ name file, isTarget name → s.dir.Links name file → (s.files file).synced = true
  /-- Every writer finds in its file what it has written. -/
  stages : ∀ w, (s.stages w).Holds temporary isTarget s
  /-- Writers fill different temporary files. -/
  apart : ∀ w w' path path', (s.stages w).target = some path → (s.stages w').target = some path' →
    temporary path = temporary path' → w = w'

omit [DecidableEq W] in
/-- A writer's stage holds where its file and its name are the same. -/
theorem Stage.Holds.frame {s s' : State N W β} {stage : Stage N β}
    (h : stage.Holds temporary isTarget s)
    (hsame : ∀ path file, stage.target = some path → isTarget path →
      s.dir.names.lookup (temporary path) = some file →
      s'.dir.names.lookup (temporary path) = some file ∧ s'.files file = s.files file) :
    stage.Holds temporary isTarget s' := by
  cases stage with
  | idle => exact trivial
  | writing path bytes file written =>
    obtain ⟨hpath, hfile, hle, hdata⟩ := h
    obtain ⟨hname, hfiles⟩ := hsame path file rfl hpath hfile
    exact ⟨hpath, hname, hle, (congrArg File.data hfiles).trans hdata⟩
  | synced path bytes file =>
    obtain ⟨hpath, hfile, hdata⟩ := h
    obtain ⟨hname, hfiles⟩ := hsame path file rfl hpath hfile
    exact ⟨hpath, hname, hfiles.trans hdata⟩

/-- What a step that is no crash does for readers: the disk may lack it still. -/
structure Goes (isTarget : N → Prop) (s s' : State N W β) (writes : List (N × List β)) : Prop where
  stored : ∀ name, isTarget name → s'.stored name = s.stored name
  ended : s'.ended = s.ended ++ writes

omit [DecidableEq W] in
theorem Goes.refl (s : State N W β) : Goes isTarget s s [] :=
  ⟨fun _ _ => rfl, (List.append_nil _).symm⟩

omit [DecidableEq W] in
theorem Goes.trans {s₁ s₂ s₃ : State N W β} {writes writes' : List (N × List β)}
    (h : Goes isTarget s₁ s₂ writes) (h' : Goes isTarget s₂ s₃ writes') :
    Goes isTarget s₁ s₃ (writes ++ writes') :=
  ⟨fun name hname => (h'.stored name hname).trans (h.stored name hname), by
    rw [h'.ended, h.ended, List.append_assoc]⟩

namespace Sound

omit [DecidableEq W] in
/-- The file of a writer has no name that is not temporary. -/
theorem file_ne (h : Sound temporary isTarget s)
    (htarget : ∀ p q, isTarget p → isTarget q → temporary q ≠ p) {path name : N} {file file' : ℕ}
    (hpath : isTarget path) (hfile : s.dir.names.lookup (temporary path) = some file)
    (hname : isTarget name) (hlink : s.dir.Links name file') : file' ≠ file := by
  rintro rfl
  have htmp : ¬ isTarget (temporary path) := fun htmp => htarget _ path htmp hpath rfl
  exact htmp (h.dir.own _ _ htmp hfile name hlink ▸ hname)

omit [DecidableEq W] in
/-- Files that are not temporary are the same: so is what is on the disk. -/
theorem goes_of_files (h : Sound temporary isTarget s) {s' : State N W β} (hdir : s'.dir = s.dir)
    (hfiles : ∀ name file, isTarget name → s.dir.Links name file →
      s'.files file = s.files file) : Goes isTarget s s' [] := by
  refine ⟨fun name hname => ?_, ?_⟩
  · unfold State.stored
    rw [hdir]
    cases hlookup : s.dir.durable.lookup name with
    | none => rfl
    | some file =>
      exact congrArg (fun f : File β => some f.data) (hfiles name file hname (.inl hlookup))
  · unfold State.ended
    rw [hdir, List.append_nil]
    refine List.filterMap_congr fun c hc => ?_
    cases c with
    | link _ _ => rfl
    | move source name file =>
      have hlink : s.dir.Links name file := .inr ⟨_, hc, rfl⟩
      have hsame := hfiles name file (h.dir.proper _ hc).2 hlink
      exact congrArg (fun f : File β => some (name, f.data)) hsame

omit [DecidableEq W] in
/-- What a reader finds is what is on the disk, after the writes that ended since. -/
theorem read_eq (h : Sound temporary isTarget s) {name : N} (hname : isTarget name) :
    s.read name = replay s.stored s.ended name := by
  unfold State.read
  rw [h.dir.live]
  exact read_replayed s.files h.dir.proper s.dir.durable hname

/-- A writer changes the temporary file that it alone fills. -/
theorem refill (h : Sound temporary isTarget s)
    (htarget : ∀ p q, isTarget p → isTarget q → temporary q ≠ p) {w : W} {path : N} {file : ℕ}
    (hpath : isTarget path) (hfile : s.dir.names.lookup (temporary path) = some file)
    (hfree : ∀ other ≠ w, ∀ path', (s.stages other).target = some path' →
      temporary path' ≠ temporary path) {f : File β} (stage : Stage N β)
    (htold : stage.target = some path)
    (hholds : stage.Holds temporary isTarget ((s.setFile file f).setStage w stage)) :
    Sound temporary isTarget ((s.setFile file f).setStage w stage) ∧
      Goes isTarget s ((s.setFile file f).setStage w stage) [] := by
  have hother : ∀ name file', isTarget name → s.dir.Links name file' →
      Function.update s.files file f file' = s.files file' := fun name file' hname hlink =>
    Function.update_of_ne (h.file_ne htarget hpath hfile hname hlink) _ _
  refine ⟨⟨h.dir, fun name file' hname hlink => ?_, fun w' => ?_,
    fun w₁ w₂ path₁ path₂ h₁ h₂ heq => ?_⟩, h.goes_of_files rfl hother⟩
  · show (Function.update s.files file f file').synced = true
    rw [hother name file' hname hlink]
    exact h.synced name file' hname hlink
  · show ((Function.update s.stages w stage) w').Holds _ _ _
    by_cases hw : w' = w
    · subst hw
      rw [Function.update_self]
      exact hholds
    · rw [Function.update_of_ne hw]
      refine (h.stages w').frame fun path' file' htold' _ hfile' => ⟨hfile', ?_⟩
      refine Function.update_of_ne (fun heq => hfree w' hw path' htold' ?_) _ _
      exact h.dir.unique hfile' (heq ▸ hfile)
  · -- only the writer itself has the temporary file
    have hstages : ∀ w' path', (Function.update s.stages w stage w').target = some path' →
        w' = w ∧ path' = path ∨ w' ≠ w ∧ (s.stages w').target = some path' := by
      intro w' path' htarget'
      by_cases hw : w' = w
      · subst hw
        rw [Function.update_self, htold] at htarget'
        exact .inl ⟨rfl, (Option.some.inj htarget').symm⟩
      · rw [Function.update_of_ne hw] at htarget'
        exact .inr ⟨hw, htarget'⟩
    rcases hstages w₁ path₁ h₁ with ⟨rfl, rfl⟩ | ⟨hne₁, hold₁⟩
    · rcases hstages w₂ path₂ h₂ with ⟨rfl, -⟩ | ⟨hne₂, hold₂⟩
      · rfl
      · exact absurd heq.symm (hfree w₂ hne₂ path₂ hold₂)
    · rcases hstages w₂ path₂ h₂ with ⟨rfl, rfl⟩ | ⟨hne₂, hold₂⟩
      · exact absurd heq (hfree w₁ hne₁ path₁ hold₁)
      · exact h.apart w₁ w₂ path₁ path₂ hold₁ hold₂ heq

omit [DecidableEq W] in
/-- Creating the temporary file leaves all else. -/
theorem open_ (h : Sound temporary isTarget s)
    (htarget : ∀ p q, isTarget p → isTarget q → temporary q ≠ p) {path : N}
    (hpath : isTarget path) (hfree : ∀ w path', (s.stages w).target = some path' →
      temporary path' ≠ temporary path) :
    Sound temporary isTarget (s.openFile (temporary path)).2 ∧
      (s.openFile (temporary path)).2.dir.names.lookup (temporary path) =
        some (s.openFile (temporary path)).1 ∧
      (s.openFile (temporary path)).2.stages = s.stages ∧
      Goes isTarget s (s.openFile (temporary path)).2 [] := by
  have htmp : ¬ isTarget (temporary path) := fun htmp => htarget _ path htmp hpath rfl
  unfold State.openFile
  cases hlookup : s.dir.names.lookup (temporary path) with
  | some file => exact ⟨h, hlookup, rfl, Goes.refl s⟩
  | none =>
    refine ⟨⟨h.dir.create htmp, fun name file hname hlink => ?_, fun w => ?_, h.apart⟩,
      Finmap.lookup_insert _, rfl, fun _ _ => rfl, ?_⟩
    · rcases Directory.links_create.mp hlink with hold | hnew
      · exact h.synced name file hname hold
      · exact absurd ((Prod.mk.inj hnew).1 ▸ hname) htmp
    · refine (h.stages w).frame fun path' file htold _ hfile => ⟨?_, rfl⟩
      change (s.dir.names.insert (temporary path) s.dir.next).lookup (temporary path') = some file
      rw [lookup_insert_ite, if_neg (hfree w path' htold)]
      exact hfile
    · unfold State.ended
      exact List.filterMap_append

/-- A writer that ends leaves the files. -/
theorem idle (h : Sound temporary isTarget s) (w : W) :
    Sound temporary isTarget (s.setStage w .idle) := by
  have hstages : ∀ w', (Function.update s.stages w .idle) w' = .idle ∨
      (Function.update s.stages w .idle) w' = s.stages w' := by
    intro w'
    by_cases hw : w' = w
    · subst hw
      exact .inl (Function.update_self _ _ _)
    · exact .inr (Function.update_of_ne hw _ _)
  refine ⟨h.dir, h.synced, fun w' => ?_, fun w₁ w₂ path₁ path₂ h₁ h₂ heq => ?_⟩
  · show ((Function.update s.stages w .idle) w').Holds _ _ _
    rcases hstages w' with hidle | hsame
    · rw [hidle]
      trivial
    · rw [hsame]
      exact h.stages w'
  · have hsame : ∀ w' path', ((Function.update s.stages w .idle) w').target = some path' →
        (s.stages w').target = some path' := by
      intro w' path' htarget'
      rcases hstages w' with hidle | hsame
      · rw [hidle] at htarget'
        cases htarget'
      · rw [hsame] at htarget'
        exact htarget'
    exact h.apart w₁ w₂ path₁ path₂ (hsame w₁ path₁ h₁) (hsame w₂ path₂ h₂) heq

omit [DecidableEq W] in
/-- The other writers fill other temporary files. -/
theorem others (h : Sound temporary isTarget s) {w : W} {path : N} {stage : Stage N β}
    (hw : s.stages w = stage) (htold : stage.target = some path) :
    ∀ other ≠ w, ∀ path', (s.stages other).target = some path' →
      temporary path' ≠ temporary path := by
  intro other hother path' htold' heq
  exact hother (h.apart other w path' path htold' (hw ▸ htold) heq)

/-- The temporary file of a writer that is done takes its name. -/
theorem rename (h : Sound temporary isTarget s)
    (htarget : ∀ p q, isTarget p → isTarget q → temporary q ≠ p) {w : W} {path : N}
    {bytes : List β} {file : ℕ} (hw : s.stages w = .synced path bytes file) :
    Sound temporary isTarget ((s.renameFile (temporary path) path).setStage w .idle) ∧
      Goes isTarget s ((s.renameFile (temporary path) path).setStage w .idle) [(path, bytes)] := by
  have hholds := h.stages w
  rw [hw] at hholds
  obtain ⟨hpath, hfile, hbytes⟩ := hholds
  have hrenamed : s.renameFile (temporary path) path =
      { s with dir := s.dir.rename (temporary path) path file } := by
    unfold State.renameFile
    rw [hfile]
  have htmp : ¬ isTarget (temporary path) := fun htmp => htarget _ path htmp hpath rfl
  have hidle := h.idle w
  rw [hrenamed]
  refine ⟨⟨h.dir.rename htmp hpath hfile, fun name file' hname hlink => ?_, fun w' => ?_,
    hidle.apart⟩, fun _ _ => rfl, ?_⟩
  · rcases Directory.links_rename.mp hlink with hold | hnew
    · exact h.synced name file' hname hold
    · rw [← (Prod.mk.inj hnew).2]
      exact congrArg File.synced hbytes
  · refine (hidle.stages w').frame fun path' file' htold hpath' hfile' => ⟨?_, rfl⟩
    have hne : temporary path' ≠ temporary path := by
      intro heq
      change ((Function.update s.stages w .idle) w').target = _ at htold
      by_cases hww : w' = w
      · rw [hww, Function.update_self] at htold
        cases htold
      · rw [Function.update_of_ne hww] at htold
        exact h.others hw rfl w' hww path' htold heq
    change ((s.dir.names.erase (temporary path)).insert path file).lookup (temporary path') =
      some file'
    rw [lookup_insert_ite, lookup_erase_ite, if_neg (htarget path path' hpath hpath'), if_neg hne]
    exact hfile'
  · refine List.filterMap_append.trans (congrArg (s.ended ++ ·) ?_)
    show [(path, (s.files file).data)] = [(path, bytes)]
    rw [hbytes]

/-! ### One step -/

/-- A writer creates its temporary file. -/
theorem create_step (h : Sound temporary isTarget s)
    (htarget : ∀ p q, isTarget p → isTarget q → temporary q ≠ p) {w : W} {path : N}
    {bytes : List β} (hapart : Apart temporary isTarget s (.create w path bytes)) :
    Sound temporary isTarget (s.step temporary fill (.create w path bytes)) ∧
      Goes isTarget s (s.step temporary fill (.create w path bytes)) [] := by
  unfold State.step
  dsimp only
  cases hw : s.stages w with
  | idle =>
    obtain ⟨hpath, hother⟩ := hapart
    have hfree : ∀ w' path', (s.stages w').target = some path' →
        temporary path' ≠ temporary path := by
      intro w' path' htold
      by_cases hww : w' = w
      · rw [hww, hw] at htold
        cases htold
      · exact hother w' hww path' htold
    obtain ⟨hopen, hfile, hstages, hgoes⟩ := h.open_ htarget hpath hfree
    have hfill := hopen.refill htarget (w := w) (f := ⟨[], false⟩) hpath hfile
      (fun other hne path' htold => hother other hne path' (hstages ▸ htold))
      (.writing path bytes (s.openFile (temporary path)).1 0) rfl
      ⟨hpath, hfile, Nat.zero_le _, congrArg File.data (State.files_setFile _ _ _)⟩
    exact ⟨hfill.1, hgoes.trans hfill.2⟩
  | _ => exact ⟨h, Goes.refl s⟩

/-- A writer writes the next bytes. -/
theorem write_step (h : Sound temporary isTarget s)
    (htarget : ∀ p q, isTarget p → isTarget q → temporary q ≠ p) (w : W) (n : ℕ) :
    Sound temporary isTarget (s.step temporary fill (.write w n)) ∧
      Goes isTarget s (s.step temporary fill (.write w n)) [] := by
  unfold State.step
  dsimp only
  cases hw : s.stages w with
  | writing path bytes file written =>
    have hholds := h.stages w
    rw [hw] at hholds
    obtain ⟨hpath, hfile, hle, hdata⟩ := hholds
    have hlength : ((bytes.drop written).take n).length ≤ bytes.length - written := by
      rw [List.length_take, List.length_drop]
      exact Nat.min_le_right _ _
    refine h.refill htarget hpath hfile (h.others hw rfl) _ rfl ⟨hpath, hfile, by omega, ?_⟩
    refine (congrArg File.data (s.files_setFile file _)).trans ?_
    rw [hdata]
    exact overwrite_take fill bytes hle n
  | _ => exact ⟨h, Goes.refl s⟩

/-- A writer that has written all waits for the disk. -/
theorem sync_step (h : Sound temporary isTarget s)
    (htarget : ∀ p q, isTarget p → isTarget q → temporary q ≠ p) (w : W) :
    Sound temporary isTarget (s.step temporary fill (.sync w)) ∧
      Goes isTarget s (s.step temporary fill (.sync w)) [] := by
  unfold State.step
  dsimp only
  cases hw : s.stages w with
  | writing path bytes file written =>
    have hholds := h.stages w
    rw [hw] at hholds
    obtain ⟨hpath, hfile, hle, hdata⟩ := hholds
    dsimp only
    split
    · rename_i hall
      refine h.refill htarget hpath hfile (h.others hw rfl) _ rfl ⟨hpath, hfile, ?_⟩
      refine (s.files_setFile file _).trans ?_
      rw [hdata, hall, List.take_length]
    · exact ⟨h, Goes.refl s⟩
  | _ => exact ⟨h, Goes.refl s⟩

/-- A writer gives its file the name. -/
theorem rename_step (h : Sound temporary isTarget s)
    (htarget : ∀ p q, isTarget p → isTarget q → temporary q ≠ p) (w : W) :
    Sound temporary isTarget (s.step temporary fill (.rename w)) ∧
      Goes isTarget s (s.step temporary fill (.rename w))
        (s.completes temporary (.rename w)).toList := by
  unfold State.step State.completes
  dsimp only
  cases hw : s.stages w with
  | synced path bytes file =>
    have hholds := h.stages w
    rw [hw] at hholds
    dsimp only
    rw [hholds.2.1]
    exact h.rename htarget hw
  | _ => exact ⟨h, Goes.refl s⟩

variable (fill) in
/-- After a crash names are those on the disk after some of the writes that
ended. -/
theorem crash_step (h : Sound temporary isTarget s) (lost : ℕ → List β) (kept : ℕ → Bool) :
    Sound temporary isTarget (s.step temporary fill (.crash lost kept)) ∧
      (s.step temporary fill (.crash lost kept)).ended = [] ∧
      ∃ left : List (N × List β), left.Sublist s.ended ∧ ∀ name, isTarget name →
        (s.step temporary fill (.crash lost kept)).stored name = replay s.stored left name := by
  have hfiles : ∀ name file, isTarget name → s.dir.Links name file →
      (if (s.files file).synced then s.files file else (⟨lost file, true⟩ : File β)) =
        s.files file := by
    intro name file hname hlink
    rw [if_pos (h.synced name file hname hlink)]
  have hsound : Sound temporary isTarget (s.step temporary fill (.crash lost kept)) := by
    refine ⟨h.dir.crash kept, fun name file hname hlink => ?_, fun _ => trivial,
      fun _ _ _ _ hnone => by cases hnone⟩
    have hold := Directory.links_of_crash hlink
    show (if (s.files file).synced then s.files file else (⟨lost file, true⟩ : File β)).synced =
      true
    rw [hfiles name file hname hold]
    exact h.synced name file hname hold
  have hleft := survivors_sublist kept s.dir.changes
  refine ⟨hsound, rfl, (survivors kept s.dir.changes).filterMap (changeWrite s.files),
    hleft.filterMap _, fun name hname => ?_⟩
  refine Eq.trans ?_ (read_replayed s.files (fun c hc => h.dir.proper c (hleft.subset hc))
    s.dir.durable hname)
  show ((replayed s.dir.durable (survivors kept s.dir.changes)).lookup name).map (fun file =>
    (if (s.files file).synced then s.files file else (⟨lost file, true⟩ : File β)).data) = _
  cases hlookup : (replayed s.dir.durable (survivors kept s.dir.changes)).lookup name with
  | none => rfl
  | some file =>
    exact congrArg (fun f : File β => some f.data)
      (hfiles name file hname (Directory.links_of_replayed hleft hlookup))

variable (fill) in
/-- Every step but a crash keeps what is known, and ends the write that it ends. -/
theorem goes_step (h : Sound temporary isTarget s)
    (htarget : ∀ p q, isTarget p → isTarget q → temporary q ≠ p) (a : Act N W β)
    (hapart : Apart temporary isTarget s a) (hcrash : ¬ a.IsCrash) :
    Sound temporary isTarget (s.step temporary fill a) ∧
      Goes isTarget s (s.step temporary fill a) (s.completes temporary a).toList := by
  cases a with
  | create w path bytes => exact h.create_step htarget hapart
  | write w n => exact h.write_step htarget w n
  | sync w => exact h.sync_step htarget w
  | rename w => exact h.rename_step htarget w
  | abandon w => exact ⟨h.idle w, fun _ _ => rfl, (List.append_nil _).symm⟩
  | crash lost kept => exact absurd trivial hcrash

/-- Every step of writers that are apart keeps what is known. -/
theorem step (h : Sound temporary isTarget s)
    (htarget : ∀ p q, isTarget p → isTarget q → temporary q ≠ p) (a : Act N W β)
    (hapart : Apart temporary isTarget s a) :
    Sound temporary isTarget (s.step temporary fill a) := by
  cases a with
  | crash lost kept => exact (h.crash_step fill lost kept).1
  | _ => exact (h.goes_step fill htarget _ hapart not_false).1

end Sound

/-! ## Runs -/

/-- What is on the disk after a run are some of the writes that ended in it; those
that may be missing are the last ones. -/
theorem stored_run (htarget : ∀ p q, isTarget p → isTarget q → temporary q ≠ p)
    (acts : List (Act N W β)) {s : State N W β} (h : Sound temporary isTarget s)
    (hapart : Along (State.step temporary fill) (Apart temporary isTarget) s acts) :
    Sound temporary isTarget (run (State.step temporary fill) s acts) ∧
      ∃ base : List (N × List β),
        (base ++ (run (State.step temporary fill) s acts).ended).Sublist
          (s.ended ++ completed temporary fill s acts) ∧
        ∀ name, isTarget name →
          (run (State.step temporary fill) s acts).stored name = replay s.stored base name := by
  induction acts generalizing s with
  | nil => exact ⟨h, [], (List.append_nil s.ended).symm ▸ List.Sublist.refl _, fun _ _ => rfl⟩
  | cons a acts ih =>
    obtain ⟨hfinal, base, hbase, hstored⟩ := ih (h.step htarget a hapart.1) hapart.2
    refine ⟨hfinal, ?_⟩
    by_cases hcrash : a.IsCrash
    · cases a with
      | crash lost kept =>
        -- the writes that ended are those that the crash leaves
        obtain ⟨-, hended, left, hleft, hread⟩ :=
          h.crash_step fill lost kept
        refine ⟨left ++ base, ?_, fun name hname => ?_⟩
        · rw [hended, List.nil_append] at hbase
          rw [List.append_assoc]
          exact hleft.append hbase
        · rw [replay_append]
          exact (hstored name hname).trans (replay_congr (hread name hname) base)
      | _ => cases hcrash
    · obtain ⟨-, hgoes⟩ := h.goes_step fill htarget a hapart.1 hcrash
      refine ⟨base, ?_, fun name hname =>
        (hstored name hname).trans (replay_congr (hgoes.stored name hname) base)⟩
      rw [hgoes.ended, List.append_assoc] at hbase
      exact hbase

/-- In a run without a crash every write that ends is found after those before. -/
theorem goes_run (htarget : ∀ p q, isTarget p → isTarget q → temporary q ≠ p)
    (acts : List (Act N W β)) (hcrash : ∀ a ∈ acts, ¬ a.IsCrash) {s : State N W β}
    (h : Sound temporary isTarget s)
    (hapart : Along (State.step temporary fill) (Apart temporary isTarget) s acts) :
    Sound temporary isTarget (run (State.step temporary fill) s acts) ∧
      Goes isTarget s (run (State.step temporary fill) s acts)
        (completed temporary fill s acts) := by
  induction acts generalizing s with
  | nil => exact ⟨h, Goes.refl s⟩
  | cons a acts ih =>
    obtain ⟨ha, hacts⟩ := List.forall_mem_cons.mp hcrash
    obtain ⟨hsound, hgoes⟩ := h.goes_step fill htarget a hapart.1 ha
    obtain ⟨hfinal, hrest⟩ := ih hacts hsound hapart.2
    exact ⟨hfinal, hgoes.trans hrest⟩

/-- Files with some writes. -/
def written (files : FMap N (List β)) (writes : List (N × List β)) : FMap N (List β) :=
  writes.foldl (fun files write => files.insert write.1 write.2) files

omit [DecidableEq W] in
theorem lookup_written (files : FMap N (List β)) (writes : List (N × List β)) (name : N) :
    (written files writes).lookup name = replay (fun name => files.lookup name) writes name := by
  unfold written
  induction writes generalizing files with
  | nil => rfl
  | cons write writes ih =>
    refine (ih _).trans (replay_congr ?_ writes)
    dsimp only
    by_cases hname : name = write.1
    · subst hname
      rw [Function.update_self]
      exact Finmap.lookup_insert _
    · rw [Function.update_of_ne hname]
      exact Finmap.lookup_insert_of_ne _ hname

omit [DecidableEq W] in
/-- What a file holds after writes was there or is one of them. -/
theorem lookup_written_cases {files : FMap N (List β)} {writes : List (N × List β)} {name : N}
    {bytes : List β} (h : (written files writes).lookup name = some bytes) :
    files.lookup name = some bytes ∨ (name, bytes) ∈ writes := by
  unfold written at h
  induction writes generalizing files with
  | nil => exact .inl h
  | cons write writes ih =>
    rcases ih h with hold | hnew
    · rw [lookup_insert_ite] at hold
      split at hold
      · rename_i hname
        rw [hname, ← Option.some.inj hold]
        exact .inr List.mem_cons_self
      · exact .inl hold
    · exact .inr (List.mem_cons_of_mem _ hnew)

/-- After every run of writers that are apart the files that are not temporary
are those with some of the writes that ended up to the last crash, and all that
ended after it. -/
theorem contents_run (htarget : ∀ p q, isTarget p → isTarget q → temporary q ≠ p)
    (early late : List (Act N W β)) (hlate : ∀ a ∈ late, ¬ a.IsCrash) {s : State N W β}
    (h : Sound temporary isTarget s) (hrest : s.dir.changes = [])
    (hapart : Along (State.step temporary fill) (Apart temporary isTarget) s (early ++ late)) :
    ∃ kept : List (N × List β), kept.Sublist (completed temporary fill s early) ∧
      ∀ name, isTarget name →
        (run (State.step temporary fill) s (early ++ late)).contents.lookup name =
          (written s.contents (kept ++ completed temporary fill
            (run (State.step temporary fill) s early) late)).lookup name := by
  obtain ⟨hearly, hafter⟩ := along_append.mp hapart
  obtain ⟨hsound, base, hbase, hstored⟩ := stored_run htarget early h hearly
  obtain ⟨hfinal, hgoes⟩ := goes_run htarget late hlate hsound hafter
  have hnone : s.ended = [] := by
    unfold State.ended
    rw [hrest]
    rfl
  rw [hnone, List.nil_append] at hbase
  refine ⟨_, hbase, fun name hname => ?_⟩
  have hstart : ∀ name, isTarget name → s.read name = s.stored name := fun name hname => by
    rw [h.read_eq hname, hnone]
    rfl
  rw [run_append, State.lookup_contents, lookup_written, hfinal.read_eq hname, hgoes.ended]
  calc replay (run (State.step temporary fill) (run (State.step temporary fill) s early)
          late).stored ((run (State.step temporary fill) s early).ended ++
            completed temporary fill (run (State.step temporary fill) s early) late) name
      = replay (replay s.stored base) ((run (State.step temporary fill) s early).ended ++
          completed temporary fill (run (State.step temporary fill) s early) late) name :=
        replay_congr ((hgoes.stored name hname).trans (hstored name hname)) _
    _ = replay s.stored ((base ++ (run (State.step temporary fill) s early).ended) ++
          completed temporary fill (run (State.step temporary fill) s early) late) name := by
        rw [List.append_assoc, replay_append s.stored base]
    _ = replay (fun name => s.contents.lookup name)
          ((base ++ (run (State.step temporary fill) s early).ended) ++
            completed temporary fill (run (State.step temporary fill) s early) late) name :=
        replay_congr ((hstart name hname).symm.trans (s.lookup_contents name).symm) _

/-- The writes that end in a run end in its parts. -/
theorem completed_append (s : State N W β) (early late : List (Act N W β)) :
    completed temporary fill s (early ++ late) = completed temporary fill s early ++
      completed temporary fill (run (State.step temporary fill) s early) late := by
  induction early generalizing s with
  | nil => rfl
  | cons a early ih =>
    have hlater := ih (s.step temporary fill a)
    exact (congrArg ((s.completes temporary a).toList ++ ·) hlater).trans
      (List.append_assoc _ _ _).symm

/-- A writer has the write that it has begun. -/
theorem write_step {s : State N W β} {a : Act N W β} {w : W} {write : N × List β}
    (h : ((s.step temporary fill a).stages w).write = some write) :
    (s.stages w).write = some write ∨ a = .create w write.1 write.2 := by
  -- a step gives a stage to one writer at most
  have hset : ∀ (s' : State N W β) (w' : W) (stage : Stage N β), s'.stages = s.stages →
      ((s'.setStage w' stage).stages w).write = some write →
      (s.stages w).write = some write ∨ w = w' ∧ stage.write = some write := by
    intro s' w' stage hsame hwrite
    change ((Function.update s'.stages w' stage) w).write = some write at hwrite
    by_cases hw : w = w'
    · subst hw
      rw [Function.update_self] at hwrite
      exact .inr ⟨rfl, hwrite⟩
    · rw [Function.update_of_ne hw, hsame] at hwrite
      exact .inl hwrite
  cases a with
  | create w' path bytes =>
    unfold State.step at h
    dsimp only at h
    split at h
    · have hopen : (s.openFile (temporary path)).2.stages = s.stages := by
        unfold State.openFile
        split <;> rfl
      rcases hset _ w' _ hopen h with hold | ⟨rfl, hnew⟩
      · exact .inl hold
      · cases hnew
        exact .inr rfl
    · exact .inl h
  | write w' n =>
    unfold State.step at h
    dsimp only at h
    split at h
    · rename_i path bytes file written hw'
      rcases hset _ w' _ rfl h with hold | ⟨rfl, hnew⟩
      · exact .inl hold
      · rw [hw']
        exact .inl hnew
    · exact .inl h
  | sync w' =>
    unfold State.step at h
    dsimp only at h
    split at h
    · rename_i path bytes file written hw'
      split at h
      · rcases hset _ w' _ rfl h with hold | ⟨rfl, hnew⟩
        · exact .inl hold
        · rw [hw']
          exact .inl hnew
      · exact .inl h
    · exact .inl h
  | rename w' =>
    unfold State.step at h
    dsimp only at h
    split at h
    · have hrenamed : ∀ source name, (s.renameFile source name).stages = s.stages := by
        intro source name
        unfold State.renameFile
        split <;> rfl
      rcases hset _ w' _ (hrenamed _ _) h with hold | ⟨rfl, hnew⟩
      · exact .inl hold
      · cases hnew
    · exact .inl h
  | abandon w' =>
    rcases hset s w' .idle rfl h with hold | ⟨rfl, hnew⟩
    · exact .inl hold
    · cases hnew
  | crash lost kept => cases h

omit [DecidableEq W] in
/-- A write that ends is that of its writer. -/
theorem write_of_completes {s : State N W β} {a : Act N W β} {write : N × List β}
    (h : s.completes temporary a = some write) : ∃ w, (s.stages w).write = some write := by
  unfold State.completes at h
  split at h
  · rename_i w
    split at h
    · rename_i path bytes file hw
      obtain ⟨-, -, rfl⟩ := Option.map_eq_some_iff.mp h
      exact ⟨w, by rw [hw]; rfl⟩
    · cases h
  · cases h

/-- Every write that ends in a run was begun in it, by writers that did
nothing before. -/
theorem begun_of_completed (acts : List (Act N W β)) {s : State N W β} {write : N × List β}
    (h : write ∈ completed temporary fill s acts) :
    (∃ w, (s.stages w).write = some write) ∨ ∃ w, Act.create w write.1 write.2 ∈ acts := by
  induction acts generalizing s with
  | nil => cases h
  | cons a acts ih =>
    rcases List.mem_append.mp h with hnow | hlater
    · exact .inl (write_of_completes (Option.mem_toList.mp hnow))
    · rcases ih hlater with ⟨w, hw⟩ | ⟨w, hw⟩
      · rcases write_step hw with hold | rfl
        · exact .inl ⟨w, hold⟩
        · exact .inr ⟨w, List.mem_cons_self⟩
      · exact .inr ⟨w, List.mem_cons_of_mem _ hw⟩

/-- Every write that ends is for a file that is no temporary one. -/
theorem target_of_completed (htarget : ∀ p q, isTarget p → isTarget q → temporary q ≠ p)
    (acts : List (Act N W β)) {s : State N W β} (h : Sound temporary isTarget s)
    (hapart : Along (State.step temporary fill) (Apart temporary isTarget) s acts)
    {write : N × List β} (hwrite : write ∈ completed temporary fill s acts) :
    isTarget write.1 := by
  induction acts generalizing s with
  | nil => cases hwrite
  | cons a acts ih =>
    rcases List.mem_append.mp hwrite with hnow | hlater
    · have hends := Option.mem_toList.mp hnow
      unfold State.completes at hends
      split at hends
      · rename_i w
        split at hends
        · rename_i path bytes file hw
          obtain ⟨-, -, rfl⟩ := Option.map_eq_some_iff.mp hends
          have hholds := h.stages w
          rw [hw] at hholds
          exact hholds.1
        · cases hends
      · cases hends
    · exact ih (h.step htarget a hapart.1) hapart.2 hlater

/-- Names are those at the start, those of writes and temporary ones. -/
theorem names_run {P : N → Prop} (hP : ∀ p, isTarget p → P p ∧ P (temporary p))
    (htarget : ∀ p q, isTarget p → isTarget q → temporary q ≠ p) (acts : List (Act N W β))
    {s : State N W β} (h : Sound temporary isTarget s)
    (hapart : Along (State.step temporary fill) (Apart temporary isTarget) s acts)
    (hnames : ∀ name file, s.dir.Links name file → P name) {name : N} {file : ℕ}
    (hname : (run (State.step temporary fill) s acts).dir.Links name file) : P name := by
  induction acts generalizing s with
  | nil => exact hnames name file hname
  | cons a acts ih =>
    refine ih (h.step htarget a hapart.1) hapart.2 (fun name file hin => ?_) hname
    cases a with
    | create w path bytes =>
      unfold State.step at hin
      dsimp only at hin
      split at hin
      · change (s.openFile (temporary path)).2.dir.Links name file at hin
        unfold State.openFile at hin
        split at hin
        · exact hnames name file hin
        · rcases Directory.links_create.mp hin with hold | hnew
          · exact hnames name file hold
          · exact (Prod.mk.inj hnew).1 ▸ (hP path hapart.1.1).2
      · exact hnames name file hin
    | write w n =>
      unfold State.step at hin
      dsimp only at hin
      split at hin <;> exact hnames name file hin
    | sync w =>
      unfold State.step at hin
      dsimp only at hin
      split at hin
      · split at hin <;> exact hnames name file hin
      · exact hnames name file hin
    | rename w =>
      unfold State.step at hin
      dsimp only at hin
      split at hin
      · rename_i path bytes found hw
        have hholds := h.stages w
        rw [hw] at hholds
        change (s.renameFile (temporary path) path).dir.Links name file at hin
        unfold State.renameFile at hin
        split at hin
        · exact hnames name file hin
        · rcases Directory.links_rename.mp hin with hold | hnew
          · exact hnames name file hold
          · exact (Prod.mk.inj hnew).1 ▸ (hP path hholds.1).1
      · exact hnames name file hin
    | abandon w => exact hnames name file hin
    | crash lost kept => exact hnames name file (Directory.links_of_crash hin)

/-- A system at rest: every name has its own file, all is on the disk. -/
def State.rest (names : FMap N ℕ) (files : ℕ → List β) (next : ℕ) : State N W β where
  dir := ⟨names, names, [], next⟩
  files file := ⟨files file, true⟩
  stages _ := .idle

omit [DecidableEq W] in
theorem sound_rest {names : FMap N ℕ} (hsingle : Single names) {next : ℕ}
    (hnext : ∀ name file, names.lookup name = some file → file < next) (files : ℕ → List β) :
    Sound temporary isTarget (State.rest names files next : State N W β) where
  dir := Directory.sound_start hsingle hnext
  synced _ _ _ _ := rfl
  stages _ := trivial
  apart _ _ _ _ h := by cases h

end Invariant

end Tyo3.AtomicFiles
