import Tyo3.Entities
import Tyo3.FiniteMaps
import Tyo3.Runs

/-!
# The cached head snapshot

Reads of a session go through one head snapshot that is kept until the next
write drops it. A reader tests the cache, pins a snapshot and stores it; a
writer commits and then drops the cache. Nothing locks these steps together,
so readers and writers interleave in any order. A snapshot is known by the
revision it is pinned at.
-/

namespace Tyo3.HeadSnapshotCache

open Entities FiniteMaps Runs

/-- Where a read stands. -/
inductive Reading
  /-- The cache was found empty; a snapshot is to be pinned. -/
  | missed
  /-- A snapshot is pinned and to be stored. -/
  | pinned (revision : Revision)
  /-- The cache is to be returned. -/
  | returning
  deriving DecidableEq

/-- The snapshot a read is about to store. -/
def Reading.snapshot : Reading → Option Revision
  | .pinned revision => some revision
  | .missed | .returning => none

/-- A session with the reads and writes under way. -/
structure Session where
  /-- The head revision. -/
  head : Revision
  /-- Revision of the cached snapshot. -/
  headSnap : Option Revision
  /-- The reads under way. -/
  readers : FMap ℕ Reading
  /-- The writers that have committed and not yet dropped the cache. -/
  writers : Finset ℕ
  /-- What the finished reads returned, the latest last. -/
  returned : List (Option Revision)
  deriving DecidableEq

/-- The next atomic step of some thread. -/
inductive SessionStep
  /-- A read tests the cache. -/
  | test (reader : ℕ)
  /-- A read pins a snapshot of the head. -/
  | pin (reader : ℕ)
  /-- A read stores its snapshot. -/
  | store (reader : ℕ)
  /-- A read returns the cache. -/
  | finish (reader : ℕ)
  /-- A writer commits a revision. -/
  | commit (writer : ℕ)
  /-- A writer drops the cache. -/
  | invalidate (writer : ℕ)

/-- A session before any read or write. -/
def Session.opened (head : Revision) : Session := ⟨head, none, ∅, ∅, []⟩

/-- One atomic step. A thread takes its steps in their order only. -/
def sessionStep (s : Session) : SessionStep → Session
  | .test reader =>
    match s.readers.lookup reader with
    | none =>
      let reading : Reading := if s.headSnap = none then .missed else .returning
      { s with readers := s.readers.insert reader reading }
    | some _ => s
  | .pin reader =>
    match s.readers.lookup reader with
    | some .missed => { s with readers := s.readers.insert reader (.pinned s.head) }
    | _ => s
  | .store reader =>
    match s.readers.lookup reader with
    | some (.pinned revision) =>
      { s with headSnap := some revision, readers := s.readers.insert reader .returning }
    | _ => s
  | .finish reader =>
    match s.readers.lookup reader with
    | some .returning =>
      { s with readers := s.readers.erase reader, returned := s.returned ++ [s.headSnap] }
    | _ => s
  | .commit writer =>
    if writer ∈ s.writers then s
    else { s with head := s.head + 1, writers := insert writer s.writers }
  | .invalidate writer =>
    if writer ∈ s.writers then { s with headSnap := none, writers := s.writers.erase writer }
    else s

/-- No read and no write is under way. -/
def Session.AtRest (s : Session) : Prop := s.readers = ∅ ∧ s.writers = ∅

/-- The cached snapshot is absent or pinned at the head. -/
def Session.Fresh (s : Session) : Prop := s.headSnap = none ∨ s.headSnap = some s.head

/-- A snapshot is stored while it is pinned at the head, or while a writer has
yet to drop the cache. -/
def StoresInTime (s : Session) : SessionStep → Prop
  | .store reader =>
    ∀ revision ∈ (s.readers.lookup reader).bind Reading.snapshot,
      revision = s.head ∨ s.writers ≠ ∅
  | _ => True

instance (s : Session) : ∀ step, Decidable (StoresInTime s step)
  | .store reader => inferInstanceAs (Decidable (∀ revision ∈
      (s.readers.lookup reader).bind Reading.snapshot, revision = s.head ∨ s.writers ≠ ∅))
  | .test _ | .pin _ | .finish _ | .commit _ | .invalidate _ => isTrue trivial

/-- The cache is fresh or is about to be dropped. -/
def Session.Tended (s : Session) : Prop := s.Fresh ∨ s.writers ≠ ∅

theorem tended_opened (head : Revision) : (Session.opened head).Tended := Or.inl (Or.inl rfl)

/-- Every step keeps the cache tended, a store as long as it is in time. -/
theorem tended_sessionStep (s : Session) (step : SessionStep) (hs : s.Tended)
    (hstep : StoresInTime s step) : (sessionStep s step).Tended := by
  cases step with
  | test reader =>
    simp only [sessionStep]
    split <;> exact hs
  | pin reader =>
    simp only [sessionStep]
    split <;> exact hs
  | store reader =>
    simp only [sessionStep]
    split
    · rename_i revision hpinned
      have hsnapshot : revision ∈ (s.readers.lookup reader).bind Reading.snapshot := by
        rw [hpinned]
        rfl
      rcases hstep revision hsnapshot with hhead | hwriters
      · exact Or.inl (Or.inr (congrArg some hhead))
      · exact Or.inr hwriters
    · exact hs
  | finish reader =>
    simp only [sessionStep]
    split <;> exact hs
  | commit writer =>
    by_cases hmem : writer ∈ s.writers
    · rw [sessionStep, if_pos hmem]
      exact hs
    · rw [sessionStep, if_neg hmem]
      exact Or.inr (Finset.insert_ne_empty _ _)
  | invalidate writer =>
    by_cases hmem : writer ∈ s.writers
    · rw [sessionStep, if_pos hmem]
      exact Or.inl (Or.inl rfl)
    · rw [sessionStep, if_neg hmem]
      exact hs

/-- The steps of one read without interruption. -/
def readAlone (reader : ℕ) : List SessionStep :=
  [.test reader, .pin reader, .store reader, .finish reader]

/-- A read that runs alone at a fresh cache returns a snapshot of the head. -/
theorem returned_readAlone {s : Session} (hrest : s.AtRest) (hfresh : s.Fresh) (reader : ℕ) :
    (run sessionStep s (readAlone reader)).returned = s.returned ++ [some s.head] := by
  have hidle : s.readers.lookup reader = none := by
    rw [hrest.1]
    exact Finmap.lookup_empty reader
  rcases hfresh with hnone | hhead
  · simp [readAlone, run, sessionStep, hidle, hnone]
  · simp [readAlone, run, sessionStep, hidle, hhead]

/-- When every snapshot is stored in time, the cache is never stale at rest,
and a read that starts at rest returns a snapshot of the head. -/
theorem head_snapshot_fresh_at_rest (head : Revision) (steps : List SessionStep)
    (htime : Along sessionStep StoresInTime (Session.opened head) steps) :
    let s := run sessionStep (Session.opened head) steps
    s.AtRest → s.Fresh ∧
      ∀ reader, (run sessionStep s (readAlone reader)).returned = s.returned ++ [some s.head] := by
  intro s hrest
  have htended : s.Tended := invariant_run tended_sessionStep (tended_opened head) htime
  have hfresh : s.Fresh := htended.resolve_right fun hwriters => hwriters hrest.2
  exact ⟨hfresh, returned_readAlone hrest hfresh⟩

/-- A read and then a write, one after the other. -/
theorem head_snapshot_fresh_after_write :
    let s := run sessionStep (Session.opened 1)
      [.test 0, .pin 0, .store 0, .finish 0, .commit 0, .invalidate 0]
    s.returned = [some 1] ∧
      (run sessionStep s (readAlone 0)).returned = [some 1, some 2] := by
  intro s
  have hrest : s.AtRest := ⟨by decide, by decide⟩
  have hread := (head_snapshot_fresh_at_rest 1 _ (by decide) hrest).2 0
  exact ⟨by decide, hread.trans (by decide)⟩

/-- A write between a read's pinning and storing leaves the old snapshot in the
cache, and the next read returns it. -/
theorem head_snapshot_stale_at_rest :
    let s := run sessionStep (Session.opened 1)
      [.test 0, .pin 0, .commit 0, .invalidate 0, .store 0, .finish 0]
    s.AtRest ∧ ¬ s.Fresh ∧ s.head = 2 ∧
      (run sessionStep s (readAlone 0)).returned = [some 1, some 1] := by
  intro s
  have hrest : s.AtRest := ⟨by decide, by decide⟩
  have hstale : ¬ s.Fresh := by
    unfold Session.Fresh
    decide
  exact ⟨hrest, hstale, by decide, by decide⟩

end Tyo3.HeadSnapshotCache
