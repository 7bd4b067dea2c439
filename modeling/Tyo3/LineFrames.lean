import Mathlib.Data.List.Basic

/-!
# Lines of a stream

A stream of symbols is cut at a separator. What follows the last separator is
kept until more of the stream arrives. The lines that come out, and what is
kept, do not depend on the pieces in which the stream arrives, and a stream of
terminated lines gives these lines back. Nothing here names a program.
-/

namespace Tyo3.LineFrames

variable {α : Type*} [DecidableEq α]

/-- The part before the first separator and the part behind it. -/
def cut (sep : α) : List α → Option (List α × List α)
  | [] => none
  | x :: xs => if x = sep then some ([], xs) else (cut sep xs).map fun p => (x :: p.1, p.2)

/-- The terminated lines and the rest. -/
def split (sep : α) : List α → List (List α) × List α
  | [] => ([], [])
  | x :: xs =>
    if x = sep then ([] :: (split sep xs).1, (split sep xs).2)
    else match (split sep xs).1 with
      | [] => ([], x :: (split sep xs).2)
      | line :: lines => ((x :: line) :: lines, (split sep xs).2)

/-- A loop that takes line after line from a buffer. -/
def drain (sep : α) : ℕ → List α → List (List α) × List α
  | 0, buffer => ([], buffer)
  | fuel + 1, buffer =>
    match cut sep buffer with
    | none => ([], buffer)
    | some (line, rest) => (line :: (drain sep fuel rest).1, (drain sep fuel rest).2)

variable {sep : α}

omit [DecidableEq α] in
theorem not_mem_cons_iff {x : α} {xs : List α} : sep ∉ x :: xs ↔ sep ≠ x ∧ sep ∉ xs := by
  rw [List.mem_cons, not_or]

/-- The rest of a stream that has no separator is the stream. -/
theorem split_of_not_mem {xs : List α} (h : sep ∉ xs) : split sep xs = ([], xs) := by
  induction xs with
  | nil => rfl
  | cons x xs ih =>
    obtain ⟨hx, hxs⟩ := not_mem_cons_iff.mp h
    unfold split
    rw [ih hxs, if_neg (Ne.symm hx)]

/-- The first line is what stands before the first separator. -/
theorem split_line {line : List α} (h : sep ∉ line) (rest : List α) :
    split sep (line ++ sep :: rest) = (line :: (split sep rest).1, (split sep rest).2) := by
  induction line with
  | nil =>
    rw [List.nil_append, split, if_pos rfl]
  | cons x line ih =>
    obtain ⟨hx, hline⟩ := not_mem_cons_iff.mp h
    rw [List.cons_append, split, ih hline, if_neg (Ne.symm hx)]

theorem cut_eq_none_iff {xs : List α} : cut sep xs = none ↔ sep ∉ xs := by
  induction xs with
  | nil => simp [cut]
  | cons x xs ih =>
    unfold cut
    by_cases hx : x = sep
    · rw [if_pos hx]
      simp [hx]
    · rw [if_neg hx, Option.map_eq_none_iff, ih, List.mem_cons, not_or]
      exact (and_iff_right (Ne.symm hx)).symm

theorem cut_eq_some {xs line rest : List α} (h : cut sep xs = some (line, rest)) :
    xs = line ++ sep :: rest ∧ sep ∉ line := by
  induction xs generalizing line with
  | nil => cases h
  | cons x xs ih =>
    unfold cut at h
    by_cases hx : x = sep
    · rw [if_pos hx] at h
      cases h
      exact ⟨by rw [hx, List.nil_append], List.not_mem_nil⟩
    · rw [if_neg hx] at h
      obtain ⟨p, hp, heq⟩ := Option.map_eq_some_iff.mp h
      cases heq
      obtain ⟨hxs, hfree⟩ := ih hp
      exact ⟨by rw [hxs, List.cons_append], not_mem_cons_iff.mpr ⟨Ne.symm hx, hfree⟩⟩

/-- With enough fuel the loop takes all lines. -/
theorem drain_eq_split {fuel : ℕ} {buffer : List α} (h : buffer.length ≤ fuel) :
    drain sep fuel buffer = split sep buffer := by
  induction fuel generalizing buffer with
  | zero =>
    rw [List.length_eq_zero_iff.mp (Nat.le_zero.mp h)]
    rfl
  | succ fuel ih =>
    unfold drain
    cases hcut : cut sep buffer with
    | none => exact (split_of_not_mem (cut_eq_none_iff.mp hcut)).symm
    | some p =>
      obtain ⟨hbuffer, hfree⟩ := cut_eq_some hcut
      have hshorter : p.2.length ≤ fuel := by
        rw [hbuffer, List.length_append, List.length_cons] at h
        omega
      dsimp only
      rw [ih hshorter, hbuffer, split_line hfree]

/-- More of a stream continues what was kept. -/
theorem split_append (xs ys : List α) :
    split sep (xs ++ ys) = ((split sep xs).1 ++ (split sep ((split sep xs).2 ++ ys)).1,
      (split sep ((split sep xs).2 ++ ys)).2) := by
  induction xs with
  | nil => rfl
  | cons x xs ih =>
    rw [List.cons_append, split, ih]
    by_cases hx : x = sep
    · rw [if_pos hx, split, if_pos hx]
      rfl
    · rw [if_neg hx, split, if_neg hx]
      cases hlines : (split sep xs).1 with
      | nil =>
        -- the open line goes on with the kept part
        dsimp only
        rw [List.nil_append, List.nil_append, List.cons_append, split, if_neg hx]
      | cons line lines => rfl

/-- Terminated lines come out as they went in. -/
theorem split_terminated {lines : List (List α)} (h : ∀ line ∈ lines, sep ∉ line) (rest : List α) :
    split sep ((lines.map (· ++ [sep])).flatten ++ rest) =
      (lines ++ (split sep rest).1, (split sep rest).2) := by
  induction lines with
  | nil => rfl
  | cons line lines ih =>
    obtain ⟨hline, hlines⟩ := List.forall_mem_cons.mp h
    rw [List.map_cons, List.flatten_cons, List.append_assoc, List.append_assoc,
      List.singleton_append, split_line hline, ih hlines]
    rfl

/-- What came out of a part of a stream comes first out of the whole. -/
theorem split_le (xs ys : List α) : (split sep xs).1 <+: (split sep (xs ++ ys)).1 := by
  rw [split_append]
  exact List.prefix_append _ _

end Tyo3.LineFrames
