import Mathlib.Data.Nat.Count
import Mathlib.Algebra.GroupWithZero.Nat
import Mathlib.Algebra.Order.BigOperators.Group.List

/-!
# Lines of a text

A text has line feeds, carriage returns and pairs of the two as line breaks.
A reader in text mode turns all of them into line feeds and gives the lines
with the feed at their end, so a line without one is the last line. Lines that
are put together with further feeds have twice the feeds between them.
-/

namespace Tyo3.TextLines

/-! ## Line breaks -/

/-- A character of a line break. -/
def IsBreak (c : Char) : Prop := c = '\n' ∨ c = '\r'

instance (c : Char) : Decidable (IsBreak c) := inferInstanceAs (Decidable (c = '\n' ∨ c = '\r'))

/-- A line break ends with the character at a place. The first character of a
pair does not end one. -/
def EndsBreak (text : List Char) (i : ℕ) : Prop :=
  text[i]? = some '\n' ∨ text[i]? = some '\r' ∧ text[i + 1]? ≠ some '\n'

instance (text : List Char) : DecidablePred (EndsBreak text) :=
  fun i => inferInstanceAs (Decidable (text[i]? = some '\n' ∨ _))

/-- Number of line breaks before an offset. -/
def breaksBefore (text : List Char) (offset : ℕ) : ℕ := Nat.count (EndsBreak text) offset

theorem count_getElem? (text : List Char) (c : Char) :
    Nat.count (fun i => text[i]? = some c) text.length = text.count c := by
  induction text with
  | nil => rfl
  | cons d text ih =>
    rw [List.length_cons, Nat.count_succ', List.count_cons]
    simp only [List.getElem?_cons_succ, List.getElem?_cons_zero, Option.some.injEq, beq_iff_eq]
    rw [ih]

section Pieces

variable {before piece after : List Char}

theorem getElem?_piece {i : ℕ} (h : i < piece.length) :
    (before ++ piece ++ after)[before.length + i]? = piece[i]? := by
  rw [List.append_assoc, List.getElem?_append_right (Nat.le_add_right _ _),
    Nat.add_sub_cancel_left, List.getElem?_append_left h]

/-- The breaks up to the end of a piece of a text. -/
theorem breaksBefore_piece :
    breaksBefore (before ++ piece ++ after) (before.length + piece.length) =
      breaksBefore (before ++ piece ++ after) before.length +
        Nat.count (fun i => EndsBreak (before ++ piece ++ after) (before.length + i))
          piece.length :=
  Nat.count_add _ _ _

/-- A piece without carriage returns has the breaks of its line feeds. -/
theorem breaks_of_feeds (h : '\r' ∉ piece) :
    Nat.count (fun i => EndsBreak (before ++ piece ++ after) (before.length + i)) piece.length =
      piece.count '\n' := by
  rw [← count_getElem?, Nat.count_eq_card_filter_range, Nat.count_eq_card_filter_range]
  refine congrArg Finset.card (Finset.filter_congr fun i hi => ?_)
  unfold EndsBreak
  rw [getElem?_piece (Finset.mem_range.mp hi)]
  refine or_iff_left fun hreturn => h ?_
  exact List.mem_of_getElem? hreturn.1

/-- A piece that does not end inside of a break has no break exactly when it
has no character of one. -/
theorem breaks_eq_zero_iff (hlast : ∀ c, piece.getLast? = some c → ¬ IsBreak c) :
    Nat.count (fun i => EndsBreak (before ++ piece ++ after) (before.length + i)) piece.length = 0 ↔
      ∀ c ∈ piece, ¬ IsBreak c := by
  rw [Nat.count_iff_forall_not]
  constructor
  · intro h c hc hbreak
    have hfeed : '\n' ∉ piece := by
      intro hmem
      obtain ⟨i, hi⟩ := List.mem_iff_getElem?.mp hmem
      have hlong := (List.getElem?_eq_some_iff.mp hi).1
      exact h i hlong (.inl (by rw [getElem?_piece hlong, hi]))
    rcases hbreak with hc' | hc'
    · exact hfeed (hc' ▸ hc)
    · obtain ⟨i, hi⟩ := List.mem_iff_getElem?.mp hc
      rw [hc'] at hi
      have hlong := (List.getElem?_eq_some_iff.mp hi).1
      by_cases hend : i + 1 < piece.length
      · refine h i hlong (.inr ⟨by rw [getElem?_piece hlong, hi], fun hnext => hfeed ?_⟩)
        rw [Nat.add_assoc, getElem?_piece hend] at hnext
        exact List.mem_of_getElem? hnext
      · have hi' : piece.getLast? = some '\r' := by
          rw [List.getLast?_eq_getElem?, ← hi]
          congr 1
          omega
        exact hlast '\r' hi' (.inr rfl)
  · intro h i hi hend
    have hin : ∀ c, piece[i]? = some c → ¬ IsBreak c := fun c hc => h c (List.mem_of_getElem? hc)
    unfold EndsBreak at hend
    rw [getElem?_piece hi] at hend
    rcases hend with hfeed | hreturn
    · exact hin '\n' hfeed (.inl rfl)
    · exact hin '\r' hreturn.1 (.inr rfl)

end Pieces

/-! ## Reading lines -/

/-- Read all line breaks as line feeds. -/
def universalNewlines : List Char → List Char
  | [] => []
  | '\r' :: '\n' :: text => '\n' :: universalNewlines text
  | '\r' :: text => '\n' :: universalNewlines text
  | c :: text => c :: universalNewlines text

/-- The lines of a text, with the line feeds at their ends. -/
def readlines : List Char → List (List Char)
  | [] => []
  | c :: text =>
    if c = '\n' then ['\n'] :: readlines text
    else match readlines text with
      | [] => [[c]]
      | line :: lines => (c :: line) :: lines

theorem return_notMem_universalNewlines (text : List Char) : '\r' ∉ universalNewlines text := by
  induction text using universalNewlines.induct with
  | case1 => exact List.not_mem_nil
  | case2 text ih =>
    rw [universalNewlines]
    simpa using ih
  | case3 text hpair ih =>
    rw [universalNewlines]
    · simpa using ih
    · exact hpair
  | case4 c text hpair hreturn ih =>
    rw [universalNewlines]
    · have hc : '\r' ≠ c := fun heq => hreturn heq.symm
      simpa [hc] using ih
    · exact hpair
    · exact hreturn

theorem flatten_readlines (text : List Char) : (readlines text).flatten = text := by
  induction text with
  | nil => rfl
  | cons c text ih =>
    rw [readlines]
    split_ifs with hfeed
    · rw [List.flatten_cons, ih, hfeed]
      rfl
    · cases hlines : readlines text with
      | nil =>
        rw [hlines] at ih
        rw [← ih]
        rfl
      | cons line lines =>
        rw [hlines] at ih
        rw [← ih]
        rfl

theorem nil_notMem_readlines (text : List Char) : [] ∉ readlines text := by
  induction text with
  | nil => exact List.not_mem_nil
  | cons c text ih =>
    rw [readlines]
    split_ifs
    · simpa using ih
    · cases hlines : readlines text with
      | nil => simp
      | cons line lines =>
        rw [hlines] at ih
        have hrest : [] ∉ lines := fun hmem => ih (List.mem_cons_of_mem _ hmem)
        simpa using hrest

/-- A line without a line feed at its end is the last one. -/
theorem length_readlines_of_open {text line : List Char} {i : ℕ}
    (h : (readlines text)[i]? = some line) (hopen : line.getLast? ≠ some '\n') :
    (readlines text).length = i + 1 := by
  induction text generalizing i line with
  | nil => cases h
  | cons c text ih =>
    rw [readlines] at h ⊢
    split_ifs at h ⊢ with hfeed
    · cases i with
      | zero =>
        cases h
        exact absurd rfl hopen
      | succ i => rw [List.length_cons, ih h hopen]
    · cases hlines : readlines text with
      | nil =>
        rw [hlines] at h
        cases i with
        | zero => rfl
        | succ i => cases h
      | cons first lines =>
        rw [hlines] at h ih
        cases i with
        | zero =>
          have hline : c :: first = line := Option.some.inj h
          have hfirst : first ≠ [] := by
            intro hnil
            have hmem : [] ∈ readlines text := by
              rw [hlines, hnil]
              exact List.mem_cons_self
            exact nil_notMem_readlines text hmem
          rw [← hline, List.getLast?_cons_of_ne_nil hfirst] at hopen
          exact ih (i := 0) rfl hopen
        | succ i => exact ih (i := i + 1) h hopen

/-! ## Lines put together -/

theorem count_intercalate {pieces : List (List Char)} (hsome : pieces ≠ []) :
    (List.intercalate ['\n'] pieces).count '\n' + 1 =
      (pieces.map (List.count '\n')).sum + pieces.length := by
  induction pieces with
  | nil => exact absurd rfl hsome
  | cons piece pieces ih =>
    by_cases hnil : pieces = []
    · rw [hnil, List.intercalate_singleton]
      simp
    · rw [List.intercalate_cons_of_ne_nil hnil, List.count_append, List.count_append,
        List.map_cons, List.sum_cons, List.length_cons]
      have hrest := ih hnil
      have hone : List.count '\n' ['\n'] = 1 := rfl
      omega

theorem mem_intercalate {pieces : List (List Char)} {c : Char}
    (h : c ∈ List.intercalate ['\n'] pieces) : c = '\n' ∨ ∃ piece ∈ pieces, c ∈ piece := by
  induction pieces with
  | nil => cases h
  | cons piece pieces ih =>
    by_cases hnil : pieces = []
    · rw [hnil, List.intercalate_singleton] at h
      exact .inr ⟨piece, List.mem_cons_self, h⟩
    · rw [List.intercalate_cons_of_ne_nil hnil, List.mem_append, List.mem_append,
        List.mem_singleton] at h
      rcases h with (hpiece | hfeed) | hrest
      · exact .inr ⟨piece, List.mem_cons_self, hpiece⟩
      · exact .inl hfeed
      · rcases ih hrest with hfeed | ⟨other, hother, hc⟩
        · exact .inl hfeed
        · exact .inr ⟨other, List.mem_cons_of_mem _ hother, hc⟩

/-- An empty last piece leaves a line feed at the end. -/
theorem getLast?_intercalate_nil {pieces : List (List Char)} (hsome : pieces ≠ []) :
    (List.intercalate ['\n'] (pieces ++ [[]])).getLast? = some '\n' := by
  induction pieces with
  | nil => exact absurd rfl hsome
  | cons piece pieces ih =>
    rw [List.cons_append, List.intercalate_cons_of_ne_nil (by simp)]
    by_cases hnil : pieces = []
    · rw [hnil, List.nil_append, List.intercalate_singleton, List.append_nil, List.getLast?_concat]
    · rw [List.getLast?_append, ih hnil, Option.some_or]

end Tyo3.TextLines
