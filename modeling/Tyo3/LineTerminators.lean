import Mathlib.Data.List.Chain
import Tyo3.TextSearch

/-!
# Line terminators

A line ends at a line feed, at a carriage return, or at a return with a feed
after it. Cutting a text at its feeds only, and taking a return away from the
end of each piece, gives the same lines as long as no return has another
character than a feed after it. With such a return the piece runs on into the
next line. Nothing here names a program.
-/

namespace Tyo3.LineTerminators

open TextSearch (pieces)

/-- A line of a text. -/
structure Line where
  /-- The characters before the terminator. -/
  visible : List Char
  /-- The terminator, empty for the last line. -/
  terminator : List Char

/-- A line with its terminator. -/
def Line.whole (line : Line) : List Char := line.visible ++ line.terminator

/-- Put a character before the first line. -/
def extend (c : Char) : List Line → List Line
  | [] => [⟨[c], []⟩]
  | line :: rest => ⟨c :: line.visible, line.terminator⟩ :: rest

/-- The lines of a text. -/
def lines : List Char → List Line
  | [] => [⟨[], []⟩]
  | '\r' :: '\n' :: text => ⟨[], ['\r', '\n']⟩ :: lines text
  | '\n' :: text => ⟨[], ['\n']⟩ :: lines text
  | '\r' :: text => ⟨[], ['\r']⟩ :: lines text
  | c :: text => extend c (lines text)

/-- Every return is the last character or has a feed after it. -/
def Paired (text : List Char) : Prop := text.IsChain fun a b => a = '\r' → b = '\n'

instance (text : List Char) : Decidable (Paired text) :=
  inferInstanceAs (Decidable (List.IsChain _ text))

/-- A character other than a return needs no feed. -/
theorem Paired.cons {c : Char} {text : List Char} (h : Paired text) (hc : c ≠ '\r') :
    Paired (c :: text) := List.IsChain.cons h fun _ _ heq => absurd heq hc

/-- A piece without a return at its end. -/
def stripReturn (piece : List Char) : List Char :=
  if piece.getLast? = some '\r' then piece.dropLast else piece

/-- A line that is cut off at feeds. -/
def feedLine (text : List Char) (i : ℕ) : List Char :=
  stripReturn ((pieces '\n' text)[i]?.getD [])

/-- A line of the text. -/
def visibleLine (text : List Char) (i : ℕ) : List Char := ((lines text)[i]?.map Line.visible).getD []

/-! ## Reading a text line by line -/

/-- A return without a feed after it ends a line. -/
theorem lines_lone {text : List Char} (hnext : text.head? ≠ some '\n') :
    lines ('\r' :: text) = ⟨[], ['\r']⟩ :: lines text := by
  rw [lines]
  intro rest heq
  rw [heq] at hnext
  exact hnext rfl

/-- Any other character belongs to the first line. -/
theorem lines_other {c : Char} {text : List Char} (hfeed : c ≠ '\n') (hreturn : c ≠ '\r') :
    lines (c :: text) = extend c (lines text) := by
  rw [lines]
  · exact fun rest hc _ => hreturn hc
  · exact hfeed
  · exact hreturn

/-- Induction along the terminators of a text. -/
theorem lineInduction {P : List Char → Prop} (nil : P [])
    (pair : ∀ text, P text → P ('\r' :: '\n' :: text)) (feed : ∀ text, P text → P ('\n' :: text))
    (lone : ∀ text, text.head? ≠ some '\n' → P text → P ('\r' :: text))
    (other : ∀ c text, c ≠ '\n' → c ≠ '\r' → P text → P (c :: text)) (text : List Char) : P text := by
  induction text using lines.induct with
  | case1 => exact nil
  | case2 text ih => exact pair text ih
  | case3 text ih => exact feed text ih
  | case4 text hpair ih =>
    refine lone text (fun hnext => ?_) ih
    cases text with
    | nil => cases hnext
    | cons next rest => exact hpair rest (congrArg (· :: rest) (Option.some.inj hnext))
  | case5 c text hpair hfeed hreturn ih => exact other c text hfeed hreturn ih

/-! ## The lines of a text -/

/-- The lines follow each other with terminators, and the last one has none. -/
def Ends : List Line → Prop
  | [] => False
  | [line] => line.terminator = []
  | line :: next :: rest => line.terminator ≠ [] ∧ Ends (next :: rest)

theorem Ends.cons {line : Line} {rest : List Line} (hline : line.terminator ≠ [])
    (h : Ends rest) : Ends (line :: rest) := by
  cases rest with
  | nil => cases h
  | cons next rest => exact ⟨hline, h⟩

theorem Ends.extend {rest : List Line} (c : Char) (h : Ends rest) :
    Ends (LineTerminators.extend c rest) := by
  match rest, h with
  | [line], h => exact h
  | line :: next :: rest, h => exact ⟨h.1, h.2⟩

theorem ends_lines (text : List Char) : Ends (lines text) := by
  induction text using lineInduction with
  | nil => rfl
  | pair text ih => exact ih.cons (List.cons_ne_nil _ _)
  | feed text ih => exact ih.cons (List.cons_ne_nil _ _)
  | lone text hnext ih =>
    rw [lines_lone hnext]
    exact ih.cons (List.cons_ne_nil _ _)
  | other c text hfeed hreturn ih =>
    rw [lines_other hfeed hreturn]
    exact ih.extend c

/-- Only the last line has no terminator. -/
theorem Ends.terminator {before after : List Line} {line : Line}
    (h : Ends (before ++ line :: after)) :
    (∀ other ∈ before, other.terminator ≠ []) ∧ (line.terminator = [] ↔ after = []) := by
  induction before with
  | nil =>
    refine ⟨fun other hother => absurd hother List.not_mem_nil, ?_⟩
    cases after with
    | nil => exact iff_of_true h rfl
    | cons next rest => exact iff_of_false h.1 (List.cons_ne_nil _ _)
  | cons first before ih =>
    have hsplit : first.terminator ≠ [] ∧ Ends (before ++ line :: after) := by
      cases before with
      | nil => exact h
      | cons second before => exact h
    obtain ⟨hbefore, hline⟩ := ih hsplit.2
    refine ⟨fun other hother => ?_, hline⟩
    rcases List.mem_cons.mp hother with heq | hin
    · rw [heq]
      exact hsplit.1
    · exact hbefore other hin

/-- There is a last line. -/
theorem Ends.exists_last {all : List Line} (h : Ends all) :
    ∃ before line, all = before ++ [line] ∧ line.terminator = [] := by
  have hsome : all ≠ [] := by
    intro hnil
    rw [hnil] at h
    exact h
  have hsplit := List.dropLast_append_getLast hsome
  refine ⟨all.dropLast, all.getLast hsome, hsplit.symm, ?_⟩
  rw [← hsplit] at h
  exact h.terminator.2.mpr rfl

/-- The characters of some lines. -/
def joined (all : List Line) : List Char := (all.map Line.whole).flatten

@[simp] theorem joined_nil : joined [] = [] := rfl

@[simp] theorem joined_cons (line : Line) (rest : List Line) :
    joined (line :: rest) = line.whole ++ joined rest := rfl

@[simp] theorem joined_append (before after : List Line) :
    joined (before ++ after) = joined before ++ joined after := by
  unfold joined
  rw [List.map_append, List.flatten_append]

@[simp] theorem joined_extend (c : Char) (all : List Line) :
    joined (extend c all) = c :: joined all := by
  cases all with
  | nil => rfl
  | cons line rest => rfl

/-- The lines are the text. -/
theorem joined_lines (text : List Char) : joined (lines text) = text := by
  induction text using lineInduction with
  | nil => rfl
  | pair text ih => rw [lines, joined_cons, ih]; rfl
  | feed text ih => rw [lines, joined_cons, ih]; rfl
  | lone text hnext ih => rw [lines_lone hnext, joined_cons, ih]; rfl
  | other c text hfeed hreturn ih => rw [lines_other hfeed hreturn, joined_extend, ih]

/-! ## Places in a line -/

/-- A place in a text that is not inside of a pair of return and feed. -/
def Outside (before after : List Char) : Prop :=
  ¬(before.getLast? = some '\r' ∧ after.head? = some '\n')

instance (before after : List Char) : Decidable (Outside before after) :=
  inferInstanceAs (Decidable (¬_))

/-- A place after a first character stays outside. -/
theorem Outside.tail {c : Char} {before after : List Char} (h : Outside (c :: before) after) :
    Outside before after := by
  refine fun hinside => h ⟨?_, hinside.2⟩
  cases before with
  | nil => cases hinside.1
  | cons next rest =>
    rw [List.getLast?_cons_cons]
    exact hinside.1

/-- A place among the visible characters of a line. -/
structure InLine (text before : List Char) (earlier : List Line) (line : Line) (column : ℕ) :
    Prop where
  /-- The line is one of the text. -/
  line_mem : ∃ later, lines text = earlier ++ line :: later
  /-- The column is within the visible characters or after them. -/
  column_le : column ≤ line.visible.length
  /-- The place is at the column of the line. -/
  before_eq : before = joined earlier ++ line.visible.take column

/-- The start of a text is in its first line. -/
theorem exists_inLine_start (text : List Char) :
    ∃ earlier line column, InLine text [] earlier line column := by
  have hends := ends_lines text
  cases hlines : lines text with
  | nil =>
    rw [hlines] at hends
    cases hends
  | cons line later => exact ⟨[], line, 0, ⟨later, hlines⟩, Nat.zero_le _, rfl⟩

/-- After a first line. -/
theorem InLine.cons {text before : List Char} {earlier : List Line} {line : Line} {column : ℕ}
    (h : InLine text before earlier line column) {text' : List Char} {first : Line}
    (hfirst : lines text' = first :: lines text) :
    InLine text' (first.whole ++ before) (first :: earlier) line column := by
  obtain ⟨later, hlater⟩ := h.line_mem
  refine ⟨⟨later, ?_⟩, h.column_le, ?_⟩
  · rw [hfirst, hlater]
    rfl
  · rw [h.before_eq, joined_cons, List.append_assoc]

/-- After a first character. -/
theorem InLine.extend {text before : List Char} {earlier : List Line} {line : Line} {column : ℕ}
    (h : InLine text before earlier line column) {text' : List Char} {c : Char}
    (hfirst : lines text' = LineTerminators.extend c (lines text)) :
    ∃ earlier line column, InLine text' (c :: before) earlier line column := by
  obtain ⟨later, hlater⟩ := h.line_mem
  rw [hlater] at hfirst
  cases earlier with
  | nil =>
    refine ⟨[], ⟨c :: line.visible, line.terminator⟩, column + 1, ⟨later, hfirst⟩, ?_, ?_⟩
    · exact Nat.succ_le_succ h.column_le
    · rw [h.before_eq]
      rfl
  | cons first earlier =>
    refine ⟨⟨c :: first.visible, first.terminator⟩ :: earlier, line, column, ⟨later, hfirst⟩,
      h.column_le, ?_⟩
    rw [h.before_eq]
    rfl

/-- Every place that is not inside of a pair is in a line. -/
theorem exists_inLine {text before after : List Char} (htext : text = before ++ after)
    (hout : Outside before after) : ∃ earlier line column, InLine text before earlier line column := by
  induction text using lineInduction generalizing before with
  | nil =>
    rw [(List.append_eq_nil_iff.mp htext.symm).1]
    exact exists_inLine_start []
  | pair text ih =>
    match before, htext, hout with
    | [], _, _ => exact exists_inLine_start _
    | [c], htext, hout =>
      obtain ⟨hc, hrest⟩ := List.cons.inj htext
      have hafter : after = '\n' :: text := hrest.symm
      rw [hafter, ← hc] at hout
      exact absurd ⟨rfl, rfl⟩ hout
    | c :: d :: before, htext, hout =>
      obtain ⟨hc, hrest⟩ := List.cons.inj htext
      obtain ⟨hd, hrest⟩ := List.cons.inj hrest
      obtain ⟨earlier, line, column, hin⟩ := ih hrest hout.tail.tail
      have hfirst : lines ('\r' :: '\n' :: text) = ⟨[], ['\r', '\n']⟩ :: lines text := rfl
      have hplace := hin.cons hfirst
      rw [← hc, ← hd]
      exact ⟨_, line, column, hplace⟩
  | feed text ih =>
    cases before with
    | nil => exact exists_inLine_start _
    | cons c before =>
      obtain ⟨hc, hrest⟩ := List.cons.inj htext
      obtain ⟨earlier, line, column, hin⟩ := ih hrest hout.tail
      have hfirst : lines ('\n' :: text) = ⟨[], ['\n']⟩ :: lines text := rfl
      have hplace := hin.cons hfirst
      rw [← hc]
      exact ⟨_, line, column, hplace⟩
  | lone text hnext ih =>
    cases before with
    | nil => exact exists_inLine_start _
    | cons c before =>
      obtain ⟨hc, hrest⟩ := List.cons.inj htext
      obtain ⟨earlier, line, column, hin⟩ := ih hrest hout.tail
      have hplace := hin.cons (lines_lone hnext)
      rw [← hc]
      exact ⟨_, line, column, hplace⟩
  | other d text hfeed hreturn ih =>
    cases before with
    | nil => exact exists_inLine_start _
    | cons c before =>
      obtain ⟨hc, hrest⟩ := List.cons.inj htext
      obtain ⟨earlier, line, column, hin⟩ := ih hrest hout.tail
      rw [← hc]
      exact hin.extend (lines_other hfeed hreturn)

/-! ## Lines cut off at feeds -/

/-- A character other than a feed belongs to the first piece. -/
theorem pieces_other {c : Char} (hfeed : c ≠ '\n') (text : List Char) :
    ∃ piece others, pieces '\n' text = piece :: others ∧
      pieces '\n' (c :: text) = (c :: piece) :: others := by
  have hsome : pieces '\n' text ≠ [] := by
    cases text with
    | nil => exact List.cons_ne_nil _ _
    | cons d text =>
      unfold pieces
      split
      · exact List.cons_ne_nil _ _
      · split <;> exact List.cons_ne_nil _ _
  obtain ⟨piece, others, hpieces⟩ := List.exists_cons_of_ne_nil hsome
  refine ⟨piece, others, hpieces, ?_⟩
  rw [pieces, if_neg hfeed, hpieces]

/-- A return is only taken from the end. -/
theorem stripReturn_cons {c : Char} {piece : List Char} (h : c ≠ '\r' ∨ piece ≠ []) :
    stripReturn (c :: piece) = c :: stripReturn piece := by
  cases piece with
  | nil =>
    have hc := h.resolve_right (fun hne => hne rfl)
    unfold stripReturn
    simp [hc]
  | cons d piece =>
    unfold stripReturn
    rw [List.getLast?_cons_cons]
    by_cases hlast : (d :: piece).getLast? = some '\r'
    · rw [if_pos hlast, if_pos hlast]
      rfl
    · rw [if_neg hlast, if_neg hlast]

theorem feedLine_feed (text : List Char) (i : ℕ) :
    feedLine ('\n' :: text) i = if i = 0 then [] else feedLine text (i - 1) := by
  cases i with
  | zero => rfl
  | succ i => rfl

theorem feedLine_pair (text : List Char) (i : ℕ) :
    feedLine ('\r' :: '\n' :: text) i = if i = 0 then [] else feedLine text (i - 1) := by
  cases i with
  | zero => rfl
  | succ i => rfl

/-- Another character is one more in the first line. -/
theorem feedLine_other {c : Char} {text : List Char} (hfeed : c ≠ '\n')
    (h : c ≠ '\r' ∨ ∃ d rest, text = d :: rest ∧ d ≠ '\n') (i : ℕ) :
    feedLine (c :: text) i = if i = 0 then c :: feedLine text 0 else feedLine text i := by
  obtain ⟨piece, others, hpieces, hmore⟩ := pieces_other hfeed text
  unfold feedLine
  rw [hpieces, hmore]
  cases i with
  | zero =>
    rw [if_pos rfl]
    refine stripReturn_cons (h.imp_right fun hnext => ?_)
    obtain ⟨d, rest, htext, hd⟩ := hnext
    obtain ⟨first, others', -, hrest⟩ := pieces_other hd rest
    rw [htext, hrest] at hpieces
    rw [← (List.cons.inj hpieces).1]
    exact List.cons_ne_nil _ _
  | succ i =>
    rw [if_neg (Nat.succ_ne_zero i)]
    rfl

/-- A line after the first one. -/
theorem visibleLine_of_cons {text text' terminator : List Char}
    (h : lines text' = ⟨[], terminator⟩ :: lines text) (i : ℕ) :
    visibleLine text' i = if i = 0 then [] else visibleLine text (i - 1) := by
  unfold visibleLine
  rw [h]
  cases i with
  | zero => rfl
  | succ i => rfl

theorem visibleLine_other {c : Char} {text : List Char} (hfeed : c ≠ '\n') (hreturn : c ≠ '\r')
    (i : ℕ) :
    visibleLine (c :: text) i = if i = 0 then c :: visibleLine text 0 else visibleLine text i := by
  have hends := ends_lines text
  unfold visibleLine
  rw [lines_other hfeed hreturn]
  cases hlines : lines text with
  | nil =>
    rw [hlines] at hends
    cases hends
  | cons line rest =>
    cases i with
    | zero => rfl
    | succ i => rfl

/-- Without lone returns the lines are those cut off at feeds. -/
theorem feedLine_eq_visibleLine {text : List Char} (h : Paired text) (i : ℕ) :
    feedLine text i = visibleLine text i := by
  induction text using lineInduction generalizing i with
  | nil =>
    cases i with
    | zero => rfl
    | succ i => rfl
  | pair text ih =>
    have hrest : Paired text := h.tail.tail
    rw [feedLine_pair, visibleLine_of_cons rfl, ih hrest]
  | feed text ih =>
    have hrest : Paired text := h.tail
    rw [feedLine_feed, visibleLine_of_cons rfl, ih hrest]
  | lone text hnext ih =>
    cases text with
    | nil =>
      -- a return at the end is taken away, and nothing follows it
      match i with
      | 0 => rfl
      | 1 => rfl
      | i + 2 => rfl
    | cons d rest =>
      have hd : d = '\n' := (List.isChain_cons_cons.mp h).1 rfl
      rw [hd] at hnext
      exact absurd rfl hnext
  | other c text hfeed hreturn ih =>
    have hrest : Paired text := h.tail
    rw [feedLine_other hfeed (.inl hreturn), visibleLine_other hfeed hreturn, ih hrest, ih hrest]

/-- With a lone return some line is cut off later than it ends, and the text
is long enough to have a column beyond its end. -/
theorem exists_longer {text : List Char} (h : ¬Paired text) :
    ∃ earlier line later, lines text = earlier ++ line :: later ∧ line.terminator ≠ [] ∧
      line.visible.length < (feedLine text earlier.length).length ∧
      earlier.length + line.visible.length + 2 ≤ text.length := by
  induction text using lineInduction with
  | nil => exact absurd List.isChain_nil h
  | pair text ih =>
    have hrest : ¬Paired text := by
      intro hpaired
      exact h (List.isChain_cons_cons.mpr ⟨fun _ => rfl, hpaired.cons (by decide)⟩)
    obtain ⟨earlier, line, later, hlines, hline, hlong, hsize⟩ := ih hrest
    refine ⟨⟨[], ['\r', '\n']⟩ :: earlier, line, later, ?_, hline, ?_, ?_⟩
    · rw [lines, hlines]
      rfl
    · rw [feedLine_pair]
      exact hlong
    · simp only [List.length_cons]
      omega
  | feed text ih =>
    have hrest : ¬Paired text := fun hpaired => h (hpaired.cons (by decide))
    obtain ⟨earlier, line, later, hlines, hline, hlong, hsize⟩ := ih hrest
    refine ⟨⟨[], ['\n']⟩ :: earlier, line, later, ?_, hline, ?_, ?_⟩
    · rw [lines, hlines]
      rfl
    · rw [feedLine_feed]
      exact hlong
    · simp only [List.length_cons]
      omega
  | lone text hnext ih =>
    cases text with
    | nil => exact absurd (List.isChain_singleton _) h
    | cons d rest =>
      have hd : d ≠ '\n' := fun hd => hnext (congrArg some hd)
      refine ⟨[], ⟨[], ['\r']⟩, lines (d :: rest), lines_lone hnext, List.cons_ne_nil _ _, ?_, ?_⟩
      · rw [feedLine_other (by decide) (.inr ⟨d, rest, rfl, hd⟩)]
        exact Nat.succ_pos _
      · simp only [List.length_nil, List.length_cons]
        omega
  | other c text hfeed hreturn ih =>
    have hrest : ¬Paired text := fun hpaired => h (hpaired.cons hreturn)
    obtain ⟨earlier, line, later, hlines, hline, hlong, hsize⟩ := ih hrest
    cases earlier with
    | nil =>
      refine ⟨[], ⟨c :: line.visible, line.terminator⟩, later, ?_, hline, ?_, ?_⟩
      · rw [lines_other hfeed hreturn, hlines]
        rfl
      · rw [List.length_nil, feedLine_other hfeed (.inl hreturn), if_pos rfl]
        simp only [List.length_cons]
        rw [List.length_nil] at hlong
        omega
      · simp only [List.length_nil, List.length_cons] at hsize ⊢
        omega
    | cons first earlier =>
      refine ⟨⟨c :: first.visible, first.terminator⟩ :: earlier, line, later, ?_, hline, ?_, ?_⟩
      · rw [lines_other hfeed hreturn, hlines]
        rfl
      · rw [feedLine_other hfeed (.inl hreturn), if_neg (by simp)]
        exact hlong
      · simp only [List.length_cons] at hsize ⊢
        omega

end Tyo3.LineTerminators
