import Tyo3.EntitySources
import Tyo3.LineTerminators

/-!
# Coordinates

Positions have a line and a column counted from one, offsets count bytes. An
offset becomes a position by the line index of the type checker. The way back
takes the offset from the index as well, but checks the column against the
lines that the text has when it is split at line feeds. The line index also
ends lines at carriage returns, so with a return inside of a line the two ways
disagree.
-/

namespace Tyo3.Coordinates

open EntitySources (PositionDto RangeDto)

open LineTerminators

/-! ## Texts and their index -/

/-- Length of a text in bytes. -/
def textLen (text : List Char) : ℕ := (text.map Char.utf8Size).sum

/-- A source text, whose offsets are numbers of 32 bits. -/
structure SourceText where
  /-- The characters. -/
  chars : List Char
  /-- Offsets fit. -/
  fits : textLen chars < 2 ^ 32

/-- A number as one of 32 bits. -/
def asU32 (n : ℕ) : ℕ := n % 2 ^ 32

/-- A line and the characters before a place in it, both counted from zero. -/
structure SourceLocation where
  /-- The line. -/
  line : ℕ
  /-- The characters before the place. -/
  characterOffset : ℕ
  deriving DecidableEq

/-- A line index, as far as it is used. -/
structure LineIndex where
  /-- Number of lines. -/
  lineCount : ℕ
  /-- The offset of a location. -/
  offset : SourceLocation → ℕ
  /-- The location of an offset. -/
  sourceLocation : ℕ → SourceLocation

/-- The documented behaviour of the index of a text: lines end at a feed, a
return, or a return with a feed. The location of a place in a line is its line
and column, and the offset of a location is its column in its line, the
terminator included, or else the end of the line. -/
structure LineIndex.Documented (index : LineIndex) (text : List Char) : Prop where
  /-- All lines are counted. -/
  lineCount : index.lineCount = (lines text).length
  /-- Where a place is. -/
  sourceLocation : ∀ before earlier line column, InLine text before earlier line column →
    index.sourceLocation (textLen before) = ⟨earlier.length, column⟩
  /-- Where a location is. -/
  offset : ∀ earlier line later column, lines text = earlier ++ line :: later →
    index.offset ⟨earlier.length, column⟩ = textLen (joined earlier ++ line.whole.take column)

/-! ## Conversions -/

section Conversions

variable (source : List Char) (index : LineIndex)

/-- The offset of a position. -/
def positionToOffsetWithIndex (line column : ℕ) : Except String ℕ :=
  if line < 1 then .error "Line must be >= 1"
  else if column < 1 then .error "Column must be >= 1"
  else
    let lineIdx := line - 1
    let col := column - 1
    let totalLines := index.lineCount
    if totalLines ≤ lineIdx then
      .error ("Line " ++ toString line ++ " exceeds file length (" ++ toString totalLines ++ " lines)")
    else
      let lineCharCount := (feedLine source lineIdx).length
      if lineCharCount < col then
        .error ("Column " ++ toString column ++ " exceeds line " ++ toString (lineIdx + 1) ++
          " length (" ++ toString lineCharCount ++ " characters)")
      else .ok (index.offset ⟨lineIdx, col⟩)

/-- The offset of a position, with a column beyond the end of its line taken as
the end. -/
def positionToOffsetClampedLineEndWithIndex (line column : ℕ) : Except String ℕ :=
  match positionToOffsetWithIndex source index line column with
  | .ok offset => .ok offset
  | .error _ =>
    if line < 1 then .error "Line must be >= 1"
    else
      let lineIdx := line - 1
      if index.lineCount ≤ lineIdx then
        .error ("Line " ++ toString line ++ " exceeds file length (" ++ toString index.lineCount ++
          " lines)")
      else
        positionToOffsetWithIndex source index line
          (asU32 (asU32 (feedLine source lineIdx).length + 1))

/-- The position of an offset. -/
def positionOf (offset : ℕ) : PositionDto :=
  let loc := index.sourceLocation offset
  ⟨asU32 (loc.line + 1), asU32 (loc.characterOffset + 1)⟩

/-- The positions of the ends of a range. -/
def rangeToDtoWithIndex (start stop : ℕ) : RangeDto := ⟨positionOf index start, positionOf index stop⟩

end Conversions

/-! ## What is claimed of them -/

/-- Every offset that is not inside of a terminator becomes a position that
becomes the offset again. -/
def RoundTrips (source : List Char) (index : LineIndex) : Prop :=
  ∀ before after, source = before ++ after → Outside before after →
    let position := (rangeToDtoWithIndex index (textLen before) (textLen before)).start
    positionToOffsetWithIndex source index position.line position.column = .ok (textLen before)

/-- The clamped conversion gives what the strict one gives. -/
def Agrees (source : List Char) (index : LineIndex) : Prop :=
  ∀ line column offset, positionToOffsetWithIndex source index line column = .ok offset →
    positionToOffsetClampedLineEndWithIndex source index line column = .ok offset

/-- The clamped conversion stays within the visible characters of the line. -/
def StaysInLine (source : List Char) (index : LineIndex) : Prop :=
  ∀ line < 2 ^ 32, ∀ column < 2 ^ 32, ∀ offset,
    positionToOffsetClampedLineEndWithIndex source index line column = .ok offset →
    ∀ earlier l later, lines source = earlier ++ l :: later → earlier.length + 1 = line →
      offset ≤ textLen (joined earlier ++ l.visible)

/-- The lines and the columns of a text are numbers of 32 bits. -/
structure Numbered (text : List Char) : Prop where
  /-- The lines can be counted. -/
  lines_lt : (lines text).length < 2 ^ 32
  /-- The columns of a line can be counted. -/
  columns_lt : ∀ line ∈ lines text, line.visible.length + 1 < 2 ^ 32

/-! ## Lengths -/

@[simp] theorem textLen_nil : textLen [] = 0 := rfl

@[simp] theorem textLen_cons (c : Char) (text : List Char) :
    textLen (c :: text) = c.utf8Size + textLen text := List.sum_cons

@[simp] theorem textLen_append (a b : List Char) : textLen (a ++ b) = textLen a + textLen b := by
  unfold textLen
  rw [List.map_append, List.sum_append]

/-- Every character has a byte at least. -/
theorem length_le_textLen (text : List Char) : text.length ≤ textLen text := by
  induction text with
  | nil => exact Nat.le_refl 0
  | cons c text ih =>
    have hc := Char.utf8Size_pos c
    rw [List.length_cons, textLen_cons]
    omega

/-- The start of a text is not longer. -/
theorem textLen_take_le (text : List Char) (n : ℕ) : textLen (text.take n) ≤ textLen text := by
  have hsplit := textLen_append (text.take n) (text.drop n)
  rw [List.take_append_drop] at hsplit
  omega

/-- A column within the visible characters. -/
theorem take_whole {line : Line} {column : ℕ} (h : column ≤ line.visible.length) :
    line.whole.take column = line.visible.take column := List.take_append_of_le_length h

/-- The text of all lines but the last one has a character for each. -/
theorem length_le_length_joined {all : List Line} (h : ∀ line ∈ all, line.terminator ≠ []) :
    all.length ≤ (joined all).length := by
  induction all with
  | nil => exact Nat.le_refl 0
  | cons line rest ih =>
    have hline := List.length_pos_iff.mpr (h line List.mem_cons_self)
    have hrest := ih fun other hother => h other (List.mem_cons_of_mem _ hother)
    rw [joined_cons, List.length_append, List.length_cons]
    unfold Line.whole
    rw [List.length_append]
    omega

/-! ## The strict conversion -/

section Documented

variable {source : List Char} {index : LineIndex} (hindex : index.Documented source)

/-- When the strict conversion succeeds, and with what. -/
theorem positionToOffset_eq_ok {line column offset : ℕ} :
    positionToOffsetWithIndex source index line column = .ok offset ↔
      1 ≤ line ∧ 1 ≤ column ∧ line - 1 < index.lineCount ∧
        column - 1 ≤ (feedLine source (line - 1)).length ∧
        index.offset ⟨line - 1, column - 1⟩ = offset := by
  unfold positionToOffsetWithIndex
  by_cases hline : line < 1
  · rw [if_pos hline]
    exact iff_of_false nofun fun h => by omega
  rw [if_neg hline]
  by_cases hcolumn : column < 1
  · rw [if_pos hcolumn]
    exact iff_of_false nofun fun h => by omega
  rw [if_neg hcolumn]
  dsimp only
  by_cases hcount : index.lineCount ≤ line - 1
  · rw [if_pos hcount]
    exact iff_of_false nofun fun h => by omega
  rw [if_neg hcount]
  by_cases hlength : (feedLine source (line - 1)).length < column - 1
  · rw [if_pos hlength]
    exact iff_of_false nofun fun h => by omega
  rw [if_neg hlength, Except.ok.injEq]
  constructor
  · intro h
    exact ⟨by omega, by omega, by omega, by omega, h⟩
  · exact fun h => h.2.2.2.2

/-- What the clamped conversion gives is what the strict one gives for the line,
at the column or at another one. -/
theorem exists_strict_of_clamped {line column offset : ℕ}
    (h : positionToOffsetClampedLineEndWithIndex source index line column = .ok offset) :
    ∃ column', positionToOffsetWithIndex source index line column' = .ok offset := by
  unfold positionToOffsetClampedLineEndWithIndex at h
  cases hstrict : positionToOffsetWithIndex source index line column with
  | ok found =>
    rw [hstrict] at h
    exact ⟨column, hstrict.trans h⟩
  | error message =>
    rw [hstrict] at h
    dsimp only at h
    by_cases hline : line < 1
    · rw [if_pos hline] at h
      cases h
    rw [if_neg hline] at h
    by_cases hcount : index.lineCount ≤ line - 1
    · rw [if_pos hcount] at h
      cases h
    rw [if_neg hcount] at h
    exact ⟨_, h⟩

/-- The clamped conversion always agrees with the strict one. -/
theorem agrees (source : List Char) (index : LineIndex) : Agrees source index := by
  intro line column offset h
  unfold positionToOffsetClampedLineEndWithIndex
  rw [h]

/-- A line has a number. -/
theorem lineCount_gt (hindex : index.Documented source) {earlier later : List Line} {line : Line}
    (hlines : lines source = earlier ++ line :: later) : earlier.length < index.lineCount := by
  rw [hindex.lineCount, hlines, List.length_append, List.length_cons]
  omega

/-- A line without lone returns is cut off where it ends. -/
theorem feedLine_eq (hpaired : Paired source) {earlier later : List Line} {line : Line}
    (hlines : lines source = earlier ++ line :: later) :
    feedLine source earlier.length = line.visible := by
  rw [feedLine_eq_visibleLine hpaired]
  unfold visibleLine
  rw [hlines, List.getElem?_append_right (Nat.le_refl _), Nat.sub_self]
  rfl

include hindex

/-- Without lone returns the strict conversion stays in the line. -/
theorem strict_le (hpaired : Paired source) {line column offset : ℕ}
    (h : positionToOffsetWithIndex source index line column = .ok offset)
    {earlier later : List Line} {l : Line} (hlines : lines source = earlier ++ l :: later)
    (hline : earlier.length + 1 = line) : offset ≤ textLen (joined earlier ++ l.visible) := by
  obtain ⟨-, -, -, hcolumn, hoffset⟩ := positionToOffset_eq_ok.mp h
  have hnumber : line - 1 = earlier.length := by omega
  rw [hnumber, feedLine_eq hpaired hlines] at hcolumn
  have htake := textLen_take_le l.visible (column - 1)
  rw [← hoffset, hnumber, hindex.offset earlier l later _ hlines, take_whole hcolumn,
    textLen_append, textLen_append]
  omega

/-- Without lone returns, and with numbers that fit, offsets come back. -/
theorem roundTrips_of_paired (hpaired : Paired source) (hnumbered : Numbered source) :
    RoundTrips source index := by
  intro before after hsource hout
  obtain ⟨earlier, line, column, hin⟩ := exists_inLine hsource hout
  obtain ⟨later, hlines⟩ := hin.line_mem
  have hcolumn := hin.column_le
  have hcount := hnumbered.lines_lt
  have hwidth : line.visible.length + 1 < 2 ^ 32 := by
    refine hnumbered.columns_lt line ?_
    rw [hlines]
    exact List.mem_append_right _ List.mem_cons_self
  rw [hlines, List.length_append, List.length_cons] at hcount
  have hlineno : asU32 (earlier.length + 1) = earlier.length + 1 := Nat.mod_eq_of_lt (by omega)
  have hcolumnno : asU32 (column + 1) = column + 1 := Nat.mod_eq_of_lt (by omega)
  unfold rangeToDtoWithIndex positionOf
  dsimp only
  rw [hindex.sourceLocation before earlier line column hin, hlineno, hcolumnno,
    positionToOffset_eq_ok]
  refine ⟨by omega, by omega, lineCount_gt hindex hlines, ?_, ?_⟩
  · rw [Nat.add_sub_cancel, Nat.add_sub_cancel, feedLine_eq hpaired hlines]
    exact hcolumn
  · rw [Nat.add_sub_cancel, Nat.add_sub_cancel, hindex.offset earlier line later column hlines,
      take_whole hcolumn, ← hin.before_eq]

/-- With a lone return a conversion leaves its line. -/
theorem paired_of_staysInLine (hfits : textLen source < 2 ^ 32) (h : StaysInLine source index) :
    Paired source := by
  by_contra hlone
  obtain ⟨earlier, line, later, hlines, hterminator, hlong, hsize⟩ := exists_longer hlone
  have hlength := length_le_textLen source
  obtain ⟨c, rest, hterm⟩ := List.exists_cons_of_ne_nil hterminator
  -- the column after the end of the line
  have htake : line.whole.take (line.visible.length + 1) = line.visible ++ [c] := by
    unfold Line.whole
    rw [hterm, List.take_append, List.take_of_length_le (Nat.le_succ _), Nat.add_sub_cancel_left]
    rfl
  have hstrict : positionToOffsetWithIndex source index (earlier.length + 1)
      (line.visible.length + 2) = .ok (textLen (joined earlier ++ (line.visible ++ [c]))) := by
    rw [positionToOffset_eq_ok]
    refine ⟨by omega, by omega, lineCount_gt hindex hlines, ?_, ?_⟩
    · rw [Nat.add_sub_cancel]
      omega
    · have hcolumn : line.visible.length + 2 - 1 = line.visible.length + 1 := by omega
      rw [Nat.add_sub_cancel, hcolumn, hindex.offset earlier line later _ hlines, htake]
  have hwithin := h _ (by omega) _ (by omega) _ (agrees source index _ _ _ hstrict) earlier line
    later hlines rfl
  have hc := Char.utf8Size_pos c
  simp only [textLen_append, textLen_cons, textLen_nil] at hwithin
  omega

/-- When the end of the text comes back, all numbers fit. -/
theorem numbered_of_roundTrips (hfits : textLen source < 2 ^ 32) (h : RoundTrips source index) :
    Numbered source := by
  obtain ⟨earlier, line, hlines, hterminator⟩ := (ends_lines source).exists_last
  have hends := ends_lines source
  rw [hlines] at hends
  have hearlier := hends.terminator.1
  have hsource : source = joined earlier ++ line.visible := by
    rw [← joined_lines source, hlines, joined_append, joined_cons, joined_nil]
    unfold Line.whole
    rw [hterminator, List.append_nil, List.append_nil]
  have hin : InLine source source earlier line line.visible.length := by
    refine ⟨⟨[], hlines⟩, Nat.le_refl _, ?_⟩
    rw [List.take_length]
    exact hsource
  have hend := h source [] (List.append_nil source).symm fun hinside => by cases hinside.2
  unfold rangeToDtoWithIndex positionOf at hend
  dsimp only at hend
  rw [hindex.sourceLocation source earlier line _ hin, positionToOffset_eq_ok] at hend
  obtain ⟨hlineno, hcolumnno, -⟩ := hend
  -- a number that wraps around would be zero
  have hsize : (joined earlier).length + line.visible.length < 2 ^ 32 := by
    have hlength := length_le_textLen source
    rw [hsource, List.length_append, ← hsource] at hlength
    omega
  have hnumber := length_le_length_joined hearlier
  have hnowrap : ∀ n ≤ 2 ^ 32, 1 ≤ asU32 n → n < 2 ^ 32 := by
    intro n hn hpos
    unfold asU32 at hpos
    by_contra hge
    have heq : n = 2 ^ 32 := by omega
    rw [heq, Nat.mod_self] at hpos
    omega
  constructor
  · rw [hlines, List.length_append, List.length_singleton]
    exact hnowrap _ (by omega) hlineno
  · intro other hother
    rw [hlines] at hother
    rcases List.mem_append.mp hother with hbefore | hlast
    · obtain ⟨first, second, hsplit⟩ := List.append_of_mem hbefore
      have hterm := List.length_pos_iff.mpr (hearlier other hbefore)
      have hlong : other.visible.length + other.terminator.length ≤ (joined earlier).length := by
        rw [hsplit, joined_append, joined_cons]
        unfold Line.whole
        simp only [List.length_append]
        omega
      omega
    · rw [List.mem_singleton.mp hlast]
      exact hnowrap _ (by omega) hcolumnno

end Documented

/-- For every text whose offsets fit and every index of it: offsets outside of
terminators come back, the clamped conversion agrees with the strict one and
stays in its line, if and only if every return is the last character or has a
feed after it and the line and column numbers fit. -/
theorem conversions_iff (source : SourceText) {index : LineIndex}
    (hindex : index.Documented source.chars) :
    (RoundTrips source.chars index ∧ Agrees source.chars index ∧ StaysInLine source.chars index) ↔
      Paired source.chars ∧ Numbered source.chars := by
  constructor
  · intro h
    obtain ⟨hround, -, hstays⟩ := h
    exact ⟨paired_of_staysInLine hindex source.fits hstays,
      numbered_of_roundTrips hindex source.fits hround⟩
  · intro h
    obtain ⟨hpaired, hnumbered⟩ := h
    refine ⟨roundTrips_of_paired hindex hpaired hnumbered, agrees source.chars index, ?_⟩
    intro line _ column _ offset hclamped earlier l later hlines hline
    obtain ⟨column', hstrict⟩ := exists_strict_of_clamped hclamped
    exact strict_le hindex hpaired hstrict hlines hline

/-! ## An index -/

/-- Number of the characters within some bytes. -/
def charsWithin : List Char → ℕ → ℕ
  | [], _ => 0
  | c :: text, bytes => if bytes < c.utf8Size then 0 else charsWithin text (bytes - c.utf8Size) + 1

/-- Go to the line of an offset. -/
def locate : List Line → ℕ → SourceLocation
  | [], _ => ⟨0, 0⟩
  | [line], bytes => ⟨0, charsWithin line.whole bytes⟩
  | line :: next :: rest, bytes =>
    if bytes < textLen line.whole then ⟨0, charsWithin line.whole bytes⟩
    else
      let found := locate (next :: rest) (bytes - textLen line.whole)
      { found with line := found.line + 1 }

/-- The index that counts lines and characters. -/
def countingIndex (text : List Char) : LineIndex where
  lineCount := (lines text).length
  offset location :=
    textLen (joined ((lines text).take location.line) ++
      (((lines text)[location.line]?.map Line.whole).getD []).take location.characterOffset)
  sourceLocation := locate (lines text)

/-- The bytes of the first characters hold just these. -/
theorem charsWithin_append (a b : List Char) : charsWithin (a ++ b) (textLen a) = a.length := by
  induction a with
  | nil =>
    cases b with
    | nil => rfl
    | cons c b => exact if_pos (Char.utf8Size_pos c)
  | cons c a ih =>
    rw [List.cons_append, charsWithin, textLen_cons, if_neg (by omega), Nat.add_sub_cancel_left, ih,
      List.length_cons]

theorem charsWithin_whole {line : Line} {column : ℕ} (h : column ≤ line.visible.length) :
    charsWithin line.whole (textLen (line.visible.take column)) = column := by
  have hsplit : line.whole = line.visible.take column ++ line.whole.drop column := by
    rw [← take_whole h, List.take_append_drop]
  rw [hsplit, charsWithin_append, List.length_take, Nat.min_eq_left h]

/-- A place is found in its line. -/
theorem locate_eq {earlier later : List Line} {line : Line} {column : ℕ}
    (hends : Ends (earlier ++ line :: later)) (h : column ≤ line.visible.length) :
    locate (earlier ++ line :: later) (textLen (joined earlier ++ line.visible.take column)) =
      ⟨earlier.length, column⟩ := by
  induction earlier with
  | nil =>
    have hcount := charsWithin_whole h
    cases later with
    | nil =>
      rw [joined_nil, List.nil_append, List.nil_append, locate, hcount]
      rfl
    | cons next rest =>
      obtain ⟨c, terminator, hterm⟩ := List.exists_cons_of_ne_nil hends.1
      have hc := Char.utf8Size_pos c
      have htake := textLen_take_le line.visible column
      have hlt : textLen (line.visible.take column) < textLen line.whole := by
        unfold Line.whole
        rw [textLen_append, hterm, textLen_cons]
        omega
      rw [joined_nil, List.nil_append, List.nil_append, locate, if_pos hlt, hcount]
      rfl
  | cons first earlier ih =>
    have hrest : Ends (earlier ++ line :: later) := by
      cases earlier with
      | nil => exact hends.2
      | cons second earlier => exact hends.2
    have hfound := ih hrest
    obtain ⟨next, rest, hlines⟩ : ∃ next rest, earlier ++ line :: later = next :: rest := by
      cases earlier with
      | nil => exact ⟨line, later, rfl⟩
      | cons second earlier => exact ⟨second, _, rfl⟩
    have hbytes : textLen (joined (first :: earlier) ++ line.visible.take column) =
        textLen first.whole + textLen (joined earlier ++ line.visible.take column) := by
      rw [joined_cons, List.append_assoc, textLen_append]
    rw [hlines] at hfound
    rw [List.cons_append, hlines, hbytes, locate, if_neg (by omega), Nat.add_sub_cancel_left, hfound]
    rfl

/-- The index behaves as documented. -/
theorem countingIndex_documented (text : List Char) : (countingIndex text).Documented text where
  lineCount := rfl
  sourceLocation before earlier line column hin := by
    obtain ⟨later, hlines⟩ := hin.line_mem
    have hends := ends_lines text
    rw [hlines] at hends
    unfold countingIndex
    dsimp only
    rw [hin.before_eq, hlines]
    exact locate_eq hends hin.column_le
  offset earlier line later column hlines := by
    unfold countingIndex
    dsimp only
    rw [hlines, List.take_left, List.getElem?_append_right (Nat.le_refl _), Nat.sub_self]
    rfl

/-! ## A text with a lone return -/

/-- A text with all kinds of terminators, the return at its end. -/
def pairedText : SourceText := ⟨"é = 1\r\ny\n\r".toList, by decide +kernel⟩

/-- Its offsets come back. -/
theorem paired_text_comes_back :
    RoundTrips pairedText.chars (countingIndex pairedText.chars) ∧
      Agrees pairedText.chars (countingIndex pairedText.chars) ∧
      StaysInLine pairedText.chars (countingIndex pairedText.chars) := by
  refine (conversions_iff pairedText (countingIndex_documented pairedText.chars)).mpr ⟨?_, ?_, ?_⟩
  · decide +kernel
  · decide +kernel
  · decide +kernel

/-- A text with a lone return between its lines. -/
def loneReturn : SourceText := ⟨"a\rbb".toList, by decide +kernel⟩

/-- The place between the last two characters is in the second line at the
second column, which is refused, and the end of the first line is taken to be
in the second one. -/
theorem lone_return_fails :
    ¬RoundTrips loneReturn.chars (countingIndex loneReturn.chars) ∧
      ¬StaysInLine loneReturn.chars (countingIndex loneReturn.chars) := by
  constructor
  · intro h
    have hback := h ['a', '\r', 'b'] ['b'] rfl (by decide)
    revert hback
    decide +kernel
  · intro h
    have hend : positionToOffsetClampedLineEndWithIndex loneReturn.chars
        (countingIndex loneReturn.chars) 1 500 = .ok 2 := by
      decide +kernel
    have hwithin := h 1 (by decide) 500 (by decide) 2 hend [] ⟨['a'], ['\r']⟩
      [⟨['b', 'b'], []⟩] rfl rfl
    revert hwithin
    decide +kernel

end Tyo3.Coordinates
