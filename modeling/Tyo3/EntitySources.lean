import Tyo3.TextLines

/-!
# The source of an entity

A producer gets the text of its entity. The text is not taken from the pinned
revision: the file is read from disk, in text mode, the lines between the two
positions of the entity are cut out, and they are put together with line feeds
although every line still has the one at its end. So an entity of several
lines never comes out as it is, whatever is on disk, and one of a single line
does when the disk has the same characters at its place.
-/

namespace Tyo3.EntitySources

open TextLines

/-! ## Positions -/

/-- A position, both counted from one. -/
structure PositionDto where
  /-- The line. -/
  line : ℕ
  /-- The column in characters. -/
  column : ℕ

/-- A range of positions. -/
structure RangeDto where
  /-- Where it starts. -/
  start : PositionDto
  /-- Where it ends. -/
  stop : PositionDto

/-- The line index of a text: a line counted from one and a column counted
from zero for every offset, with lines between line breaks. -/
structure LineIndex (text : List Char) where
  /-- The line of an offset. -/
  line : ℕ → ℕ
  /-- The column of an offset in characters. -/
  column : ℕ → ℕ
  /-- A line break ends a line. -/
  line_eq : ∀ offset ≤ text.length, line offset = breaksBefore text offset + 1

/-- The positions of two offsets. -/
def rangeToDtoWithIndex {text : List Char} (index : LineIndex text) (start stop : ℕ) : RangeDto :=
  ⟨⟨index.line start, index.column start + 1⟩, ⟨index.line stop, index.column stop + 1⟩⟩

/-! ## The entity -/

/-- An entity of a pinned revision: a piece of the text of its file there that
starts and ends with a token. -/
structure PinnedEntity where
  /-- Path of the file. -/
  file : String
  /-- Qualified name. -/
  qualifiedName : List Char
  /-- The text before the entity. -/
  before : List Char
  /-- The text of the entity. -/
  source : List Char
  /-- The text after the entity. -/
  after : List Char
  /-- The first character is part of a token. -/
  first : ∃ c, source.head? = some c ∧ ¬ IsBreak c
  /-- So is the last one. -/
  last : ∃ c, source.getLast? = some c ∧ ¬ IsBreak c

namespace PinnedEntity

/-- The text of the file at the revision. -/
def text (entity : PinnedEntity) : List Char := entity.before ++ entity.source ++ entity.after

/-- The range of the entity. -/
def range (entity : PinnedEntity) (index : LineIndex entity.text) : RangeDto :=
  rangeToDtoWithIndex index entity.before.length (entity.before.length + entity.source.length)

end PinnedEntity

/-! ## Reading the source -/

/-- The part of a line that belongs to a range. -/
def sliceLine (range : RangeDto) (lines : List (List Char)) (i : ℕ) : List Char :=
  let line := lines[i]?.getD []
  if i = range.start.line - 1 ∧ i = range.stop.line - 1 then
    (line.drop (range.start.column - 1)).take (range.stop.column - 1 - (range.start.column - 1))
  else if i = range.start.line - 1 then line.drop (range.start.column - 1)
  else if i = range.stop.line - 1 then line.take (range.stop.column - 1)
  else line

/-- The parts of the lines of a range, put together with line feeds. -/
def sliceLines (range : RangeDto) (lines : List (List Char)) : List Char :=
  List.intercalate ['\n'] ((List.range' (range.start.line - 1)
    (range.stop.line - (range.start.line - 1))).map (sliceLine range lines))

/-- The source text of an entity. The root of the project and the files on
disk may be missing, and a file that cannot be decoded is as good as missing. -/
def entitySource (root : Option String) (disk : String → String → Option (List Char))
    (file : String) (qualifiedName : List Char) (range : RangeDto) : List Char :=
  match root with
  | none => qualifiedName
  | some root =>
    match disk root file with
    | none => qualifiedName
    | some found => sliceLines range (readlines (universalNewlines found))

/-! ## Ranges of one line and of several -/

section Slices

variable {range : RangeDto} {lines : List (List Char)}

theorem sliceLines_one (hline : range.stop.line = range.start.line) (hpos : 0 < range.start.line) :
    sliceLines range lines =
      ((lines[range.start.line - 1]?.getD []).drop (range.start.column - 1)).take
        (range.stop.column - 1 - (range.start.column - 1)) := by
  have hone : range.stop.line - (range.start.line - 1) = 1 := by omega
  unfold sliceLines
  rw [hone, List.range'_one, List.map_singleton, List.intercalate_singleton]
  unfold sliceLine
  rw [if_pos ⟨rfl, by rw [hline]⟩]

/-- The parts of a range of several lines. -/
theorem pieces_eq {k : ℕ} (hline : range.stop.line = range.start.line + (k + 1))
    (hpos : 0 < range.start.line) :
    (List.range' (range.start.line - 1) (range.stop.line - (range.start.line - 1))).map
        (sliceLine range lines) =
      (lines[range.start.line - 1]?.getD []).drop (range.start.column - 1) ::
        ((List.range' range.start.line k).map (sliceLine range lines) ++
          [(lines[range.stop.line - 1]?.getD []).take (range.stop.column - 1)]) := by
  have hcount : range.stop.line - (range.start.line - 1) = k + 1 + 1 := by omega
  have hnext : range.start.line - 1 + 1 = range.start.line := by omega
  have hend : range.start.line + 1 * k = range.stop.line - 1 := by omega
  have hfirst : sliceLine range lines (range.start.line - 1) =
      (lines[range.start.line - 1]?.getD []).drop (range.start.column - 1) := by
    unfold sliceLine
    rw [if_neg (by omega), if_pos rfl]
  have hlast : sliceLine range lines (range.stop.line - 1) =
      (lines[range.stop.line - 1]?.getD []).take (range.stop.column - 1) := by
    unfold sliceLine
    rw [if_neg (by omega), if_neg (by omega), if_pos rfl]
  rw [hcount, List.range'_succ, hnext, List.range'_concat, List.map_cons, List.map_append,
    List.map_singleton, hend, hfirst, hlast]

theorem mem_of_mem_sliceLine {i : ℕ} {c : Char} (h : c ∈ sliceLine range lines i) :
    c ∈ lines.flatten := by
  have hline : c ∈ lines[i]?.getD [] := by
    unfold sliceLine at h
    split_ifs at h
    · exact List.mem_of_mem_drop (List.mem_of_mem_take h)
    · exact List.mem_of_mem_drop h
    · exact List.mem_of_mem_take h
    · exact h
  cases hfound : lines[i]? with
  | none =>
    rw [hfound] at hline
    cases hline
  | some line =>
    rw [hfound] at hline
    exact List.mem_flatten.mpr ⟨line, List.mem_of_getElem? hfound, hline⟩

end Slices

/-- The lines of an entity are those of its breaks. -/
theorem range_line (entity : PinnedEntity) (index : LineIndex entity.text) :
    0 < (entity.range index).start.line ∧
    (entity.range index).stop.line = (entity.range index).start.line +
      Nat.count (fun i => EndsBreak entity.text (entity.before.length + i)) entity.source.length := by
  have hlength : entity.text.length =
      entity.before.length + entity.source.length + entity.after.length := by
    unfold PinnedEntity.text
    rw [List.length_append, List.length_append]
  have hstart := index.line_eq entity.before.length (by omega)
  have hstop := index.line_eq (entity.before.length + entity.source.length) (by omega)
  have hbreaks : breaksBefore entity.text (entity.before.length + entity.source.length) =
      breaksBefore entity.text entity.before.length +
        Nat.count (fun i => EndsBreak entity.text (entity.before.length + i))
          entity.source.length := breaksBefore_piece
  unfold PinnedEntity.range rangeToDtoWithIndex
  dsimp only
  omega

/-- No carriage return is read from a file. -/
theorem return_notMem_sliceLines (range : RangeDto) (found : List Char) :
    '\r' ∉ sliceLines range (readlines (universalNewlines found)) := by
  intro hmem
  rcases mem_intercalate hmem with hfeed | ⟨piece, hpiece, hin⟩
  · exact absurd hfeed (by decide)
  · obtain ⟨i, -, heq⟩ := List.mem_map.mp hpiece
    rw [← heq] at hin
    have hflat := mem_of_mem_sliceLine hin
    rw [flatten_readlines] at hflat
    exact return_notMem_universalNewlines found hflat

/-- An entity of several lines never comes out of a file as it is. -/
theorem sliceLines_ne_of_breaks (entity : PinnedEntity) (index : LineIndex entity.text)
    (hbreaks : 0 < Nat.count (fun i => EndsBreak entity.text (entity.before.length + i))
      entity.source.length) (found : List Char) :
    sliceLines (entity.range index) (readlines (universalNewlines found)) ≠ entity.source := by
  intro hsource
  obtain ⟨hpos, hlines⟩ := range_line entity index
  generalize entity.range index = range at hsource hpos hlines
  obtain ⟨k, hk⟩ := Nat.exists_eq_add_of_lt hbreaks
  rw [Nat.zero_add] at hk
  -- no carriage return is read, so the breaks of the entity are line feeds
  have hreturn : '\r' ∉ entity.source := by
    rw [← hsource]
    exact return_notMem_sliceLines range found
  generalize htext : readlines (universalNewlines found) = lines at hsource
  have hfeeds : entity.source.count '\n' = k + 1 := by
    rw [← hk]
    exact (breaks_of_feeds hreturn).symm
  rw [hk] at hlines
  unfold sliceLines at hsource
  rw [pieces_eq hlines hpos] at hsource
  -- the feeds between the parts are all there is, so the first part has none
  have hopen : '\n' ∉ (lines[range.start.line - 1]?.getD []).drop (range.start.column - 1) := by
    have hcount := count_intercalate (List.cons_ne_nil
      ((lines[range.start.line - 1]?.getD []).drop (range.start.column - 1))
      ((List.range' range.start.line k).map (sliceLine range lines) ++
        [(lines[range.stop.line - 1]?.getD []).take (range.stop.column - 1)]))
    rw [hsource, hfeeds, List.map_cons, List.sum_cons] at hcount
    simp only [List.length_cons, List.length_append, List.length_map, List.length_range',
      List.length_nil] at hcount
    exact List.count_eq_zero.mp (by omega)
  obtain ⟨c, hc, hfirst⟩ := entity.first
  obtain ⟨d, hd, hlast⟩ := entity.last
  -- it is not empty, so it is the rest of the last line of the file
  have hsome : (lines[range.start.line - 1]?.getD []).drop (range.start.column - 1) ≠ [] := by
    intro hnil
    rw [hnil, List.intercalate_cons_of_ne_nil (by simp)] at hsource
    rw [← hsource] at hc
    have hfeed : c = '\n' := (Option.some.inj hc).symm
    exact hfirst (.inl hfeed)
  obtain ⟨line, hline⟩ : ∃ line, lines[range.start.line - 1]? = some line := by
    cases hfound : lines[range.start.line - 1]? with
    | none =>
      rw [hfound] at hsome
      exact absurd (List.drop_nil) hsome
    | some line => exact ⟨line, rfl⟩
  rw [hline, Option.getD_some] at hopen hsome
  have hend : line.getLast? ≠ some '\n' := by
    intro hfeed
    have hkept : (line.drop (range.start.column - 1)).getLast? = some '\n' := by
      rw [List.getLast?_drop, if_neg]
      · exact hfeed
      · intro hshort
        exact hsome (List.drop_eq_nil_of_le hshort)
    exact hopen (List.mem_of_getLast? hkept)
  have hcount : lines.length = range.start.line - 1 + 1 := by
    rw [← htext] at hline ⊢
    exact length_readlines_of_open hline hend
  -- and the last part is past the end of the file
  have hpast : lines[range.stop.line - 1]? = none := by
    rw [List.getElem?_eq_none_iff]
    omega
  rw [hpast, Option.getD_none, List.take_nil, ← List.cons_append] at hsource
  have hclosed := getLast?_intercalate_nil (List.cons_ne_nil
    ((lines[range.start.line - 1]?.getD []).drop (range.start.column - 1))
    ((List.range' range.start.line k).map (sliceLine range lines)))
  rw [hsource, hd] at hclosed
  exact hlast (.inl (Option.some.inj hclosed))

/-- What is on disk at the place of a range of one line. -/
def diskSlice (range : RangeDto) (found : List Char) : List Char :=
  (((readlines (universalNewlines found))[range.start.line - 1]?.getD []).drop
    (range.start.column - 1)).take (range.stop.column - 1 - (range.start.column - 1))

/-- A producer gets the pinned source exactly when it has no line break and
the disk has the same characters at its place, or the file is missing on disk
and the source is the qualified name. -/
theorem entitySource_eq_iff (entity : PinnedEntity) (index : LineIndex entity.text)
    (root : Option String) (disk : String → String → Option (List Char)) :
    entitySource root disk entity.file entity.qualifiedName (entity.range index) = entity.source ↔
      match root.bind fun root => disk root entity.file with
      | none => entity.qualifiedName = entity.source
      | some found => (∀ c ∈ entity.source, ¬ IsBreak c) ∧
          diskSlice (entity.range index) found = entity.source := by
  unfold entitySource
  cases root with
  | none => rfl
  | some root =>
    rw [Option.bind_some]
    cases hfound : disk root entity.file with
    | none => simp only [hfound]
    | some found =>
      simp only [hfound]
      obtain ⟨hpos, hlines⟩ := range_line entity index
      have hlast : ∀ c, entity.source.getLast? = some c → ¬ IsBreak c := by
        intro c hc
        obtain ⟨d, hd, hplain⟩ := entity.last
        rw [hd, Option.some.injEq] at hc
        exact hc ▸ hplain
      have hzero := @breaks_eq_zero_iff entity.before entity.source entity.after hlast
      by_cases hbreaks : ∀ c ∈ entity.source, ¬ IsBreak c
      · have hone : (entity.range index).stop.line = (entity.range index).start.line := by
          have hnone : Nat.count (fun i => EndsBreak entity.text (entity.before.length + i))
              entity.source.length = 0 := hzero.mpr hbreaks
          rw [hlines, hnone, Nat.add_zero]
        rw [sliceLines_one hone hpos, and_iff_right hbreaks]
        rfl
      · refine iff_of_false ?_ fun h => hbreaks h.1
        exact sliceLines_ne_of_breaks entity index
          (Nat.pos_of_ne_zero fun hnone => hbreaks (hzero.mp hnone)) found

/-! ## A function of two lines and an unsaved change -/

/-- The index of a text, with columns after the last break. -/
def lineIndex (text : List Char) : LineIndex text where
  line := fun offset => breaksBefore text offset + 1
  column := fun offset => ((text.take offset).reverse.takeWhile fun c => ¬ IsBreak c).length
  line_eq _ _ := rfl

/-- A function of two lines. -/
def functionEntity : PinnedEntity where
  file := "m.py"
  qualifiedName := "f".toList
  before := "x = 1\n".toList
  source := "def f():\n    pass".toList
  after := "\n".toList
  first := ⟨'d', by decide, by decide⟩
  last := ⟨'s', by decide, by decide⟩

/-- A variable whose value was changed and not saved. -/
def variableEntity : PinnedEntity where
  file := "m.py"
  qualifiedName := "x".toList
  before := []
  source := "x = 1".toList
  after := "\n".toList
  first := ⟨'x', by decide, by decide⟩
  last := ⟨'1', by decide, by decide⟩

/-- The lines of a saved function come with two line feeds, and an unsaved
variable with the value on disk. -/
theorem source_not_pinned :
    entitySource (some "/p") (fun _ _ => some functionEntity.text) functionEntity.file
        functionEntity.qualifiedName (functionEntity.range (lineIndex functionEntity.text)) =
      "def f():\n\n    pass".toList ∧
    "def f():\n\n    pass".toList ≠ functionEntity.source ∧
    entitySource (some "/p") (fun _ _ => some "x = 2\n".toList) variableEntity.file
        variableEntity.qualifiedName (variableEntity.range (lineIndex variableEntity.text)) =
      "x = 2".toList ∧
    "x = 2".toList ≠ variableEntity.source := by
  decide +kernel

end Tyo3.EntitySources
