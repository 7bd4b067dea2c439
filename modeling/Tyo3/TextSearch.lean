import Mathlib.Data.List.Basic
import Mathlib.Data.String.Basic
import Mathlib.Tactic.Common

/-!
# Splitting texts and measuring their distance

The first and the last occurrence of a separator, with the texts on both
sides, and the two-row Levenshtein distance. Everything runs on character
lists; a text is opened once and closed once.
-/

namespace Tyo3.TextSearch

/-- The characters before and after the first occurrence of a separator. -/
def splitFirst (sep : List Char) : List Char → Option (List Char × List Char)
  | [] => none
  | c :: rest =>
    if sep.isPrefixOf (c :: rest) then some ([], (c :: rest).drop sep.length)
    else (splitFirst sep rest).map fun parts => (c :: parts.1, parts.2)

/-- The characters before and after the last occurrence of a separator. -/
def splitLast (sep : List Char) : List Char → Option (List Char × List Char)
  | [] => none
  | c :: rest =>
    match splitLast sep rest with
    | some parts => some (c :: parts.1, parts.2)
    | none => if sep.isPrefixOf (c :: rest) then some ([], (c :: rest).drop sep.length) else none

/-- A separator does not occur where its first character does not. -/
theorem splitLast_of_notMem {c : Char} {text : List Char} (h : c ∉ text) (sep : List Char) :
    splitLast (c :: sep) text = none := by
  induction text with
  | nil => rfl
  | cons d rest ih =>
    have hne : c ≠ d := fun hcd => h (hcd ▸ List.mem_cons_self)
    have hrest := ih fun hin => h (List.mem_cons_of_mem d hin)
    simp [splitLast, hrest, hne]

/-- A doubled character with none of its kind behind it is found last. -/
theorem splitLast_doubled {c : Char} {front leaf : List Char} (h : c ∉ leaf) :
    splitLast [c, c] (front ++ c :: c :: leaf) = some (front, leaf) := by
  have hsingle : splitLast [c, c] (c :: leaf) = none := by
    cases leaf with
    | nil => simp [splitLast]
    | cons d rest =>
      have hne : c ≠ d := fun hcd => h (hcd ▸ List.mem_cons_self)
      rw [splitLast, splitLast_of_notMem h]
      simp [hne]
  induction front with
  | nil =>
    rw [List.nil_append, splitLast, hsingle]
    simp
  | cons d front ih => rw [List.cons_append, splitLast, ih]

/-- Text before and after the first separator, absent when there is none. -/
def splitOnce (sep text : String) : Option (String × String) :=
  (splitFirst sep.toList text.toList).map fun parts => (String.ofList parts.1, String.ofList parts.2)

/-- Text before and after the last separator, absent when there is none. -/
def rsplitOnce (sep text : String) : Option (String × String) :=
  (splitLast sep.toList text.toList).map fun parts => (String.ofList parts.1, String.ofList parts.2)

/-- What follows a given start of a text. -/
def stripPrefix (start text : String) : Option String :=
  if start.toList.isPrefixOf text.toList then
    some (String.ofList (text.toList.drop start.toList.length))
  else none

/-- Whether a text occurs in another. -/
def occursIn (part text : String) : Bool := part = "" || (splitOnce part text).isSome

/-- The pieces between the occurrences of a character. -/
def pieces (sep : Char) : List Char → List (List Char)
  | [] => [[]]
  | c :: rest =>
    if c = sep then [] :: pieces sep rest
    else match pieces sep rest with
      | [] => [[c]]
      | piece :: others => (c :: piece) :: others

/-- The pieces of a text between the occurrences of a character. -/
def splitOn (sep : Char) (text : String) : List String :=
  (pieces sep text.toList).map String.ofList

/-- One row of the distance table. The arguments are the character of this
row, the value to the left and the row above from the diagonal cell on. -/
def nextRow (a : Char) : ℕ → List ℕ → List Char → List ℕ
  | left, diagonal :: above :: row, b :: bs =>
    let cost := if a = b then 0 else 1
    let cell := min (min (above + 1) (left + 1)) (diagonal + cost)
    cell :: nextRow a cell (above :: row) bs
  | _, _, _ => []

/-- Number of insertions, deletions and replacements between two texts,
computed row by row with only the previous row kept. -/
def editDistance (a b : String) : ℕ :=
  let start := List.range (b.toList.length + 1)
  let rows := a.toList.zipIdx.foldl
    (fun previous cell => (cell.2 + 1) :: nextRow cell.1 (cell.2 + 1) previous b.toList) start
  rows.getLastD 0

example : editDistance "kitten" "sitting" = 3 := by decide

end Tyo3.TextSearch
