import Tyo3.SystemPaths

/-!
# The file a path leads to

A name that is joined to a path may hold slashes and dots. The file system
follows it piece by piece: an empty piece and a dot stay, two dots go up, and a
name that starts with a slash starts again at the root. Two paths of different
names may therefore lead to one file; plain names do not.
-/

namespace Tyo3.ResolvedPaths

open SystemPaths TextSearch

/-- The place that one piece of a name leads to. -/
def enter (dir : List String) (piece : String) : List String :=
  if piece = "" ∨ piece = "." then dir
  else if piece = ".." then dir.dropLast
  else dir ++ [piece]

/-- The place that a joined name leads to. -/
def follow (dir : List String) (name : String) : List String :=
  (splitOn '/' name).foldl enter (if name.toList.head? = some '/' then [] else dir)

/-- The file or directory a path leads to, where every directory on the way
is there. -/
def resolve (p : SystemPath) : SystemPath := ⟨p.components.foldl follow []⟩

/-- A name that is a single piece. -/
def Whole (name : String) : Prop := '/' ∉ name.toList

/-- A name of one directory or file. -/
def Plain (name : String) : Prop := Whole name ∧ name ≠ "" ∧ name ≠ "." ∧ name ≠ ".."

instance (name : String) : Decidable (Whole name) := inferInstanceAs (Decidable (_ ∉ _))

instance (name : String) : Decidable (Plain name) := inferInstanceAs (Decidable (_ ∧ _))

/-- Characters without the separator are one piece. -/
theorem pieces_of_not_mem {sep : Char} {cs : List Char} (h : sep ∉ cs) : pieces sep cs = [cs] := by
  induction cs with
  | nil => rfl
  | cons c cs ih =>
    have hc : c ≠ sep := fun heq => h (heq ▸ List.mem_cons_self)
    have hrest : pieces sep cs = [cs] := ih fun hmem => h (List.mem_cons_of_mem _ hmem)
    rw [pieces, if_neg hc, hrest]

/-- A single piece leads one step on. -/
theorem follow_of_whole {dir : List String} {name : String} (h : Whole name) :
    follow dir name = enter dir name := by
  have hsplit : splitOn '/' name = [name] := by
    unfold splitOn
    rw [pieces_of_not_mem h, List.map_singleton, String.ofList_toList]
  have hstart : name.toList.head? ≠ some '/' := fun hhead => h (List.mem_of_mem_head? hhead)
  unfold follow
  rw [hsplit, if_neg hstart]
  rfl

/-- A plain name leads into the directory of this name. -/
theorem follow_of_plain {dir : List String} {name : String} (h : Plain name) :
    follow dir name = dir ++ [name] := by
  obtain ⟨hwhole, hempty, hdot, hup⟩ := h
  have hstay : ¬(name = "" ∨ name = ".") := fun hor => hor.elim hempty hdot
  rw [follow_of_whole hwhole, enter, if_neg hstay, if_neg hup]

/-- A path below a path is followed from where the latter leads. -/
theorem resolve_join (p : SystemPath) (names : List String) :
    (resolve (p.join names)).components = names.foldl follow (resolve p).components := by
  unfold resolve SystemPath.join
  rw [List.foldl_append]

end Tyo3.ResolvedPaths
