import Mathlib.Algebra.GroupWithZero.Nat
import Mathlib.Data.Fin.Basic
import Mathlib.Tactic.Common

/-!
# Addressable entities of a project

An entity is one symbol of one file at one revision. Extraction walks the
symbol forest that the analysis engine returns for a file and joins names
with double colons. The hash of a definition is a function of its range
here; the canonical rendering supplies that function.
-/

namespace Tyo3.Entities

/-- A 128-bit content hash. -/
abbrev ContentHash := Fin (2 ^ 128)

/-- Hashes can be written as numerals. -/
instance contentHash_neZero : NeZero (2 ^ 128) := ⟨by decide⟩

/-- The application revision counter. -/
abbrev Revision := ℕ

/-- The kind of an addressable symbol. -/
inductive SymbolKind where
  | module_ | class_ | function | method | constructor | variable_
  | constant | field | parameter | property | typeParameter | import_
  deriving DecidableEq, Repr, Inhabited

/-- A half-open range of byte offsets in a source text. -/
structure TextRange where
  /-- Offset of the first byte. -/
  start : ℕ
  /-- Offset after the last byte. -/
  stop : ℕ
  deriving DecidableEq, Repr, Inhabited

/-- One addressable entity of a project at a given revision. -/
structure Entity where
  /-- File path and names of all enclosing symbols, joined by double colons. -/
  qualifiedPath : String
  /-- Kind of the symbol. -/
  kind : SymbolKind
  /-- Hash of the canonical rendering of the definition. -/
  contentHash : ContentHash
  /-- Qualified path of the enclosing symbol, absent at the top level. -/
  container : Option String
  /-- Unqualified name. -/
  name : String
  /-- Path text of the defining file. -/
  file : String
  /-- Range of the whole definition. -/
  fullRange : TextRange
  /-- Range of the name alone. -/
  nameRange : TextRange
  /-- Dotted name relative to the file. -/
  qualifiedName : String
  deriving DecidableEq, Repr, Inhabited

/-- What the engine reports about one symbol. -/
structure SymbolInfo where
  /-- Unqualified name. -/
  name : String
  /-- Kind of the symbol. -/
  kind : SymbolKind
  /-- Range of the whole definition. -/
  fullRange : TextRange
  /-- Range of the name alone. -/
  nameRange : TextRange
  deriving DecidableEq, Repr

/-- A symbol with the symbols nested in it, in document order. -/
inductive SymbolTree where
  | node (info : SymbolInfo) (children : List SymbolTree)

mutual

/-- The entities of one symbol and of everything nested in it. The two
optional texts are the qualified path and the dotted name of the parent. -/
def collectEntitiesRecursive (hashOf : TextRange → ContentHash) (file : String)
    (parentQualified parentDotted : Option String) : SymbolTree → List Entity
  | .node info children =>
    let qualifiedPath := match parentQualified with
      | some p => p ++ "::" ++ info.name
      | none => file ++ "::" ++ info.name
    let dotted := match parentDotted with
      | some p => p ++ "." ++ info.name
      | none => info.name
    { qualifiedPath := qualifiedPath
      kind := info.kind
      contentHash := hashOf info.fullRange
      container := parentQualified
      name := info.name
      file := file
      fullRange := info.fullRange
      nameRange := info.nameRange
      qualifiedName := dotted } ::
      collectEntitiesForest hashOf file (some qualifiedPath) (some dotted) children

/-- The entities of a list of sibling symbols, in document order. -/
def collectEntitiesForest (hashOf : TextRange → ContentHash) (file : String)
    (parentQualified parentDotted : Option String) : List SymbolTree → List Entity
  | [] => []
  | tree :: trees =>
    collectEntitiesRecursive hashOf file parentQualified parentDotted tree ++
      collectEntitiesForest hashOf file parentQualified parentDotted trees

end

mutual

/-- The entities of a symbol name the file they are found in. -/
theorem file_of_mem_collectEntitiesRecursive {hashOf : TextRange → ContentHash} {file : String}
    {parentQualified parentDotted : Option String} {e : Entity} :
    ∀ {tree : SymbolTree},
      e ∈ collectEntitiesRecursive hashOf file parentQualified parentDotted tree → e.file = file
  | .node info children, h => by
    simp only [collectEntitiesRecursive, List.mem_cons] at h
    rcases h with hroot | hbelow
    · rw [hroot]
    · exact file_of_mem_collectEntitiesForest hbelow

/-- The entities of sibling symbols name the file they are found in. -/
theorem file_of_mem_collectEntitiesForest {hashOf : TextRange → ContentHash} {file : String}
    {parentQualified parentDotted : Option String} {e : Entity} :
    ∀ {trees : List SymbolTree},
      e ∈ collectEntitiesForest hashOf file parentQualified parentDotted trees → e.file = file
  | [], h => by
    simp only [collectEntitiesForest, List.not_mem_nil] at h
  | tree :: trees, h => by
    simp only [collectEntitiesForest, List.mem_append] at h
    rcases h with hfirst | hrest
    · exact file_of_mem_collectEntitiesRecursive hfirst
    · exact file_of_mem_collectEntitiesForest hrest

end

end Tyo3.Entities
