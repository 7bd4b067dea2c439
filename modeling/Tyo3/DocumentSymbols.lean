import Tyo3.CodeLayerBuilder
import Tyo3.IdentityAnchors

/-!
# Symbols of a document with their durable ids

The code layer reads the symbols of a file after the registry was
reconciled: each symbol is looked up by its identity path and carries the id
and the hashes found there.
-/

namespace Tyo3.DocumentSymbols

open CodeLayer CodeLayerBuilder Entities FiniteMaps IdentityAnchors

/-- The reported kind of a symbol. -/
def symbolKindToDto : SymbolKind → SymbolKindDto
  | .module_ => .module_
  | .class_ => .class_
  | .function => .function
  | .method => .method
  | .constructor => .constructor
  | .variable_ => .variable_
  | .constant => .constant
  | .field => .field
  | .parameter => .parameter
  | .property => .property
  | .typeParameter => .typeParameter
  | .import_ => .import_

/-- What the walk over the symbols of one file reads. -/
structure SymbolWalkCtx where
  /-- Path of the file. -/
  filePath : String
  /-- The registry after reconciliation. -/
  registry : IdentityRegistry
  /-- Lines and columns of a range. -/
  rangeOf : TextRange → Range
  /-- Hash of a definition under each configured profile. -/
  profileHashes : TextRange → FMap String ContentHash
  /-- Names of the configured profiles. -/
  profiles : Finset String
  /-- The profile of the default hash. -/
  defaultProfile : String

/-- Hashes by profile, as texts. -/
def SymbolWalkCtx.contentHashes (ctx : SymbolWalkCtx) (range : TextRange) : FMap String String :=
  (HashOrder.increasing.order ctx.profiles).foldl (fun hashes profile =>
    match (ctx.profileHashes range).lookup profile with
    | some hash => hashes.insert profile (toString hash.val)
    | none => hashes) ∅

mutual

/-- The symbols of one tree. -/
def collectSymbolsRecursive (ctx : SymbolWalkCtx) (parentName parentIdentityPath : Option String) :
    SymbolTree → List SymbolDto
  | .node info children =>
    let qualified := parentName.map fun p => p ++ "." ++ info.name
    let identityPath := match parentIdentityPath with
      | some p => p ++ "::" ++ info.name
      | none => ctx.filePath ++ "::" ++ info.name
    let anchor := (ctx.registry.byPath.lookup identityPath).bind ctx.registry.get
    let hashes := ctx.contentHashes info.fullRange
    { name := info.name
      qualifiedName := qualified
      kind := symbolKindToDto info.kind
      range := ctx.rangeOf info.fullRange
      selectionRange := some (ctx.rangeOf info.nameRange)
      containerName := parentName
      durableId := anchor.map Anchor.id
      contentHash :=
        if ctx.profiles = ∅ then anchor.map fun a => toString a.contentHash.val
        else hashes.lookup ctx.defaultProfile
      contentHashes := if ctx.profiles = ∅ then ∅ else hashes } ::
      collectSymbolsForest ctx (some (qualified.getD info.name)) (some identityPath) children

/-- The symbols of sibling trees. -/
def collectSymbolsForest (ctx : SymbolWalkCtx) (parentName parentIdentityPath : Option String) :
    List SymbolTree → List SymbolDto
  | [] => []
  | tree :: trees =>
    collectSymbolsRecursive ctx parentName parentIdentityPath tree ++
      collectSymbolsForest ctx parentName parentIdentityPath trees

end

end Tyo3.DocumentSymbols
