import Mathlib.Data.String.Basic
import Mathlib.Tactic.Common

/-!
# Python syntax trees

A node has a kind and its fields in source order: child nodes, identifiers
and scalar data that no traversal visits. A table gives the fields of every
kind, and a statement is a node whose fields follow the table all the way
down. Source ranges and marks of formatting (quotes, parentheses, contexts
that the position implies) are left out.
-/

namespace Tyo3.PythonSyntax

/-- Kinds of nodes. The last three group fields and are no nodes of their
own: the suite of a compound statement, an item of a dictionary display and
an item of a mapping pattern. -/
inductive NodeKind where
  | stmtFunctionDef | stmtClassDef | stmtReturn | stmtDelete | stmtTypeAlias | stmtAssign
  | stmtAugAssign | stmtAnnAssign | stmtFor | stmtWhile | stmtIf | stmtWith | stmtMatch
  | stmtRaise | stmtTry | stmtAssert | stmtImport | stmtImportFrom | stmtGlobal | stmtNonlocal
  | stmtExpr | stmtPass | stmtBreak | stmtContinue | stmtIpyEscapeCommand
  | exprBoolOp | exprNamed | exprBinOp | exprUnaryOp | exprLambda | exprIf | exprDict | exprSet
  | exprListComp | exprSetComp | exprDictComp | exprGenerator | exprAwait | exprYield
  | exprYieldFrom | exprCompare | exprCall | exprFString | exprTString | exprStringLiteral
  | exprBytesLiteral | exprNumberLiteral | exprBooleanLiteral | exprNoneLiteral
  | exprEllipsisLiteral | exprAttribute | exprSubscript | exprStarred | exprName | exprList
  | exprTuple | exprSlice | exprIpyEscapeCommand
  | exceptHandler | interpolatedElement | interpolatedStringLiteralElement
  | interpolatedStringFormatSpec
  | patternMatchValue | patternMatchSingleton | patternMatchSequence | patternMatchMapping
  | patternMatchClass | patternMatchStar | patternMatchAs | patternMatchOr
  | patternArguments | patternKeyword
  | typeParamTypeVar | typeParamTypeVarTuple | typeParamParamSpec | typeParams
  | comprehension | arguments | parameters | parameter | parameterWithDefault | keyword
  | alias | withItem | matchCase | decorator | elifElseClause | fString | tString
  | stringLiteral | bytesLiteral
  | suite | dictItem | mappingItem
  deriving DecidableEq, Repr

/-- The name a kind is printed with. -/
def NodeKind.debugName : NodeKind → Option String
  | .stmtFunctionDef => some "StmtFunctionDef"
  | .stmtClassDef => some "StmtClassDef"
  | .stmtReturn => some "StmtReturn"
  | .stmtDelete => some "StmtDelete"
  | .stmtTypeAlias => some "StmtTypeAlias"
  | .stmtAssign => some "StmtAssign"
  | .stmtAugAssign => some "StmtAugAssign"
  | .stmtAnnAssign => some "StmtAnnAssign"
  | .stmtFor => some "StmtFor"
  | .stmtWhile => some "StmtWhile"
  | .stmtIf => some "StmtIf"
  | .stmtWith => some "StmtWith"
  | .stmtMatch => some "StmtMatch"
  | .stmtRaise => some "StmtRaise"
  | .stmtTry => some "StmtTry"
  | .stmtAssert => some "StmtAssert"
  | .stmtImport => some "StmtImport"
  | .stmtImportFrom => some "StmtImportFrom"
  | .stmtGlobal => some "StmtGlobal"
  | .stmtNonlocal => some "StmtNonlocal"
  | .stmtExpr => some "StmtExpr"
  | .stmtPass => some "StmtPass"
  | .stmtBreak => some "StmtBreak"
  | .stmtContinue => some "StmtContinue"
  | .stmtIpyEscapeCommand => some "StmtIpyEscapeCommand"
  | .exprBoolOp => some "ExprBoolOp"
  | .exprNamed => some "ExprNamed"
  | .exprBinOp => some "ExprBinOp"
  | .exprUnaryOp => some "ExprUnaryOp"
  | .exprLambda => some "ExprLambda"
  | .exprIf => some "ExprIf"
  | .exprDict => some "ExprDict"
  | .exprSet => some "ExprSet"
  | .exprListComp => some "ExprListComp"
  | .exprSetComp => some "ExprSetComp"
  | .exprDictComp => some "ExprDictComp"
  | .exprGenerator => some "ExprGenerator"
  | .exprAwait => some "ExprAwait"
  | .exprYield => some "ExprYield"
  | .exprYieldFrom => some "ExprYieldFrom"
  | .exprCompare => some "ExprCompare"
  | .exprCall => some "ExprCall"
  | .exprFString => some "ExprFString"
  | .exprTString => some "ExprTString"
  | .exprStringLiteral => some "ExprStringLiteral"
  | .exprBytesLiteral => some "ExprBytesLiteral"
  | .exprNumberLiteral => some "ExprNumberLiteral"
  | .exprBooleanLiteral => some "ExprBooleanLiteral"
  | .exprNoneLiteral => some "ExprNoneLiteral"
  | .exprEllipsisLiteral => some "ExprEllipsisLiteral"
  | .exprAttribute => some "ExprAttribute"
  | .exprSubscript => some "ExprSubscript"
  | .exprStarred => some "ExprStarred"
  | .exprName => some "ExprName"
  | .exprList => some "ExprList"
  | .exprTuple => some "ExprTuple"
  | .exprSlice => some "ExprSlice"
  | .exprIpyEscapeCommand => some "ExprIpyEscapeCommand"
  | .exceptHandler => some "ExceptHandlerExceptHandler"
  | .interpolatedElement => some "InterpolatedElement"
  | .interpolatedStringLiteralElement => some "InterpolatedStringLiteralElement"
  | .interpolatedStringFormatSpec => some "InterpolatedStringFormatSpec"
  | .patternMatchValue => some "PatternMatchValue"
  | .patternMatchSingleton => some "PatternMatchSingleton"
  | .patternMatchSequence => some "PatternMatchSequence"
  | .patternMatchMapping => some "PatternMatchMapping"
  | .patternMatchClass => some "PatternMatchClass"
  | .patternMatchStar => some "PatternMatchStar"
  | .patternMatchAs => some "PatternMatchAs"
  | .patternMatchOr => some "PatternMatchOr"
  | .patternArguments => some "PatternArguments"
  | .patternKeyword => some "PatternKeyword"
  | .typeParamTypeVar => some "TypeParamTypeVar"
  | .typeParamTypeVarTuple => some "TypeParamTypeVarTuple"
  | .typeParamParamSpec => some "TypeParamParamSpec"
  | .typeParams => some "TypeParams"
  | .comprehension => some "Comprehension"
  | .arguments => some "Arguments"
  | .parameters => some "Parameters"
  | .parameter => some "Parameter"
  | .parameterWithDefault => some "ParameterWithDefault"
  | .keyword => some "Keyword"
  | .alias => some "Alias"
  | .withItem => some "WithItem"
  | .matchCase => some "MatchCase"
  | .decorator => some "Decorator"
  | .elifElseClause => some "ElifElseClause"
  | .fString => some "FString"
  | .tString => some "TString"
  | .stringLiteral => some "StringLiteral"
  | .bytesLiteral => some "BytesLiteral"
  | .suite => none
  | .dictItem => none
  | .mappingItem => none

/-- Binary operators. -/
inductive Operator where
  | add | sub | mult | matMult | div | mod | pow | lShift | rShift | bitOr | bitXor | bitAnd
  | floorDiv
  deriving DecidableEq, Repr

/-- Boolean operators. -/
inductive BoolOp where
  | and | or
  deriving DecidableEq, Repr

/-- Unary operators. -/
inductive UnaryOp where
  | invert | not | uAdd | uSub
  deriving DecidableEq, Repr

/-- Comparison operators. -/
inductive CmpOp where
  | eq | notEq | lt | ltE | gt | gtE | is | isNot | in_ | notIn
  deriving DecidableEq, Repr

/-- Numeric literals, each given by the text it is printed with. -/
inductive Number where
  | int (text : String)
  | float (text : String)
  | complex (real imag : String)
  deriving DecidableEq, Repr

/-- Conversions of an interpolated expression. -/
inductive ConversionFlag where
  | none | str | ascii | repr
  deriving DecidableEq, Repr

/-- Singleton patterns. -/
inductive Singleton where
  | none | true | false
  deriving DecidableEq, Repr

/-- The sorts of scalar data. -/
inductive ScalarSort where
  | flag | operator | boolOp | unaryOp | cmpOps | level | number | boolean | text | bytes
  | conversion | debugText | singleton
  deriving DecidableEq, Repr

/-- Scalar data of a node. -/
inductive Scalar where
  | flag (value : Bool)
  | operator (op : Operator)
  | boolOp (op : BoolOp)
  | unaryOp (op : UnaryOp)
  | cmpOps (ops : List CmpOp)
  | level (dots : ℕ)
  | number (value : Number)
  | boolean (value : Bool)
  | text (value : String)
  | bytes (value : List UInt8)
  | conversion (flag : ConversionFlag)
  | debugText (around : Option (String × String))
  | singleton (value : Singleton)
  deriving DecidableEq, Repr

/-- The sort of a scalar. -/
def Scalar.sort : Scalar → ScalarSort
  | .flag _ => .flag
  | .operator _ => .operator
  | .boolOp _ => .boolOp
  | .unaryOp _ => .unaryOp
  | .cmpOps _ => .cmpOps
  | .level _ => .level
  | .number _ => .number
  | .boolean _ => .boolean
  | .text _ => .text
  | .bytes _ => .bytes
  | .conversion _ => .conversion
  | .debugText _ => .debugText
  | .singleton _ => .singleton

mutual

/-- A node: its kind and its fields in source order. -/
inductive Node where
  | mk (kind : NodeKind) (items : Items)

/-- The fields of a node one after the other. An optional field without a
value is absent; a repeated field is its values and a stop. -/
inductive Items where
  | nil
  | scalar (value : Scalar) (rest : Items)
  | ident (name : String) (rest : Items)
  | absent (rest : Items)
  | stop (rest : Items)
  | child (node : Node) (rest : Items)

end

deriving instance DecidableEq for Node, Items

/-- The kind of a node. -/
def Node.kind : Node → NodeKind
  | .mk kind _ => kind

/-- The first field of a node when it is a scalar. -/
def Items.leadingScalar : Items → Option Scalar
  | .scalar value _ => some value
  | _ => none

/-! ## The fields of every kind -/

/-- What may stand in a field. -/
inductive Category where
  | expr | suite | decorator | typeParams | typeParam | parameters | parameterWithDefault
  | parameter | arguments | argument | comprehension | alias | withItem | elifElseClause
  | matchCase | handler | pattern | patternArguments | patternArgument | dictItem | mappingItem
  | stringLiteral | bytesLiteral | fStringPart | tString | interpolated | formatSpec
  deriving DecidableEq, Repr

/-- One field of a kind. The statements of a suite are its only field and
end with it. -/
inductive Slot where
  | one (category : Category)
  | optional (category : Category)
  | many (category : Category)
  | ident
  | identOptional
  | idents
  | stmts
  | scalar (sort : ScalarSort)
  deriving DecidableEq, Repr

/-- The fields of a kind in source order; scalar fields stand first, except
for those between two children. -/
def NodeKind.slots : NodeKind → List Slot
  | .stmtFunctionDef => [.scalar .flag, .many .decorator, .ident, .optional .typeParams,
      .one .parameters, .optional .expr, .one .suite]
  | .stmtClassDef => [.many .decorator, .ident, .optional .typeParams, .optional .arguments,
      .one .suite]
  | .stmtReturn => [.optional .expr]
  | .stmtDelete => [.many .expr]
  | .stmtTypeAlias => [.one .expr, .optional .typeParams, .one .expr]
  | .stmtAssign => [.many .expr, .one .expr]
  | .stmtAugAssign => [.one .expr, .scalar .operator, .one .expr]
  | .stmtAnnAssign => [.one .expr, .one .expr, .optional .expr]
  | .stmtFor => [.scalar .flag, .one .expr, .one .expr, .one .suite, .one .suite]
  | .stmtWhile => [.one .expr, .one .suite, .one .suite]
  | .stmtIf => [.one .expr, .one .suite, .many .elifElseClause]
  | .stmtWith => [.scalar .flag, .many .withItem, .one .suite]
  | .stmtMatch => [.one .expr, .many .matchCase]
  | .stmtRaise => [.optional .expr, .optional .expr]
  | .stmtTry => [.scalar .flag, .one .suite, .many .handler, .one .suite, .one .suite]
  | .stmtAssert => [.one .expr, .optional .expr]
  | .stmtImport => [.many .alias]
  | .stmtImportFrom => [.scalar .level, .identOptional, .many .alias]
  | .stmtGlobal => [.idents]
  | .stmtNonlocal => [.idents]
  | .stmtExpr => [.one .expr]
  | .stmtPass => []
  | .stmtBreak => []
  | .stmtContinue => []
  | .stmtIpyEscapeCommand => [.scalar .text, .scalar .text]
  | .exprBoolOp => [.scalar .boolOp, .many .expr]
  | .exprNamed => [.one .expr, .one .expr]
  | .exprBinOp => [.scalar .operator, .one .expr, .one .expr]
  | .exprUnaryOp => [.scalar .unaryOp, .one .expr]
  | .exprLambda => [.optional .parameters, .one .expr]
  | .exprIf => [.one .expr, .one .expr, .one .expr]
  | .exprDict => [.many .dictItem]
  | .exprSet => [.many .expr]
  | .exprListComp => [.one .expr, .many .comprehension]
  | .exprSetComp => [.one .expr, .many .comprehension]
  | .exprDictComp => [.one .expr, .one .expr, .many .comprehension]
  | .exprGenerator => [.one .expr, .many .comprehension]
  | .exprAwait => [.one .expr]
  | .exprYield => [.optional .expr]
  | .exprYieldFrom => [.one .expr]
  | .exprCompare => [.scalar .cmpOps, .one .expr, .many .expr]
  | .exprCall => [.one .expr, .one .arguments]
  | .exprFString => [.many .fStringPart]
  | .exprTString => [.many .tString]
  | .exprStringLiteral => [.many .stringLiteral]
  | .exprBytesLiteral => [.many .bytesLiteral]
  | .exprNumberLiteral => [.scalar .number]
  | .exprBooleanLiteral => [.scalar .boolean]
  | .exprNoneLiteral => []
  | .exprEllipsisLiteral => []
  | .exprAttribute => [.one .expr, .ident]
  | .exprSubscript => [.one .expr, .one .expr]
  | .exprStarred => [.one .expr]
  | .exprName => [.scalar .text]
  | .exprList => [.many .expr]
  | .exprTuple => [.many .expr]
  | .exprSlice => [.optional .expr, .optional .expr, .optional .expr]
  | .exprIpyEscapeCommand => [.scalar .text, .scalar .text]
  | .exceptHandler => [.optional .expr, .identOptional, .one .suite]
  | .interpolatedElement => [.one .expr, .scalar .debugText, .scalar .conversion,
      .optional .formatSpec]
  | .interpolatedStringLiteralElement => [.scalar .text]
  | .interpolatedStringFormatSpec => [.many .interpolated]
  | .patternMatchValue => [.one .expr]
  | .patternMatchSingleton => [.scalar .singleton]
  | .patternMatchSequence => [.many .pattern]
  | .patternMatchMapping => [.many .mappingItem, .identOptional]
  | .patternMatchClass => [.one .expr, .one .patternArguments]
  | .patternMatchStar => [.identOptional]
  | .patternMatchAs => [.optional .pattern, .identOptional]
  | .patternMatchOr => [.many .pattern]
  | .patternArguments => [.many .patternArgument]
  | .patternKeyword => [.ident, .one .pattern]
  | .typeParamTypeVar => [.ident, .optional .expr, .optional .expr]
  | .typeParamTypeVarTuple => [.ident, .optional .expr]
  | .typeParamParamSpec => [.ident, .optional .expr]
  | .typeParams => [.many .typeParam]
  | .comprehension => [.scalar .flag, .one .expr, .one .expr, .many .expr]
  | .arguments => [.many .argument]
  | .parameters => [.many .parameterWithDefault, .many .parameterWithDefault,
      .optional .parameter, .many .parameterWithDefault, .optional .parameter]
  | .parameter => [.ident, .optional .expr]
  | .parameterWithDefault => [.one .parameter, .optional .expr]
  | .keyword => [.identOptional, .one .expr]
  | .alias => [.ident, .identOptional]
  | .withItem => [.one .expr, .optional .expr]
  | .matchCase => [.one .pattern, .optional .expr, .one .suite]
  | .decorator => [.one .expr]
  | .elifElseClause => [.optional .expr, .one .suite]
  | .fString => [.many .interpolated]
  | .tString => [.many .interpolated]
  | .stringLiteral => [.scalar .text]
  | .bytesLiteral => [.scalar .bytes]
  | .suite => [.stmts]
  | .dictItem => [.optional .expr, .one .expr]
  | .mappingItem => [.one .expr, .one .pattern]

/-- Statements. -/
def NodeKind.isStmt : NodeKind → Bool
  | .stmtFunctionDef | .stmtClassDef | .stmtReturn | .stmtDelete | .stmtTypeAlias | .stmtAssign
  | .stmtAugAssign | .stmtAnnAssign | .stmtFor | .stmtWhile | .stmtIf | .stmtWith | .stmtMatch
  | .stmtRaise | .stmtTry | .stmtAssert | .stmtImport | .stmtImportFrom | .stmtGlobal
  | .stmtNonlocal | .stmtExpr | .stmtPass | .stmtBreak | .stmtContinue
  | .stmtIpyEscapeCommand => true
  | _ => false

/-- Expressions. -/
def NodeKind.isExpr : NodeKind → Bool
  | .exprBoolOp | .exprNamed | .exprBinOp | .exprUnaryOp | .exprLambda | .exprIf | .exprDict
  | .exprSet | .exprListComp | .exprSetComp | .exprDictComp | .exprGenerator | .exprAwait
  | .exprYield | .exprYieldFrom | .exprCompare | .exprCall | .exprFString | .exprTString
  | .exprStringLiteral | .exprBytesLiteral | .exprNumberLiteral | .exprBooleanLiteral
  | .exprNoneLiteral | .exprEllipsisLiteral | .exprAttribute | .exprSubscript | .exprStarred
  | .exprName | .exprList | .exprTuple | .exprSlice | .exprIpyEscapeCommand => true
  | _ => false

/-- Patterns. -/
def NodeKind.isPattern : NodeKind → Bool
  | .patternMatchValue | .patternMatchSingleton | .patternMatchSequence | .patternMatchMapping
  | .patternMatchClass | .patternMatchStar | .patternMatchAs | .patternMatchOr => true
  | _ => false

/-- Whether a kind may stand in a field. -/
def NodeKind.isA (kind : NodeKind) : Category → Bool
  | .expr => kind.isExpr
  | .suite => kind = .suite
  | .decorator => kind = .decorator
  | .typeParams => kind = .typeParams
  | .typeParam => kind = .typeParamTypeVar || kind = .typeParamTypeVarTuple ||
      kind = .typeParamParamSpec
  | .parameters => kind = .parameters
  | .parameterWithDefault => kind = .parameterWithDefault
  | .parameter => kind = .parameter
  | .arguments => kind = .arguments
  | .argument => kind.isExpr || kind = .keyword
  | .comprehension => kind = .comprehension
  | .alias => kind = .alias
  | .withItem => kind = .withItem
  | .elifElseClause => kind = .elifElseClause
  | .matchCase => kind = .matchCase
  | .handler => kind = .exceptHandler
  | .pattern => kind.isPattern
  | .patternArguments => kind = .patternArguments
  | .patternArgument => kind.isPattern || kind = .patternKeyword
  | .dictItem => kind = .dictItem
  | .mappingItem => kind = .mappingItem
  | .stringLiteral => kind = .stringLiteral
  | .bytesLiteral => kind = .bytesLiteral
  | .fStringPart => kind = .stringLiteral || kind = .fString
  | .tString => kind = .tString
  | .interpolated => kind = .interpolatedElement || kind = .interpolatedStringLiteralElement
  | .formatSpec => kind = .interpolatedStringFormatSpec

mutual

/-- Whether the fields of a node follow the table all the way down. -/
def Node.wellFormed : Node → Bool
  | .mk kind items => items.follow kind.slots

/-- Whether a list of fields follows a list of slots. -/
def Items.follow : Items → List Slot → Bool
  | .nil, [] => true
  | .nil, [.stmts] => true
  | .child node rest, [.stmts] => node.kind.isStmt && node.wellFormed && rest.follow [.stmts]
  | .scalar value rest, .scalar sort :: slots => value.sort = sort && rest.follow slots
  | .ident _ rest, .ident :: slots => rest.follow slots
  | .ident _ rest, .identOptional :: slots => rest.follow slots
  | .ident _ rest, .idents :: slots => rest.follow (.idents :: slots)
  | .absent rest, .identOptional :: slots => rest.follow slots
  | .absent rest, .optional _ :: slots => rest.follow slots
  | .stop rest, .idents :: slots => rest.follow slots
  | .stop rest, .many _ :: slots => rest.follow slots
  | .child node rest, .one category :: slots =>
    node.kind.isA category && node.wellFormed && rest.follow slots
  | .child node rest, .optional category :: slots =>
    node.kind.isA category && node.wellFormed && rest.follow slots
  | .child node rest, .many category :: slots =>
    node.kind.isA category && node.wellFormed && rest.follow (.many category :: slots)
  | _, _ => false

end

/-- A Python statement. -/
structure Stmt where
  /-- The node. -/
  node : Node
  /-- It is a statement. -/
  isStmt : node.kind.isStmt = true
  /-- Its fields follow the table. -/
  wellFormed : node.wellFormed = true

end Tyo3.PythonSyntax
