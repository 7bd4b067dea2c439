import Mathlib.Data.List.Nodup
import Tyo3.Docstrings

/-!
# What the rendering does not show

The rendering of a statement shows its nodes, some of their scalar data, its
names and where its suites end, in source order. It does not show the other
scalar data, which optional field is absent, where a repeated field ends and
where the fields of a node end that is no suite. Two statements that differ in
something else have different renderings, unless a name in them is spelled like
something that the rendering writes itself or a text holds the separator.
-/

namespace Tyo3.UnseenDifferences

open CanonicalHash Docstrings PythonSyntax StatementPlaces TokenStreams

/-! ## Shown parts -/

/-- The sort of the scalar data of a kind that is written. All other scalar
data is hidden. -/
def shownSort : NodeKind → Option ScalarSort
  | .stmtFunctionDef | .stmtFor | .stmtWith => some .flag
  | .exprName | .stringLiteral | .interpolatedStringLiteralElement => some .text
  | .exprBinOp => some .operator
  | .exprBoolOp => some .boolOp
  | .exprUnaryOp => some .unaryOp
  | .exprCompare => some .cmpOps
  | .exprNumberLiteral => some .number
  | .exprBooleanLiteral => some .boolean
  | .bytesLiteral => some .bytes
  | _ => none

/-- Slots of scalar data. -/
def isScalar : Slot → Bool
  | .scalar _ => true
  | _ => false

/-- The kinds that hide scalar data: the operator of an augmented assignment,
the star of a `try`, the dots of an import, the text of a command, the
conversion and the debug text of an interpolated expression, the singleton of
a pattern, and whether a comprehension is asynchronous. -/
theorem hidesScalar_iff (kind : NodeKind) :
    kind.slots.any isScalar = true ∧ shownSort kind = none ↔
      kind ∈ [.stmtAugAssign, .stmtTry, .stmtImportFrom, .stmtIpyEscapeCommand,
        .exprIpyEscapeCommand, .interpolatedElement, .patternMatchSingleton, .comprehension] := by
  cases kind <;> decide

/-- A part of a statement that is shown. -/
inductive Part where
  /-- A node starts. -/
  | node (kind : NodeKind) (datum : Option Scalar)
  /-- A name stands here. -/
  | name (text : String)
  /-- A suite ends. -/
  | closed
  deriving DecidableEq, Repr

/-- The items of dictionary displays and mapping patterns are no nodes. -/
def isItem (kind : NodeKind) : Bool := kind = .dictItem || kind = .mappingItem

/-- The scalar data of a node that is shown: the first of its fields. -/
def shownDatum (kind : NodeKind) (items : Items) : Option Scalar :=
  if (shownSort kind).isSome then items.leadingScalar else none

mutual

/-- The shown parts of a node in source order. Where its fields end is shown of
a suite only. -/
def parts : Node → List Part
  | .mk kind items =>
    (if isItem kind then [] else [.node kind (shownDatum kind items)]) ++
      (itemsParts items ++ if kind = .suite then [.closed] else [])

/-- The shown parts of fields. Hidden are scalar data that is not first, that an
optional field is absent, and where a repeated field stops. -/
def itemsParts : Items → List Part
  | .nil => []
  | .scalar _ rest => itemsParts rest
  | .ident name rest => .name name :: itemsParts rest
  | .absent rest => itemsParts rest
  | .stop rest => itemsParts rest
  | .child node rest => parts node ++ itemsParts rest

end

/-! ## How parts are spelled -/

/-- The scalar data of a node as it is written before the tag. -/
def datumTexts (kind : NodeKind) (datum : Option Scalar) : List String :=
  stmtTokens kind datum ++ exprTokens kind datum ++ literalTokens kind datum

/-- What is written for a part, less the last text. -/
def Part.front : Part → List String
  | .node kind datum => datumTexts kind datum
  | _ => []

/-- The tag of a node; a suite has a brace in its place. -/
def tag (kind : NodeKind) : String := kind.debugName.getD "\x7b"

/-- The last text that is written for a part. -/
def Part.mark : Part → String
  | .node kind _ => tag kind
  | .name text => text
  | .closed => "\x7d"

/-- What is written for a part. -/
def Part.texts (p : Part) : List String := p.front ++ [p.mark]

/-- The words that parts are spelled with. -/
def spelling (ps : List Part) : List (List Char) := words sep (ps.flatMap Part.texts)

/-- Scalar data of the sort that the kind shows. -/
def Fits (kind : NodeKind) (datum : Option Scalar) : Prop := datum.map Scalar.sort = shownSort kind

/-- A part as it comes from a statement. -/
def Part.Proper : Part → Prop
  | .node kind datum => isItem kind = false ∧ Fits kind datum
  | _ => True

/-- What stands before the scalar data of a kind. -/
def lead : NodeKind → List String
  | .stringLiteral => ["str"]
  | .bytesLiteral => ["bytes"]
  | .interpolatedStringLiteralElement => ["fstr"]
  | _ => []

/-- How scalar data that is shown is written. -/
def scalarTexts : Scalar → List String
  | .flag value => if value then ["async"] else []
  | .operator op => [operatorName op]
  | .boolOp op => [boolOpName op]
  | .unaryOp op => [unaryOpName op]
  | .cmpOps ops => ops.map cmpOpName
  | .number value => [numberName value]
  | .boolean value => [if value then "True" else "False"]
  | .text value => [value]
  | .bytes value => [bytesName value]
  | _ => []

/-- How scalar data is written depends on the kind by what stands before it
only. -/
theorem datumTexts_eq {kind : NodeKind} {datum : Option Scalar} (h : Fits kind datum) :
    datumTexts kind datum = lead kind ++ datum.toList.flatMap scalarTexts := by
  unfold Fits at h
  cases datum with
  | none => cases kind <;> first | rfl | cases h
  | some value =>
    -- the scalar is of the sort that the kind shows
    cases kind <;> first | cases h | skip
    all_goals
      cases value <;> cases h
    all_goals
      rename_i value
      first | rfl | (cases value <;> rfl)

/-- A node starts with the texts of its part. -/
theorem headTokens_eq {kind : NodeKind} (items : Items) (h : isItem kind = false) :
    headTokens kind items = (Part.node kind (shownDatum kind items)).texts := by
  unfold shownDatum headTokens
  generalize items.leadingScalar = datum
  cases kind <;> first | rfl | cases h

theorem headTokens_item {kind : NodeKind} (items : Items) (h : isItem kind = true) :
    headTokens kind items = [] := by
  unfold headTokens
  generalize items.leadingScalar = datum
  cases kind <;> first | rfl | cases h

mutual

/-- A node writes the texts of its parts. -/
theorem nodeTexts_eq : ∀ node : Node, nodeTexts node = (parts node).flatMap Part.texts
  | .mk kind items => by
    have htail : tailTokens kind =
        (if kind = .suite then [Part.closed] else []).flatMap Part.texts := by
      unfold tailTokens
      split <;> rfl
    rw [nodeTexts, parts, List.flatMap_append, List.flatMap_append, itemsTexts_eq items, htail]
    congr 1
    cases hitem : isItem kind with
    | true => exact headTokens_item items hitem
    | false => exact (headTokens_eq items hitem).trans (List.append_nil _).symm

/-- Fields write the texts of their parts. -/
theorem itemsTexts_eq : ∀ items : Items, itemsTexts items = (itemsParts items).flatMap Part.texts
  | .nil => rfl
  | .scalar _ rest => itemsTexts_eq rest
  | .ident name rest => congrArg (name :: ·) (itemsTexts_eq rest)
  | .absent rest => itemsTexts_eq rest
  | .stop rest => itemsTexts_eq rest
  | .child node rest => by
    rw [itemsTexts, itemsParts, List.flatMap_append, nodeTexts_eq node, itemsTexts_eq rest]

end

/-- Two statements have one rendering exactly when their parts are spelled
alike. -/
theorem renderStmt_eq_iff_spelling (policy : HashPolicy) (a b : Stmt) :
    renderStmt a policy = renderStmt b policy ↔
      spelling (parts (meaning policy a)) = spelling (parts (meaning policy b)) := by
  rw [renderStmt_eq_iff, nodeTexts_eq, nodeTexts_eq]
  exact Iff.rfl

/-! ## Parts of well-formed nodes -/

/-- Fields that follow the slots of a kind give the scalar data that it shows. -/
theorem fits_shownDatum {kind : NodeKind} {items : Items} (h : items.follow kind.slots = true) :
    Fits kind (shownDatum kind items) := by
  unfold Fits shownDatum
  cases hsort : shownSort kind with
  | none => rfl
  | some sort =>
    have hslots : ∃ tail, kind.slots = .scalar sort :: tail := by
      cases kind <;> cases hsort <;> exact ⟨_, rfl⟩
    obtain ⟨tail, htail⟩ := hslots
    rw [htail] at h
    cases items <;> simp only [Items.follow, Bool.and_eq_true, Bool.false_eq_true] at h
    exact congrArg some (of_decide_eq_true h.1)

mutual

/-- The parts of a well-formed node have the scalar data of their kinds. -/
theorem proper_parts : ∀ node : Node, node.wellFormed = true → ∀ p ∈ parts node, p.Proper
  | .mk kind items, h, p, hp => by
    rw [parts] at hp
    rcases List.mem_append.mp hp with hhead | hrest
    · cases hitem : isItem kind with
      | true =>
        rw [hitem] at hhead
        cases hhead
      | false =>
        rw [hitem] at hhead
        rw [List.mem_singleton.mp hhead]
        exact ⟨hitem, fits_shownDatum h⟩
    · rcases List.mem_append.mp hrest with hfields | hclosed
      · exact proper_itemsParts items kind.slots h p hfields
      · split at hclosed
        · rw [List.mem_singleton.mp hclosed]
          trivial
        · cases hclosed

/-- The parts of well-formed fields have the scalar data of their kinds. -/
theorem proper_itemsParts : ∀ (items : Items) (slots : List Slot), items.follow slots = true →
    ∀ p ∈ itemsParts items, p.Proper
  | .nil, _, _, _, hp => by cases hp
  | .scalar _ rest, slots, h, p, hp => by
    obtain ⟨_, tail, -, -, hrest | hrest⟩ := follow_leaf rfl h
    · exact proper_itemsParts rest _ hrest p hp
    · exact proper_itemsParts rest _ hrest p hp
  | .ident _ rest, slots, h, p, hp => by
    rcases List.mem_cons.mp hp with rfl | hlater
    · trivial
    · obtain ⟨_, tail, -, -, hrest | hrest⟩ := follow_leaf rfl h
      · exact proper_itemsParts rest _ hrest p hlater
      · exact proper_itemsParts rest _ hrest p hlater
  | .absent rest, slots, h, p, hp => by
    obtain ⟨_, tail, -, -, hrest | hrest⟩ := follow_leaf rfl h
    · exact proper_itemsParts rest _ hrest p hp
    · exact proper_itemsParts rest _ hrest p hp
  | .stop rest, slots, h, p, hp => by
    obtain ⟨_, tail, -, -, hrest | hrest⟩ := follow_leaf rfl h
    · exact proper_itemsParts rest _ hrest p hp
    · exact proper_itemsParts rest _ hrest p hp
  | .child node rest, slots, h, p, hp => by
    obtain ⟨_, tail, -, -, hnode, hrest⟩ := follow_child h
    rcases List.mem_append.mp hp with hin | hlater
    · exact proper_parts node hnode p hin
    · exact proper_itemsParts rest _ hrest p hlater

end

/-- The parts of a statement have the scalar data of their kinds. -/
theorem proper_meaning (policy : HashPolicy) (stmt : Stmt) :
    ∀ p ∈ parts (meaning policy stmt), p.Proper := by
  rw [meaning_eq]
  exact proper_parts _ (wellFormed_stripNode _ _ _ stmt.wellFormed)

/-! ## Reading parts back -/

/-- The printed names of comparisons. -/
def comparisons : List String :=
  ["Eq", "NotEq", "Lt", "LtE", "Gt", "GtE", "Is", "IsNot", "In", "NotIn"]

/-- What the rendering writes before a tag an uncertain number of times. -/
def openers : List String := "async" :: comparisons

/-- Words that a name is not told from. -/
def Reserved (word : String) : Prop :=
  (∃ kind : NodeKind, kind.debugName = some word) ∨ word ∈ ["\x7b", "\x7d"] ∨ word ∈ openers

/-- Scalar data that is read back from its text: it does not hold the separator,
and the real part of a complex number no comma. -/
def LegibleScalar : Scalar → Prop
  | .text value => sep ∉ value.toList
  | .number (.int text) => sep ∉ text.toList
  | .number (.float text) => sep ∉ text.toList
  | .number (.complex real imag) =>
    sep ∉ real.toList ∧ ',' ∉ real.toList ∧ sep ∉ imag.toList
  | _ => True

/-- A part that is told from others: names are not reserved, and no text holds
the separator. -/
def Part.Legible : Part → Prop
  | .node _ datum => ∀ value ∈ datum, LegibleScalar value
  | .name text => sep ∉ text.toList ∧ ¬ Reserved text
  | .closed => True

/-- Texts after which it is certain how many openers there are: none. -/
def Ended (texts : List String) : Prop := ∀ last ∈ texts.getLast?, last ∉ openers

theorem cmpOpName_mem (op : CmpOp) : cmpOpName op ∈ comparisons := by
  cases op <;> decide

theorem mark_not_mem_openers {p : Part} (hlegible : p.Legible) : p.mark ∉ openers := by
  cases p with
  | node kind datum =>
    change tag kind ∉ openers
    cases kind <;> decide
  | name text => exact fun hmem => hlegible.2 (.inr (.inr hmem))
  | closed => decide

/-- Legible parts leave no opener behind. -/
theorem ended_parts {ps : List Part} (hps : ∀ p ∈ ps, p.Legible) :
    Ended (ps.flatMap Part.texts) := by
  intro last hlast
  rcases List.eq_nil_or_concat' ps with rfl | ⟨init, p, rfl⟩
  · cases hlast
  · rw [List.flatMap_append, List.flatMap_singleton] at hlast
    unfold Part.texts at hlast
    rw [← List.append_assoc, List.getLast?_concat] at hlast
    rw [← Option.some.inj hlast]
    exact mark_not_mem_openers (hps p List.mem_concat_self)

/-- What stands before scalar data is no opener. -/
theorem ended_lead {xs : List String} (h : Ended xs) (kind : NodeKind) :
    Ended (xs ++ lead kind) := by
  have hlead : lead kind = [] ∨ ∃ word, lead kind = [word] ∧ word ∉ openers := by
    cases kind <;> first | exact .inl rfl | exact .inr ⟨_, rfl, by decide⟩
  rcases hlead with hnil | ⟨word, hword, hopen⟩
  · rwa [hnil, List.append_nil]
  · intro last hlast
    rw [hword, List.getLast?_concat] at hlast
    exact Option.some.inj hlast ▸ hopen

/-! ### Printed names -/

/-- All kinds with a name or a brace of their own. -/
def marked : List NodeKind :=
  [.stmtFunctionDef, .stmtClassDef, .stmtReturn, .stmtDelete, .stmtTypeAlias, .stmtAssign,
    .stmtAugAssign, .stmtAnnAssign, .stmtFor, .stmtWhile, .stmtIf, .stmtWith, .stmtMatch,
    .stmtRaise, .stmtTry, .stmtAssert, .stmtImport, .stmtImportFrom, .stmtGlobal, .stmtNonlocal,
    .stmtExpr, .stmtPass, .stmtBreak, .stmtContinue, .stmtIpyEscapeCommand, .exprBoolOp,
    .exprNamed, .exprBinOp, .exprUnaryOp, .exprLambda, .exprIf, .exprDict, .exprSet,
    .exprListComp, .exprSetComp, .exprDictComp, .exprGenerator, .exprAwait, .exprYield,
    .exprYieldFrom, .exprCompare, .exprCall, .exprFString, .exprTString, .exprStringLiteral,
    .exprBytesLiteral, .exprNumberLiteral, .exprBooleanLiteral, .exprNoneLiteral,
    .exprEllipsisLiteral, .exprAttribute, .exprSubscript, .exprStarred, .exprName, .exprList,
    .exprTuple, .exprSlice, .exprIpyEscapeCommand, .exceptHandler, .interpolatedElement,
    .interpolatedStringLiteralElement, .interpolatedStringFormatSpec, .patternMatchValue,
    .patternMatchSingleton, .patternMatchSequence, .patternMatchMapping, .patternMatchClass,
    .patternMatchStar, .patternMatchAs, .patternMatchOr, .patternArguments, .patternKeyword,
    .typeParamTypeVar, .typeParamTypeVarTuple, .typeParamParamSpec, .typeParams, .comprehension,
    .arguments, .parameters, .parameter, .parameterWithDefault, .keyword, .alias, .withItem,
    .matchCase, .decorator, .elifElseClause, .fString, .tString, .stringLiteral, .bytesLiteral,
    .suite]

theorem nodup_tags : (marked.map tag).Nodup := by
  decide +kernel

/-- Nodes of different kinds have different tags. -/
theorem kind_of_tag {kind kind' : NodeKind} (hitem : isItem kind = false)
    (hitem' : isItem kind' = false) (h : tag kind = tag kind') : kind = kind' := by
  have hmem : ∀ kind : NodeKind, isItem kind = false → kind ∈ marked := by
    intro kind hitem
    cases kind <;> first | decide | cases hitem
  exact List.inj_on_of_nodup_map nodup_tags (hmem kind hitem) (hmem kind' hitem') h

/-- A tag is a reserved word. -/
theorem reserved_tag (kind : NodeKind) : Reserved (tag kind) := by
  unfold Reserved tag
  cases hname : kind.debugName with
  | none => exact .inr (.inl List.mem_cons_self)
  | some word => exact .inl ⟨kind, hname⟩

theorem operatorName_injective : Function.Injective operatorName := by
  intro a b
  cases a <;> cases b <;> decide

theorem boolOpName_injective : Function.Injective boolOpName := by
  intro a b
  cases a <;> cases b <;> decide

theorem unaryOpName_injective : Function.Injective unaryOpName := by
  intro a b
  cases a <;> cases b <;> decide

theorem cmpOpName_injective : Function.Injective cmpOpName := by
  intro a b
  cases a <;> cases b <;> decide

theorem toList_int (text : String) :
    (numberName (.int text)).toList = 'I' :: ("nt(".toList ++ (text.toList ++ [')'])) := by
  change ("Int(" ++ text ++ ")").toList = _
  simp

theorem toList_float (text : String) :
    (numberName (.float text)).toList = 'F' :: ("loat(".toList ++ (text.toList ++ [')'])) := by
  change ("Float(" ++ text ++ ")").toList = _
  simp

theorem toList_complex (real imag : String) :
    (numberName (.complex real imag)).toList = 'C' :: ("omplex \x7b real: ".toList ++
      (real.toList ++ ',' :: (" imag: ".toList ++ (imag.toList ++ " \x7d".toList)))) := by
  change ("Complex \x7b real: " ++ real ++ ", imag: " ++ imag ++ " \x7d").toList = _
  simp

/-- Numbers that are legible are read back from their text. -/
theorem numberName_inj {a b : Number} (ha : LegibleScalar (.number a))
    (hb : LegibleScalar (.number b)) (h : numberName a = numberName b) : a = b := by
  have hlist := congrArg String.toList h
  cases a with
  | int text =>
    rw [toList_int] at hlist
    cases b with
    | int text' =>
      rw [toList_int] at hlist
      have htext := List.append_cancel_left (List.cons.inj hlist).2
      rw [String.toList_inj.mp (List.append_cancel_right htext)]
    | float _ =>
      rw [toList_float] at hlist
      exact absurd (List.cons.inj hlist).1 (by decide)
    | complex _ _ =>
      rw [toList_complex] at hlist
      exact absurd (List.cons.inj hlist).1 (by decide)
  | float text =>
    rw [toList_float] at hlist
    cases b with
    | int _ =>
      rw [toList_int] at hlist
      exact absurd (List.cons.inj hlist).1 (by decide)
    | float text' =>
      rw [toList_float] at hlist
      have htext := List.append_cancel_left (List.cons.inj hlist).2
      rw [String.toList_inj.mp (List.append_cancel_right htext)]
    | complex _ _ =>
      rw [toList_complex] at hlist
      exact absurd (List.cons.inj hlist).1 (by decide)
  | complex real imag =>
    rw [toList_complex] at hlist
    cases b with
    | int _ =>
      rw [toList_int] at hlist
      exact absurd (List.cons.inj hlist).1 (by decide)
    | float _ =>
      rw [toList_float] at hlist
      exact absurd (List.cons.inj hlist).1 (by decide)
    | complex real' imag' =>
      rw [toList_complex] at hlist
      have hrest := List.append_cancel_left (List.cons.inj hlist).2
      -- the comma after the real part is the first one
      obtain ⟨hreal, htail⟩ := eq_of_separated ha.2.1 hb.2.1 hrest
      have himag := List.append_cancel_right (List.append_cancel_left htail)
      rw [String.toList_inj.mp hreal, String.toList_inj.mp himag]

/-- A byte is written with its digits. -/
theorem toList_byte (value : UInt8) : (toString value).toList = Nat.toDigits 10 value.toNat := by
  change (Nat.repr value.toNat).toList = _
  simp [Nat.repr]

theorem byte_injective : Function.Injective (toString : UInt8 → String) := by
  intro a b h
  have hdigits : Nat.toDigits 10 a.toNat = Nat.toDigits 10 b.toNat := by
    rw [← toList_byte, ← toList_byte, h]
  have hvalue : ∀ value : UInt8, Nat.ofDigitChars 10 (Nat.toDigits 10 value.toNat) 0 =
      value.toNat := fun value => by
    rw [Nat.ofDigitChars_toDigits (by omega) (by omega)]
  exact UInt8.toNat_inj.mp ((hvalue a).symm.trans (hdigits ▸ hvalue b))

/-- No byte is written with a character that is no digit. -/
theorem not_mem_byte {c : Char} (hc : c.isDigit = false) (value : UInt8) :
    c ∉ (toString value).toList := by
  intro hmem
  rw [toList_byte] at hmem
  rw [Nat.isDigit_of_mem_toDigits (by omega) (by omega) hmem] at hc
  cases hc

/-- Bytes between commas are read back. -/
theorem intercalate_bytes_inj {xs ys : List UInt8}
    (h : String.intercalate ", " (xs.map toString) = String.intercalate ", " (ys.map toString)) :
    xs = ys := by
  have hsome : ∀ (y : UInt8) (ys : List UInt8),
      (String.intercalate ", " ((y :: ys).map toString)).toList ≠ [] := by
    intro y ys hnil
    have hy : (toString y).toList ≠ [] := by
      rw [toList_byte]
      exact Nat.toDigits_ne_nil
    cases ys with
    | nil =>
      rw [List.map_singleton, String.intercalate_singleton] at hnil
      exact hy hnil
    | cons next ys =>
      rw [List.map_cons, List.map_cons, String.intercalate_cons_cons, String.toList_append,
        String.toList_append, List.append_assoc] at hnil
      exact hy (List.append_eq_nil_iff.mp hnil).1
  have hcomma : ∀ value : UInt8, ',' ∉ (toString value).toList := not_mem_byte (by decide)
  have hlast : ∀ (x : UInt8) (rest : List Char) (y : UInt8),
      (toString y).toList ≠ (toString x).toList ++ (", ".toList ++ rest) := by
    intro x rest y heq
    refine hcomma y (heq ▸ List.mem_append_right _ (List.mem_append_left _ ?_))
    decide
  induction xs generalizing ys with
  | nil =>
    cases ys with
    | nil => rfl
    | cons y ys => exact absurd (congrArg String.toList h).symm (hsome y ys)
  | cons x xs ih =>
    cases ys with
    | nil => exact absurd (congrArg String.toList h) (hsome x xs)
    | cons y ys =>
      cases xs with
      | nil =>
        cases ys with
        | nil =>
          rw [List.map_singleton, List.map_singleton, String.intercalate_singleton,
            String.intercalate_singleton] at h
          rw [byte_injective h]
        | cons next' ys =>
          have hlist := congrArg String.toList h
          rw [List.map_singleton, String.intercalate_singleton, List.map_cons, List.map_cons,
            String.intercalate_cons_cons, String.toList_append, String.toList_append,
            List.append_assoc] at hlist
          exact absurd hlist (hlast y _ x)
      | cons next xs =>
        have hlist := congrArg String.toList h
        rw [List.map_cons, List.map_cons, String.intercalate_cons_cons, String.toList_append,
          String.toList_append, List.append_assoc] at hlist
        cases ys with
        | nil =>
          rw [List.map_singleton, String.intercalate_singleton] at hlist
          exact absurd hlist.symm (hlast x _ y)
        | cons next' ys =>
          rw [List.map_cons, List.map_cons, String.intercalate_cons_cons, String.toList_append,
            String.toList_append, List.append_assoc] at hlist
          have hspace : ", ".toList = ',' :: [' '] := by decide
          rw [hspace] at hlist
          obtain ⟨hfirst, hrest⟩ := eq_of_separated (hcomma x) (hcomma y) hlist
          have htail : (String.intercalate ", " ((next :: xs).map toString)).toList =
              (String.intercalate ", " ((next' :: ys).map toString)).toList :=
            (List.cons.inj hrest).2
          rw [byte_injective (String.toList_inj.mp hfirst), ih (String.toList_inj.mp htail)]

theorem bytesName_injective : Function.Injective bytesName := by
  intro a b h
  have hlist := congrArg String.toList h
  unfold bytesName at hlist
  rw [String.toList_append, String.toList_append, String.toList_append,
    String.toList_append] at hlist
  have hinner := List.append_cancel_left (List.append_cancel_right hlist)
  exact intercalate_bytes_inj (String.toList_inj.mp hinner)

/-! ### One part -/

/-- Texts of one entry are told from the texts before. -/
theorem eq_of_single {xs ys : List String} {x y : String} (h : xs ++ [x] = ys ++ [y]) :
    x = y ∧ xs = ys :=
  have hboth := List.append_inj' h rfl
  ⟨(List.cons.inj hboth.2).1, hboth.1⟩

/-- Scalar data that a kind shows is read back. -/
theorem scalar_read {kind : NodeKind} {a b : Scalar} (ha : shownSort kind = some a.sort)
    (hb : shownSort kind = some b.sort) (hlegible : LegibleScalar a) (hlegible' : LegibleScalar b)
    {xs ys : List String} (hxs : Ended xs) (hys : Ended ys)
    (h : xs ++ scalarTexts a = ys ++ scalarTexts b) : a = b ∧ xs = ys := by
  have hsort : a.sort = b.sort := Option.some.inj (ha.symm.trans hb)
  have hhidden : a.sort ∉ [ScalarSort.level, .conversion, .debugText, .singleton] := by
    intro hmem
    cases kind <;> simp [shownSort] at ha <;> rw [← ha] at hmem <;> revert hmem <;> decide
  cases a <;> cases b <;> cases hsort
  case flag.flag x y =>
    cases x with
    | true =>
      cases y with
      | true => exact ⟨rfl, (eq_of_single h).2⟩
      | false =>
        -- the text before would end in an opener
        change xs ++ ["async"] = ys ++ [] at h
        rw [List.append_nil] at h
        exact absurd List.mem_cons_self (hys "async" (h ▸ by rw [List.getLast?_concat]; rfl))
    | false =>
      cases y with
      | true =>
        change xs ++ [] = ys ++ ["async"] at h
        rw [List.append_nil] at h
        exact absurd List.mem_cons_self (hxs "async" (h ▸ by rw [List.getLast?_concat]; rfl))
      | false => exact ⟨rfl, by simpa [scalarTexts] using h⟩
  case operator.operator x y =>
    obtain ⟨hname, hrest⟩ := eq_of_single h
    exact ⟨by rw [operatorName_injective hname], hrest⟩
  case boolOp.boolOp x y =>
    obtain ⟨hname, hrest⟩ := eq_of_single h
    exact ⟨by rw [boolOpName_injective hname], hrest⟩
  case unaryOp.unaryOp x y =>
    obtain ⟨hname, hrest⟩ := eq_of_single h
    exact ⟨by rw [unaryOpName_injective hname], hrest⟩
  case cmpOps.cmpOps x y =>
    have hrun : ∀ ops : List CmpOp, ∀ word ∈ ops.map cmpOpName, word ∈ openers := by
      intro ops word hword
      obtain ⟨op, -, rfl⟩ := List.mem_map.mp hword
      exact List.mem_cons_of_mem _ (cmpOpName_mem op)
    obtain ⟨hops, hrest⟩ := eq_of_run (P := (· ∈ openers)) hxs hys (hrun x) (hrun y) h
    exact ⟨by rw [List.map_injective_iff.mpr cmpOpName_injective hops], hrest⟩
  case number.number x y =>
    obtain ⟨hname, hrest⟩ := eq_of_single h
    exact ⟨by rw [numberName_inj hlegible hlegible' hname], hrest⟩
  case boolean.boolean x y =>
    obtain ⟨hname, hrest⟩ := eq_of_single h
    refine ⟨?_, hrest⟩
    cases x <;> cases y <;> first | rfl | exact absurd hname (by decide)
  case text.text x y =>
    obtain ⟨hname, hrest⟩ := eq_of_single h
    exact ⟨by rw [hname], hrest⟩
  case bytes.bytes x y =>
    obtain ⟨hname, hrest⟩ := eq_of_single h
    exact ⟨by rw [bytesName_injective hname], hrest⟩
  all_goals exact absurd (by simp [Scalar.sort]) hhidden

/-- The scalar data of a node is read back. -/
theorem front_read {kind : NodeKind} {a b : Option Scalar} (ha : Fits kind a) (hb : Fits kind b)
    (hlegible : ∀ value ∈ a, LegibleScalar value) (hlegible' : ∀ value ∈ b, LegibleScalar value)
    {xs ys : List String} (hxs : Ended xs) (hys : Ended ys)
    (h : xs ++ datumTexts kind a = ys ++ datumTexts kind b) : a = b ∧ xs = ys := by
  rw [datumTexts_eq ha, datumTexts_eq hb, ← List.append_assoc, ← List.append_assoc] at h
  cases a with
  | none =>
    have hnone : b = none := Option.map_eq_none_iff.mp (hb.trans ha.symm)
    rw [hnone] at h ⊢
    exact ⟨rfl, List.append_cancel_right (List.append_cancel_right h)⟩
  | some x =>
    cases b with
    | none => cases ha.trans hb.symm
    | some y =>
      rw [Option.toList_some, Option.toList_some, List.flatMap_singleton,
        List.flatMap_singleton] at h
      obtain ⟨hvalue, hrest⟩ := scalar_read ha.symm hb.symm (hlegible x rfl) (hlegible' y rfl)
        (ended_lead hxs kind) (ended_lead hys kind) h
      exact ⟨congrArg some hvalue, List.append_cancel_right hrest⟩

/-- A legible part of a statement. -/
def Readable (p : Part) : Prop := p.Proper ∧ p.Legible

/-- A legible part is read back. -/
theorem part_read (p q : Part) (hp : Readable p) (hq : Readable q) (xs ys : List String)
    (hxs : Ended xs) (hys : Ended ys) (h : xs ++ p.texts = ys ++ q.texts) : p = q ∧ xs = ys := by
  unfold Part.texts at h
  rw [← List.append_assoc, ← List.append_assoc] at h
  obtain ⟨hmark, hfront⟩ := eq_of_single h
  have hbrace : ∀ kind : NodeKind, tag kind ≠ "\x7d" := by
    intro kind
    cases kind <;> decide
  cases p with
  | node kind datum =>
    cases q with
    | node kind' datum' =>
      obtain rfl : kind = kind' := kind_of_tag hp.1.1 hq.1.1 hmark
      obtain ⟨hdatum, hrest⟩ := front_read hp.1.2 hq.1.2 hp.2 hq.2 hxs hys hfront
      exact ⟨by rw [hdatum], hrest⟩
    | name text =>
      have htext : tag kind = text := hmark
      exact absurd (htext ▸ reserved_tag kind) hq.2.2
    | closed => exact absurd hmark (hbrace kind)
  | name text =>
    cases q with
    | node kind datum =>
      have htext : text = tag kind := hmark
      exact absurd (htext ▸ reserved_tag kind) hp.2.2
    | name text' =>
      have htext : text = text' := hmark
      exact ⟨by rw [htext], List.append_cancel_right hfront⟩
    | closed =>
      have htext : text = "\x7d" := hmark
      refine absurd (.inr (.inl ?_)) hp.2.2
      rw [htext]
      decide
  | closed =>
    cases q with
    | node kind datum => exact absurd hmark.symm (hbrace kind)
    | name text =>
      have htext : "\x7d" = text := hmark
      refine absurd (.inr (.inl ?_)) hq.2.2
      rw [← htext]
      decide
    | closed => exact ⟨rfl, List.append_cancel_right hfront⟩

/-! ### All parts -/

theorem not_mem_number {value : Number} (h : LegibleScalar (.number value)) :
    sep ∉ (numberName value).toList := by
  cases value with
  | int text =>
    have htext : sep ∉ text.toList := h
    rw [toList_int]
    simpa [sep] using htext
  | float text =>
    have htext : sep ∉ text.toList := h
    rw [toList_float]
    simpa [sep] using htext
  | complex real imag =>
    obtain ⟨hreal, -, himag⟩ := h
    rw [toList_complex]
    simpa [sep] using ⟨hreal, himag⟩

theorem not_mem_bytes (value : List UInt8) : sep ∉ (bytesName value).toList := by
  have hinner : ∀ xs : List UInt8,
      sep ∉ (String.intercalate ", " (xs.map toString)).toList := by
    intro xs
    induction xs with
    | nil => decide
    | cons x xs ih =>
      have hx : sep ∉ (toString x).toList := not_mem_byte (by decide) x
      cases xs with
      | nil =>
        rw [List.map_singleton, String.intercalate_singleton]
        exact hx
      | cons next xs =>
        rw [List.map_cons] at ih
        rw [List.map_cons, List.map_cons, String.intercalate_cons_cons, String.toList_append,
          String.toList_append, List.mem_append, List.mem_append]
        rintro ((hin | hin) | hin)
        · exact hx hin
        · exact absurd hin (by decide)
        · exact ih hin
  unfold bytesName
  rw [String.toList_append, String.toList_append, List.mem_append, List.mem_append]
  rintro ((hin | hin) | hin)
  · exact absurd hin (by decide)
  · exact hinner value hin
  · exact absurd hin (by decide)

/-- Legible scalar data is written without the separator. -/
theorem not_mem_scalarTexts {value : Scalar} (h : LegibleScalar value) :
    ∀ text ∈ scalarTexts value, sep ∉ text.toList := by
  cases value with
  | flag value => cases value <;> decide
  | operator op => cases op <;> decide
  | boolOp op => cases op <;> decide
  | unaryOp op => cases op <;> decide
  | cmpOps ops =>
    intro text htext
    obtain ⟨op, -, rfl⟩ := List.mem_map.mp htext
    cases op <;> decide
  | number value => exact fun text htext => List.mem_singleton.mp htext ▸ not_mem_number h
  | boolean value => cases value <;> decide
  | text value => exact fun text htext => List.mem_singleton.mp htext ▸ h
  | bytes value => exact fun text htext => List.mem_singleton.mp htext ▸ not_mem_bytes value
  | _ => exact fun text htext => absurd htext List.not_mem_nil

/-- Legible parts are written without the separator. -/
theorem not_mem_texts {p : Part} (hp : Readable p) : ∀ text ∈ p.texts, sep ∉ text.toList := by
  intro text htext
  rcases List.mem_append.mp htext with hfront | hmark
  · cases p with
    | node kind datum =>
      have hlead : ∀ text ∈ lead kind, sep ∉ text.toList := by
        cases kind <;> decide
      change text ∈ datumTexts kind datum at hfront
      rw [datumTexts_eq hp.1.2] at hfront
      rcases List.mem_append.mp hfront with hin | hin
      · exact hlead text hin
      · obtain ⟨value, hvalue, hin⟩ := List.mem_flatMap.mp hin
        exact not_mem_scalarTexts (hp.2 value (Option.mem_toList.mp hvalue)) text hin
    | name text => cases hfront
    | closed => cases hfront
  · rw [List.mem_singleton.mp hmark]
    cases p with
    | node kind datum =>
      change sep ∉ (tag kind).toList
      cases kind <;> decide
    | name text => exact hp.2.1
    | closed => decide

/-- Legible parts are read back from their words. -/
theorem eq_of_spelling {ps qs : List Part} (hps : ∀ p ∈ ps, Readable p)
    (hqs : ∀ q ∈ qs, Readable q) (h : spelling ps = spelling qs) : ps = qs := by
  have hfree : ∀ {ps : List Part}, (∀ p ∈ ps, Readable p) →
      ∀ text ∈ ps.flatMap Part.texts, sep ∉ text.toList := by
    intro ps hps text htext
    obtain ⟨p, hp, hin⟩ := List.mem_flatMap.mp htext
    exact not_mem_texts (hps p hp) text hin
  refine eq_of_flatMap (E := Ended) (fun p => ?_) (fun ps hps => ended_parts fun p hp =>
    (hps p hp).2) part_read hps hqs (eq_of_words (hfree hps) (hfree hqs) h)
  exact List.append_ne_nil_of_right_ne_nil _ (List.cons_ne_nil _ _)

/-! ## What the rendering tells apart -/

/-- All names and texts of a node are legible. -/
def Legible (node : Node) : Prop := ∀ p ∈ parts node, p.Legible

/-- Two nodes with illegible names or texts, and parts that are spelled alike. -/
def Misspelt (a b : Node) : Prop :=
  ¬ (Legible a ∧ Legible b) ∧ spelling (parts a) = spelling (parts b)

/-- Two statements differ, but in nothing that is shown: their shown parts are
the same, or an illegible name or text makes them look the same. -/
def DifferUnseen (policy : HashPolicy) (a b : Stmt) : Prop :=
  meaning policy a ≠ meaning policy b ∧
    (parts (meaning policy a) = parts (meaning policy b) ∨
      Misspelt (meaning policy a) (meaning policy b))

/-- A name that is spelled like a tag: `global x` before `pass`, and `global x, StmtPass`. -/
example :
    let two := functionNode "f" (.child (.mk .stmtGlobal (.ident "x" (.stop .nil)))
      (.child (.mk .stmtPass .nil) .nil))
    let one := functionNode "f" (.child (.mk .stmtGlobal (.ident "x" (.ident "StmtPass"
      (.stop .nil)))) .nil)
    spelling (parts two) = spelling (parts one) ∧ parts two ≠ parts one := by
  decide

/-- Legible statements have one rendering exactly when they have the same shown
parts. -/
theorem renderStmt_eq_iff_parts {policy : HashPolicy} {a b : Stmt}
    (ha : Legible (meaning policy a)) (hb : Legible (meaning policy b)) :
    renderStmt a policy = renderStmt b policy ↔
      parts (meaning policy a) = parts (meaning policy b) := by
  rw [renderStmt_eq_iff_spelling]
  refine ⟨fun h => ?_, congrArg spelling⟩
  exact eq_of_spelling (fun p hp => ⟨proper_meaning policy a p hp, ha p hp⟩)
    (fun p hp => ⟨proper_meaning policy b p hp, hb p hp⟩) h

end Tyo3.UnseenDifferences
