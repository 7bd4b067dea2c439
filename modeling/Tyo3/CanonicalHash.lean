import Tyo3.PythonSyntax
import Tyo3.TokenStreams

/-!
# The canonical rendering of a statement

The hash of an entity is taken over a rendering of its statement. A visitor
walks the tree in source order and writes a tag for every node and the
scalars it knows of; a one-shot flag carries the docstring position from a
definition to its suite. The rendering is the list of texts that the tree
without its docstrings writes.
-/

namespace Tyo3.CanonicalHash

open PythonSyntax TokenStreams

/-! ## The renderer -/

/-- Which source elements are excluded from a hash. -/
structure HashPolicy where
  /-- Whitespace is never part of the tree. -/
  ignoreWhitespace : Bool
  /-- Trailing commas are never part of the tree. -/
  ignoreTrailingComma : Bool
  /-- Whether docstrings are rendered. -/
  includeDocstrings : Bool
  /-- Comments are never part of the tree. -/
  includeComments : Bool

/-- The default policy. -/
def HashPolicy.default : HashPolicy := ⟨true, true, false, false⟩

/-- The separator after every token. -/
def sep : Char := '\x1f'

/-- The state of the renderer. -/
structure Renderer where
  /-- The text so far. -/
  out : String
  /-- Whether the next suite opens a docstring scope. -/
  pendingDocScope : Bool

/-- Write one token. -/
def Renderer.tok (r : Renderer) (word : String) : Renderer :=
  { r with out := r.out ++ word ++ String.singleton sep }

/-- Write tokens. -/
def Renderer.emit (r : Renderer) (words : List String) : Renderer := words.foldl Renderer.tok r

/-- Printed names of the binary operators. -/
def operatorName : Operator → String
  | .add => "Add"
  | .sub => "Sub"
  | .mult => "Mult"
  | .matMult => "MatMult"
  | .div => "Div"
  | .mod => "Mod"
  | .pow => "Pow"
  | .lShift => "LShift"
  | .rShift => "RShift"
  | .bitOr => "BitOr"
  | .bitXor => "BitXor"
  | .bitAnd => "BitAnd"
  | .floorDiv => "FloorDiv"

/-- Printed names of the boolean operators. -/
def boolOpName : BoolOp → String
  | .and => "And"
  | .or => "Or"

/-- Printed names of the unary operators. -/
def unaryOpName : UnaryOp → String
  | .invert => "Invert"
  | .not => "Not"
  | .uAdd => "UAdd"
  | .uSub => "USub"

/-- Printed names of the comparison operators. -/
def cmpOpName : CmpOp → String
  | .eq => "Eq"
  | .notEq => "NotEq"
  | .lt => "Lt"
  | .ltE => "LtE"
  | .gt => "Gt"
  | .gtE => "GtE"
  | .is => "Is"
  | .isNot => "IsNot"
  | .in_ => "In"
  | .notIn => "NotIn"

/-- Printed form of a number. -/
def numberName : Number → String
  | .int text => "Int(" ++ text ++ ")"
  | .float text => "Float(" ++ text ++ ")"
  | .complex real imag => "Complex \x7b real: " ++ real ++ ", imag: " ++ imag ++ " \x7d"

/-- Printed form of bytes. -/
def bytesName (value : List UInt8) : String :=
  "[" ++ String.intercalate ", " (value.map toString) ++ "]"

/-- What is written on visiting a statement, before its tag. -/
def stmtTokens (kind : NodeKind) (scalar : Option Scalar) : List String :=
  match kind, scalar with
  | .stmtFunctionDef, some (.flag true) => ["async"]
  | .stmtFor, some (.flag true) => ["async"]
  | .stmtWith, some (.flag true) => ["async"]
  | _, _ => []

/-- What is written on visiting an expression, before its tag. -/
def exprTokens (kind : NodeKind) (scalar : Option Scalar) : List String :=
  match kind, scalar with
  | .exprName, some (.text id) => [id]
  | .exprBinOp, some (.operator op) => [operatorName op]
  | .exprBoolOp, some (.boolOp op) => [boolOpName op]
  | .exprUnaryOp, some (.unaryOp op) => [unaryOpName op]
  | .exprCompare, some (.cmpOps ops) => ops.map cmpOpName
  | .exprNumberLiteral, some (.number value) => [numberName value]
  | .exprBooleanLiteral, some (.boolean value) => [if value then "True" else "False"]
  | _, _ => []

/-- What is written on visiting the parts of strings, before their tags. -/
def literalTokens (kind : NodeKind) (scalar : Option Scalar) : List String :=
  match kind, scalar with
  | .stringLiteral, some (.text value) => ["str", value]
  | .bytesLiteral, some (.bytes value) => ["bytes", bytesName value]
  | .interpolatedStringLiteralElement, some (.text value) => ["fstr", value]
  | _, _ => []

/-- Everything written before the fields of a node. A suite opens with a
brace in place of a tag. -/
def headTokens (kind : NodeKind) (items : Items) : List String :=
  if kind = .suite then ["\x7b"]
  else stmtTokens kind items.leadingScalar ++ exprTokens kind items.leadingScalar ++
    literalTokens kind items.leadingScalar ++ kind.debugName.toList

/-- Definitions, whose suite may start with a docstring. -/
def isScope (kind : NodeKind) : Bool := kind = .stmtFunctionDef || kind = .stmtClassDef

/-- A statement that is a bare string literal. -/
def isDocstringStmt : Node → Bool
  | .mk .stmtExpr (.child (.mk .exprStringLiteral _) _) => true
  | _ => false

mutual

/-- Visit a node. A definition raises the flag and the next suite takes it;
a suite in docstring scope skips a docstring at its start. -/
def visitNode (policy : HashPolicy) : Node → Renderer → Renderer
  | .mk kind items, r =>
    if kind = .suite then
      let skipFirst := r.pendingDocScope && !policy.includeDocstrings
      let r := { r with pendingDocScope := false }
      (visitItems policy skipFirst items (r.emit (headTokens kind items))).tok "\x7d"
    else
      let r := if isScope kind then { r with pendingDocScope := true } else r
      visitItems policy false items (r.emit (headTokens kind items))

/-- Visit the fields of a node. Scalars are not visited. -/
def visitItems (policy : HashPolicy) (skipFirst : Bool) : Items → Renderer → Renderer
  | .nil, r => r
  | .scalar _ rest, r => visitItems policy skipFirst rest r
  | .ident name rest, r => visitItems policy skipFirst rest (r.tok name)
  | .absent rest, r => visitItems policy skipFirst rest r
  | .stop rest, r => visitItems policy skipFirst rest r
  | .child node rest, r =>
    if skipFirst && isDocstringStmt node then visitItems policy false rest r
    else visitItems policy false rest (visitNode policy node r)

end

/-- Render a statement. -/
def renderStmt (stmt : Stmt) (policy : HashPolicy) : String :=
  (visitNode policy stmt.node ⟨"", false⟩).out

/-! ## The texts of a statement -/

/-- What is written after the fields of a node. -/
def tailTokens (kind : NodeKind) : List String := if kind = .suite then ["\x7d"] else []

mutual

/-- What a node writes, in source order. -/
def nodeTexts : Node → List String
  | .mk kind items => headTokens kind items ++ (itemsTexts items ++ tailTokens kind)

/-- What the fields of a node write, in source order. -/
def itemsTexts : Items → List String
  | .nil => []
  | .scalar _ rest => itemsTexts rest
  | .ident name rest => name :: itemsTexts rest
  | .absent rest => itemsTexts rest
  | .stop rest => itemsTexts rest
  | .child node rest => nodeTexts node ++ itemsTexts rest

end

/-! ## Statements without docstrings -/

mutual

/-- A node without docstrings. A docstring is a bare string at the start of
the suite of a definition; `scope` says that the node belongs to one. -/
def stripNode (keep scope : Bool) : Node → Node
  | .mk kind items =>
    .mk kind (stripItems keep (isScope kind) (scope && !keep && kind = .suite) items)

/-- The fields of a node without docstrings; `skip` says that a bare string
may be dropped here. -/
def stripItems (keep scope skip : Bool) : Items → Items
  | .nil => .nil
  | .scalar value rest => .scalar value (stripItems keep scope skip rest)
  | .ident name rest => .ident name (stripItems keep scope skip rest)
  | .absent rest => .absent (stripItems keep scope skip rest)
  | .stop rest => .stop (stripItems keep scope skip rest)
  | .child node rest =>
    if skip && isDocstringStmt node then stripItems keep scope false rest
    else .child (stripNode keep scope node) (stripItems keep scope false rest)

end

/-- What a hash of a statement is meant to be sensitive to: the whole tree,
less the docstrings where the policy leaves them out. -/
def meaning (policy : HashPolicy) (stmt : Stmt) : Node :=
  if policy.includeDocstrings then stmt.node else stripNode false false stmt.node

mutual

/-- Where docstrings are kept, nothing is dropped. -/
theorem stripNode_keep (scope : Bool) : ∀ node : Node, stripNode true scope node = node
  | .mk kind items => by
    have hskip : (scope && !true && kind = .suite) = false := by
      rw [Bool.not_true, Bool.and_false, Bool.false_and]
    rw [stripNode, hskip, stripItems_keep]

/-- Where docstrings are kept, no field is dropped. -/
theorem stripItems_keep (scope : Bool) : ∀ items : Items, stripItems true scope false items = items
  | .nil => rfl
  | .scalar _ rest => by rw [stripItems, stripItems_keep scope rest]
  | .ident _ rest => by rw [stripItems, stripItems_keep scope rest]
  | .absent rest => by rw [stripItems, stripItems_keep scope rest]
  | .stop rest => by rw [stripItems, stripItems_keep scope rest]
  | .child node rest => by
    rw [stripItems, Bool.false_and, if_neg Bool.false_ne_true, stripNode_keep scope node,
      stripItems_keep scope rest]

end

theorem meaning_eq (policy : HashPolicy) (stmt : Stmt) :
    meaning policy stmt = stripNode policy.includeDocstrings false stmt.node := by
  unfold meaning
  cases policy.includeDocstrings with
  | true => rw [stripNode_keep]; rfl
  | false => rfl

/-- The head of a node is the same without docstrings. -/
theorem headTokens_strip (keep scope skip : Bool) (kind : NodeKind) (items : Items)
    (hskip : skip = true → kind = .suite) :
    headTokens kind (stripItems keep scope skip items) = headTokens kind items := by
  unfold headTokens
  split
  · rfl
  · rename_i hkind
    have hnoskip : skip = false := by
      cases skip with
      | false => rfl
      | true => exact absurd (hskip rfl) hkind
    rw [hnoskip]
    cases items <;> rfl

/-! ## The rendering writes the words of the meaning -/

theorem Renderer.emit_out (r : Renderer) (texts : List String) :
    (r.emit texts).out.toList = r.out.toList ++ text sep texts := by
  induction texts generalizing r with
  | nil => rw [text_nil, List.append_nil]; rfl
  | cons first texts ih =>
    have hstep : r.emit (first :: texts) = (r.tok first).emit texts := rfl
    have htok : (r.tok first).out.toList = r.out.toList ++ (first.toList ++ [sep]) := by
      unfold Renderer.tok
      simp only [String.toList_append, String.toList_singleton, List.append_assoc]
    rw [hstep, ih, htok, text_cons, List.append_assoc, List.append_assoc]
    rfl

@[simp] theorem Renderer.emit_pendingDocScope (r : Renderer) (texts : List String) :
    (r.emit texts).pendingDocScope = r.pendingDocScope := by
  induction texts generalizing r with
  | nil => rfl
  | cons first texts ih => exact ih (r.tok first)

/-- From one state of the renderer to another texts are written, and the flag is
left at `pending`. -/
def Wrote (r r' : Renderer) (texts : List String) (pending : Bool) : Prop :=
  r'.out.toList = r.out.toList ++ text sep texts ∧ r'.pendingDocScope = pending

theorem wrote_emit (r : Renderer) (texts : List String) :
    Wrote r (r.emit texts) texts r.pendingDocScope :=
  ⟨r.emit_out texts, r.emit_pendingDocScope texts⟩

theorem Wrote.trans {r r' r'' : Renderer} {first second : List String} {pending pending' : Bool}
    (h : Wrote r r' first pending) (h' : Wrote r' r'' second pending') :
    Wrote r r'' (first ++ second) pending' := by
  constructor
  · rw [h'.1, h.1, text_append, List.append_assoc]
  · exact h'.2

theorem wrote_refl (r : Renderer) : Wrote r r [] r.pendingDocScope :=
  ⟨(List.append_nil _).symm, rfl⟩

/-! ### Fields by the table -/

/-- Whether a kind may stand in a slot. -/
def admits (kind : NodeKind) : Slot → Bool
  | .one category => kind.isA category
  | .optional category => kind.isA category
  | .many category => kind.isA category
  | .stmts => kind.isStmt
  | _ => false

/-- Whether a slot takes more than one child. -/
def repeats : Slot → Bool
  | .many _ => true
  | .stmts => true
  | _ => false

/-- Fields end where no slot is left, and a suite may end anywhere. -/
theorem follow_nil {slots : List Slot} (h : Items.nil.follow slots = true) :
    slots = [] ∨ slots = [.stmts] := by
  cases slots with
  | nil => exact .inl rfl
  | cons slot tail =>
    cases slot <;> cases tail <;> simp [Items.follow] at h
    exact .inr rfl

/-- A child stands in the first slot. -/
theorem follow_child {node : Node} {rest : Items} {slots : List Slot}
    (h : (Items.child node rest).follow slots = true) :
    ∃ slot tail, slots = slot :: tail ∧ admits node.kind slot = true ∧ node.wellFormed = true ∧
      rest.follow (if repeats slot then slot :: tail else tail) = true := by
  cases slots with
  | nil => simp [Items.follow] at h
  | cons slot tail =>
    cases slot with
    | one category =>
      simp only [Items.follow, Bool.and_eq_true] at h
      exact ⟨_, _, rfl, h.1.1, h.1.2, h.2⟩
    | optional category =>
      simp only [Items.follow, Bool.and_eq_true] at h
      exact ⟨_, _, rfl, h.1.1, h.1.2, h.2⟩
    | many category =>
      simp only [Items.follow, Bool.and_eq_true] at h
      exact ⟨_, _, rfl, h.1.1, h.1.2, h.2⟩
    | stmts =>
      cases tail with
      | nil =>
        simp only [Items.follow, Bool.and_eq_true] at h
        exact ⟨_, _, rfl, h.1.1, h.1.2, h.2⟩
      | cons next tail => simp [Items.follow] at h
    | ident => simp [Items.follow] at h
    | identOptional => simp [Items.follow] at h
    | idents => simp [Items.follow] at h
    | scalar sort => simp [Items.follow] at h

/-- The rest of a list of fields after one that is no child. -/
def afterLeaf : Items → Option Items
  | .scalar _ rest => some rest
  | .ident _ rest => some rest
  | .absent rest => some rest
  | .stop rest => some rest
  | _ => none

/-- A field that is no child stands in the first slot, which wants no single
child. -/
theorem follow_leaf {items rest : Items} {slots : List Slot} (hleaf : afterLeaf items = some rest)
    (h : items.follow slots = true) :
    ∃ slot tail, slots = slot :: tail ∧ (∀ category, slot ≠ .one category) ∧
      (rest.follow tail = true ∨ rest.follow (slot :: tail) = true) := by
  cases slots with
  | nil =>
    cases items <;> simp [afterLeaf, Items.follow] at hleaf h
  | cons slot tail =>
    refine ⟨slot, tail, rfl, ?_, ?_⟩
    · intro category hone
      rw [hone] at h
      cases items <;> simp [afterLeaf, Items.follow] at hleaf h
    · cases items with
      | nil => cases hleaf
      | child node others => cases hleaf
      | scalar value others =>
        cases slot <;> simp only [Items.follow, Bool.and_eq_true, Bool.false_eq_true] at h
        exact .inl (Option.some.inj hleaf ▸ h.2)
      | ident name others =>
        cases slot <;> simp only [Items.follow, Bool.false_eq_true] at h
        · exact .inl (Option.some.inj hleaf ▸ h)
        · exact .inl (Option.some.inj hleaf ▸ h)
        · exact .inr (Option.some.inj hleaf ▸ h)
      | absent others =>
        cases slot <;> simp only [Items.follow, Bool.false_eq_true] at h
        · exact .inl (Option.some.inj hleaf ▸ h)
        · exact .inl (Option.some.inj hleaf ▸ h)
      | stop others =>
        cases slot <;> simp only [Items.follow, Bool.false_eq_true] at h
        · exact .inl (Option.some.inj hleaf ▸ h)
        · exact .inl (Option.some.inj hleaf ▸ h)

/-- Visiting fields writes the words of the fields without docstrings. -/
def WroteItems (policy : HashPolicy) (scope skip : Bool) (items : Items) (r : Renderer)
    (pending : Bool) : Prop :=
  Wrote r (visitItems policy skip items r)
    (itemsTexts (stripItems policy.includeDocstrings scope skip items)) pending

/-- Visiting a field that is no child writes its words and goes on. -/
theorem wroteItems_leaf {policy : HashPolicy} {scope skip pending : Bool} {items rest : Items}
    (hleaf : afterLeaf items = some rest) {r : Renderer}
    (hrest : ∀ r' : Renderer, r'.pendingDocScope = r.pendingDocScope →
      WroteItems policy scope skip rest r' pending) :
    WroteItems policy scope skip items r pending := by
  cases items with
  | nil => cases hleaf
  | child node others => cases hleaf
  | scalar value others =>
    cases hleaf
    exact hrest r rfl
  | absent others =>
    cases hleaf
    exact hrest r rfl
  | stop others =>
    cases hleaf
    exact hrest r rfl
  | ident name others =>
    cases hleaf
    have hgo := hrest (r.emit [name]) (r.emit_pendingDocScope [name])
    exact (wrote_emit r [name]).trans hgo

/-- Visiting a child and then the other fields; a docstring is passed over. -/
theorem wroteItems_child {policy : HashPolicy} {scope skip after pending : Bool} {node : Node}
    {rest : Items} {r : Renderer}
    (hskip : skip = true → WroteItems policy scope false rest r pending)
    (hnode : Wrote r (visitNode policy node r)
      (nodeTexts (stripNode policy.includeDocstrings scope node)) after)
    (hrest : ∀ r' : Renderer, r'.pendingDocScope = after →
      WroteItems policy scope false rest r' pending) :
    WroteItems policy scope skip (.child node rest) r pending := by
  unfold WroteItems
  rw [visitItems, stripItems]
  split
  · rename_i hdoc
    exact hskip (Bool.and_eq_true_iff.mp hdoc).1
  · exact hnode.trans (hrest _ hnode.2)

/-! ### Nodes without suites -/

/-- Categories of nodes without suites. -/
def isPlainCategory : Category → Bool
  | .suite => false
  | .elifElseClause => false
  | .matchCase => false
  | .handler => false
  | _ => true

/-- Slots that no suite stands below. -/
def isPlainSlot : Slot → Bool
  | .one category => isPlainCategory category
  | .optional category => isPlainCategory category
  | .many category => isPlainCategory category
  | .stmts => false
  | _ => true

/-- Kinds that no suite stands below. -/
def isPlain (kind : NodeKind) : Bool := kind.slots.all isPlainSlot

theorem isPlain_of_isExpr {kind : NodeKind} (h : kind.isExpr = true) : isPlain kind = true := by
  cases kind <;> first | rfl | cases h

theorem isPlain_of_isPattern {kind : NodeKind} (h : kind.isPattern = true) :
    isPlain kind = true := by
  cases kind <;> first | rfl | cases h

/-- What stands in a plain category has no suite below it. -/
theorem isPlain_of_isA {kind : NodeKind} {category : Category}
    (hplain : isPlainCategory category = true) (h : kind.isA category = true) :
    isPlain kind = true := by
  cases category with
  | expr => exact isPlain_of_isExpr h
  | pattern => exact isPlain_of_isPattern h
  | argument =>
    rcases Bool.or_eq_true_iff.mp h with hexpr | hkeyword
    · exact isPlain_of_isExpr hexpr
    · rw [of_decide_eq_true hkeyword]; rfl
  | patternArgument =>
    rcases Bool.or_eq_true_iff.mp h with hpattern | hkeyword
    · exact isPlain_of_isPattern hpattern
    · rw [of_decide_eq_true hkeyword]; rfl
  | typeParam => cases kind <;> first | rfl | cases h
  | fStringPart => cases kind <;> first | rfl | cases h
  | interpolated => cases kind <;> first | rfl | cases h
  | suite => cases hplain
  | elifElseClause => cases hplain
  | matchCase => cases hplain
  | handler => cases hplain
  | _ => rw [of_decide_eq_true h]; rfl

/-- What stands in a plain slot has no suite below it. -/
theorem isPlain_of_admits {kind : NodeKind} {slot : Slot} (hplain : isPlainSlot slot = true)
    (h : admits kind slot = true) : isPlain kind = true := by
  cases slot with
  | one category => exact isPlain_of_isA hplain h
  | optional category => exact isPlain_of_isA hplain h
  | many category => exact isPlain_of_isA hplain h
  | stmts => cases hplain
  | ident => cases h
  | identOptional => cases h
  | idents => cases h
  | scalar sort => cases h

/-! ### Nodes from their fields -/

/-- The renderer on entering the fields of a node that is no suite. -/
def entered (r : Renderer) (kind : NodeKind) (items : Items) : Renderer :=
  Renderer.emit { r with pendingDocScope := isScope kind || r.pendingDocScope }
    (headTokens kind items)

/-- Visiting a node that is no suite, from visiting its fields. -/
theorem wrote_node {policy : HashPolicy} {kind : NodeKind} {items : Items} {r : Renderer}
    {scope pending : Bool} (hsuite : kind ≠ .suite)
    (hitems : WroteItems policy (isScope kind) false items (entered r kind items) pending) :
    Wrote r (visitNode policy (.mk kind items) r)
      (nodeTexts (stripNode policy.includeDocstrings scope (.mk kind items))) pending := by
  have hskip : (scope && !policy.includeDocstrings && (kind = .suite : Bool)) = false := by
    rw [decide_eq_false hsuite, Bool.and_false]
  have hhead := headTokens_strip policy.includeDocstrings (isScope kind) false kind items
    (fun h => absurd h Bool.false_ne_true)
  have htail : tailTokens kind = [] := if_neg hsuite
  have hvisit : visitNode policy (.mk kind items) r =
      visitItems policy false items (entered r kind items) := by
    rw [visitNode, if_neg hsuite]
    unfold entered
    cases isScope kind <;> rfl
  have hstart : Wrote r (entered r kind items) (headTokens kind items)
      (isScope kind || r.pendingDocScope) := wrote_emit { r with pendingDocScope := _ } _
  rw [hvisit, stripNode, hskip, nodeTexts, hhead, htail]
  rw [List.append_nil]
  exact hstart.trans hitems

/-- Visiting a suite, from visiting its statements. -/
theorem wrote_suite {policy : HashPolicy} {items : Items} {r : Renderer}
    (hitems : WroteItems policy false (r.pendingDocScope && !policy.includeDocstrings) items
      (Renderer.emit { r with pendingDocScope := false } ["\x7b"]) false) :
    Wrote r (visitNode policy (.mk .suite items) r)
      (nodeTexts (stripNode policy.includeDocstrings r.pendingDocScope (.mk .suite items)))
      false := by
  have hskip : (r.pendingDocScope && !policy.includeDocstrings &&
      (NodeKind.suite = .suite : Bool)) = (r.pendingDocScope && !policy.includeDocstrings) := by
    rw [decide_eq_true rfl, Bool.and_true]
  have hstart : Wrote r (Renderer.emit { r with pendingDocScope := false } ["\x7b"])
      ["\x7b"] false := wrote_emit { r with pendingDocScope := false } _
  have hend := wrote_emit (visitItems policy (r.pendingDocScope && !policy.includeDocstrings) items
    (Renderer.emit { r with pendingDocScope := false } ["\x7b"])) ["\x7d"]
  rw [hitems.2] at hend
  rw [stripNode, hskip]
  exact hstart.trans (hitems.trans hend)

/-! ### Runs of the visitor -/

/-- The fields follow a list of slots with a property. -/
def Followed (P : List Slot → Prop) (items : Items) : Prop :=
  ∃ slots, items.follow slots = true ∧ P slots

/-- A property of slots that stays when a slot that wants no single child is
passed stays with the fields. -/
theorem followed_leaf {P : List Slot → Prop} {items rest : Items}
    (hpass : ∀ slot tail, (∀ category, slot ≠ .one category) → P (slot :: tail) → P tail)
    (hleaf : afterLeaf items = some rest) (h : Followed P items) : Followed P rest := by
  obtain ⟨slots, hfollow, hP⟩ := h
  obtain ⟨slot, tail, rfl, hone, htail | hsame⟩ := follow_leaf hleaf hfollow
  · exact ⟨tail, htail, hpass slot tail hone hP⟩
  · exact ⟨slot :: tail, hsame, hP⟩

/-- Slots that no suite stands below. -/
def PlainSlots (slots : List Slot) : Prop := slots.all isPlainSlot = true

theorem plainSlots_pass (slot : Slot) (tail : List Slot) (_ : ∀ category, slot ≠ .one category)
    (h : PlainSlots (slot :: tail)) : PlainSlots tail :=
  (Bool.and_eq_true_iff.mp h).2

theorem plainSlots_child {node : Node} {rest : Items} (h : Followed PlainSlots (.child node rest)) :
    node.wellFormed = true ∧ isPlain node.kind = true ∧ Followed PlainSlots rest := by
  obtain ⟨slots, hfollow, hplain⟩ := h
  obtain ⟨slot, tail, rfl, hadmits, hwell, hrest⟩ := follow_child hfollow
  have hboth : isPlainSlot slot = true ∧ tail.all isPlainSlot = true :=
    Bool.and_eq_true_iff.mp hplain
  refine ⟨hwell, isPlain_of_admits hboth.1 hadmits, _, hrest, ?_⟩
  split
  · exact hplain
  · exact hboth.2

mutual

/-- Visiting a node that no suite stands below writes its words and leaves
the flag as it is. -/
theorem visitNode_plain (policy : HashPolicy) (scope : Bool) : ∀ (node : Node) (r : Renderer),
    node.wellFormed = true → isPlain node.kind = true →
    Wrote r (visitNode policy node r)
      (nodeTexts (stripNode policy.includeDocstrings scope node)) r.pendingDocScope
  | .mk kind items, r, hwell, hplain => by
    have hsuite : kind ≠ .suite := fun h => by rw [h] at hplain; cases hplain
    have hscope : isScope kind = false := by cases kind <;> first | rfl | cases hplain
    have hflag : (entered r kind items).pendingDocScope = r.pendingDocScope := by
      unfold entered
      rw [Renderer.emit_pendingDocScope, hscope, Bool.false_or]
    have hitems := visitItems_plain policy (isScope kind) items (entered r kind items)
      ⟨kind.slots, hwell, hplain⟩
    rw [hflag] at hitems
    exact wrote_node hsuite hitems

/-- Visiting fields that no suite stands below writes their words and leaves
the flag as it is. -/
theorem visitItems_plain (policy : HashPolicy) (scope : Bool) : ∀ (items : Items) (r : Renderer),
    Followed PlainSlots items → WroteItems policy scope false items r r.pendingDocScope
  | .nil, r, _ => wrote_refl r
  | .scalar _ rest, r, h => wroteItems_leaf rfl fun r' hr => hr ▸
      visitItems_plain policy scope rest r' (followed_leaf plainSlots_pass rfl h)
  | .ident _ rest, r, h => wroteItems_leaf rfl fun r' hr => hr ▸
      visitItems_plain policy scope rest r' (followed_leaf plainSlots_pass rfl h)
  | .absent rest, r, h => wroteItems_leaf rfl fun r' hr => hr ▸
      visitItems_plain policy scope rest r' (followed_leaf plainSlots_pass rfl h)
  | .stop rest, r, h => wroteItems_leaf rfl fun r' hr => hr ▸
      visitItems_plain policy scope rest r' (followed_leaf plainSlots_pass rfl h)
  | .child node rest, r, h => by
    have hchild := plainSlots_child h
    have hnode := visitNode_plain policy scope node r hchild.1 hchild.2.1
    exact wroteItems_child (fun hskip => absurd hskip Bool.false_ne_true) hnode
      fun r' hr => hr ▸ visitItems_plain policy scope rest r' hchild.2.2

end

/-- The fields of a definition: no suite but the last. -/
def endsWithSuite : List Slot → Bool
  | [] => false
  | [slot] => slot = .one .suite
  | slot :: next :: slots => isPlainSlot slot && endsWithSuite (next :: slots)

theorem endsWithSuite_cons {slot : Slot} {tail : List Slot}
    (h : endsWithSuite (slot :: tail) = true) :
    slot = .one .suite ∧ tail = [] ∨ isPlainSlot slot = true ∧ endsWithSuite tail = true := by
  cases tail with
  | nil => exact .inl ⟨of_decide_eq_true h, rfl⟩
  | cons next tail => exact .inr (Bool.and_eq_true_iff.mp h)

theorem endsWithSuite_of_isScope {kind : NodeKind} (h : isScope kind = true) :
    endsWithSuite kind.slots = true := by
  rcases Bool.or_eq_true_iff.mp h with hfunction | hclass
  · rw [of_decide_eq_true hfunction]; rfl
  · rw [of_decide_eq_true hclass]; rfl

/-- Slots of a definition. -/
def DefinitionSlots (slots : List Slot) : Prop := endsWithSuite slots = true

theorem definitionSlots_pass (slot : Slot) (tail : List Slot)
    (hone : ∀ category, slot ≠ .one category) (h : DefinitionSlots (slot :: tail)) :
    DefinitionSlots tail := by
  rcases endsWithSuite_cons h with ⟨hsuite, -⟩ | ⟨-, htail⟩
  · exact absurd hsuite (hone .suite)
  · exact htail

/-- A child of a definition is its suite, with nothing after it, or has no
suite below it. -/
theorem definitionSlots_child {node : Node} {rest : Items}
    (h : Followed DefinitionSlots (.child node rest)) :
    node.wellFormed = true ∧ (node.kind = .suite ∧ rest = .nil ∨
      isPlain node.kind = true ∧ Followed DefinitionSlots rest) := by
  obtain ⟨slots, hfollow, hends⟩ := h
  obtain ⟨slot, tail, rfl, hadmits, hwell, hrest⟩ := follow_child hfollow
  refine ⟨hwell, ?_⟩
  rcases endsWithSuite_cons hends with ⟨rfl, rfl⟩ | ⟨hplain, htail⟩
  · have hnil : rest = .nil := by
      have hfields : rest.follow [] = true := hrest
      cases rest <;> first | rfl | simp [Items.follow] at hfields
    exact .inl ⟨of_decide_eq_true hadmits, hnil⟩
  · refine .inr ⟨isPlain_of_admits hplain hadmits, _, hrest, ?_⟩
    split
    · exact hends
    · exact htail

mutual

/-- From a lowered flag, or at a suite, visiting a node writes the words of
the node without docstrings and leaves the flag lowered. -/
theorem visitNode_wellFormed (policy : HashPolicy) : ∀ (node : Node) (r : Renderer),
    node.wellFormed = true → node.kind = .suite ∨ r.pendingDocScope = false →
    Wrote r (visitNode policy node r)
      (nodeTexts (stripNode policy.includeDocstrings r.pendingDocScope node)) false
  | .mk kind items, r, hwell, hflag => by
    by_cases hsuite : kind = .suite
    · subst hsuite
      exact wrote_suite (visitItems_wellFormed policy _ items _ ⟨_, hwell, trivial⟩
        (Renderer.emit_pendingDocScope _ _))
    · have hlow : r.pendingDocScope = false := hflag.resolve_left hsuite
      have hentered : (entered r kind items).pendingDocScope = isScope kind := by
        unfold entered
        rw [Renderer.emit_pendingDocScope, hlow, Bool.or_false]
      cases hscope : isScope kind with
      | true =>
        refine wrote_node hsuite ?_
        rw [hscope] at hentered ⊢
        exact visitItems_definition policy items _ ⟨_, hwell, endsWithSuite_of_isScope hscope⟩
          hentered
      | false =>
        refine wrote_node hsuite ?_
        rw [hscope] at hentered ⊢
        exact visitItems_wellFormed policy false items _ ⟨_, hwell, trivial⟩ hentered

/-- From a lowered flag, visiting fields outside a definition writes their
words without docstrings and leaves the flag lowered. -/
theorem visitItems_wellFormed (policy : HashPolicy) (skip : Bool) :
    ∀ (items : Items) (r : Renderer), Followed (fun _ => True) items → r.pendingDocScope = false →
    WroteItems policy false skip items r false
  | .nil, r, _, hflag => hflag ▸ wrote_refl r
  | .scalar _ rest, r, h, hflag => wroteItems_leaf rfl fun r' hr =>
      visitItems_wellFormed policy skip rest r' (followed_leaf (fun _ _ _ h => h) rfl h)
        (hr.trans hflag)
  | .ident _ rest, r, h, hflag => wroteItems_leaf rfl fun r' hr =>
      visitItems_wellFormed policy skip rest r' (followed_leaf (fun _ _ _ h => h) rfl h)
        (hr.trans hflag)
  | .absent rest, r, h, hflag => wroteItems_leaf rfl fun r' hr =>
      visitItems_wellFormed policy skip rest r' (followed_leaf (fun _ _ _ h => h) rfl h)
        (hr.trans hflag)
  | .stop rest, r, h, hflag => wroteItems_leaf rfl fun r' hr =>
      visitItems_wellFormed policy skip rest r' (followed_leaf (fun _ _ _ h => h) rfl h)
        (hr.trans hflag)
  | .child node rest, r, h, hflag => by
    obtain ⟨slots, hfollow, -⟩ := h
    obtain ⟨_, _, -, -, hwell, hnext⟩ := follow_child hfollow
    have hrest : ∀ r' : Renderer, r'.pendingDocScope = false →
        WroteItems policy false false rest r' false := fun r' hr =>
      visitItems_wellFormed policy false rest r' ⟨_, hnext, trivial⟩ hr
    have hnode := visitNode_wellFormed policy node r hwell (.inr hflag)
    rw [hflag] at hnode
    exact wroteItems_child (fun _ => hrest r hflag) hnode hrest

/-- The fields of a definition keep the flag raised up to its suite, which
takes it. -/
theorem visitItems_definition (policy : HashPolicy) : ∀ (items : Items) (r : Renderer),
    Followed DefinitionSlots items → r.pendingDocScope = true →
    WroteItems policy true false items r false
  | .nil, r, h, _ => by
    obtain ⟨slots, hfollow, hends⟩ := h
    rcases follow_nil hfollow with rfl | rfl <;> cases hends
  | .scalar _ rest, r, h, hflag => wroteItems_leaf rfl fun r' hr =>
      visitItems_definition policy rest r' (followed_leaf definitionSlots_pass rfl h)
        (hr.trans hflag)
  | .ident _ rest, r, h, hflag => wroteItems_leaf rfl fun r' hr =>
      visitItems_definition policy rest r' (followed_leaf definitionSlots_pass rfl h)
        (hr.trans hflag)
  | .absent rest, r, h, hflag => wroteItems_leaf rfl fun r' hr =>
      visitItems_definition policy rest r' (followed_leaf definitionSlots_pass rfl h)
        (hr.trans hflag)
  | .stop rest, r, h, hflag => wroteItems_leaf rfl fun r' hr =>
      visitItems_definition policy rest r' (followed_leaf definitionSlots_pass rfl h)
        (hr.trans hflag)
  | .child node rest, r, h, hflag => by
    obtain ⟨hwell, ⟨hsuite, hnil⟩ | ⟨hplain, hrest⟩⟩ := definitionSlots_child h
    · have hnode := visitNode_wellFormed policy node r hwell (.inl hsuite)
      rw [hflag] at hnode
      rw [hnil]
      exact wroteItems_child (fun hskip => absurd hskip Bool.false_ne_true) hnode
        fun r' hr => hr ▸ wrote_refl r'
    · have hnode := visitNode_plain policy true node r hwell hplain
      exact wroteItems_child (fun hskip => absurd hskip Bool.false_ne_true) hnode
        fun r' hr => visitItems_definition policy rest r' hrest (hr.trans hflag)

end

/-! ## What the rendering tells apart -/

/-- The rendering of a statement is the text of its meaning. -/
theorem renderStmt_toList (policy : HashPolicy) (stmt : Stmt) :
    (renderStmt stmt policy).toList = text sep (nodeTexts (meaning policy stmt)) := by
  have hrun := visitNode_wellFormed policy stmt.node ⟨"", false⟩ stmt.wellFormed (.inr rfl)
  rw [meaning_eq]
  exact hrun.1

/-- Two statements have one rendering exactly when their meanings have the same
words. -/
theorem renderStmt_eq_iff (policy : HashPolicy) (a b : Stmt) :
    renderStmt a policy = renderStmt b policy ↔
      words sep (nodeTexts (meaning policy a)) = words sep (nodeTexts (meaning policy b)) := by
  rw [← text_eq_iff, ← renderStmt_toList, ← renderStmt_toList]
  exact String.toList_inj.symm

/-! ## Statements to look at -/

/-- A name in an expression. -/
def nameExpr (id : String) : Node := .mk .exprName (.scalar (.text id) .nil)

/-- A call with one or two arguments. -/
def callExpr (func : String) (first : Node) (second : Option Node) : Node :=
  .mk .exprCall (.child (nameExpr func) (.child (.mk .arguments (.child first
    (match second with
      | some node => .child node (.stop .nil)
      | none => .stop .nil))) .nil))

/-- An augmented assignment of one to `x`. -/
def augAssign (op : Operator) : Stmt where
  node := .mk .stmtAugAssign (.child (nameExpr "x") (.scalar (.operator op)
    (.child (.mk .exprNumberLiteral (.scalar (.number (.int "1")) .nil)) .nil)))
  isStmt := rfl
  wellFormed := by cases op <;> decide

/-- The call `f(g(a), b)`. -/
def callOfTwo : Stmt where
  node := .mk .stmtExpr (.child (callExpr "f" (callExpr "g" (nameExpr "a") none)
    (some (nameExpr "b"))) .nil)
  isStmt := rfl
  wellFormed := by decide

/-- The call `f(g(a, b))`. -/
def callOfOne : Stmt where
  node := .mk .stmtExpr (.child (callExpr "f" (callExpr "g" (nameExpr "a") (some (nameExpr "b")))
    none) .nil)
  isStmt := rfl
  wellFormed := by decide

end Tyo3.CanonicalHash
