import Tyo3.StatementPlaces

/-!
# Docstrings

A policy without docstrings renders a statement as if the leading string of
every definition in it were not there. Nothing else is dropped, and nothing
at all under a policy with docstrings.
-/

namespace Tyo3.Docstrings

open CanonicalHash PythonSyntax StatementPlaces TokenStreams

/-! ## The statement without docstrings -/

mutual

/-- A node without docstrings is well-formed. -/
theorem wellFormed_stripNode (keep scope : Bool) : ∀ node : Node, node.wellFormed = true →
    (stripNode keep scope node).wellFormed = true
  | .mk kind items, h => by
    rw [stripNode, Node.wellFormed]
    refine follow_stripItems keep (isScope kind) _ items kind.slots h fun hskip => ?_
    rw [of_decide_eq_true (Bool.and_eq_true_iff.mp hskip).2]
    rfl

/-- Fields without docstrings follow the same slots; a statement is dropped
among statements only. -/
theorem follow_stripItems (keep scope skip : Bool) : ∀ (items : Items) (slots : List Slot),
    items.follow slots = true → (skip = true → slots = [.stmts]) →
    (stripItems keep scope skip items).follow slots = true
  | .nil, _, h, _ => h
  | .scalar _ rest, slots, h, hskip => by
    cases slots with
    | nil => simp [Items.follow] at h
    | cons slot tail =>
      cases slot <;> simp only [Items.follow, Bool.and_eq_true, Bool.false_eq_true] at h
      simp only [stripItems, Items.follow, Bool.and_eq_true]
      exact ⟨h.1, follow_stripItems keep scope skip rest tail h.2 fun hs => by cases hskip hs⟩
  | .ident _ rest, slots, h, hskip => by
    cases slots with
    | nil => simp [Items.follow] at h
    | cons slot tail =>
      cases slot <;> simp only [Items.follow, Bool.false_eq_true] at h
      all_goals
        simp only [stripItems, Items.follow]
        exact follow_stripItems keep scope skip rest _ h fun hs => by cases hskip hs
  | .absent rest, slots, h, hskip => by
    cases slots with
    | nil => simp [Items.follow] at h
    | cons slot tail =>
      cases slot <;> simp only [Items.follow, Bool.false_eq_true] at h
      all_goals
        simp only [stripItems, Items.follow]
        exact follow_stripItems keep scope skip rest _ h fun hs => by cases hskip hs
  | .stop rest, slots, h, hskip => by
    cases slots with
    | nil => simp [Items.follow] at h
    | cons slot tail =>
      cases slot <;> simp only [Items.follow, Bool.false_eq_true] at h
      all_goals
        simp only [stripItems, Items.follow]
        exact follow_stripItems keep scope skip rest _ h fun hs => by cases hskip hs
  | .child node rest, slots, h, hskip => by
    obtain ⟨slot, tail, rfl, hadmits, hwell, hrest⟩ := follow_child h
    have hlater := follow_stripItems keep scope false rest _ hrest fun hs =>
      absurd hs Bool.false_ne_true
    rw [stripItems]
    split
    · rename_i hdoc
      obtain ⟨hslot, htail⟩ := List.cons.inj (hskip (Bool.and_eq_true_iff.mp hdoc).1)
      rw [hslot, htail] at hlater ⊢
      exact hlater
    · refine follow_child_of ?_ (wellFormed_stripNode keep scope node hwell) hlater
      cases node with
      | mk kind items => exact hadmits

end

/-- A statement without the leading string of every definition in it. -/
def withoutDocstrings (stmt : Stmt) : Stmt where
  node := stripNode false false stmt.node
  isStmt := by
    have hstmt := stmt.isStmt
    cases hnode : stmt.node with
    | mk kind items =>
      rw [hnode] at hstmt
      exact hstmt
  wellFormed := wellFormed_stripNode false false stmt.node stmt.wellFormed

/-! ## The length of a rendering -/

/-- A docstring has words. -/
theorem text_docstring_ne_nil {node : Node} (h : isDocstringStmt node = true) :
    text sep (nodeTexts node) ≠ [] := by
  unfold isDocstringStmt at h
  split at h
  · rename_i items rest
    have hhead : headTokens .stmtExpr (.child (.mk .exprStringLiteral items) rest) =
        ["StmtExpr"] := rfl
    rw [nodeTexts, hhead, text_append, text_cons]
    simp
  · cases h

mutual

/-- A node without docstrings is no longer than the node, and shorter unless
there are none. -/
theorem length_stripNode (keep scope : Bool) : ∀ node : Node,
    (text sep (nodeTexts (stripNode keep scope node))).length ≤
      (text sep (nodeTexts node)).length ∧
    ((text sep (nodeTexts (stripNode keep scope node))).length =
      (text sep (nodeTexts node)).length → stripNode keep scope node = node)
  | .mk kind items => by
    have hitems := length_stripItems keep (isScope kind) (scope && !keep && kind = .suite) items
    have hhead := headTokens_strip keep (isScope kind) (scope && !keep && kind = .suite) kind items
      fun hskip => of_decide_eq_true (Bool.and_eq_true_iff.mp hskip).2
    rw [stripNode, nodeTexts, nodeTexts, hhead]
    simp only [text_append, List.length_append]
    refine ⟨by omega, fun heq => ?_⟩
    rw [hitems.2 (by omega)]

/-- Fields without docstrings are no longer than the fields, and shorter
unless there are none. -/
theorem length_stripItems (keep scope skip : Bool) : ∀ items : Items,
    (text sep (itemsTexts (stripItems keep scope skip items))).length ≤
      (text sep (itemsTexts items)).length ∧
    ((text sep (itemsTexts (stripItems keep scope skip items))).length =
      (text sep (itemsTexts items)).length → stripItems keep scope skip items = items)
  | .nil => ⟨le_refl _, fun _ => rfl⟩
  | .scalar _ rest => by
    have hrest := length_stripItems keep scope skip rest
    simp only [stripItems, itemsTexts]
    exact ⟨hrest.1, fun heq => by rw [hrest.2 heq]⟩
  | .ident _ rest => by
    have hrest := length_stripItems keep scope skip rest
    simp only [stripItems, itemsTexts, text_cons, List.length_append, List.length_cons]
    exact ⟨by omega, fun heq => by rw [hrest.2 (by omega)]⟩
  | .absent rest => by
    have hrest := length_stripItems keep scope skip rest
    simp only [stripItems, itemsTexts]
    exact ⟨hrest.1, fun heq => by rw [hrest.2 heq]⟩
  | .stop rest => by
    have hrest := length_stripItems keep scope skip rest
    simp only [stripItems, itemsTexts]
    exact ⟨hrest.1, fun heq => by rw [hrest.2 heq]⟩
  | .child node rest => by
    have hnode := length_stripNode keep scope node
    have hrest := length_stripItems keep scope false rest
    rw [stripItems]
    split
    · rename_i hdoc
      have hwords := List.length_pos_iff.mpr
        (text_docstring_ne_nil (Bool.and_eq_true_iff.mp hdoc).2)
      simp only [itemsTexts, text_append, List.length_append]
      exact ⟨by omega, fun heq => by omega⟩
    · simp only [itemsTexts, text_append, List.length_append]
      refine ⟨by omega, fun heq => ?_⟩
      rw [hnode.2 (by omega), hrest.2 (by omega)]

end

/-! ## What the policy leaves out -/

/-- Under a policy with docstrings the whole statement is rendered. -/
theorem renderStmt_whole {policy : HashPolicy} (h : policy.includeDocstrings = true)
    (stmt : Stmt) : (renderStmt stmt policy).toList = text sep (nodeTexts stmt.node) := by
  rw [renderStmt_toList, meaning_eq, h, stripNode_keep]

/-- Under a policy without docstrings the statement without them is
rendered. -/
theorem renderStmt_stripped {policy : HashPolicy} (h : policy.includeDocstrings = false)
    (stmt : Stmt) :
    (renderStmt stmt policy).toList = text sep (nodeTexts (withoutDocstrings stmt).node) := by
  rw [renderStmt_toList, meaning_eq, h]
  rfl

/-- A policy without docstrings renders a statement as one with docstrings
renders it without its leading strings, and as it renders the latter itself
exactly when no leading string is left there. Every other string is rendered,
and with docstrings everything is. Statements that differ in docstrings only
are rendered alike. -/
theorem docstrings_left_out (without with_ : HashPolicy)
    (hwithout : without.includeDocstrings = false) (hwith : with_.includeDocstrings = true)
    (stmt : Stmt) :
    renderStmt stmt without = renderStmt (withoutDocstrings stmt) with_ ∧
    (renderStmt stmt without = renderStmt (withoutDocstrings stmt) without ↔
      (withoutDocstrings (withoutDocstrings stmt)).node = (withoutDocstrings stmt).node) ∧
    (∀ (place : List ℕ) (node : Stmt), nodeAt stmt.node place = some node.node →
      isDocstringStmt node.node = true → docstringPlace false stmt.node place = false →
      (renderStmt node without).toList <:+: (renderStmt stmt without).toList) ∧
    (∀ (place : List ℕ) (node : Stmt), nodeAt stmt.node place = some node.node →
      (renderStmt node with_).toList <:+: (renderStmt stmt with_).toList) ∧
    (renderStmt stmt with_).toList = text sep (nodeTexts stmt.node) ∧
    ∀ other : Stmt, (withoutDocstrings other).node = (withoutDocstrings stmt).node →
      renderStmt other without = renderStmt stmt without := by
  refine ⟨?_, ?_, ?_, ?_, renderStmt_whole hwith stmt, ?_⟩
  · rw [← String.toList_inj, renderStmt_stripped hwithout, renderStmt_whole hwith]
  · rw [← String.toList_inj, renderStmt_stripped hwithout, renderStmt_stripped hwithout]
    constructor
    · intro heq
      exact (length_stripNode false false (withoutDocstrings stmt).node).2
        (congrArg List.length heq).symm
    · intro heq
      rw [heq]
  · intro place node hnode _ hplace
    have hkept : leftOut without stmt.node place node.node = false := by
      unfold leftOut
      rw [hplace, Bool.and_false, Bool.false_and]
    exact (renderStmt_member without hnode hkept hkept).1
  · intro place node hnode
    have hkept : leftOut with_ stmt.node place node.node = false := by
      unfold leftOut
      rw [hwith]
      rfl
    exact (renderStmt_member with_ hnode hkept hkept).1
  · intro other hother
    rw [← String.toList_inj, renderStmt_stripped hwithout, renderStmt_stripped hwithout, hother]

/-- A function whose suite is bare strings. -/
def functionOfStrings (texts : List String) : Stmt where
  node := functionNode "f" (texts.foldr (fun value rest => .child (.mk .stmtExpr (.child
    (.mk .exprStringLiteral (.child (.mk .stringLiteral (.scalar (.text value) .nil)) (.stop .nil)))
    .nil)) rest) .nil)
  isStmt := rfl
  wellFormed := by
    refine wellFormed_functionNode "f" ?_
    induction texts with
    | nil => rfl
    | cons value texts ih => exact follow_child_of rfl rfl ih

/-- With two leading strings the second is rendered, but it is the docstring
of the function without the first. -/
theorem second_string_rendered :
    renderStmt (functionOfStrings ["a", "b"]) .default ≠
      renderStmt (withoutDocstrings (functionOfStrings ["a", "b"])) .default := by
  decide

/-- Two functions that differ in their docstring are rendered alike. -/
theorem docstring_edit_unseen :
    renderStmt (functionOfStrings ["a"]) .default = renderStmt (functionOfStrings ["b"]) .default :=
  (docstrings_left_out .default { HashPolicy.default with includeDocstrings := true } rfl rfl
    (functionOfStrings ["b"])).2.2.2.2.2 (functionOfStrings ["a"]) (by decide)

end Tyo3.Docstrings
