import Tyo3.CanonicalHash

/-!
# Statements inside statements

A place inside a node is the list of the child numbers on the way down. The
rendering of a statement splits around every statement inside it that is not
a docstring left out: what stands before and after does not depend on it.
-/

namespace Tyo3.StatementPlaces

open CanonicalHash PythonSyntax TokenStreams

/-! ## Places -/

/-- The child with a number among fields. -/
def nth : Items → ℕ → Option Node
  | .nil, _ => none
  | .scalar _ rest, i => nth rest i
  | .ident _ rest, i => nth rest i
  | .absent rest, i => nth rest i
  | .stop rest, i => nth rest i
  | .child node _, 0 => some node
  | .child _ rest, i + 1 => nth rest i

/-- Fields with another child at a number. -/
def setNth : Items → ℕ → Node → Items
  | .nil, _, _ => .nil
  | .scalar value rest, i, new => .scalar value (setNth rest i new)
  | .ident name rest, i, new => .ident name (setNth rest i new)
  | .absent rest, i, new => .absent (setNth rest i new)
  | .stop rest, i, new => .stop (setNth rest i new)
  | .child _ rest, 0, new => .child new rest
  | .child node rest, i + 1, new => .child node (setNth rest i new)

/-- The node at a place. -/
def nodeAt : Node → List ℕ → Option Node
  | node, [] => some node
  | .mk _ items, i :: place =>
    match nth items i with
    | some child => nodeAt child place
    | none => none

/-- A node with another node at a place. -/
def replaceAt : Node → List ℕ → Node → Node
  | _, [], new => new
  | .mk kind items, i :: place, new =>
    match nth items i with
    | some child => .mk kind (setNth items i (replaceAt child place new))
    | none => .mk kind items

/-- Whether a place is the start of the suite of a definition; `scope` says
that the node is a field of one. -/
def docstringPlace (scope : Bool) : Node → List ℕ → Bool
  | _, [] => false
  | .mk kind _, [i] => scope && kind = .suite && i = 0
  | .mk kind items, i :: j :: place =>
    match nth items i with
    | some child => docstringPlace (isScope kind) child (j :: place)
    | none => false

/-- Whether the rendering leaves out a node at a place: a bare string at the
start of the suite of a definition, under a policy without docstrings. -/
def leftOut (policy : HashPolicy) (container : Node) (place : List ℕ) (node : Node) : Bool :=
  !policy.includeDocstrings && docstringPlace false container place && isDocstringStmt node

theorem nodeAt_cons {kind : NodeKind} {items : Items} {i : ℕ} {place : List ℕ} {node : Node}
    (h : nodeAt (.mk kind items) (i :: place) = some node) :
    ∃ child, nth items i = some child ∧ nodeAt child place = some node := by
  rw [nodeAt] at h
  cases hchild : nth items i with
  | none =>
    rw [hchild] at h
    cases h
  | some child =>
    rw [hchild] at h
    exact ⟨child, rfl, h⟩

theorem replaceAt_cons {kind : NodeKind} {items : Items} {i : ℕ} {child : Node}
    (h : nth items i = some child) (place : List ℕ) (new : Node) :
    replaceAt (.mk kind items) (i :: place) new =
      .mk kind (setNth items i (replaceAt child place new)) := by
  rw [replaceAt, h]

/-- Setting a child to itself changes nothing. -/
theorem setNth_self : ∀ (items : Items) (i : ℕ) (child : Node), nth items i = some child →
    setNth items i child = items
  | .nil, _, _, _ => rfl
  | .scalar _ rest, i, child, h => by rw [setNth, setNth_self rest i child h]
  | .ident _ rest, i, child, h => by rw [setNth, setNth_self rest i child h]
  | .absent rest, i, child, h => by rw [setNth, setNth_self rest i child h]
  | .stop rest, i, child, h => by rw [setNth, setNth_self rest i child h]
  | .child _ rest, 0, child, h => by rw [setNth, Option.some.inj h]
  | .child _ rest, i + 1, child, h => by rw [setNth, setNth_self rest i child h]

/-- Replacing a node by itself changes nothing. -/
theorem replaceAt_self {container node : Node} {place : List ℕ}
    (h : nodeAt container place = some node) : replaceAt container place node = container := by
  induction place generalizing container with
  | nil => exact (Option.some.inj h).symm
  | cons i place ih =>
    cases container with
    | mk kind items =>
      obtain ⟨child, hchild, hnode⟩ := nodeAt_cons h
      rw [replaceAt_cons hchild, ih hnode, setNth_self items i child hchild]

/-- A place below a place. -/
theorem nodeAt_append {container between : Node} {outer : List ℕ}
    (h : nodeAt container outer = some between) (inner : List ℕ) :
    nodeAt container (outer ++ inner) = nodeAt between inner := by
  induction outer generalizing container with
  | nil => rw [List.nil_append, Option.some.inj h]
  | cons i outer ih =>
    cases container with
    | mk kind items =>
      obtain ⟨child, hchild, hnode⟩ := nodeAt_cons h
      rw [List.cons_append, nodeAt, hchild]
      exact ih hnode

/-- Below a place the kind stays. -/
theorem kind_replaceAt_cons (container : Node) (i : ℕ) (place : List ℕ) (new : Node) :
    (replaceAt container (i :: place) new).kind = container.kind := by
  cases container with
  | mk kind items =>
    rw [replaceAt]
    split
    · rfl
    · rfl

/-! ## Fields with another child -/

/-- A statement stands in no field but the statements of a suite. -/
theorem not_isA_of_isStmt {kind : NodeKind} (h : kind.isStmt = true) (category : Category) :
    kind.isA category = false := by
  cases kind <;> first | (cases h; done) | (cases category <;> rfl)

theorem eq_stmts_of_isStmt {kind : NodeKind} {slot : Slot} (h : kind.isStmt = true)
    (hadmits : admits kind slot = true) : slot = .stmts := by
  cases slot with
  | stmts => rfl
  | one category => exact absurd hadmits (by rw [admits, not_isA_of_isStmt h]; exact nofun)
  | optional category => exact absurd hadmits (by rw [admits, not_isA_of_isStmt h]; exact nofun)
  | many category => exact absurd hadmits (by rw [admits, not_isA_of_isStmt h]; exact nofun)
  | ident => cases hadmits
  | identOptional => cases hadmits
  | idents => cases hadmits
  | scalar sort => cases hadmits

/-- A child that may stand in the first slot, before fields that follow the
others. -/
theorem follow_child_of {node : Node} {rest : Items} {slot : Slot} {tail : List Slot}
    (hadmits : admits node.kind slot = true) (hwell : node.wellFormed = true)
    (hrest : rest.follow (if repeats slot then slot :: tail else tail) = true) :
    (Items.child node rest).follow (slot :: tail) = true := by
  cases slot with
  | one category =>
    simp only [Items.follow, Bool.and_eq_true]
    exact ⟨⟨hadmits, hwell⟩, hrest⟩
  | optional category =>
    simp only [Items.follow, Bool.and_eq_true]
    exact ⟨⟨hadmits, hwell⟩, hrest⟩
  | many category =>
    simp only [Items.follow, Bool.and_eq_true]
    exact ⟨⟨hadmits, hwell⟩, hrest⟩
  | stmts =>
    cases tail with
    | nil =>
      simp only [Items.follow, Bool.and_eq_true]
      exact ⟨⟨hadmits, hwell⟩, hrest⟩
    | cons next tail => cases rest <;> simp [repeats, Items.follow] at hrest
  | ident => cases hadmits
  | identOptional => cases hadmits
  | idents => cases hadmits
  | scalar sort => cases hadmits

/-- A child of well-formed fields stands in one of the slots, and anything
that may stand in this slot may take its place. -/
theorem follow_nth : ∀ (items : Items) (i : ℕ) (child : Node) (slots : List Slot),
    items.follow slots = true → nth items i = some child →
    ∃ slot ∈ slots, admits child.kind slot = true ∧ child.wellFormed = true ∧
      ∀ new : Node, admits new.kind slot = true → new.wellFormed = true →
        (setNth items i new).follow slots = true
  | .nil, _, _, _, _, h => by cases h
  | .scalar value rest, i, child, slots, hfollow, h => by
    cases slots with
    | nil => simp [Items.follow] at hfollow
    | cons slot tail =>
      cases slot <;> simp only [Items.follow, Bool.and_eq_true, Bool.false_eq_true] at hfollow
      obtain ⟨slot, hslot, hadmits, hwell, hset⟩ := follow_nth rest i child tail hfollow.2 h
      refine ⟨slot, List.mem_cons_of_mem _ hslot, hadmits, hwell, fun new hnew hnewWell => ?_⟩
      simp only [setNth, Items.follow, Bool.and_eq_true]
      exact ⟨hfollow.1, hset new hnew hnewWell⟩
  | .ident name rest, i, child, slots, hfollow, h => by
    cases slots with
    | nil => simp [Items.follow] at hfollow
    | cons slot tail =>
      cases slot <;> simp only [Items.follow, Bool.false_eq_true] at hfollow
      all_goals
        obtain ⟨slot, hslot, hadmits, hwell, hset⟩ := follow_nth rest i child _ hfollow h
        refine ⟨slot, by simp at hslot ⊢; tauto, hadmits, hwell, fun new hnew hnewWell => ?_⟩
        simp only [setNth, Items.follow]
        exact hset new hnew hnewWell
  | .absent rest, i, child, slots, hfollow, h => by
    cases slots with
    | nil => simp [Items.follow] at hfollow
    | cons slot tail =>
      cases slot <;> simp only [Items.follow, Bool.false_eq_true] at hfollow
      all_goals
        obtain ⟨slot, hslot, hadmits, hwell, hset⟩ := follow_nth rest i child _ hfollow h
        refine ⟨slot, List.mem_cons_of_mem _ hslot, hadmits, hwell, fun new hnew hnewWell => ?_⟩
        simp only [setNth, Items.follow]
        exact hset new hnew hnewWell
  | .stop rest, i, child, slots, hfollow, h => by
    cases slots with
    | nil => simp [Items.follow] at hfollow
    | cons slot tail =>
      cases slot <;> simp only [Items.follow, Bool.false_eq_true] at hfollow
      all_goals
        obtain ⟨slot, hslot, hadmits, hwell, hset⟩ := follow_nth rest i child _ hfollow h
        refine ⟨slot, List.mem_cons_of_mem _ hslot, hadmits, hwell, fun new hnew hnewWell => ?_⟩
        simp only [setNth, Items.follow]
        exact hset new hnew hnewWell
  | .child node rest, 0, child, slots, hfollow, h => by
    obtain ⟨slot, tail, rfl, hadmits, hwell, hrest⟩ := follow_child hfollow
    rw [Option.some.inj h] at hadmits hwell
    refine ⟨slot, List.mem_cons_self, hadmits, hwell, fun new hnew hnewWell => ?_⟩
    exact follow_child_of hnew hnewWell hrest
  | .child node rest, i + 1, child, slots, hfollow, h => by
    obtain ⟨first, tail, rfl, hadmits, hwell, hrest⟩ := follow_child hfollow
    obtain ⟨slot, hslot, hchild, hchildWell, hset⟩ := follow_nth rest i child _ hrest h
    have hmem : slot ∈ first :: tail := by
      split at hslot
      · exact hslot
      · exact List.mem_cons_of_mem _ hslot
    refine ⟨slot, hmem, hchild, hchildWell, fun new hnew hnewWell => ?_⟩
    exact follow_child_of hadmits hwell (hset new hnew hnewWell)

/-- One statement may take the place of another. -/
theorem wellFormed_replaceAt {container node new : Node} {place : List ℕ}
    (hwell : container.wellFormed = true) (h : nodeAt container place = some node)
    (hnode : node.kind.isStmt = true) (hnew : new.kind.isStmt = true)
    (hnewWell : new.wellFormed = true) : (replaceAt container place new).wellFormed = true := by
  induction place generalizing container with
  | nil => exact hnewWell
  | cons i place ih =>
    cases container with
    | mk kind items =>
      obtain ⟨child, hchild, hin⟩ := nodeAt_cons h
      obtain ⟨slot, _, hadmits, hchildWell, hset⟩ :=
        follow_nth items i child kind.slots hwell hchild
      rw [replaceAt_cons hchild]
      refine hset _ ?_ (ih hchildWell hin)
      cases place with
      | nil =>
        have hsame : child = node := Option.some.inj hin
        rw [hsame] at hadmits
        rw [replaceAt, eq_stmts_of_isStmt hnode hadmits]
        exact hnew
      | cons j place =>
        rw [kind_replaceAt_cons]
        exact hadmits

/-- No statement stands below a node that has no suite. -/
theorem not_isStmt_below {container node : Node} {i : ℕ} {place : List ℕ}
    (hwell : container.wellFormed = true) (hplain : isPlain container.kind = true)
    (h : nodeAt container (i :: place) = some node) : node.kind.isStmt = false := by
  induction place generalizing container i with
  | nil =>
    cases container with
    | mk kind items =>
      obtain ⟨child, hchild, hin⟩ := nodeAt_cons h
      obtain ⟨slot, hslot, hadmits, _⟩ := follow_nth items i child kind.slots hwell hchild
      rw [Option.some.inj hin] at hadmits
      by_contra hstmt
      have heq := eq_stmts_of_isStmt (Bool.eq_true_of_not_eq_false hstmt) hadmits
      have hslotPlain := List.all_eq_true.mp hplain slot hslot
      rw [heq] at hslotPlain
      cases hslotPlain
  | cons j place ih =>
    cases container with
    | mk kind items =>
      obtain ⟨child, hchild, hin⟩ := nodeAt_cons h
      obtain ⟨slot, hslot, hadmits, hchildWell, _⟩ :=
        follow_nth items i child kind.slots hwell hchild
      exact ih hchildWell (isPlain_of_admits (List.all_eq_true.mp hplain slot hslot) hadmits) hin

/-! ## The rendering around a place -/

/-- Only a suite takes the scope. -/
theorem stripNode_scope (keep scope : Bool) {node : Node} (h : node.kind ≠ .suite) :
    stripNode keep scope node = stripNode keep false node := by
  cases node with
  | mk kind items =>
    have hkind : (kind = .suite : Bool) = false := decide_eq_false h
    rw [stripNode, stripNode, hkind, Bool.and_false, Bool.and_false]

/-- A bare string is a plain statement. -/
theorem kind_of_isDocstringStmt {node : Node} (h : isDocstringStmt node = true) :
    node.kind = .stmtExpr := by
  unfold isDocstringStmt at h
  split at h
  · rfl
  · cases h

/-- Another child leaves the words before the fields. -/
theorem headTokens_setNth (kind : NodeKind) (items : Items) (i : ℕ) (new : Node) :
    headTokens kind (setNth items i new) = headTokens kind items := by
  have hleading : (setNth items i new).leadingScalar = items.leadingScalar := by
    cases items with
    | child node rest => cases i <;> rfl
    | _ => rfl
  unfold headTokens
  rw [hleading]

/-- The words of fields split around a child that is not left out. -/
theorem texts_setNth (keep scope : Bool) : ∀ (skip : Bool) (items : Items) (i : ℕ) (child : Node),
    nth items i = some child →
    ∃ before after : List String, ∀ new : Node,
      (skip = true → i = 0 → isDocstringStmt new = false) →
      itemsTexts (stripItems keep scope skip (setNth items i new)) =
        before ++ nodeTexts (stripNode keep scope new) ++ after
  | _, .nil, _, _, h => by cases h
  | skip, .scalar value rest, i, child, h => by
    obtain ⟨before, after, hsplit⟩ := texts_setNth keep scope skip rest i child h
    refine ⟨before, after, fun new hnew => ?_⟩
    rw [setNth, stripItems, itemsTexts, hsplit new hnew]
  | skip, .ident name rest, i, child, h => by
    obtain ⟨before, after, hsplit⟩ := texts_setNth keep scope skip rest i child h
    refine ⟨name :: before, after, fun new hnew => ?_⟩
    rw [setNth, stripItems, itemsTexts, hsplit new hnew]
    simp only [List.append_assoc, List.cons_append]
  | skip, .absent rest, i, child, h => by
    obtain ⟨before, after, hsplit⟩ := texts_setNth keep scope skip rest i child h
    refine ⟨before, after, fun new hnew => ?_⟩
    rw [setNth, stripItems, itemsTexts, hsplit new hnew]
  | skip, .stop rest, i, child, h => by
    obtain ⟨before, after, hsplit⟩ := texts_setNth keep scope skip rest i child h
    refine ⟨before, after, fun new hnew => ?_⟩
    rw [setNth, stripItems, itemsTexts, hsplit new hnew]
  | skip, .child node rest, 0, child, h => by
    refine ⟨[], itemsTexts (stripItems keep scope false rest), fun new hnew => ?_⟩
    have hkept : (skip && isDocstringStmt new) = false := by
      cases skip with
      | false => rfl
      | true => rw [hnew rfl rfl, Bool.and_false]
    rw [setNth, stripItems, hkept, if_neg Bool.false_ne_true, itemsTexts]
    rfl
  | skip, .child node rest, i + 1, child, h => by
    obtain ⟨before, after, hsplit⟩ := texts_setNth keep scope false rest i child h
    have hrest : ∀ new : Node, itemsTexts (stripItems keep scope false (setNth rest i new)) =
        before ++ nodeTexts (stripNode keep scope new) ++ after := fun new =>
      hsplit new fun hskip => absurd hskip Bool.false_ne_true
    cases hdoc : skip && isDocstringStmt node with
    | true =>
      refine ⟨before, after, fun new _ => ?_⟩
      rw [setNth, stripItems, hdoc, if_pos rfl, hrest]
    | false =>
      refine ⟨nodeTexts (stripNode keep scope node) ++ before, after, fun new _ => ?_⟩
      rw [setNth, stripItems, hdoc, if_neg Bool.false_ne_true, itemsTexts, hrest]
      simp only [List.append_assoc]

/-- The words of a node split around a statement that is not left out. -/
theorem texts_replaceAt (keep scope : Bool) {container node : Node} {place : List ℕ}
    (hwell : container.wellFormed = true) (h : nodeAt container place = some node)
    (hnode : node.kind.isStmt = true) :
    ∃ before after : List String, ∀ new : Node, new.kind.isStmt = true →
      (keep = false → docstringPlace scope container place = true → isDocstringStmt new = false) →
      nodeTexts (stripNode keep scope (replaceAt container place new)) =
        before ++ nodeTexts (stripNode keep false new) ++ after := by
  induction place generalizing container scope with
  | nil =>
    refine ⟨[], [], fun new hnew _ => ?_⟩
    have hsuite : new.kind ≠ .suite := fun heq => by rw [heq] at hnew; cases hnew
    rw [replaceAt, stripNode_scope keep scope hsuite, List.append_nil]
    rfl
  | cons i place ih =>
    cases container with
    | mk kind items =>
      obtain ⟨child, hchild, hin⟩ := nodeAt_cons h
      obtain ⟨_, _, _, hchildWell, _⟩ := follow_nth items i child kind.slots hwell hchild
      obtain ⟨before, after, hsplit⟩ := ih (isScope kind) hchildWell hin
      obtain ⟨before', after', hfields⟩ := texts_setNth keep (isScope kind)
        (scope && !keep && kind = .suite) items i child hchild
      refine ⟨headTokens kind items ++ (before' ++ before),
        after ++ after' ++ tailTokens kind, fun new hnew hout => ?_⟩
      -- the last step of the way may end at a docstring, an earlier one never does
      have hkept : (scope && !keep && (kind = .suite : Bool)) = true → i = 0 →
          isDocstringStmt (replaceAt child place new) = false := by
        intro hskip hi
        cases place with
        | nil =>
          have hparts := Bool.and_eq_true_iff.mp hskip
          have hscope := Bool.and_eq_true_iff.mp hparts.1
          refine hout (by simpa using hscope.2) ?_
          rw [docstringPlace, hscope.1, hparts.2, hi]
          rfl
        | cons j place =>
          by_contra hdoc
          have hexpr := kind_of_isDocstringStmt (Bool.eq_true_of_not_eq_false hdoc)
          rw [kind_replaceAt_cons] at hexpr
          have hnone := not_isStmt_below hchildWell (by rw [hexpr]; rfl) hin
          rw [hnode] at hnone
          cases hnone
      have hbelow : keep = false → docstringPlace (isScope kind) child place = true →
          isDocstringStmt new = false := by
        intro hkeep hplace
        refine hout hkeep ?_
        cases place with
        | nil => cases hplace
        | cons j place => rw [docstringPlace, hchild]; exact hplace
      have hhead := headTokens_strip keep (isScope kind) (scope && !keep && kind = .suite) kind
        (setNth items i (replaceAt child place new)) fun hskip =>
          of_decide_eq_true (Bool.and_eq_true_iff.mp hskip).2
      rw [replaceAt_cons hchild, stripNode, nodeTexts, hhead, headTokens_setNth,
        hfields _ hkept, hsplit new hnew hbelow]
      simp only [List.append_assoc]

/-- The rendering of a container splits around the rendering of a statement
that is not left out, into texts that the statement has no part in. -/
theorem renderStmt_split (policy : HashPolicy) {container node : Stmt} {place : List ℕ}
    (h : nodeAt container.node place = some node.node) :
    ∃ before after : List Char, ∀ new changed : Stmt,
      changed.node = replaceAt container.node place new.node →
      leftOut policy container.node place new.node = false →
      (renderStmt changed policy).toList = before ++ (renderStmt new policy).toList ++ after := by
  obtain ⟨before, after, hsplit⟩ := texts_replaceAt policy.includeDocstrings false
    container.wellFormed h node.isStmt
  refine ⟨text sep before, text sep after, fun new changed hchanged hout => ?_⟩
  have htexts := hsplit new.node new.isStmt fun hkeep hplace => by
    unfold leftOut at hout
    rw [hkeep, hplace] at hout
    exact hout
  rw [renderStmt_toList, renderStmt_toList, meaning_eq, meaning_eq, hchanged, htexts, text_append,
    text_append]

/-! ## Containers and their members -/

/-- A statement with another statement in the place of one inside it. -/
def replaced (container node new : Stmt) (place : List ℕ)
    (h : nodeAt container.node place = some node.node) : Stmt where
  node := replaceAt container.node place new.node
  isStmt := by
    cases place with
    | nil => exact new.isStmt
    | cons i place => rw [kind_replaceAt_cons]; exact container.isStmt
  wellFormed := wellFormed_replaceAt container.wellFormed h node.isStmt new.isStmt new.wellFormed

/-- A member that is not left out is rendered inside its container, and
replacing it changes the rendering of the one as it does that of the other. -/
theorem renderStmt_member (policy : HashPolicy) {container node new : Stmt} {place : List ℕ}
    (h : nodeAt container.node place = some node.node)
    (hnode : leftOut policy container.node place node.node = false)
    (hnew : leftOut policy container.node place new.node = false) :
    (renderStmt node policy).toList <:+: (renderStmt container policy).toList ∧
    (renderStmt (replaced container node new place h) policy ≠ renderStmt container policy ↔
      renderStmt new policy ≠ renderStmt node policy) := by
  obtain ⟨before, after, hsplit⟩ := renderStmt_split policy h
  have hold := hsplit node container (replaceAt_self h).symm hnode
  have hchanged := hsplit new (replaced container node new place h) rfl hnew
  refine ⟨⟨before, after, hold.symm⟩, not_congr ?_⟩
  rw [← String.toList_inj, ← String.toList_inj, hold, hchanged, List.append_left_inj,
    List.append_right_inj]

/-- Two steps below a node, its own scope plays no part. -/
theorem docstringPlace_scope (scope : Bool) (node : Node) (i j : ℕ) (place : List ℕ) :
    docstringPlace scope node (i :: j :: place) = docstringPlace false node (i :: j :: place) := by
  cases node with
  | mk kind items => rfl

/-- A docstring place of a statement is one of every container around it. -/
theorem docstringPlace_append {scope : Bool} {container between : Node} {outer : List ℕ}
    (h : nodeAt container outer = some between) {inner : List ℕ}
    (hplace : docstringPlace false between inner = true) :
    docstringPlace scope container (outer ++ inner) = true := by
  -- one step below a statement there is no suite, so the way down is longer
  have hlong : ∃ i j rest, inner = i :: j :: rest := by
    cases inner with
    | nil => cases hplace
    | cons i inner =>
      cases inner with
      | nil =>
        cases between with
        | mk kind items => cases hplace
      | cons j rest => exact ⟨i, j, rest, rfl⟩
  obtain ⟨i, j, rest, hinner⟩ := hlong
  rw [hinner] at hplace ⊢
  induction outer generalizing container scope with
  | nil => rw [List.nil_append, Option.some.inj h, docstringPlace_scope, hplace]
  | cons k outer ih =>
    cases container with
    | mk kind items =>
      obtain ⟨child, hchild, hin⟩ := nodeAt_cons h
      have hbelow := @ih (isScope kind) child hin
      cases outer with
      | nil =>
        rw [List.cons_append, List.nil_append, docstringPlace, hchild]
        exact hbelow
      | cons l outer =>
        rw [List.cons_append, List.cons_append, docstringPlace, hchild]
        exact hbelow

/-- A container renders its members inside its own rendering, at any depth,
and a member that is replaced changes every container around it exactly when
it changes itself. Docstrings that are left out are no members. -/
theorem container_subsumes (policy : HashPolicy) (container node new : Stmt) (place : List ℕ)
    (h : nodeAt container.node place = some node.node)
    (hnode : leftOut policy container.node place node.node = false)
    (hnew : leftOut policy container.node place new.node = false) :
    (renderStmt node policy).toList <:+: (renderStmt container policy).toList ∧
    (renderStmt (replaced container node new place h) policy ≠ renderStmt container policy ↔
      renderStmt new policy ≠ renderStmt node policy) ∧
    ∀ (outer inner : List ℕ) (between : Stmt), place = outer ++ inner →
      nodeAt container.node outer = some between.node →
      (renderStmt between policy).toList <:+: (renderStmt container policy).toList ∧
      (renderStmt node policy).toList <:+: (renderStmt between policy).toList ∧
      ∃ hin : nodeAt between.node inner = some node.node,
        (renderStmt (replaced between node new inner hin) policy ≠ renderStmt between policy ↔
          renderStmt new policy ≠ renderStmt node policy) := by
  have hwhole := renderStmt_member policy h hnode hnew
  refine ⟨hwhole.1, hwhole.2, ?_⟩
  intro outer inner between hplace hbetween
  have hin : nodeAt between.node inner = some node.node := by
    rw [← nodeAt_append hbetween inner, ← hplace, h]
  have hmember : ∀ stmt : Stmt, leftOut policy container.node place stmt.node = false →
      leftOut policy between.node inner stmt.node = false := by
    intro stmt hout
    by_contra hleft
    have hparts := Bool.and_eq_true_iff.mp (Bool.eq_true_of_not_eq_false hleft)
    have hpolicy := Bool.and_eq_true_iff.mp hparts.1
    unfold leftOut at hout
    rw [hplace, hpolicy.1, docstringPlace_append hbetween hpolicy.2, hparts.2] at hout
    cases hout
  have hkept : leftOut policy container.node outer between.node = false := by
    cases inner with
    | nil =>
      rw [List.append_nil] at hplace
      rw [← hplace, show between.node = node.node from Option.some.inj hin]
      exact hnode
    | cons i inner =>
      have hstring : isDocstringStmt between.node = false := by
        by_contra hdoc
        have hexpr := kind_of_isDocstringStmt (Bool.eq_true_of_not_eq_false hdoc)
        have hnone := not_isStmt_below between.wellFormed (by rw [hexpr]; rfl) hin
        rw [node.isStmt] at hnone
        cases hnone
      unfold leftOut
      rw [hstring, Bool.and_false]
  have hinside := renderStmt_member policy hin (hmember node hnode) (hmember new hnew)
  exact ⟨(renderStmt_member policy hbetween hkept hkept).1, hinside.1, hin, hinside.2⟩

/-- A function without parameters and with the given suite. -/
def functionNode (name : String) (suite : Items) : Node :=
  .mk .stmtFunctionDef (.scalar (.flag false) (.stop (.ident name (.absent (.child
    (.mk .parameters (.stop (.stop (.absent (.stop (.absent .nil)))))) (.absent
      (.child (.mk .suite suite) .nil)))))))

theorem wellFormed_functionNode {suite : Items} (name : String)
    (h : suite.follow [.stmts] = true) : (functionNode name suite).wellFormed = true := by
  simp only [functionNode, Node.wellFormed, NodeKind.slots, Items.follow, h]
  rfl

/-- A class with a method of one statement. -/
def classOfMethod (body : Stmt) : Stmt where
  node := .mk .stmtClassDef (.stop (.ident "C" (.absent (.absent (.child (.mk .suite
    (.child (functionNode "f" (.child body.node .nil)) .nil)) .nil)))))
  isStmt := rfl
  wellFormed := by
    have hbody : (Items.child body.node .nil).follow [.stmts] = true :=
      follow_child_of body.isStmt body.wellFormed rfl
    have hmethod := wellFormed_functionNode "f" hbody
    simp only [Node.wellFormed, NodeKind.slots, Items.follow, hmethod]
    rfl

/-- Another statement in the method changes the rendering of the class. -/
theorem method_body_changes_class :
    renderStmt (classOfMethod callOfOne) .default ≠
      renderStmt (classOfMethod (augAssign .add)) .default :=
  (container_subsumes .default (classOfMethod (augAssign .add)) (augAssign .add) callOfOne
    [0, 0, 1, 0] rfl (by decide) (by decide)).2.1.mpr (by decide)

end Tyo3.StatementPlaces
