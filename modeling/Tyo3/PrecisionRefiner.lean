import Tyo3.CommitFunnel
import Tyo3.TextSearch
import Tyo3.TransitiveQueries

/-!
# The precision refiner

With method precision every commit is refined after it was delivered. The
refiner pins the revision, looks up the places where changed members are used,
and keeps of the affected ids those that depend on these places or on other
changed ids. A class that changed together with one of its members is taken as
changed by the member, so its own dependents are not followed. A refinement is
cut down to the affected ids and always has the changed ones.
-/

namespace Tyo3.PrecisionRefiner

open CodeGraphs CommitFunnel FiniteMaps Runs

open CodeLayer (Position Range externalFile)

open TransitiveQueries (Cached Indexed Operation Uses cached_of_empty firstEdges
  firstEdges_documented mem_transitiveDependents operation_keeps)

/-! ## Paths -/

/-- A path below another one. -/
def join (root file : String) : String :=
  if file.toList.head? = some '/' then file
  else if root = "" ∨ root.toList.getLast? = some '/' then root ++ file
  else root ++ "/" ++ file

/-- The slashes a path keeps at its start: two of exactly two, one otherwise. -/
def initialSlashes (path : String) : String :=
  match path.toList with
  | '/' :: '/' :: '/' :: _ => "/"
  | '/' :: '/' :: _ => "//"
  | '/' :: _ => "/"
  | _ => ""

/-- Append a component, or go up. -/
def pushComponent (absolute : Bool) (comps : List String) (comp : String) : List String :=
  if comp = "" ∨ comp = "." then comps
  else if comp ≠ ".." ∨ (absolute = false ∧ comps = []) ∨ comps.getLast? = some ".." then
    comps ++ [comp]
  else comps.dropLast

/-- Normalise a path. -/
def normpath (path : String) : String :=
  let slashes := initialSlashes path
  let comps := (TextSearch.splitOn '/' path).foldl (pushComponent (slashes ≠ "")) []
  let normal := slashes ++ "/".intercalate comps
  if normal = "" then "." else normal

/-! ## Snapshots -/

/-- A place where a symbol is referred to. -/
structure Reference where
  /-- Absolute path. -/
  path : String
  /-- Range of the name. -/
  range : Range

/-- A pinned revision. What the type checker finds is an argument. -/
structure Snapshot where
  /-- Root of the project. -/
  root : String
  /-- The pinned revision. -/
  revision : ℕ
  /-- The code delta of the pinned state. -/
  fullCodeDelta : CodeDelta
  /-- References to the symbol at a line and a column of a file. -/
  findReferences : String → ℕ → ℕ → Except String (List Reference)

/-- The graph of a snapshot. -/
def Snapshot.graph (snap : Snapshot) : CodeGraph :=
  (CodeGraph.new.applyCodeDelta snap.fullCodeDelta).pinAt snap.revision

/-- Whether a node has a file in the project. -/
def inProject (node : SymbolNode) : Bool :=
  node.file ≠ "" && node.file ≠ externalFile && node.file ≠ "<project>" && !node.external

/-- The nodes of a file, which is given by an absolute path. -/
def fileNodes (snap : Snapshot) (absPath : String) : List SymbolNode :=
  snap.graph.nodes.filter fun node =>
    inProject node && normpath (join snap.root node.file) = normpath absPath

/-! ## The entity around a place -/

/-- Positions by line and column. -/
def place (pos : Position) : ℕ ×ₗ ℕ := toLex (pos.line, pos.column)

/-- Whether a position is in a range, ends included. -/
def rangeContains (range : Range) (pos : Position) : Bool :=
  place range.start ≤ place pos && place pos ≤ place range.stop

/-- Size of a range in lines and columns. -/
def rangeSize (range : Range) : ℤ ×ₗ ℤ :=
  toLex ((range.stop.line : ℤ) - range.start.line, (range.stop.column : ℤ) - range.start.column)

/-- What is found around a place. -/
structure Around where
  /-- The tightest entity. -/
  best : Option SymbolNode
  /-- The module. -/
  moduleNode : Option SymbolNode

/-- Compare a node with what was found. -/
def consider (pos : Position) (found : Around) (node : SymbolNode) : Around :=
  if node.kind = .module_ then { found with moduleNode := some node }
  else if rangeContains node.range pos then
    match found.best with
    | none => { found with best := some node }
    | some best =>
      if rangeSize node.range < rangeSize best.range then { found with best := some node }
      else found
  else found

/-- The tightest entity around a place, or else the module. -/
def enclosingEntityId (snap : Snapshot) (absPath : String) (pos : Position) : Option String :=
  let found := (fileNodes snap absPath).foldl (consider pos) ⟨none, none⟩
  (found.best.or found.moduleNode).map SymbolNode.durableId

/-! ## Narrowing -/

section Narrowing

variable (rx : Rustworkx) (snap : Snapshot)

/-- Whether an id is that of a member of a class. -/
def isMember (id : String) : Bool :=
  match snap.graph.parent rx id with
  | some parent => parent.kind = .class_
  | none => false

/-- The references to a symbol, at its name or else at its definition. -/
def referencesTo (node : SymbolNode) : Except String (List Reference) :=
  let sel := node.selectionRange.getD node.range
  snap.findReferences node.file sel.start.line sel.start.column

/-- The entities around references. -/
def ownersOf (refs : List Reference) : Finset String :=
  (refs.filterMap fun ref => enclosingEntityId snap ref.path ref.range.start).toFinset

/-- What a changed member keeps, and whose dependents it keeps: its users, or
its class when they are not known. -/
def memberRoots (id : String) : Finset String × Finset String :=
  match snap.graph.symbol id with
  | none => (∅, ∅)
  | some node =>
    match referencesTo snap node with
    | .error _ => (∅, ((snap.graph.parent rx id).map SymbolNode.durableId).toFinset)
    | .ok refs => (ownersOf snap refs, ownersOf snap refs)

/-- Changed classes that own a changed member. -/
def subsumptionClasses (changed members : Finset String) : Finset String :=
  members.biUnion fun id =>
    ((snap.graph.parent rx id).map SymbolNode.durableId).toFinset.filter fun owner =>
      owner ∈ changed

/-- Changed members of classes. -/
def membersChanged (changed : Finset String) : Finset String :=
  changed.filter fun id => isMember rx snap id

/-- What is kept at first: the changed ids and the users of changed members. -/
def firstKept (changed : Finset String) : Finset String :=
  changed ∪ (membersChanged rx snap changed).biUnion fun id => (memberRoots rx snap id).1

/-- The ids whose dependents are kept: the users of changed members and the
changed ids that are not members and not changed by a member. -/
def expansionRoots (changed : Finset String) : Finset String :=
  let members := membersChanged rx snap changed
  (members.biUnion fun id => (memberRoots rx snap id).2) ∪
    ((changed \ subsumptionClasses rx snap changed members) \ members)

/-- Keep the dependents of a root as well. -/
def expand (state : Finset String × CodeGraph) (root : String) : Finset String × CodeGraph :=
  let (found, g) := state.2.transitiveDependents rx root none
  (state.1 ∪ found, g)

/-- The narrowed set of a commit, unless its revision cannot be pinned. -/
def computeNarrowed (iter : HashOrder String) (snapshot : Option Snapshot)
    (changedIds affectedIds : List String) : Option (Finset String) :=
  snapshot.map fun snap =>
    let changed := changedIds.toFinset
    let affected := affectedIds.toFinset
    let kept := (iter.order (expansionRoots rx snap changed)).foldl (expand rx)
      (firstKept rx snap changed, snap.graph)
    (kept.1 ∩ affected) ∪ changed

end Narrowing

/-! ## The worker -/

/-- Granularity of the affected ids. -/
inductive PrecisionMode where
  | container | method
  deriving DecidableEq, Repr

/-- How refinements are computed. -/
inductive RefinementMode where
  | async | sync
  deriving DecidableEq, Repr

/-- A refinement of the affected ids of a revision. -/
structure AffectedRefinement where
  /-- The revision. -/
  revision : ℕ
  /-- The narrowed set. -/
  narrowed : Finset String
  /-- Ids beyond the affected ones. -/
  added : Finset String

/-- The refiner of a session. -/
structure Refiner where
  /-- Whether the worker was started. -/
  started : Bool
  /-- Commits that wait for the worker, with a sentinel to stop it. -/
  queue : List (Option CommitDelta)
  /-- The refinements that were published. -/
  published : List AffectedRefinement

/-- A refiner without work. -/
def Refiner.new : Refiner := ⟨false, [], []⟩

/-- What happens to a refiner. At the time of a computation the bus has
subscribers or not, and the revision can be pinned or not. -/
inductive Event where
  | commit (delta : CommitDelta) (subscribed retained : Bool)
  | work (subscribed retained : Bool)
  | stop

section Working

variable (rx : Rustworkx) (iter : HashOrder String) (pinned : ℕ → Snapshot)

/-- Compute and publish the refinement of a commit. -/
def computeAndPublish (r : Refiner) (delta : CommitDelta) (subscribed retained : Bool) : Refiner :=
  if !subscribed then r
  else if delta.identity.affectedIds = [] then r
  else
    let snapshot := if retained then some (pinned delta.revision) else none
    match computeNarrowed rx iter snapshot delta.identity.changedIds delta.identity.affectedIds with
    | none => r
    | some narrowed => { r with published := r.published ++ [⟨delta.revision, narrowed, ∅⟩] }

/-- Hand a commit to the refiner. -/
def feed (mode : RefinementMode) (r : Refiner) (delta : CommitDelta) (subscribed retained : Bool) :
    Refiner :=
  match mode with
  | .sync => computeAndPublish rx iter pinned r delta subscribed retained
  | .async => { r with started := true, queue := r.queue ++ [some delta] }

/-- Refine a commit when precision is asked for and somebody listens. -/
def maybeRefine (precision : PrecisionMode) (mode : RefinementMode) (r : Refiner)
    (delta : CommitDelta) (subscribed retained : Bool) : Refiner :=
  if precision ≠ .method then r
  else if !subscribed then r
  else feed rx iter pinned mode r delta subscribed retained

/-- One step of the session and its worker. -/
def step (precision : PrecisionMode) (mode : RefinementMode) (r : Refiner) : Event → Refiner
  | .commit delta subscribed retained =>
    maybeRefine rx iter pinned precision mode r delta subscribed retained
  | .work subscribed retained =>
    match r.queue with
    | [] => r
    | none :: queue => { r with queue := queue }
    | some delta :: queue =>
      computeAndPublish rx iter pinned { r with queue := queue } delta subscribed retained
  | .stop => if !r.started then r else { r with started := false, queue := r.queue ++ [none] }

end Working

/-! ## The tightest entity -/

/-- A node is an entity around a place. -/
def Holds (pos : Position) (node : SymbolNode) : Prop :=
  node.kind ≠ .module_ ∧ rangeContains node.range pos = true

/-- A node of a file encloses a place: the first one of the tightest entities
around it or, when there is no entity around it, the last module. -/
inductive Encloses (nodes : List SymbolNode) (pos : Position) (node : SymbolNode) : Prop
  | entity (before after : List SymbolNode) (hnodes : nodes = before ++ node :: after)
      (holds : Holds pos node)
      (hbefore : ∀ other ∈ before, Holds pos other → rangeSize node.range < rangeSize other.range)
      (hafter : ∀ other ∈ after, Holds pos other → rangeSize node.range ≤ rangeSize other.range)
  | module_ (before after : List SymbolNode) (hnodes : nodes = before ++ node :: after)
      (hmodule : node.kind = .module_) (hafter : ∀ other ∈ after, other.kind ≠ .module_)
      (hnone : ∀ other ∈ nodes, ¬Holds pos other)

section Enclosing

variable {pos : Position}

/-- One node more: it is not an entity around the place, or it takes the place
of a wider one. -/
theorem best_consider (pos : Position) (found : Around) (node : SymbolNode) :
    (¬Holds pos node ∧ (consider pos found node).best = found.best) ∨
    (Holds pos node ∧ ((consider pos found node).best = some node ∨
      ∃ best, found.best = some best ∧ (consider pos found node).best = some best ∧
        ¬rangeSize node.range < rangeSize best.range)) := by
  unfold consider Holds
  by_cases hmodule : node.kind = .module_
  · rw [if_pos hmodule]
    exact .inl ⟨fun h => h.1 hmodule, rfl⟩
  · rw [if_neg hmodule]
    by_cases hin : rangeContains node.range pos = true
    · rw [if_pos hin]
      refine .inr ⟨⟨hmodule, hin⟩, ?_⟩
      cases hbest : found.best with
      | none => exact .inl rfl
      | some best =>
        by_cases hlt : rangeSize node.range < rangeSize best.range
        · dsimp only
          rw [if_pos hlt]
          exact .inl rfl
        · dsimp only
          rw [if_neg hlt]
          exact .inr ⟨best, rfl, hbest, hlt⟩
    · rw [if_neg hin]
      exact .inl ⟨fun h => hin h.2, rfl⟩

/-- A tighter entity than the best one is the new best one. -/
theorem best_consider_of_tighter {found : Around} {node : SymbolNode} (hholds : Holds pos node)
    (htight : ∀ best, found.best = some best → rangeSize node.range < rangeSize best.range) :
    (consider pos found node).best = some node := by
  rcases best_consider pos found node with ⟨hnot, -⟩ | ⟨-, hnew | hold⟩
  · exact absurd hholds hnot
  · exact hnew
  · obtain ⟨best, hbest, -, hwide⟩ := hold
    exact absurd (htight best hbest) hwide

/-- The best entity is one of those that were seen. -/
theorem best_foldl_mem {nodes : List SymbolNode} {found : Around} {best : SymbolNode}
    (h : (nodes.foldl (consider pos) found).best = some best) :
    found.best = some best ∨ best ∈ nodes ∧ Holds pos best := by
  induction nodes generalizing found with
  | nil => exact .inl h
  | cons node nodes ih =>
    rcases ih h with hfirst | ⟨hin, hholds⟩
    · rcases best_consider pos found node with ⟨-, hsame⟩ | ⟨hholds, hnew | hold⟩
      · rw [hsame] at hfirst
        exact .inl hfirst
      · rw [hnew] at hfirst
        rw [← Option.some.inj hfirst]
        exact .inr ⟨List.mem_cons_self, hholds⟩
      · obtain ⟨kept, hkept, hsame, -⟩ := hold
        rw [hsame] at hfirst
        rw [hkept]
        exact .inl hfirst
    · exact .inr ⟨List.mem_cons_of_mem _ hin, hholds⟩

/-- The best entity stays when no tighter one follows. -/
theorem best_foldl_keeps {nodes : List SymbolNode} {found : Around} {best : SymbolNode}
    (hbest : found.best = some best)
    (hwide : ∀ other ∈ nodes, Holds pos other → rangeSize best.range ≤ rangeSize other.range) :
    (nodes.foldl (consider pos) found).best = some best := by
  induction nodes generalizing found with
  | nil => exact hbest
  | cons node nodes ih =>
    refine ih ?_ fun other hother => hwide other (List.mem_cons_of_mem _ hother)
    rcases best_consider pos found node with ⟨-, hsame⟩ | ⟨hholds, hnew | hold⟩
    · rw [hsame]
      exact hbest
    · -- a node that takes its place is tighter
      have hle := hwide node List.mem_cons_self hholds
      unfold consider
      rw [if_neg hholds.1, if_pos hholds.2, hbest]
      dsimp only
      rw [if_neg (not_lt.mpr hle)]
      exact hbest
    · obtain ⟨kept, hkept, hsame, -⟩ := hold
      rw [hsame, ← hkept]
      exact hbest

/-- The module stays when no other one follows. -/
theorem moduleNode_foldl {nodes : List SymbolNode} {found : Around}
    (hnone : ∀ other ∈ nodes, other.kind ≠ .module_) :
    (nodes.foldl (consider pos) found).moduleNode = found.moduleNode := by
  induction nodes generalizing found with
  | nil => rfl
  | cons node nodes ih =>
    rw [List.foldl_cons, ih fun other hother => hnone other (List.mem_cons_of_mem _ hother)]
    unfold consider
    rw [if_neg (hnone node List.mem_cons_self)]
    split
    · split
      · rfl
      · split <;> rfl
    · rfl

/-- The search finds the node that encloses the place. -/
theorem enclosingEntityId_of_encloses {snap : Snapshot} {absPath : String} {node : SymbolNode}
    (h : Encloses (fileNodes snap absPath) pos node) :
    enclosingEntityId snap absPath pos = some node.durableId := by
  unfold enclosingEntityId
  dsimp only
  cases h with
  | entity before after hnodes holds hbefore hafter =>
    have hbest : ((fileNodes snap absPath).foldl (consider pos) ⟨none, none⟩).best = some node := by
      rw [hnodes, List.foldl_append, List.foldl_cons]
      refine best_foldl_keeps (best_consider_of_tighter holds fun best hfirst => ?_) hafter
      rcases best_foldl_mem hfirst with hstart | ⟨hin, hholds⟩
      · cases hstart
      · exact hbefore best hin hholds
    rw [hbest]
    rfl
  | module_ before after hnodes hmodule hafter hnone =>
    have hbest : ((fileNodes snap absPath).foldl (consider pos) ⟨none, none⟩).best = none := by
      cases hfirst : ((fileNodes snap absPath).foldl (consider pos) ⟨none, none⟩).best with
      | none => rfl
      | some best =>
        rcases best_foldl_mem hfirst with hstart | ⟨hin, hholds⟩
        · cases hstart
        · exact absurd hholds (hnone best hin)
    have hlast : ((fileNodes snap absPath).foldl (consider pos) ⟨none, none⟩).moduleNode =
        some node := by
      rw [hnodes, List.foldl_append, List.foldl_cons, moduleNode_foldl hafter]
      unfold consider
      rw [if_pos hmodule]
    rw [hbest, hlast]
    rfl

/-- The search ends with the first one of the tightest entities around the
place, if there is any. -/
theorem best_of_foldl (pos : Position) (nodes : List SymbolNode) :
    ((nodes.foldl (consider pos) ⟨none, none⟩).best = none →
      ∀ other ∈ nodes, ¬Holds pos other) ∧
    ∀ best, (nodes.foldl (consider pos) ⟨none, none⟩).best = some best →
      ∃ before after, nodes = before ++ best :: after ∧ Holds pos best ∧
        (∀ other ∈ before, Holds pos other → rangeSize best.range < rangeSize other.range) ∧
        ∀ other ∈ after, Holds pos other → rangeSize best.range ≤ rangeSize other.range := by
  induction nodes using List.reverseRecOn with
  | nil => exact ⟨fun _ _ hin => absurd hin List.not_mem_nil, fun best hbest => by cases hbest⟩
  | append_singleton nodes node ih =>
    obtain ⟨hnone, hsome⟩ := ih
    rw [List.foldl_append, List.foldl_cons, List.foldl_nil]
    generalize nodes.foldl (consider pos) ⟨none, none⟩ = found at hnone hsome ⊢
    by_cases hholds : Holds pos node
    · -- the node is taken unless one that is as tight came before
      have hconsider : consider pos found node = match found.best with
          | none => { found with best := some node }
          | some best =>
            if rangeSize node.range < rangeSize best.range then { found with best := some node }
            else found := by
        unfold consider
        rw [if_neg hholds.1, if_pos hholds.2]
      rw [hconsider]
      cases hfound : found.best with
      | none =>
        refine ⟨fun h => (by cases h), fun best hbest => ?_⟩
        obtain rfl : node = best := Option.some.inj hbest
        exact ⟨nodes, [], rfl, hholds, fun other hin h => absurd h (hnone hfound other hin),
          fun other hin => absurd hin List.not_mem_nil⟩
      | some first =>
        obtain ⟨before, after, rfl, hfirst, hbefore, hafter⟩ := hsome first hfound
        dsimp only
        by_cases hlt : rangeSize node.range < rangeSize first.range
        · rw [if_pos hlt]
          refine ⟨fun h => (by cases h), fun best hbest => ?_⟩
          obtain rfl : node = best := Option.some.inj hbest
          refine ⟨before ++ first :: after, [], rfl, hholds, fun other hin hother => ?_,
            fun other hin => absurd hin List.not_mem_nil⟩
          rcases List.mem_append.mp hin with hold | hlater
          · exact hlt.trans (hbefore other hold hother)
          · rcases List.mem_cons.mp hlater with rfl | hlater
            · exact hlt
            · exact hlt.trans_le (hafter other hlater hother)
        · rw [if_neg hlt, hfound]
          refine ⟨fun h => (by cases h), fun best hbest => ?_⟩
          obtain rfl : first = best := Option.some.inj hbest
          refine ⟨before, after ++ [node], by simp, hfirst, hbefore, fun other hin hother => ?_⟩
          rcases List.mem_append.mp hin with hold | hnew
          · exact hafter other hold hother
          · rw [List.mem_singleton.mp hnew]
            exact not_lt.mp hlt
    · have hbest : (consider pos found node).best = found.best := by
        rcases best_consider pos found node with ⟨-, hsame⟩ | ⟨hnew, -⟩
        · exact hsame
        · exact absurd hnew hholds
      rw [hbest]
      refine ⟨fun h other hin => ?_, fun best hfound => ?_⟩
      · rcases List.mem_append.mp hin with hold | hnew
        · exact hnone h other hold
        · rw [List.mem_singleton.mp hnew]
          exact hholds
      · obtain ⟨before, after, rfl, hfirst, hbefore, hafter⟩ := hsome best hfound
        refine ⟨before, after ++ [node], by simp, hfirst, hbefore, fun other hin hother => ?_⟩
        rcases List.mem_append.mp hin with hold | hnew
        · exact hafter other hold hother
        · rw [List.mem_singleton.mp hnew] at hother
          exact absurd hother hholds

/-- The search keeps the last module. -/
theorem module_of_foldl (pos : Position) (nodes : List SymbolNode) {node : SymbolNode}
    (h : (nodes.foldl (consider pos) ⟨none, none⟩).moduleNode = some node) :
    ∃ before after, nodes = before ++ node :: after ∧ node.kind = .module_ ∧
      ∀ other ∈ after, other.kind ≠ .module_ := by
  induction nodes using List.reverseRecOn with
  | nil => cases h
  | append_singleton nodes last ih =>
    rw [List.foldl_append, List.foldl_cons, List.foldl_nil] at h
    by_cases hmodule : last.kind = .module_
    · unfold consider at h
      rw [if_pos hmodule] at h
      obtain rfl : last = node := Option.some.inj h
      exact ⟨nodes, [], rfl, hmodule, fun other hin => absurd hin List.not_mem_nil⟩
    · have hkeep : (consider pos (nodes.foldl (consider pos) ⟨none, none⟩) last).moduleNode =
          (nodes.foldl (consider pos) ⟨none, none⟩).moduleNode :=
        moduleNode_foldl fun other hin => List.mem_singleton.mp hin ▸ hmodule
      obtain ⟨before, after, rfl, hkind, hafter⟩ := ih (hkeep.symm.trans h)
      refine ⟨before, after ++ [last], by simp, hkind, fun other hin => ?_⟩
      rcases List.mem_append.mp hin with hold | hnew
      · exact hafter other hold
      · rw [List.mem_singleton.mp hnew]
        exact hmodule

/-- What the search finds is the id of a node that encloses the place. -/
theorem encloses_of_enclosingEntityId {snap : Snapshot} {absPath id : String}
    (h : enclosingEntityId snap absPath pos = some id) :
    ∃ node, Encloses (fileNodes snap absPath) pos node ∧ node.durableId = id := by
  unfold enclosingEntityId at h
  dsimp only at h
  obtain ⟨node, hnode, hid⟩ := Option.map_eq_some_iff.mp h
  refine ⟨node, ?_, hid⟩
  obtain ⟨hnone, hsome⟩ := best_of_foldl pos (fileNodes snap absPath)
  cases hbest : ((fileNodes snap absPath).foldl (consider pos) ⟨none, none⟩).best with
  | some best =>
    rw [hbest] at hnode
    obtain rfl : best = node := Option.some.inj hnode
    obtain ⟨before, after, hnodes, hholds, hbefore, hafter⟩ := hsome best hbest
    exact .entity before after hnodes hholds hbefore hafter
  | none =>
    rw [hbest] at hnode
    obtain ⟨before, after, hnodes, hmodule, hafter⟩ := module_of_foldl pos _ hnode
    exact .module_ before after hnodes hmodule hafter (hnone hbest)

end Enclosing

/-! ## What a refinement keeps -/

/-- One entity depends on another one through the graph of a snapshot. -/
def DependsOn (snap : Snapshot) (x y : String) : Prop :=
  Relation.TransGen (Uses snap.graph DEPENDENCY_EDGE_KINDS) x y

/-- An entity uses a symbol: it encloses a reference to it. -/
def UsesMember (snap : Snapshot) (user id : String) : Prop :=
  ∃ node refs ref owner, snap.graph.symbol id = some node ∧ referencesTo snap node = .ok refs ∧
    ref ∈ refs ∧ Encloses (fileNodes snap ref.path) ref.range.start owner ∧ owner.durableId = user

/-- The references to a symbol cannot be found. -/
def Unresolved (snap : Snapshot) (id : String) : Prop :=
  ∃ node message, snap.graph.symbol id = some node ∧ referencesTo snap node = .error message

/-- The class of a member. -/
def Owns (rx : Rustworkx) (snap : Snapshot) (owner id : String) : Prop :=
  ∃ parent, snap.graph.parent rx id = some parent ∧ parent.durableId = owner

/-- Why an id that has not changed is kept. -/
inductive Stays (rx : Rustworkx) (snap : Snapshot) (changed : Finset String) (x : String) : Prop
  /-- It depends on a changed id that is no member and owns no changed one. -/
  | other (id : String) (hid : id ∈ changed) (hplain : isMember rx snap id = false)
      (hfree : ∀ m ∈ changed, isMember rx snap m = true → ¬Owns rx snap id m)
      (hdepends : DependsOn snap x id)
  /-- It is or depends on a user of a changed member. -/
  | user (m user : String) (hm : m ∈ changed) (hmember : isMember rx snap m = true)
      (huses : UsesMember snap user m) (hwhy : x = user ∨ DependsOn snap x user)
  /-- It depends on the class of a changed member whose users are not known. -/
  | unresolved (m owner : String) (hm : m ∈ changed) (hmember : isMember rx snap m = true)
      (hunresolved : Unresolved snap m) (howns : Owns rx snap owner m) (hne : x ≠ owner)
      (hdepends : DependsOn snap x owner)

/-- A refinement of the affected ids of a commit. -/
structure Narrows (rx : Rustworkx) (snap : Snapshot) (changed affected narrowed : Finset String) :
    Prop where
  /-- Nothing is added to the affected and the changed ids. -/
  within : narrowed ⊆ affected ∪ changed
  /-- The changed ids are kept. -/
  keeps : changed ⊆ narrowed
  /-- So are the dependents of a changed id, unless it is a member or the owner
  of a changed one. -/
  others : ∀ id ∈ changed, isMember rx snap id = false →
    (∀ m ∈ changed, isMember rx snap m = true → ¬Owns rx snap id m) →
    ∀ x ∈ affected, DependsOn snap x id → x ∈ narrowed
  /-- So are the users of a changed member and their dependents. -/
  users : ∀ m ∈ changed, isMember rx snap m = true → ∀ user, UsesMember snap user m →
    ∀ x ∈ affected, x = user ∨ DependsOn snap x user → x ∈ narrowed
  /-- When its users are not known, so are the other dependents of its class. -/
  unresolved : ∀ m ∈ changed, isMember rx snap m = true → Unresolved snap m →
    ∀ owner, Owns rx snap owner m →
    ∀ x ∈ affected, x ≠ owner → DependsOn snap x owner → x ∈ narrowed
  /-- Nothing else is kept: a class that changed with a member of it is narrowed
  by the users of its members only. -/
  only : ∀ x ∈ narrowed, x ∈ changed ∨ x ∈ affected ∧ Stays rx snap changed x

/-- The graph of a snapshot is in order. -/
theorem indexed_graph (snap : Snapshot) : Indexed snap.graph := by
  have hi := Indexed.applyCodeDelta CodeGraph.new snap.fullCodeDelta
  exact ⟨hi.index, hi.ends⟩

theorem cached_graph (snap : Snapshot) : Cached snap.graph := cached_of_empty rfl

/-- A query keeps the edges. -/
theorem uses_transitiveDependents (rx : Rustworkx) (g : CodeGraph) (root : String)
    (kinds : Option (Finset EdgeKind)) :
    Uses (g.transitiveDependents rx root kinds).2 = Uses g := by
  have hgraph := @TransitiveQueries.walkFrom_graph rx g rx.ancestors root kinds
  unfold CodeGraph.transitiveDependents
  rw [hgraph]
  unfold CodeGraph.semanticSubgraph
  split <;> rfl

section Narrowing

variable {rx : Rustworkx} (hrx : rx.Documented)

include hrx

/-- The dependents of all roots are kept. -/
theorem mem_foldl_expand (roots : List String) (kept : Finset String) {g : CodeGraph}
    (hi : Indexed g) (hc : Cached g) (x : String) :
    x ∈ (roots.foldl (expand rx) (kept, g)).1 ↔ x ∈ kept ∨ ∃ root ∈ roots, x ≠ root ∧
      Relation.TransGen (Uses g DEPENDENCY_EDGE_KINDS) x root := by
  induction roots generalizing kept g with
  | nil => simp
  | cons root roots ih =>
    have hkeeps := operation_keeps hrx (.transitiveDependents root none) hi hc
    have huses := uses_transitiveDependents rx g root none
    have hfound : x ∈ (g.transitiveDependents rx root none).1 ↔
        x ≠ root ∧ Relation.TransGen (Uses g DEPENDENCY_EDGE_KINDS) x root :=
      mem_transitiveDependents hrx hi hc
    have hrest := ih (kept ∪ (g.transitiveDependents rx root none).1) hkeeps.1 hkeeps.2
    unfold Operation.run at hrest
    dsimp only at hrest
    rw [huses, Finset.mem_union, hfound, or_assoc] at hrest
    rw [List.foldl_cons, List.exists_mem_cons_iff]
    exact hrest

/-- An affected id is kept by itself or as a dependent of a root. -/
theorem mem_narrowed {iter : HashOrder String} {snap : Snapshot} {changedIds affectedIds : List String}
    {narrowed : Finset String}
    (h : computeNarrowed rx iter (some snap) changedIds affectedIds = some narrowed) (x : String) :
    x ∈ narrowed ↔ x ∈ changedIds.toFinset ∨ x ∈ affectedIds.toFinset ∧
      (x ∈ firstKept rx snap changedIds.toFinset ∨
        ∃ root ∈ expansionRoots rx snap changedIds.toFinset, x ≠ root ∧ DependsOn snap x root) := by
  have hnarrowed := Option.some.inj h
  dsimp only at hnarrowed
  rw [← hnarrowed, Finset.mem_union, Finset.mem_inter,
    mem_foldl_expand hrx _ _ (indexed_graph snap) (cached_graph snap), or_comm, and_comm]
  simp only [HashOrder.mem_order]
  rfl

omit hrx in
theorem mem_membersChanged {snap : Snapshot} {changed : Finset String} {id : String} :
    id ∈ membersChanged rx snap changed ↔ id ∈ changed ∧ isMember rx snap id = true := by
  unfold membersChanged
  rw [Finset.mem_filter]

omit hrx in
/-- A changed id that is no member and owns no changed one is a root. -/
theorem mem_expansionRoots_of_other {snap : Snapshot} {changed : Finset String} {id : String}
    (hid : id ∈ changed) (hplain : isMember rx snap id = false)
    (hfree : ∀ m ∈ changed, isMember rx snap m = true → ¬Owns rx snap id m) :
    id ∈ expansionRoots rx snap changed := by
  have hout : id ∉ membersChanged rx snap changed := by
    rw [mem_membersChanged, hplain]
    simp
  have hnone : id ∉ subsumptionClasses rx snap changed (membersChanged rx snap changed) := by
    unfold subsumptionClasses
    rw [Finset.mem_biUnion]
    intro howner
    obtain ⟨m, hm, hsub⟩ := howner
    obtain ⟨hin, hmember⟩ := mem_membersChanged.mp hm
    rw [Finset.mem_filter, Option.mem_toFinset, Option.mem_def, Option.map_eq_some_iff] at hsub
    exact hfree m hin hmember hsub.1
  have hleft : id ∈ changed \ subsumptionClasses rx snap changed (membersChanged rx snap changed) :=
    Finset.mem_sdiff.mpr ⟨hid, hnone⟩
  exact Finset.mem_union_right _ (Finset.mem_sdiff.mpr ⟨hleft, hout⟩)

omit hrx in
/-- The users of a changed member are kept and are roots. -/
theorem mem_of_usesMember {snap : Snapshot} {changed : Finset String} {m user : String}
    (hm : m ∈ membersChanged rx snap changed) (huses : UsesMember snap user m) :
    user ∈ firstKept rx snap changed ∧ user ∈ expansionRoots rx snap changed := by
  obtain ⟨node, refs, ref, found, hsymbol, hrefs, href, hencloses, hname⟩ := huses
  have howner : user ∈ ownersOf snap refs := by
    unfold ownersOf
    rw [List.mem_toFinset, List.mem_filterMap]
    refine ⟨ref, href, ?_⟩
    rw [enclosingEntityId_of_encloses hencloses, hname]
  have hroots : memberRoots rx snap m = (ownersOf snap refs, ownersOf snap refs) := by
    unfold memberRoots
    rw [hsymbol]
    dsimp only
    rw [hrefs]
  constructor
  · refine Finset.mem_union_right _ (Finset.mem_biUnion.mpr ⟨m, hm, ?_⟩)
    rw [hroots]
    exact howner
  · refine Finset.mem_union_left _ (Finset.mem_biUnion.mpr ⟨m, hm, ?_⟩)
    rw [hroots]
    exact howner

omit hrx in
/-- The class of a changed member whose users are not known is a root. -/
theorem mem_expansionRoots_of_unresolved {snap : Snapshot} {changed : Finset String}
    {m owner : String} (hm : m ∈ membersChanged rx snap changed) (hunresolved : Unresolved snap m)
    (howns : Owns rx snap owner m) : owner ∈ expansionRoots rx snap changed := by
  obtain ⟨node, message, hsymbol, hrefs⟩ := hunresolved
  obtain ⟨parent, hparent, hname⟩ := howns
  refine Finset.mem_union_left _ (Finset.mem_biUnion.mpr ⟨m, hm, ?_⟩)
  unfold memberRoots
  rw [hsymbol]
  dsimp only
  rw [hrefs, hparent]
  exact Option.mem_toFinset.mpr (congrArg some hname)

omit hrx in
/-- What is found for a changed member: its users, or its class when they are not
known. -/
theorem memberRoots_cases {snap : Snapshot} {m root : String}
    (h : root ∈ (memberRoots rx snap m).1 ∨ root ∈ (memberRoots rx snap m).2) :
    UsesMember snap root m ∨ Unresolved snap m ∧ Owns rx snap root m ∧
      root ∉ (memberRoots rx snap m).1 := by
  cases hsymbol : snap.graph.symbol m with
  | none =>
    have hroots : memberRoots rx snap m = (∅, ∅) := by
      unfold memberRoots
      rw [hsymbol]
    rw [hroots] at h
    simp at h
  | some node =>
    cases hrefs : referencesTo snap node with
    | error message =>
      have hroots : memberRoots rx snap m =
          (∅, ((snap.graph.parent rx m).map SymbolNode.durableId).toFinset) := by
        unfold memberRoots
        rw [hsymbol]
        dsimp only
        rw [hrefs]
      rw [hroots] at h ⊢
      have howner := h.resolve_left (Finset.notMem_empty _)
      rw [Option.mem_toFinset, Option.mem_def, Option.map_eq_some_iff] at howner
      exact .inr ⟨⟨node, message, hsymbol, hrefs⟩, howner, Finset.notMem_empty _⟩
    | ok refs =>
      have hroots : memberRoots rx snap m = (ownersOf snap refs, ownersOf snap refs) := by
        unfold memberRoots
        rw [hsymbol]
        dsimp only
        rw [hrefs]
      rw [hroots, or_self] at h
      unfold ownersOf at h
      rw [List.mem_toFinset, List.mem_filterMap] at h
      obtain ⟨ref, href, hfound⟩ := h
      obtain ⟨owner, hencloses, hname⟩ := encloses_of_enclosingEntityId hfound
      exact .inl ⟨node, refs, ref, owner, hsymbol, hrefs, href, hencloses, hname⟩

omit hrx in
/-- A changed id among the roots that no member put there is no member, and owns
no changed one. -/
theorem plain_of_mem_sdiff {snap : Snapshot} {changed : Finset String} {id : String}
    (h : id ∈ (changed \ subsumptionClasses rx snap changed (membersChanged rx snap changed)) \
      membersChanged rx snap changed) :
    id ∈ changed ∧ isMember rx snap id = false ∧
      ∀ m ∈ changed, isMember rx snap m = true → ¬Owns rx snap id m := by
  obtain ⟨hleft, hout⟩ := Finset.mem_sdiff.mp h
  obtain ⟨hid, hnone⟩ := Finset.mem_sdiff.mp hleft
  refine ⟨hid, ?_, fun m hm hmember howns => hnone ?_⟩
  · rw [mem_membersChanged] at hout
    exact Bool.eq_false_iff.mpr fun hmember => hout ⟨hid, hmember⟩
  · refine Finset.mem_biUnion.mpr ⟨m, mem_membersChanged.mpr ⟨hm, hmember⟩, ?_⟩
    rw [Finset.mem_filter, Option.mem_toFinset, Option.mem_def, Option.map_eq_some_iff]
    exact ⟨howns, hid⟩

omit hrx in
/-- What is kept has a reason. -/
theorem stays_of_kept {snap : Snapshot} {changed : Finset String} {x : String}
    (h : x ∈ firstKept rx snap changed ∨
      ∃ root ∈ expansionRoots rx snap changed, x ≠ root ∧ DependsOn snap x root) :
    x ∈ changed ∨ Stays rx snap changed x := by
  rcases h with hfirst | ⟨root, hroot, hne, hdepends⟩
  · rcases Finset.mem_union.mp hfirst with hchanged | huser
    · exact .inl hchanged
    · obtain ⟨m, hm, hin⟩ := Finset.mem_biUnion.mp huser
      obtain ⟨hm, hmember⟩ := mem_membersChanged.mp hm
      rcases memberRoots_cases (.inl hin) with huses | ⟨-, -, hout⟩
      · exact .inr (.user m x hm hmember huses (.inl rfl))
      · exact absurd hin hout
  · rcases Finset.mem_union.mp hroot with hin | hplain
    · obtain ⟨m, hm, hin⟩ := Finset.mem_biUnion.mp hin
      obtain ⟨hm, hmember⟩ := mem_membersChanged.mp hm
      rcases memberRoots_cases (.inr hin) with huses | ⟨hunresolved, howns, -⟩
      · exact .inr (.user m root hm hmember huses (.inr hdepends))
      · exact .inr (.unresolved m root hm hmember hunresolved howns hne hdepends)
    · obtain ⟨hid, hmember, hfree⟩ := plain_of_mem_sdiff hplain
      exact .inr (.other root hid hmember hfree hdepends)

/-- What is computed for a pinned commit is a refinement of it. -/
theorem narrows_computeNarrowed {iter : HashOrder String} {snap : Snapshot}
    {changedIds affectedIds : List String} {narrowed : Finset String}
    (h : computeNarrowed rx iter (some snap) changedIds affectedIds = some narrowed) :
    Narrows rx snap changedIds.toFinset affectedIds.toFinset narrowed := by
  have hmem := mem_narrowed hrx h
  constructor
  · intro x hx
    rcases (hmem x).mp hx with hchanged | ⟨haffected, -⟩
    · exact Finset.mem_union_right _ hchanged
    · exact Finset.mem_union_left _ haffected
  · intro x hx
    exact (hmem x).mpr (.inl hx)
  · intro id hid hplain hfree x hx hdepends
    have hroot := mem_expansionRoots_of_other hid hplain hfree
    by_cases hself : x = id
    · rw [hself]
      exact (hmem id).mpr (.inl hid)
    · exact (hmem x).mpr (.inr ⟨hx, .inr ⟨id, hroot, hself, hdepends⟩⟩)
  · intro m hm hmember user huses x hx hwhy
    obtain ⟨hkept, hroot⟩ := mem_of_usesMember (mem_membersChanged.mpr ⟨hm, hmember⟩) huses
    by_cases hself : x = user
    · rw [← hself] at hkept
      exact (hmem x).mpr (.inr ⟨hx, .inl hkept⟩)
    · exact (hmem x).mpr (.inr ⟨hx, .inr ⟨user, hroot, hself, hwhy.resolve_left hself⟩⟩)
  · intro m hm hmember hunresolved owner howns x hx hne hdepends
    have hroot := mem_expansionRoots_of_unresolved (mem_membersChanged.mpr ⟨hm, hmember⟩)
      hunresolved howns
    exact (hmem x).mpr (.inr ⟨hx, .inr ⟨owner, hroot, hne, hdepends⟩⟩)
  · intro x hx
    rcases (hmem x).mp hx with hchanged | ⟨haffected, hkept⟩
    · exact .inl hchanged
    · exact (stays_of_kept hkept).imp_right fun hstays => ⟨haffected, hstays⟩

end Narrowing

/-! ## The refinements of a run -/

section Runs

variable {rx : Rustworkx} (hrx : rx.Documented) (iter : HashOrder String) (pinned : ℕ → Snapshot)

/-- A refinement of one of some commits. -/
def RefinesOne (rx : Rustworkx) (pinned : ℕ → Snapshot) (commits : CommitDelta → Prop)
    (refinement : AffectedRefinement) : Prop :=
  ∃ delta, commits delta ∧ refinement.revision = delta.revision ∧ refinement.added = ∅ ∧
    Narrows rx (pinned delta.revision) delta.identity.changedIds.toFinset
      delta.identity.affectedIds.toFinset refinement.narrowed

/-- Every commit that waits was made, and every refinement is one of a commit. -/
structure Working (rx : Rustworkx) (pinned : ℕ → Snapshot) (commits : CommitDelta → Prop)
    (r : Refiner) : Prop where
  /-- Commits that wait were made. -/
  queued : ∀ delta, some delta ∈ r.queue → commits delta
  /-- Refinements belong to commits. -/
  published : ∀ refinement ∈ r.published, RefinesOne rx pinned commits refinement

include hrx

/-- The computation for a commit publishes at most a refinement of it. -/
theorem Working.computeAndPublish {commits : CommitDelta → Prop} {r : Refiner}
    (h : Working rx pinned commits r) {delta : CommitDelta} (hdelta : commits delta)
    (subscribed retained : Bool) :
    Working rx pinned commits
      (PrecisionRefiner.computeAndPublish rx iter pinned r delta subscribed retained) := by
  unfold PrecisionRefiner.computeAndPublish
  by_cases hsubscribed : (!subscribed) = true
  · rw [if_pos hsubscribed]
    exact h
  rw [if_neg hsubscribed]
  by_cases hnone : delta.identity.affectedIds = []
  · rw [if_pos hnone]
    exact h
  rw [if_neg hnone]
  cases retained with
  | false => exact h
  | true =>
    dsimp only
    rw [if_pos rfl]
    split
    · exact h
    · rename_i narrowed hnarrowed
      refine ⟨h.queued, fun refinement hin => ?_⟩
      rcases List.mem_append.mp hin with hold | hnew
      · exact h.published refinement hold
      · rw [List.mem_singleton.mp hnew]
        exact ⟨delta, hdelta, rfl, rfl, narrows_computeNarrowed hrx hnarrowed⟩

/-- Every step publishes at most a refinement of a commit. -/
theorem Working.step {commits : CommitDelta → Prop} {r : Refiner}
    (h : Working rx pinned commits r) (precision : PrecisionMode) (mode : RefinementMode)
    {event : Event} (hevent : ∀ delta subscribed retained,
      event = .commit delta subscribed retained → commits delta) :
    Working rx pinned commits (PrecisionRefiner.step rx iter pinned precision mode r event) := by
  cases event with
  | commit delta subscribed retained =>
    have hdelta := hevent delta subscribed retained rfl
    unfold PrecisionRefiner.step maybeRefine
    dsimp only
    by_cases hprecision : precision ≠ .method
    · rw [if_pos hprecision]
      exact h
    rw [if_neg hprecision]
    by_cases hsubscribed : (!subscribed) = true
    · rw [if_pos hsubscribed]
      exact h
    rw [if_neg hsubscribed]
    cases mode with
    | sync => exact h.computeAndPublish hrx iter pinned hdelta subscribed retained
    | async =>
      refine ⟨fun waiting hin => ?_, h.published⟩
      rcases List.mem_append.mp hin with hold | hnew
      · exact h.queued waiting hold
      · rw [Option.some.inj (List.mem_singleton.mp hnew)]
        exact hdelta
  | work subscribed retained =>
    unfold PrecisionRefiner.step
    cases hqueue : r.queue with
    | nil => exact h
    | cons item queue =>
      have hrest : Working rx pinned commits { r with queue := queue } := by
        refine ⟨fun waiting hin => h.queued waiting ?_, h.published⟩
        rw [hqueue]
        exact List.mem_cons_of_mem _ hin
      cases item with
      | none => exact hrest
      | some delta =>
        have hdelta : commits delta := h.queued delta (hqueue ▸ List.mem_cons_self)
        exact hrest.computeAndPublish hrx iter pinned hdelta subscribed retained
  | stop =>
    unfold PrecisionRefiner.step
    dsimp only
    by_cases hstarted : (!r.started) = true
    · rw [if_pos hstarted]
      exact h
    rw [if_neg hstarted]
    refine ⟨fun waiting hin => ?_, h.published⟩
    rcases List.mem_append.mp hin with hold | hnew
    · exact h.queued waiting hold
    · cases List.mem_singleton.mp hnew

/-- In every run of commits and work, each published refinement is that of a
commit. It is contained in the affected and changed ids, has the changed ids,
and of the affected ids those that depend on a changed one that is no member and
owns no changed member, that are or depend on a user of a changed member, or
that depend on the class of one whose users are not known, and no others. -/
theorem published_narrows (precision : PrecisionMode) (mode : RefinementMode)
    (events : List Event) :
    ∀ refinement ∈ (run (step rx iter pinned precision mode) Refiner.new events).published,
      ∃ delta subscribed retained, Event.commit delta subscribed retained ∈ events ∧
        refinement.revision = delta.revision ∧ refinement.added = ∅ ∧
        Narrows rx (pinned delta.revision) delta.identity.changedIds.toFinset
          delta.identity.affectedIds.toFinset refinement.narrowed := by
  let commits (delta : CommitDelta) : Prop :=
    ∃ subscribed retained, Event.commit delta subscribed retained ∈ events
  have hstep : ∀ r event, Working rx pinned commits r → event ∈ events →
      Working rx pinned commits (step rx iter pinned precision mode r event) := by
    intro r event h hin
    refine h.step hrx iter pinned precision mode fun delta subscribed retained heq => ?_
    exact ⟨subscribed, retained, heq ▸ hin⟩
  have hnew : Working rx pinned commits Refiner.new :=
    ⟨fun delta hin => absurd hin List.not_mem_nil, fun _ hin => absurd hin List.not_mem_nil⟩
  have hfinal := invariant_run hstep hnew (along_of_forall fun event hin => hin)
  intro refinement hin
  obtain ⟨delta, ⟨subscribed, retained, hcommit⟩, hrest⟩ := hfinal.published refinement hin
  exact ⟨delta, subscribed, retained, hcommit, hrest⟩

end Runs

/-! ## A class with a factory and a user of its method -/

/-- A node of the sample. -/
def sampleNode (durableId : String) (kind : CodeLayer.SymbolKindDto) (first last : ℕ) : SymbolNode :=
  ⟨durableId, durableId, durableId, kind, "widget.py", ⟨⟨first, 1⟩, ⟨last, 20⟩⟩, none, none, ∅, false,
    none⟩

/-- An edge of the sample. -/
def sampleEdge (source target : String) (kind : EdgeKind) : String × String × EdgeData :=
  (source, target, ⟨kind, none, none, none⟩)

/-- The class has a method, the factory returns the class, and the consumer
calls the factory and the method. -/
def widgetDelta : CodeDelta where
  revision := some 2
  nodesUpserted := [sampleNode "Widget" .class_ 1 3, sampleNode "draw" .method 2 3,
    sampleNode "make_widget" .function 5 6, sampleNode "consume" .function 8 10]
  edgesAdded := [sampleEdge "Widget" "draw" .contains, sampleEdge "make_widget" "Widget" .returns,
    sampleEdge "consume" "make_widget" .references]

/-- The pinned project. The method is referred to where it is defined and in
the consumer. -/
def widgetSnapshot : Snapshot where
  root := "/p"
  revision := 2
  fullCodeDelta := widgetDelta
  findReferences _ line _ :=
    if line = 2 then
      .ok [⟨"/p/widget.py", ⟨⟨2, 9⟩, ⟨2, 13⟩⟩⟩, ⟨"/p/widget.py", ⟨⟨10, 14⟩, ⟨10, 18⟩⟩⟩]
    else .ok []

/-- The report of a commit about ids. -/
def reportOf (changed deleted affected : List String) : CommitDelta where
  revision := 2
  identity := { IdentityDelta.default with
    changedIds := changed
    deletedIds := deleted
    affectedIds := affected }
  authoredIds := []
  touchedFiles := ["widget.py"]
  created := []
  changed := ["widget.py"]
  deleted := []
  rescan := false
  projectChanged := false
  customStdlibChanged := false

/-- The class and its method changed. -/
def widgetCommit : CommitDelta :=
  reportOf ["Widget", "draw"] [] ["Widget", "draw", "make_widget", "consume"]

/-- The commit is handed to the worker, which takes it later. -/
def widgetEvents : List Event := [.commit widgetCommit true true, .work true true]

/-- The refiner after the commit. -/
def widgetRefiner : Refiner :=
  run (step firstEdges HashOrder.increasing (fun _ => widgetSnapshot) .method .async) Refiner.new
    widgetEvents

/-- The refinement of the commit has the changed ids. -/
theorem widget_refinement_keeps_changed :
    widgetRefiner.published.map AffectedRefinement.revision = [2] ∧
    ∀ refinement ∈ widgetRefiner.published, {"Widget", "draw"} ⊆ refinement.narrowed := by
  refine ⟨by decide +kernel, fun refinement hin => ?_⟩
  obtain ⟨delta, subscribed, retained, hcommit, -, -, hnarrows⟩ :=
    published_narrows firstEdges_documented HashOrder.increasing (fun _ => widgetSnapshot) .method
      .async widgetEvents refinement hin
  have hdelta : delta = widgetCommit := by
    rcases List.mem_cons.mp hcommit with heq | hrest
    · exact (Event.commit.inj heq).1
    · cases List.mem_singleton.mp hrest
  rw [hdelta] at hnarrows
  exact hnarrows.keeps

/-! ## Dependents that are dropped -/

/-- A function and its caller. -/
def helperDelta : CodeDelta where
  revision := some 1
  nodesUpserted := [sampleNode "helper" .function 1 2, sampleNode "caller" .function 4 5]
  edgesAdded := [sampleEdge "caller" "helper" .references]

/-- The function is deleted. -/
def callerDelta : CodeDelta where
  revision := some 2
  nodesUpserted := [sampleNode "caller" .function 1 2]
  edgesAdded := []

/-- The pinned project without the function. -/
def callerSnapshot : Snapshot := ⟨"/p", 2, callerDelta, fun _ _ _ => .ok []⟩

/-- The report of the deletion. -/
def deletionCommit : CommitDelta := reportOf [] ["helper"] ["caller", "helper"]

/-- The refiner after the deletion. -/
def deletionRefiner : Refiner :=
  run (step firstEdges HashOrder.increasing (fun _ => callerSnapshot) .method .sync) Refiner.new
    [.commit deletionCommit true true]

/-- An affected caller that depended on a deleted function is dropped, and so
is an affected factory that depends on a changed class, no member itself, when
a method of the class changed as well. -/
theorem dependents_dropped :
    ("helper" ∈ deletionCommit.identity.deletedIds ∧
      "caller" ∈ deletionCommit.identity.affectedIds ∧
      Relation.TransGen
        (Uses (CodeGraph.new.applyCodeDelta helperDelta) DEPENDENCY_EDGE_KINDS) "caller" "helper" ∧
      deletionRefiner.published.map AffectedRefinement.narrowed = [∅]) ∧
    ("Widget" ∈ widgetCommit.identity.changedIds ∧ isMember firstEdges widgetSnapshot "Widget" = false ∧
      "make_widget" ∈ widgetCommit.identity.affectedIds ∧
      DependsOn widgetSnapshot "make_widget" "Widget" ∧
      widgetRefiner.published.map AffectedRefinement.narrowed = [{"Widget", "draw", "consume"}] ∧
      "make_widget" ∉ ({"Widget", "draw", "consume"} : Finset String)) := by
  have hcaller : Relation.TransGen
      (Uses (CodeGraph.new.applyCodeDelta helperDelta) DEPENDENCY_EDGE_KINDS) "caller" "helper" := by
    have hin : "caller" ∈ ((CodeGraph.new.applyCodeDelta helperDelta).transitiveDependents
        firstEdges "helper" none).1 := by
      decide +kernel
    exact ((mem_transitiveDependents firstEdges_documented (Indexed.applyCodeDelta _ _)
      (cached_of_empty rfl)).mp hin).2
  have hfactory : DependsOn widgetSnapshot "make_widget" "Widget" := by
    have hin : "make_widget" ∈ (widgetSnapshot.graph.transitiveDependents
        firstEdges "Widget" none).1 := by
      decide +kernel
    exact ((mem_transitiveDependents firstEdges_documented (indexed_graph _)
      (cached_graph _)).mp hin).2
  refine ⟨⟨by decide, by decide, hcaller, by decide +kernel⟩,
    by decide, by decide +kernel, by decide, hfactory, by decide +kernel, by decide⟩

end Tyo3.PrecisionRefiner
