import Mathlib.Data.List.Count
import Mathlib.Data.List.Nodup
import Mathlib.Data.List.Sort
import Mathlib.Logic.Relation
import Mathlib.Order.WellFounded
import Mathlib.Data.Fintype.EquivFin
import Mathlib.Tactic.Common

/-!
# Orders of a dependency relation

A dependency relation is a list of pairs of a node and a node it depends on;
a pair may be repeated. A node is open while some dependency of it is not
listed, and the number of its open pairs drops by the waiting pairs when a
node is listed. An order is topological when every dependency stands before
its dependant. It exists only for a relation without cycles; without cycles
some open node waits for none of the open ones. Nothing here names a program.
-/

namespace Tyo3.DependencyOrders

variable {K : Type*}

/-- Every dependency stands before its dependant. -/
def Topological (pairs : List (K × K)) (order : List K) : Prop :=
  ∀ before node after, order = before ++ node :: after → ∀ dep, (node, dep) ∈ pairs → dep ∈ before

/-- The empty order is topological. -/
theorem Topological.nil (pairs : List (K × K)) : Topological pairs [] := by
  intro before node after horder
  exact absurd horder (by simp)

/-- A topological order grows by a node whose dependencies are listed. -/
theorem Topological.concat {pairs : List (K × K)} {order : List K} {listed : K}
    (htopo : Topological pairs order) (hdeps : ∀ dep, (listed, dep) ∈ pairs → dep ∈ order) :
    Topological pairs (order ++ [listed]) := by
  intro before node after horder dep hpair
  rcases List.eq_nil_or_concat after with hlast | ⟨init, last, hinit⟩
  · subst hlast
    obtain ⟨hbefore, hnode⟩ := List.append_inj' horder rfl
    have hsame : listed = node := by simpa using hnode
    rw [← hbefore]
    exact hdeps dep (hsame ▸ hpair)
  · rw [hinit, List.concat_eq_append, ← List.cons_append, ← List.append_assoc] at horder
    exact htopo before node init (List.append_inj' horder rfl).1 dep hpair

variable [DecidableEq K]

/-- The pairs of a node whose dependency is not listed yet. -/
def openCount (pairs : List (K × K)) (order : List K) (node : K) : ℕ :=
  pairs.countP fun pair => pair.1 = node ∧ pair.2 ∉ order

/-- The nodes that wait for a node, once for each pair. -/
def waiting (pairs : List (K × K)) (dep : K) : List K :=
  (pairs.filter fun pair => pair.2 = dep).map Prod.fst

/-- Listing a node closes the pairs that wait for it. -/
theorem openCount_concat (pairs : List (K × K)) {order : List K} {listed : K}
    (hnew : listed ∉ order) (node : K) :
    openCount pairs order node =
      openCount pairs (order ++ [listed]) node + (waiting pairs listed).count node := by
  induction pairs with
  | nil => rfl
  | cons pair pairs ih =>
    simp only [openCount, waiting, List.countP_cons, List.filter_cons, List.mem_append,
      List.mem_singleton] at ih ⊢
    by_cases hdep : pair.2 = listed
    · by_cases hnode : pair.1 = node
      · simp [hdep, hnode, hnew] at ih ⊢
        omega
      · simp [hdep, hnode] at ih ⊢
        omega
    · simp [hdep] at ih ⊢
      omega

/-- Before anything is listed all pairs of a node are open. -/
theorem openCount_nil (pairs : List (K × K)) (node : K) :
    openCount pairs [] node = (pairs.map Prod.fst).count node := by
  rw [openCount, List.count_eq_countP, List.countP_map]
  apply List.countP_congr
  intro pair _
  simp

/-- A node without open pairs has all its dependencies listed. -/
theorem mem_of_openCount_eq_zero {pairs : List (K × K)} {order : List K} {node dep : K}
    (hzero : openCount pairs order node = 0) (hpair : (node, dep) ∈ pairs) : dep ∈ order := by
  by_contra hopen
  exact List.countP_eq_zero.mp hzero (node, dep) hpair (by simp [hopen])

/-- In a topological order a dependency has a smaller place. -/
theorem Topological.idxOf_lt {pairs : List (K × K)} {order : List K} (htopo : Topological pairs order)
    {node dep : K} (hnode : node ∈ order) (hpair : (node, dep) ∈ pairs) :
    order.idxOf dep < order.idxOf node := by
  obtain ⟨before, after, horder, hfirst⟩ := List.eq_append_cons_of_mem hnode
  have hdep : dep ∈ before := htopo before node after horder dep hpair
  have hplace : order.idxOf node = before.length := by
    rw [horder, List.idxOf_append_of_notMem hfirst, List.idxOf_cons_self, Nat.add_zero]
  rw [hplace, horder, List.idxOf_append_of_mem hdep]
  exact List.idxOf_lt_length_of_mem hdep

/-- No node depends on itself, directly or not. -/
def Acyclic (pairs : List (K × K)) : Prop :=
  ∀ node, ¬ Relation.TransGen (fun node dep => (node, dep) ∈ pairs) node node

/-- A relation with a topological order of its nodes has no cycle. -/
theorem Topological.acyclic {pairs : List (K × K)} {order : List K}
    (htopo : Topological pairs order) (hall : ∀ pair ∈ pairs, pair.1 ∈ order) : Acyclic pairs := by
  have hfalls : ∀ node dep, Relation.TransGen (fun node dep => (node, dep) ∈ pairs) node dep →
      order.idxOf dep < order.idxOf node := by
    intro node dep hpath
    induction hpath with
    | single hpair => exact htopo.idxOf_lt (hall _ hpair) hpair
    | @tail middle last _ hpair ih =>
      have hlast := htopo.idxOf_lt (hall (middle, last) hpair) hpair
      exact hlast.trans ih
  intro node hcycle
  have hself := hfalls node node hcycle
  omega

omit [DecidableEq K] in
/-- Without cycles some member of a finite set depends on no member of it. -/
theorem Acyclic.exists_settled {pairs : List (K × K)} (hacyclic : Acyclic pairs) {open_ : Finset K}
    (hsome : open_.Nonempty) :
    ∃ node ∈ open_, ∀ dep, (node, dep) ∈ pairs → dep ∉ open_ := by
  let below : open_ → open_ → Prop := fun dep node =>
    Relation.TransGen (fun node dep => (node, dep) ∈ pairs) node.1 dep.1
  have htrans : IsTrans open_ below := ⟨fun _ _ _ hab hbc => hbc.trans hab⟩
  have hirrefl : Std.Irrefl below := ⟨fun node hcycle => hacyclic node.1 hcycle⟩
  have hwell : WellFounded below := Finite.wellFounded_of_trans_of_irrefl below
  obtain ⟨first, hfirst⟩ := hsome
  obtain ⟨node, -, hleast⟩ := hwell.has_min Set.univ ⟨⟨first, hfirst⟩, Set.mem_univ _⟩
  refine ⟨node.1, node.2, fun dep hpair hdep => ?_⟩
  exact hleast ⟨dep, hdep⟩ (Set.mem_univ _) (Relation.TransGen.single hpair)

end Tyo3.DependencyOrders
