import Mathlib.Data.Finset.Insert
import Mathlib.Data.Set.Lattice
import Mathlib.Logic.Relation
import Mathlib.Order.Bounds.Basic
import Mathlib.Tactic.Common

/-!
# Worklist loops

A loop that takes the first item of a queue, updates its state and appends
new items at the end. The loop runs on fuel; a potential that pays for every
appended item bounds the fuel it needs. A loop that visits each item and
appends its successors ends with the least closed set around its queue. A
loop that takes the item pushed last and marks items when they are pushed ends
with everything its start leads to. The lemmas name no program.
-/

namespace Tyo3.Worklists

variable {σ α : Type*}

/-- Run a worklist loop for at most the given number of items. -/
def run (step : σ → α → σ × List α) : ℕ → σ → List α → σ
  | 0, state, _ => state
  | _ + 1, state, [] => state
  | fuel + 1, state, item :: queue =>
    run step fuel (step state item).1 (queue ++ (step state item).2)

/-- What every step keeps holds after the loop. -/
theorem run_keeps {step : σ → α → σ × List α} {inv : σ → Prop}
    (hstep : ∀ state item, inv state → inv (step state item).1) (fuel : ℕ) {state : σ}
    {queue : List α} (h : inv state) : inv (run step fuel state queue) := by
  induction fuel generalizing state queue with
  | zero => exact h
  | succ fuel ih =>
    cases queue with
    | nil => exact h
    | cons item queue => exact ih (hstep state item h)

/-- A potential bounds the loop: a step on an item of the loop leaves enough
of it to pay for the items it appends. -/
structure Bounded (step : σ → α → σ × List α) (potential : σ → ℕ) : Prop where
  /-- New items are paid for. -/
  pays : ∀ state item, potential (step state item).1 + (step state item).2.length ≤ potential state

/-- More fuel than the potential and the queue need changes nothing. -/
theorem run_eq_of_le {step : σ → α → σ × List α} {potential : σ → ℕ}
    (hb : Bounded step potential) {fuel fuel' : ℕ} {state : σ} {queue : List α}
    (h : potential state + queue.length ≤ fuel) (h' : potential state + queue.length ≤ fuel') :
    run step fuel state queue = run step fuel' state queue := by
  induction fuel generalizing fuel' state queue with
  | zero =>
    have hempty : queue = [] := List.length_eq_zero_iff.mp (by omega)
    subst hempty
    cases fuel' with
    | zero => rfl
    | succ fuel' => rfl
  | succ fuel ih =>
    cases queue with
    | nil =>
      cases fuel' with
      | zero => rfl
      | succ fuel' => rfl
    | cons item queue =>
      have hpay := hb.pays state item
      simp only [List.length_cons] at h h'
      cases fuel' with
      | zero => omega
      | succ fuel' =>
        apply ih
        · simp only [List.length_append]
          omega
        · simp only [List.length_append]
          omega

/-- Two loops agree as long as their steps agree on the states and items an
invariant allows. -/
theorem run_congr {step step' : σ → α → σ × List α} (inv : σ → α → Prop)
    (hsame : ∀ state item, inv state item → step state item = step' state item)
    (hkeep : ∀ state item, inv state item → ∀ other, (inv state other ∨
      other ∈ (step state item).2) → inv (step state item).1 other)
    (fuel : ℕ) {state : σ} {queue : List α} (h : ∀ item ∈ queue, inv state item) :
    run step fuel state queue = run step' fuel state queue := by
  induction fuel generalizing state queue with
  | zero => rfl
  | succ fuel ih =>
    cases queue with
    | nil => rfl
    | cons item queue =>
      have hitem := h item List.mem_cons_self
      have hstep := hsame state item hitem
      have hnext : ∀ other ∈ queue ++ (step state item).2, inv (step state item).1 other := by
        intro other hother
        rcases List.mem_append.mp hother with hq | hn
        · exact hkeep state item hitem other (Or.inl (h other (List.mem_cons_of_mem _ hq)))
        · exact hkeep state item hitem other (Or.inr hn)
      have hrun := ih hnext
      simp only [run]
      rw [hrun, hstep]

/-! ## Loops that end -/

/-- The loop empties its queue and ends with a state. -/
inductive Ends (step : σ → α → σ × List α) : σ → List α → σ → Prop
  | done (state : σ) : Ends step state [] state
  | next {state : σ} {item : α} {queue : List α} {final : σ}
      (h : Ends step (step state item).1 (queue ++ (step state item).2) final) :
      Ends step state (item :: queue) final

/-- With fuel for the potential and the queue the loop ends where it runs to. -/
theorem ends_run {step : σ → α → σ × List α} {potential : σ → ℕ}
    (hb : Bounded step potential) {fuel : ℕ} {state : σ} {queue : List α}
    (h : potential state + queue.length ≤ fuel) :
    Ends step state queue (run step fuel state queue) := by
  induction fuel generalizing state queue with
  | zero =>
    have hempty : queue = [] := List.length_eq_zero_iff.mp (by omega)
    subst hempty
    exact .done state
  | succ fuel ih =>
    cases queue with
    | nil => exact .done state
    | cons item queue =>
      have hpay := hb.pays state item
      simp only [List.length_cons] at h
      refine .next (ih ?_)
      simp only [List.length_append]
      omega

/-! ## Loops that explore -/

/-- A set closed under successors. -/
def ClosedUnder (next : α → Set α) (S : Set α) : Prop := ∀ item ∈ S, next item ⊆ S

/-- More seeds have a larger closure. -/
theorem subset_of_isLeast {next : α → Set α} {seeds seeds' least least' : Set α}
    (h : IsLeast {S | seeds ⊆ S ∧ ClosedUnder next S} least)
    (h' : IsLeast {S | seeds' ⊆ S ∧ ClosedUnder next S} least') (hsub : seeds ⊆ seeds') :
    least ⊆ least' :=
  h.2 ⟨hsub.trans h'.1.1, h'.1.2⟩

/-- The least closed set around some seeds is what they lead to. -/
theorem mem_isLeast_iff {next : α → Set α} {seeds least : Set α}
    (h : IsLeast {S | seeds ⊆ S ∧ ClosedUnder next S} least) {x : α} :
    x ∈ least ↔ ∃ seed ∈ seeds, Relation.ReflTransGen (fun a b => b ∈ next a) seed x := by
  constructor
  · intro hx
    have hreached : least ⊆ {b | ∃ seed ∈ seeds,
        Relation.ReflTransGen (fun a b => b ∈ next a) seed b} := by
      refine h.2 ⟨fun seed hseed => ⟨seed, hseed, .refl⟩, ?_⟩
      rintro a ⟨seed, hseed, hpath⟩ b hb
      exact ⟨seed, hseed, hpath.tail hb⟩
    exact hreached hx
  · rintro ⟨seed, hseed, hpath⟩
    induction hpath with
    | refl => exact h.1.1 hseed
    | tail _ hnext ih => exact h.1.2 _ ih hnext

/-- The closure of all seeds joins the closures of the single seeds. -/
theorem eq_iUnion_of_isLeast {next : α → Set α} {seeds least : Set α} {single : α → Set α}
    (h : IsLeast {S | seeds ⊆ S ∧ ClosedUnder next S} least)
    (hsingle : ∀ seed, IsLeast {S | {seed} ⊆ S ∧ ClosedUnder next S} (single seed)) :
    least = ⋃ seed ∈ seeds, single seed := by
  apply Set.Subset.antisymm
  · refine h.2 ⟨?_, ?_⟩
    · intro seed hseed
      exact Set.mem_biUnion hseed ((hsingle seed).1.1 rfl)
    · intro item hitem other hother
      obtain ⟨seed, hseed, hin⟩ := Set.mem_iUnion₂.mp hitem
      exact Set.mem_biUnion hseed ((hsingle seed).1.2 item hin hother)
  · refine Set.iUnion₂_subset fun seed hseed => ?_
    exact subset_of_isLeast (hsingle seed) h (Set.singleton_subset_iff.mpr hseed)

section Exploration

variable [DecidableEq α]

/-- Every step visits its item; at the first visit the successors that are
not yet visited are appended. -/
structure Explores (step : Finset α → α → Finset α × List α) (next : α → Set α) : Prop where
  /-- The item is visited. -/
  visits : ∀ visited item, (step visited item).1 = insert item visited
  /-- Only successors are appended. -/
  only : ∀ visited item, ∀ other ∈ (step visited item).2, other ∈ next item
  /-- At the first visit no successor is missed. -/
  misses : ∀ visited item, item ∉ visited → ∀ other ∈ next item,
    other ∈ insert item visited ∨ other ∈ (step visited item).2

namespace Explores

variable {step : Finset α → α → Finset α × List α} {next : α → Set α}

/-- When successors of visited items are visited or queued, they still are
after a step. -/
theorem frontier (h : Explores step next) {visited : Finset α} {item : α} {queue : List α}
    (hinv : ∀ x ∈ visited, ∀ y ∈ next x, y ∈ visited ∨ y ∈ item :: queue) :
    ∀ x ∈ (step visited item).1, ∀ y ∈ next x,
      y ∈ (step visited item).1 ∨ y ∈ queue ++ (step visited item).2 := by
  intro x hx y hy
  have hvisited := h.visits visited item
  rw [hvisited] at hx ⊢
  have hkept : x ∈ visited → y ∈ insert item visited ∨ y ∈ queue ++ (step visited item).2 := by
    intro hin
    rcases hinv x hin y hy with hv | hq
    · exact .inl (Finset.mem_insert_of_mem hv)
    · rcases List.mem_cons.mp hq with heq | hq
      · exact .inl (Finset.mem_insert.mpr (.inl heq))
      · exact .inr (List.mem_append_left _ hq)
  by_cases hin : x ∈ visited
  · exact hkept hin
  · have hxi : x = item := (Finset.mem_insert.mp hx).resolve_right hin
    subst hxi
    rcases h.misses visited x hin y hy with hv | hn
    · exact .inl hv
    · exact .inr (List.mem_append_right _ hn)

/-- The final set holds what was visited and queued, and is closed. -/
theorem closed (h : Explores step next) {visited final : Finset α} {queue : List α}
    (hends : Ends step visited queue final)
    (hinv : ∀ x ∈ visited, ∀ y ∈ next x, y ∈ visited ∨ y ∈ queue) :
    visited ⊆ final ∧ (∀ item ∈ queue, item ∈ final) ∧ ClosedUnder next (final : Set α) := by
  induction hends with
  | done visited =>
    refine ⟨Finset.Subset.refl _, by simp, ?_⟩
    intro x hx y hy
    exact (hinv x hx y hy).resolve_right (by simp)
  | @next visited item queue final _ ih =>
    have hnext := ih (h.frontier hinv)
    have hvisited := h.visits visited item
    rw [hvisited] at hnext
    refine ⟨(Finset.subset_insert _ _).trans hnext.1, ?_, hnext.2.2⟩
    intro other hother
    rcases List.mem_cons.mp hother with heq | hq
    · exact hnext.1 (Finset.mem_insert.mpr (.inl heq))
    · exact hnext.2.1 other (List.mem_append_left _ hq)

/-- A closed set around what is visited and queued holds the final set. -/
theorem within (h : Explores step next) {visited final : Finset α} {queue : List α}
    (hends : Ends step visited queue final) {S : Set α} (hclosed : ClosedUnder next S)
    (hvisited : ∀ x ∈ visited, x ∈ S) (hqueue : ∀ x ∈ queue, x ∈ S) : ∀ x ∈ final, x ∈ S := by
  induction hends with
  | done visited => exact hvisited
  | @next visited item queue final _ ih =>
    have hitem := hqueue item List.mem_cons_self
    refine ih ?_ ?_
    · intro x hx
      rw [h.visits] at hx
      rcases Finset.mem_insert.mp hx with heq | hin
      · exact heq ▸ hitem
      · exact hvisited x hin
    · intro x hx
      rcases List.mem_append.mp hx with hq | hn
      · exact hqueue x (List.mem_cons_of_mem _ hq)
      · exact hclosed item hitem (h.only visited item x hn)

/-- From nothing visited the loop ends with the closure of its queue. -/
theorem isLeast (h : Explores step next) {final : Finset α} {queue : List α}
    (hends : Ends step ∅ queue final) :
    IsLeast {S | {item | item ∈ queue} ⊆ S ∧ ClosedUnder next S} (final : Set α) := by
  have hfinal := h.closed hends (by simp)
  refine ⟨⟨hfinal.2.1, hfinal.2.2⟩, ?_⟩
  intro S hS
  exact h.within hends hS.2 (by simp) hS.1

end Explores

end Exploration

/-! ## Stacks -/

section Stacks

/-- Run a loop that takes the item pushed last, for at most the given number of
items. -/
def runStack (step : σ → α → σ × List α) : ℕ → σ → List α → σ
  | 0, state, _ => state
  | _ + 1, state, [] => state
  | fuel + 1, state, item :: stack =>
    runStack step fuel (step state item).1 ((step state item).2 ++ stack)

/-- The loop empties its stack and ends with a state. -/
inductive Empties (step : σ → α → σ × List α) : σ → List α → σ → Prop
  | done (state : σ) : Empties step state [] state
  | next {state : σ} {item : α} {stack : List α} {final : σ}
      (h : Empties step (step state item).1 ((step state item).2 ++ stack) final) :
      Empties step state (item :: stack) final

/-- With fuel for the potential and the stack the loop empties the stack. -/
theorem empties_runStack {step : σ → α → σ × List α} {potential : σ → ℕ}
    (hb : Bounded step potential) {fuel : ℕ} {state : σ} {stack : List α}
    (h : potential state + stack.length ≤ fuel) :
    Empties step state stack (runStack step fuel state stack) := by
  induction fuel generalizing state stack with
  | zero =>
    have hempty : stack = [] := List.length_eq_zero_iff.mp (by omega)
    subst hempty
    exact .done state
  | succ fuel ih =>
    cases stack with
    | nil => exact .done state
    | cons item stack =>
      have hpay := hb.pays state item
      simp only [List.length_cons] at h
      refine .next (ih ?_)
      simp only [List.length_append]
      omega

variable [DecidableEq α]

/-- Every step marks the successors of its item other than the start, and
pushes those that were not marked. -/
structure Marks (step : Finset α → α → Finset α × List α) (next : α → Set α) (start : α) :
    Prop where
  /-- The successors are marked. -/
  marks : ∀ marked item x, x ∈ (step marked item).1 ↔ x ∈ marked ∨ x ∈ next item ∧ x ≠ start
  /-- The new ones are pushed. -/
  pushes : ∀ marked item x, x ∈ (step marked item).2 ↔ x ∈ next item ∧ x ≠ start ∧ x ∉ marked

namespace Marks

variable {step : Finset α → α → Finset α × List α} {next : α → Set α} {start : α}

omit [DecidableEq α] in
/-- What is marked is led to from the start. -/
theorem sound (h : Marks step next start) {marked final : Finset α} {stack : List α}
    (hends : Empties step marked stack final)
    (hstack : ∀ x ∈ stack, Relation.ReflTransGen (fun a b => b ∈ next a) start x)
    (hmarked : ∀ x ∈ marked, Relation.TransGen (fun a b => b ∈ next a) start x ∧ x ≠ start) :
    ∀ x ∈ final, Relation.TransGen (fun a b => b ∈ next a) start x ∧ x ≠ start := by
  induction hends with
  | done marked => exact hmarked
  | @next marked item stack final _ ih =>
    have hitem := hstack item List.mem_cons_self
    refine ih ?_ ?_
    · intro x hx
      rcases List.mem_append.mp hx with hnew | hold
      · exact hitem.tail ((h.pushes marked item x).mp hnew).1
      · exact hstack x (List.mem_cons_of_mem _ hold)
    · intro x hx
      rcases (h.marks marked item x).mp hx with hold | ⟨hnext, hne⟩
      · exact hmarked x hold
      · exact ⟨Relation.TransGen.tail' hitem hnext, hne⟩

/-- The final set with the start is closed, when the successors of all marked
items that are not on the stack are marked. -/
theorem closed (h : Marks step next start) {marked final : Finset α} {stack : List α}
    (hends : Empties step marked stack final)
    (hinv : ∀ x ∈ insert start marked, x ∈ stack ∨ ∀ y ∈ next x, y ∈ insert start marked) :
    ∀ x ∈ insert start final, ∀ y ∈ next x, y ∈ insert start final := by
  induction hends with
  | done marked => exact fun x hx => (hinv x hx).resolve_left List.not_mem_nil
  | @next marked item stack final _ ih =>
    refine ih fun x hx => ?_
    have hgrown : ∀ y, y ∈ insert start marked → y ∈ insert start (step marked item).1 := by
      intro y hy
      rcases Finset.mem_insert.mp hy with heq | hin
      · exact Finset.mem_insert.mpr (.inl heq)
      · exact Finset.mem_insert_of_mem ((h.marks marked item y).mpr (.inl hin))
    have hall : ∀ y ∈ next item, y ∈ insert start (step marked item).1 := by
      intro y hy
      by_cases heq : y = start
      · exact Finset.mem_insert.mpr (.inl heq)
      · exact Finset.mem_insert_of_mem ((h.marks marked item y).mpr (.inr ⟨hy, heq⟩))
    by_cases hold : x ∈ insert start marked
    · rcases hinv x hold with hstack | hdone
      · rcases List.mem_cons.mp hstack with heq | hin
        · exact .inr (heq ▸ hall)
        · exact .inl (List.mem_append_right _ hin)
      · exact .inr fun y hy => hgrown y (hdone y hy)
    · rcases Finset.mem_insert.mp hx with heq | hin
      · exact absurd (Finset.mem_insert.mpr (.inl heq)) hold
      · have hnot : x ∉ marked := fun hmem => hold (Finset.mem_insert_of_mem hmem)
        obtain ⟨hnext, hne⟩ := ((h.marks marked item x).mp hin).resolve_left hnot
        exact .inl (List.mem_append_left _ ((h.pushes marked item x).mpr ⟨hnext, hne, hnot⟩))

/-- From its start alone the loop ends with everything else the start leads
to. -/
theorem mem_final_iff (h : Marks step next start) {final : Finset α}
    (hends : Empties step ∅ [start] final) (x : α) :
    x ∈ final ↔ Relation.TransGen (fun a b => b ∈ next a) start x ∧ x ≠ start := by
  constructor
  · refine h.sound hends (fun y hy => ?_) (fun y hy => absurd hy (Finset.notMem_empty y)) x
    rw [List.mem_singleton.mp hy]
  · rintro ⟨hpath, hne⟩
    have hclosed := h.closed hends (fun y hy => by
      have heq : y = start := by simpa using hy
      exact .inl (List.mem_singleton.mpr heq))
    have hin : x ∈ insert start final := by
      clear hne
      induction hpath with
      | single hnext => exact hclosed start (Finset.mem_insert_self _ _) _ hnext
      | tail _ hnext ih => exact hclosed _ ih _ hnext
    exact (Finset.mem_insert.mp hin).resolve_left hne

end Marks

end Stacks

/-! ## Breadth first -/

section BreadthFirst

variable (next : α → Set α) (start : α)

/-- An item is reached from the start in a number of steps. -/
def Walk : ℕ → α → Prop
  | 0, x => x = start
  | k + 1, x => ∃ y, Walk k y ∧ x ∈ next y

/-- An item is reached in a number of steps and in no fewer. -/
def AtDistance (k : ℕ) (x : α) : Prop := Walk next start k x ∧ ∀ j < k, ¬ Walk next start j x

variable {next start}

/-- What is reached has a distance. -/
theorem exists_atDistance {k : ℕ} {x : α} (h : Walk next start k x) :
    ∃ j ≤ k, AtDistance next start j x := by
  induction k using Nat.strong_induction_on with
  | _ k ih =>
    by_cases hfewer : ∃ j < k, Walk next start j x
    · obtain ⟨j, hj, hwalk⟩ := hfewer
      obtain ⟨i, hi, hat⟩ := ih j hj hwalk
      exact ⟨i, by omega, hat⟩
    · exact ⟨k, le_refl k, h, fun j hj hwalk => hfewer ⟨j, hj, hwalk⟩⟩

theorem atDistance_unique {j k : ℕ} {x : α} (hj : AtDistance next start j x)
    (hk : AtDistance next start k x) : j = k := by
  by_contra hne
  rcases Nat.lt_or_gt_of_ne hne with hlt | hlt
  · exact hk.2 j hlt hj.1
  · exact hj.2 k hlt hk.1

/-- The last step to an item starts one step nearer. -/
theorem exists_before {k : ℕ} {x : α} (h : AtDistance next start (k + 1) x) :
    ∃ y, AtDistance next start k y ∧ x ∈ next y := by
  obtain ⟨y, hwalk, hx⟩ := h.1
  refine ⟨y, ⟨hwalk, fun j hj hnear => ?_⟩, hx⟩
  exact h.2 (j + 1) (by omega) ⟨y, hnear, hx⟩

/-- Every step marks the successors of its item and appends those that were
not marked. -/
structure Spreads (step : σ → α → σ × List α) (visited : σ → Finset α) (next : α → Set α) :
    Prop where
  /-- The successors are marked. -/
  visits : ∀ state item x, x ∈ visited (step state item).1 ↔ x ∈ visited state ∨ x ∈ next item
  /-- The new ones are appended. -/
  appends : ∀ state item x, x ∈ (step state item).2 ↔ x ∈ next item ∧ x ∉ visited state

/-- A queue in breadth-first order: what is left of one distance, then what
was found of the next one. -/
structure Levels (next : α → Set α) (start : α) (visited : Finset α) (processed : Set α) (k : ℕ)
    (front back : List α) : Prop where
  /-- Everything nearer is done. -/
  near : ∀ j < k, ∀ x, AtDistance next start j x → x ∈ processed
  /-- Everything at this distance is done or left. -/
  level : ∀ x, AtDistance next start k x → x ∈ processed ∨ x ∈ front
  /-- What is left is at this distance. -/
  left : ∀ x ∈ front, AtDistance next start k x
  /-- What was found is at the next one. -/
  later : ∀ x ∈ back, AtDistance next start (k + 1) x
  /-- What is marked. -/
  seen : ∀ x, x ∈ visited ↔ (∃ j ≤ k, AtDistance next start j x) ∨ x ∈ back
  /-- The successors of what is done are marked. -/
  closed : ∀ x ∈ processed, ∀ y ∈ next x, y ∈ visited

namespace Levels

variable {visited : Finset α} {processed : Set α} {k : ℕ} {front back : List α}

/-- At the end of a distance everything at the next one is found. -/
theorem found (h : Levels next start visited processed k [] back) {x : α}
    (hx : AtDistance next start (k + 1) x) : x ∈ back := by
  obtain ⟨y, hy, hxy⟩ := exists_before hx
  have hdone : y ∈ processed := (h.level y hy).resolve_right (by simp)
  rcases (h.seen x).mp (h.closed y hdone x hxy) with ⟨j, hj, hat⟩ | hback
  · have heq := atDistance_unique hat hx
    omega
  · exact hback

/-- At the end of a distance the next one begins. -/
theorem shift (h : Levels next start visited processed k [] back) :
    Levels next start visited processed (k + 1) back [] where
  near := fun j hj x hx => by
    rcases Nat.lt_succ_iff_lt_or_eq.mp hj with hlt | heq
    · exact h.near j hlt x hx
    · exact (h.level x (heq ▸ hx)).resolve_right (by simp)
  level := fun x hx => .inr (h.found hx)
  left := h.later
  later := fun x hx => absurd hx List.not_mem_nil
  seen := fun x => by
    rw [h.seen x, or_iff_left List.not_mem_nil]
    constructor
    · rintro (⟨j, hj, hat⟩ | hback)
      · exact ⟨j, by omega, hat⟩
      · exact ⟨k + 1, le_refl _, h.later x hback⟩
    · rintro ⟨j, hj, hat⟩
      rcases Nat.lt_or_ge k j with hlt | hle
      · have heq : j = k + 1 := by omega
        exact .inr (h.found (heq ▸ hat))
      · exact .inl ⟨j, hle, hat⟩
  closed := h.closed

/-- One step takes an item that is left and finds its new successors. -/
theorem step {step : σ → α → σ × List α} {marks : σ → Finset α} (hs : Spreads step marks next)
    {state : σ} {item : α} (h : Levels next start (marks state) processed k (item :: front) back) :
    Levels next start (marks (step state item).1) (insert item processed) k front
      (back ++ (step state item).2) where
  near := fun j hj x hx => .inr (h.near j hj x hx)
  level := fun x hx => by
    rcases h.level x hx with hdone | hleft
    · exact .inl (.inr hdone)
    · rcases List.mem_cons.mp hleft with heq | hin
      · exact .inl (.inl heq)
      · exact .inr hin
  left := fun x hx => h.left x (List.mem_cons_of_mem _ hx)
  later := fun x hx => by
    rcases List.mem_append.mp hx with hold | hnew
    · exact h.later x hold
    · obtain ⟨hnext, hfresh⟩ := (hs.appends state item x).mp hnew
      have hitem := h.left item List.mem_cons_self
      refine ⟨⟨item, hitem.1, hnext⟩, fun j hj hwalk => hfresh ?_⟩
      obtain ⟨i, hi, hat⟩ := exists_atDistance hwalk
      exact (h.seen x).mpr (.inl ⟨i, by omega, hat⟩)
  seen := fun x => by
    rw [hs.visits, h.seen x, List.mem_append, hs.appends, h.seen x]
    generalize (∃ j ≤ k, AtDistance next start j x) = nearer
    tauto
  closed := fun x hx y hy => by
    rw [hs.visits]
    rcases hx with heq | hdone
    · exact .inr (heq ▸ hy)
    · exact .inl (h.closed x hdone y hy)

end Levels

/-- The breadth-first rule: what a step keeps when everything nearer than its
item is done holds at the end, with everything that is reached done. -/
theorem breadthFirst {step : σ → α → σ × List α} {visited : σ → Finset α}
    (hs : Spreads step visited next) {K : σ → Set α → Prop}
    (hstep : ∀ state processed item k, AtDistance next start k item →
      (∀ j < k, ∀ x, AtDistance next start j x → x ∈ processed) → K state processed →
      K (step state item).1 (insert item processed))
    {state final : σ} {queue : List α} (hends : Ends step state queue final) {k : ℕ}
    {front back : List α} {processed : Set α} (hqueue : queue = front ++ back)
    (h : Levels next start (visited state) processed k front back) (hK : K state processed) :
    ∃ done, K final done ∧ ∀ j x, Walk next start j x → x ∈ done := by
  induction hends generalizing k front back processed with
  | done state =>
    have hempty := List.append_eq_nil_iff.mp hqueue.symm
    rw [hempty.1, hempty.2] at h
    refine ⟨processed, hK, ?_⟩
    have hnear : ∀ j x, AtDistance next start j x → j ≤ k := by
      intro j
      induction j with
      | zero => exact fun _ _ => Nat.zero_le k
      | succ j ih =>
        intro x hx
        obtain ⟨y, hy, -⟩ := exists_before hx
        have hj := ih y hy
        by_contra hfar
        have heq : j = k := by omega
        exact absurd (h.found (heq ▸ hx)) List.not_mem_nil
    intro j x hwalk
    obtain ⟨i, hi, hat⟩ := exists_atDistance hwalk
    have hle := hnear i x hat
    rcases Nat.lt_or_ge i k with hlt | hge
    · exact h.near i hlt x hat
    · have heq : i = k := by omega
      exact (h.level x (heq ▸ hat)).resolve_right List.not_mem_nil
  | @next state item queue final _ ih =>
    cases front with
    | cons first front =>
      obtain ⟨hfirst, hrest⟩ := List.cons.inj (hqueue.trans List.cons_append)
      rw [← hfirst] at h
      have hitem := h.left item List.mem_cons_self
      refine ih ?_ (h.step hs) (hstep state processed item k hitem h.near hK)
      rw [hrest, List.append_assoc]
    | nil =>
      cases back with
      | nil => cases hqueue
      | cons first back =>
        obtain ⟨hfirst, hrest⟩ := List.cons.inj (hqueue.trans (List.nil_append _))
        have hshift := h.shift
        rw [← hfirst] at hshift
        have hitem := hshift.left item List.mem_cons_self
        refine ih ?_ (hshift.step hs)
          (hstep state processed item (k + 1) hitem hshift.near hK)
        rw [hrest, List.nil_append]

end BreadthFirst

end Tyo3.Worklists
