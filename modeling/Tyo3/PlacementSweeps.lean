import Mathlib.Data.List.Perm.Basic
import Tyo3.DependencyOrders

/-!
# Placing items sweep by sweep

Items wait for their dependencies. A sweep goes through the waiting items and
places every one whose dependencies are placed, at once for the items behind
it. Sweeps are made while the last one placed something, and what waits then is
appended. The placed items are exactly those that settle: whose dependencies
are placed from the start or settle themselves. An item that does not settle
leads to a cycle or to a dependency that is nowhere. Nothing here names a
program.
-/

namespace Tyo3.PlacementSweeps

variable {K : Type*} [DecidableEq K] (deps : K → List K) (given : Finset K)

/-- What a sweep leaves. -/
structure Swept (K : Type*) where
  /-- The order so far. -/
  order : List K
  /-- Items that still wait. -/
  still : List K
  /-- Whether an item was placed. -/
  progress : Bool

/-- All dependencies of an item are placed. -/
def ready (order : List K) (item : K) : Bool :=
  (deps item).all fun dep => decide (dep ∈ order ∨ dep ∈ given)

/-- Go through the waiting items once. -/
def sweep : List K → Swept K → Swept K
  | [], s => s
  | item :: pending, s =>
    if ready deps given s.order item then sweep pending ⟨s.order ++ [item], s.still, true⟩
    else sweep pending { s with still := s.still ++ [item] }

/-- Sweep while something is placed, and append the rest; none when the sweeps
are more than the fuel. -/
def place : ℕ → Bool → List K → List K → Option (List K)
  | 0, _, _, _ => none
  | fuel + 1, progress, order, pending =>
    if pending ≠ [] ∧ progress = true then
      let s := sweep deps given pending ⟨order, [], false⟩
      place fuel s.progress s.order s.still
    else some (order ++ pending)

/-! ## Orders in which items are placed -/

/-- Items that stand behind their dependencies, after those of an order. -/
def Placed (order added : List K) : Prop :=
  ∀ before item after, added = before ++ item :: after →
    ∀ dep ∈ deps item, dep ∈ order ++ before ∨ dep ∈ given

variable {deps given}

theorem ready_iff {order : List K} {item : K} :
    ready deps given order item = true ↔ ∀ dep ∈ deps item, dep ∈ order ∨ dep ∈ given := by
  simp [ready, List.all_eq_true]

omit [DecidableEq K] in
theorem Placed.nil (order : List K) : Placed deps given order [] := by
  intro before item after h
  exact absurd h (by simp)

omit [DecidableEq K] in
/-- One more item with placed dependencies in front. -/
theorem Placed.cons {order added : List K} {item : K}
    (hitem : ∀ dep ∈ deps item, dep ∈ order ∨ dep ∈ given)
    (h : Placed deps given (order ++ [item]) added) : Placed deps given order (item :: added) := by
  intro before other after heq dep hdep
  cases before with
  | nil =>
    rw [List.nil_append] at heq
    rw [List.append_nil]
    exact hitem dep ((List.cons.inj heq).1 ▸ hdep)
  | cons first before =>
    obtain ⟨hfirst, hrest⟩ := List.cons.inj heq
    have hplaced := h before other after hrest dep hdep
    rw [List.append_assoc, List.singleton_append, hfirst] at hplaced
    exact hplaced

omit [DecidableEq K] in
theorem Placed.append {order added more : List K} (h : Placed deps given order added)
    (h' : Placed deps given (order ++ added) more) : Placed deps given order (added ++ more) := by
  induction added generalizing order with
  | nil => simpa using h'
  | cons item added ih =>
    refine Placed.cons ?_ (ih ?_ ?_)
    · intro dep hdep
      have hplaced := h [] item added rfl dep hdep
      rwa [List.append_nil] at hplaced
    · intro before other after heq dep hdep
      have hplaced := h (item :: before) other after (by rw [heq]; rfl) dep hdep
      rwa [List.append_assoc]
    · rwa [List.append_assoc]

/-! ## Sweeps -/

/-- A sweep places some of the waiting items, each behind its dependencies, and
keeps the others. An item that is kept had a dependency that was not placed. -/
theorem sweep_spec (pending : List K) (s : Swept K) :
    ∃ added kept, (sweep deps given pending s).order = s.order ++ added ∧
      (sweep deps given pending s).still = s.still ++ kept ∧
      (added ++ kept).Perm pending ∧ Placed deps given s.order added ∧
      (sweep deps given pending s).progress = (s.progress || !added.isEmpty) ∧
      ∀ item ∈ kept, ∃ dep ∈ deps item, dep ∉ s.order ∧ dep ∉ given := by
  induction pending generalizing s with
  | nil => exact ⟨[], [], by simp [sweep], by simp [sweep], .nil, .nil _, by simp [sweep], by simp⟩
  | cons item pending ih =>
    rw [sweep]
    by_cases hready : ready deps given s.order item = true
    · rw [if_pos hready]
      obtain ⟨added, kept, horder, hstill, hperm, hplaced, hprogress, hkept⟩ :=
        ih ⟨s.order ++ [item], s.still, true⟩
      refine ⟨item :: added, kept, ?_, hstill, hperm.cons item,
        Placed.cons (ready_iff.mp hready) hplaced, by simp [hprogress], fun other hother => ?_⟩
      · rw [horder, List.append_assoc, List.singleton_append]
      · obtain ⟨dep, hdep, hout, hgiven⟩ := hkept other hother
        exact ⟨dep, hdep, fun hin => hout (List.mem_append_left _ hin), hgiven⟩
    · rw [if_neg hready]
      obtain ⟨added, kept, horder, hstill, hperm, hplaced, hprogress, hkept⟩ :=
        ih { s with still := s.still ++ [item] }
      refine ⟨added, item :: kept, horder, ?_, ?_, hplaced, hprogress, fun other hother => ?_⟩
      · rw [hstill, List.append_assoc, List.singleton_append]
      · exact List.perm_middle.trans (hperm.cons item)
      · rcases List.mem_cons.mp hother with rfl | hin
        · rw [ready_iff] at hready
          push Not at hready
          exact hready
        · exact hkept other hin

/-- With enough fuel the sweeps end. The result is the order, then the placed
items, then the items that have a dependency which was never placed. -/
theorem place_spec {fuel : ℕ} {progress : Bool} {order pending : List K} (hsome : 0 < fuel)
    (hfuel : progress = true → pending.length + 1 < fuel)
    (hstuck : progress = false → ∀ item ∈ pending, ∃ dep ∈ deps item, dep ∉ order ∧ dep ∉ given) :
    ∃ added stuck, place deps given fuel progress order pending = some (order ++ added ++ stuck) ∧
      (added ++ stuck).Perm pending ∧ Placed deps given order added ∧
      ∀ item ∈ stuck, ∃ dep ∈ deps item, dep ∉ order ++ added ∧ dep ∉ given := by
  induction fuel generalizing progress order pending with
  | zero => omega
  | succ fuel ih =>
    rw [place]
    by_cases hgo : pending ≠ [] ∧ progress = true
    · rw [if_pos hgo]
      obtain ⟨added, kept, horder, hstill, hperm, hplaced, hprogress, hkept⟩ :=
        @sweep_spec K _ deps given pending ⟨order, [], false⟩
      rw [List.nil_append] at hstill
      rw [Bool.false_or] at hprogress
      have hlength := hperm.length_eq
      rw [List.length_append] at hlength
      have hpending := hfuel hgo.2
      have hpositive := List.length_pos_iff.mpr hgo.1
      have hmore : (!added.isEmpty) = true → kept.length + 1 < fuel := by
        intro hadded
        have hplus : 0 < added.length := by
          rw [List.length_pos_iff]
          intro hnil
          rw [hnil] at hadded
          cases hadded
        omega
      have hend : (!added.isEmpty) = false →
          ∀ item ∈ kept, ∃ dep ∈ deps item, dep ∉ order ++ added ∧ dep ∉ given := by
        intro hadded item hitem
        have hnil : added = [] := by simpa using hadded
        rw [hnil, List.append_nil]
        exact hkept item hitem
      obtain ⟨more, stuck, hplace, hperm', hplaced', hstuck'⟩ :=
        @ih (!added.isEmpty) (order ++ added) kept (by omega) hmore hend
      dsimp only
      rw [horder, hstill, hprogress]
      refine ⟨added ++ more, stuck, ?_, ?_, hplaced.append hplaced', ?_⟩
      · rw [hplace, ← List.append_assoc order]
      · rw [List.append_assoc]
        exact (hperm'.append_left added).trans hperm
      · rw [← List.append_assoc]
        exact hstuck'
    · rw [if_neg hgo]
      refine ⟨[], pending, by rw [List.append_nil], by rw [List.nil_append], .nil order, ?_⟩
      rw [List.append_nil]
      intro item hitem
      refine hstuck ?_ item hitem
      by_contra hprogress
      exact hgo ⟨List.ne_nil_of_mem hitem, by simpa using hprogress⟩

/-! ## Items that settle -/

/-- An item that is placed from the start, or whose dependencies settle. -/
inductive Settles (deps : K → List K) (given : Finset K) (start pending : List K) : K → Prop
  | given {item : K} (h : item ∈ given) : Settles deps given start pending item
  | listed {item : K} (h : item ∈ start) : Settles deps given start pending item
  | waiting {item : K} (h : item ∈ pending)
      (hdeps : ∀ dep ∈ deps item, Settles deps given start pending dep) :
      Settles deps given start pending item

section Settled

variable {start pending added stuck : List K}

omit [DecidableEq K] in
/-- What settles is placed once every item that waits has a dependency that is
not. -/
theorem mem_of_settles (hperm : (added ++ stuck).Perm pending)
    (hstuck : ∀ item ∈ stuck, ∃ dep ∈ deps item, dep ∉ start ++ added ∧ dep ∉ given) {item : K}
    (h : Settles deps given start pending item) : item ∈ start ++ added ∨ item ∈ given := by
  induction h with
  | given h => exact .inr h
  | listed h => exact .inl (List.mem_append_left _ h)
  | @waiting item h hdeps ih =>
    rcases List.mem_append.mp (hperm.mem_iff.mpr h) with hadded | hin
    · exact .inl (List.mem_append_right _ hadded)
    · obtain ⟨dep, hdep, hout, hgiven⟩ := hstuck item hin
      rcases ih dep hdep with hplaced | hgiven'
      · exact absurd hplaced hout
      · exact absurd hgiven' hgiven

/-- A waiting item and a dependency of it. -/
def Waits (deps : K → List K) (pending : List K) (item dep : K) : Prop :=
  item ∈ pending ∧ dep ∈ deps item

/-- An item that leads to a cycle of waiting items, or to a dependency that is
neither placed nor waits. -/
def Blocked (deps : K → List K) (given : Finset K) (start pending : List K) (item : K) : Prop :=
  ∃ other, Relation.ReflTransGen (Waits deps pending) item other ∧
    (Relation.TransGen (Waits deps pending) other other ∨
      other ∈ pending ∧ ∃ dep ∈ deps other, dep ∉ given ∧ dep ∉ start ∧ dep ∉ pending)

/-- A waiting item settles unless it leads to a cycle or to nowhere. -/
theorem blocked_of_not_settles {item : K} (hitem : item ∈ pending)
    (h : ¬ Settles deps given start pending item) : Blocked deps given start pending item := by
  by_contra hfree
  classical
  -- the items that do not settle and are led to
  let open_ : Finset K := pending.toFinset.filter fun other =>
    Relation.ReflTransGen (Waits deps pending) item other ∧ ¬ Settles deps given start pending other
  let pairs : List (K × K) :=
    (pending.filter fun other => Relation.ReflTransGen (Waits deps pending) item other).flatMap
      fun other => (deps other).map fun dep => (other, dep)
  have hpairs : ∀ other dep, (other, dep) ∈ pairs ↔
      Waits deps pending other dep ∧ Relation.ReflTransGen (Waits deps pending) item other := by
    intro other dep
    simp only [pairs, Waits, List.mem_flatMap, List.mem_filter, decide_eq_true_eq, List.mem_map,
      Prod.mk.injEq]
    constructor
    · rintro ⟨x, ⟨hx, hlead⟩, y, hy, rfl, rfl⟩
      exact ⟨⟨hx, hy⟩, hlead⟩
    · rintro ⟨⟨hx, hy⟩, hlead⟩
      exact ⟨other, ⟨hx, hlead⟩, dep, hy, rfl, rfl⟩
  have hacyclic : DependencyOrders.Acyclic pairs := by
    intro node hcycle
    have hlead : Relation.ReflTransGen (Waits deps pending) item node := by
      obtain ⟨next, hnext, -⟩ := Relation.TransGen.head'_iff.mp hcycle
      exact ((hpairs node next).mp hnext).2
    refine hfree ⟨node, hlead, .inl ?_⟩
    exact Relation.TransGen.mono (fun other dep hpair => ((hpairs other dep).mp hpair).1) _ _ hcycle
  have hsome : open_.Nonempty :=
    ⟨item, Finset.mem_filter.mpr ⟨List.mem_toFinset.mpr hitem, .refl, h⟩⟩
  obtain ⟨node, hnode, hleast⟩ := hacyclic.exists_settled hsome
  obtain ⟨hin, hlead, hnot⟩ := Finset.mem_filter.mp hnode
  rw [List.mem_toFinset] at hin
  -- a dependency that does not settle is itself led to
  obtain ⟨dep, hdep, hunsettled⟩ : ∃ dep ∈ deps node, ¬ Settles deps given start pending dep := by
    by_contra hall
    push Not at hall
    exact hnot (.waiting hin hall)
  have hwaits : dep ∈ pending := by
    by_contra hout
    exact hfree ⟨node, hlead, .inr ⟨hin, dep, hdep, fun hg => hunsettled (.given hg),
      fun hs => hunsettled (.listed hs), hout⟩⟩
  refine hleast dep ((hpairs node dep).mpr ⟨⟨hin, hdep⟩, hlead⟩) (Finset.mem_filter.mpr
    ⟨List.mem_toFinset.mpr hwaits, hlead.tail ⟨hin, hdep⟩, hunsettled⟩)

end Settled

end Tyo3.PlacementSweeps
