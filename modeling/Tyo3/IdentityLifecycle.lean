import Tyo3.IdentityRuns

/-!
# The lifecycle of identities

Along every run of reconciliations an anchor stays in the registry with the
revision that minted it. Its status follows a small graph of transitions.
An orphan returns as active by a clean match, and for review when only its
name, kind and container match a new entity.
-/

namespace Tyo3.IdentityLifecycle

open Entities FiniteMaps IdentityAnchors IdentityMatching IdentityPostState IdentityReconciliation
  IdentityRuns

/-- The transitions between different statuses that the lifecycle lists. -/
def listedTransitions : List (IdentityStatus × IdentityStatus) :=
  [(.active, .needsReview), (.needsReview, .active), (.active, .orphaned),
    (.needsReview, .orphaned), (.orphaned, .active)]

/-- A reconciliation binds an id by name, kind and container alone. -/
def BoundByStructure (out : Reconciliation) (id : DurableId) : Prop :=
  ∃ path confidence oldHash, (path, Binding.struct id confidence oldHash) ∈ out.bindings

/-- A status stays, moves along a listed transition, or moves from orphaned to
review for an id bound by structure. -/
def Moves (out : Reconciliation) (id : DurableId) (before after : IdentityStatus) : Prop :=
  after = before ∨ (before, after) ∈ listedTransitions ∨
    before = .orphaned ∧ after = .needsReview ∧ BoundByStructure out id

/-- The status of an id moves to orphaned. -/
def MovesToOrphaned (r s : IdentityRegistry) (id : DurableId) : Prop :=
  s.statusOf id = some .orphaned ∧ r.statusOf id ≠ some .orphaned

/-! ## Orphans are not found by path -/

/-- Every path entry names a live anchor. -/
def PathsLive (r : IdentityRegistry) : Prop :=
  ∀ p id, r.byPath.lookup p = some id → ∃ a, r.get id = some a ∧ a.status ≠ .orphaned

section Step

variable {r : IdentityRegistry} {mint : ℕ → DurableId} {entities : List Entity}
  {revision : Revision} {scope : Option (Finset String)}
  {out : Reconciliation × IdentityRegistry} {plan : List Bound}

/-- A reconciliation leaves path entries of live anchors only. -/
theorem pathsLive_step (hs : r.Sound) (hl : PathsLive r)
    (ho : Outcome mint r entities revision scope out plan) : PathsLive out.2 := by
  intro p id hp
  by_cases htaken : ∃ x ∈ plan, x.entity.qualifiedPath = p
  · obtain ⟨x, hx, hxp⟩ := htaken
    rw [← hxp] at hp
    have hid := ((ho.byPath_taken x hx id).mp hp).1
    obtain ⟨a, ha, -, -, hlive⟩ := ho.get_bound_live hx
    rw [hid]
    exact ⟨a, ha, hlive⟩
  · have hother := (ho.byPath_other p (fun x hx hxp => htaken ⟨x, hx, hxp⟩) id).mp hp
    by_cases hclaimed : id ∈ claimed plan
    · obtain ⟨x, hx, hxid⟩ := mem_claimed.mp hclaimed
      obtain ⟨a, ha, -, -, hlive⟩ := ho.get_bound_live hx
      rw [← hxid]
      exact ⟨a, ha, hlive⟩
    · obtain ⟨a, ha, hap⟩ := hs.path_anchor p id hother.1
      have hstays : vanished scope (claimed plan) r id ≠ true := by
        intro hv
        exact hother.2.1 ⟨id, hv, by rw [ha, Option.map_some, hap]⟩
      rw [ho.get_other id hclaimed, if_neg hstays]
      exact hl p id hother.1

/-- An entry that needs review and names an orphan is bound by structure. -/
theorem boundByStructure_of_review (hl : PathsLive r)
    (ho : Outcome mint r entities revision scope out plan) {x : Bound} (hx : x ∈ plan)
    (hreview : x.review = true) {a : Anchor} (ha : r.get x.id = some a)
    (horphan : a.status = .orphaned) : BoundByStructure out.1 x.id := by
  have hj := ho.justified x hx
  have hlisted : (x.entity.qualifiedPath, x.binding) ∈ out.1.bindings :=
    ho.bindings.symm.subset (List.mem_map_of_mem hx)
  cases hb : x.binding with
  | exact id oldHash =>
    rw [hb] at hj
    have hid : x.id = id := congrArg Binding.id hb
    obtain ⟨b, hbget, hlive⟩ := hl _ id hj.1
    rw [hid, hbget] at ha
    cases ha
    exact absurd horphan hlive
  | moved id oldPath oldHash =>
    rw [hb] at hj
    have hclean := hj.2.2.2
    rw [hreview] at hclean
    cases hclean
  | struct id confidence oldHash =>
    have hid : x.id = id := congrArg Binding.id hb
    rw [hid]
    rw [hb] at hlisted
    exact ⟨x.entity.qualifiedPath, confidence, oldHash, hlisted⟩
  | minted id =>
    rw [hb] at hj
    have hclean := hj.2
    rw [hreview] at hclean
    cases hclean

/-- What a reconciliation does to a known anchor. -/
theorem anchor_step (hl : PathsLive r) (ho : Outcome mint r entities revision scope out plan)
    {id : DurableId} {a : Anchor} (ha : r.get id = some a) :
    ∃ a', out.2.get id = some a' ∧ a'.firstSeenRev = a.firstSeenRev ∧
      Moves out.1 id a.status a'.status ∧
      (id ∈ out.1.retired ↔ a'.status = .orphaned ∧ a.status ≠ .orphaned) := by
  by_cases hclaimed : id ∈ claimed plan
  · obtain ⟨x, hx, hxid⟩ := mem_claimed.mp hclaimed
    rw [← hxid] at ha ⊢
    have hknown : x.binding.isMinted = false := by
      cases hm : x.binding.isMinted with
      | false => rfl
      | true =>
        have hnone := ho.fits.minted x hx hm
        rw [ha] at hnone
        cases hnone
    have hget := ho.get_bound x hx
    unfold boundAnchor at hget
    rw [hknown, if_neg Bool.false_ne_true, ha, Option.map_some] at hget
    have hnot : x.id ∉ out.1.retired := by
      rw [ho.retired]
      intro hv
      exact (vanished_iff.mp hv).1 (mem_claimed.mpr ⟨x, hx, rfl⟩)
    refine ⟨_, hget, rfl, ?_, ?_⟩
    · dsimp only
      cases hreview : x.review with
      | true =>
        rw [if_pos rfl]
        cases hstatus : a.status with
        | active => exact Or.inr (Or.inl (by decide))
        | needsReview => exact Or.inl rfl
        | orphaned =>
          exact Or.inr (Or.inr ⟨rfl, rfl, boundByStructure_of_review hl ho hx hreview ha hstatus⟩)
      | false =>
        rw [if_neg Bool.false_ne_true]
        cases hstatus : a.status with
        | active => exact Or.inl rfl
        | needsReview => exact Or.inr (Or.inl (by decide))
        | orphaned => exact Or.inr (Or.inl (by decide))
    · refine ⟨fun h => absurd h hnot, fun h => ?_⟩
      have hlive := h.1
      dsimp only at hlive
      split at hlive <;> cases hlive
  · have hget := ho.get_other id hclaimed
    have hretired := ho.retired id
    by_cases hv : vanished scope (claimed plan) r id = true
    · rw [if_pos hv, ha, Option.map_some] at hget
      obtain ⟨-, -, b, hb, hlive⟩ := vanished_iff.mp hv
      rw [ha] at hb
      cases hb
      refine ⟨_, hget, rfl, ?_, ?_⟩
      · unfold orphan Moves
        dsimp only
        cases hstatus : a.status with
        | active => exact Or.inr (Or.inl (by decide))
        | needsReview => exact Or.inr (Or.inl (by decide))
        | orphaned => exact absurd hstatus hlive
      · exact ⟨fun _ => ⟨rfl, hlive⟩, fun _ => hretired.mpr hv⟩
    · rw [if_neg hv, ha] at hget
      refine ⟨a, hget, rfl, Or.inl rfl, ?_⟩
      exact ⟨fun h => absurd (hretired.mp h) hv, fun h => absurd h.1 h.2⟩

/-- An id without an anchor is not retired, and its first anchor is active. -/
theorem unknown_step (ho : Outcome mint r entities revision scope out plan) {id : DurableId}
    (hnone : r.get id = none) :
    id ∉ out.1.retired ∧ ∀ a, out.2.get id = some a → a.status = .active := by
  have hnot : vanished scope (claimed plan) r id ≠ true := by
    intro hv
    obtain ⟨-, -, a, ha, -⟩ := vanished_iff.mp hv
    rw [hnone] at ha
    cases ha
  refine ⟨fun h => hnot ((ho.retired id).mp h), fun a ha => ?_⟩
  by_cases hclaimed : id ∈ claimed plan
  · obtain ⟨x, hx, hxid⟩ := mem_claimed.mp hclaimed
    have hget := ho.get_bound x hx
    rw [hxid, hnone, ha] at hget
    unfold boundAnchor at hget
    cases hm : x.binding.isMinted with
    | true =>
      rw [hm, if_pos rfl] at hget
      rw [Option.some.inj hget]
    | false =>
      rw [hm, if_neg Bool.false_ne_true] at hget
      cases hget
  · rw [ho.get_other id hclaimed, if_neg hnot, hnone] at ha
    cases ha

end Step

/-! ## Runs -/

/-- Every reachable registry has path entries of live anchors only. -/
theorem pathsLive_of_reachable {r : IdentityRegistry} (hr : ReachableBy DistinctPaths r) :
    PathsLive r := by
  induction hr with
  | start =>
    intro p id hp
    simp [IdentityRegistry.empty] at hp
  | step c hr hf hok ih =>
    obtain ⟨plan, ho⟩ := reconcileImpl_outcome hr.sound.linked hf c.iter hok c.revision c.scope
    exact pathsLive_step hr.sound ih ho

/-- Registries reached from a given one by further calls. -/
inductive Continues (ok : IdentityRegistry → Call → Prop) (r : IdentityRegistry) :
    IdentityRegistry → Prop
  | here : Continues ok r r
  | step {s : IdentityRegistry} (c : Call) (hs : Continues ok r s) (hf : Fresh c.mint s)
      (hok : ok s c) : Continues ok r (c.run s).2

/-- A continued run is a run. -/
theorem Continues.reachable {ok : IdentityRegistry → Call → Prop} {r s : IdentityRegistry}
    (hr : ReachableBy ok r) (h : Continues ok r s) : ReachableBy ok s := by
  induction h with
  | here => exact hr
  | step c _ hf hok ih => exact .step c ih hf hok

/-- One call of a run, in terms of its outcome. -/
theorem outcome_of_reachable {r : IdentityRegistry} (hr : ReachableBy DistinctPaths r) {c : Call}
    (hf : Fresh c.mint r) (hok : DistinctPaths r c) :
    ∃ plan, Outcome c.mint r c.entities c.revision c.scope (c.run r) plan :=
  reconcileImpl_outcome hr.sound.linked hf c.iter hok c.revision c.scope

/-- Along every run an anchor stays with the revision that minted it, each
call moves statuses along the lifecycle only, and an id is reported as
retired exactly by the call that moves it to orphaned. -/
theorem anchors_follow_lifecycle {r : IdentityRegistry} (hr : ReachableBy DistinctPaths r) :
    (∀ s, Continues DistinctPaths r s → ∀ id a, r.get id = some a →
      ∃ a', s.get id = some a' ∧ a'.firstSeenRev = a.firstSeenRev) ∧
    ∀ c, Fresh c.mint r → DistinctPaths r c → ∀ id,
      (∀ a a', r.get id = some a → (c.run r).2.get id = some a' →
        Moves (c.run r).1 id a.status a'.status) ∧
      (id ∈ (c.run r).1.retired ↔ MovesToOrphaned r (c.run r).2 id) := by
  refine ⟨?_, ?_⟩
  · intro s hs id a ha
    induction hs with
    | here => exact ⟨a, ha, rfl⟩
    | step c hcont hf hok ih =>
      obtain ⟨b, hb, hfirst⟩ := ih
      have hreach := hcont.reachable hr
      obtain ⟨plan, ho⟩ := outcome_of_reachable hreach hf hok
      obtain ⟨a', ha', hfirst', -⟩ := anchor_step (pathsLive_of_reachable hreach) ho hb
      exact ⟨a', ha', hfirst'.trans hfirst⟩
  · intro c hf hok id
    obtain ⟨plan, ho⟩ := outcome_of_reachable hr hf hok
    have hlive := pathsLive_of_reachable hr
    unfold MovesToOrphaned IdentityRegistry.statusOf
    cases ha : r.get id with
    | none =>
      have hstep := unknown_step ho ha
      refine ⟨fun a a' h => absurd h (by simp), fun h => absurd h hstep.1, fun h => ?_⟩
      obtain ⟨a', ha', hstatus⟩ := Option.map_eq_some_iff.mp h.1
      rw [hstep.2 a' ha'] at hstatus
      cases hstatus
    | some a =>
      obtain ⟨a', ha', -, hmoves, hretired⟩ := anchor_step hlive ho ha
      rw [ha', hretired]
      refine ⟨fun b b' hb hb' => ?_, ?_⟩
      · cases hb
        cases hb'
        exact hmoves
      · simp

/-- A function is written and deleted: the second call retires its id and
moves it to orphaned. -/
theorem deleted_function_retired :
    "A" ∈ ((wholeCall 1 2 []).run (runCalls [wholeCall 0 1 [topFunction "a.py" "f" 1]])).1.retired ∧
    MovesToOrphaned (runCalls [wholeCall 0 1 [topFunction "a.py" "f" 1]])
      ((wholeCall 1 2 []).run (runCalls [wholeCall 0 1 [topFunction "a.py" "f" 1]])).2 "A" := by
  have hr : ReachableBy DistinctPaths (runCalls [wholeCall 0 1 [topFunction "a.py" "f" 1]]) :=
    .step (wholeCall 0 1 [topFunction "a.py" "f" 1]) .start (longIds_fresh (by decide +kernel))
      (by decide +kernel)
  have hretired : "A" ∈ ((wholeCall 1 2 []).run
      (runCalls [wholeCall 0 1 [topFunction "a.py" "f" 1]])).1.retired := by decide +kernel
  have hstep := (anchors_follow_lifecycle hr).2 (wholeCall 1 2 [])
    (longIds_fresh (by decide +kernel)) (by decide +kernel) "A"
  exact ⟨hretired, hstep.2.mp hretired⟩

/-- A method of a class, as the extraction reports it. -/
def classMethod (file owner name : String) (hash : ContentHash) : Entity where
  qualifiedPath := file ++ "::" ++ owner ++ "::" ++ name
  kind := .method
  contentHash := hash
  container := some (file ++ "::" ++ owner)
  name := name
  file := file
  fullRange := ⟨0, 0⟩
  nameRange := ⟨0, 0⟩
  qualifiedName := owner ++ "." ++ name

/-- A method is written, deleted and written again with another body: its id
goes from orphaned to review, which the lifecycle does not list. -/
theorem orphaned_method_returns_for_review :
    ∃ r c, ReachableBy DistinctPaths r ∧ Fresh c.mint r ∧ DistinctPaths r c ∧
      r.statusOf "A" = some .orphaned ∧ (c.run r).2.statusOf "A" = some .needsReview ∧
      (IdentityStatus.orphaned, IdentityStatus.needsReview) ∉ listedTransitions := by
  let r := runCalls [wholeCall 0 1 [classMethod "a.py" "C" "m" 1], wholeCall 1 2 []]
  let c := wholeCall 1 3 [classMethod "a.py" "C" "m" 2]
  have hfirst : ReachableBy DistinctPaths
      (runCalls [wholeCall 0 1 [classMethod "a.py" "C" "m" 1]]) :=
    .step (wholeCall 0 1 [classMethod "a.py" "C" "m" 1]) .start
      (longIds_fresh (by decide +kernel)) (by decide +kernel)
  have hr : ReachableBy DistinctPaths r :=
    .step (wholeCall 1 2 []) hfirst (longIds_fresh (by decide +kernel)) (by decide +kernel)
  have hfresh : Fresh c.mint r := longIds_fresh (by decide +kernel)
  have hdistinct : DistinctPaths r c := by decide +kernel
  have hbefore : r.statusOf "A" = some .orphaned := by decide +kernel
  have hafter : (c.run r).2.statusOf "A" = some .needsReview := by decide +kernel
  exact ⟨r, c, hr, hfresh, hdistinct, hbefore, hafter, by decide⟩

end Tyo3.IdentityLifecycle
