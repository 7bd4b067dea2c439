import Mathlib.Order.BooleanAlgebra.Basic
import Mathlib.Data.Finset.BooleanAlgebra
import Mathlib.Data.Fintype.Order
import Mathlib.Order.CompletePartialOrder
import Tyo3.Deltas
import Tyo3.Runs

/-!
# Subscriptions

A subscription is the queue between the bus and one subscriber. The bus
offers deltas and never waits; a full queue merges, drops or closes, as the
overflow policy says. The subscriber polls at its own pace. Every region
under the lock of the subscription is one step, so an overflowing offer and
its closing of the subscription are separate steps.
-/

namespace Tyo3.Subscriptions

open Deltas BoundedQueues Runs

/-- What happens to a delta that finds the queue full. -/
inductive Overflow
  | coalesce | dropAndMarkLagged | errorAndClose
  deriving DecidableEq

/-- One subscriber's end of the bus. -/
structure Subscription where
  /-- What the subscriber wants to hear of. -/
  interest : Interest
  /-- Bound of the queue. -/
  capacity : ℤ
  /-- Policy of a full queue. -/
  overflow : Overflow
  /-- Deltas not yet taken, the oldest first. -/
  queue : List Delta
  /-- Whether the subscription is closed. -/
  closed : Bool
  /-- Whether a delta was dropped. -/
  lagged : Bool
  deriving DecidableEq

namespace Subscription

/-- A new subscription has room for one delta at least. -/
def new (interest : Interest) (capacity : ℤ) (overflow : Overflow) : Subscription where
  interest := interest
  capacity := max 1 capacity
  overflow := overflow
  queue := []
  closed := false
  lagged := false

/-- Merge a delta into the tail of the queue. -/
def coalesceIntoTail (sub : Subscription) (incoming : Delta) : Subscription :=
  { sub with queue := mergeLast Delta.merge incoming sub.queue }

/-- The locked part of an offer, and whether the offering thread has to close
the subscription afterwards. -/
def offer (sub : Subscription) (delta : Delta) : Subscription × Bool :=
  if sub.closed then (sub, false)
  else if (sub.queue.length : ℤ) < sub.capacity then
    ({ sub with queue := sub.queue ++ [delta] }, false)
  else
    match sub.overflow with
    | .coalesce => (sub.coalesceIntoTail delta, false)
    | .errorAndClose => ({ sub with lagged := true }, true)
    | .dropAndMarkLagged => ({ sub with lagged := true }, false)

/-- What a poll takes once it has waited. -/
def poll (sub : Subscription) : Option Delta × Subscription :=
  match sub.queue with
  | [] => (none, sub)
  | delta :: queue => (some delta, { sub with queue := queue })

/-- How an iteration step ends. -/
inductive Iteration
  | waiting
  | stop
  | item (delta : Delta) (sub : Subscription)

/-- The next delta of the iterator: it waits while the subscription is open
and empty and stops when it is closed and empty. -/
def next (sub : Subscription) : Iteration :=
  match sub.queue with
  | [] => if sub.closed then .stop else .waiting
  | delta :: queue => .item delta { sub with queue := queue }

/-- The first locked part of a close, and whether the call goes on to release
the queue. -/
def beginClose (sub : Subscription) : Subscription × Bool :=
  if sub.closed then (sub, false) else ({ sub with closed := true }, true)

/-- The last locked part of a close. -/
def releaseQueue (sub : Subscription) : Subscription := { sub with queue := [] }

end Subscription

/-! ## Producer and consumers at one subscription -/

/-- A subscription with the calls under way and what went through it. -/
structure Endpoint where
  /-- The subscription. -/
  sub : Subscription
  /-- Offers that still have to close the subscription. -/
  owedCloses : ℕ
  /-- Closes that still have to release the queue. -/
  owedReleases : ℕ
  /-- Every delta offered, in order. -/
  offered : List Delta
  /-- Every delta polled, in order. -/
  polled : List Delta

/-- What the threads at a subscription do next. -/
inductive Step
  /-- The bus offers a delta. -/
  | offer (delta : Delta)
  /-- A consumer polls. -/
  | poll
  /-- A consumer iterates. -/
  | next
  /-- An overflowing offer closes the subscription. -/
  | beginClose
  /-- A close releases the queue. -/
  | releaseQueue

/-- An endpoint before anything was offered. -/
def Endpoint.new (interest : Interest) (capacity : ℤ) (overflow : Overflow) : Endpoint where
  sub := Subscription.new interest capacity overflow
  owedCloses := 0
  owedReleases := 0
  offered := []
  polled := []

/-- One locked region is run. A close is run only by an offer that owes it. -/
def takeStep (s : Endpoint) : Step → Endpoint
  | .offer delta =>
    let (sub, shouldClose) := s.sub.offer delta
    { s with
      sub := sub
      owedCloses := if shouldClose then s.owedCloses + 1 else s.owedCloses
      offered := s.offered ++ [delta] }
  | .poll =>
    let (taken, sub) := s.sub.poll
    { s with sub := sub, polled := s.polled ++ taken.toList }
  | .next =>
    match s.sub.next with
    | .waiting | .stop => s
    | .item delta sub => { s with sub := sub, polled := s.polled ++ [delta] }
  | .beginClose =>
    match s.owedCloses with
    | 0 => s
    | owed + 1 =>
      let (sub, goesOn) := s.sub.beginClose
      { s with
        sub := sub
        owedCloses := owed
        owedReleases := if goesOn then s.owedReleases + 1 else s.owedReleases }
  | .releaseQueue =>
    match s.owedReleases with
    | 0 => s
    | owed + 1 => { s with sub := s.sub.releaseQueue, owedReleases := owed }

/-- The deltas offered in a run. -/
def offersOf (steps : List Step) : List Delta :=
  steps.filterMap fun
    | .offer delta => some delta
    | _ => none

/-- An offer that finds an open subscription with a full queue. -/
def Overflows (s : Endpoint) (step : Step) : Prop :=
  (∃ delta, step = .offer delta) ∧ s.sub.closed = false ∧
    s.sub.capacity ≤ (s.sub.queue.length : ℤ)

/-- What went through an endpoint. -/
def Endpoint.account (s : Endpoint) : Account Delta := ⟨s.offered, s.polled, s.sub.queue⟩

/-! ## What a step does -/

/-- Everything a step can do. -/
inductive Effect (s : Endpoint) : Step → Endpoint → Prop
  /-- A closed subscription ignores an offer. -/
  | ignored (delta : Delta) (hclosed : s.sub.closed = true) :
      Effect s (.offer delta) { s with offered := s.offered ++ [delta] }
  /-- There is room for an offer. -/
  | queued (delta : Delta) (hopen : s.sub.closed = false)
      (hroom : (s.sub.queue.length : ℤ) < s.sub.capacity) :
      Effect s (.offer delta)
        { s with
          sub := { s.sub with queue := s.sub.queue ++ [delta] }
          offered := s.offered ++ [delta] }
  /-- A full queue merges an offer. -/
  | merged (delta : Delta) (hopen : s.sub.closed = false)
      (hfull : s.sub.capacity ≤ (s.sub.queue.length : ℤ)) (hpolicy : s.sub.overflow = .coalesce) :
      Effect s (.offer delta)
        { s with
          sub := { s.sub with queue := mergeLast Delta.merge delta s.sub.queue }
          offered := s.offered ++ [delta] }
  /-- A full queue drops an offer. -/
  | dropped (delta : Delta) (hopen : s.sub.closed = false)
      (hfull : s.sub.capacity ≤ (s.sub.queue.length : ℤ))
      (hpolicy : s.sub.overflow = .dropAndMarkLagged) :
      Effect s (.offer delta)
        { s with sub := { s.sub with lagged := true }, offered := s.offered ++ [delta] }
  /-- A full queue drops an offer, which then closes the subscription. -/
  | failed (delta : Delta) (hopen : s.sub.closed = false)
      (hfull : s.sub.capacity ≤ (s.sub.queue.length : ℤ))
      (hpolicy : s.sub.overflow = .errorAndClose) :
      Effect s (.offer delta)
        { s with
          sub := { s.sub with lagged := true }
          owedCloses := s.owedCloses + 1
          offered := s.offered ++ [delta] }
  /-- A consumer takes the oldest delta. -/
  | taken (step : Step) (hstep : ∀ delta, step ≠ .offer delta) (delta : Delta) (rest : List Delta)
      (hqueue : s.sub.queue = delta :: rest) :
      Effect s step { s with sub := { s.sub with queue := rest }, polled := s.polled ++ [delta] }
  /-- Nothing happens. -/
  | idle (step : Step) (hstep : ∀ delta, step ≠ .offer delta) : Effect s step s
  /-- An owed close closes the subscription. -/
  | closes (owed : ℕ) (howed : s.owedCloses = owed + 1) (hopen : s.sub.closed = false) :
      Effect s .beginClose
        { s with
          sub := { s.sub with closed := true }
          owedCloses := owed
          owedReleases := s.owedReleases + 1 }
  /-- An owed close finds the subscription closed. -/
  | closedBefore (owed : ℕ) (howed : s.owedCloses = owed + 1) (hclosed : s.sub.closed = true) :
      Effect s .beginClose { s with owedCloses := owed }
  /-- A close releases the queue. -/
  | releases (owed : ℕ) (howed : s.owedReleases = owed + 1) :
      Effect s .releaseQueue
        { s with sub := { s.sub with queue := [] }, owedReleases := owed }

/-- Every offer has one of these effects. -/
theorem takeStep_offer_effect (s : Endpoint) (delta : Delta) :
    Effect s (.offer delta) (takeStep s (.offer delta)) := by
  by_cases hclosed : s.sub.closed = true
  · have hoffer : s.sub.offer delta = (s.sub, false) := if_pos hclosed
    simp only [takeStep, hoffer]
    exact .ignored delta hclosed
  have hopen : s.sub.closed = false := Bool.eq_false_iff.mpr hclosed
  by_cases hroom : (s.sub.queue.length : ℤ) < s.sub.capacity
  · have hoffer : s.sub.offer delta = ({ s.sub with queue := s.sub.queue ++ [delta] }, false) := by
      rw [Subscription.offer, if_neg hclosed, if_pos hroom]
    simp only [takeStep, hoffer]
    exact .queued delta hopen hroom
  have hfull : s.sub.capacity ≤ (s.sub.queue.length : ℤ) := by omega
  rcases hpolicy : s.sub.overflow with _ | _ | _
  · have hoffer : s.sub.offer delta = (s.sub.coalesceIntoTail delta, false) := by
      simp only [Subscription.offer, if_neg hclosed, if_neg hroom, hpolicy]
    simp only [takeStep, hoffer]
    exact .merged delta hopen hfull hpolicy
  · have hoffer : s.sub.offer delta = ({ s.sub with lagged := true }, false) := by
      simp only [Subscription.offer, if_neg hclosed, if_neg hroom, hpolicy]
    simp only [takeStep, hoffer]
    exact .dropped delta hopen hfull hpolicy
  · have hoffer : s.sub.offer delta = ({ s.sub with lagged := true }, true) := by
      simp only [Subscription.offer, if_neg hclosed, if_neg hroom, hpolicy]
    simp only [takeStep, hoffer]
    exact .failed delta hopen hfull hpolicy

/-- Every step has one of these effects. -/
theorem takeStep_effect (s : Endpoint) (step : Step) : Effect s step (takeStep s step) := by
  cases step with
  | offer delta => exact takeStep_offer_effect s delta
  | poll =>
    cases hqueue : s.sub.queue with
    | nil =>
      have hpoll : s.sub.poll = (none, s.sub) := by rw [Subscription.poll, hqueue]
      simp only [takeStep, hpoll, Option.toList_none, List.append_nil]
      exact .idle _ fun _ => nofun
    | cons delta rest =>
      have hpoll : s.sub.poll = (some delta, { s.sub with queue := rest }) := by
        rw [Subscription.poll, hqueue]
      simp only [takeStep, hpoll, Option.toList_some]
      exact .taken .poll (fun _ => nofun) delta rest hqueue
  | next =>
    cases hqueue : s.sub.queue with
    | nil =>
      have hnext : takeStep s .next = s := by
        simp only [takeStep, Subscription.next, hqueue]
        cases s.sub.closed <;> rfl
      rw [hnext]
      exact .idle _ fun _ => nofun
    | cons delta rest =>
      have hnext : s.sub.next = .item delta { s.sub with queue := rest } := by
        rw [Subscription.next, hqueue]
      simp only [takeStep, hnext]
      exact .taken .next (fun _ => nofun) delta rest hqueue
  | beginClose =>
    cases howed : s.owedCloses with
    | zero =>
      simp only [takeStep, howed]
      exact .idle _ fun _ => nofun
    | succ owed =>
      by_cases hclosed : s.sub.closed = true
      · have hclose : s.sub.beginClose = (s.sub, false) := if_pos hclosed
        simp only [takeStep, howed, hclose]
        exact .closedBefore owed howed hclosed
      · have hclose : s.sub.beginClose = ({ s.sub with closed := true }, true) := if_neg hclosed
        simp only [takeStep, howed, hclose]
        exact .closes owed howed (Bool.eq_false_iff.mpr hclosed)
  | releaseQueue =>
    cases howed : s.owedReleases with
    | zero =>
      simp only [takeStep, howed]
      exact .idle _ fun _ => nofun
    | succ owed =>
      simp only [takeStep, howed]
      exact .releases owed howed

/-- A step changes neither the interest nor the settings. -/
theorem Effect.frame {s t : Endpoint} {step : Step} (h : Effect s step t) :
    t.sub.interest = s.sub.interest ∧ t.sub.capacity = s.sub.capacity ∧
      t.sub.overflow = s.sub.overflow := by
  cases h <;> exact ⟨rfl, rfl, rfl⟩

/-- An open subscription was open before and has no new queue to release. -/
theorem Effect.opened {s t : Endpoint} {step : Step} (h : Effect s step t)
    (hopen : t.sub.closed = false) :
    s.sub.closed = false ∧ t.owedReleases ≤ s.owedReleases := by
  cases h with
  | closes => exact absurd hopen (by simp)
  | releases owed howed => exact ⟨hopen, by simp only; omega⟩
  | _ => exact ⟨hopen, le_refl _⟩

/-- What a step does to the account, and when it merges, drops or empties. -/
theorem Effect.move {s t : Endpoint} {step : Step} (h : Effect s step t)
    (hpos : 1 ≤ s.sub.capacity) :
    ∃ kind, Move Delta.merge kind s.account t.account ∧
      (kind = .merge → s.sub.overflow = .coalesce) ∧
      (kind = .leave → s.sub.closed = true ∨
        (Overflows s step ∧ s.sub.overflow ≠ .coalesce ∧ t.sub.lagged = true)) ∧
      (kind = .clear → 0 < s.owedReleases) ∧
      (Overflows s step → kind = .merge ∨ kind = .leave) := by
  cases h with
  | ignored delta hclosed =>
    exact ⟨.leave, .leave delta, nofun, fun _ => Or.inl hclosed, nofun, fun _ => Or.inr rfl⟩
  | queued delta _ hroom =>
    refine ⟨.receive, .receive delta, nofun, nofun, nofun, fun hover => ?_⟩
    exact absurd hover.2.2 (not_le.mpr hroom)
  | merged delta _ hfull hpolicy =>
    have hne : s.sub.queue ≠ [] := by
      intro hempty
      rw [hempty, List.length_nil] at hfull
      omega
    refine ⟨.merge, ?_, fun _ => hpolicy, nofun, nofun, fun _ => Or.inl rfl⟩
    have hsplit := List.dropLast_append_getLast hne
    have hmerged := mergeLast_concat Delta.merge delta (s.sub.queue.getLast hne) s.sub.queue.dropLast
    rw [hsplit] at hmerged
    rw [hmerged]
    exact .merge delta _ _ hsplit.symm
  | dropped delta hopen hfull hpolicy =>
    have hover : Overflows s (.offer delta) := ⟨⟨delta, rfl⟩, hopen, hfull⟩
    refine ⟨.leave, .leave delta, nofun, fun _ => Or.inr ⟨hover, ?_, rfl⟩, nofun,
      fun _ => Or.inr rfl⟩
    rw [hpolicy]
    nofun
  | failed delta hopen hfull hpolicy =>
    have hover : Overflows s (.offer delta) := ⟨⟨delta, rfl⟩, hopen, hfull⟩
    refine ⟨.leave, .leave delta, nofun, fun _ => Or.inr ⟨hover, ?_, rfl⟩, nofun,
      fun _ => Or.inr rfl⟩
    rw [hpolicy]
    nofun
  | taken step hstep delta rest hqueue =>
    refine ⟨.take, .take delta rest hqueue, nofun, nofun, nofun, ?_⟩
    rintro ⟨⟨offer, hoffer⟩, -⟩
    exact absurd hoffer (hstep offer)
  | idle _ hstep =>
    refine ⟨.idle, .idle, nofun, nofun, nofun, ?_⟩
    rintro ⟨⟨offer, hoffer⟩, -⟩
    exact absurd hoffer (hstep offer)
  | closes | closedBefore =>
    refine ⟨.idle, .idle, nofun, nofun, nofun, ?_⟩
    rintro ⟨⟨offer, hoffer⟩, -⟩
    exact absurd hoffer (by simp)
  | releases owed howed =>
    refine ⟨.clear, .clear, nofun, nofun, fun _ => by omega, ?_⟩
    rintro ⟨⟨offer, hoffer⟩, -⟩
    exact absurd hoffer (by simp)

/-! ## Invariants -/

/-- What holds of an endpoint at every moment. -/
structure Sound (capacity : ℤ) (overflow : Overflow) (s : Endpoint) : Prop where
  /-- The bound of the queue is the one asked for, and at least one. -/
  bound : s.sub.capacity = max 1 capacity
  /-- The policy stays. -/
  policy : s.sub.overflow = overflow
  /-- The queue keeps its bound. -/
  length : (s.sub.queue.length : ℤ) ≤ s.sub.capacity
  /-- Only one policy closes. -/
  opened : overflow ≠ .errorAndClose →
    s.sub.closed = false ∧ s.owedCloses = 0 ∧ s.owedReleases = 0
  /-- Under that policy an overflow closes or is about to. -/
  closing : overflow = .errorAndClose → s.sub.lagged = true →
    0 < s.owedCloses ∨ s.sub.closed = true
  /-- A closed subscription has released its queue or is about to. -/
  emptied : s.sub.closed = true → 0 < s.owedReleases ∨ s.sub.queue = []

theorem sound_new (interest : Interest) (capacity : ℤ) (overflow : Overflow) :
    Sound capacity overflow (Endpoint.new interest capacity overflow) where
  bound := rfl
  policy := rfl
  length := by
    have hpos : (1 : ℤ) ≤ max 1 capacity := le_max_left 1 capacity
    simp only [Endpoint.new, Subscription.new, List.length_nil]
    omega
  opened _ := ⟨rfl, rfl, rfl⟩
  closing _ := nofun
  emptied := nofun

theorem Sound.pos {capacity : ℤ} {overflow : Overflow} {s : Endpoint}
    (h : Sound capacity overflow s) : 1 ≤ s.sub.capacity := by
  rw [h.bound]
  exact le_max_left 1 capacity

/-- The invariant is kept. -/
theorem Effect.sound {capacity : ℤ} {overflow : Overflow} {s t : Endpoint} {step : Step}
    (h : Effect s step t) (hs : Sound capacity overflow s) : Sound capacity overflow t := by
  cases h with
  | ignored delta => exact ⟨hs.bound, hs.policy, hs.length, hs.opened, hs.closing, hs.emptied⟩
  | queued delta hopen hroom =>
    refine ⟨hs.bound, hs.policy, ?_, hs.opened, hs.closing, ?_⟩
    · simp only [List.length_append, List.length_singleton, Nat.cast_add, Nat.cast_one]
      omega
    · intro hclosed
      rw [hopen] at hclosed
      exact absurd hclosed (by simp)
  | merged delta hopen hfull =>
    have hpos := hs.pos
    have hne : s.sub.queue ≠ [] := by
      intro hempty
      rw [hempty, List.length_nil] at hfull
      omega
    refine ⟨hs.bound, hs.policy, ?_, hs.opened, hs.closing, ?_⟩
    · simp only [length_mergeLast _ _ hne]
      exact hs.length
    · intro hclosed
      rw [hopen] at hclosed
      exact absurd hclosed (by simp)
  | dropped delta hopen hfull hpolicy =>
    refine ⟨hs.bound, hs.policy, hs.length, hs.opened, ?_, hs.emptied⟩
    intro herror
    rw [hs.policy, herror] at hpolicy
    exact absurd hpolicy (by simp)
  | failed delta hopen hfull hpolicy =>
    refine ⟨hs.bound, hs.policy, hs.length, ?_, fun _ _ => Or.inl (Nat.succ_pos _), hs.emptied⟩
    intro hne
    exact absurd (hs.policy.symm.trans hpolicy) hne
  | taken step _ delta rest hqueue =>
    refine ⟨hs.bound, hs.policy, ?_, hs.opened, hs.closing, ?_⟩
    · have hlength := hs.length
      rw [hqueue, List.length_cons] at hlength
      push_cast at hlength
      simp only
      omega
    · intro hclosed
      rcases hs.emptied hclosed with howed | hempty
      · exact Or.inl howed
      · rw [hempty] at hqueue
        exact absurd hqueue (by simp)
  | idle => exact hs
  | closes owed howed hopen =>
    refine ⟨hs.bound, hs.policy, hs.length, ?_, fun _ _ => Or.inr rfl,
      fun _ => Or.inl (Nat.succ_pos _)⟩
    intro hne
    have hnone := (hs.opened hne).2.1
    omega
  | closedBefore owed howed hclosed =>
    refine ⟨hs.bound, hs.policy, hs.length, ?_, fun _ _ => Or.inr hclosed, hs.emptied⟩
    intro hne
    have hnone := (hs.opened hne).2.1
    omega
  | releases owed howed =>
    refine ⟨hs.bound, hs.policy, ?_, ?_, hs.closing, fun _ => Or.inr rfl⟩
    · have hpos := hs.pos
      simp only [List.length_nil, Nat.cast_zero]
      omega
    · intro hne
      have hnone := (hs.opened hne).2.2
      omega

/-- Where a full queue does not merge, the mark is set exactly by overflows. -/
theorem Effect.lagged {capacity : ℤ} {overflow : Overflow} {s t : Endpoint} {step : Step}
    (h : Effect s step t) (hs : Sound capacity overflow s) (hpolicy : overflow ≠ .coalesce) :
    t.sub.lagged = true ↔ s.sub.lagged = true ∨ Overflows s step := by
  unfold Overflows
  cases h with
  | ignored delta hclosed => simp [hclosed]
  | queued delta hopen hroom => simp [hroom]
  | merged delta _ _ hmerges => exact absurd (hs.policy.symm.trans hmerges) hpolicy
  | dropped delta hopen hfull => simp [hopen, hfull]
  | failed delta hopen hfull => simp [hopen, hfull]
  | taken step hstep => simp [hstep]
  | idle _ hstep => simp [hstep]
  | closes => simp
  | closedBefore => simp
  | releases => simp

/-! ## Laws of the queue -/

section Laws

variable {capacity : ℤ} {overflow : Overflow}

/-- An invariant kept by the effects of steps on sound endpoints holds with
the soundness after every run. -/
theorem sound_and_run {inv : Endpoint → Prop}
    (hkeep : ∀ s t step, Sound capacity overflow s → Effect s step t → inv s → inv t)
    (interest : Interest) (hnew : inv (Endpoint.new interest capacity overflow))
    (steps : List Step) :
    Sound capacity overflow (run takeStep (Endpoint.new interest capacity overflow) steps) ∧
      inv (run takeStep (Endpoint.new interest capacity overflow) steps) := by
  have hstep : ∀ s step, Sound capacity overflow s ∧ inv s → True →
      Sound capacity overflow (takeStep s step) ∧ inv (takeStep s step) := fun s step h _ =>
    ⟨(takeStep_effect s step).sound h.1, hkeep s _ step h.1 (takeStep_effect s step) h.2⟩
  exact invariant_run hstep ⟨sound_new interest capacity overflow, hnew⟩
    (along_of_forall fun _ _ => trivial)

/-- The invariant holds after every run. -/
theorem sound_run (interest : Interest) (capacity : ℤ) (overflow : Overflow) (steps : List Step) :
    Sound capacity overflow (run takeStep (Endpoint.new interest capacity overflow) steps) := by
  have hkeep : ∀ s t step, Sound capacity overflow s → Effect s step t → True → True :=
    fun _ _ _ _ _ => id
  exact (sound_and_run hkeep interest trivial steps).1

/-- A step records the delta it offers. -/
theorem takeStep_offered (s : Endpoint) (step : Step) :
    (takeStep s step).offered = s.offered ++ offersOf [step] := by
  have heffect := takeStep_effect s step
  generalize takeStep s step = t at heffect
  cases heffect with
  | taken step hstep =>
    cases step with
    | offer delta => exact absurd rfl (hstep delta)
    | _ => exact (List.append_nil _).symm
  | idle _ hstep =>
    cases step with
    | offer delta => exact absurd rfl (hstep delta)
    | _ => exact (List.append_nil _).symm
  | closes | closedBefore | releases => exact (List.append_nil _).symm
  | _ => rfl

/-- The offers recorded are the offers of the run. -/
theorem offered_run (s : Endpoint) (steps : List Step) :
    (run takeStep s steps).offered = s.offered ++ offersOf steps := by
  induction steps generalizing s with
  | nil => exact (List.append_nil _).symm
  | cons step steps ih =>
    have happend : offersOf (step :: steps) = offersOf [step] ++ offersOf steps := by
      rw [← List.singleton_append, offersOf, List.filterMap_append]
      rfl
    rw [run_cons, ih, takeStep_offered, List.append_assoc, ← happend]

/-- Deltas come through in the order of their revisions. -/
theorem Effect.inOrder {s t : Endpoint} {step : Step} (hpos : 1 ≤ s.sub.capacity)
    (h : Effect s step t)
    (hb : Rising Delta.revision s.offered → InOrder Delta.revision s.account)
    (hrising : Rising Delta.revision t.offered) : InOrder Delta.revision t.account := by
  obtain ⟨kind, hmove, -⟩ := h.move hpos
  exact hmove.inOrder merge_revision hrising (hb (hmove.rising_offered hrising))

/-- Under the merging policy nothing is hidden: a quantity that merges unite
has the same join over what came through and over what was offered. -/
theorem Effect.joinOf {S : Type*} [SemilatticeSup S] [OrderBot S] {f : Delta → S}
    (hf : ∀ a b, f (a.merge b) = f a ⊔ f b) {s t : Endpoint} {step : Step}
    (hs : Sound capacity .coalesce s) (h : Effect s step t)
    (hb : joinOf f s.account.delivered = joinOf f s.account.offered) :
    joinOf f t.account.delivered = joinOf f t.account.offered := by
  obtain ⟨hopen, -, hreleases⟩ := hs.opened (by simp)
  obtain ⟨kind, hmove, -, hleave, hclear, -⟩ := h.move hs.pos
  refine hmove.joinOf_delivered hf (fun hkind => ?_) (fun hkind => ?_) hb
  · rcases hleave hkind with hclosed | ⟨-, hpolicy, -⟩
    · rw [hopen] at hclosed
      exact absurd hclosed (by simp)
    · exact hpolicy hs.policy
  · have hpos := hclear hkind
    omega

/-- At an open subscription every offer is covered by something that comes
through, as long as a full queue merges. -/
theorem Effect.covered {s t : Endpoint} {step : Step} (h : Effect s step t)
    (hpos : 1 ≤ s.sub.capacity) (hopen : s.sub.closed = false) (hreleases : s.owedReleases = 0)
    (hmerges : Overflows s step → s.sub.overflow = .coalesce)
    (hb : Covered Delta.Covers s.account) : Covered Delta.Covers t.account := by
  obtain ⟨kind, hmove, -, hleave, hclear, -⟩ := h.move hpos
  refine hmove.covered .refl (fun _ _ _ => .trans) .merge_left .merge_right (fun hkind => ?_)
    (fun hkind => ?_) hb
  · rcases hleave hkind with hclosed | ⟨hover, hpolicy, -⟩
    · rw [hopen] at hclosed
      exact absurd hclosed (by simp)
    · exact hpolicy (hmerges hover)
  · have howed := hclear hkind
    omega

/-- Under the merging policy nothing is hidden in any run. -/
theorem joinOf_run {S : Type*} [SemilatticeSup S] [OrderBot S] {f : Delta → S}
    (hf : ∀ a b, f (a.merge b) = f a ⊔ f b) (interest : Interest) (capacity : ℤ)
    (steps : List Step) :
    let s := run takeStep (Endpoint.new interest capacity .coalesce) steps
    joinOf f (s.polled ++ s.sub.queue) = joinOf f (offersOf steps) := by
  intro s
  have hoffered : s.offered = offersOf steps := offered_run _ steps
  have hjoin : Sound capacity .coalesce s ∧
      joinOf f s.account.delivered = joinOf f s.account.offered :=
    sound_and_run (fun _ _ _ hs h => h.joinOf hf hs) interest rfl steps
  rw [← hoffered]
  exact hjoin.2

/-- What came through is in order in every run whose offers are. -/
theorem inOrder_run (interest : Interest) (capacity : ℤ) (overflow : Overflow)
    {steps : List Step} (hrising : Rising Delta.revision (offersOf steps)) :
    InOrder Delta.revision
      (run takeStep (Endpoint.new interest capacity overflow) steps).account := by
  have hnew : Rising Delta.revision (Endpoint.new interest capacity overflow).offered →
      InOrder Delta.revision (Endpoint.new interest capacity overflow).account :=
    fun _ => inOrder_fresh
  have horder := (sound_and_run (fun _ _ _ hs h => h.inOrder hs.pos) interest hnew steps).2
  rw [offered_run] at horder
  exact horder hrising

/-- What holds of an endpoint under the dropping policy. -/
structure Drops (s : Endpoint) : Prop where
  /-- What came through is in order once the offers are. -/
  inOrder : Rising Delta.revision s.offered → InOrder Delta.revision s.account
  /-- What came through is a part of the offers. -/
  sublist : s.account.delivered.Sublist s.account.offered
  /-- Without the mark everything came through. -/
  complete : s.sub.lagged = false → s.account.delivered = s.account.offered
  /-- With the mark something did not. -/
  missing : Rising Delta.revision s.offered → s.sub.lagged = true →
    ∃ delta ∈ s.account.offered, delta ∉ s.account.delivered

theorem Effect.drops {s t : Endpoint} {step : Step} (hs : Sound capacity .dropAndMarkLagged s)
    (h : Effect s step t) (hb : Drops s) : Drops t := by
  obtain ⟨hopen, -, hreleases⟩ := hs.opened (by simp)
  have hlagged := h.lagged hs (by simp)
  obtain ⟨kind, hmove, hmerge, hleave, hclear, hover⟩ := h.move hs.pos
  have hnomerge : kind ≠ .merge := by
    intro hkind
    have hpolicy := hs.policy.symm.trans (hmerge hkind)
    exact absurd hpolicy (by simp)
  have hnoclear : kind ≠ .clear := by
    intro hkind
    have hpos := hclear hkind
    omega
  refine ⟨h.inOrder hs.pos hb.inOrder, hmove.sublist hnomerge hb.sublist, fun hmark => ?_,
    fun hrising hmark => ?_⟩
  · have hbefore : s.sub.lagged = false := by
      by_contra hne
      rw [hlagged.mpr (Or.inl (Bool.not_eq_false _ ▸ hne))] at hmark
      exact absurd hmark (by simp)
    refine hmove.delivered_eq hnomerge (fun hkind => ?_) hnoclear (hb.complete hbefore)
    rcases hleave hkind with hclosed | ⟨-, -, hset⟩
    · rw [hopen] at hclosed
      exact absurd hclosed (by simp)
    · rw [hset] at hmark
      exact absurd hmark (by simp)
  · have hordered := hb.inOrder (hmove.rising_offered hrising)
    rcases hlagged.mp hmark with hbefore | hnow
    · obtain ⟨delta, hoffered, hnot⟩ := hb.missing (hmove.rising_offered hrising) hbefore
      exact ⟨delta, hmove.mem_offered hoffered,
        hmove.not_mem_delivered hnomerge hrising hoffered hnot⟩
    · have hkind := (hover hnow).resolve_left hnomerge
      rw [hkind] at hmove
      exact hmove.exists_not_mem_delivered hrising hordered

theorem drops_run (interest : Interest) (capacity : ℤ) (steps : List Step) :
    Drops (run takeStep (Endpoint.new interest capacity .dropAndMarkLagged) steps) := by
  have hnew : Drops (Endpoint.new interest capacity .dropAndMarkLagged) :=
    ⟨fun _ => inOrder_fresh, List.Sublist.refl _, fun _ => rfl, fun _ => nofun⟩
  exact (sound_and_run (fun _ _ _ hs h => h.drops hs) interest hnew steps).2

/-- Where a full queue does not merge, the mark tells of an overflow. -/
theorem lagged_run (interest : Interest) (capacity : ℤ) (steps : List Step)
    (hpolicy : overflow ≠ .coalesce) :
    (run takeStep (Endpoint.new interest capacity overflow) steps).sub.lagged = true ↔
      Sometime takeStep Overflows (Endpoint.new interest capacity overflow) steps := by
  have hstep : ∀ s step, Sound capacity overflow s → True →
      Sound capacity overflow (takeStep s step) := fun s step h _ =>
    (takeStep_effect s step).sound h
  have hflag : ∀ s step, Sound capacity overflow s → True →
      ((takeStep s step).sub.lagged = true ↔ s.sub.lagged = true ∨ Overflows s step) :=
    fun s step h _ => (takeStep_effect s step).lagged h hpolicy
  have hnew : ¬ (Endpoint.new interest capacity overflow).sub.lagged = true := by
    simp [Endpoint.new, Subscription.new]
  have hrun := @flag_run _ _ takeStep (Sound capacity overflow) (fun _ _ => True) Overflows
    (fun s => s.sub.lagged = true) hstep hflag _ (sound_new interest capacity overflow) steps
    (along_of_forall fun _ _ => trivial)
  exact hrun.trans (or_iff_right hnew)

/-- Which deltas are merged, dropped or refused, over every run of offers and
polls in any order. -/
theorem subscription_queue_laws (interest : Interest) (capacity : ℤ) (overflow : Overflow)
    (steps : List Step) (hrising : Rising Delta.revision (offersOf steps)) :
    let start := Endpoint.new interest capacity overflow
    let s := run takeStep start steps
    (s.sub.queue.length : ℤ) ≤ max 1 capacity ∧
    Rising Delta.revision s.polled ∧
    (overflow = .coalesce →
      (∀ c : Category, joinOf (·.category c) (s.polled ++ s.sub.queue) =
        joinOf (·.category c) (offersOf steps)) ∧
      joinOf (·.rescan) (s.polled ++ s.sub.queue) = joinOf (·.rescan) (offersOf steps)) ∧
    (overflow = .dropAndMarkLagged →
      s.polled.Sublist (offersOf steps) ∧
      (s.sub.lagged = true ↔ ∃ delta ∈ offersOf steps, delta ∉ s.polled ++ s.sub.queue)) ∧
    (overflow = .errorAndClose →
      (s.sub.lagged = true ↔ Sometime takeStep Overflows start steps) ∧
      (s.sub.lagged = true → 0 < s.owedCloses ∨ s.sub.closed = true) ∧
      (s.sub.closed = true → 0 < s.owedReleases ∨ s.sub.queue = [])) := by
  intro start s
  have hoffered : s.offered = offersOf steps := offered_run start steps
  have hsound : Sound capacity overflow s := sound_run interest capacity overflow steps
  have hin : InOrder Delta.revision s.account := inOrder_run interest capacity overflow hrising
  refine ⟨hsound.bound ▸ hsound.length, (List.pairwise_append.mp hin.rising).1, ?_, ?_, ?_⟩
  · rintro rfl
    refine ⟨fun c => ?_, ?_⟩
    · exact joinOf_run (fun a b => merge_category a b c) interest capacity steps
    · exact joinOf_run merge_rescan interest capacity steps
  · rintro rfl
    have hdrops : Drops s := drops_run interest capacity steps
    refine ⟨?_, fun hmark => ?_, fun hmissing => ?_⟩
    · rw [← hoffered]
      exact (List.sublist_append_left _ _).trans hdrops.sublist
    · have hmissing := hdrops.missing (hoffered ▸ hrising) hmark
      rw [← hoffered]
      exact hmissing
    · by_contra hne
      have hcomplete := hdrops.complete (Bool.eq_false_iff.mpr hne)
      obtain ⟨delta, hdelta, hnot⟩ := hmissing
      rw [← hoffered] at hdelta
      change delta ∈ s.account.offered at hdelta
      rw [← hcomplete] at hdelta
      exact hnot hdelta
  · rintro rfl
    refine ⟨?_, hsound.closing rfl, hsound.emptied⟩
    exact lagged_run interest capacity steps (by simp)

/-- A delta that creates some ids. -/
private def creating (revision : ℕ) (ids : Finset String) : Delta :=
  ⟨revision, ids, ∅, ∅, ∅, ∅, ∅, false, ∅, ∅⟩

/-- Three offers and a poll at a queue for one delta: the merged delta names
what both waiting ones created. -/
theorem subscription_queue_laws_merging :
    let steps := [Step.offer (creating 2 {"a"}), .poll, .offer (creating 3 {"b"}),
      .offer (creating 5 {"c"})]
    let s := run takeStep (Endpoint.new Interest.ALL 0 .coalesce) steps
    s.sub.queue = [creating 5 {"b", "c"}] ∧
      joinOf (·.category .created) (s.polled ++ s.sub.queue) = {"a", "b", "c"} := by
  intro steps s
  have hrising : Rising Delta.revision (offersOf steps) := by
    unfold Rising
    decide
  have hlaws := subscription_queue_laws Interest.ALL 0 .coalesce steps hrising
  refine ⟨by decide, ?_⟩
  rw [(hlaws.2.2.1 rfl).1 .created]
  decide

end Laws

end Tyo3.Subscriptions
