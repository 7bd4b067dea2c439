import Tyo3.Subscriptions

/-!
# The bus

The bus keeps the registered subscriptions and hands every published delta to
those that it concerns, cut down to their interest. The order of revisions is
checked under the lock of the bus; the deltas are handed out after it was
released.
-/

namespace Tyo3.MessageBus

open Deltas Subscriptions BoundedQueues Runs

/-- The registry of the bus. A subscription is known by its handle. -/
structure Bus where
  /-- Whether the bus is closed. -/
  closed : Bool
  /-- The last revision published. -/
  lastPublishedRevision : ℤ
  /-- The registered subscriptions. -/
  subs : Finset ℕ
  deriving DecidableEq

/-- A new bus. -/
def Bus.new : Bus := ⟨false, -1, ∅⟩

/-- What becomes of a delta at the lock of the bus. -/
inductive Admission
  /-- Nobody listens. -/
  | skipped
  /-- The order of revisions is broken. -/
  | refused (message : String)
  /-- The delta goes to the subscriptions registered now. -/
  | accepted (subs : Finset ℕ)
  deriving DecidableEq

/-- The locked part of a publication. -/
def Bus.accept (bus : Bus) (delta : Delta) : Admission × Bus :=
  if bus.closed || bus.subs = ∅ then (.skipped, bus)
  else if (delta.revision : ℤ) > bus.lastPublishedRevision then
    (.accepted bus.subs, { bus with lastPublishedRevision := delta.revision })
  else
    (.refused ("bus received revision " ++ toString delta.revision ++ " after " ++
      toString bus.lastPublishedRevision ++ " — revision order broken"), bus)

/-- Whether somebody listens. -/
def Bus.hasSubscribers (bus : Bus) : Bool := decide (0 < bus.subs.card)

/-- Hand a published delta to a subscription if it concerns it. -/
def fanOut (delta : Delta) (endpoint : Endpoint) : Endpoint :=
  match delta.sliceFor endpoint.sub.interest with
  | some slice => takeStep endpoint (.offer slice)
  | none => endpoint

/-- What becomes of a delta at an open bus with subscribers. -/
theorem accept_of_open {bus : Bus} (hopen : bus.closed = false) (hsubs : bus.subs ≠ ∅)
    (delta : Delta) :
    ((delta.revision : ℤ) > bus.lastPublishedRevision ∧
      bus.accept delta = (.accepted bus.subs, { bus with lastPublishedRevision := delta.revision })) ∨
    ((delta.revision : ℤ) ≤ bus.lastPublishedRevision ∧
      ∃ message, bus.accept delta = (.refused message, bus)) := by
  have hlistens : ¬ (bus.closed || decide (bus.subs = ∅)) = true := by simp [hopen, hsubs]
  unfold Bus.accept
  rw [if_neg hlistens]
  by_cases hlater : (delta.revision : ℤ) > bus.lastPublishedRevision
  · exact Or.inl ⟨hlater, if_pos hlater⟩
  · exact Or.inr ⟨by omega, _, if_neg hlater⟩

@[simp] theorem takeStep_interest (s : Endpoint) (step : Step) :
    (takeStep s step).sub.interest = s.sub.interest := (takeStep_effect s step).frame.1

@[simp] theorem fanOut_interest (delta : Delta) (endpoint : Endpoint) :
    (fanOut delta endpoint).sub.interest = endpoint.sub.interest := by
  unfold fanOut
  split
  · exact takeStep_interest endpoint _
  · rfl

/-- A subscription is offered exactly the slices for its interest. -/
theorem fanOut_offered (delta : Delta) (endpoint : Endpoint) :
    (fanOut delta endpoint).offered =
      endpoint.offered ++ (delta.sliceFor endpoint.sub.interest).toList := by
  unfold fanOut
  split
  · rename_i slice hslice
    rw [hslice]
    rfl
  · rename_i hslice
    rw [hslice]
    exact (List.append_nil _).symm

end Tyo3.MessageBus
