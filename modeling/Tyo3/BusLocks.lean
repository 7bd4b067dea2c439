import Tyo3.LockedPrograms
import Tyo3.MessageBus

/-!
# The locks of the bus and of its subscriptions

Bus and subscriptions call each other: a publication offers to
subscriptions, an overflowing offer closes its subscription, and a close
unregisters at the bus. Every lock is acquired where the code acquires it.
With the locks free every call comes to its end, and what it does is one
function of the state. The exception is the subscription to a closed bus: it
closes the new subscription under the lock of the bus, and the close asks
for that lock again.
-/

namespace Tyo3.BusLocks

open BoundedQueues Deltas FiniteMaps LockedPrograms MessageBus Program Runs Subscriptions

/-- A later correction of the affected ids of a revision. -/
structure AffectedRefinement where
  /-- The corrected revision. -/
  revision : ℕ
  /-- The precise ids. -/
  narrowed : Finset String
  /-- Ids the published set had missed. -/
  added : Finset String
  deriving DecidableEq

/-- The news that a derived value was recomputed. -/
structure DerivedFresh where
  /-- The revision it was recomputed for. -/
  revision : ℕ
  /-- Its layer. -/
  layer : String
  /-- Its id. -/
  durableId : String
  deriving DecidableEq

/-- The lock of the bus and one for every subscription. -/
inductive BusLock
  | bus
  | sub (handle : ℕ)
  deriving DecidableEq

/-- A subscription with all three channels. -/
structure Delivery where
  /-- The delta channel. -/
  sub : Subscription
  /-- The refinement channel. -/
  refinements : List AffectedRefinement
  /-- The channel of recomputed values. -/
  derived : List DerivedFresh
  /-- Whether the subscription still knows its bus. -/
  attached : Bool

/-- A bus with every subscription it ever handed out. A handle is the
position of a subscription. -/
structure World where
  /-- Capacity of new subscriptions. -/
  capacity : ℤ
  /-- Overflow policy of new subscriptions. -/
  overflow : Overflow
  /-- The registry. -/
  bus : Bus
  /-- The subscriptions. -/
  deliveries : List Delivery

/-- A bus nobody subscribed to yet. -/
def World.new (capacity : ℤ) (overflow : Overflow) : World := ⟨capacity, overflow, Bus.new, []⟩

/-- Change one subscription. -/
def World.update (w : World) (handle : ℕ) (f : Delivery → Delivery) : World :=
  { w with deliveries := w.deliveries.modify handle f }

/-- Change the registry. -/
def World.onBus (w : World) (f : Bus → Bus) : World := { w with bus := f w.bus }

/-- A program over bus and subscriptions. Errors are their messages. -/
abbrev BusProgram := Program BusLock World String

/-- Whether a subscription is there and open. -/
def World.isOpen (w : World) (handle : ℕ) : Bool :=
  (w.deliveries[handle]?).any fun d => !d.sub.closed

/-! ## The programs -/

/-- Drop a subscription from the registry. -/
def unsubscribe (handle : ℕ) : BusProgram Unit :=
  withLock .bus (Program.update fun w =>
    ((), w.onBus fun bus => { bus with subs := bus.subs.erase handle }))

/-- The first locked part of a close: mark the subscription, and tell whether
it was open. -/
def markClosed (handle : ℕ) : BusProgram Bool :=
  withLock (.sub handle) (Program.update fun w =>
    (w.isOpen handle, w.update handle fun d => { d with sub := d.sub.beginClose.1 }))

/-- Leave the bus, if the subscription still knows it. -/
def leaveBus (handle : ℕ) : BusProgram Unit := do
  let attached ← gets fun w => (w.deliveries[handle]?).any Delivery.attached
  if attached then
    trying (unsubscribe handle)
    Program.update fun w => ((), w.update handle fun d => { d with attached := false })
  else pure ()

/-- The last locked part of a close. -/
def clearQueues (handle : ℕ) : BusProgram Unit :=
  withLock (.sub handle) (Program.update fun w => ((), w.update handle fun d =>
    { d with sub := d.sub.releaseQueue, refinements := [], derived := [] }))

/-- Close a subscription. It leaves the bus outside its own lock. -/
def closeSubscription (handle : ℕ) : BusProgram Unit := do
  let goesOn ← markClosed handle
  if goesOn then
    leaveBus handle
    clearQueues handle
  else pure ()

/-- Offer a delta; a subscription that overflows by closing is closed outside
its lock. -/
def offer (handle : ℕ) (delta : Delta) : BusProgram Unit := do
  let shouldClose ← withLock (.sub handle) (Program.update fun w =>
    ((w.deliveries[handle]?).any fun d => (d.sub.offer delta).2,
      w.update handle fun d => { d with sub := (d.sub.offer delta).1 }))
  if shouldClose then closeSubscription handle else pure ()

/-- Append to an advisory channel; the oldest message goes when there are too
many. -/
def keepNewest {α : Type} (capacity : ℤ) (queue : List α) (message : α) : List α :=
  if capacity < ((queue ++ [message]).length : ℤ) then (queue ++ [message]).drop 1
  else queue ++ [message]

/-- An open subscription takes a refinement. -/
def Delivery.takeRefinement (ref : AffectedRefinement) (d : Delivery) : Delivery :=
  if d.sub.closed then d
  else { d with refinements := keepNewest d.sub.capacity d.refinements ref }

/-- An open subscription takes the news of a recomputed value. -/
def Delivery.takeDerived (msg : DerivedFresh) (d : Delivery) : Delivery :=
  if d.sub.closed then d else { d with derived := keepNewest d.sub.capacity d.derived msg }

/-- Offer a refinement. -/
def offerRefinement (handle : ℕ) (ref : AffectedRefinement) : BusProgram Unit :=
  withLock (.sub handle) (Program.update fun w =>
    ((), w.update handle (Delivery.takeRefinement ref)))

/-- Offer the news of a recomputed value. -/
def offerDerived (handle : ℕ) (msg : DerivedFresh) : BusProgram Unit :=
  withLock (.sub handle) (Program.update fun w =>
    ((), w.update handle (Delivery.takeDerived msg)))

/-- The registration of a new subscription, under the lock of the bus. On a
closed bus the subscription is closed there and then. -/
def register (handle : ℕ) : BusProgram Unit := do
  let closed ← gets fun w => w.bus.closed
  if closed then closeSubscription handle
  else Program.update fun w =>
    ((), w.onBus fun bus => { bus with subs := insert handle bus.subs })

/-- Register a new subscriber. -/
def subscribe (interest : Interest) : BusProgram ℕ := do
  let handle ← Program.update fun w => (w.deliveries.length, { w with deliveries := w.deliveries ++
    [⟨Subscription.new interest w.capacity w.overflow, [], [], true⟩] })
  withLock .bus (register handle)
  pure handle

/-- The interest of a subscription. -/
def World.interestOf (w : World) (handle : ℕ) : Interest :=
  ((w.deliveries[handle]?).map fun d => d.sub.interest).getD {}

/-- Hand a published delta to one subscription if it concerns it. -/
def handOut (delta : Delta) (handle : ℕ) : BusProgram Unit := do
  let interest ← gets fun w => w.interestOf handle
  match delta.sliceFor interest with
  | some slice => offer handle slice
  | none => pure ()

/-- Publish a delta in revision order. -/
def publish (order : HashOrder ℕ) (delta : Delta) : BusProgram Unit := do
  let admission ← withLock .bus (Program.update fun w =>
    ((w.bus.accept delta).1, w.onBus fun bus => (bus.accept delta).2))
  match admission with
  | .skipped => pure ()
  | .refused message => raise message
  | .accepted subs => forEach (handOut delta) (order.order subs)

/-- The subscriptions an advisory message goes to: none when the bus is
closed. -/
def listeners (order : HashOrder ℕ) : BusProgram (List ℕ) :=
  withLock .bus (Program.update fun w =>
    (if w.bus.closed then [] else order.order w.bus.subs, w))

/-- Whether a refinement concerns an interest. -/
def refinementMatches (interest : Interest) (ref : AffectedRefinement) : Bool :=
  interest.all ||
    (decide (interest.ids ≠ ∅) && decide (interest.ids ∩ (ref.narrowed ∪ ref.added) ≠ ∅))

/-- Hand a refinement to one subscription if it concerns it. -/
def handOutRefinement (ref : AffectedRefinement) (handle : ℕ) : BusProgram Unit := do
  let interest ← gets fun w => w.interestOf handle
  if refinementMatches interest ref then offerRefinement handle ref else pure ()

/-- Publish a refinement. -/
def publishRefinement (order : HashOrder ℕ) (ref : AffectedRefinement) : BusProgram Unit := do
  let subs ← listeners order
  forEach (handOutRefinement ref) subs

/-- Whether a recomputed value concerns an interest. -/
def derivedMatches (interest : Interest) (msg : DerivedFresh) : Bool :=
  interest.all || (decide (interest.ids ≠ ∅) && decide (msg.durableId ∈ interest.ids)) ||
    (decide (interest.layers ≠ ∅) && decide (msg.layer ∈ interest.layers))

/-- Hand the news of a recomputed value to one subscription if it concerns
it. -/
def handOutDerived (msg : DerivedFresh) (handle : ℕ) : BusProgram Unit := do
  let interest ← gets fun w => w.interestOf handle
  if derivedMatches interest msg then offerDerived handle msg else pure ()

/-- Publish the news of a recomputed value. -/
def publishDerivedFresh (order : HashOrder ℕ) (msg : DerivedFresh) : BusProgram Unit := do
  let subs ← listeners order
  forEach (handOutDerived msg) subs

/-- Close the bus and then, outside its lock, every subscription. -/
def closeBus (order : HashOrder ℕ) : BusProgram Unit := do
  let subs ← withLock .bus (Program.update fun w =>
    if w.bus.closed then ([], w)
    else (order.order w.bus.subs, w.onBus fun bus => { bus with closed := true, subs := ∅ }))
  forEach (fun handle => trying (closeSubscription handle)) subs

/-- Take the next delta without waiting. -/
def poll (handle : ℕ) : BusProgram (Option Delta) :=
  withLock (.sub handle) (Program.update fun w =>
    ((w.deliveries[handle]?).bind fun d => d.sub.poll.1,
      w.update handle fun d => { d with sub := d.sub.poll.2 }))

/-! ## What the programs do with free locks -/

/-- A subscription that was closed. -/
def Delivery.shut (d : Delivery) : Delivery :=
  ⟨{ d.sub with closed := true, queue := [] }, [], [], false⟩

/-- Effect of a close. -/
def World.closeSub (w : World) (handle : ℕ) : World :=
  if w.isOpen handle then
    { w with
      bus := if (w.deliveries[handle]?).any Delivery.attached then
        { w.bus with subs := w.bus.subs.erase handle } else w.bus
      deliveries := w.deliveries.modify handle Delivery.shut }
  else w

/-- Effect of an offer. -/
def World.offerSub (w : World) (handle : ℕ) (delta : Delta) : World :=
  let offered := w.update handle fun d => { d with sub := (d.sub.offer delta).1 }
  if (w.deliveries[handle]?).any fun d => (d.sub.offer delta).2 then offered.closeSub handle
  else offered

section Effects

variable {held : Finset BusLock} {w : World} {handle : ℕ}

/-- A change is determined by what it does to the subscription it is about. -/
theorem modify_congr {deliveries : List Delivery} {f g : Delivery → Delivery}
    (h : ∀ d, deliveries[handle]? = some d → f d = g d) :
    deliveries.modify handle f = deliveries.modify handle g := by
  apply List.ext_getElem?
  intro i
  rw [List.getElem?_modify, List.getElem?_modify]
  cases hd : deliveries[i]? with
  | none => rfl
  | some d =>
    by_cases hi : handle = i
    · subst hi
      simp [h d hd]
    · simp [hi]

/-- The delivery of an open handle. -/
theorem exists_of_isOpen (h : w.isOpen handle = true) :
    ∃ d, w.deliveries[handle]? = some d ∧ d.sub.closed = false := by
  unfold World.isOpen at h
  cases hd : w.deliveries[handle]? with
  | none =>
    rw [hd] at h
    cases h
  | some d =>
    rw [hd] at h
    exact ⟨d, rfl, by simpa using h⟩

/-- A subscription marked closed, and whether it was open. -/
theorem markClosed_run (hsub : BusLock.sub handle ∉ held) (w : World) :
    markClosed handle held w = .returned (w.isOpen handle)
      (w.update handle fun d => { d with sub := d.sub.beginClose.1 }) :=
  withLock_update_of_free hsub _

/-- With the lock of the bus free, an attached subscription leaves the bus. -/
theorem leaveBus_run (hbus : BusLock.bus ∉ held) (w : World) :
    leaveBus handle held w = .returned ()
      (if (w.deliveries[handle]?).any Delivery.attached then
        (w.onBus fun bus => { bus with subs := bus.subs.erase handle }).update handle fun d =>
          { d with attached := false }
      else w) := by
  unfold leaveBus
  rw [gets_bind_run]
  split
  · have hleft : trying (unsubscribe handle) held w =
        .returned () (w.onBus fun bus => { bus with subs := bus.subs.erase handle }) :=
      trying_of_returned (withLock_update_of_free hbus _)
    rw [bind_of_returned hleft, update_run]
  · rfl

/-- With its own lock and the lock of the bus free, a close returns. -/
theorem closeSubscription_run (hbus : BusLock.bus ∉ held) (hsub : BusLock.sub handle ∉ held)
    (w : World) : closeSubscription handle held w = .returned () (w.closeSub handle) := by
  unfold closeSubscription World.closeSub
  rw [bind_of_returned (markClosed_run hsub w)]
  by_cases hopen : w.isOpen handle = true
  · obtain ⟨d, hd, hc⟩ := exists_of_isOpen hopen
    rw [if_pos hopen, if_pos hopen, bind_of_returned (leaveBus_run hbus _)]
    have hclear : ∀ v : World, clearQueues handle held v = .returned () (v.update handle fun d =>
        { d with sub := d.sub.releaseQueue, refinements := [], derived := [] }) :=
      fun v => withLock_update_of_free hsub _
    rw [hclear]
    have hbegin : d.sub.beginClose.1 = { d.sub with closed := true } := by
      simp [Subscription.beginClose, hc]
    have hattached : (((w.update handle fun d => { d with sub := d.sub.beginClose.1 }).deliveries[
        handle]?).any Delivery.attached) = d.attached := by
      simp [World.update, hd]
    have hbefore : ((w.deliveries[handle]?).any Delivery.attached) = d.attached := by
      rw [hd]
      rfl
    rw [hattached, hbefore]
    cases hon : d.attached with
    | true =>
      simp only [World.update, World.onBus, if_true, List.modify_modify_eq]
      congr 2
      refine modify_congr fun e he => ?_
      rw [hd] at he
      cases he
      simp [Delivery.shut, Subscription.releaseQueue, hbegin]
    | false =>
      simp only [World.update, Bool.false_eq_true, if_false, List.modify_modify_eq]
      congr 2
      refine modify_congr fun e he => ?_
      rw [hd] at he
      cases he
      simp [Delivery.shut, Subscription.releaseQueue, hbegin, hon]
  · rw [if_neg hopen, if_neg hopen, pure_run]
    have hsame : w.deliveries.modify handle (fun d => { d with sub := d.sub.beginClose.1 }) =
        w.deliveries := by
      refine (modify_congr (g := id) fun d hd => ?_).trans (List.modify_id handle w.deliveries)
      have hc : d.sub.closed = true := by
        unfold World.isOpen at hopen
        rw [hd] at hopen
        simpa using hopen
      simp [Subscription.beginClose, hc]
    unfold World.update
    rw [hsame]

/-- Under the lock of the bus the close of an attached open subscription
waits for ever. -/
theorem closeSubscription_deadlocks (hbus : BusLock.bus ∈ held)
    (hsub : BusLock.sub handle ∉ held) {d : Delivery} (hd : w.deliveries[handle]? = some d)
    (hc : d.sub.closed = false) (ha : d.attached = true) :
    ∃ w', closeSubscription handle held w = .deadlocked .bus w' := by
  have hopen : w.isOpen handle = true := by
    unfold World.isOpen
    rw [hd]
    simp [hc]
  have hon : (((w.update handle fun d => { d with sub := d.sub.beginClose.1 }).deliveries[
      handle]?).any Delivery.attached) = true := by
    simp [World.update, hd, ha]
  have hstuck : trying (unsubscribe handle) held
      (w.update handle fun d => { d with sub := d.sub.beginClose.1 }) =
      .deadlocked .bus (w.update handle fun d => { d with sub := d.sub.beginClose.1 }) := by
    unfold trying unsubscribe
    rw [withLock_of_held hbus]
  have hleave : leaveBus handle held
      (w.update handle fun d => { d with sub := d.sub.beginClose.1 }) =
      .deadlocked .bus (w.update handle fun d => { d with sub := d.sub.beginClose.1 }) := by
    unfold leaveBus
    rw [gets_bind_run, if_pos hon]
    exact bind_of_deadlocked hstuck
  refine ⟨w.update handle fun d => { d with sub := d.sub.beginClose.1 }, ?_⟩
  unfold closeSubscription
  rw [bind_of_returned (markClosed_run hsub w), if_pos hopen]
  exact bind_of_deadlocked hleave

/-- With both locks free an offer returns. -/
theorem offer_run (hbus : BusLock.bus ∉ held) (hsub : BusLock.sub handle ∉ held) (delta : Delta)
    (w : World) : offer handle delta held w = .returned () (w.offerSub handle delta) := by
  unfold offer World.offerSub
  rw [bind_of_returned (withLock_update_of_free hsub _)]
  dsimp only
  split
  · exact closeSubscription_run hbus hsub _
  · rfl

/-- Effect of handing out a delta. -/
def World.handDelta (delta : Delta) (w : World) (handle : ℕ) : World :=
  match delta.sliceFor (w.interestOf handle) with
  | some slice => w.offerSub handle slice
  | none => w

/-- Effect of handing out a refinement. -/
def World.handRefinement (ref : AffectedRefinement) (w : World) (handle : ℕ) : World :=
  if refinementMatches (w.interestOf handle) ref then
    w.update handle (Delivery.takeRefinement ref) else w

/-- Effect of handing out the news of a recomputed value. -/
def World.handDerived (msg : DerivedFresh) (w : World) (handle : ℕ) : World :=
  if derivedMatches (w.interestOf handle) msg then w.update handle (Delivery.takeDerived msg)
  else w

/-- With all locks free a delta is handed out. -/
theorem handOut_run (delta : Delta) (handle : ℕ) (w : World) :
    handOut delta handle ∅ w = .returned () (w.handDelta delta handle) := by
  unfold handOut World.handDelta
  rw [gets_bind_run]
  cases delta.sliceFor (w.interestOf handle) with
  | some slice => exact offer_run (Finset.notMem_empty _) (Finset.notMem_empty _) slice w
  | none => rfl

/-- With all locks free a refinement is handed out. -/
theorem handOutRefinement_run (ref : AffectedRefinement) (handle : ℕ) (w : World) :
    handOutRefinement ref handle ∅ w = .returned () (w.handRefinement ref handle) := by
  unfold handOutRefinement World.handRefinement
  rw [gets_bind_run]
  split
  · exact withLock_update_of_free (Finset.notMem_empty _) _
  · rfl

/-- With all locks free the news of a recomputed value is handed out. -/
theorem handOutDerived_run (msg : DerivedFresh) (handle : ℕ) (w : World) :
    handOutDerived msg handle ∅ w = .returned () (w.handDerived msg handle) := by
  unfold handOutDerived World.handDerived
  rw [gets_bind_run]
  split
  · exact withLock_update_of_free (Finset.notMem_empty _) _
  · rfl

end Effects

/-! ## Calls of one thread -/

/-- What a thread may call. -/
inductive Call
  | subscribe (interest : Interest)
  | publish (delta : Delta)
  | publishRefinement (ref : AffectedRefinement)
  | publishDerivedFresh (msg : DerivedFresh)
  | closeSubscription (handle : ℕ)
  | closeBus
  | poll (handle : ℕ)

/-- The program of a call; only a subscription has a handle to return. -/
def perform (order : HashOrder ℕ) : Call → BusProgram (Option ℕ)
  | .subscribe interest => do
    let handle ← subscribe interest
    pure (some handle)
  | .publish delta => do
    publish order delta
    pure none
  | .publishRefinement ref => do
    publishRefinement order ref
    pure none
  | .publishDerivedFresh msg => do
    publishDerivedFresh order msg
    pure none
  | .closeSubscription handle => do
    closeSubscription handle
    pure none
  | .closeBus => do
    closeBus order
    pure none
  | .poll handle => do
    let _ ← poll handle
    pure none

/-- A thread between two calls, or waiting for ever. -/
inductive Thread
  | running (w : World)
  | stuck (lock : BusLock) (w : World)

/-- One call after another. An error leaves the thread running. -/
def threadStep (order : HashOrder ℕ) : Thread → Call → Thread
  | .stuck lock w, _ => .stuck lock w
  | .running w, call => match perform order call ∅ w with
    | .returned _ w' => .running w'
    | .raised _ w' => .running w'
    | .deadlocked lock w' => .stuck lock w'

/-- The subscriptions that hear of an advisory message. -/
def World.listening (order : HashOrder ℕ) (w : World) : List ℕ :=
  if w.bus.closed then [] else order.order w.bus.subs

/-- Effect of a call that comes to its end. -/
def World.after (order : HashOrder ℕ) (w : World) : Call → World
  | .subscribe interest =>
    { w with
      bus := { w.bus with subs := insert w.deliveries.length w.bus.subs }
      deliveries := w.deliveries ++
        [⟨Subscription.new interest w.capacity w.overflow, [], [], true⟩] }
  | .publish delta =>
    match (w.bus.accept delta).1 with
    | .accepted subs => (order.order subs).foldl (World.handDelta delta)
        (w.onBus fun bus => (bus.accept delta).2)
    | _ => w
  | .publishRefinement ref => (w.listening order).foldl (World.handRefinement ref) w
  | .publishDerivedFresh msg => (w.listening order).foldl (World.handDerived msg) w
  | .closeSubscription handle => w.closeSub handle
  | .closeBus =>
    if w.bus.closed then w
    else (order.order w.bus.subs).foldl World.closeSub
      (w.onBus fun bus => { bus with closed := true, subs := ∅ })
  | .poll handle => w.update handle fun d => { d with sub := d.sub.poll.2 }

/-- A call is a subscription to a closed bus. -/
def SubscribesToClosed (w : World) (call : Call) : Prop :=
  (∃ interest, call = .subscribe interest) ∧ w.bus.closed = true

/-- A subscription to an open bus returns. -/
theorem subscribe_run (interest : Interest) {w : World} (hopen : w.bus.closed = false) :
    subscribe interest ∅ w = .returned w.deliveries.length
      { w with
        bus := { w.bus with subs := insert w.deliveries.length w.bus.subs }
        deliveries := w.deliveries ++
          [⟨Subscription.new interest w.capacity w.overflow, [], [], true⟩] } := by
  have hreg : withLock .bus (register w.deliveries.length) ∅
      { w with deliveries := w.deliveries ++
        [⟨Subscription.new interest w.capacity w.overflow, [], [], true⟩] } = .returned ()
      { w with
        bus := { w.bus with subs := insert w.deliveries.length w.bus.subs }
        deliveries := w.deliveries ++
          [⟨Subscription.new interest w.capacity w.overflow, [], [], true⟩] } := by
    rw [withLock_of_free (Finset.notMem_empty _)]
    unfold register
    rw [gets_bind_run, if_neg (by simp [hopen]), update_run]
    rfl
  unfold subscribe
  rw [update_bind_run]
  exact bind_of_returned hreg

/-- A subscription to a closed bus waits for the lock of the bus, which it
holds. -/
theorem subscribe_deadlocks (interest : Interest) {w : World} (hclosed : w.bus.closed = true) :
    ∃ w', subscribe interest ∅ w = .deadlocked .bus w' := by
  unfold subscribe
  rw [update_bind_run]
  dsimp only
  have hnew : (w.deliveries ++ [⟨Subscription.new interest w.capacity w.overflow, [], [],
      true⟩])[w.deliveries.length]? =
      some ⟨Subscription.new interest w.capacity w.overflow, [], [], true⟩ := by simp
  have hdead : ∃ w', closeSubscription w.deliveries.length (insert BusLock.bus ∅)
      { w with deliveries := w.deliveries ++
        [⟨Subscription.new interest w.capacity w.overflow, [], [], true⟩] } =
      .deadlocked .bus w' :=
    closeSubscription_deadlocks (Finset.mem_insert_self _ _) (by simp) hnew rfl rfl
  obtain ⟨w', hw'⟩ := hdead
  refine ⟨w', bind_of_deadlocked ?_⟩
  rw [withLock_of_free (Finset.notMem_empty _)]
  unfold register
  rw [gets_bind_run, if_pos hclosed]
  exact hw'

/-- The close of a bus returns. -/
theorem closeBus_run (order : HashOrder ℕ) (w : World) :
    closeBus order ∅ w = .returned () (w.after order .closeBus) := by
  have hloop : ∀ (subs : List ℕ) (v : World),
      forEach (fun handle => trying (closeSubscription handle)) subs ∅ v =
        .returned () (subs.foldl World.closeSub v) :=
    forEach_of_returned fun handle v => trying_of_returned
      (closeSubscription_run (Finset.notMem_empty _) (Finset.notMem_empty _) v)
  unfold closeBus World.after
  rw [bind_of_returned (withLock_update_of_free (Finset.notMem_empty _) _), hloop]
  by_cases hc : w.bus.closed = true
  · rw [if_pos hc, if_pos hc]
    rfl
  · rw [if_neg hc, if_neg hc]

/-- A publication returns, or raises when revisions come out of order. -/
theorem publish_run (order : HashOrder ℕ) (delta : Delta) (w : World) :
    publish order delta ∅ w = .returned () (w.after order (.publish delta)) ∨
      ∃ message, publish order delta ∅ w = .raised message (w.after order (.publish delta)) := by
  unfold publish World.after
  rw [bind_of_returned (withLock_update_of_free (Finset.notMem_empty _) _)]
  dsimp only
  have hsame : (∀ subs, (w.bus.accept delta).1 ≠ .accepted subs) →
      (w.onBus fun bus => (bus.accept delta).2) = w := by
    intro hno
    have hbus : (w.bus.accept delta).2 = w.bus := by
      unfold Bus.accept at hno ⊢
      split
      · rfl
      · split
        · rename_i h1 h2
          rw [if_neg h1, if_pos h2] at hno
          exact (hno _ rfl).elim
        · rfl
    unfold World.onBus
    dsimp only
    rw [hbus]
  cases had : (w.bus.accept delta).1 with
  | skipped =>
    left
    rw [hsame (by simp [had])]
    rfl
  | refused message =>
    right
    refine ⟨message, ?_⟩
    rw [hsame (by simp [had])]
    rfl
  | accepted subs =>
    left
    exact forEach_of_returned (fun handle v => handOut_run delta handle v) _ _

/-- How a call ends that is not a subscription to a closed bus. -/
theorem perform_run (order : HashOrder ℕ) {w : World} {call : Call}
    (h : ¬SubscribesToClosed w call) :
    (∃ value, perform order call ∅ w = .returned value (w.after order call)) ∨
      ∃ message, perform order call ∅ w = .raised message (w.after order call) := by
  have hfree : ∀ lock : BusLock, lock ∉ (∅ : Finset BusLock) := Finset.notMem_empty
  cases call with
  | subscribe interest =>
    have hopen : w.bus.closed = false := by
      cases hc : w.bus.closed with
      | false => rfl
      | true => exact (h ⟨⟨interest, rfl⟩, hc⟩).elim
    left
    exact ⟨some w.deliveries.length, bind_of_returned (subscribe_run interest hopen)⟩
  | publish delta =>
    rcases publish_run order delta w with hdone | ⟨message, hraised⟩
    · left
      exact ⟨none, bind_of_returned hdone⟩
    · right
      exact ⟨message, bind_of_raised hraised⟩
  | publishRefinement ref =>
    left
    refine ⟨none, ?_⟩
    have hlist : listeners order ∅ w = .returned (w.listening order) w :=
      withLock_update_of_free (hfree .bus) _
    have hall : publishRefinement order ref ∅ w =
        .returned () ((w.listening order).foldl (World.handRefinement ref) w) := by
      unfold publishRefinement
      rw [bind_of_returned hlist]
      exact forEach_of_returned (fun handle v => handOutRefinement_run ref handle v) _ w
    exact bind_of_returned hall
  | publishDerivedFresh msg =>
    left
    refine ⟨none, ?_⟩
    have hlist : listeners order ∅ w = .returned (w.listening order) w :=
      withLock_update_of_free (hfree .bus) _
    have hall : publishDerivedFresh order msg ∅ w =
        .returned () ((w.listening order).foldl (World.handDerived msg) w) := by
      unfold publishDerivedFresh
      rw [bind_of_returned hlist]
      exact forEach_of_returned (fun handle v => handOutDerived_run msg handle v) _ w
    exact bind_of_returned hall
  | closeSubscription handle =>
    left
    exact ⟨none, bind_of_returned (closeSubscription_run (hfree _) (hfree _) w)⟩
  | closeBus =>
    left
    exact ⟨none, bind_of_returned (closeBus_run order w)⟩
  | poll handle =>
    left
    exact ⟨none, bind_of_returned (withLock_update_of_free (hfree _) _)⟩

/-! ## What holds between calls -/

/-- Registry and subscriptions agree: an open subscription is registered, or
about to be closed, and a closed one is empty. -/
structure Tidy (pending : List ℕ) (w : World) : Prop where
  /-- Open subscriptions know their bus, which knows them. -/
  listed : ∀ (handle : ℕ) (d : Delivery), w.deliveries[handle]? = some d → d.sub.closed = false →
    d.attached = true ∧ (handle ∈ w.bus.subs ∨ handle ∈ pending)
  /-- Closed subscriptions have nothing to deliver. -/
  released : ∀ (handle : ℕ) (d : Delivery), w.deliveries[handle]? = some d → d.sub.closed = true →
    d.sub.queue = [] ∧ d.refinements = [] ∧ d.derived = []
  /-- Nobody is registered at a closed bus. -/
  retired : w.bus.closed = true → w.bus.subs = ∅

/-- A new bus is tidy. -/
theorem tidy_new (capacity : ℤ) (overflow : Overflow) : Tidy [] (World.new capacity overflow) where
  listed handle d hd := by simp [World.new] at hd
  released handle d hd := by simp [World.new] at hd
  retired h := by cases h

section Tidy

variable {pending : List ℕ} {w : World} {handle : ℕ}

/-- A change that closes nothing and leaves closed subscriptions alone. -/
theorem Tidy.update (h : Tidy pending w) {f : Delivery → Delivery}
    (hkeep : ∀ d, (f d).sub.closed = d.sub.closed ∧ (f d).attached = d.attached)
    (hclosed : ∀ d, d.sub.closed = true → d.sub.queue = [] ∧ d.refinements = [] ∧ d.derived = [] →
      (f d).sub.queue = [] ∧ (f d).refinements = [] ∧ (f d).derived = []) (handle : ℕ) :
    Tidy pending (w.update handle f) := by
  have hback : ∀ (i : ℕ) (d : Delivery), (w.update handle f).deliveries[i]? = some d →
      ∃ d₀, w.deliveries[i]? = some d₀ ∧ (d = d₀ ∨ d = f d₀) := by
    intro i d hd
    unfold World.update at hd
    rw [List.getElem?_modify, Option.map_eq_map, Option.map_eq_some_iff] at hd
    obtain ⟨d₀, hd₀, hd⟩ := hd
    refine ⟨d₀, hd₀, ?_⟩
    split at hd
    · exact Or.inr hd.symm
    · exact Or.inl hd.symm
  refine ⟨?_, ?_, h.retired⟩
  · intro i d hd hopen
    obtain ⟨d₀, hd₀, rfl | rfl⟩ := hback i d hd
    · exact h.listed i _ hd₀ hopen
    · rw [(hkeep d₀).1] at hopen
      rw [(hkeep d₀).2]
      exact h.listed i d₀ hd₀ hopen
  · intro i d hd hc
    obtain ⟨d₀, hd₀, rfl | rfl⟩ := hback i d hd
    · exact h.released i _ hd₀ hc
    · rw [(hkeep d₀).1] at hc
      exact hclosed d₀ hc (h.released i d₀ hd₀ hc)

/-- A close takes its subscription off the pending ones. -/
theorem Tidy.closeSub (h : Tidy (handle :: pending) w) : Tidy pending (w.closeSub handle) := by
  unfold World.closeSub
  split
  · rename_i hopen
    obtain ⟨d₀, hd₀, hc₀⟩ := exists_of_isOpen hopen
    have hattached : (w.deliveries[handle]?).any Delivery.attached = true := by
      rw [hd₀]
      exact (h.listed handle d₀ hd₀ hc₀).1
    rw [if_pos hattached]
    refine ⟨?_, ?_, ?_⟩
    · intro i d hd hopen'
      dsimp only at hd ⊢
      rw [List.getElem?_modify] at hd
      by_cases hi : handle = i
      · subst hi
        rw [hd₀] at hd
        simp only [if_true, Option.map_eq_map, Option.map_some, Option.some_inj] at hd
        rw [← hd] at hopen'
        cases hopen'
      · simp only [hi, if_false] at hd
        have hsame : w.deliveries[i]? = some d := by simpa using hd
        obtain ⟨ha, hin⟩ := h.listed i d hsame hopen'
        refine ⟨ha, ?_⟩
        rcases hin with hin | hin
        · exact Or.inl (Finset.mem_erase.mpr ⟨fun heq => hi heq.symm, hin⟩)
        · rcases List.mem_cons.mp hin with heq | hin
          · exact (hi heq.symm).elim
          · exact Or.inr hin
    · intro i d hd hclosed
      dsimp only at hd
      rw [List.getElem?_modify] at hd
      by_cases hi : handle = i
      · subst hi
        rw [hd₀] at hd
        simp only [if_true, Option.map_eq_map, Option.map_some, Option.some_inj] at hd
        rw [← hd]
        exact ⟨rfl, rfl, rfl⟩
      · simp only [hi, if_false] at hd
        have hsame : w.deliveries[i]? = some d := by simpa using hd
        exact h.released i d hsame hclosed
    · intro hclosed
      dsimp only at hclosed ⊢
      rw [h.retired hclosed]
      rfl
  · rename_i hshut
    refine ⟨?_, h.released, h.retired⟩
    intro i d hd hopen
    obtain ⟨ha, hin⟩ := h.listed i d hd hopen
    refine ⟨ha, hin.imp_right fun hin => ?_⟩
    rcases List.mem_cons.mp hin with rfl | hin
    · refine (hshut ?_).elim
      unfold World.isOpen
      rw [hd]
      simp [hopen]
    · exact hin

/-- Fewer pending closes are owed than may be. -/
theorem Tidy.weaken (h : Tidy [] w) (pending : List ℕ) : Tidy pending w where
  listed i d hd hopen := by
    obtain ⟨ha, hin⟩ := h.listed i d hd hopen
    exact ⟨ha, Or.inl (hin.resolve_right List.not_mem_nil)⟩
  released := h.released
  retired := h.retired

/-- What an offer leaves of a subscription before it closes it. -/
theorem offer_keeps (sub : Subscription) (delta : Delta) :
    (sub.offer delta).1.closed = sub.closed ∧
      (sub.closed = true → (sub.offer delta).1.queue = sub.queue) := by
  unfold Subscription.offer
  split
  · exact ⟨rfl, fun _ => rfl⟩
  · rename_i hopen
    have hno : sub.closed = true → False := fun h => hopen h
    split
    · exact ⟨rfl, fun h => (hno h).elim⟩
    · split
      · exact ⟨rfl, fun h => (hno h).elim⟩
      · exact ⟨rfl, fun h => (hno h).elim⟩
      · exact ⟨rfl, fun h => (hno h).elim⟩

/-- An offer keeps a tidy bus tidy. -/
theorem Tidy.offerSub (h : Tidy [] w) (handle : ℕ) (delta : Delta) :
    Tidy [] (w.offerSub handle delta) := by
  have hoffered : Tidy [] (w.update handle fun d => { d with sub := (d.sub.offer delta).1 }) := by
    refine h.update (f := fun d => { d with sub := (d.sub.offer delta).1 }) ?_ ?_ handle
    · exact fun d => ⟨(offer_keeps d.sub delta).1, rfl⟩
    · rintro d hc ⟨hq, hr, hd⟩
      exact ⟨((offer_keeps d.sub delta).2 hc).trans hq, hr, hd⟩
  unfold World.offerSub
  dsimp only
  split
  · exact (hoffered.weaken [handle]).closeSub
  · exact hoffered

/-- Handing out a delta keeps a tidy bus tidy. -/
theorem Tidy.handDelta (h : Tidy [] w) (delta : Delta) (handle : ℕ) :
    Tidy [] (w.handDelta delta handle) := by
  unfold World.handDelta
  split
  · exact h.offerSub handle _
  · exact h

/-- Handing out a refinement keeps a tidy bus tidy. -/
theorem Tidy.handRefinement (h : Tidy [] w) (ref : AffectedRefinement) (handle : ℕ) :
    Tidy [] (w.handRefinement ref handle) := by
  unfold World.handRefinement
  split
  · refine h.update (fun d => ?_) (fun d hc hnone => ?_) handle
    · unfold Delivery.takeRefinement
      split
      · exact ⟨rfl, rfl⟩
      · exact ⟨rfl, rfl⟩
    · unfold Delivery.takeRefinement
      rwa [if_pos hc]
  · exact h

/-- Handing out the news of a recomputed value keeps a tidy bus tidy. -/
theorem Tidy.handDerived (h : Tidy [] w) (msg : DerivedFresh) (handle : ℕ) :
    Tidy [] (w.handDerived msg handle) := by
  unfold World.handDerived
  split
  · refine h.update (fun d => ?_) (fun d hc hnone => ?_) handle
    · unfold Delivery.takeDerived
      split
      · exact ⟨rfl, rfl⟩
      · exact ⟨rfl, rfl⟩
    · unfold Delivery.takeDerived
      rwa [if_pos hc]
  · exact h

/-- What a tidy bus keeps in one step of a loop it keeps in the loop. -/
theorem tidy_foldl {effect : World → ℕ → World} (hstep : ∀ w i, Tidy [] w → Tidy [] (effect w i))
    (handles : List ℕ) {w : World} (h : Tidy [] w) : Tidy [] (handles.foldl effect w) := by
  induction handles generalizing w with
  | nil => exact h
  | cons i handles ih => exact ih (hstep w i h)

/-- Closing all pending subscriptions. -/
theorem tidy_closeAll (handles : List ℕ) {w : World} (h : Tidy handles w) :
    Tidy [] (handles.foldl World.closeSub w) := by
  induction handles generalizing w with
  | nil => exact h
  | cons i handles ih => exact ih h.closeSub

/-- A change of the registry that neither closes the bus nor drops anybody. -/
theorem Tidy.onBus (h : Tidy [] w) {f : Bus → Bus} (hclosed : (f w.bus).closed = w.bus.closed)
    (hsubs : (f w.bus).subs = w.bus.subs) : Tidy [] (w.onBus f) where
  listed i d hd hopen := by
    have hin := h.listed i d hd hopen
    unfold World.onBus
    dsimp only
    rwa [hsubs]
  released := h.released
  retired hc := by
    unfold World.onBus at hc ⊢
    dsimp only at hc ⊢
    rw [hsubs]
    exact h.retired (hclosed ▸ hc)

/-- The admission of a delta neither closes the bus nor drops anybody. -/
theorem accept_keeps (bus : Bus) (delta : Delta) :
    (bus.accept delta).2.closed = bus.closed ∧ (bus.accept delta).2.subs = bus.subs := by
  unfold Bus.accept
  split
  · exact ⟨rfl, rfl⟩
  · split
    · exact ⟨rfl, rfl⟩
    · exact ⟨rfl, rfl⟩

/-- Every call that comes to its end keeps a tidy bus tidy. -/
theorem Tidy.after (order : HashOrder ℕ) (h : Tidy [] w) {call : Call}
    (hcall : ¬SubscribesToClosed w call) : Tidy [] (w.after order call) := by
  cases call with
  | subscribe interest =>
    have hopen : ¬w.bus.closed = true := fun hc => hcall ⟨⟨interest, rfl⟩, hc⟩
    refine ⟨?_, ?_, fun hc => (hopen hc).elim⟩
    · intro i d hd hd'
      dsimp only [World.after] at hd ⊢
      rw [List.getElem?_append] at hd
      split at hd
      · obtain ⟨ha, hin⟩ := h.listed i d hd hd'
        exact ⟨ha, Or.inl (Finset.mem_insert_of_mem (hin.resolve_right List.not_mem_nil))⟩
      · rename_i hge
        rw [List.getElem?_singleton] at hd
        split at hd
        · rename_i hzero
          cases hd
          have hi : i = w.deliveries.length := by omega
          rw [hi]
          exact ⟨rfl, Or.inl (Finset.mem_insert_self _ _)⟩
        · cases hd
    · intro i d hd hd'
      dsimp only [World.after] at hd
      rw [List.getElem?_append] at hd
      split at hd
      · exact h.released i d hd hd'
      · rw [List.getElem?_singleton] at hd
        split at hd
        · cases hd
          cases hd'
        · cases hd
  | publish delta =>
    unfold World.after
    dsimp only
    split
    · exact tidy_foldl (fun w i hw => hw.handDelta delta i) _
        (h.onBus (accept_keeps _ _).1 (accept_keeps _ _).2)
    · exact h
  | publishRefinement ref => exact tidy_foldl (fun w i hw => hw.handRefinement ref i) _ h
  | publishDerivedFresh msg => exact tidy_foldl (fun w i hw => hw.handDerived msg i) _ h
  | closeSubscription handle => exact (h.weaken [handle]).closeSub
  | closeBus =>
    unfold World.after
    dsimp only
    split
    · exact h
    · refine tidy_closeAll _ ⟨?_, h.released, fun _ => rfl⟩
      intro i d hd hopen
      obtain ⟨ha, hin⟩ := h.listed i d hd hopen
      exact ⟨ha, Or.inr ((order.mem_order _ _).mpr (hin.resolve_right List.not_mem_nil))⟩
  | poll handle =>
    refine h.update (f := fun d => { d with sub := d.sub.poll.2 }) (fun d => ?_)
      (fun d hc hnone => ?_) handle
    · unfold Subscription.poll
      split
      · exact ⟨rfl, rfl⟩
      · exact ⟨rfl, rfl⟩
    · obtain ⟨hq, hr, hd⟩ := hnone
      refine ⟨?_, hr, hd⟩
      unfold Subscription.poll
      rw [hq]
      exact hq

end Tidy

/-! ## Closing -/

section Closing

variable {w : World}

/-- The close of a subscription does not open or close the bus. -/
@[simp] theorem closeSub_closed (w : World) (handle : ℕ) :
    (w.closeSub handle).bus.closed = w.bus.closed := by
  unfold World.closeSub
  split
  · dsimp only
    split
    · rfl
    · rfl
  · rfl

/-- A loop of steps that do not open or close the bus. -/
theorem closed_foldl {effect : World → ℕ → World}
    (hstep : ∀ w i, (effect w i).bus.closed = w.bus.closed) (handles : List ℕ) (w : World) :
    (handles.foldl effect w).bus.closed = w.bus.closed := by
  induction handles generalizing w with
  | nil => rfl
  | cons i handles ih => rw [List.foldl_cons, ih, hstep]

/-- A close of the bus closes it. -/
theorem closed_after_closeBus (order : HashOrder ℕ) (w : World) :
    (w.after order .closeBus).bus.closed = true := by
  unfold World.after
  dsimp only
  split
  · assumption
  · rw [closed_foldl closeSub_closed]
    rfl

/-- A closed bus stays closed. -/
theorem closed_after (order : HashOrder ℕ) (hclosed : w.bus.closed = true) (call : Call) :
    (w.after order call).bus.closed = true := by
  have hquiet : w.listening order = [] := if_pos hclosed
  cases call with
  | subscribe interest => exact hclosed
  | publish delta =>
    have hskip : (w.bus.accept delta).1 = .skipped := by
      unfold Bus.accept
      rw [if_pos (by simp [hclosed])]
    unfold World.after
    dsimp only
    rw [hskip]
    exact hclosed
  | publishRefinement ref =>
    unfold World.after
    rw [hquiet]
    exact hclosed
  | publishDerivedFresh msg =>
    unfold World.after
    rw [hquiet]
    exact hclosed
  | closeSubscription handle => exact (closeSub_closed w handle).trans hclosed
  | closeBus => exact closed_after_closeBus order w
  | poll handle => exact hclosed

/-- At a closed tidy bus every subscription is closed and empty. -/
theorem Tidy.silent (h : Tidy [] w) (hclosed : w.bus.closed = true) {handle : ℕ} {d : Delivery}
    (hd : w.deliveries[handle]? = some d) :
    d.sub.closed = true ∧ d.sub.queue = [] ∧ d.refinements = [] ∧ d.derived = [] := by
  have hshut : d.sub.closed = true := by
    cases hc : d.sub.closed with
    | true => rfl
    | false =>
      rcases (h.listed handle d hd hc).2 with hin | hin
      · rw [h.retired hclosed] at hin
        cases hin
      · cases hin
  exact ⟨hshut, h.released handle d hd hshut⟩

/-- A call that comes to its end leaves the thread running. -/
theorem threadStep_run (order : HashOrder ℕ) {call : Call} (hcall : ¬SubscribesToClosed w call) :
    threadStep order (.running w) call = .running (w.after order call) := by
  unfold threadStep
  dsimp only
  rcases perform_run order hcall with ⟨value, hdone⟩ | ⟨message, hraised⟩
  · rw [hdone]
  · rw [hraised]

end Closing

/-- A call is safe: it does not wait for a lock of its own thread, it returns
a closed subscription from a closed bus, and once the bus is closed nobody is
registered and nothing is delivered. -/
structure Safe (order : HashOrder ℕ) (w : World) (call : Call) : Prop where
  /-- The thread asks for no lock it holds. -/
  no_deadlock : ∀ lock w', perform order call ∅ w ≠ .deadlocked lock w'
  /-- A closed bus hands out closed subscriptions. -/
  closed_subscription : SubscribesToClosed w call → ∃ (handle : ℕ) (w' : World) (d : Delivery),
    perform order call ∅ w = .returned (some handle) w' ∧ w'.deliveries[handle]? = some d ∧
      d.sub.closed = true
  /-- A closed bus has no subscribers, and no subscription receives anything. -/
  silent : w.bus.closed = true ∨ call = .closeBus →
    ∀ w', threadStep order (.running w) call = .running w' →
      w'.bus.closed = true ∧ w'.bus.subs = ∅ ∧
      ∀ (handle : ℕ) (d : Delivery), w'.deliveries[handle]? = some d →
        d.sub.closed = true ∧ d.sub.queue = [] ∧ d.refinements = [] ∧ d.derived = []

/-- The thread is running and its next call is safe. -/
def SafeCall (order : HashOrder ℕ) : Thread → Call → Prop
  | .running w, call => Safe order w call
  | .stuck _ _, _ => False

/-- The next call is no subscription to a closed bus. -/
def FindsBusOpen : Thread → Call → Prop
  | .running w, call => ¬SubscribesToClosed w call
  | .stuck _ _, _ => False

/-- A subscription to a closed bus is not safe. -/
theorem not_safe_of_subscribesToClosed (order : HashOrder ℕ) {w : World} {call : Call}
    (h : SubscribesToClosed w call) : ¬Safe order w call := by
  obtain ⟨⟨interest, rfl⟩, hclosed⟩ := h
  intro hs
  obtain ⟨w', hw'⟩ := subscribe_deadlocks interest hclosed
  exact hs.no_deadlock .bus w' (bind_of_deadlocked hw')

/-- Every other call is safe. -/
theorem safe_of_not_subscribesToClosed (order : HashOrder ℕ) {w : World} (ht : Tidy [] w)
    {call : Call} (h : ¬SubscribesToClosed w call) : Safe order w call := by
  refine ⟨?_, fun hc => (h hc).elim, ?_⟩
  · intro lock w' hdead
    rcases perform_run order h with ⟨value, hdone⟩ | ⟨message, hraised⟩
    · rw [hdone] at hdead
      cases hdead
    · rw [hraised] at hdead
      cases hdead
  · intro hclosing w' hw'
    rw [threadStep_run order h] at hw'
    cases hw'
    have hclosed : (w.after order call).bus.closed = true := by
      rcases hclosing with hclosed | rfl
      · exact closed_after order hclosed call
      · exact closed_after_closeBus order w
    have hafter := ht.after order h
    exact ⟨hclosed, hafter.retired hclosed, fun handle d hd => hafter.silent hclosed hd⟩

/-- Along the calls of one thread every call is safe exactly when none of
them subscribes to a closed bus. -/
theorem bus_calls_safe_iff (order : HashOrder ℕ) (capacity : ℤ) (overflow : Overflow)
    (calls : List Call) :
    Along (threadStep order) (SafeCall order) (.running (World.new capacity overflow)) calls ↔
      Along (threadStep order) FindsBusOpen (.running (World.new capacity overflow)) calls := by
  have hrun : ∀ w, Tidy [] w → (Along (threadStep order) (SafeCall order) (.running w) calls ↔
      Along (threadStep order) FindsBusOpen (.running w) calls) := by
    induction calls with
    | nil => exact fun _ _ => Iff.rfl
    | cons call calls ih =>
      intro w ht
      by_cases hcall : SubscribesToClosed w call
      · exact iff_of_false (fun h => not_safe_of_subscribesToClosed order hcall h.1)
          (fun h => h.1 hcall)
      · unfold Along
        rw [threadStep_run order hcall, ih _ (ht.after order hcall)]
        exact and_congr_left fun _ =>
          iff_of_true (safe_of_not_subscribesToClosed order ht hcall) hcall
  exact hrun _ (tidy_new capacity overflow)

/-- A subscription to a closed bus: the thread waits for the lock of the bus
while it holds it. -/
theorem subscribe_to_closed_bus_hangs :
    (∃ w, run (threadStep HashOrder.increasing) (.running (World.new 1024 .coalesce))
      [.closeBus, .subscribe Interest.ALL] = .stuck .bus w) ∧
    ¬Along (threadStep HashOrder.increasing) (SafeCall HashOrder.increasing)
      (.running (World.new 1024 .coalesce)) [.closeBus, .subscribe Interest.ALL] := by
  refine ⟨⟨_, rfl⟩, ?_⟩
  intro hsafe
  exact not_safe_of_subscribesToClosed _ ⟨⟨Interest.ALL, rfl⟩, rfl⟩ hsafe.2.1

end Tyo3.BusLocks
