import Tyo3.FiniteMaps
import Tyo3.MessageBus

/-!
# Publication of committed revisions

A write commits natively and then runs its hook in its own thread: it drops
the cached snapshot, schedules the derived layers, which may raise, and
publishes on the bus. Commits are serialised, the hooks of different threads
are not. Every atomic part of a hook and every delivery to a subscription is
one step, so the hooks of any number of writers interleave in any order.
-/

namespace Tyo3.Publication

open Entities FiniteMaps Deltas Subscriptions MessageBus BoundedQueues Runs

/-- Where the hook of a commit stands. -/
inductive Phase
  /-- The cached snapshot is to be dropped. -/
  | committed (delta : Delta)
  /-- The derived layers are to be scheduled. -/
  | invalidated (delta : Delta)
  /-- The bus is to be asked for subscribers. -/
  | scheduled (delta : Delta)
  /-- The delta is to pass the lock of the bus. -/
  | checked (delta : Delta)
  /-- The delta is to be handed to these subscriptions. -/
  | offering (delta : Delta) (rest : Finset ℕ)
  deriving DecidableEq

/-- The delta of a hook. -/
def Phase.delta : Phase → Delta
  | .committed delta | .invalidated delta | .scheduled delta | .checked delta
  | .offering delta _ => delta

/-- The delta has not passed the lock of the bus. -/
def Phase.Unpublished : Phase → Prop
  | .offering _ _ => False
  | _ => True

/-- The hook may still hand its delta to a subscription. -/
def Phase.OwesTo (handle : ℕ) : Phase → Prop
  | .offering _ rest => handle ∈ rest
  | _ => True

instance : DecidablePred Phase.Unpublished
  | .committed _ | .invalidated _ | .scheduled _ | .checked _ => isTrue trivial
  | .offering _ _ => isFalse id

instance (handle : ℕ) : DecidablePred (Phase.OwesTo handle)
  | .committed _ | .invalidated _ | .scheduled _ | .checked _ => isTrue trivial
  | .offering _ rest => inferInstanceAs (Decidable (handle ∈ rest))

/-- A subscription with the revision at which it was registered. -/
structure Subscriber where
  /-- The subscription. -/
  endpoint : Endpoint
  /-- The head revision at the registration. -/
  since : Revision

/-- A session with its bus, its subscribers and the hooks under way. -/
structure Hub where
  /-- The head revision. -/
  head : Revision
  /-- The bus. -/
  bus : Bus
  /-- Bound of the queues. -/
  capacity : ℤ
  /-- Policy of full queues. -/
  overflow : Overflow
  /-- The subscribers by handle. -/
  subscribers : List Subscriber
  /-- The hooks under way by thread. -/
  writers : FMap ℕ Phase
  /-- The deltas of all commits, in order. -/
  committed : List Delta
  /-- The failed assertions of the bus. -/
  assertionErrors : List String

/-- A session with a bus that nobody listens to. -/
def Hub.opened (head : Revision) (capacity : ℤ) (overflow : Overflow) : Hub where
  head := head
  bus := Bus.new
  capacity := capacity
  overflow := overflow
  subscribers := []
  writers := ∅
  committed := []
  assertionErrors := []

/-- The next atomic step of some thread. -/
inductive HubStep
  /-- A writer commits; the commit gives the delta its revision. -/
  | commit (writer : ℕ) (content : Delta)
  /-- A hook drops the cached snapshot. -/
  | invalidate (writer : ℕ)
  /-- A hook schedules the derived layers. -/
  | schedule (writer : ℕ) (raises : Bool)
  /-- A hook asks the bus for subscribers. -/
  | check (writer : ℕ)
  /-- A hook passes the lock of the bus. -/
  | accept (writer : ℕ)
  /-- A hook hands its delta to a subscription. -/
  | offer (writer : ℕ) (handle : ℕ)
  /-- A hook has handed out its delta. -/
  | finish (writer : ℕ)
  /-- A subscriber registers. -/
  | subscribe (interest : Interest)
  /-- A subscription is polled or closes after an overflow. -/
  | consume (handle : ℕ) (step : Step)
  /-- A subscriber closes its subscription. -/
  | close (handle : ℕ)
  /-- A closed subscription is unregistered. -/
  | unsubscribe (handle : ℕ)

/-- A subscriber closes its subscription and has yet to release the queue. -/
def closeEndpoint (endpoint : Endpoint) : Endpoint :=
  let (sub, goesOn) := endpoint.sub.beginClose
  { endpoint with
    sub := sub
    owedReleases := if goesOn then endpoint.owedReleases + 1 else endpoint.owedReleases }

/-- Change the subscription of a subscriber. -/
def Subscriber.update (f : Endpoint → Endpoint) (subscriber : Subscriber) : Subscriber :=
  { subscriber with endpoint := f subscriber.endpoint }

/-- Set the phase of a hook. -/
def Hub.setPhase (s : Hub) (writer : ℕ) (phase : Phase) : Hub :=
  { s with writers := s.writers.insert writer phase }

/-- A hook is over. -/
def Hub.leave (s : Hub) (writer : ℕ) : Hub := { s with writers := s.writers.erase writer }

/-- One atomic step. A hook takes its steps in their order only. -/
def hubStep (s : Hub) : HubStep → Hub
  | .commit writer content =>
    match s.writers.lookup writer with
    | none =>
      let delta := { content with revision := s.head + 1 }
      { s with
        head := s.head + 1
        writers := s.writers.insert writer (.committed delta)
        committed := s.committed ++ [delta] }
    | some _ => s
  | .invalidate writer =>
    match s.writers.lookup writer with
    | some (.committed delta) => s.setPhase writer (.invalidated delta)
    | _ => s
  | .schedule writer raises =>
    match s.writers.lookup writer with
    | some (.invalidated delta) =>
      if raises then s.leave writer else s.setPhase writer (.scheduled delta)
    | _ => s
  | .check writer =>
    match s.writers.lookup writer with
    | some (.scheduled delta) =>
      if s.bus.hasSubscribers then s.setPhase writer (.checked delta) else s.leave writer
    | _ => s
  | .accept writer =>
    match s.writers.lookup writer with
    | some (.checked delta) =>
      match s.bus.accept delta with
      | (.skipped, _) => s.leave writer
      | (.refused message, _) =>
        { s.leave writer with assertionErrors := s.assertionErrors ++ [message] }
      | (.accepted subs, bus) => { s.setPhase writer (.offering delta subs) with bus := bus }
    | _ => s
  | .offer writer handle =>
    match s.writers.lookup writer with
    | some (.offering delta rest) =>
      if handle ∈ rest then
        { s.setPhase writer (.offering delta (rest.erase handle)) with
          subscribers := s.subscribers.modify handle (Subscriber.update (fanOut delta)) }
      else s
    | _ => s
  | .finish writer =>
    match s.writers.lookup writer with
    | some (.offering _ rest) => if rest = ∅ then s.leave writer else s
    | _ => s
  | .subscribe interest =>
    { s with
      subscribers := s.subscribers ++ [⟨Endpoint.new interest s.capacity s.overflow, s.head⟩]
      bus := { s.bus with subs := insert s.subscribers.length s.bus.subs } }
  | .consume handle step =>
    if offersOf [step] = [] then
      { s with subscribers := s.subscribers.modify handle (Subscriber.update (takeStep · step)) }
    else s
  | .close handle =>
    { s with subscribers := s.subscribers.modify handle (Subscriber.update closeEndpoint) }
  | .unsubscribe handle =>
    match s.subscribers[handle]? with
    | some subscriber =>
      if subscriber.endpoint.sub.closed then
        { s with bus := { s.bus with subs := s.bus.subs.erase handle } }
      else s
    | none => s

/-! ## What a step does -/

/-- Everything a step can do. -/
inductive HubEffect (s : Hub) : HubStep → Hub → Prop
  /-- The step is not the thread's next one. -/
  | idle (step : HubStep) : HubEffect s step s
  /-- A commit starts a hook. -/
  | commits (writer : ℕ) (content : Delta) (hidle : s.writers.lookup writer = none) :
      HubEffect s (.commit writer content)
        { s with
          head := s.head + 1
          writers := s.writers.insert writer (.committed { content with revision := s.head + 1 })
          committed := s.committed ++ [{ content with revision := s.head + 1 }] }
  /-- A hook goes on before it publishes. -/
  | advances (step : HubStep) (writer : ℕ) (phase phase' : Phase)
      (hphase : s.writers.lookup writer = some phase) (hdelta : phase'.delta = phase.delta)
      (hbefore : phase.Unpublished) (hafter : phase'.Unpublished) :
      HubEffect s step (s.setPhase writer phase')
  /-- The scheduling of the derived layers raises. -/
  | raises (writer : ℕ) (delta : Delta)
      (hphase : s.writers.lookup writer = some (.invalidated delta)) :
      HubEffect s (.schedule writer true) (s.leave writer)
  /-- Nobody listens. -/
  | skips (step : HubStep) (writer : ℕ) (phase : Phase)
      (hphase : s.writers.lookup writer = some phase)
      (hsubs : s.bus.closed = true ∨ s.bus.subs = ∅) : HubEffect s step (s.leave writer)
  /-- The bus refuses a delta. -/
  | refuses (writer : ℕ) (delta : Delta) (message : String)
      (hphase : s.writers.lookup writer = some (.checked delta))
      (hearlier : (delta.revision : ℤ) ≤ s.bus.lastPublishedRevision) :
      HubEffect s (.accept writer)
        { s.leave writer with assertionErrors := s.assertionErrors ++ [message] }
  /-- The bus accepts a delta for the subscriptions registered now. -/
  | accepts (writer : ℕ) (delta : Delta)
      (hphase : s.writers.lookup writer = some (.checked delta)) :
      HubEffect s (.accept writer)
        { s.setPhase writer (.offering delta s.bus.subs) with
          bus := { s.bus with lastPublishedRevision := delta.revision } }
  /-- A delta is handed to a subscription. -/
  | offers (writer : ℕ) (delta : Delta) (rest : Finset ℕ) (handle : ℕ)
      (hphase : s.writers.lookup writer = some (.offering delta rest)) (hrest : handle ∈ rest) :
      HubEffect s (.offer writer handle)
        { s.setPhase writer (.offering delta (rest.erase handle)) with
          subscribers := s.subscribers.modify handle (Subscriber.update (fanOut delta)) }
  /-- A hook is over. -/
  | finishes (writer : ℕ) (delta : Delta)
      (hphase : s.writers.lookup writer = some (.offering delta ∅)) :
      HubEffect s (.finish writer) (s.leave writer)
  /-- A subscriber registers. -/
  | subscribes (interest : Interest) :
      HubEffect s (.subscribe interest)
        { s with
          subscribers := s.subscribers ++ [⟨Endpoint.new interest s.capacity s.overflow, s.head⟩]
          bus := { s.bus with subs := insert s.subscribers.length s.bus.subs } }
  /-- Something else happens at a subscription. -/
  | consumes (handle : ℕ) (step : Step) (hstep : offersOf [step] = []) :
      HubEffect s (.consume handle step)
        { s with subscribers := s.subscribers.modify handle (Subscriber.update (takeStep · step)) }
  /-- A subscription is closed. -/
  | closes (handle : ℕ) :
      HubEffect s (.close handle)
        { s with subscribers := s.subscribers.modify handle (Subscriber.update closeEndpoint) }
  /-- A closed subscription is unregistered. -/
  | unsubscribes (handle : ℕ) (subscriber : Subscriber)
      (hsubscriber : s.subscribers[handle]? = some subscriber)
      (hclosed : subscriber.endpoint.sub.closed = true) :
      HubEffect s (.unsubscribe handle)
        { s with bus := { s.bus with subs := s.bus.subs.erase handle } }

/-- A hook at the lock of the bus is skipped, refused or accepted. -/
theorem hubStep_accept_effect (s : Hub) (writer : ℕ) :
    HubEffect s (.accept writer) (hubStep s (.accept writer)) := by
  simp only [hubStep]
  split
  · rename_i delta hphase
    by_cases hsilent : s.bus.closed = true ∨ s.bus.subs = ∅
    · have haccept : s.bus.accept delta = (.skipped, s.bus) := if_pos (by simpa using hsilent)
      rw [haccept]
      exact .skips _ writer _ hphase hsilent
    · have hopen := not_or.mp hsilent
      rcases accept_of_open (Bool.eq_false_iff.mpr hopen.1) hopen.2 delta with
        ⟨-, haccept⟩ | ⟨hearlier, message, haccept⟩
      · rw [haccept]
        exact .accepts writer delta hphase
      · rw [haccept]
        exact .refuses writer delta message hphase hearlier
  · exact .idle _

/-- Every step has one of these effects. -/
theorem hubStep_effect (s : Hub) (step : HubStep) : HubEffect s step (hubStep s step) := by
  cases step with
  | accept writer => exact hubStep_accept_effect s writer
  | commit writer content =>
    simp only [hubStep]
    split
    · rename_i hidle
      exact .commits writer content hidle
    · exact .idle _
  | invalidate writer =>
    simp only [hubStep]
    split
    · rename_i delta hphase
      exact .advances _ writer _ _ hphase rfl trivial trivial
    · exact .idle _
  | schedule writer raises =>
    simp only [hubStep]
    split
    · rename_i delta hphase
      cases raises with
      | true => exact .raises writer delta hphase
      | false => exact .advances _ writer _ _ hphase rfl trivial trivial
    · exact .idle _
  | check writer =>
    simp only [hubStep]
    split
    · rename_i delta hphase
      by_cases hlistens : s.bus.hasSubscribers = true
      · rw [if_pos hlistens]
        exact .advances _ writer _ _ hphase rfl trivial trivial
      · have hnone : s.bus.subs = ∅ := by
          simpa [Bus.hasSubscribers] using hlistens
        rw [if_neg hlistens]
        exact .skips _ writer _ hphase (Or.inr hnone)
    · exact .idle _
  | offer writer handle =>
    simp only [hubStep]
    split
    · rename_i delta rest hphase
      by_cases hrest : handle ∈ rest
      · rw [if_pos hrest]
        exact .offers writer delta rest handle hphase hrest
      · rw [if_neg hrest]
        exact .idle _
    · exact .idle _
  | finish writer =>
    simp only [hubStep]
    split
    · rename_i delta rest hphase
      by_cases hrest : rest = ∅
      · rw [if_pos hrest]
        rw [hrest] at hphase
        exact .finishes writer delta hphase
      · rw [if_neg hrest]
        exact .idle _
    · exact .idle _
  | subscribe interest => exact .subscribes interest
  | consume handle step =>
    by_cases hstep : offersOf [step] = []
    · rw [hubStep, if_pos hstep]
      exact .consumes handle step hstep
    · rw [hubStep, if_neg hstep]
      exact .idle _
  | close handle => exact .closes handle
  | unsubscribe handle =>
    simp only [hubStep]
    split
    · rename_i subscriber hsubscriber
      by_cases hclosed : subscriber.endpoint.sub.closed = true
      · rw [if_pos hclosed]
        exact .unsubscribes handle subscriber hsubscriber hclosed
      · rw [if_neg hclosed]
        exact .idle _
    · exact .idle _

/-! ## What hooks still owe -/

/-- Some hook may still hand a delta to a subscription. -/
def Owes (writers : FMap ℕ Phase) (delta : Delta) (handle : ℕ) : Prop :=
  ∃ writer phase, writers.lookup writer = some phase ∧ phase.delta = delta ∧ phase.OwesTo handle

/-- Some hook of another thread may. -/
def OwesBesides (writers : FMap ℕ Phase) (writer : ℕ) (delta : Delta) (handle : ℕ) : Prop :=
  ∃ other phase, other ≠ writer ∧ writers.lookup other = some phase ∧ phase.delta = delta ∧
    phase.OwesTo handle

section Owing

variable {writers : FMap ℕ Phase} {writer : ℕ} {delta : Delta} {handle : ℕ}

theorem owes_insert (phase : Phase) :
    Owes (writers.insert writer phase) delta handle ↔
      (phase.delta = delta ∧ phase.OwesTo handle) ∨ OwesBesides writers writer delta handle := by
  constructor
  · rintro ⟨other, found, hfound, hdelta, howes⟩
    rw [lookup_insert_ite] at hfound
    by_cases hother : other = writer
    · rw [if_pos hother] at hfound
      rw [Option.some.inj hfound]
      exact Or.inl ⟨hdelta, howes⟩
    · rw [if_neg hother] at hfound
      exact Or.inr ⟨other, found, hother, hfound, hdelta, howes⟩
  · rintro (⟨hdelta, howes⟩ | ⟨other, found, hother, hfound, hdelta, howes⟩)
    · exact ⟨writer, phase, Finmap.lookup_insert _, hdelta, howes⟩
    · exact ⟨other, found, (Finmap.lookup_insert_of_ne _ hother).trans hfound, hdelta, howes⟩

theorem owes_erase :
    Owes (writers.erase writer) delta handle ↔ OwesBesides writers writer delta handle := by
  constructor
  · rintro ⟨other, found, hfound, hdelta, howes⟩
    rw [lookup_erase_ite] at hfound
    by_cases hother : other = writer
    · rw [if_pos hother] at hfound
      exact absurd hfound (by simp)
    · rw [if_neg hother] at hfound
      exact ⟨other, found, hother, hfound, hdelta, howes⟩
  · rintro ⟨other, found, hother, hfound, hdelta, howes⟩
    exact ⟨other, found, (Finmap.lookup_erase_ne hother).trans hfound, hdelta, howes⟩

/-- What is owed is owed by one hook or by the others. -/
theorem owes_iff_of_lookup {phase : Phase} (h : writers.lookup writer = some phase) :
    Owes writers delta handle ↔
      (phase.delta = delta ∧ phase.OwesTo handle) ∨ OwesBesides writers writer delta handle := by
  constructor
  · rintro ⟨other, found, hfound, hdelta, howes⟩
    by_cases hother : other = writer
    · rw [hother, h] at hfound
      rw [Option.some.inj hfound]
      exact Or.inl ⟨hdelta, howes⟩
    · exact Or.inr ⟨other, found, hother, hfound, hdelta, howes⟩
  · rintro (⟨hdelta, howes⟩ | ⟨other, found, -, hfound, hdelta, howes⟩)
    · exact ⟨writer, phase, h, hdelta, howes⟩
    · exact ⟨other, found, hfound, hdelta, howes⟩

/-- What the others owe is owed. -/
theorem OwesBesides.owes (h : OwesBesides writers writer delta handle) :
    Owes writers delta handle := by
  obtain ⟨other, found, -, hfound, hdelta, howes⟩ := h
  exact ⟨other, found, hfound, hdelta, howes⟩

end Owing

/-! ## Hooks in turn -/

/-- All other hooks of a kind have later deltas. -/
def Hub.Before (s : Hub) (writer : ℕ) (delta : Delta) (P : Phase → Prop) : Prop :=
  ∀ other ∈ s.writers.keys, other ≠ writer → ∀ phase ∈ s.writers.lookup other, P phase →
    delta.revision < phase.delta.revision

/-- A step in turn: the scheduling of the derived layers does not raise, deltas
pass the lock of the bus and reach each subscription in the order of their
commits, and none is handed to a full queue that does not merge. -/
def InTurn (s : Hub) : HubStep → Prop
  | .schedule _ raises => raises = false
  | .accept writer => ∀ phase ∈ s.writers.lookup writer,
      s.Before writer phase.delta Phase.Unpublished
  | .offer writer handle => ∀ phase ∈ s.writers.lookup writer,
      s.Before writer phase.delta (Phase.OwesTo handle) ∧
      ∀ subscriber ∈ s.subscribers[handle]?, subscriber.endpoint.sub.overflow = .coalesce ∨
        subscriber.endpoint.sub.closed = true ∨
        (subscriber.endpoint.sub.queue.length : ℤ) < subscriber.endpoint.sub.capacity
  | _ => True

instance (s : Hub) (writer : ℕ) (delta : Delta) (P : Phase → Prop) [DecidablePred P] :
    Decidable (s.Before writer delta P) :=
  inferInstanceAs (Decidable (∀ other ∈ s.writers.keys, other ≠ writer →
    ∀ phase ∈ s.writers.lookup other, P phase → delta.revision < phase.delta.revision))

instance (s : Hub) : ∀ step, Decidable (InTurn s step)
  | .schedule _ raises => inferInstanceAs (Decidable (raises = false))
  | .accept writer => inferInstanceAs (Decidable (∀ phase ∈ s.writers.lookup writer,
      s.Before writer phase.delta Phase.Unpublished))
  | .offer writer handle => inferInstanceAs (Decidable (∀ phase ∈ s.writers.lookup writer,
      s.Before writer phase.delta (Phase.OwesTo handle) ∧
      ∀ subscriber ∈ s.subscribers[handle]?, subscriber.endpoint.sub.overflow = .coalesce ∨
        subscriber.endpoint.sub.closed = true ∨
        (subscriber.endpoint.sub.queue.length : ℤ) < subscriber.endpoint.sub.capacity))
  | .commit _ _ | .invalidate _ | .check _ | .finish _ | .subscribe _ | .consume _ _ | .close _
  | .unsubscribe _ => isTrue trivial

/-- The order among hooks, bus and commits. -/
structure Orderly (s : Hub) : Prop where
  /-- Commits are in order. -/
  rising : Rising Delta.revision s.committed
  /-- No commit is later than the head. -/
  bounded : ∀ delta ∈ s.committed, delta.revision ≤ s.head
  /-- Hooks belong to commits. -/
  logged : ∀ writer phase, s.writers.lookup writer = some phase → phase.delta ∈ s.committed
  /-- The bus stays open. -/
  opened : s.bus.closed = false
  /-- The bus is not ahead of the head. -/
  published : s.bus.lastPublishedRevision ≤ s.head
  /-- What is not published is later than what is. -/
  unpublished : ∀ writer phase, s.writers.lookup writer = some phase → phase.Unpublished →
    s.bus.lastPublishedRevision < phase.delta.revision
  /-- No assertion failed. -/
  noErrors : s.assertionErrors = []

/-- What holds between a subscriber and the hooks. -/
structure Served (s : Hub) (handle : ℕ) (subscriber : Subscriber) : Prop where
  /-- The queue has room for one delta at least. -/
  pos : 1 ≤ subscriber.endpoint.sub.capacity
  /-- Nothing is offered ahead of the head. -/
  bounded : ∀ offer ∈ subscriber.endpoint.offered, offer.revision ≤ s.head
  /-- Offers are in order. -/
  rising : Rising Delta.revision subscriber.endpoint.offered
  /-- What arrives is in order. -/
  inOrder : InOrder Delta.revision subscriber.endpoint.account
  /-- An open subscription is registered. -/
  registered : subscriber.endpoint.sub.closed = false → handle ∈ s.bus.subs
  /-- An open subscription does not release its queue. -/
  kept : subscriber.endpoint.sub.closed = false → subscriber.endpoint.owedReleases = 0
  /-- What an open subscription is offered arrives. -/
  covered : subscriber.endpoint.sub.closed = false →
    Covered Delta.Covers subscriber.endpoint.account
  /-- What is still owed is later than what was offered. -/
  later : ∀ delta, Owes s.writers delta handle →
    ∀ offer ∈ subscriber.endpoint.offered, offer.revision < delta.revision
  /-- What was committed since the registration was offered or is still owed. -/
  complete : subscriber.endpoint.sub.closed = false → ∀ delta ∈ s.committed,
    subscriber.since < delta.revision →
    ∀ slice, delta.sliceFor subscriber.endpoint.sub.interest = some slice →
      slice ∈ subscriber.endpoint.offered ∨ Owes s.writers delta handle

theorem mem_keys_of_lookup {writers : FMap ℕ Phase} {writer : ℕ} {phase : Phase}
    (h : writers.lookup writer = some phase) : writer ∈ writers.keys :=
  (mem_keys_iff writers writer).mpr ⟨phase, h⟩

/-- The next phase of a hook keeps the order. -/
theorem Orderly.setPhase {s : Hub} (hs : Orderly s) {writer : ℕ} {phase phase' : Phase}
    (hphase : s.writers.lookup writer = some phase) (hdelta : phase'.delta = phase.delta)
    (hun : phase'.Unpublished → phase.Unpublished) : Orderly (s.setPhase writer phase') := by
  refine ⟨hs.rising, hs.bounded, ?_, hs.opened, hs.published, ?_, hs.noErrors⟩
  · intro other found hfound
    rcases eq_or_lookup_of_lookup_insert hfound with rfl | hbefore
    · rw [hdelta]
      exact hs.logged writer phase hphase
    · exact hs.logged other found hbefore
  · intro other found hfound hunpublished
    rcases eq_or_lookup_of_lookup_insert hfound with rfl | hbefore
    · rw [hdelta]
      exact hs.unpublished writer phase hphase (hun hunpublished)
    · exact hs.unpublished other found hbefore hunpublished

/-- The end of a hook keeps the order. -/
theorem Orderly.leave {s : Hub} (hs : Orderly s) (writer : ℕ) : Orderly (s.leave writer) := by
  refine ⟨hs.rising, hs.bounded, ?_, hs.opened, hs.published, ?_, hs.noErrors⟩
  · intro other found hfound
    exact hs.logged other found (lookup_of_lookup_erase hfound)
  · intro other found hfound
    exact hs.unpublished other found (lookup_of_lookup_erase hfound)

/-- A commit keeps the order. -/
theorem Orderly.commit {s : Hub} (hs : Orderly s) (writer : ℕ) {delta : Delta}
    (hrevision : delta.revision = s.head + 1) :
    Orderly { s with
      head := s.head + 1
      writers := s.writers.insert writer (.committed delta)
      committed := s.committed ++ [delta] } := by
  have hnext : ∀ earlier ∈ s.committed, earlier.revision < delta.revision := by
    intro earlier hearlier
    rw [hrevision]
    exact Nat.lt_succ_of_le (hs.bounded earlier hearlier)
  refine ⟨(rising_concat _).mpr ⟨hs.rising, hnext⟩, ?_, ?_, hs.opened, ?_, ?_, hs.noErrors⟩
  · intro earlier hearlier
    rcases List.mem_append.mp hearlier with hearlier | hearlier
    · exact (hs.bounded earlier hearlier).trans (Nat.le_succ _)
    · rw [List.mem_singleton.mp hearlier, hrevision]
  · intro other found hfound
    rcases eq_or_lookup_of_lookup_insert hfound with rfl | hbefore
    · exact List.mem_append_right _ List.mem_cons_self
    · exact List.mem_append_left _ (hs.logged other found hbefore)
  · have hpublished := hs.published
    push_cast
    omega
  · intro other found hfound hunpublished
    rcases eq_or_lookup_of_lookup_insert hfound with rfl | hbefore
    · have hpublished := hs.published
      simp only [Phase.delta, hrevision]
      push_cast
      omega
    · exact hs.unpublished other found hbefore hunpublished

/-- Steps in turn keep the order. -/
theorem HubEffect.orderly {s t : Hub} {step : HubStep} (h : HubEffect s step t)
    (hturn : InTurn s step) (hs : Orderly s) : Orderly t := by
  cases h with
  | idle => exact hs
  | commits writer content => exact hs.commit writer rfl
  | advances step writer phase phase' hphase hdelta hbefore =>
    exact hs.setPhase hphase hdelta fun _ => hbefore
  | raises writer delta => exact absurd hturn (by simp [InTurn])
  | skips step writer => exact hs.leave writer
  | refuses writer delta message hphase hearlier =>
    have hlater := hs.unpublished writer _ hphase trivial
    exact absurd hlater (not_lt.mpr hearlier)
  | accepts writer delta hphase =>
    have hset : Orderly (s.setPhase writer (.offering delta s.bus.subs)) :=
      hs.setPhase hphase rfl fun hfalse => hfalse.elim
    refine ⟨hset.rising, hset.bounded, hset.logged, hset.opened, ?_, ?_, hset.noErrors⟩
    · exact Int.ofNat_le.mpr (hs.bounded delta (hs.logged writer _ hphase))
    · intro other found hfound hunpublished
      have hother : other ≠ writer := by
        rintro rfl
        change (s.writers.insert other _).lookup other = some found at hfound
        rw [Finmap.lookup_insert] at hfound
        rw [← Option.some.inj hfound] at hunpublished
        exact hunpublished
      have hbefore : s.writers.lookup other = some found :=
        (Finmap.lookup_insert_of_ne _ hother).symm.trans hfound
      exact Int.ofNat_lt.mpr (hturn _ hphase other (mem_keys_of_lookup hbefore) hother found hbefore
        hunpublished)
  | offers writer delta rest handle hphase =>
    have hset : Orderly (s.setPhase writer (.offering delta (rest.erase handle))) :=
      hs.setPhase hphase rfl fun hfalse => hfalse.elim
    exact ⟨hset.rising, hset.bounded, hset.logged, hset.opened, hset.published, hset.unpublished,
      hset.noErrors⟩
  | finishes writer => exact hs.leave writer
  | subscribes | consumes | closes | unsubscribes =>
    exact ⟨hs.rising, hs.bounded, hs.logged, hs.opened, hs.published, hs.unpublished, hs.noErrors⟩

/-! ## Subscribers are served -/

/-- A subscriber that does nothing is served after a step that starts new
hooks only for new commits and ends a hook only when it owes nothing. -/
theorem Served.mono {s t : Hub} {handle : ℕ} {subscriber : Subscriber}
    (hs : Served s handle subscriber) (hhead : s.head ≤ t.head)
    (hsubs : subscriber.endpoint.sub.closed = false → handle ∈ s.bus.subs → handle ∈ t.bus.subs)
    (hless : ∀ delta, Owes t.writers delta handle →
      Owes s.writers delta handle ∨ s.head < delta.revision)
    (hmore : subscriber.endpoint.sub.closed = false → ∀ delta,
      Owes s.writers delta handle → Owes t.writers delta handle)
    (hcommitted : ∀ delta ∈ t.committed, delta ∈ s.committed ∨ Owes t.writers delta handle) :
    Served t handle subscriber where
  pos := hs.pos
  bounded offer hoffer := (hs.bounded offer hoffer).trans hhead
  rising := hs.rising
  inOrder := hs.inOrder
  registered hopen := hsubs hopen (hs.registered hopen)
  kept := hs.kept
  covered := hs.covered
  later delta howes offer hoffer := by
    rcases hless delta howes with hbefore | hnew
    · exact hs.later delta hbefore offer hoffer
    · exact lt_of_le_of_lt (hs.bounded offer hoffer) hnew
  complete hopen delta hdelta hsince slice hslice := by
    rcases hcommitted delta hdelta with hbefore | howes
    · exact (hs.complete hopen delta hbefore hsince slice hslice).imp id (hmore hopen delta)
    · exact Or.inr howes

/-- The subscription alone, after a step at it. -/
theorem Served.endpoint {s : Hub} {handle : ℕ} {subscriber : Subscriber}
    (hs : Served s handle subscriber) {step : Step} {t : Endpoint}
    (h : Effect subscriber.endpoint step t)
    (hmerges : Overflows subscriber.endpoint step →
      subscriber.endpoint.sub.overflow = .coalesce)
    (hrising : Rising Delta.revision t.offered) :
    1 ≤ t.sub.capacity ∧ InOrder Delta.revision t.account ∧
      (t.sub.closed = false → subscriber.endpoint.sub.closed = false ∧ t.owedReleases = 0 ∧
        Covered Delta.Covers t.account) := by
  refine ⟨?_, h.inOrder hs.pos (fun _ => hs.inOrder) hrising, fun hopen => ?_⟩
  · rw [h.frame.2.1]
    exact hs.pos
  · obtain ⟨hbefore, hreleases⟩ := h.opened hopen
    have hkept := hs.kept hbefore
    exact ⟨hbefore, by omega, h.covered hs.pos hbefore hkept hmerges (hs.covered hbefore)⟩

/-- A step at the subscription that offers nothing keeps it served. -/
theorem Served.consume {s : Hub} {handle : ℕ} {subscriber : Subscriber}
    (hs : Served s handle subscriber) {step : Step} (hstep : offersOf [step] = []) :
    Served s handle (subscriber.update (takeStep · step)) := by
  have hoffered : (takeStep subscriber.endpoint step).offered = subscriber.endpoint.offered := by
    rw [takeStep_offered, hstep, List.append_nil]
  have hnone : ¬ Overflows subscriber.endpoint step := by
    rintro ⟨⟨delta, rfl⟩, -⟩
    exact absurd hstep (by simp [offersOf])
  obtain ⟨hpos, horder, hopened⟩ := hs.endpoint (takeStep_effect subscriber.endpoint step)
    (fun hover => absurd hover hnone) (by rw [hoffered]; exact hs.rising)
  refine ⟨hpos, ?_, ?_, horder, fun hopen => hs.registered (hopened hopen).1,
    fun hopen => (hopened hopen).2.1, fun hopen => (hopened hopen).2.2, ?_, ?_⟩
  · simp only [Subscriber.update, hoffered]
    exact hs.bounded
  · simp only [Subscriber.update, hoffered]
    exact hs.rising
  · simp only [Subscriber.update, hoffered]
    exact hs.later
  · intro hopen
    simp only [Subscriber.update, hoffered, takeStep_interest]
    exact hs.complete (hopened hopen).1

/-- A closed subscription is served. -/
theorem Served.close {s : Hub} {handle : ℕ} {subscriber : Subscriber}
    (hs : Served s handle subscriber) : Served s handle (subscriber.update closeEndpoint) := by
  have hclosed : (closeEndpoint subscriber.endpoint).sub.closed = true := by
    simp only [closeEndpoint, Subscription.beginClose]
    split
    · assumption
    · rfl
  have hsame : (closeEndpoint subscriber.endpoint).sub.capacity =
        subscriber.endpoint.sub.capacity ∧
      (closeEndpoint subscriber.endpoint).account = subscriber.endpoint.account := by
    simp only [closeEndpoint, Subscription.beginClose, Endpoint.account]
    split <;> exact ⟨rfl, rfl⟩
  have hopen : ¬ (closeEndpoint subscriber.endpoint).sub.closed = false := by
    rw [hclosed]
    nofun
  refine ⟨?_, hs.bounded, hs.rising, ?_, fun h => absurd h hopen, fun h => absurd h hopen,
    fun h => absurd h hopen, hs.later, fun h => absurd h hopen⟩
  · simp only [Subscriber.update, hsame.1]
    exact hs.pos
  · simp only [Subscriber.update, hsame.2]
    exact hs.inOrder

/-- Handing out a delta in turn keeps the offers in order. -/
theorem Served.rising_fanOut {s : Hub} {handle : ℕ} {subscriber : Subscriber}
    (hs : Served s handle subscriber) {delta : Delta} (howes : Owes s.writers delta handle) :
    Rising Delta.revision (fanOut delta subscriber.endpoint).offered := by
  rw [fanOut_offered]
  cases hslice : delta.sliceFor subscriber.endpoint.sub.interest with
  | none =>
    simp only [Option.toList_none, List.append_nil]
    exact hs.rising
  | some slice =>
    simp only [Option.toList_some]
    rw [rising_concat, revision_of_sliceFor hslice]
    exact ⟨hs.rising, hs.later delta howes⟩

/-- The subscription alone, after it was handed a delta. -/
theorem Served.fanOut_endpoint {s : Hub} {handle : ℕ} {subscriber : Subscriber}
    (hs : Served s handle subscriber) {delta : Delta} (howes : Owes s.writers delta handle)
    (hroom : subscriber.endpoint.sub.overflow = .coalesce ∨
      subscriber.endpoint.sub.closed = true ∨
      (subscriber.endpoint.sub.queue.length : ℤ) < subscriber.endpoint.sub.capacity) :
    1 ≤ (fanOut delta subscriber.endpoint).sub.capacity ∧
      InOrder Delta.revision (fanOut delta subscriber.endpoint).account ∧
      ((fanOut delta subscriber.endpoint).sub.closed = false →
        subscriber.endpoint.sub.closed = false ∧
        (fanOut delta subscriber.endpoint).owedReleases = 0 ∧
        Covered Delta.Covers (fanOut delta subscriber.endpoint).account) := by
  have hrising := hs.rising_fanOut howes
  cases hslice : delta.sliceFor subscriber.endpoint.sub.interest with
  | none =>
    have hsame : fanOut delta subscriber.endpoint = subscriber.endpoint := by
      rw [fanOut, hslice]
    rw [hsame]
    exact ⟨hs.pos, hs.inOrder, fun hopen => ⟨hopen, hs.kept hopen, hs.covered hopen⟩⟩
  | some slice =>
    have hoffer : fanOut delta subscriber.endpoint =
        takeStep subscriber.endpoint (.offer slice) := by
      rw [fanOut, hslice]
    rw [hoffer] at hrising ⊢
    refine hs.endpoint (takeStep_effect _ _) ?_ hrising
    rintro ⟨-, hopen, hfull⟩
    rcases hroom with hmerges | hclosed | hspace
    · exact hmerges
    · rw [hopen] at hclosed
      exact absurd hclosed (by simp)
    · exact absurd hspace (not_lt.mpr hfull)

/-- A subscriber that is handed a delta in turn is served. -/
theorem Served.offer {s t : Hub} {handle writer : ℕ} {subscriber : Subscriber} {delta : Delta}
    {rest : Finset ℕ} (hs : Served s handle subscriber)
    (hphase : s.writers.lookup writer = some (.offering delta rest)) (hrest : handle ∈ rest)
    (hbefore : s.Before writer delta (Phase.OwesTo handle))
    (hroom : subscriber.endpoint.sub.overflow = .coalesce ∨
      subscriber.endpoint.sub.closed = true ∨
      (subscriber.endpoint.sub.queue.length : ℤ) < subscriber.endpoint.sub.capacity)
    (hbounded : delta.revision ≤ s.head) (hhead : t.head = s.head)
    (hcommitted : t.committed = s.committed) (hsubs : t.bus.subs = s.bus.subs)
    (hwriters : t.writers = s.writers.insert writer (.offering delta (rest.erase handle))) :
    Served t handle (subscriber.update (fanOut delta)) := by
  have howes : Owes s.writers delta handle := ⟨writer, _, hphase, rfl, hrest⟩
  -- The delta is no longer owed by its own hook.
  have hothers : ∀ d, Owes t.writers d handle ↔ OwesBesides s.writers writer d handle := by
    intro d
    rw [hwriters, owes_insert]
    refine or_iff_right ?_
    rintro ⟨-, hmem⟩
    exact Finset.notMem_erase handle rest hmem
  obtain ⟨hpos, horder, hopened⟩ := hs.fanOut_endpoint howes hroom
  have hoffered := fanOut_offered delta subscriber.endpoint
  refine ⟨hpos, ?_, hs.rising_fanOut howes, horder, ?_, fun hopen => (hopened hopen).2.1,
    fun hopen => (hopened hopen).2.2, ?_, ?_⟩
  · intro offer hoffer
    simp only [Subscriber.update, hoffered] at hoffer
    rw [hhead]
    rcases List.mem_append.mp hoffer with hoffer | hoffer
    · exact hs.bounded offer hoffer
    · rw [revision_of_sliceFor (Option.mem_toList.mp hoffer)]
      exact hbounded
  · intro hopen
    rw [hsubs]
    exact hs.registered (hopened hopen).1
  · intro d howed offer hoffer
    have hbesides := (hothers d).mp howed
    simp only [Subscriber.update, hoffered] at hoffer
    rcases List.mem_append.mp hoffer with hoffer | hoffer
    · exact hs.later d hbesides.owes offer hoffer
    · obtain ⟨other, phase, hother, hlookup, hdelta, howesTo⟩ := hbesides
      rw [revision_of_sliceFor (Option.mem_toList.mp hoffer), ← hdelta]
      exact hbefore other (mem_keys_of_lookup hlookup) hother phase hlookup howesTo
  · intro hopen d hd hsince slice hslice
    rw [hcommitted] at hd
    simp only [Subscriber.update, fanOut_interest] at hslice
    simp only [Subscriber.update, hoffered]
    rcases hs.complete (hopened hopen).1 d hd hsince slice hslice with hbefore' | howed
    · exact Or.inl (List.mem_append_left _ hbefore')
    · rcases (owes_iff_of_lookup hphase).mp howed with ⟨hdelta, -⟩ | hbesides
      · rw [← hdelta] at hslice
        exact Or.inl (List.mem_append_right _ (Option.mem_toList.mpr hslice))
      · exact Or.inr ((hothers d).mpr hbesides)

/-- A subscriber is served in a state that differs only elsewhere. -/
theorem Served.frame {s t : Hub} {handle : ℕ} {subscriber : Subscriber}
    (hs : Served s handle subscriber) (hhead : t.head = s.head)
    (hsubs : subscriber.endpoint.sub.closed = false → handle ∈ s.bus.subs → handle ∈ t.bus.subs)
    (howes : ∀ delta, Owes t.writers delta handle ↔ Owes s.writers delta handle)
    (hcommitted : t.committed = s.committed) : Served t handle subscriber :=
  hs.mono hhead.ge hsubs (fun delta h => Or.inl ((howes delta).mp h))
    (fun _ delta h => (howes delta).mpr h) fun _ hdelta => Or.inl (hcommitted ▸ hdelta)

theorem Phase.Unpublished.owesTo {phase : Phase} (h : phase.Unpublished) (handle : ℕ) :
    phase.OwesTo handle := by
  cases phase with
  | offering => exact h.elim
  | _ => trivial

/-- A new subscriber is served: nothing was committed since. -/
theorem served_new {s : Hub} {handle : ℕ} {interest : Interest} {capacity : ℤ}
    {overflow : Overflow} {since : Revision} (hregistered : handle ∈ s.bus.subs)
    (hsince : s.head = since) (hbounded : ∀ delta ∈ s.committed, delta.revision ≤ s.head) :
    Served s handle ⟨Endpoint.new interest capacity overflow, since⟩ where
  pos := (sound_new interest capacity overflow).pos
  bounded := nofun
  rising := List.Pairwise.nil
  inOrder := inOrder_fresh
  registered _ := hregistered
  kept _ := rfl
  covered _ := nofun
  later _ _ := nofun
  complete _ delta hdelta hlater :=
    absurd (hsince ▸ hlater) (not_lt.mpr (hbounded delta hdelta))

/-- All subscribers are served. -/
def AllServed (s : Hub) : Prop :=
  ∀ handle subscriber, s.subscribers[handle]? = some subscriber → Served s handle subscriber

namespace AllServed

variable {s : Hub} (hs : AllServed s)
include hs

/-- A commit starts a hook that owes its delta to everyone. -/
theorem commit {writer : ℕ} {delta : Delta} (hidle : s.writers.lookup writer = none)
    (hnew : delta.revision = s.head + 1) :
    AllServed { s with
      head := s.head + 1
      writers := s.writers.insert writer (.committed delta)
      committed := s.committed ++ [delta] } := by
  intro handle subscriber hsubscriber
  refine (hs handle subscriber hsubscriber).mono (Nat.le_succ _) (fun _ => id) ?_ ?_ ?_
  · intro d howes
    rcases (owes_insert _).mp howes with ⟨hdelta, -⟩ | hbesides
    · refine Or.inr ?_
      rw [← hdelta]
      exact (Nat.lt_succ_self s.head).trans_eq hnew.symm
    · exact Or.inl hbesides.owes
  · rintro - d ⟨other, phase, hlookup, hdelta, howes⟩
    have hother : other ≠ writer := by
      rintro rfl
      rw [hidle] at hlookup
      cases hlookup
    exact (owes_insert _).mpr (Or.inr ⟨other, phase, hother, hlookup, hdelta, howes⟩)
  · intro d hd
    rcases List.mem_append.mp hd with hold | hlast
    · exact Or.inl hold
    · exact Or.inr ((owes_insert _).mpr (Or.inl ⟨(List.mem_singleton.mp hlast).symm, trivial⟩))

/-- A hook that goes on before it publishes owes the same. -/
theorem advance {writer : ℕ} {phase phase' : Phase}
    (hphase : s.writers.lookup writer = some phase) (hdelta : phase'.delta = phase.delta)
    (hbefore : phase.Unpublished) (hafter : phase'.Unpublished) :
    AllServed (s.setPhase writer phase') := by
  intro handle subscriber hsubscriber
  refine (hs handle subscriber hsubscriber).frame rfl (fun _ => id) (fun delta => ?_) rfl
  rw [Hub.setPhase, owes_insert, owes_iff_of_lookup hphase, hdelta]
  simp only [hbefore.owesTo handle, hafter.owesTo handle]

/-- A hook that is skipped because nobody listens owes nothing. -/
theorem skip {writer : ℕ} (ho : Orderly s) (hsubs : s.bus.closed = true ∨ s.bus.subs = ∅) :
    AllServed (s.leave writer) := by
  intro handle subscriber hsubscriber
  have hserved := hs handle subscriber hsubscriber
  refine hserved.mono (le_refl _) (fun _ => id) ?_ ?_ fun _ => Or.inl
  · exact fun delta howes => Or.inl (owes_erase.mp howes).owes
  · intro hopen
    have hregistered := hserved.registered hopen
    rcases hsubs with hclosed | hempty
    · rw [ho.opened] at hclosed
      cases hclosed
    · rw [hempty] at hregistered
      exact absurd hregistered (Finset.notMem_empty handle)

/-- A hook that is accepted owes its delta to all that are registered. -/
theorem accept {writer : ℕ} {delta : Delta}
    (hphase : s.writers.lookup writer = some (.checked delta)) :
    AllServed { s.setPhase writer (.offering delta s.bus.subs) with
      bus := { s.bus with lastPublishedRevision := delta.revision } } := by
  intro handle subscriber hsubscriber
  have hserved := hs handle subscriber hsubscriber
  refine hserved.mono (le_refl _) (fun _ => id) ?_ ?_ fun _ => Or.inl
  · intro d howes
    rcases (owes_insert _).mp howes with ⟨hdelta, -⟩ | hbesides
    · exact Or.inl ⟨writer, _, hphase, hdelta, trivial⟩
    · exact Or.inl hbesides.owes
  · intro hopen d howes
    rcases (owes_iff_of_lookup hphase).mp howes with ⟨hdelta, -⟩ | hbesides
    · exact (owes_insert _).mpr (Or.inl ⟨hdelta, hserved.registered hopen⟩)
    · exact (owes_insert _).mpr (Or.inr hbesides)

/-- A hook that hands its delta to a subscriber owes it to the others. -/
theorem offer {writer offered : ℕ} {delta : Delta} {rest : Finset ℕ} (ho : Orderly s)
    (hturn : InTurn s (.offer writer offered))
    (hphase : s.writers.lookup writer = some (.offering delta rest)) (hrest : offered ∈ rest) :
    AllServed { s.setPhase writer (.offering delta (rest.erase offered)) with
      subscribers := s.subscribers.modify offered (Subscriber.update (fanOut delta)) } := by
  intro handle subscriber hsubscriber
  simp only [List.getElem?_modify] at hsubscriber
  obtain ⟨before, hbefore, hupdate⟩ := Option.map_eq_some_iff.mp hsubscriber
  have hserved := hs handle before hbefore
  by_cases hhandle : offered = handle
  · rw [if_pos hhandle] at hupdate
    rw [← hupdate]
    rw [hhandle] at hturn hrest
    obtain ⟨hturns, hroom⟩ := hturn _ hphase
    exact hserved.offer hphase hrest hturns (hroom before hbefore)
      (ho.bounded delta (ho.logged writer _ hphase)) rfl rfl rfl (hhandle ▸ rfl)
  · rw [if_neg hhandle] at hupdate
    rw [← hupdate]
    refine hserved.frame rfl (fun _ => id) (fun d => ?_) rfl
    rw [Hub.setPhase, owes_insert, owes_iff_of_lookup hphase]
    simp only [Phase.delta, Phase.OwesTo, Finset.mem_erase, ne_eq, Ne.symm hhandle,
      not_false_eq_true, true_and]

/-- A hook that is over owes nothing. -/
theorem finish {writer : ℕ} {delta : Delta}
    (hphase : s.writers.lookup writer = some (.offering delta ∅)) :
    AllServed (s.leave writer) := by
  intro handle subscriber hsubscriber
  refine (hs handle subscriber hsubscriber).frame rfl (fun _ => id) (fun d => ?_) rfl
  rw [Hub.leave, owes_erase, owes_iff_of_lookup hphase]
  simp [Phase.OwesTo]

/-- A new subscriber is served from now on. -/
theorem subscribe (ho : Orderly s) (interest : Interest) :
    AllServed { s with
      subscribers := s.subscribers ++ [⟨Endpoint.new interest s.capacity s.overflow, s.head⟩]
      bus := { s.bus with subs := insert s.subscribers.length s.bus.subs } } := by
  intro handle subscriber hsubscriber
  rcases lt_or_ge handle s.subscribers.length with hold | hnew
  · rw [List.getElem?_append_left hold] at hsubscriber
    exact (hs handle subscriber hsubscriber).frame rfl
      (fun _ => Finset.mem_insert_of_mem) (fun _ => Iff.rfl) rfl
  · rw [List.getElem?_append_right hnew] at hsubscriber
    have hlast : handle = s.subscribers.length ∧
        subscriber = ⟨Endpoint.new interest s.capacity s.overflow, s.head⟩ := by
      cases hindex : handle - s.subscribers.length with
      | zero =>
        rw [hindex] at hsubscriber
        exact ⟨by omega, (Option.some.inj hsubscriber).symm⟩
      | succ n =>
        rw [hindex] at hsubscriber
        cases hsubscriber
    rw [hlast.2]
    exact served_new (hlast.1 ▸ Finset.mem_insert_self _ _) rfl ho.bounded

/-- A step at one subscription that keeps it served. -/
theorem modify {changed : ℕ} {f : Endpoint → Endpoint}
    (hf : ∀ subscriber, Served s changed subscriber → Served s changed (subscriber.update f)) :
    AllServed { s with subscribers := s.subscribers.modify changed (Subscriber.update f) } := by
  intro handle subscriber hsubscriber
  simp only [List.getElem?_modify] at hsubscriber
  obtain ⟨before, hbefore, hupdate⟩ := Option.map_eq_some_iff.mp hsubscriber
  have hserved := hs handle before hbefore
  have hthen : Served s handle subscriber := by
    rw [← hupdate]
    split
    · rename_i hchanged
      subst hchanged
      exact hf before hserved
    · exact hserved
  exact hthen.frame rfl (fun _ => id) (fun _ => Iff.rfl) rfl

/-- A closed subscription need not be registered. -/
theorem unsubscribe {left : ℕ} {gone : Subscriber} (hgone : s.subscribers[left]? = some gone)
    (hclosed : gone.endpoint.sub.closed = true) :
    AllServed { s with bus := { s.bus with subs := s.bus.subs.erase left } } := by
  intro handle subscriber hsubscriber
  refine (hs handle subscriber hsubscriber).frame rfl (fun hopen hmem => ?_) (fun _ => Iff.rfl) rfl
  refine Finset.mem_erase.mpr ⟨?_, hmem⟩
  rintro rfl
  rw [hgone] at hsubscriber
  rw [← Option.some.inj hsubscriber, hclosed] at hopen
  cases hopen

end AllServed

/-- Steps in turn keep all subscribers served. -/
theorem HubEffect.served {s t : Hub} {step : HubStep} (h : HubEffect s step t)
    (hturn : InTurn s step) (ho : Orderly s) (hs : AllServed s) : AllServed t := by
  cases h with
  | idle => exact hs
  | commits writer content hidle => exact hs.commit hidle rfl
  | advances step writer phase phase' hphase hdelta hbefore hafter =>
    exact hs.advance hphase hdelta hbefore hafter
  | raises => exact absurd hturn (by simp [InTurn])
  | skips step writer phase hphase hsubs => exact hs.skip ho hsubs
  | refuses writer delta message hphase hearlier =>
    -- hooks reach the bus in the order of the commits
    exact absurd (ho.unpublished writer _ hphase trivial) (not_lt.mpr hearlier)
  | accepts writer delta hphase => exact hs.accept hphase
  | offers writer delta rest offered hphase hrest => exact hs.offer ho hturn hphase hrest
  | finishes writer delta hphase => exact hs.finish hphase
  | subscribes interest => exact hs.subscribe ho interest
  | consumes changed step hstep => exact hs.modify fun _ hserved => hserved.consume hstep
  | closes changed => exact hs.modify fun _ hserved => hserved.close
  | unsubscribes left gone hgone hclosed => exact hs.unsubscribe hgone hclosed

/-- Hooks are in order and subscribers served in every run of steps in turn. -/
theorem served_run (head : Revision) (capacity : ℤ) (overflow : Overflow) {steps : List HubStep}
    (hturn : Along hubStep InTurn (Hub.opened head capacity overflow) steps) :
    Orderly (run hubStep (Hub.opened head capacity overflow) steps) ∧
      AllServed (run hubStep (Hub.opened head capacity overflow) steps) := by
  have hstart : Orderly (Hub.opened head capacity overflow) ∧
      AllServed (Hub.opened head capacity overflow) := by
    refine ⟨⟨List.Pairwise.nil, nofun, nofun, rfl, ?_, nofun, rfl⟩, nofun⟩
    simp only [Hub.opened, Bus.new]
    omega
  have hstep : ∀ s step, Orderly s ∧ AllServed s → InTurn s step →
      Orderly (hubStep s step) ∧ AllServed (hubStep s step) := fun s step hs hin =>
    ⟨(hubStep_effect s step).orderly hin hs.1, (hubStep_effect s step).served hin hs.1 hs.2⟩
  exact invariant_run hstep hstart hturn

/-- For every order of commits and hooks in turn, the bus never finds the order
of revisions broken, deltas arrive in the order of their revisions, and an open
subscriber receives every delta of interest that was committed since it
registered and whose hook is over, as it is or within a later one. -/
theorem revisions_published_in_order (head : Revision) (capacity : ℤ) (overflow : Overflow)
    (steps : List HubStep)
    (hturn : Along hubStep InTurn (Hub.opened head capacity overflow) steps) :
    let s := run hubStep (Hub.opened head capacity overflow) steps
    s.assertionErrors = [] ∧
    ∀ (handle : ℕ) (subscriber : Subscriber), s.subscribers[handle]? = some subscriber →
      let endpoint := subscriber.endpoint
      Rising Delta.revision (endpoint.polled ++ endpoint.sub.queue) ∧
      (endpoint.sub.closed = false → ∀ delta ∈ s.committed, subscriber.since < delta.revision →
        (∀ writer phase, s.writers.lookup writer = some phase → phase.delta ≠ delta) →
        ∀ slice, delta.sliceFor endpoint.sub.interest = some slice →
          ∃ received ∈ endpoint.polled ++ endpoint.sub.queue, received.Covers slice) := by
  intro s
  obtain ⟨horderly, hserved⟩ : Orderly s ∧ AllServed s := served_run head capacity overflow hturn
  refine ⟨horderly.noErrors, fun handle subscriber hsubscriber => ?_⟩
  have hserves := hserved handle subscriber hsubscriber
  refine ⟨hserves.inOrder.rising, fun hopen delta hdelta hsince hover slice hslice => ?_⟩
  rcases hserves.complete hopen delta hdelta hsince slice hslice with hoffered | howed
  · exact hserves.covered hopen slice hoffered
  · obtain ⟨writer, phase, hlookup, hphase, -⟩ := howed
    exact absurd hphase (hover writer phase hlookup)

/-- The steps of one hook without interruption, for one subscription. -/
def wholeHook (writer : ℕ) (content : Delta) : List HubStep :=
  [.commit writer content, .invalidate writer, .schedule writer false, .check writer,
    .accept writer, .offer writer 0, .finish writer]

/-- A delta without content; the commit gives it its revision. -/
def emptyDelta : Delta := ⟨0, ∅, ∅, ∅, ∅, ∅, ∅, false, ∅, ∅⟩

/-- The hooks of two writers interleave up to the lock of the bus and pass it
in the order of the commits. -/
theorem revisions_published_in_order_two_writers :
    let s := run hubStep (Hub.opened 1 8 .coalesce)
      [.subscribe Interest.ALL, .commit 0 emptyDelta, .commit 1 emptyDelta, .invalidate 1,
        .invalidate 0, .schedule 1 false, .schedule 0 false, .check 1, .check 0, .accept 0,
        .offer 0 0, .accept 1, .finish 0, .offer 1 0, .finish 1]
    s.assertionErrors = [] ∧ s.writers = ∅ ∧ s.committed.map Delta.revision = [2, 3] ∧
      ∀ subscriber ∈ s.subscribers[0]?,
        Rising Delta.revision (subscriber.endpoint.polled ++ subscriber.endpoint.sub.queue) := by
  intro s
  have hpublished := revisions_published_in_order 1 8 .coalesce
    [.subscribe Interest.ALL, .commit 0 emptyDelta, .commit 1 emptyDelta, .invalidate 1,
      .invalidate 0, .schedule 1 false, .schedule 0 false, .check 1, .check 0, .accept 0,
      .offer 0 0, .accept 1, .finish 0, .offer 1 0, .finish 1] (by decide)
  exact ⟨hpublished.1, by decide, by decide, fun subscriber hsubscriber =>
    (hpublished.2 0 subscriber hsubscriber).1⟩

/-- Two writers commit one after the other and the later one publishes first:
the bus refuses the earlier revision, and a subscriber to everything never
receives it. -/
theorem revisions_published_out_of_order :
    let s := run hubStep (Hub.opened 1 8 .coalesce)
      ([.subscribe Interest.ALL, .commit 0 emptyDelta] ++ wholeHook 1 emptyDelta ++
        [.invalidate 0, .schedule 0 false, .check 0, .accept 0])
    s.writers = ∅ ∧ s.committed.map Delta.revision = [2, 3] ∧
      s.assertionErrors = ["bus received revision 2 after 3 — revision order broken"] ∧
      s.subscribers.map (fun subscriber => subscriber.endpoint.offered.map Delta.revision) =
        [[3]] := by
  decide

end Tyo3.Publication
