import Mathlib.Data.Finset.Sort
import Tyo3.MessageBus

/-!
# Fan-out of the daemon

The daemon holds one subscription to everything and a pump that drains it.
Each delta that the pump takes is matched against the interest of a client
and cut down for it, just as the bus does for a direct subscriber. The pump's
queue merges deltas before they are matched, the bus matches them before they
are queued. What a client is sent still covers what a direct subscriber with
the same interest is offered.
-/

namespace Tyo3.DaemonFanout

open Entities Deltas Subscriptions MessageBus BoundedQueues Runs

/-- The parameters of a notification. -/
structure DeltaParams where
  /-- The revision. -/
  revision : Revision
  /-- Ids created, in order. -/
  createdIds : List String
  /-- Ids changed, in order. -/
  changedIds : List String
  /-- Ids deleted, in order. -/
  deletedIds : List String
  /-- Ids moved, in order. -/
  movedIds : List String
  /-- Ids with a new authored record, in order. -/
  authoredIds : List String
  /-- Ids affected, in order. -/
  affectedIds : List String
  /-- Files touched, in order. -/
  touchedFiles : List String
  /-- Whether everything may have changed. -/
  rescan : Bool

/-- The notification of a delta. The touched layers are not sent. -/
def deltaParams (delta : Delta) : DeltaParams where
  revision := delta.revision
  createdIds := delta.created.sort (· ≤ ·)
  changedIds := delta.changed.sort (· ≤ ·)
  deletedIds := delta.deleted.sort (· ≤ ·)
  movedIds := delta.moved.sort (· ≤ ·)
  authoredIds := delta.authored.sort (· ≤ ·)
  affectedIds := delta.affected.sort (· ≤ ·)
  touchedFiles := delta.files.sort (· ≤ ·)
  rescan := delta.rescan

/-- The set that a notification reports in a category. -/
def DeltaParams.category (params : DeltaParams) : Category → Finset String
  | .created => params.createdIds.toFinset
  | .changed => params.changedIds.toFinset
  | .deleted => params.deletedIds.toFinset
  | .moved => params.movedIds.toFinset
  | .authored => params.authoredIds.toFinset
  | .affected => params.affectedIds.toFinset
  | .files => params.touchedFiles.toFinset
  | .layers => ∅

/-- A connected client and what it was sent. -/
structure Client where
  /-- What the client asked for. -/
  interest : Interest
  /-- The notifications sent, in order. -/
  received : List DeltaParams

/-- Send a client its slice of a delta. -/
def broadcastDelta (delta : Delta) (client : Client) : Client :=
  match delta.sliceFor client.interest with
  | some slice => { client with received := client.received ++ [deltaParams slice] }
  | none => client

/-- Handle of the pump's subscription. -/
def pumpHandle : ℕ := 0

/-- Handle of a direct subscriber. -/
def directHandle : ℕ := 1

/-- The bus with the pump's subscription, a direct subscriber and a client
that asks for the same. -/
structure Daemon where
  /-- The bus. -/
  bus : Bus
  /-- The pump's subscription. -/
  pump : Endpoint
  /-- The direct subscriber. -/
  direct : Endpoint
  /-- The client. -/
  client : Client

/-- Both subscriptions are registered and nothing is published. -/
def Daemon.start (capacity : ℤ) (overflow : Overflow) (interest : Interest) : Daemon where
  bus := { Bus.new with subs := {pumpHandle, directHandle} }
  pump := Endpoint.new Interest.ALL capacity .coalesce
  direct := Endpoint.new interest capacity overflow
  client := ⟨interest, []⟩

/-- What happens next at the daemon. -/
inductive DaemonStep
  /-- A delta is published on the bus. -/
  | publish (delta : Delta)
  /-- The pump polls its subscription and emits what it takes. -/
  | pump
  /-- The direct subscriber does something of its own. -/
  | direct (step : Step)

/-- One publication, or one round of the pump. -/
def daemonStep (s : Daemon) : DaemonStep → Daemon
  | .publish delta =>
    match s.bus.accept delta with
    | (.accepted subs, bus) =>
      { s with
        bus := bus
        pump := if pumpHandle ∈ subs then fanOut delta s.pump else s.pump
        direct := if directHandle ∈ subs then fanOut delta s.direct else s.direct }
    | (_, bus) => { s with bus := bus }
  | .pump =>
    { s with
      pump := takeStep s.pump .poll
      client := match s.pump.sub.poll.1 with
        | some delta => broadcastDelta delta s.client
        | none => s.client }
  | .direct step =>
    match step with
    | .offer _ => s
    | step => { s with direct := takeStep s.direct step }

/-! ## What the client has when the pump is done -/

/-- What holds of the daemon at every moment. -/
structure Follows (capacity : ℤ) (interest : Interest) (s : Daemon) : Prop where
  /-- The pump's subscription is in order. -/
  sound : Sound capacity .coalesce s.pump
  /-- The bus is open. -/
  opened : s.bus.closed = false
  /-- Both subscriptions stay registered. -/
  subs : s.bus.subs = {pumpHandle, directHandle}
  /-- The pump listens to everything. -/
  pumpInterest : s.pump.sub.interest = Interest.ALL
  /-- The direct subscriber keeps its interest. -/
  directInterest : s.direct.sub.interest = interest
  /-- The client keeps its interest. -/
  clientInterest : s.client.interest = interest
  /-- Revisions are published in order. -/
  rising : Rising Delta.revision s.pump.offered
  /-- The bus knows the last revision. -/
  bounded : ∀ delta ∈ s.pump.offered, (delta.revision : ℤ) ≤ s.bus.lastPublishedRevision
  /-- What the pump takes is in order. -/
  inOrder : InOrder Delta.revision s.pump.account
  /-- What is published is covered by what the pump takes or has waiting. -/
  covered : Covered Delta.Covers s.pump.account
  /-- The direct subscriber is offered its slices of what is published. -/
  offered : s.direct.offered = s.pump.offered.filterMap (·.sliceFor interest)
  /-- The client is sent its slices of what the pump takes. -/
  received : s.client.received =
    (s.pump.polled.filterMap (·.sliceFor interest)).map deltaParams

variable {capacity : ℤ} {interest : Interest}

theorem follows_start (capacity : ℤ) (overflow : Overflow) (interest : Interest) :
    Follows capacity interest (Daemon.start capacity overflow interest) where
  sound := sound_new Interest.ALL capacity .coalesce
  opened := rfl
  subs := rfl
  pumpInterest := rfl
  directInterest := rfl
  clientInterest := rfl
  rising := List.Pairwise.nil
  bounded := nofun
  inOrder := inOrder_fresh
  covered := nofun
  offered := rfl
  received := rfl

/-- What happens at the pump's subscription keeps it in order and covering. -/
theorem Follows.pump_effect {s : Daemon} (hs : Follows capacity interest s) {t : Endpoint}
    {step : Step} (h : Effect s.pump step t) (hrising : Rising Delta.revision t.offered) :
    Sound capacity .coalesce t ∧ InOrder Delta.revision t.account ∧
      Covered Delta.Covers t.account := by
  obtain ⟨hopen, -, hreleases⟩ := hs.sound.opened (by simp)
  exact ⟨h.sound hs.sound, h.inOrder hs.sound.pos (fun _ => hs.inOrder) hrising,
    h.covered hs.sound.pos hopen hreleases (fun _ => hs.sound.policy) hs.covered⟩

/-- A publication offers the delta to the pump as it is and its slice to the
direct subscriber. -/
theorem Follows.publish {s : Daemon} (hs : Follows capacity interest s) (delta : Delta) :
    Follows capacity interest (daemonStep s (.publish delta)) := by
  have hsubs : s.bus.subs ≠ ∅ := by
    rw [hs.subs]
    exact Finset.insert_ne_empty _ _
  rcases accept_of_open hs.opened hsubs delta with ⟨hlater, haccept⟩ | ⟨-, message, haccept⟩
  · have hpump : fanOut delta s.pump = takeStep s.pump (.offer delta) := by
      rw [fanOut, hs.pumpInterest, sliceFor_all]
    have hmem : pumpHandle ∈ s.bus.subs ∧ directHandle ∈ s.bus.subs := by simp [hs.subs]
    have hstep : daemonStep s (.publish delta) =
        { s with
          bus := { s.bus with lastPublishedRevision := delta.revision }
          pump := takeStep s.pump (.offer delta)
          direct := fanOut delta s.direct } := by
      simp only [daemonStep, haccept, if_pos hmem.1, if_pos hmem.2, hpump]
    have hearlier : ∀ d ∈ s.pump.offered, d.revision < delta.revision := by
      intro d hd
      have hbound := hs.bounded d hd
      exact Int.ofNat_lt.mp (lt_of_le_of_lt hbound hlater)
    have hoffered : (takeStep s.pump (.offer delta)).offered = s.pump.offered ++ [delta] := rfl
    have hrising : Rising Delta.revision (takeStep s.pump (.offer delta)).offered := by
      rw [hoffered, rising_concat]
      exact ⟨hs.rising, hearlier⟩
    obtain ⟨hsound, horder, hcovered⟩ :=
      hs.pump_effect (takeStep_effect s.pump (.offer delta)) hrising
    rw [hstep]
    refine ⟨hsound, hs.opened, hs.subs, ?_, ?_, hs.clientInterest, hrising, ?_, horder, hcovered,
      ?_, hs.received⟩
    · exact (takeStep_interest _ _).trans hs.pumpInterest
    · exact (fanOut_interest _ _).trans hs.directInterest
    · intro d hd
      rcases List.mem_append.mp hd with hd | hd
      · exact Int.ofNat_le.mpr (hearlier d hd).le
      · rw [List.mem_singleton.mp hd]
    · show (fanOut delta s.direct).offered = (s.pump.offered ++ [delta]).filterMap _
      rw [fanOut_offered, hs.directInterest, hs.offered, List.filterMap_append]
      cases hslice : delta.sliceFor interest <;> simp [hslice]
  · have hstep : daemonStep s (.publish delta) = s := by
      simp only [daemonStep, haccept]
    rw [hstep]
    exact hs

/-- A round of the pump hands the client its slice of the delta taken. -/
theorem Follows.pump_round {s : Daemon} (hs : Follows capacity interest s) :
    Follows capacity interest (daemonStep s .pump) := by
  obtain ⟨hsound, horder, hcovered⟩ :=
    hs.pump_effect (takeStep_effect s.pump .poll) hs.rising
  refine ⟨hsound, hs.opened, hs.subs, (takeStep_interest _ _).trans hs.pumpInterest,
    hs.directInterest, ?_, hs.rising, hs.bounded, horder, hcovered, hs.offered, ?_⟩
  · simp only [daemonStep]
    split
    · unfold broadcastDelta
      split
      · exact hs.clientInterest
      · exact hs.clientInterest
    · exact hs.clientInterest
  · have hpolled : (takeStep s.pump .poll).polled = s.pump.polled ++ s.pump.sub.poll.1.toList := rfl
    simp only [daemonStep, hpolled, List.filterMap_append, List.map_append]
    cases htaken : s.pump.sub.poll.1 with
    | none => simp [hs.received]
    | some delta =>
      simp only [broadcastDelta, hs.clientInterest, Option.toList_some]
      cases hslice : delta.sliceFor interest <;> simp [hslice, hs.received]

/-- Every step keeps what holds of the daemon. -/
theorem follows_daemonStep (s : Daemon) (step : DaemonStep) (hs : Follows capacity interest s) :
    Follows capacity interest (daemonStep s step) := by
  cases step with
  | publish delta => exact hs.publish delta
  | pump => exact hs.pump_round
  | direct step =>
    have hdirect : ∀ step', offersOf [step'] = [] →
        Follows capacity interest { s with direct := takeStep s.direct step' } := by
      intro step' hnone
      have hoffered : (takeStep s.direct step').offered = s.direct.offered := by
        rw [takeStep_offered, hnone, List.append_nil]
      exact { hs with
        directInterest := (takeStep_interest _ _).trans hs.directInterest
        offered := hoffered.trans hs.offered }
    cases step with
    | offer delta => exact hs
    | poll => exact hdirect .poll rfl
    | next => exact hdirect .next rfl
    | beginClose => exact hdirect .beginClose rfl
    | releaseQueue => exact hdirect .releaseQueue rfl

/-- What holds of the daemon holds after every run. -/
theorem follows_run (capacity : ℤ) (overflow : Overflow) (interest : Interest)
    (steps : List DaemonStep) :
    Follows capacity interest
      (run daemonStep (Daemon.start capacity overflow interest) steps) := by
  have hstep : ∀ s step, Follows capacity interest s → True →
      Follows capacity interest (daemonStep s step) := fun s step hs _ =>
    follows_daemonStep s step hs
  exact invariant_run hstep (follows_start capacity overflow interest)
    (along_of_forall fun _ _ => trivial)

/-- Sorting for the wire keeps the sets of all categories but the layers. -/
theorem deltaParams_category (delta : Delta) {c : Category} (hc : c ≠ .layers) :
    (deltaParams delta).category c = delta.category c := by
  cases c with
  | layers => exact absurd rfl hc
  | _ => exact Finset.sort_toFinset _ _

/-- Slices of deltas in order are in order. -/
theorem rising_filterMap_sliceFor {deltas : List Delta} (h : Rising Delta.revision deltas) :
    Rising Delta.revision (deltas.filterMap (·.sliceFor interest)) := by
  refine List.Pairwise.filterMap _ ?_ h
  intro a b hlt slice hslice slice' hslice'
  rw [revision_of_sliceFor hslice, revision_of_sliceFor hslice']
  exact hlt

/-- Once the pump's queue is empty, every offer to the direct subscriber is
covered by a notification to the client. -/
theorem Follows.sent {s : Daemon} (hs : Follows capacity interest s)
    (hdrained : s.pump.sub.queue = []) {offer : Delta} (hoffer : offer ∈ s.direct.offered) :
    ∃ slice, deltaParams slice ∈ s.client.received ∧ slice.Covers offer := by
  rw [hs.offered] at hoffer
  obtain ⟨delta, hdelta, hslice⟩ := List.mem_filterMap.mp hoffer
  obtain ⟨taken, htaken, hcovers⟩ := hs.covered delta hdelta
  have hpolled : taken ∈ s.pump.polled := by
    rw [Account.delivered] at htaken
    change taken ∈ s.pump.polled ++ s.pump.sub.queue at htaken
    rw [hdrained, List.append_nil] at htaken
    exact htaken
  obtain ⟨slice, hlarger, hcovered⟩ := hcovers.sliceFor hslice
  refine ⟨slice, ?_, hcovered⟩
  rw [hs.received]
  exact List.mem_map_of_mem (List.mem_filterMap.mpr ⟨taken, hpolled, hlarger⟩)

/-- For every order of publications and rounds of the pump: once the pump has
drained its queue, the client was sent everything a direct subscriber with the
same interest was offered, up to the same revision, and in order. -/
theorem daemon_refines_bus (capacity : ℤ) (overflow : Overflow) (interest : Interest)
    (steps : List DaemonStep) :
    let s := run daemonStep (Daemon.start capacity overflow interest) steps
    s.pump.sub.queue = [] →
      (∀ c : Category, c ≠ .layers →
        joinOf (Delta.category · c) s.direct.offered ⊆
          joinOf (DeltaParams.category · c) s.client.received) ∧
      (∀ offer ∈ s.direct.offered, ∃ params ∈ s.client.received,
        offer.revision ≤ params.revision) ∧
      Rising DeltaParams.revision s.client.received := by
  intro s hdrained
  have hs : Follows capacity interest s := follows_run capacity overflow interest steps
  refine ⟨fun c hc => ?_, fun offer hoffer => ?_, ?_⟩
  · refine joinOf_le fun offer hoffer => ?_
    obtain ⟨slice, hsent, hcovers⟩ := hs.sent hdrained hoffer
    have hbelow : (deltaParams slice).category c ≤
        joinOf (DeltaParams.category · c) s.client.received :=
      le_joinOf (f := (DeltaParams.category · c)) hsent
    rw [deltaParams_category slice hc] at hbelow
    exact (hcovers.1.category c).trans hbelow
  · obtain ⟨slice, hsent, hcovers⟩ := hs.sent hdrained hoffer
    exact ⟨deltaParams slice, hsent, hcovers.2⟩
  · have hpolled : Rising Delta.revision s.pump.polled :=
      (List.pairwise_append.mp hs.inOrder.rising).1
    rw [hs.received]
    exact List.Pairwise.map _ (fun _ _ h => h) (rising_filterMap_sliceFor hpolled)

/-- Two publications wait in a queue for one delta and are merged. The first
matches the interest, the second does not; the client hears of the first under
the revision of the second. -/
theorem daemon_refines_bus_merged :
    let wanted : Delta := ⟨1, ∅, {"a"}, ∅, ∅, ∅, {"a"}, false, {"a.py"}, {"code"}⟩
    let other : Delta := ⟨2, ∅, {"b"}, ∅, ∅, ∅, {"b"}, false, {"b.py"}, {"code"}⟩
    let s := run daemonStep (Daemon.start 1 .coalesce { ids := {"a"} })
      [.publish wanted, .publish other, .pump]
    s.direct.offered = [wanted] ∧ ∃ params ∈ s.client.received, 1 ≤ params.revision := by
  intro wanted other s
  have hoffered : s.direct.offered = [wanted] := by decide
  have hrefines := daemon_refines_bus 1 .coalesce { ids := {"a"} }
    [.publish wanted, .publish other, .pump] (by decide)
  refine ⟨hoffered, hrefines.2.1 wanted ?_⟩
  change wanted ∈ s.direct.offered
  rw [hoffered]
  exact List.mem_cons_self

end Tyo3.DaemonFanout
