import Tyo3.AgentClient
import Tyo3.Runs

/-!
# Answers and requests

Every id belongs to one call, and every response frame to one sent frame. As
long as the writes of `close` and `reconnect` do not fall between two steps
of a request, a request ends with the response to its own frame or with an
exception of the client, and then its id is in neither table.
-/

namespace Tyo3.AgentClient

open JsonValues Runs

/-! ## The invariant -/

/-- The id of a call. -/
def Caller.id : Caller → Option ℕ
  | .registered _ id => some id
  | .waiting _ id => some id
  | .found _ id => some id
  | .finished id _ => id
  | _ => none

/-- The id of a call that may have sent its frame. -/
def Caller.sentId : Caller → Option ℕ
  | .waiting _ id => some id
  | .found _ id => some id
  | .finished id _ => id
  | _ => none

/-- The id of a call that waits for its response. -/
def Caller.waitingId : Caller → Option ℕ
  | .waiting _ id => some id
  | _ => none

/-- The id of a call that has not yet taken its response. -/
def Caller.openId : Caller → Option ℕ
  | .waiting _ id => some id
  | .found _ id => some id
  | _ => none

/-- The id of a call that has registered it and found no response. -/
def Caller.activeId : Caller → Option ℕ
  | .registered _ id => some id
  | .waiting _ id => some id
  | _ => none

/-- The exception of an outcome. -/
def Outcome.failure : Outcome → Option Failure
  | .returned _ _ => none
  | .refused _ failure => some failure
  | .raised failure => some failure

/-- A response frame of the daemon whose id was registered when it arrived. -/
def Client.Accepted (s : Client) (frame : Frame) : Prop :=
  frame ∈ s.frames ∧ frame.number ∈ s.accepted

/-- A call ended as it should: with a response to its own frame, or with an
exception of the client. -/
structure Settled (acc : Frame → Prop) (n : ℕ) (id : Option ℕ) (outcome : Outcome) : Prop where
  /-- The response carries the id of the call and answers its frame. -/
  own : ∀ frame, outcome.frame = some frame →
    acc frame ∧ frame.request.caller = n ∧ id = some frame.request.id
  /-- What is returned is the result of the response. -/
  result : ∀ frame value, outcome = .returned frame value →
    frame.body.error = none ∧ value = frame.body.result.getD .null
  /-- What is raised is an `AgentError`. -/
  failure : ∀ failure, outcome.failure = some failure → failure.isAgentError = true

/-- The id of a call that has found its response. -/
def Caller.foundId : Caller → Option ℕ
  | .found _ id => some id
  | _ => none

/-- The frame that a reader with the lock is moving. -/
def Holder.frame : Holder → Option Frame
  | .caller _ => none
  | .storing _ frame => some frame
  | .discarding _ frame => some frame

section Invariants

variable {callers : ℕ → Caller} {nextId : ℕ} {sock : Option ℕ} {connections : ℕ}
  {sent : List Sent} {frames : List Frame} {pending : Finset ℕ} {responses : ℕ → Option Frame}
  {holder : Option Holder} {acc : Frame → Prop} {n id : ℕ} {method : String} {c' : Caller}

/-- What a property of calls says once one call has moved on. -/
theorem at_update {β : Type*} (π : Caller → β) (callers : ℕ → Caller) (n : ℕ) (c' : Caller)
    (m : ℕ) : π (Function.update callers n c' m) = if m = n then π c' else π (callers m) := by
  by_cases hm : m = n
  · rw [hm, Function.update_self, if_pos rfl]
  · rw [Function.update_of_ne hm, if_neg hm]

/-- Ids are counted up, and no two calls have one. -/
structure Ids (callers : ℕ → Caller) (nextId : ℕ) : Prop where
  /-- No id is ahead of the counter. -/
  bound : ∀ n id, (callers n).id = some id → id ≤ nextId
  /-- An id has one call. -/
  unique : ∀ n m id, (callers n).id = some id → (callers m).id = some id → n = m

theorem Ids.move (h : Ids callers nextId) (hid : c'.id = (callers n).id) :
    Ids (Function.update callers n c') nextId := by
  have hsame : ∀ m, (Function.update callers n c' m).id = (callers m).id := by
    intro m
    rw [at_update Caller.id]
    split_ifs with hm
    · rw [hid, hm]
    · rfl
  refine ⟨fun m id hm => ?_, fun m k id hm hk => ?_⟩
  · rw [hsame] at hm
    exact h.bound m id hm
  · rw [hsame] at hm hk
    exact h.unique m k id hm hk

theorem Ids.take (h : Ids callers nextId) (n : ℕ) (method : String) :
    Ids (Function.update callers n (.registered method (nextId + 1))) (nextId + 1) := by
  have hnew : ∀ m id, (Function.update callers n (.registered method (nextId + 1)) m).id =
      some id → m = n ∧ id = nextId + 1 ∨ m ≠ n ∧ (callers m).id = some id := by
    intro m id hm
    rw [at_update Caller.id] at hm
    split_ifs at hm with heq
    · exact Or.inl ⟨heq, (Option.some.inj hm).symm⟩
    · exact Or.inr ⟨heq, hm⟩
  refine ⟨fun m id hm => ?_, fun m k id hm hk => ?_⟩
  · rcases hnew m id hm with ⟨-, rfl⟩ | ⟨-, hold⟩
    · exact le_rfl
    · have := h.bound m id hold
      omega
  · rcases hnew m id hm with ⟨rfl, hid⟩ | ⟨-, hold⟩ <;>
      rcases hnew k id hk with ⟨rfl, hid'⟩ | ⟨-, hold'⟩
    · rfl
    · have := h.bound k id hold'
      omega
    · have := h.bound m id hold
      omega
    · exact h.unique m k id hold hold'

/-- What goes over the wire belongs to calls. -/
structure Wire (callers : ℕ → Caller) (sock : Option ℕ) (connections : ℕ) (sent : List Sent)
    (frames : List Frame) : Prop where
  /-- The client holds its newest connection or none. -/
  newest : ∀ c, sock = some c → c = connections
  /-- A sent frame carries the id of its call. -/
  carries : ∀ f ∈ sent, (callers f.caller).sentId = some f.id
  /-- The daemon answers what it has received. -/
  answers : ∀ frame ∈ frames, frame.request ∈ sent

theorem Wire.move (h : Wire callers sock connections sent frames)
    (hsent : ∀ id, (callers n).sentId = some id → c'.sentId = some id) :
    Wire (Function.update callers n c') sock connections sent frames := by
  refine ⟨h.newest, fun f hf => ?_, h.answers⟩
  rw [at_update Caller.sentId]
  split_ifs with hn
  · exact hsent _ (hn ▸ h.carries f hf)
  · exact h.carries f hf

theorem Wire.send (h : Wire callers sock connections sent frames)
    (hn : callers n = .registered method id) (c : ℕ) :
    Wire (Function.update callers n (.waiting method id)) sock connections
      (sent ++ [⟨n, id, c⟩]) frames := by
  have hmove : Wire (Function.update callers n (.waiting method id)) sock connections sent
      frames := h.move (fun id' hid' => by simp [hn, Caller.sentId] at hid')
  refine ⟨h.newest, fun f hf => ?_, fun frame hframe => ?_⟩
  · rcases List.mem_append.mp hf with hold | hnew
    · exact hmove.carries f hold
    · rw [List.mem_singleton.mp hnew]
      simp [Caller.sentId]
  · exact List.mem_append_left _ (h.answers frame hframe)

/-- What the tables of the client and their lock have to do with the calls;
frames that were accepted on arrival are given. -/
structure Tables (callers : ℕ → Caller) (connections : ℕ) (sent : List Sent)
    (pending : Finset ℕ) (responses : ℕ → Option Frame) (holder : Option Holder)
    (acc : Frame → Prop) : Prop where
  /-- A registered id is the one of a call under way. -/
  active : ∀ id ∈ pending, ∃ n, (callers n).activeId = some id
  /-- Its frame, if sent, went over the newest connection. -/
  current : ∀ f ∈ sent, f.id ∈ pending → f.conn = connections
  /-- A stored response is one for a call that has not taken it. -/
  stored : ∀ id frame, responses id = some frame → acc frame ∧ frame.request.id = id ∧
    (callers frame.request.caller).openId = some id
  /-- A reader with the lock moves the response of a call that waits. -/
  moving : ∀ h frame, holder = some h → h.frame = some frame → acc frame ∧
    (callers frame.request.caller).waitingId = some frame.request.id
  /-- A call that has found its response holds the lock, and the response is
  there. -/
  found : ∀ n id, (callers n).foundId = some id →
    holder = some (.caller n) ∧ (responses id).isSome = true
  /-- An id is registered or has a response; both only while a reader moves it
  over. -/
  apart : ∀ id ∈ pending, (responses id).isSome = true →
    ∃ t frame, holder = some (.discarding t frame) ∧ frame.request.id = id

namespace Tables

variable (h : Tables callers connections sent pending responses holder acc)
include h

/-- A call moves on without leaving the tables. -/
theorem move (hactive : ∀ id, (callers n).activeId = some id → c'.activeId = some id)
    (hopen : ∀ id, (callers n).openId = some id → c'.openId = some id)
    (hwaiting : ∀ id, (callers n).waitingId = some id → c'.waitingId = some id)
    (hfound : c'.foundId = none) :
    Tables (Function.update callers n c') connections sent pending responses holder acc := by
  refine ⟨fun id hid => ?_, h.current, fun id frame hframe => ?_, fun hold frame hh hf => ?_,
    fun m id hm => ?_, h.apart⟩
  · obtain ⟨m, hm⟩ := h.active id hid
    refine ⟨m, ?_⟩
    rw [at_update Caller.activeId]
    split_ifs with heq
    · exact hactive id (heq ▸ hm)
    · exact hm
  · obtain ⟨hacc, hid, hcaller⟩ := h.stored id frame hframe
    refine ⟨hacc, hid, ?_⟩
    rw [at_update Caller.openId]
    split_ifs with heq
    · exact hopen id (heq ▸ hcaller)
    · exact hcaller
  · obtain ⟨hacc, hcaller⟩ := h.moving hold frame hh hf
    refine ⟨hacc, ?_⟩
    rw [at_update Caller.waitingId]
    split_ifs with heq
    · exact hwaiting _ (heq ▸ hcaller)
    · exact hcaller
  · rw [at_update Caller.foundId] at hm
    split_ifs at hm with heq
    · rw [hfound] at hm
      cases hm
    · exact h.found m id hm

/-- A call registers a new id. -/
theorem register (hn : callers n = .checked method) (hfresh : ∀ f ∈ sent, f.id ≠ id)
    (hnone : responses id = none) :
    Tables (Function.update callers n (.registered method id)) connections sent
      (insert id pending) responses holder acc := by
  have hmove : Tables (Function.update callers n (.registered method id)) connections sent pending
      responses holder acc := by
    refine h.move ?_ ?_ ?_ rfl
    all_goals simp [hn, Caller.activeId, Caller.openId, Caller.waitingId]
  refine ⟨fun id' hid' => ?_, fun f hf hid' => ?_, hmove.stored, hmove.moving, hmove.found,
    fun id' hid' hsome => ?_⟩
  · rcases Finset.mem_insert.mp hid' with rfl | hold
    · exact ⟨n, by simp [Caller.activeId]⟩
    · exact hmove.active id' hold
  · rcases Finset.mem_insert.mp hid' with heq | hold
    · exact absurd heq (hfresh f hf)
    · exact h.current f hf hold
  · rcases Finset.mem_insert.mp hid' with rfl | hold
    · rw [hnone] at hsome
      exact absurd hsome (by simp)
    · exact h.apart id' hold hsome

/-- A call sends its frame over the newest connection. -/
theorem send (hn : callers n = .registered method id) :
    Tables (Function.update callers n (.waiting method id)) connections
      (sent ++ [⟨n, id, connections⟩]) pending responses holder acc := by
  have hmove : Tables (Function.update callers n (.waiting method id)) connections sent pending
      responses holder acc := by
    refine h.move ?_ ?_ ?_ rfl
    all_goals simp [hn, Caller.activeId, Caller.openId, Caller.waitingId]
  refine ⟨hmove.active, fun f hf hid => ?_, hmove.stored, hmove.moving, hmove.found, hmove.apart⟩
  rcases List.mem_append.mp hf with hold | hnew
  · exact h.current f hold hid
  · rw [List.mem_singleton.mp hnew]

/-- A call ends without a response and takes its id from the registered
ones. -/
theorem giveUp (hid : (callers n).id = some id) (hnone : responses id = none)
    (hfree : ∀ h frame, holder = some h → h.frame = some frame → frame.request.caller ≠ n)
    (outcome : Outcome) :
    Tables (Function.update callers n (.finished (some id) outcome)) connections sent
      (pending.erase id) responses holder acc := by
  have hactive : ∀ m id', (callers m).activeId = some id' → id' ≠ id → m ≠ n := by
    rintro m id' hm hne rfl
    cases hc : callers m <;> simp_all [Caller.activeId, Caller.id]
  refine ⟨fun id' hid' => ?_, fun f hf hid' => ?_, fun id' frame hframe => ?_,
    fun hold frame hh hf => ?_, fun m id' hm => ?_, fun id' hid' hsome => ?_⟩
  · obtain ⟨hne, hin⟩ := Finset.mem_erase.mp hid'
    obtain ⟨m, hm⟩ := h.active id' hin
    exact ⟨m, by rw [Function.update_of_ne (hactive m id' hm hne), hm]⟩
  · exact h.current f hf (Finset.mem_of_mem_erase hid')
  · obtain ⟨hacc, heq, hcaller⟩ := h.stored id' frame hframe
    refine ⟨hacc, heq, ?_⟩
    rw [Function.update_of_ne, hcaller]
    intro hn
    have hsame : id' = id := by
      rw [hn] at hcaller
      cases hc : callers n <;> simp_all [Caller.openId, Caller.id]
    rw [hsame, hnone] at hframe
    cases hframe
  · obtain ⟨hacc, hcaller⟩ := h.moving hold frame hh hf
    exact ⟨hacc, by rw [Function.update_of_ne (hfree hold frame hh hf), hcaller]⟩
  · rw [at_update Caller.foundId] at hm
    split_ifs at hm with heq
    · cases hm
    · exact h.found m id' hm
  · exact h.apart id' (Finset.mem_of_mem_erase hid') hsome

/-- A call finds its response and takes the lock. -/
theorem find (hn : callers n = .waiting method id) (hsome : (responses id).isSome = true)
    (hfree : holder = none) :
    Tables (Function.update callers n (.found method id)) connections sent pending responses
      (some (.caller n)) acc := by
  have hapart : ∀ id' ∈ pending, ¬ (responses id').isSome = true := by
    intro id' hid' hsome'
    obtain ⟨t, frame, hheld, -⟩ := h.apart id' hid' hsome'
    rw [hfree] at hheld
    cases hheld
  refine ⟨fun id' hid' => ?_, h.current, fun id' frame hframe => ?_, fun hold frame hh hf => ?_,
    fun m id' hm => ?_, fun id' hid' hsome' => absurd hsome' (hapart id' hid')⟩
  · obtain ⟨m, hm⟩ := h.active id' hid'
    refine ⟨m, ?_⟩
    rw [Function.update_of_ne, hm]
    rintro rfl
    have hsame : id = id' := by simpa [hn, Caller.activeId] using hm
    exact hapart id' hid' (hsame ▸ hsome)
  · obtain ⟨hacc, heq, hcaller⟩ := h.stored id' frame hframe
    refine ⟨hacc, heq, ?_⟩
    rw [at_update Caller.openId]
    split_ifs with hm
    · rw [hm, hn] at hcaller
      exact hcaller
    · exact hcaller
  · cases hh
    cases hf
  · rw [at_update Caller.foundId] at hm
    split_ifs at hm with heq
    · cases hm
      exact ⟨by rw [heq], hsome⟩
    · have hheld := (h.found m id' hm).1
      rw [hfree] at hheld
      cases hheld

/-- A call takes its response out and gives the lock back. -/
theorem pop (hn : callers n = .found method id) (outcome : Outcome) :
    Tables (Function.update callers n (.finished (some id) outcome)) connections sent pending
      (Function.update responses id none) none acc := by
  have hheld : holder = some (.caller n) := (h.found n id (by rw [hn]; rfl)).1
  refine ⟨fun id' hid' => ?_, h.current, fun id' frame hframe => ?_, fun hold frame hh hf => ?_,
    fun m id' hm => ?_, fun id' hid' hsome => ?_⟩
  · obtain ⟨m, hm⟩ := h.active id' hid'
    refine ⟨m, ?_⟩
    rw [Function.update_of_ne, hm]
    rintro rfl
    rw [hn] at hm
    cases hm
  · have hne : id' ≠ id := by
      rintro rfl
      rw [Function.update_self] at hframe
      cases hframe
    rw [Function.update_of_ne hne] at hframe
    obtain ⟨hacc, heq, hcaller⟩ := h.stored id' frame hframe
    refine ⟨hacc, heq, ?_⟩
    rw [Function.update_of_ne, hcaller]
    intro hm
    rw [hm, hn] at hcaller
    exact hne (Option.some.inj hcaller).symm
  · cases hh
  · rw [at_update Caller.foundId] at hm
    split_ifs at hm with heq
    · cases hm
    · have hother := (h.found m id' hm).1
      rw [hheld] at hother
      cases hother
      exact absurd rfl heq
  · have hsome' : (responses id').isSome = true := by
      by_cases hne : id' = id
      · rw [hne, Function.update_self] at hsome
        cases hsome
      · rwa [Function.update_of_ne hne] at hsome
    obtain ⟨t, frame, hother, -⟩ := h.apart id' hid' hsome'
    rw [hheld] at hother
    cases hother

/-- More frames are accepted. -/
theorem mono {acc' : Frame → Prop} (hacc : ∀ frame, acc frame → acc' frame) :
    Tables callers connections sent pending responses holder acc' :=
  ⟨h.active, h.current, fun id frame hframe => ⟨hacc _ (h.stored id frame hframe).1,
    (h.stored id frame hframe).2⟩, fun hold frame hh hf => ⟨hacc _ (h.moving hold frame hh hf).1,
    (h.moving hold frame hh hf).2⟩, h.found, h.apart⟩

variable {frame : Frame} {t : ℕ}

/-- A reader takes the lock for the response of a call that waits. -/
theorem look (hfree : holder = none) (hacc : acc frame)
    (hwaiting : (callers frame.request.caller).waitingId = some frame.request.id) :
    Tables callers connections sent pending responses (some (.storing t frame)) acc := by
  refine ⟨h.active, h.current, h.stored, fun hold frame' hh hf => ?_, fun m id hm => ?_,
    fun id hid hsome => ?_⟩
  · cases hh
    cases hf
    exact ⟨hacc, hwaiting⟩
  · have hheld := (h.found m id hm).1
    rw [hfree] at hheld
    cases hheld
  · obtain ⟨t', frame', hheld, -⟩ := h.apart id hid hsome
    rw [hfree] at hheld
    cases hheld

/-- A reader stores its frame. -/
theorem store (hheld : holder = some (.storing t frame)) :
    Tables callers connections sent pending
      (Function.update responses frame.request.id (some frame)) (some (.discarding t frame))
      acc := by
  obtain ⟨hacc, hwaiting⟩ := h.moving _ frame hheld rfl
  refine ⟨h.active, h.current, fun id frame' hframe => ?_, fun hold frame' hh hf => ?_,
    fun m id hm => ?_, fun id hid hsome => ?_⟩
  · by_cases hid : id = frame.request.id
    · rw [hid, Function.update_self] at hframe
      cases hframe
      refine ⟨hacc, hid.symm, ?_⟩
      cases hc : callers frame.request.caller <;> simp_all [Caller.waitingId, Caller.openId]
    · rw [Function.update_of_ne hid] at hframe
      exact h.stored id frame' hframe
  · cases hh
    cases hf
    exact ⟨hacc, hwaiting⟩
  · have hother := (h.found m id hm).1
    rw [hheld] at hother
    cases hother
  · by_cases heq : id = frame.request.id
    · exact ⟨t, frame, rfl, heq.symm⟩
    · rw [Function.update_of_ne heq] at hsome
      obtain ⟨t', frame', hother, -⟩ := h.apart id hid hsome
      rw [hheld] at hother
      cases hother

/-- A reader takes the id of its frame from the registered ones. -/
theorem discard (hheld : holder = some (.discarding t frame)) :
    Tables callers connections sent (pending.erase frame.request.id) responses none acc := by
  refine ⟨fun id hid => h.active id (Finset.mem_of_mem_erase hid),
    fun f hf hid => h.current f hf (Finset.mem_of_mem_erase hid), h.stored,
    fun hold frame' hh hf => ?_, fun m id hm => ?_, fun id hid hsome => ?_⟩
  · cases hh
  · have hother := (h.found m id hm).1
    rw [hheld] at hother
    cases hother
  · obtain ⟨hne, hin⟩ := Finset.mem_erase.mp hid
    obtain ⟨t', frame', hother, heq⟩ := h.apart id hin hsome
    rw [hheld] at hother
    cases hother
    exact absurd heq.symm hne

/-- The responses are thrown away while no call has found one. -/
theorem clearResponses (hfree : ∀ n, holder ≠ some (.caller n)) :
    Tables callers connections sent pending (fun _ => none) holder acc :=
  ⟨h.active, h.current, fun _ _ hframe => absurd hframe (by simp), h.moving,
    fun m id hm => absurd (h.found m id hm).1 (hfree m), fun _ _ hsome => absurd hsome (by simp)⟩

/-- The registered ids are thrown away. -/
theorem clearPending : Tables callers connections sent ∅ responses holder acc :=
  ⟨fun _ hid => absurd hid (Finset.notMem_empty _),
    fun _ _ hid => absurd hid (Finset.notMem_empty _), h.stored, h.moving, h.found,
    fun _ hid => absurd hid (Finset.notMem_empty _)⟩

/-- A new connection is made while no sent id is registered. -/
theorem connect (hnone : ∀ f ∈ sent, f.id ∉ pending) (connections' : ℕ) :
    Tables callers connections' sent pending responses holder acc :=
  ⟨h.active, fun f hf hid => absurd hid (hnone f hf), h.stored, h.moving, h.found, h.apart⟩

end Tables

end Invariants

/-- The invariant of the client. -/
structure Sound (s : Client) : Prop where
  /-- Ids. -/
  ids : Ids s.callers s.nextId
  /-- Frames. -/
  wire : Wire s.callers s.sock s.connections s.sent s.frames
  /-- Tables. -/
  tables : Tables s.callers s.connections s.sent s.pending s.responses s.holder s.Accepted
  /-- Frames that were accepted have arrived. -/
  accepted : s.accepted ⊆ s.seen
  /-- Frames that were late have arrived. -/
  late : s.late ⊆ s.seen
  /-- Late frames are not accepted. -/
  timely : Disjoint s.accepted s.late
  /-- Calls ended as they should. -/
  settled : ∀ n id outcome, s.callers n = .finished id outcome → Settled s.Accepted n id outcome

theorem sound_new : Sound Client.new := by
  refine ⟨⟨?_, ?_⟩, ⟨?_, ?_, ?_⟩, ⟨?_, ?_, ?_, ?_, ?_, ?_⟩, ?_, ?_, ?_, ?_⟩
  all_goals simp [Client.new, Caller.id, Caller.foundId]

section Steps

variable {s : Client} {n id : ℕ} {method : String}

/-- Ends of calls when one call has moved on. -/
theorem settled_update (hs : Sound s) {c' : Caller}
    (hnew : ∀ id outcome, c' = .finished id outcome → Settled s.Accepted n id outcome) :
    ∀ m id outcome, Function.update s.callers n c' m = .finished id outcome →
      Settled s.Accepted m id outcome := by
  intro m id outcome hm
  by_cases heq : m = n
  · rw [heq, Function.update_self] at hm
    exact heq ▸ hnew id outcome hm
  · rw [Function.update_of_ne heq] at hm
    exact hs.settled m id outcome hm

theorem settled_raised (acc : Frame → Prop) (n : ℕ) (id : Option ℕ) {failure : Failure}
    (h : failure.isAgentError = true) : Settled acc n id (.raised failure) := by
  refine ⟨fun frame hframe => ?_, fun frame value hreturned => ?_, fun other hother => ?_⟩
  · cases hframe
  · cases hreturned
  · cases hother
    exact h

theorem id_of_sentId {c : Caller} (h : c.sentId = some id) : c.id = some id := by
  cases c <;> simp_all [Caller.sentId, Caller.id]

theorem id_of_openId {c : Caller} (h : c.openId = some id) : c.id = some id := by
  cases c <;> simp_all [Caller.openId, Caller.id]

/-- A response is stored only under the id of the call it is for. -/
theorem Sound.responses_eq_none (hs : Sound s) (hid : (s.callers n).id = some id)
    (hclosed : (s.callers n).openId = none) : s.responses id = none := by
  cases hframe : s.responses id with
  | none => rfl
  | some frame =>
    obtain ⟨-, -, hopen⟩ := hs.tables.stored id frame hframe
    have hsame := hs.ids.unique _ _ id (id_of_openId hopen) hid
    rw [hsame, hclosed] at hopen
    cases hopen

theorem sound_check (hs : Sound s) : Sound (check s n method) := by
  unfold check
  split
  · rename_i hidle
    have hmove : ∀ c' : Caller, c'.id = none → c'.foundId = none →
        (∀ id outcome, c' = .finished id outcome → Settled s.Accepted n id outcome) →
        Sound (s.setCaller n c') := by
      intro c' hid hfound hsettled
      refine ⟨hs.ids.move ?_, hs.wire.move ?_, hs.tables.move ?_ ?_ ?_ hfound, hs.accepted, hs.late,
        hs.timely, settled_update hs hsettled⟩
      · rw [hid, hidle]
        rfl
      all_goals simp [hidle, Caller.sentId, Caller.activeId, Caller.openId, Caller.waitingId]
    split_ifs
    · refine hmove _ rfl rfl fun id outcome heq => ?_
      cases heq
      exact settled_raised _ n none rfl
    · exact hmove _ rfl rfl fun id outcome heq => nomatch heq
  · exact hs

theorem sound_register (hs : Sound s) : Sound (register s n) := by
  unfold register
  split
  · rename_i method hchecked hwriter
    have hfresh : ∀ f ∈ s.sent, f.id ≠ s.nextId + 1 := by
      intro f hf heq
      have hle := hs.ids.bound _ _ (id_of_sentId (hs.wire.carries f hf))
      omega
    have hnone : s.responses (s.nextId + 1) = none := by
      cases hframe : s.responses (s.nextId + 1) with
      | none => rfl
      | some frame =>
        have hopen := (hs.tables.stored _ frame hframe).2.2
        have hle := hs.ids.bound _ _ (id_of_openId hopen)
        omega
    refine ⟨hs.ids.take n method, hs.wire.move ?_, hs.tables.register hchecked hfresh hnone,
      hs.accepted, hs.late, hs.timely, settled_update hs fun id outcome heq => nomatch heq⟩
    simp [hchecked, Caller.sentId]
  · exact hs

/-- A call that has registered its id and found no response ends with an
exception of the client. -/
theorem Sound.giveUp (hs : Sound s) (hid : (s.callers n).id = some id)
    (hsent : ∀ id', (s.callers n).sentId = some id' → id' = id) (hnone : s.responses id = none)
    (hfree : ∀ h frame, s.holder = some h → h.frame = some frame → frame.request.caller ≠ n)
    {failure : Failure} (hfailure : failure.isAgentError = true) (writer : Option ℕ) :
    Sound { s.setCaller n (.finished (some id) (.raised failure)) with
      writer := writer, pending := s.pending.erase id } := by
  refine ⟨hs.ids.move ?_, hs.wire.move fun id' hid' => ?_, hs.tables.giveUp hid hnone hfree _,
    hs.accepted, hs.late, hs.timely, settled_update hs fun id' outcome heq => ?_⟩
  · rw [hid]
    rfl
  · rw [hsent id' hid']
    rfl
  · cases heq
    exact settled_raised _ n _ hfailure

theorem sound_send (hs : Sound s) {error : Option String}
    (hsock : ∀ method id, s.callers n = .registered method id → s.sock ≠ none) :
    Sound (send s n error) := by
  unfold send
  split
  · rename_i method id hregistered
    have hid : (s.callers n).id = some id := by
      rw [hregistered]
      rfl
    split
    · rename_i hnone
      exact absurd hnone (hsock method id hregistered)
    · rename_i c hc
      have hnewest := hs.wire.newest c hc
      refine ⟨hs.ids.move ?_, hs.wire.send hregistered c, ?_, hs.accepted, hs.late, hs.timely,
        settled_update hs fun id outcome heq => nomatch heq⟩
      · rw [hid]
        rfl
      · rw [hnewest]
        exact hs.tables.send hregistered
    · refine hs.giveUp hid ?_ (hs.responses_eq_none hid ?_) (fun h frame hh hf hcaller => ?_) rfl
        none
      · simp [hregistered, Caller.sentId]
      · rw [hregistered]
        rfl
      · have hwaiting := (hs.tables.moving h frame hh hf).2
        rw [hcaller, hregistered] at hwaiting
        cases hwaiting
  · exact hs

theorem sound_wait (hs : Sound s) {timedOut : Bool} : Sound (wait s n timedOut) := by
  unfold wait
  split
  · rename_i method id hwaiting hfree
    have hid : (s.callers n).id = some id := by
      rw [hwaiting]
      rfl
    have hsent : ∀ id', (s.callers n).sentId = some id' → id' = id := by
      intro id' hid'
      rw [hwaiting] at hid'
      exact (Option.some.inj hid').symm
    have hidle : ∀ h frame, s.holder = some h → h.frame = some frame →
        frame.request.caller ≠ n := by
      intro h frame hh
      rw [hfree] at hh
      cases hh
    split_ifs with hsome htime hclosed
    · refine ⟨hs.ids.move ?_, hs.wire.move ?_, hs.tables.find hwaiting hsome hfree, hs.accepted,
        hs.late, hs.timely, settled_update hs fun id outcome heq => nomatch heq⟩
      · rw [hid]
        rfl
      · simp [hwaiting, Caller.sentId]
    · exact hs.giveUp hid hsent (Option.not_isSome_iff_eq_none.mp hsome) hidle rfl s.writer
    · exact hs.giveUp hid hsent (Option.not_isSome_iff_eq_none.mp hsome) hidle rfl s.writer
    · exact hs
  · exact hs

/-- A response ends its call as it should. -/
theorem settled_outcomeOf {acc : Frame → Prop} {frame : Frame} (hacc : acc frame)
    (hcaller : frame.request.caller = n) (hid : frame.request.id = id) (method : String) :
    Settled acc n (some id) (outcomeOf method frame) := by
  unfold outcomeOf
  cases herror : frame.body.error with
  | some error =>
    refine ⟨fun frame' hframe => ?_, fun frame' value hreturned => ?_, fun other hother => ?_⟩
    · cases hframe
      exact ⟨hacc, hcaller, by rw [hid]⟩
    · cases hreturned
    · cases hother
      exact raiseRpcError_isAgentError method error
  | none =>
    refine ⟨fun frame' hframe => ?_, fun frame' value hreturned => ?_, fun other hother => ?_⟩
    · cases hframe
      exact ⟨hacc, hcaller, by rw [hid]⟩
    · cases hreturned
      exact ⟨herror, rfl⟩
    · cases hother

theorem sound_pop (hs : Sound s) : Sound (pop s n) := by
  unfold pop
  split
  · rename_i method id hfound
    have hid : (s.callers n).id = some id := by
      rw [hfound]
      rfl
    split
    · rename_i frame hframe
      obtain ⟨hacc, heq, hopen⟩ := hs.tables.stored id frame hframe
      have hcaller := hs.ids.unique _ _ id (id_of_openId hopen) hid
      refine ⟨hs.ids.move ?_, hs.wire.move ?_, hs.tables.pop hfound _, hs.accepted, hs.late,
        hs.timely, settled_update hs fun id' outcome hend => ?_⟩
      · rw [hid]
        rfl
      · simp [hfound, Caller.sentId]
      · cases hend
        exact settled_outcomeOf hacc hcaller heq method
    · rename_i hnone
      have hsome := (hs.tables.found n id (by rw [hfound]; rfl)).2
      rw [hnone] at hsome
      cases hsome
  · exact hs

/-- More frames are accepted, with nothing else changed. -/
theorem settled_mono {acc acc' : Frame → Prop} (h : ∀ frame, acc frame → acc' frame)
    {id : Option ℕ} {outcome : Outcome} (hs : Settled acc n id outcome) :
    Settled acc' n id outcome :=
  ⟨fun frame hframe => ⟨h _ (hs.own frame hframe).1, (hs.own frame hframe).2⟩, hs.result,
    hs.failure⟩

theorem sound_answer (hs : Sound s) {request : Sent} {body : Body} :
    Sound (answer s request body) := by
  unfold answer
  split_ifs with hsent
  · have hmore : ∀ frame, s.Accepted frame →
        frame ∈ s.frames ++ [⟨s.frames.length, request, body⟩] ∧ frame.number ∈ s.accepted :=
      fun frame h => ⟨List.mem_append_left _ h.1, h.2⟩
    refine ⟨hs.ids, ⟨hs.wire.newest, hs.wire.carries, fun frame hframe => ?_⟩,
      hs.tables.mono hmore, hs.accepted, hs.late, hs.timely,
      fun n id outcome hn => settled_mono hmore (hs.settled n id outcome hn)⟩
    rcases List.mem_append.mp hframe with hold | hnew
    · exact hs.wire.answers frame hold
    · rw [List.mem_singleton.mp hnew]
      exact hsent
  · exact hs

/-- A registered id whose frame was answered is the one of a call that
waits. -/
theorem Sound.waiting_of_pending (hs : Sound s) {frame : Frame} (hframe : frame ∈ s.frames)
    (hpending : frame.request.id ∈ s.pending) :
    (s.callers frame.request.caller).waitingId = some frame.request.id := by
  have hsent := hs.wire.carries _ (hs.wire.answers frame hframe)
  obtain ⟨m, hm⟩ := hs.tables.active _ hpending
  have hmid : (s.callers m).id = some frame.request.id := by
    cases hc : s.callers m <;> simp_all [Caller.activeId, Caller.id]
  have hsame := hs.ids.unique _ _ _ hmid (id_of_sentId hsent)
  rw [hsame] at hm
  cases hc : s.callers frame.request.caller <;>
    simp_all [Caller.activeId, Caller.sentId, Caller.waitingId]

/-- A response to a registered id is not late. -/
theorem Sound.not_late (hs : Sound s) {frame : Frame} (hframe : frame ∈ s.frames)
    (hpending : frame.request.id ∈ s.pending) : s.isLate frame = false := by
  have hwaiting := hs.waiting_of_pending hframe hpending
  have hcurrent := hs.tables.current _ (hs.wire.answers frame hframe) hpending
  unfold Client.isLate
  cases hc : s.callers frame.request.caller <;>
    simp_all [Caller.waitingId, Caller.timedOut]

theorem sound_arrive (hs : Sound s) {frame : Frame} (hnew : frame.number ∉ s.seen) :
    Sound (s.arrive frame) := by
  refine ⟨hs.ids, hs.wire, hs.tables, hs.accepted.trans (Finset.subset_insert _ _), ?_, ?_,
    hs.settled⟩
  · simp only [Client.arrive]
    split_ifs
    · exact Finset.insert_subset_insert _ hs.late
    · exact hs.late.trans (Finset.subset_insert _ _)
  · simp only [Client.arrive]
    split_ifs
    · refine Finset.disjoint_insert_right.mpr ⟨fun hin => hnew (hs.accepted hin), hs.timely⟩
    · exact hs.timely

theorem sound_look (hs : Sound s) {t k : ℕ} : Sound (look s t k) := by
  unfold look
  split
  · rename_i c frame hreading hfree hframe
    have hin : frame ∈ s.frames := List.mem_of_getElem? hframe
    split_ifs with hnew hpending
    · have harrive := sound_arrive hs hnew.2
      have hontime := hs.not_late hin hpending
      have hmore : ∀ frame', s.Accepted frame' →
          frame' ∈ s.frames ∧ frame'.number ∈ insert frame.number s.accepted :=
        fun frame' h => ⟨h.1, Finset.mem_insert_of_mem h.2⟩
      refine ⟨hs.ids, hs.wire, ?_, ?_, harrive.late, ?_,
        fun n id outcome hn => settled_mono hmore (hs.settled n id outcome hn)⟩
      · exact (hs.tables.mono hmore).look hfree ⟨hin, Finset.mem_insert_self _ _⟩
          (hs.waiting_of_pending hin hpending)
      · exact Finset.insert_subset_insert _ hs.accepted
      · simp only [Client.arrive, hontime]
        refine Finset.disjoint_insert_left.mpr ⟨fun hlate => hnew.2 (hs.late hlate), hs.timely⟩
    · exact sound_arrive hs hnew.2
    · exact hs
  · exact hs

theorem sound_store (hs : Sound s) : Sound (store s) := by
  unfold store
  split
  · rename_i t frame hheld
    exact ⟨hs.ids, hs.wire, hs.tables.store hheld, hs.accepted, hs.late, hs.timely, hs.settled⟩
  · exact hs

theorem sound_discard (hs : Sound s) : Sound (discard s) := by
  unfold discard
  split
  · rename_i t frame hheld
    exact ⟨hs.ids, hs.wire, hs.tables.discard hheld, hs.accepted, hs.late, hs.timely, hs.settled⟩
  · exact hs

theorem sound_readerStart (hs : Sound s) {t : ℕ} : Sound (readerStart s t) := by
  unfold readerStart
  split
  · split
    · exact ⟨hs.ids, hs.wire, hs.tables, hs.accepted, hs.late, hs.timely, hs.settled⟩
    · exact ⟨hs.ids, hs.wire, hs.tables, hs.accepted, hs.late, hs.timely, hs.settled⟩
  · exact hs

theorem sound_readerEnd (hs : Sound s) {t : ℕ} : Sound (readerEnd s t) := by
  unfold readerEnd
  split
  · exact ⟨hs.ids, hs.wire, hs.tables, hs.accepted, hs.late, hs.timely, hs.settled⟩
  · exact hs

theorem sound_begin (hs : Sound s) {i : ℕ} {ops : List Op} : Sound (begin s i ops) := by
  unfold begin
  split_ifs
  · exact ⟨hs.ids, hs.wire, hs.tables, hs.accepted, hs.late, hs.timely, hs.settled⟩
  · exact hs

theorem sound_abort (hs : Sound s) {i : ℕ} : Sound (abort s i) := by
  unfold abort
  split
  · exact ⟨hs.ids, hs.wire, hs.tables, hs.accepted, hs.late, hs.timely, hs.settled⟩
  · exact hs

end Steps

/-! ## The condition -/

/-- The holder is a call that has found its response. -/
def Holder.isCaller : Holder → Bool
  | .caller _ => true
  | _ => false

/-- The call has registered its id and not sent its frame. -/
def Caller.isRegistered : Caller → Bool
  | .registered _ _ => true
  | _ => false

/-- A write of `close` or `reconnect` that comes between no steps of a
request: the responses are cleared while no request has found its own, and a
connection is installed while no request that has sent its frame is
registered. -/
def Op.Apart (s : Client) : Op → Prop
  | .clearResponses => s.holder.any Holder.isCaller = false
  | .installSock => ∀ f ∈ s.sent, f.id ∉ s.pending
  | _ => True

instance Op.Apart.decidable (s : Client) : ∀ op, Decidable (Op.Apart s op)
  | .clearResponses => inferInstanceAs (Decidable (s.holder.any Holder.isCaller = false))
  | .installSock => inferInstanceAs (Decidable (∀ f ∈ s.sent, f.id ∉ s.pending))
  | .closeCheck => isTrue trivial
  | .setClosed => isTrue trivial
  | .dropSock => isTrue trivial
  | .dropReader => isTrue trivial
  | .clearClosed => isTrue trivial
  | .clearPending => isTrue trivial
  | .installReader => isTrue trivial
  | .clearDead => isTrue trivial
  | .spawn => isTrue trivial

/-- A step that `close` and `reconnect` do not disturb: a request sends while
the client has a connection, and the writes of the others stay apart from the
steps of requests. -/
def Meets (s : Client) : Act → Prop
  | .send n _ => (s.callers n).isRegistered = true → s.sock.isSome = true
  | .control i => ∀ op ∈ (s.controls i).ops.head?, op.Apart s
  | _ => True

instance Meets.decidable (s : Client) : ∀ act, Decidable (Meets s act)
  | .send n _ =>
    inferInstanceAs (Decidable ((s.callers n).isRegistered = true → s.sock.isSome = true))
  | .control i => inferInstanceAs (Decidable (∀ op ∈ (s.controls i).ops.head?, op.Apart s))
  | .request _ _ => isTrue trivial
  | .register _ => isTrue trivial
  | .wait _ _ => isTrue trivial
  | .pop _ => isTrue trivial
  | .answer _ _ => isTrue trivial
  | .readerStart _ => isTrue trivial
  | .look _ _ => isTrue trivial
  | .store => isTrue trivial
  | .discard => isTrue trivial
  | .readerEnd _ => isTrue trivial
  | .close _ => isTrue trivial
  | .reconnect _ => isTrue trivial
  | .abort _ => isTrue trivial

theorem sound_control {s : Client} (hs : Sound s) {i : ℕ} (hm : Meets s (.control i)) :
    Sound (control s i) := by
  have hwire : Wire s.callers none s.connections s.sent s.frames :=
    ⟨fun c hc => absurd hc (by simp), hs.wire.carries, hs.wire.answers⟩
  unfold control
  dsimp only
  split
  case h_1 => exact hs
  case h_4 => exact ⟨hs.ids, hwire, hs.tables, hs.accepted, hs.late, hs.timely, hs.settled⟩
  case h_7 rest hops =>
    have happart := hm .clearResponses (by rw [hops]; rfl)
    refine ⟨hs.ids, hs.wire, hs.tables.clearResponses fun n hn => ?_, hs.accepted, hs.late,
      hs.timely, hs.settled⟩
    rw [Op.Apart, hn] at happart
    cases happart
  case h_8 =>
    exact ⟨hs.ids, hs.wire, hs.tables.clearPending, hs.accepted, hs.late, hs.timely, hs.settled⟩
  case h_9 rest hops =>
    have happart := hm .installSock (by rw [hops]; rfl)
    exact ⟨hs.ids, ⟨fun c hc => (Option.some.inj hc).symm, hs.wire.carries, hs.wire.answers⟩,
      hs.tables.connect happart _, hs.accepted, hs.late, hs.timely, hs.settled⟩
  all_goals exact ⟨hs.ids, hs.wire, hs.tables, hs.accepted, hs.late, hs.timely, hs.settled⟩

theorem sound_step (s : Client) (act : Act) (hs : Sound s) (hm : Meets s act) :
    Sound (step s act) := by
  cases act with
  | request n method => exact sound_check hs
  | register n => exact sound_register hs
  | send n error =>
    refine sound_send hs fun method id hn hnone => ?_
    have hsock := hm (by rw [hn]; rfl)
    rw [hnone] at hsock
    cases hsock
  | wait n timedOut => exact sound_wait hs
  | pop n => exact sound_pop hs
  | answer request body => exact sound_answer hs
  | readerStart t => exact sound_readerStart hs
  | look t k => exact sound_look hs
  | store => exact sound_store hs
  | discard => exact sound_discard hs
  | readerEnd t => exact sound_readerEnd hs
  | close i => exact sound_begin hs
  | reconnect i => exact sound_begin hs
  | control i => exact sound_control hs hm
  | abort i => exact sound_abort hs

/-- What the client promises of its requests. -/
structure Good (s : Client) : Prop where
  /-- A finished request returned the result of a response that carries its
  own id and answers its own frame, or raised an `AgentError`. -/
  matched : ∀ n id outcome, s.callers n = .finished id outcome →
    (∃ frame ∈ s.frames, outcome = .returned frame (frame.body.result.getD .null) ∧
      frame.body.error = none ∧ id = some frame.request.id ∧ frame.request ∈ s.sent ∧
      frame.request.caller = n) ∨
    ∃ failure, outcome.failure = some failure ∧ failure.isAgentError = true
  /-- A response that came late is delivered to no request. -/
  undelivered : ∀ k ∈ s.late,
    (∀ id frame, s.responses id = some frame → frame.number ≠ k) ∧
    ∀ n id outcome frame, s.callers n = .finished id outcome → outcome.frame = some frame →
      frame.number ≠ k
  /-- A finished request has left the tables. -/
  cleaned : ∀ n id outcome, s.callers n = .finished (some id) outcome →
    id ∉ s.pending ∧ s.responses id = none

theorem Sound.good {s : Client} (hs : Sound s) : Good s := by
  refine ⟨fun n id outcome hn => ?_, fun k hk => ⟨fun id frame hframe hnumber => ?_,
    fun n id outcome frame hn hframe hnumber => ?_⟩, fun n id outcome hn => ⟨fun hpending => ?_,
    ?_⟩⟩
  · have hsettled := hs.settled n id outcome hn
    cases outcome with
    | returned frame value =>
      obtain ⟨hacc, hcaller, hid⟩ := hsettled.own frame rfl
      obtain ⟨herror, hvalue⟩ := hsettled.result frame value rfl
      exact Or.inl ⟨frame, hacc.1, by rw [hvalue], herror, hid, hs.wire.answers frame hacc.1,
        hcaller⟩
    | refused frame failure => exact Or.inr ⟨failure, rfl, hsettled.failure failure rfl⟩
    | raised failure => exact Or.inr ⟨failure, rfl, hsettled.failure failure rfl⟩
  · have hacc := (hs.tables.stored id frame hframe).1
    exact Finset.disjoint_left.mp hs.timely hacc.2 (hnumber ▸ hk)
  · have hacc := ((hs.settled n id outcome hn).own frame hframe).1
    exact Finset.disjoint_left.mp hs.timely hacc.2 (hnumber ▸ hk)
  · obtain ⟨m, hm⟩ := hs.tables.active id hpending
    have hmid : (s.callers m).id = some id := by
      cases hc : s.callers m <;> simp_all [Caller.activeId, Caller.id]
    have hsame := hs.ids.unique m n id hmid (by rw [hn]; rfl)
    rw [hsame, hn] at hm
    cases hm
  · refine hs.responses_eq_none (n := n) ?_ ?_
    · rw [hn]
      rfl
    · rw [hn]
      rfl

/-- In every run whose steps `close` and `reconnect` do not disturb, every
state keeps what the client promises. -/
theorem requests_matched (acts : List Act) (h : Along step Meets Client.new acts) :
    Good (run step Client.new acts) :=
  (invariant_run (fun s act hs hm => sound_step s act hs hm) sound_new h).good

/-- The constructor connects, and the reader of the connection starts. -/
def connected : List Act := List.replicate 5 (.control 0) ++ [.readerStart 1]

/-- Two requests; the second is answered, the first times out, its answer
comes late, and the client reconnects. -/
def twoRequests : List Act :=
  connected ++ [.request 0 "ping", .register 0, .send 0 none, .request 1 "open", .register 1,
    .send 1 none, .answer ⟨1, 2, 1⟩ ⟨none, some (.nat 7)⟩, .look 1 0, .store, .discard,
    .wait 1 false, .pop 1, .wait 0 true, .answer ⟨0, 1, 1⟩ ⟨none, some .null⟩, .look 1 1,
    .reconnect 1] ++ List.replicate 12 (.control 1)

theorem requests_matched_two :
    Good (run step Client.new twoRequests) ∧ (run step Client.new twoRequests).late = {1} ∧
      (run step Client.new twoRequests).callers 1 =
        .finished (some 2) (.returned ⟨0, ⟨1, 2, 1⟩, ⟨none, some (.nat 7)⟩⟩ (.nat 7)) :=
  ⟨requests_matched twoRequests (by decide), by decide, rfl⟩

/-- A request passes its check, the client is closed, and the request goes
on to register its id and to send. -/
def closedUnderRequest : List Act :=
  connected ++ [.request 0 "status", .close 1, .control 1, .control 1, .control 1, .register 0,
    .send 0 none]

theorem close_under_request_escapes :
    ¬ ∀ acts : List Act, Good (run step Client.new acts) := by
  intro h
  have hgood := h closedUnderRequest
  have hend : (run step Client.new closedUnderRequest).callers 0 = .finished (some 1)
      (.raised (.attributeError "'NoneType' object has no attribute 'sendall'")) := rfl
  exact (hgood.cleaned 0 1 _ hend).1 (by decide)

end Tyo3.AgentClient
