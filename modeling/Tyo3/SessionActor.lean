import Tyo3.Runs
import Mathlib.Data.List.Pairwise
import Mathlib.Tactic.Linarith

/-!
# The session actor

One thread owns the session and runs closures that other threads enqueue.
`submit`, `stop` and the loop with its final drain are taken apart into their
atomic steps, which may follow each other in any order. A future is known by
the number under which it was enqueued.
-/

namespace Tyo3.SessionActor

open Runs

variable {σ ε α : Type*}

/-- A closure over the session: it may change the session, and it returns or
raises. -/
abbrev Closure (σ ε α : Type*) := σ → σ × Except ε α

/-- The state of a future. -/
inductive Future (ε α : Type*)
  /-- Enqueued, not taken. -/
  | pending
  /-- Its closure is running. -/
  | running
  /-- Its closure returned. -/
  | result (value : α)
  /-- Its closure raised. -/
  | exception (error : ε)
  /-- Cancelled by the drain. -/
  | cancelled
  deriving DecidableEq

/-- The waiter of the future is released. -/
def Future.resolved : Future ε α → Bool
  | .pending => false
  | .running => false
  | .result _ => true
  | .exception _ => true
  | .cancelled => true

/-- The future after `set_running_or_notify_cancel`, where that returns true. -/
def Future.setRunningOrNotifyCancel : Future ε α → Option (Future ε α)
  | .pending => some .running
  | _ => none

/-- The future after `cancel`. -/
def Future.cancel : Future ε α → Future ε α
  | .pending => .cancelled
  | future => future

/-- The future of a closure that returned or raised. -/
def Future.ofOutcome : Except ε α → Future ε α
  | .ok value => .result value
  | .error error => .exception error

/-- An entry of the queue. -/
inductive Item (σ ε α : Type*)
  /-- The stop sentinel. -/
  | stop
  /-- A closure with its future. -/
  | work (future : ℕ) (fn : Closure σ ε α)

/-- The future of an entry. -/
def Item.future : Item σ ε α → Option ℕ
  | .stop => none
  | .work future _ => some future

/-- Where the actor thread is. -/
inductive Phase (σ ε α : Type*)
  /-- There is no thread. -/
  | unstarted
  /-- The session is being opened and indexed. -/
  | opening
  /-- The loop waits for an entry. -/
  | looping (session : σ)
  /-- The loop runs a closure. -/
  | running (session : σ) (future : ℕ) (fn : Closure σ ε α)
  /-- The loop has ended, and the queue is swept. -/
  | draining (session : σ)
  /-- The sweep found the queue empty. -/
  | closing (session : σ)
  /-- The thread has ended. -/
  | terminated

/-- The future whose closure is running. -/
def Phase.current : Phase σ ε α → List ℕ
  | .running _ future _ => [future]
  | _ => []

/-- Nothing is taken off the queue any more. -/
def Phase.over : Phase σ ε α → Bool
  | .closing _ => true
  | .terminated => true
  | _ => false

/-- The thread has ended. -/
def Phase.ended : Phase σ ε α → Bool
  | .terminated => true
  | _ => false

/-- What the log of the closures records. -/
inductive Event
  /-- A closure began. -/
  | began (future : ℕ)
  /-- A closure returned or raised. -/
  | finished (future : ℕ)
  deriving DecidableEq

/-- The actor with the calls under way. -/
structure State (σ ε α : Type*) where
  /-- Whether `start` was called. -/
  started : Bool
  /-- Whether `stop` set its flag. -/
  stopped : Bool
  /-- The queue. -/
  queue : List (Item σ ε α)
  /-- Where the thread is. -/
  phase : Phase σ ε α
  /-- Closures whose `submit` passed the check and has not enqueued. -/
  submitting : List (Closure σ ε α)
  /-- Calls of `stop` that passed the check and have not set the flag. -/
  stopping : ℕ
  /-- Calls of `stop` that set the flag and have not enqueued the sentinel. -/
  flagged : ℕ
  /-- Every future ever enqueued. -/
  futures : List (Future ε α)
  /-- Beginnings and ends of closures so far. -/
  log : List Event

/-- An actor as constructed. -/
def State.new : State σ ε α :=
  { started := false, stopped := false, queue := [], phase := .unstarted, submitting := [],
    stopping := 0, flagged := 0, futures := [], log := [] }

/-- What happens next. -/
inductive Act (σ ε α : Type*)
  /-- `submit` checks the flag. -/
  | submitCheck (fn : Closure σ ε α)
  /-- A `submit` past its check enqueues. -/
  | submitPut (caller : ℕ)
  /-- `start` is called. -/
  | start
  /-- The session was opened, or could not be. -/
  | opened (session : Option σ)
  /-- The loop takes an entry. -/
  | take
  /-- The running closure ends. -/
  | finish
  /-- The sweep takes an entry or finds the queue empty. -/
  | drain
  /-- The session is closed. -/
  | close
  /-- `stop` checks whether there is anything to do. -/
  | stopCheck
  /-- A `stop` past its check sets the flag. -/
  | stopFlag
  /-- A `stop` past its flag enqueues the sentinel. -/
  | stopPut

/-- The loop takes the first entry. -/
def takeEntry (s : State σ ε α) (session : σ) : State σ ε α :=
  match s.queue with
  | [] => s
  | .stop :: rest => { s with queue := rest, phase := .draining session }
  | .work future fn :: rest =>
    match (s.futures[future]?).bind Future.setRunningOrNotifyCancel with
    | some state =>
      { s with queue := rest, phase := .running session future fn,
               futures := s.futures.set future state, log := s.log ++ [.began future] }
    | none => { s with queue := rest }

/-- The closure ends, and its future is resolved. -/
def finishClosure (s : State σ ε α) (session : σ) (future : ℕ) (fn : Closure σ ε α) :
    State σ ε α :=
  { s with phase := .looping (fn session).1,
           futures := s.futures.set future (.ofOutcome (fn session).2),
           log := s.log ++ [.finished future] }

/-- One turn of the final sweep. -/
def drainEntry (s : State σ ε α) (session : σ) : State σ ε α :=
  match s.queue with
  | [] => { s with phase := .closing session }
  | .stop :: rest => { s with queue := rest }
  | .work future _ :: rest =>
    { s with queue := rest, futures := s.futures.modify future Future.cancel }

/-- A `submit` past its check creates its future, enqueues it and waits. -/
def putWork (s : State σ ε α) (caller : ℕ) (fn : Closure σ ε α) : State σ ε α :=
  { s with submitting := s.submitting.eraseIdx caller,
           queue := s.queue ++ [.work s.futures.length fn],
           futures := s.futures ++ [.pending] }

/-- One step; a step that is not possible changes nothing. -/
def step (s : State σ ε α) : Act σ ε α → State σ ε α
  | .submitCheck fn => if s.stopped then s else { s with submitting := s.submitting ++ [fn] }
  | .submitPut caller =>
    match s.submitting[caller]? with
    | some fn => putWork s caller fn
    | none => s
  | .start => if s.started then s else { s with started := true, phase := .opening }
  | .opened session =>
    match s.phase, session with
    | .opening, some session => { s with phase := .looping session }
    | .opening, none => { s with phase := .terminated }
    | _, _ => s
  | .take =>
    match s.phase with
    | .looping session => takeEntry s session
    | _ => s
  | .finish =>
    match s.phase with
    | .running session future fn => finishClosure s session future fn
    | _ => s
  | .drain =>
    match s.phase with
    | .draining session => drainEntry s session
    | _ => s
  | .close =>
    match s.phase with
    | .closing _ => { s with phase := .terminated }
    | _ => s
  | .stopCheck =>
    if s.stopped || !s.started then s else { s with stopping := s.stopping + 1 }
  | .stopFlag =>
    if s.stopping = 0 then s
    else { s with stopping := s.stopping - 1, stopped := true, flagged := s.flagged + 1 }
  | .stopPut =>
    if s.flagged = 0 then s
    else { s with flagged := s.flagged - 1, queue := s.queue ++ [.stop] }

/-- The futures that wait in the queue. -/
def State.queued (s : State σ ε α) : List ℕ := s.queue.filterMap Item.future

/-- The log of closures that ran one after the other. -/
def transcript (ran : List ℕ) : List Event :=
  ran.flatMap fun future => [.began future, .finished future]

/-- The closures of a log ran one at a time, in the order of their futures. -/
def InTurn (log : List Event) : Prop :=
  ∃ ran : List ℕ, ran.Pairwise (· < ·) ∧ log = transcript ran

/-- Every future ever enqueued is resolved. -/
def State.AllResolved (s : State σ ε α) : Prop := ∀ future ∈ s.futures, future.resolved = true

instance State.AllResolved.decidable (s : State σ ε α) : Decidable s.AllResolved :=
  inferInstanceAs (Decidable (∀ future ∈ s.futures, future.resolved = true))

/-- The thread is opening the session. -/
def Phase.atOpening : Phase σ ε α → Bool
  | .opening => true
  | _ => false

/-- A step that strands nobody: no closure is enqueued once nothing is taken
off the queue any more, and the session does not fail to open while closures
wait. -/
def Meets (s : State σ ε α) : Act σ ε α → Prop
  | .submitPut caller => caller < s.submitting.length → s.phase.over = false
  | .opened none => s.phase.atOpening = true → s.queued = []
  | _ => True

instance Meets.decidable (s : State σ ε α) : ∀ act, Decidable (Meets s act)
  | .submitPut caller =>
    inferInstanceAs (Decidable (caller < s.submitting.length → s.phase.over = false))
  | .opened none => inferInstanceAs (Decidable (s.phase.atOpening = true → s.queued = []))
  | .opened (some _) => isTrue trivial
  | .submitCheck _ => isTrue trivial
  | .start => isTrue trivial
  | .take => isTrue trivial
  | .finish => isTrue trivial
  | .drain => isTrue trivial
  | .close => isTrue trivial
  | .stopCheck => isTrue trivial
  | .stopFlag => isTrue trivial
  | .stopPut => isTrue trivial

/-- What the log, the running closure, the queue and the futures have to do
with each other, given the closures that have ended. -/
structure Sound (done : List ℕ) (log : List Event) (current queued : List ℕ)
    (futures : List (Future ε α)) : Prop where
  /-- The log is that of the ended closures and of the running one. -/
  log : log = transcript done ++ current.map .began
  /-- Closures are taken in the order in which they were enqueued. -/
  rising : (done ++ current ++ queued).Pairwise (· < ·)
  /-- They have futures. -/
  below : ∀ future ∈ done ++ current ++ queued, future < futures.length
  /-- A future is pending as long as it is queued. -/
  pending : ∀ i : ℕ, futures[i]? = some .pending ↔ i ∈ queued
  /-- A future is running as long as its closure is. -/
  running : ∀ i : ℕ, futures[i]? = some .running ↔ i ∈ current

namespace Sound

variable {done current queued rest : List ℕ} {log : List Event} {futures : List (Future ε α)}
  {i : ℕ}

theorem put (h : Sound done log current queued futures) :
    Sound done log current (queued ++ [futures.length]) (futures ++ [.pending]) := by
  have hget : ∀ j : ℕ, (futures ++ [Future.pending])[j]? =
      if j = futures.length then some .pending else futures[j]? := by
    intro j
    rw [List.getElem?_append]
    split_ifs with hlt heq heq
    · omega
    · rfl
    · simp [heq]
    · have hout : futures.length ≤ j := by omega
      rw [List.getElem?_eq_none hout, List.getElem?_eq_none (by simp; omega)]
  refine ⟨h.log, ?_, ?_, fun j => ?_, fun j => ?_⟩
  · rw [← List.append_assoc, List.pairwise_append]
    exact ⟨h.rising, List.pairwise_singleton _ _, fun a ha b hb => by
      rw [List.mem_singleton.mp hb]
      exact h.below a ha⟩
  · intro future hfuture
    rw [← List.append_assoc, List.mem_append, List.mem_singleton] at hfuture
    rw [List.length_append]
    rcases hfuture with hold | rfl
    · exact Nat.lt_add_right _ (h.below future hold)
    · simp
  · rw [hget, List.mem_append, List.mem_singleton, ← h.pending]
    split_ifs with heq
    · simp [heq]
    · simp [heq]
  · rw [hget, ← h.running]
    split_ifs with heq
    · simp [heq]
    · rfl

/-- What an update of one future does to a lookup. -/
theorem lookup_set (h : i < futures.length) (state : Future ε α) (j : ℕ) :
    (futures.set i state)[j]? = if j = i then some state else futures[j]? := by
  by_cases heq : j = i
  · rw [if_pos heq, heq, List.getElem?_set_self h]
  · rw [if_neg heq, List.getElem?_set_ne (Ne.symm heq)]

theorem take (h : Sound done log [] (i :: rest) futures) :
    Sound done (log ++ [.began i]) [i] rest (futures.set i .running) := by
  have hrising := h.rising
  rw [List.append_nil] at hrising
  have hout : i ∉ rest := by
    have hhead := List.pairwise_cons.mp (List.pairwise_append.mp hrising).2.1
    exact fun hmem => lt_irrefl i (hhead.1 i hmem)
  have hi : i < futures.length := h.below i (by simp)
  refine ⟨?_, ?_, ?_, fun j => ?_, fun j => ?_⟩
  · rw [h.log]
    simp
  · rw [List.append_assoc, List.singleton_append]
    exact hrising
  · intro future hfuture
    rw [List.length_set]
    refine h.below future ?_
    simpa using hfuture
  · rw [lookup_set hi]
    split_ifs with heq
    · simp [heq, hout]
    · rw [h.pending, List.mem_cons, or_iff_right heq]
  · rw [lookup_set hi, List.mem_singleton]
    split_ifs with heq
    · simp [heq]
    · rw [h.running]
      simp [heq]

theorem finish (h : Sound done log [i] queued futures) {state : Future ε α}
    (hstate : state.resolved = true) :
    Sound (done ++ [i]) (log ++ [.finished i]) [] queued (futures.set i state) := by
  have hi : i < futures.length := h.below i (by simp)
  have hout : i ∉ queued := by
    have hcross := (List.pairwise_append.mp h.rising).2.2 i (by simp)
    exact fun hmem => lt_irrefl i (hcross i hmem)
  refine ⟨?_, ?_, ?_, fun j => ?_, fun j => ?_⟩
  · rw [h.log]
    simp [transcript]
  · rw [List.append_nil]
    exact h.rising
  · intro future hfuture
    rw [List.length_set]
    rw [List.append_nil] at hfuture
    exact h.below future hfuture
  · rw [lookup_set hi]
    split_ifs with heq
    · rw [heq]
      refine iff_of_false (fun hp => ?_) hout
      rw [Option.some.injEq] at hp
      rw [hp] at hstate
      exact absurd hstate (by simp [Future.resolved])
    · exact h.pending j
  · rw [lookup_set hi]
    split_ifs with heq
    · refine iff_of_false (fun hr => ?_) (by simp)
      rw [Option.some.injEq] at hr
      rw [hr] at hstate
      exact absurd hstate (by simp [Future.resolved])
    · rw [h.running, List.mem_singleton]
      simp [heq]

theorem cancel (h : Sound done log [] (i :: rest) futures) :
    Sound done log [] rest (futures.modify i Future.cancel) := by
  have hrising := h.rising
  rw [List.append_nil] at hrising
  have hparts := List.pairwise_append.mp hrising
  have hout : i ∉ rest :=
    fun hmem => lt_irrefl i ((List.pairwise_cons.mp hparts.2.1).1 i hmem)
  have hpending : futures[i]? = some .pending := (h.pending i).mpr List.mem_cons_self
  have hget : ∀ j : ℕ, (futures.modify i Future.cancel)[j]? =
      if j = i then some .cancelled else futures[j]? := by
    intro j
    rw [List.getElem?_modify, Option.map_eq_map]
    split_ifs with heq heq' heq'
    · rw [← heq, hpending]
      rfl
    · exact absurd heq.symm heq'
    · exact absurd heq'.symm heq
    · simp
  refine ⟨h.log, ?_, ?_, fun j => ?_, fun j => ?_⟩
  · rw [List.append_nil, List.pairwise_append]
    exact ⟨hparts.1, (List.pairwise_cons.mp hparts.2.1).2, fun a ha b hb =>
      hparts.2.2 a ha b (List.mem_cons_of_mem _ hb)⟩
  · intro future hfuture
    rw [List.length_modify]
    refine h.below future ?_
    simp only [List.append_nil, List.mem_append, List.mem_cons] at hfuture ⊢
    tauto
  · rw [hget]
    split_ifs with heq
    · simp [heq, hout]
    · rw [h.pending, List.mem_cons, or_iff_right heq]
  · rw [hget]
    split_ifs with heq
    · simp
    · exact h.running j

/-- Once no closure runs, the unresolved futures are the queued ones. -/
theorem resolved_iff (h : Sound done log [] queued futures) :
    (∀ future ∈ futures, future.resolved = true) ↔ queued = [] := by
  constructor
  · intro hall
    refine List.eq_nil_iff_forall_not_mem.mpr fun i hi => ?_
    have hpending := (h.pending i).mpr hi
    have hresolved := hall _ (List.mem_of_getElem? hpending)
    exact absurd hresolved (by simp [Future.resolved])
  · intro hnone future hfuture
    obtain ⟨i, hi⟩ := List.mem_iff_getElem?.mp hfuture
    cases future with
    | pending =>
      have hqueued := (h.pending i).mp hi
      rw [hnone] at hqueued
      exact absurd hqueued (by simp)
    | running => exact absurd ((h.running i).mp hi) (by simp)
    | result value => rfl
    | exception error => rfl
    | cancelled => rfl

theorem inTurn (h : Sound done log [] queued futures) : InTurn log := by
  refine ⟨done, ?_, ?_⟩
  · have hrising := h.rising
    rw [List.append_nil] at hrising
    exact (List.pairwise_append.mp hrising).1
  · rw [h.log, List.map_nil, List.append_nil]

end Sound

/-- The invariant of the actor. -/
structure State.Inv (s : State σ ε α) : Prop where
  /-- Log, queue and futures agree. -/
  sound : ∃ done, Sound done s.log s.phase.current s.queued s.futures
  /-- There is a thread only once `start` was called. -/
  unstarted : s.started = false → s.phase = .unstarted

theorem inv_new : (State.new : State σ ε α).Inv :=
  ⟨⟨[], by simp [State.new, transcript, Phase.current],
    by simp [State.new, Phase.current, State.queued],
    by simp [State.new, Phase.current, State.queued], by simp [State.new, State.queued],
    by simp [State.new, Phase.current]⟩, fun _ => rfl⟩

theorem queued_snoc (s : State σ ε α) (item : Item σ ε α) :
    (s.queue ++ [item]).filterMap Item.future = s.queued ++ item.future.toList := by
  rw [List.filterMap_append, State.queued]
  cases item <;> rfl

theorem queued_cons {s : State σ ε α} {item : Item σ ε α} {rest : List (Item σ ε α)}
    (h : s.queue = item :: rest) :
    s.queued = item.future.toList ++ rest.filterMap Item.future := by
  rw [State.queued, h]
  cases item <;> rfl

theorem inv_putWork {s : State σ ε α} (hs : s.Inv) (caller : ℕ) (fn : Closure σ ε α) :
    (putWork s caller fn).Inv := by
  obtain ⟨done, hsound⟩ := hs.sound
  have hqueued : (putWork s caller fn).queued = s.queued ++ [s.futures.length] :=
    queued_snoc s (.work s.futures.length fn)
  refine ⟨⟨done, ?_⟩, hs.unstarted⟩
  rw [hqueued]
  exact hsound.put

/-- An actor that has a thread was started. -/
theorem State.Inv.started {s : State σ ε α} (hs : s.Inv) (hphase : s.phase ≠ .unstarted) :
    s.started ≠ false := fun hno => hphase (hs.unstarted hno)

theorem inv_takeEntry {s : State σ ε α} (hs : s.Inv) {session : σ}
    (hphase : s.phase = .looping session) : (takeEntry s session).Inv := by
  obtain ⟨done, hsound⟩ := hs.sound
  have hstarted : s.started ≠ false := hs.started (by simp [hphase])
  rw [hphase] at hsound
  unfold takeEntry
  split
  · exact hs
  · rename_i rest hqueue
    rw [queued_cons hqueue] at hsound
    exact ⟨⟨done, hsound⟩, fun hno => absurd hno hstarted⟩
  · rename_i future fn rest hqueue
    rw [queued_cons hqueue] at hsound
    -- a queued future is pending, so the loop never skips it
    have hpending : s.futures[future]? = some .pending :=
      (hsound.pending future).mpr List.mem_cons_self
    have hset : (s.futures[future]?).bind Future.setRunningOrNotifyCancel = some .running := by
      rw [hpending]
      rfl
    rw [hset]
    exact ⟨⟨done, hsound.take⟩, fun hno => absurd hno hstarted⟩

theorem ofOutcome_resolved (outcome : Except ε α) :
    (Future.ofOutcome outcome).resolved = true := by
  cases outcome <;> rfl

theorem inv_finishClosure {s : State σ ε α} (hs : s.Inv) {session : σ} {future : ℕ}
    {fn : Closure σ ε α} (hphase : s.phase = .running session future fn) :
    (finishClosure s session future fn).Inv := by
  obtain ⟨done, hsound⟩ := hs.sound
  have hstarted : s.started ≠ false := hs.started (by simp [hphase])
  rw [hphase] at hsound
  exact ⟨⟨done ++ [future], hsound.finish (ofOutcome_resolved _)⟩,
    fun hno => absurd hno hstarted⟩

theorem inv_drainEntry {s : State σ ε α} (hs : s.Inv) {session : σ}
    (hphase : s.phase = .draining session) : (drainEntry s session).Inv := by
  obtain ⟨done, hsound⟩ := hs.sound
  have hstarted : s.started ≠ false := hs.started (by simp [hphase])
  unfold drainEntry
  split
  · rw [hphase] at hsound
    exact ⟨⟨done, hsound⟩, fun hno => absurd hno hstarted⟩
  · rename_i rest hqueue
    rw [queued_cons hqueue] at hsound
    exact ⟨⟨done, hsound⟩, fun hno => absurd hno hstarted⟩
  · rename_i future fn rest hqueue
    rw [queued_cons hqueue, hphase] at hsound
    refine ⟨⟨done, ?_⟩, fun hno => absurd hno hstarted⟩
    have hcurrent : s.phase.current = [] := by rw [hphase]; rfl
    rw [hcurrent]
    exact hsound.cancel

/-- A step that leaves log, running closure, queued futures and futures as
they are keeps the invariant. -/
theorem inv_frame {s t : State σ ε α} (hs : s.Inv) (hlog : t.log = s.log)
    (hcurrent : t.phase.current = s.phase.current) (hqueued : t.queued = s.queued)
    (hfutures : t.futures = s.futures) (hunstarted : t.started = false → t.phase = .unstarted) :
    t.Inv := by
  obtain ⟨done, hsound⟩ := hs.sound
  refine ⟨⟨done, ?_⟩, hunstarted⟩
  rw [hlog, hcurrent, hqueued, hfutures]
  exact hsound

theorem inv_step (s : State σ ε α) (act : Act σ ε α) (hs : s.Inv) : (step s act).Inv := by
  cases act with
  | submitCheck fn =>
    simp only [step]
    split_ifs
    · exact hs
    · exact inv_frame hs rfl rfl rfl rfl hs.unstarted
  | submitPut caller =>
    simp only [step]
    split
    · exact inv_putWork hs caller _
    · exact hs
  | start =>
    simp only [step]
    split_ifs with hstarted
    · exact hs
    · have hphase : s.phase = .unstarted := hs.unstarted (Bool.not_eq_true _ ▸ hstarted)
      exact inv_frame hs rfl (by rw [hphase]; rfl) rfl rfl (fun hno => absurd hno (by simp))
  | opened session =>
    simp only [step]
    split
    · rename_i hphase
      have hstarted := hs.started (by simp [hphase])
      exact inv_frame hs rfl (by rw [hphase]; rfl) rfl rfl (fun hno => absurd hno hstarted)
    · rename_i hphase
      have hstarted := hs.started (by simp [hphase])
      exact inv_frame hs rfl (by rw [hphase]; rfl) rfl rfl (fun hno => absurd hno hstarted)
    · exact hs
  | take =>
    simp only [step]
    split
    · exact inv_takeEntry hs ‹_›
    · exact hs
  | finish =>
    simp only [step]
    split
    · exact inv_finishClosure hs ‹_›
    · exact hs
  | drain =>
    simp only [step]
    split
    · exact inv_drainEntry hs ‹_›
    · exact hs
  | close =>
    simp only [step]
    split
    · rename_i hphase
      have hstarted := hs.started (by simp [hphase])
      exact inv_frame hs rfl (by rw [hphase]; rfl) rfl rfl (fun hno => absurd hno hstarted)
    · exact hs
  | stopCheck =>
    simp only [step]
    split_ifs
    · exact hs
    · exact inv_frame hs rfl rfl rfl rfl hs.unstarted
  | stopFlag =>
    simp only [step]
    split_ifs
    · exact hs
    · exact inv_frame hs rfl rfl rfl rfl hs.unstarted
  | stopPut =>
    simp only [step]
    split_ifs
    · exact hs
    · have hqueued := queued_snoc s .stop
      rw [show (Item.stop : Item σ ε α).future.toList = [] from rfl, List.append_nil] at hqueued
      exact inv_frame hs rfl rfl hqueued rfl hs.unstarted

/-- Closures wait in a queue that nobody takes from. -/
def Stranded (s : State σ ε α) : Prop := s.phase.over = true ∧ s.queued ≠ []

/-- Closures are stranded by the steps that do not meet the condition, and
by no others. -/
theorem stranded_step (s : State σ ε α) (act : Act σ ε α) (hs : s.Inv) :
    Stranded (step s act) ↔ Stranded s ∨ ¬ Meets s act := by
  cases act with
  | submitCheck fn =>
    simp only [step, Meets, not_true_eq_false, or_false]
    split_ifs <;> rfl
  | submitPut caller =>
    simp only [step, Meets]
    split
    · rename_i fn hfn
      have hlt : caller < s.submitting.length := (List.getElem?_eq_some_iff.mp hfn).1
      have hqueued : (putWork s caller fn).queued ≠ [] := by
        have hsnoc := queued_snoc s (.work s.futures.length fn)
        rw [State.queued, putWork, hsnoc]
        simp [Item.future]
      have hover : (putWork s caller fn).phase.over = s.phase.over := rfl
      simp only [Stranded, hover, hlt]
      cases s.phase.over <;> simp [hqueued]
    · rename_i hnone
      have hge : ¬ caller < s.submitting.length := by
        have hle := List.getElem?_eq_none_iff.mp hnone
        omega
      simp [hge]
  | start =>
    simp only [step, Meets, not_true_eq_false, or_false]
    split_ifs with hstarted
    · rfl
    · have hphase : s.phase = .unstarted := hs.unstarted (Bool.not_eq_true _ ▸ hstarted)
      simp [Stranded, hphase, Phase.over]
  | opened session =>
    cases session with
    | none =>
      simp only [step, Meets]
      cases hphase : s.phase <;> simp [Stranded, hphase, Phase.over, Phase.atOpening, State.queued]
    | some session =>
      simp only [step, Meets]
      cases hphase : s.phase <;> simp [Stranded, hphase, Phase.over]
  | take =>
    simp only [step, Meets, not_true_eq_false, or_false]
    cases hphase : s.phase with
    | looping session =>
      have hover : (takeEntry s session).phase.over = false := by
        unfold takeEntry
        repeat' split
        all_goals simp [hphase, Phase.over]
      have hbefore : s.phase.over = false := by rw [hphase]; rfl
      simp [Stranded, hover, hbefore]
    | _ => rfl
  | finish =>
    simp only [step, Meets, not_true_eq_false, or_false]
    cases hphase : s.phase with
    | running session future fn => simp [Stranded, finishClosure, hphase, Phase.over]
    | _ => rfl
  | drain =>
    simp only [step, Meets, not_true_eq_false, or_false]
    cases hphase : s.phase with
    | draining session =>
      have hnot : ¬ Stranded (drainEntry s session) := by
        unfold drainEntry
        split
        · rename_i hqueue
          simp [Stranded, State.queued, hqueue]
        · simp [Stranded, hphase, Phase.over]
        · simp [Stranded, hphase, Phase.over]
      have hbefore : ¬ Stranded s := by simp [Stranded, hphase, Phase.over]
      exact iff_of_false hnot hbefore
    | _ => rfl
  | close =>
    simp only [step, Meets, not_true_eq_false, or_false]
    cases hphase : s.phase with
    | closing session => simp [Stranded, hphase, Phase.over, State.queued]
    | _ => rfl
  | stopCheck =>
    simp only [step, Meets, not_true_eq_false, or_false]
    split_ifs <;> rfl
  | stopFlag =>
    simp only [step, Meets, not_true_eq_false, or_false]
    split_ifs <;> rfl
  | stopPut =>
    simp only [step, Meets, not_true_eq_false, or_false]
    split_ifs
    · rfl
    · simp only [Stranded, State.queued, List.filterMap_append, List.filterMap_cons, Item.future,
        List.filterMap_nil, List.append_nil]

theorem inv_run (acts : List (Act σ ε α)) : (run step State.new acts).Inv :=
  invariant_run (C := fun _ _ => True) (fun s act h _ => inv_step s act h) inv_new
    (along_of_forall fun _ _ => trivial)

theorem stranded_run (acts : List (Act σ ε α)) :
    Stranded (run step State.new acts) ↔ ¬ Along step Meets State.new acts := by
  have hnew : ¬ Stranded (State.new : State σ ε α) := by simp [Stranded, State.new, State.queued]
  have hflag := @flag_run _ _ step State.Inv (fun _ _ => True)
    (fun (s : State σ ε α) act => ¬ Meets s act) Stranded (fun s act h _ => inv_step s act h)
    (fun s act h _ => stranded_step s act h) _ inv_new acts (along_of_forall fun _ _ => trivial)
  rw [hflag, or_iff_right hnew, ← not_sometime_not, not_not]

/-- After every run that ended the thread, the closures ran one at a time in
the order in which they were enqueued, and every future is resolved if and
only if no step of the run stranded one. -/
theorem terminated_resolved_iff (acts : List (Act σ ε α))
    (hended : (run step State.new acts).phase.ended = true) :
    InTurn (run step State.new acts).log ∧
      ((run step State.new acts).AllResolved ↔ Along step Meets State.new acts) := by
  obtain ⟨done, hsound⟩ := (inv_run acts).sound
  have hphase : (run step State.new acts).phase = .terminated := by
    cases h : (run step State.new acts).phase <;> simp_all [Phase.ended]
  have hstranded := stranded_run acts
  rw [hphase] at hsound
  refine ⟨hsound.inTurn, ?_⟩
  have hqueued : Stranded (run step State.new acts) ↔ (run step State.new acts).queued ≠ [] := by
    simp [Stranded, hphase, Phase.over]
  rw [State.AllResolved, hsound.resolved_iff, ← not_iff_not, ← hstranded, hqueued]

/-- A session that counts, and a closure that counts one further. -/
def count : Closure ℕ String ℕ := fun session => (session + 1, .ok session)

/-- One closure is run, a second one is cancelled by the sweep. -/
def cancelledRun : List (Act ℕ String ℕ) :=
  [.start, .submitCheck count, .opened (some 0), .submitPut 0, .submitCheck count, .take,
    .stopCheck, .stopFlag, .stopPut, .submitPut 0, .finish, .take, .drain, .drain, .close]

theorem terminated_resolved_cancelled :
    (run step State.new cancelledRun).futures = [.result 0, .cancelled] ∧
      InTurn (run step State.new cancelledRun).log ∧
      (run step State.new cancelledRun).AllResolved := by
  have h := terminated_resolved_iff cancelledRun (by decide)
  exact ⟨by decide, h.1, h.2.mpr (by decide)⟩

/-- A `submit` passes its check, the actor is stopped, sweeps its queue and
ends; then the closure is enqueued. -/
def lateRun : List (Act ℕ String ℕ) :=
  [.start, .opened (some 0), .submitCheck count, .stopCheck, .stopFlag, .stopPut, .take, .drain,
    .close, .submitPut 0]

theorem late_submit_hangs :
    ¬ ∀ acts : List (Act ℕ String ℕ), (run step State.new acts).phase.ended = true →
      (run step State.new acts).AllResolved ∧ InTurn (run step State.new acts).log := by
  intro h
  have hlate := h lateRun (by decide)
  exact absurd hlate.1 (by decide)

end Tyo3.SessionActor
