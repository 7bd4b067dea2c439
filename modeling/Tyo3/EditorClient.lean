import Mathlib.Algebra.Order.Group.Multiset
import Mathlib.Data.Multiset.Bind
import Tyo3.FiniteMaps
import Tyo3.JsonValues
import Tyo3.LineFrames
import Tyo3.Runs

/-!
# The client of the editor

The editor talks to the daemon over a pipe. A request is written as a line and
its callback is kept under the id of the request; the lines of the daemon, the
deadlines of requests and the end of the connection all come in at any time,
and what they lead to is put off to the main loop. A callback is taken out of
the table before it is called, so it is called once at most, whatever happens
in between; and once the connection is closed it is called.
-/

namespace Tyo3.EditorClient

open FiniteMaps LineFrames Runs

open JsonValues (Bytes)

/-- What a line of the daemon says. -/
inductive Message (β : Type*) where
  /-- An answer. The id may not be one that a request can have. -/
  | response (id : Option ℕ) (failed : Bool) (value : β)
  /-- A notification. -/
  | notification (method params : β)
  /-- Anything else. -/
  | other

/-- What a callback is called with. -/
inductive Outcome (β : Type*) where
  /-- The error or the result of an answer. -/
  | answered (failed : Bool) (value : β)
  /-- There was no connection. -/
  | notConnected
  /-- The deadline passed. -/
  | timedOut (ms : ℕ)
  /-- The daemon closed the connection. -/
  | connectionClosed
  /-- The client closed the connection. -/
  | closed
  deriving DecidableEq

/-- What is put off to the main loop. -/
inductive Task (κ β : Type*) where
  /-- Look at a line. -/
  | dispatch (line : Bytes)
  /-- The deadline of a request has passed. -/
  | expire (id ms : ℕ)
  /-- Call a callback. -/
  | call (callback : κ) (outcome : Outcome β)
  /-- Tell that the connection was opened, or not. -/
  | connected (error : Bool)
  /-- Tell that the connection was closed. -/
  | onClose

/-- A frame: id, method and parameters of a request. -/
abbrev Frame (β : Type*) := ℕ × String × β

/-- The client, with what has been written and called so far. -/
structure Client (κ β : Type*) where
  /-- Whether the connection was opened and not closed. -/
  connected : Bool
  /-- Whether there is a pipe. -/
  pipe : Bool
  /-- Id of the last request. -/
  nextId : ℕ
  /-- Callbacks by the ids of their requests. -/
  pending : FMap ℕ κ
  /-- Armed deadlines by the ids of their requests. -/
  timers : FMap ℕ ℕ
  /-- The bytes of an open line. -/
  buffer : Bytes
  /-- What the main loop has to do. -/
  queue : List (Task κ β)
  /-- The frames that were written. -/
  written : List (Frame β)
  /-- The callbacks that were kept, with their ids. -/
  kept : List (ℕ × κ)
  /-- The callbacks that were called. -/
  called : List (κ × Outcome β)
  /-- The notifications that were handled. -/
  notified : List (β × β)

/-- A client that is not connected. -/
def Client.new {κ β : Type*} : Client κ β := ⟨false, false, 0, ∅, ∅, [], [], [], [], [], []⟩

/-- What happens to the client. -/
inductive Event (κ β : Type*) where
  /-- The client is told to connect. -/
  | connect
  /-- The connection is opened, or cannot be. -/
  | opened (error : Bool)
  /-- Bytes arrive. -/
  | data (chunk : Bytes)
  /-- The daemon closes the connection, or reading fails. -/
  | ended
  /-- A request is made, with a deadline unless that is zero. -/
  | request (method : String) (params : β) (callback : Option κ) (ms : ℕ)
  /-- A deadline passes. -/
  | fire (id : ℕ)
  /-- The main loop does the first thing it has to do. -/
  | turn
  /-- The client is closed. -/
  | close

section Steps

variable {κ β : Type*} (decode : Bytes → Option (Message β)) (iter : HashOrder ℕ)

namespace Client

/-- Bytes arrive: the lines that are complete now are put off, empty ones are
dropped. -/
def onData (s : Client κ β) (chunk : Bytes) : Client κ β :=
  let buffer := s.buffer ++ chunk
  let taken := drain 10 buffer.length buffer
  { s with
    buffer := taken.2
    queue := s.queue ++ (taken.1.filter fun line => line ≠ []).map Task.dispatch }

/-- Call a callback, if there is one. -/
def callBack (s : Client κ β) (callback : Option κ) (outcome : Outcome β) : Client κ β :=
  match callback with
  | none => s
  | some cb => { s with called := s.called ++ [(cb, outcome)] }

/-- Take a request out of the tables. -/
def settle (s : Client κ β) (id : ℕ) : Client κ β :=
  { s with pending := s.pending.erase id, timers := s.timers.erase id }

/-- Look at a line: an answer calls the callback of its id. -/
def dispatch (s : Client κ β) (line : Bytes) : Client κ β :=
  match decode line with
  | some (.response (some id) failed value) =>
    (s.settle id).callBack (s.pending.lookup id) (.answered failed value)
  | some (.notification method params) => { s with notified := s.notified ++ [(method, params)] }
  | _ => s

/-- Empty the tables and put off the calls of all callbacks. -/
def abandon (s : Client κ β) (outcome : Outcome β) : Client κ β :=
  { s with
    connected := false
    timers := ∅
    pending := ∅
    queue := s.queue ++ (iter.order s.pending.keys).filterMap fun id =>
      (s.pending.lookup id).map fun cb => Task.call cb outcome }

/-- The connection has ended. -/
def onClose (s : Client κ β) : Client κ β :=
  if s.connected = false ∧ s.pending.keys = ∅ then s
  else
    let s := s.abandon iter .connectionClosed
    { s with queue := s.queue ++ [.onClose] }

/-- Make a request. -/
def request (s : Client κ β) (method : String) (params : β) (callback : Option κ) (ms : ℕ) :
    Client κ β :=
  if s.connected = false ∨ s.pipe = false then
    match callback with
    | none => s
    | some cb => { s with queue := s.queue ++ [.call cb .notConnected] }
  else
    let id := s.nextId + 1
    let s := { s with nextId := id, written := s.written ++ [(id, method, params)] }
    match callback with
    | none => s
    | some cb =>
      { s with
        pending := s.pending.insert id cb
        kept := s.kept ++ [(id, cb)]
        timers := if 0 < ms then s.timers.insert id ms else s.timers }

/-- Do what was put off. -/
def perform (s : Client κ β) : Task κ β → Client κ β
  | .dispatch line => s.dispatch decode line
  | .expire id ms => (s.settle id).callBack (s.pending.lookup id) (.timedOut ms)
  | .call cb outcome => s.callBack (some cb) outcome
  | .connected _ => s
  | .onClose => s

/-- A deadline passes: what it leads to is put off. -/
def fire (s : Client κ β) (id : ℕ) : Client κ β :=
  match s.timers.lookup id with
  | none => s
  | some ms => { s with timers := s.timers.erase id, queue := s.queue ++ [.expire id ms] }

/-- The main loop does the first thing it has to do. -/
def turn (s : Client κ β) : Client κ β :=
  match s.queue with
  | [] => s
  | task :: queue => perform decode { s with queue := queue } task

/-- The client after an event. -/
def step (s : Client κ β) : Event κ β → Client κ β
  | .connect => { s with pipe := true }
  | .opened error =>
    { s with
      pipe := if error then false else s.pipe
      connected := if error then s.connected else true
      queue := s.queue ++ [.connected error] }
  | .data chunk => s.onData chunk
  | .ended => s.onClose iter
  | .request method params callback ms => s.request method params callback ms
  | .fire id => s.fire id
  | .turn => s.turn decode
  | .close => { s.abandon iter .closed with pipe := false }

end Client

end Steps

/-! ## The values of a table -/

section Values

variable {K V : Type*} [DecidableEq K]

/-- The values of a map, each as often as it is held. -/
def values (m : FMap K V) : Multiset V := m.keys.val.filterMap m.lookup

theorem values_empty : values (∅ : FMap K V) = 0 := rfl

/-- A map holds the value of a key and those of the other keys. -/
theorem values_eq_add_erase (m : FMap K V) (k : K) :
    values m = ((m.lookup k).toList : Multiset V) + values (m.erase k) := by
  cases hk : m.lookup k with
  | none =>
    have hsame : m.erase k = m := by
      apply Finmap.ext_lookup
      intro other
      rw [lookup_erase_ite]
      split
      · rename_i heq
        rw [heq, hk]
      · rfl
    rw [hsame]
    exact (zero_add _).symm
  | some v =>
    have hin : k ∈ m.keys := (mem_keys_iff m k).mpr ⟨v, hk⟩
    have hkeys : (m.erase k).keys = m.keys.erase k := by
      ext other
      rw [mem_keys_iff, Finset.mem_erase, mem_keys_iff, lookup_erase_ite]
      by_cases heq : other = k <;> simp [heq]
    have hothers : (m.erase k).keys.val.filterMap (m.erase k).lookup =
        (m.keys.erase k).val.filterMap m.lookup := by
      rw [hkeys, Multiset.filterMap_eq_bind, Multiset.filterMap_eq_bind]
      refine Multiset.bind_congr fun other hother => ?_
      rw [lookup_erase_ite, if_neg (Finset.ne_of_mem_erase hother)]
    unfold values
    rw [hothers, Finset.erase_val]
    conv_lhs => rw [← Multiset.cons_erase (Finset.mem_val.mpr hin)]
    exact Multiset.filterMap_cons_some (fun id => m.lookup id) k _ hk

/-- A value under a new key is held besides the others. -/
theorem values_insert {m : FMap K V} {k : K} (hk : m.lookup k = none) (v : V) :
    values (m.insert k v) = v ::ₘ values m := by
  have hsame : (m.insert k v).erase k = m := by
    apply Finmap.ext_lookup
    intro other
    rw [lookup_erase_ite, lookup_insert_ite]
    split
    · rename_i heq
      rw [heq, hk]
    · rfl
  rw [values_eq_add_erase _ k, Finmap.lookup_insert, hsame]
  rfl

end Values

/-- A value after an insertion is the inserted one under its key, or was there
before. -/
theorem lookup_insert_cases {K V : Type*} [DecidableEq K] {m : FMap K V} {k k' : K}
    {v w : V} (h : (m.insert k v).lookup k' = some w) : k' = k ∧ w = v ∨ m.lookup k' = some w := by
  rw [lookup_insert_ite] at h
  split_ifs at h with hk
  · exact .inl ⟨hk, (Option.some.inj h).symm⟩
  · exact .inr h

/-! ## Every callback once -/

variable {κ β : Type*}

/-- The callback of a task that calls one. -/
def Task.callback : Task κ β → Option κ
  | .call cb _ => some cb
  | _ => none

/-- The callback of an event that makes a request. -/
def Event.callback : Event κ β → Option κ
  | .request _ _ cb _ => cb
  | _ => none

namespace Client

/-- The callbacks that were called, that are put off, and that are kept. -/
def callbacks (s : Client κ β) : Multiset κ :=
  ((s.called.map Prod.fst : List κ) : Multiset κ) + (s.queue.filterMap Task.callback : List κ) +
    values s.pending

/-- Ids are counted up, and without a connection no callback is kept. -/
structure Numbered (s : Client κ β) : Prop where
  /-- The next id is a new one. -/
  fresh : ∀ id cb, s.pending.lookup id = some cb → id ≤ s.nextId
  /-- Callbacks are kept while there is a connection. -/
  open_ : s.connected = false → s.pending = ∅

theorem numbered_new : (Client.new : Client κ β).Numbered where
  fresh id cb h := by
    rw [Client.new, Finmap.lookup_empty] at h
    cases h
  open_ _ := rfl

end Client

open Client

variable {decode : Bytes → Option (Message β)} {iter : HashOrder ℕ} {s : Client κ β}

theorem Client.Numbered.erase (h : s.Numbered) {s' : Client κ β} {id : ℕ}
    (hpending : s'.pending = s.pending.erase id) (hid : s'.nextId = s.nextId)
    (hconnected : s'.connected = s.connected) : s'.Numbered where
  fresh other cb hother := by
    rw [hpending] at hother
    rw [hid]
    exact h.fresh other cb (lookup_of_lookup_erase hother)
  open_ hclosed := by
    rw [hconnected] at hclosed
    rw [hpending, h.open_ hclosed]
    rfl

/-- Calling the callback of a request takes it out of the table. -/
theorem callbacks_settle (s : Client κ β) (id : ℕ) (outcome : Outcome β) :
    ((s.settle id).callBack (s.pending.lookup id) outcome).callbacks = s.callbacks := by
  unfold callbacks
  rw [values_eq_add_erase s.pending id]
  cases s.pending.lookup id with
  | none =>
    show _ = _ + (0 + _)
    rw [zero_add]
    rfl
  | some cb =>
    show ((((s.called ++ [(cb, outcome)]).map Prod.fst : List κ) : Multiset κ) + _ + _) = _
    rw [List.map_append, ← Multiset.coe_add]
    exact (add_assoc _ _ _).trans ((add_assoc _ _ _).trans
      ((congrArg _ (add_left_comm _ _ _)).trans (add_assoc _ _ _).symm))

/-- Emptying the table puts off the calls of its callbacks. -/
theorem callbacks_abandon (iter : HashOrder ℕ) (s : Client κ β) (outcome : Outcome β) :
    (s.abandon iter outcome).callbacks = s.callbacks := by
  have hqueue : (((iter.order s.pending.keys).filterMap fun id =>
      (s.pending.lookup id).map fun cb => (Task.call cb outcome : Task κ β)).filterMap
        Task.callback : Multiset κ) = values s.pending := by
    unfold values
    rw [List.filterMap_filterMap, ← iter.exhaustive]
    refine congrArg _ (List.filterMap_congr fun id _ => ?_)
    cases s.pending.lookup id <;> rfl
  unfold callbacks abandon
  dsimp only
  rw [List.filterMap_append, ← Multiset.coe_add, hqueue, values_empty, add_zero, add_assoc]

/-- What is put off of lines calls no callback. -/
theorem filterMap_callback_dispatch (lines : List Bytes) :
    (lines.map (Task.dispatch : Bytes → Task κ β)).filterMap Task.callback = [] := by
  rw [List.filterMap_map, List.filterMap_eq_nil_iff]
  exact fun line _ => rfl

/-- Doing what was put off keeps the callbacks. -/
theorem callbacks_perform (s : Client κ β) (task : Task κ β) :
    (perform decode s task).callbacks = (task.callback.toList : Multiset κ) + s.callbacks := by
  have hsame : s.callbacks = (0 : Multiset κ) + s.callbacks := (zero_add _).symm
  cases task with
  | dispatch line =>
    refine Eq.trans ?_ hsame
    show (s.dispatch decode line).callbacks = s.callbacks
    unfold dispatch
    split
    · exact callbacks_settle s _ _
    · rfl
    · rfl
  | expire id ms => exact (callbacks_settle s id _).trans hsame
  | call cb outcome =>
    show ((((s.called ++ [(cb, outcome)]).map Prod.fst : List κ) : Multiset κ) + _ + _) = _
    rw [List.map_append, ← Multiset.coe_add, add_assoc, add_assoc, add_left_comm]
    exact congrArg _ (add_assoc _ _ _).symm
  | connected error => exact hsame
  | onClose => exact hsame

/-- An event brings the callback of its request, and no other is lost or
called again. -/
theorem callbacks_step (h : s.Numbered) (e : Event κ β) :
    (step decode iter s e).callbacks = s.callbacks + (e.callback.toList : Multiset κ) := by
  have hsame : s.callbacks = s.callbacks + (0 : Multiset κ) := (add_zero _).symm
  cases e with
  | connect => exact hsame
  | opened error =>
    refine Eq.trans ?_ hsame
    unfold callbacks step
    dsimp only
    rw [List.filterMap_append]
    exact congrArg (fun queued : List κ => _ + (queued : Multiset κ) + _) (List.append_nil _)
  | data chunk =>
    refine Eq.trans ?_ hsame
    unfold callbacks step onData
    dsimp only
    rw [List.filterMap_append, filterMap_callback_dispatch, List.append_nil]
  | ended =>
    refine Eq.trans ?_ hsame
    show (s.onClose iter).callbacks = s.callbacks
    unfold onClose
    split
    · rfl
    · rw [← callbacks_abandon iter s .connectionClosed]
      unfold callbacks
      dsimp only
      rw [List.filterMap_append]
      exact congrArg (fun queued : List κ => _ + (queued : Multiset κ) + _) (List.append_nil _)
  | request method params callback ms =>
    show (s.request method params callback ms).callbacks = _
    unfold request
    split
    · cases callback with
      | none => exact hsame
      | some cb =>
        unfold callbacks
        dsimp only
        rw [List.filterMap_append, ← Multiset.coe_add, ← add_assoc]
        exact add_right_comm _ _ _
    · cases callback with
      | none => exact hsame
      | some cb =>
        have hnew : s.pending.lookup (s.nextId + 1) = none := by
          cases hid : s.pending.lookup (s.nextId + 1) with
          | none => rfl
          | some other => exact absurd (h.fresh _ _ hid) (by omega)
        unfold callbacks
        dsimp only
        rw [values_insert hnew, ← Multiset.singleton_add, add_comm ({cb} : Multiset κ), ← add_assoc]
        rfl
  | fire id =>
    refine Eq.trans ?_ hsame
    show (s.fire id).callbacks = s.callbacks
    unfold fire
    split
    · rfl
    · unfold callbacks
      dsimp only
      rw [List.filterMap_append]
      exact congrArg (fun queued : List κ => _ + (queued : Multiset κ) + _) (List.append_nil _)
  | turn =>
    refine Eq.trans ?_ hsame
    show (s.turn decode).callbacks = s.callbacks
    unfold turn
    split
    · rfl
    · rename_i task queue hqueue
      rw [callbacks_perform]
      unfold callbacks
      dsimp only
      rw [hqueue]
      cases hcb : task.callback with
      | none =>
        rw [List.filterMap_cons_none hcb]
        exact zero_add _
      | some cb =>
        rw [List.filterMap_cons_some hcb, ← Multiset.cons_coe, ← Multiset.singleton_add,
          ← add_assoc, ← add_assoc, add_left_comm _ ({cb} : Multiset κ), ← add_assoc]
        rfl
  | close => exact (callbacks_abandon iter s .closed).trans hsame

/-- Every event keeps the ids counted up. -/
theorem numbered_step (h : s.Numbered) (e : Event κ β) : (step decode iter s e).Numbered := by
  have habandon : ∀ outcome, (s.abandon iter outcome).Numbered := fun outcome =>
    ⟨fun id cb hid => absurd hid (by simp [abandon]), fun _ => rfl⟩
  cases e with
  | connect => exact ⟨h.fresh, h.open_⟩
  | opened error =>
    refine ⟨h.fresh, fun hclosed => h.open_ ?_⟩
    cases error with
    | true => exact hclosed
    | false => exact absurd hclosed Bool.noConfusion
  | data chunk => exact ⟨h.fresh, h.open_⟩
  | ended =>
    show (s.onClose iter).Numbered
    unfold onClose
    split
    · exact h
    · exact ⟨(habandon .connectionClosed).fresh, (habandon .connectionClosed).open_⟩
  | request method params callback ms =>
    show (s.request method params callback ms).Numbered
    unfold request
    split
    · cases callback with
      | none => exact h
      | some cb => exact ⟨h.fresh, h.open_⟩
    · rename_i hopen
      have hconnected : s.connected ≠ false := fun hclosed => hopen (.inl hclosed)
      cases callback with
      | none =>
        exact ⟨fun id cb hid => Nat.le_succ_of_le (h.fresh id cb hid),
          fun hclosed => absurd hclosed hconnected⟩
      | some cb =>
        refine ⟨fun id other hid => ?_, fun hclosed => absurd hclosed hconnected⟩
        dsimp only at hid ⊢
        rw [lookup_insert_ite] at hid
        split at hid
        · omega
        · exact Nat.le_succ_of_le (h.fresh id other hid)
  | fire id =>
    show (s.fire id).Numbered
    unfold fire
    split
    · exact h
    · exact ⟨h.fresh, h.open_⟩
  | turn =>
    show (s.turn decode).Numbered
    have hsettle : ∀ (queue : List (Task κ β)) (id : ℕ) (callback : Option κ) (outcome : Outcome β),
        ((({ s with queue := queue } : Client κ β).settle id).callBack callback
          outcome).Numbered := by
      intro queue id callback outcome
      cases callback <;> exact h.erase rfl rfl rfl
    unfold turn
    split
    · exact h
    · rename_i task queue hqueue
      cases task with
      | dispatch line =>
        show (dispatch decode _ line).Numbered
        unfold dispatch
        split
        · exact hsettle _ _ _ _
        · exact ⟨h.fresh, h.open_⟩
        · exact ⟨h.fresh, h.open_⟩
      | expire id ms => exact hsettle _ _ _ _
      | call cb outcome => exact ⟨h.fresh, h.open_⟩
      | connected error => exact ⟨h.fresh, h.open_⟩
      | onClose => exact ⟨h.fresh, h.open_⟩
  | close => exact ⟨(habandon .closed).fresh, (habandon .closed).open_⟩

/-- The callbacks of the requests of a run. -/
def requested (events : List (Event κ β)) : List κ := events.filterMap Event.callback

variable (decode iter) in
/-- In a run no callback is lost, and none is called more often than it was
given to a request. -/
theorem callbacks_run (events : List (Event κ β)) (h : s.Numbered) :
    (run (step decode iter) s events).Numbered ∧
      (run (step decode iter) s events).callbacks =
        s.callbacks + (requested events : Multiset κ) := by
  induction events generalizing s with
  | nil => exact ⟨h, (add_zero _).symm⟩
  | cons e events ih =>
    obtain ⟨hnumbered, hcallbacks⟩ := ih (numbered_step h e)
    refine ⟨hnumbered, ?_⟩
    rw [run_cons, hcallbacks, callbacks_step h e, add_assoc]
    unfold requested
    cases hcb : e.callback with
    | none =>
      rw [List.filterMap_cons_none hcb]
      exact congrArg _ (zero_add _)
    | some cb =>
      rw [List.filterMap_cons_some hcb]
      rfl

variable (decode) in
/-- Doing what was put off puts nothing off and opens no connection. -/
theorem queue_perform (s : Client κ β) (task : Task κ β) :
    (perform decode s task).queue = s.queue ∧ (perform decode s task).connected = s.connected := by
  have hcall : ∀ (s : Client κ β) callback outcome, (s.callBack callback outcome).queue = s.queue ∧
      (s.callBack callback outcome).connected = s.connected := by
    intro s callback outcome
    cases callback <;> exact ⟨rfl, rfl⟩
  cases task with
  | dispatch line =>
    show (dispatch decode s line).queue = s.queue ∧ (dispatch decode s line).connected = s.connected
    unfold dispatch
    split
    · exact hcall _ _ _
    · exact ⟨rfl, rfl⟩
    · exact ⟨rfl, rfl⟩
  | expire id ms => exact hcall _ _ _
  | call cb outcome => exact ⟨rfl, rfl⟩
  | connected error => exact ⟨rfl, rfl⟩
  | onClose => exact ⟨rfl, rfl⟩

variable (decode iter) in
/-- With a turn for each thing put off, nothing is left to do. -/
theorem queue_turns (n : ℕ) (h : s.queue.length ≤ n) :
    (run (step decode iter) s (List.replicate n .turn)).queue = [] ∧
      (run (step decode iter) s (List.replicate n .turn)).connected = s.connected := by
  induction n generalizing s with
  | zero => exact ⟨List.length_eq_zero_iff.mp (Nat.le_zero.mp h), rfl⟩
  | succ n ih =>
    have hturn : (s.turn decode).queue.length ≤ n ∧ (s.turn decode).connected = s.connected := by
      unfold turn
      split
      · rename_i hqueue
        rw [hqueue]
        exact ⟨Nat.zero_le n, rfl⟩
      · rename_i task queue hqueue
        obtain ⟨hrest, hconnected⟩ := queue_perform decode { s with queue := queue } task
        rw [hrest, hconnected]
        rw [hqueue, List.length_cons] at h
        exact ⟨Nat.le_of_succ_le_succ h, rfl⟩
    obtain ⟨hqueue, hconnected⟩ := ih hturn.1
    exact ⟨hqueue, hconnected.trans hturn.2⟩

/-- After the end of the connection, from either side, there is none. -/
theorem connected_last {last : Event κ β} (hlast : last = .close ∨ last = .ended)
    (s : Client κ β) : (step decode iter s last).connected = false := by
  rcases hlast with rfl | rfl
  · rfl
  · show (s.onClose iter).connected = false
    unfold onClose
    split
    · rename_i hclosed
      exact hclosed.1
    · rfl

/-- Whatever happens, in whatever order, a callback is called at most as often
as it was given to a request. Once the connection has ended and the main loop
has done what was put off, every callback was called exactly that often. -/
theorem called_once (decode : Bytes → Option (Message β)) (iter : HashOrder ℕ)
    (events : List (Event κ β)) :
    (((run (step decode iter) Client.new events).called.map Prod.fst : List κ) : Multiset κ) ≤
        requested events ∧
      ∀ last, last = .close ∨ last = .ended → ∀ n,
        (run (step decode iter) Client.new (events ++ [last])).queue.length ≤ n →
        ((run (step decode iter) Client.new (events ++ last :: List.replicate n .turn)).called.map
          Prod.fst).Perm (requested events) := by
  have hnew : (Client.new : Client κ β).callbacks = 0 := rfl
  constructor
  · obtain ⟨-, hcallbacks⟩ := callbacks_run decode iter events
      (numbered_new : (Client.new : Client κ β).Numbered)
    rw [hnew, zero_add] at hcallbacks
    rw [← hcallbacks]
    exact (Multiset.le_add_right _ _).trans (Multiset.le_add_right _ _)
  · intro last hlast n hn
    obtain ⟨hnumbered, hcallbacks⟩ := callbacks_run decode iter
      (events ++ last :: List.replicate n .turn) (numbered_new : (Client.new : Client κ β).Numbered)
    have hsplit : run (step decode iter) Client.new (events ++ last :: List.replicate n .turn) =
        run (step decode iter) (run (step decode iter) Client.new (events ++ [last]))
          (List.replicate n .turn) := by
      unfold run
      rw [← List.foldl_append, List.append_assoc]
      rfl
    have hclosed : (run (step decode iter) (Client.new : Client κ β) (events ++ [last])).connected =
        false := by
      unfold run
      rw [List.foldl_append]
      exact connected_last hlast _
    obtain ⟨hqueue, hconnected⟩ := queue_turns decode iter n hn
    rw [← hsplit] at hqueue hconnected
    have hpending := hnumbered.open_ (hconnected.trans hclosed)
    have hrequested : requested (events ++ last :: List.replicate n .turn) =
        requested events := by
      have hturns : (List.replicate n (Event.turn : Event κ β)).filterMap Event.callback = [] :=
        List.filterMap_eq_nil_iff.mpr fun e he => by rw [List.eq_of_mem_replicate he]; rfl
      have hnone : last.callback = none := by
        rcases hlast with rfl | rfl <;> rfl
      unfold requested
      rw [List.filterMap_append, List.filterMap_cons_none hnone, hturns, List.append_nil]
    rw [hnew, zero_add, hrequested] at hcallbacks
    unfold callbacks at hcallbacks
    rw [hqueue, hpending, values_empty, add_zero] at hcallbacks
    exact Multiset.coe_eq_coe.mp ((add_zero _).symm.trans hcallbacks)

/-! ## Answers to their requests -/

/-- What is put off writes no request. -/
theorem written_perform (s : Client κ β) (task : Task κ β) :
    (s.perform decode task).written = s.written := by
  have hcall : ∀ (s : Client κ β) callback outcome,
      (s.callBack callback outcome).written = s.written := by
    intro s callback outcome
    cases callback <;> rfl
  cases task with
  | dispatch line =>
    show (s.dispatch decode line).written = s.written
    unfold dispatch
    split
    · exact hcall _ _ _
    · rfl
    · rfl
  | expire id ms => exact hcall _ _ _
  | call cb outcome => rfl
  | connected error => rfl
  | onClose => rfl

/-- Requests are written behind those before. -/
theorem written_step (s : Client κ β) (e : Event κ β) :
    s.written <+: (step decode iter s e).written := by
  cases e with
  | ended =>
    show s.written <+: (s.onClose iter).written
    unfold onClose
    split <;> exact List.prefix_rfl
  | request method params callback ms =>
    show s.written <+: (s.request method params callback ms).written
    unfold Client.request
    split
    · cases callback <;> exact List.prefix_rfl
    · cases callback <;> exact List.prefix_append _ _
  | fire id =>
    show s.written <+: (s.fire id).written
    unfold fire
    split <;> exact List.prefix_rfl
  | turn =>
    show s.written <+: (s.turn decode).written
    unfold turn
    split
    · exact List.prefix_rfl
    · rw [written_perform]
  | _ => exact List.prefix_rfl

/-- The bytes of an event. -/
def Event.bytes : Event κ β → Bytes
  | .data chunk => chunk
  | _ => []

/-- The bytes that arrive in a run. -/
def received (events : List (Event κ β)) : Bytes := (events.map Event.bytes).flatten

/-- A task that brings no answer. -/
def Task.Quiet : Task κ β → Prop
  | .dispatch _ => False
  | .call _ (.answered _ _) => False
  | _ => True

/-- What the client holds after some events. -/
structure Matched (decode : Bytes → Option (Message β)) (past : List (Event κ β))
    (s : Client κ β) : Prop where
  /-- The open line is what follows the last complete one. -/
  buffer : s.buffer = (split 10 (received past)).2
  /-- Lines that are put off have arrived. -/
  lines : ∀ line, Task.dispatch line ∈ s.queue → line ∈ (split 10 (received past)).1
  /-- Calls that are put off bring no answer. -/
  calls : ∀ cb failed value, Task.call cb (.answered failed value) ∉ s.queue
  /-- Requests are numbered in the order in which they are written. -/
  written : s.written.map Prod.fst = List.range' 1 s.nextId
  /-- So are the callbacks that are kept. -/
  keptIds : (s.kept.map Prod.fst).Sublist (s.written.map Prod.fst)
  /-- A callback is kept under the id of its request. -/
  kept : ∀ id cb, (id, cb) ∈ s.kept → ∃ method params ms,
    Event.request method params (some cb) ms ∈ past ∧ (id, method, params) ∈ s.written
  /-- The table holds callbacks that were kept. -/
  pending : ∀ id cb, s.pending.lookup id = some cb → (id, cb) ∈ s.kept
  /-- An answer came on a line with the id of the request. -/
  called : ∀ cb failed value, (cb, Outcome.answered failed value) ∈ s.called →
    ∃ id line, (id, cb) ∈ s.kept ∧ line ∈ (split 10 (received past)).1 ∧
      decode line = some (.response (some id) failed value)

theorem matched_new : Matched decode [] (Client.new : Client κ β) where
  buffer := rfl
  lines _ h := absurd h List.not_mem_nil
  calls _ _ _ := List.not_mem_nil
  written := rfl
  keptIds := List.Sublist.refl []
  kept _ _ h := absurd h List.not_mem_nil
  pending id cb h := by
    rw [Client.new, Finmap.lookup_empty] at h
    cases h
  called _ _ _ h := absurd h List.not_mem_nil

theorem received_snoc (past : List (Event κ β)) (e : Event κ β) :
    received (past ++ [e]) = received past ++ e.bytes := by
  unfold received
  rw [List.map_append, List.flatten_append]
  exact congrArg _ (List.append_nil _)

namespace Matched

variable {past : List (Event κ β)}

/-- What changes neither what is kept nor the bytes. -/
theorem aside (h : Matched decode past s) {s' : Client κ β} {e : Event κ β} (hbytes : e.bytes = [])
    (hbuffer : s'.buffer = s.buffer) (hid : s'.nextId = s.nextId)
    (hwritten : s'.written = s.written) (hkept : s'.kept = s.kept) (hcalled : s'.called = s.called)
    (hqueue : ∀ task ∈ s'.queue, task ∈ s.queue ∨ task.Quiet)
    (hpending : ∀ id cb, s'.pending.lookup id = some cb → s.pending.lookup id = some cb) :
    Matched decode (past ++ [e]) s' := by
  have hsame : received (past ++ [e]) = received past := by
    rw [received_snoc, hbytes, List.append_nil]
  constructor
  · rw [hbuffer, hsame]
    exact h.buffer
  · intro line hline
    rw [hsame]
    rcases hqueue _ hline with hold | hnew
    · exact h.lines line hold
    · exact hnew.elim
  · intro cb failed value hcall
    rcases hqueue _ hcall with hold | hnew
    · exact h.calls cb failed value hold
    · exact hnew
  · rw [hwritten, hid]
    exact h.written
  · rw [hwritten, hkept]
    exact h.keptIds
  · intro id cb hin
    rw [hkept] at hin
    rw [hwritten]
    obtain ⟨method, params, ms, hevent, hframe⟩ := h.kept id cb hin
    exact ⟨method, params, ms, List.mem_append_left _ hevent, hframe⟩
  · intro id cb hin
    rw [hkept]
    exact h.pending id cb (hpending id cb hin)
  · intro cb failed value hin
    rw [hcalled] at hin
    rw [hkept, hsame]
    exact h.called cb failed value hin

/-- Bytes complete the open line and bring new ones. -/
theorem data (h : Matched decode past s) (chunk : Bytes) :
    Matched decode (past ++ [.data chunk]) (s.onData chunk) := by
  have hsplit : split 10 (received (past ++ [(.data chunk : Event κ β)])) =
      ((split 10 (received past)).1 ++ (split 10 (s.buffer ++ chunk)).1,
        (split 10 (s.buffer ++ chunk)).2) := by
    rw [received_snoc, h.buffer]
    exact split_append _ _
  have hdrain : drain 10 (s.buffer ++ chunk).length (s.buffer ++ chunk) =
      split 10 (s.buffer ++ chunk) := drain_eq_split (Nat.le_refl _)
  have hqueue : (s.onData chunk).queue = s.queue ++
      ((split 10 (s.buffer ++ chunk)).1.filter fun line => line ≠ []).map Task.dispatch := by
    rw [← hdrain]
    rfl
  constructor
  · rw [hsplit, ← hdrain]
    rfl
  · intro line hline
    rw [hqueue, List.mem_append] at hline
    rw [hsplit, List.mem_append]
    rcases hline with hold | hnew
    · exact .inl (h.lines line hold)
    · obtain ⟨line', hline', heq⟩ := List.mem_map.mp hnew
      cases heq
      exact .inr (List.mem_filter.mp hline').1
  · intro cb failed value hcall
    rw [hqueue, List.mem_append] at hcall
    rcases hcall with hold | hnew
    · exact h.calls cb failed value hold
    · obtain ⟨line, -, heq⟩ := List.mem_map.mp hnew
      cases heq
  · exact h.written
  · exact h.keptIds
  · intro id cb hin
    obtain ⟨method, params, ms, hevent, hframe⟩ := h.kept id cb hin
    exact ⟨method, params, ms, List.mem_append_left _ hevent, hframe⟩
  · exact h.pending
  · intro cb failed value hin
    obtain ⟨id, line, hkept, hline, hdecode⟩ := h.called cb failed value hin
    rw [hsplit]
    exact ⟨id, line, hkept, List.mem_append_left _ hline, hdecode⟩

/-- A request over a connection takes the next id. -/
theorem request (h : Matched decode past s) (method : String) (params : β) (callback : Option κ)
    (ms : ℕ) : Matched decode (past ++ [.request method params callback ms])
      (s.request method params callback ms) := by
  have hsame : received (past ++ [(.request method params callback ms : Event κ β)]) =
      received past := by
    rw [received_snoc]
    exact List.append_nil _
  unfold Client.request
  split
  · cases callback with
    | none =>
      exact h.aside rfl rfl rfl rfl rfl rfl (fun task htask => .inl htask) fun _ _ hin => hin
    | some cb =>
      refine h.aside rfl rfl rfl rfl rfl rfl (fun task htask => ?_) fun _ _ hin => hin
      rcases List.mem_append.mp htask with hold | hnew
      · exact .inl hold
      · rw [List.mem_singleton.mp hnew]
        exact .inr trivial
  · have hwritten : (s.written ++ [(s.nextId + 1, method, params)]).map Prod.fst =
        List.range' 1 (s.nextId + 1) := by
      rw [List.map_append, h.written, List.range'_1_concat]
      exact congrArg (fun id => _ ++ [id]) (Nat.add_comm _ _)
    have hkeep : ∀ id cb, (id, cb) ∈ s.kept → ∃ method' params' ms',
        Event.request method' params' (some cb) ms' ∈
            past ++ [.request method params callback ms] ∧
          (id, method', params') ∈ s.written ++ [(s.nextId + 1, method, params)] := by
      intro id cb hin
      obtain ⟨method', params', ms', hevent, hframe⟩ := h.kept id cb hin
      exact ⟨method', params', ms', List.mem_append_left _ hevent, List.mem_append_left _ hframe⟩
    cases callback with
    | none =>
      refine ⟨?_, ?_, h.calls, hwritten, ?_, hkeep, h.pending, ?_⟩
      · rw [hsame]
        exact h.buffer
      · rw [hsame]
        exact h.lines
      · rw [List.map_append]
        exact h.keptIds.trans (List.sublist_append_left _ _)
      · rw [hsame]
        exact h.called
    | some cb =>
      refine ⟨?_, ?_, h.calls, hwritten, ?_, ?_, ?_, ?_⟩
      · rw [hsame]
        exact h.buffer
      · rw [hsame]
        exact h.lines
      · dsimp only
        rw [List.map_append, List.map_append]
        exact h.keptIds.append (List.Sublist.refl _)
      · intro id other hin
        rcases List.mem_append.mp hin with hold | hnew
        · exact hkeep id other hold
        · cases List.mem_singleton.mp hnew
          exact ⟨method, params, ms, List.mem_append_right _ (List.mem_singleton_self _),
            List.mem_append_right _ (List.mem_singleton_self _)⟩
      · intro id other hin
        rw [List.mem_append]
        rcases lookup_insert_cases hin with ⟨rfl, rfl⟩ | hold
        · exact .inr (List.mem_singleton_self _)
        · exact .inl (h.pending id other hold)
      · intro cb' failed value hin
        obtain ⟨id, line, hkept, hline, hdecode⟩ := h.called cb' failed value hin
        rw [hsame]
        exact ⟨id, line, List.mem_append_left _ hkept, hline, hdecode⟩

/-- Taking a request out of the tables and calling its callback. -/
theorem settle (h : Matched decode past s) {queue : List (Task κ β)} (hsub : queue ⊆ s.queue)
    (id : ℕ) (outcome : Outcome β) (hanswer : ∀ failed value, outcome = .answered failed value →
      ∃ line ∈ (split 10 (received past)).1,
        decode line = some (.response (some id) failed value)) :
    Matched decode (past ++ [.turn])
      ((({ s with queue := queue } : Client κ β).settle id).callBack (s.pending.lookup id)
        outcome) := by
  have hsame : received (past ++ [(.turn : Event κ β)]) = received past := by
    rw [received_snoc]
    exact List.append_nil _
  have hturn : Matched decode (past ++ [.turn])
      (({ s with queue := queue } : Client κ β).settle id) :=
    h.aside rfl rfl rfl rfl rfl rfl (fun task htask => .inl (hsub htask)) fun other cb hother =>
      lookup_of_lookup_erase hother
  cases hcb : s.pending.lookup id with
  | none => exact hturn
  | some cb =>
    refine ⟨hturn.buffer, hturn.lines, hturn.calls, hturn.written, hturn.keptIds, hturn.kept,
      hturn.pending, fun cb' failed value hin => ?_⟩
    rcases List.mem_append.mp hin with hold | hnew
    · exact hturn.called cb' failed value hold
    · cases List.mem_singleton.mp hnew
      obtain ⟨line, hline, hdecode⟩ := hanswer failed value rfl
      exact ⟨id, line, h.pending id cb hcb, hsame.symm ▸ hline, hdecode⟩

end Matched

/-- What is put off behind the queue, when it brings no answer. -/
theorem quiet_snoc {s : Client κ β} {quiet : Task κ β} (h : quiet.Quiet) :
    ∀ task ∈ s.queue ++ [quiet], task ∈ s.queue ∨ task.Quiet := by
  intro task htask
  rcases List.mem_append.mp htask with hold | hnew
  · exact .inl hold
  · exact .inr (List.mem_singleton.mp hnew ▸ h)

/-- Putting off the calls of all callbacks brings no answer. -/
theorem quiet_abandon {outcome : Outcome β} (h : ∀ failed value, outcome ≠ .answered failed value)
    (s : Client κ β) : ∀ task ∈ (s.abandon iter outcome).queue, task ∈ s.queue ∨ task.Quiet := by
  intro task htask
  rcases List.mem_append.mp htask with hold | hnew
  · exact .inl hold
  · obtain ⟨id, -, hid⟩ := List.mem_filterMap.mp hnew
    obtain ⟨cb, -, rfl⟩ := Option.map_eq_some_iff.mp hid
    right
    cases outcome with
    | answered failed value => exact absurd rfl (h failed value)
    | _ => exact trivial

variable (iter) in
/-- Every event keeps answers matched. -/
theorem matched_step {past : List (Event κ β)} (h : Matched decode past s) (e : Event κ β) :
    Matched decode (past ++ [e]) (step decode iter s e) := by
  have hnone : ∀ id cb, (∅ : FMap ℕ κ).lookup id = some cb → s.pending.lookup id = some cb := by
    intro id cb hin
    rw [Finmap.lookup_empty] at hin
    cases hin
  cases e with
  | connect =>
    exact h.aside rfl rfl rfl rfl rfl rfl (fun task htask => .inl htask) fun _ _ hin => hin
  | opened error => exact h.aside rfl rfl rfl rfl rfl rfl (quiet_snoc trivial) fun _ _ hin => hin
  | data chunk => exact h.data chunk
  | ended =>
    show Matched decode _ (s.onClose iter)
    unfold onClose
    split
    · exact h.aside rfl rfl rfl rfl rfl rfl (fun task htask => .inl htask) fun _ _ hin => hin
    · refine h.aside rfl rfl rfl rfl rfl rfl (fun task htask => ?_) hnone
      have hquiet : (Task.onClose : Task κ β).Quiet := trivial
      rcases quiet_snoc hquiet task htask with hold | hnew
      · exact quiet_abandon (fun _ _ heq => by cases heq) s task hold
      · exact .inr hnew
  | request method params callback ms => exact h.request method params callback ms
  | fire id =>
    show Matched decode _ (s.fire id)
    unfold fire
    split
    · exact h.aside rfl rfl rfl rfl rfl rfl (fun task htask => .inl htask) fun _ _ hin => hin
    · exact h.aside rfl rfl rfl rfl rfl rfl (quiet_snoc trivial) fun _ _ hin => hin
  | turn =>
    show Matched decode _ (s.turn decode)
    unfold turn
    split
    · exact h.aside rfl rfl rfl rfl rfl rfl (fun task htask => .inl htask) fun _ _ hin => hin
    · rename_i task queue hqueue
      have hsub : queue ⊆ s.queue := by
        rw [hqueue]
        exact List.subset_cons_self task queue
      have hrest : Matched decode (past ++ [.turn]) ({ s with queue := queue } : Client κ β) :=
        h.aside rfl rfl rfl rfl rfl rfl (fun task htask => .inl (hsub htask)) fun _ _ hin => hin
      cases task with
      | dispatch line =>
        have hline : line ∈ (split 10 (received past)).1 :=
          h.lines line (hqueue ▸ List.mem_cons_self)
        show Matched decode _ (dispatch decode _ line)
        unfold dispatch
        split
        · rename_i id failed value hdecode
          refine h.settle hsub id (.answered failed value) ?_
          rintro _ _ ⟨⟩
          exact ⟨line, hline, hdecode⟩
        · exact ⟨hrest.buffer, hrest.lines, hrest.calls, hrest.written, hrest.keptIds, hrest.kept,
            hrest.pending, hrest.called⟩
        · exact hrest
      | expire id ms =>
        exact h.settle hsub id (.timedOut ms) fun _ _ heq => by cases heq
      | call cb outcome =>
        refine ⟨hrest.buffer, hrest.lines, hrest.calls, hrest.written, hrest.keptIds, hrest.kept,
          hrest.pending, fun cb' failed value hin => ?_⟩
        rcases List.mem_append.mp hin with hold | hnew
        · exact hrest.called cb' failed value hold
        · -- a call that is put off brings no answer
          cases List.mem_singleton.mp hnew
          exact absurd (hqueue ▸ List.mem_cons_self) (h.calls cb failed value)
      | connected error => exact hrest
      | onClose => exact hrest
  | close =>
    exact h.aside rfl rfl rfl rfl rfl rfl (quiet_abandon (fun _ _ heq => by cases heq) s) hnone

/-- In every run the answers are matched. -/
theorem matched_run (events : List (Event κ β)) {past : List (Event κ β)}
    (h : Matched decode past s) :
    Matched decode (past ++ events) (run (step decode iter) s events) := by
  induction events generalizing past s with
  | nil =>
    rw [List.append_nil]
    exact h
  | cons e events ih =>
    have hrest := ih (matched_step iter h e)
    rw [List.append_assoc] at hrest
    exact hrest

end Tyo3.EditorClient
