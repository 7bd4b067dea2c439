import Mathlib.Algebra.BigOperators.Group.Finset.Basic
import Mathlib.Algebra.Order.BigOperators.Group.Finset
import Mathlib.Algebra.Order.Group.Multiset
import Tyo3.FiniteMaps
import Tyo3.Runs

/-!
# Finding the daemon of a root

Whoever wants the daemon of a root passes a callback. The first one makes a
record of the root and tries to connect; when that fails, a daemon is started
and a timer tries again until the socket is there, four hundred times at most.
Those who come in between wait in the record. Answers to connects, ticks,
daemons that exit and connections that end come in at any time. Every callback
is called once or waits in a record, and a client that is handed out has
connected. A daemon that exits while no client connects takes its callbacks
along: they wait in a record that nothing looks at again.
-/

namespace Tyo3.DaemonConnections

open FiniteMaps Runs

/-- How far the record of a root is. -/
inductive Status where
  | connecting | ready | down
  deriving DecidableEq

/-- What a callback is called with. -/
inductive Outcome where
  /-- A connected client. -/
  | client (id : ℕ)
  /-- The daemon could not be started. -/
  | notSpawned
  /-- The daemon did not come up in time. -/
  | timedOut
  deriving DecidableEq

/-- Whether a callback is called with an error. -/
def Outcome.isError : Outcome → Bool
  | .client _ => false
  | .notSpawned | .timedOut => true

/-- The record of a root. -/
structure Record (κ : Type*) where
  /-- How far it is. -/
  status : Status
  /-- The connected client. -/
  client : Option ℕ
  /-- The callbacks that wait. -/
  waiters : List κ
  /-- The daemon that was started. -/
  job : Option ℕ
  /-- The timer that tries to connect. -/
  timer : Option ℕ
  /-- How often the timer has tried. -/
  attempts : ℕ
  /-- Whether a try is under way. -/
  attempting : Bool

/-- What comes of starting a daemon. -/
inductive Spawn where
  /-- It was started. -/
  | started
  /-- It was not. -/
  | refused
  /-- The command cannot be run, which is an error of the callback. -/
  | raised
  deriving DecidableEq

/-- Why a client connects. -/
inductive Purpose where
  /-- To find a running daemon. -/
  | first
  /-- A timer tries again. -/
  | poll (timer : ℕ)
  deriving DecidableEq

/-- The editor as far as one root is concerned. Records, clients, timers and
daemons are numbered in the order they were made. -/
structure Editor (κ : Type*) where
  /-- All records that were ever made. -/
  records : ℕ → Record κ
  /-- How many there are. -/
  size : ℕ
  /-- The record that is found for the root. -/
  current : Option ℕ
  /-- Clients that connect, with their records. -/
  connects : FMap ℕ (ℕ × Purpose)
  /-- How many clients were made. -/
  clients : ℕ
  /-- The clients that were connected. -/
  linked : List ℕ
  /-- How many timers were made. -/
  timers : ℕ
  /-- The timers that are not closed. -/
  live : Finset ℕ
  /-- Ticks that the main loop has to look at. -/
  scheduled : List ℕ
  /-- How many daemons were started. -/
  jobs : ℕ
  /-- The daemons that have not exited. -/
  running : Finset ℕ
  /-- The callbacks that were called. -/
  called : List (κ × Outcome)

/-- A record as it is made for a callback. -/
def Record.new {κ : Type*} (waiters : List κ) : Record κ :=
  ⟨.connecting, none, waiters, none, none, 0, false⟩

/-- Nothing has happened. -/
def Editor.new {κ : Type*} : Editor κ :=
  ⟨fun _ => Record.new [], 0, none, ∅, 0, [], 0, ∅, [], 0, ∅, []⟩

/-- What happens. -/
inductive Act (κ : Type*) where
  /-- The daemon is wanted. -/
  | ensure (callback : κ)
  /-- A client has connected, or could not, and what comes of starting a daemon
  if one is started then. -/
  | connected (client : ℕ) (error : Bool) (spawn : Spawn)
  /-- A timer has elapsed. -/
  | elapse (timer : ℕ)
  /-- The main loop looks at the first tick; the socket file is there, or is not. -/
  | tick (bound : Bool)
  /-- A daemon exits. -/
  | exited (job : ℕ)
  /-- The connection of a client has ended. -/
  | ended (client : ℕ)
  /-- The editor leaves. -/
  | shutdownAll

/-- The callback that is passed. -/
def Act.callback {κ : Type*} : Act κ → Option κ
  | .ensure callback => some callback
  | .connected .. | .elapse _ | .tick _ | .exited _ | .ended _ | .shutdownAll => none

section Steps

variable {κ : Type*}

namespace Editor

/-- Change a record. -/
def modify (s : Editor κ) (i : ℕ) (f : Record κ → Record κ) : Editor κ :=
  { s with records := Function.update s.records i (f (s.records i)) }

/-- Call whoever waits for the root. What the callbacks do comes after. -/
def finish (s : Editor κ) (outcome : Outcome) : Editor κ :=
  match s.current with
  | none => s
  | some i =>
    let waiters := (s.records i).waiters
    let s := s.modify i fun r =>
      { r with
        waiters := []
        status := if outcome.isError then .down else r.status }
    { s with called := s.called ++ waiters.map fun cb => (cb, outcome) }

/-- A new client connects for a record. -/
def tryConnect (s : Editor κ) (i : ℕ) (purpose : Purpose) : Editor κ :=
  { s with
    connects := s.connects.insert s.clients (i, purpose)
    clients := s.clients + 1 }

/-- Start a daemon and a timer that waits for it. -/
def startSpawn (s : Editor κ) (i : ℕ) (spawn : Spawn) : Editor κ :=
  match spawn with
  | .started =>
    { s.modify i fun r => { r with job := some s.jobs, attempts := 0, timer := some s.timers } with
      jobs := s.jobs + 1
      running := insert s.jobs s.running
      timers := s.timers + 1
      live := insert s.timers s.live }
  | .refused => s.finish .notSpawned
  | .raised => s

/-- Make a record for a callback and try a running daemon first. -/
def fresh (s : Editor κ) (callback : κ) : Editor κ :=
  { s with
    records := Function.update s.records s.size (Record.new [callback])
    size := s.size + 1
    current := some s.size }.tryConnect s.size .first

/-- Ask for the daemon. -/
def ensure (s : Editor κ) (callback : κ) : Editor κ :=
  match s.current with
  | none => s.fresh callback
  | some i =>
    match (s.records i).status, (s.records i).client with
    | .ready, some c => { s with called := s.called ++ [(callback, .client c)] }
    | .connecting, _ => s.modify i fun r => { r with waiters := r.waiters ++ [callback] }
    | _, _ => s.fresh callback

/-- A client is connected for a record. -/
def opened (s : Editor κ) (i c : ℕ) : Editor κ :=
  { s with linked := c :: s.linked }.modify i fun r =>
    { r with client := some c, status := .ready }

/-- The connect of a client is answered. Closing a closed timer may be an error
that ends the callback. -/
def connected (raises : Bool) (s : Editor κ) (c : ℕ) (error : Bool) (spawn : Spawn) :
    Editor κ :=
  match s.connects.lookup c with
  | none => s
  | some (i, purpose) =>
    let s := { s with connects := s.connects.erase c }
    match purpose with
    | .first => if error then s.startSpawn i spawn else (s.opened i c).finish (.client c)
    | .poll t =>
      let s := s.modify i fun r => { r with attempting := false }
      if error then s
      else
        let s := s.opened i c
        if t ∉ s.live ∧ raises then s
        else { s with live := s.live.erase t }.finish (.client c)

/-- A tick is looked at. -/
def tick (raises : Bool) (s : Editor κ) (bound : Bool) : Editor κ :=
  match s.scheduled with
  | [] => s
  | t :: rest =>
    let s := { s with scheduled := rest }
    match s.current with
    | none => { s with live := s.live.erase t }
    | some i =>
      if (s.records i).status ≠ .connecting then { s with live := s.live.erase t }
      else
        let s := s.modify i fun r => { r with attempts := r.attempts + 1 }
        if 400 < (s.records i).attempts then
          if t ∉ s.live ∧ raises then s
          else { s with live := s.live.erase t }.finish .timedOut
        else if (s.records i).attempting then s
        else if bound then
          (s.modify i fun r => { r with attempting := true }).tryConnect i (.poll t)
        else s

/-- A daemon exits; the record that is found now is taken to be its own. -/
def exited (s : Editor κ) (j : ℕ) : Editor κ :=
  if j ∈ s.running then
    let s := { s with running := s.running.erase j }
    match s.current with
    | none => s
    | some i => s.modify i fun r => { r with status := .down, client := none, job := none }
  else s

/-- The connection of a client ends; so with the record. -/
def ended (s : Editor κ) (c : ℕ) : Editor κ :=
  match s.current with
  | none => s
  | some i =>
    if c ∈ s.linked ∧ (s.records i).status = .ready then
      s.modify i fun r => { r with status := .down, client := none }
    else s

/-- Forget the root, and close its timer. -/
def shutdownAll (s : Editor κ) : Editor κ :=
  match s.current with
  | none => s
  | some i =>
    { s with
      live := match (s.records i).timer with
        | none => s.live
        | some t => s.live.erase t
      current := none }

/-- What happens to the editor. -/
def step (raises : Bool) (s : Editor κ) : Act κ → Editor κ
  | .ensure callback => s.ensure callback
  | .connected c error spawn => s.connected raises c error spawn
  | .elapse t => if t ∈ s.live then { s with scheduled := s.scheduled ++ [t] } else s
  | .tick bound => s.tick raises bound
  | .exited j => s.exited j
  | .ended c => s.ended c
  | .shutdownAll => s.shutdownAll

/-- The callbacks that wait, record by record. -/
def waiting (s : Editor κ) : Multiset κ :=
  ∑ i ∈ Finset.range s.size, ((s.records i).waiters : Multiset κ)

/-- The callbacks that were called, and those that wait. -/
def account (s : Editor κ) : Multiset κ := (s.called.map Prod.fst : Multiset κ) + s.waiting

end Editor

/-- Records that are used were made, and clients that are used were connected. -/
structure Editor.Sound (s : Editor κ) : Prop where
  /-- The record that is found. -/
  current : ∀ i, s.current = some i → i < s.size
  /-- The records of clients that connect. -/
  connects : ∀ c i purpose, s.connects.lookup c = some (i, purpose) → i < s.size
  /-- The clients of records. -/
  client : ∀ i c, (s.records i).client = some c → c ∈ s.linked
  /-- The clients that were handed out. -/
  called : ∀ callback c, (callback, Outcome.client c) ∈ s.called → c ∈ s.linked

/-- A sound editor with an account. -/
structure Editor.Holds (s : Editor κ) (total : Multiset κ) : Prop where
  /-- It is sound. -/
  sound : s.Sound
  /-- The callbacks are all there. -/
  account : s.account = total

/-! ## What keeps the account -/

section Account

variable {s s' : Editor κ} {total : Multiset κ}

theorem modify_same (i : ℕ) (f : Record κ → Record κ) :
    (s.modify i f).records i = f (s.records i) := Function.update_self _ _ _

theorem modify_other {i j : ℕ} (hj : j ≠ i) (f : Record κ → Record κ) :
    (s.modify i f).records j = s.records j := Function.update_of_ne hj _ _

/-- A record takes other waiters. -/
theorem waiting_modify {i : ℕ} (hi : i < s.size) (f : Record κ → Record κ) :
    (s.modify i f).waiting + ((s.records i).waiters : Multiset κ) =
      s.waiting + ((f (s.records i)).waiters : Multiset κ) := by
  have hmem : i ∈ Finset.range s.size := Finset.mem_range.mpr hi
  have hrest : ∑ j ∈ (Finset.range s.size).erase i,
      (((s.modify i f).records j).waiters : Multiset κ) =
        ∑ j ∈ (Finset.range s.size).erase i, ((s.records j).waiters : Multiset κ) := by
    refine Finset.sum_congr rfl fun j hj => ?_
    rw [modify_other (Finset.ne_of_mem_erase hj)]
  have hsize : (s.modify i f).size = s.size := rfl
  unfold Editor.waiting
  rw [hsize, ← Finset.sum_erase_add _ _ hmem, ← Finset.sum_erase_add _ _ hmem, hrest, modify_same]
  exact add_right_comm _ _ _

/-- What leaves waiters and calls as they are keeps the account. -/
theorem Editor.Holds.congr (h : s.Holds total) (hsize : s'.size = s.size)
    (hcalled : s'.called = s.called)
    (hwaiters : ∀ i, (s'.records i).waiters = (s.records i).waiters) (hsound : s'.Sound) :
    s'.Holds total := by
  refine ⟨hsound, ?_⟩
  rw [← h.account]
  unfold Editor.account Editor.waiting
  rw [hsize, hcalled]
  simp only [hwaiters]

/-- A record changes and takes no client that was not connected. -/
theorem Editor.Sound.modify (h : s.Sound) (i : ℕ) (f : Record κ → Record κ)
    (hclient : ∀ r c, (f r).client = some c → r.client = some c ∨ c ∈ s.linked) :
    (s.modify i f).Sound := by
  refine ⟨h.current, h.connects, fun j c hc => ?_, h.called⟩
  by_cases hj : j = i
  · rw [hj, modify_same] at hc
    exact (hclient _ c hc).elim (h.client i c) id
  · rw [modify_other hj] at hc
    exact h.client j c hc

/-- A record changes, its waiters apart. -/
theorem Editor.Holds.modify (h : s.Holds total) (i : ℕ) (f : Record κ → Record κ)
    (hwaiters : ∀ r, (f r).waiters = r.waiters)
    (hclient : ∀ r c, (f r).client = some c → r.client = some c ∨ c ∈ s.linked) :
    (s.modify i f).Holds total := by
  refine h.congr rfl rfl (fun j => ?_) (h.sound.modify i f hclient)
  by_cases hj : j = i
  · rw [hj, modify_same, hwaiters]
  · rw [modify_other hj]

/-- Whoever waits is called, with a client only if it was connected. -/
theorem Editor.Holds.finish (h : s.Holds total) {outcome : Outcome}
    (hclient : ∀ c, outcome = .client c → c ∈ s.linked) : (s.finish outcome).Holds total := by
  unfold Editor.finish
  split
  · exact h
  · rename_i i hcurrent
    have hi := h.sound.current i hcurrent
    have hmoved := waiting_modify hi fun r => { r with
        waiters := []
        status := if outcome.isError then .down else r.status }
    have hsound := h.sound.modify i (fun r => { r with
        waiters := []
        status := if outcome.isError then .down else r.status }) fun _ _ hc => .inl hc
    refine ⟨⟨hsound.current, hsound.connects, hsound.client, fun callback c hc => ?_⟩, ?_⟩
    · rcases List.mem_append.mp hc with hold | hnew
      · exact h.sound.called callback c hold
      · obtain ⟨_, -, heq⟩ := List.mem_map.mp hnew
        exact hclient c (congrArg Prod.snd heq)
    · rw [← h.account]
      rw [Multiset.coe_nil, add_zero] at hmoved
      unfold Editor.account
      rw [← hmoved, List.map_append, List.map_map, ← Multiset.coe_add, add_assoc,
        add_comm (Multiset.ofList _) (Editor.waiting _)]
      congr 2
      exact congrArg _ (List.map_id _)

/-- A client connects for a record that was made. -/
theorem Editor.Holds.tryConnect (h : s.Holds total) {i : ℕ} (hi : i < s.size) (purpose : Purpose) :
    (s.tryConnect i purpose).Holds total := by
  refine h.congr rfl rfl (fun _ => rfl) ⟨h.sound.current, fun c j other hc => ?_, h.sound.client,
    h.sound.called⟩
  unfold Editor.tryConnect at hc
  rw [lookup_insert_ite] at hc
  split at hc
  · cases hc
    exact hi
  · exact h.sound.connects c j other hc

/-- Timers, ticks and daemons are no part of the account. -/
theorem Editor.Holds.aside (h : s.Holds total) (timers : ℕ) (live : Finset ℕ)
    (scheduled : List ℕ) (jobs : ℕ) (running : Finset ℕ) :
    Editor.Holds { s with timers, live, scheduled, jobs, running } total :=
  h.congr rfl rfl (fun _ => rfl) ⟨h.sound.current, h.sound.connects, h.sound.client,
    h.sound.called⟩

/-- A client that has connected is put into a record. -/
theorem Editor.Holds.opened (h : s.Holds total) (i c : ℕ) : (s.opened i c).Holds total := by
  have hlink : Editor.Holds { s with linked := c :: s.linked } total :=
    h.congr rfl rfl (fun _ => rfl) ⟨h.sound.current, h.sound.connects,
      fun j other hc => List.mem_cons_of_mem _ (h.sound.client j other hc),
      fun callback other hc => List.mem_cons_of_mem _ (h.sound.called callback other hc)⟩
  exact hlink.modify i (fun r => { r with client := some c, status := .ready }) (fun _ => rfl)
    fun r other hc => .inr (Option.some.inj hc ▸ List.mem_cons_self)

theorem mem_linked_opened (i c : ℕ) : c ∈ (s.opened i c).linked := List.mem_cons_self

theorem Editor.Holds.startSpawn (h : s.Holds total) (i : ℕ) (spawn : Spawn) :
    (s.startSpawn i spawn).Holds total := by
  cases spawn with
  | started =>
    have hkept := h.modify i (fun r => { r with
      job := some s.jobs, attempts := 0, timer := some s.timers }) (fun _ => rfl)
      fun _ _ hc => .inl hc
    exact hkept.aside ..
  | refused => exact h.finish fun c hc => by cases hc
  | raised => exact h

/-- A new record waits for one callback more. -/
theorem Editor.Holds.fresh (h : s.Holds total) (callback : κ) :
    (s.fresh callback).Holds (total + {callback}) := by
  have hsame : ∀ j ∈ Finset.range s.size,
      (((s.fresh callback).records j).waiters : Multiset κ) = (s.records j).waiters := by
    intro j hj
    show ((Function.update s.records s.size (Record.new [callback]) j).waiters : Multiset κ) = _
    rw [Function.update_of_ne (Finset.mem_range.mp hj).ne]
  have hnew : ((s.fresh callback).records s.size).waiters = [callback] := by
    show (Function.update s.records s.size (Record.new [callback]) s.size).waiters = _
    rw [Function.update_self]
    rfl
  have hsize : (s.fresh callback).size = s.size + 1 := rfl
  have hcalled : (s.fresh callback).called = s.called := rfl
  refine ⟨⟨fun i hi => ?_, fun c i purpose hc => ?_, fun i c hc => ?_, h.sound.called⟩, ?_⟩
  · cases hi
    exact Nat.lt_succ_self _
  · change (s.connects.insert s.clients (s.size, Purpose.first)).lookup c = some (i, purpose) at hc
    rw [lookup_insert_ite] at hc
    split at hc
    · cases hc
      exact Nat.lt_succ_self _
    · exact Nat.lt_succ_of_lt (h.sound.connects c i purpose hc)
  · change (Function.update s.records s.size (Record.new [callback]) i).client = some c at hc
    by_cases hi : i = s.size
    · rw [hi, Function.update_self] at hc
      cases hc
    · rw [Function.update_of_ne hi] at hc
      exact h.sound.client i c hc
  · rw [← h.account]
    unfold Editor.account Editor.waiting
    rw [hsize, hcalled, Finset.sum_range_succ, Finset.sum_congr rfl hsame, hnew, ← add_assoc]
    rfl

theorem Editor.Holds.ensure (h : s.Holds total) (callback : κ) :
    (s.ensure callback).Holds (total + {callback}) := by
  unfold Editor.ensure
  split
  · exact h.fresh callback
  rename_i i hcurrent
  split
  · rename_i c _ hclient
    refine ⟨⟨h.sound.current, h.sound.connects, h.sound.client, fun other c' hc => ?_⟩, ?_⟩
    · rcases List.mem_append.mp hc with hold | hnew
      · exact h.sound.called other c' hold
      · cases List.mem_singleton.mp hnew
        exact h.sound.client i c hclient
    · rw [← h.account]
      unfold Editor.account
      rw [List.map_append, ← Multiset.coe_add]
      exact add_right_comm _ _ _
  · have hmoved := waiting_modify (h.sound.current i hcurrent) fun r => { r with
        waiters := r.waiters ++ [callback] }
    refine ⟨h.sound.modify i _ fun r c hc => .inl hc, ?_⟩
    rw [← Multiset.coe_add, ← add_assoc, add_right_comm] at hmoved
    rw [← h.account]
    unfold Editor.account
    rw [add_assoc]
    exact congrArg _ (add_right_cancel hmoved)
  · exact h.fresh callback

/-- The answer to a connect. -/
theorem Editor.Holds.connected (h : s.Holds total) (raises : Bool) (c : ℕ) (error : Bool)
    (spawn : Spawn) : (s.connected raises c error spawn).Holds total := by
  unfold Editor.connected
  split
  · exact h
  rename_i i purpose hlookup
  have herased : Editor.Holds { s with connects := s.connects.erase c } total := by
    refine h.congr rfl rfl (fun _ => rfl) ⟨h.sound.current, fun c' j other hc => ?_,
      h.sound.client, h.sound.called⟩
    by_cases hne : c' = c
    · rw [hne, Finmap.lookup_erase] at hc
      cases hc
    · rw [Finmap.lookup_erase_ne hne] at hc
      exact h.sound.connects c' j other hc
  cases purpose with
  | first =>
    cases error with
    | true => exact herased.startSpawn i spawn
    | false =>
      exact (herased.opened i c).finish fun c' hc => Outcome.client.inj hc ▸ mem_linked_opened i c
  | poll t =>
    have htried := herased.modify i (fun r => { r with attempting := false }) (fun _ => rfl)
      fun _ _ hc => .inl hc
    cases error with
    | true => exact htried
    | false =>
      have hopened := htried.opened i c
      dsimp only
      rw [if_neg Bool.false_ne_true]
      split
      · exact hopened
      · refine Editor.Holds.finish ?_ fun c' hc => Outcome.client.inj hc ▸ mem_linked_opened i c
        exact hopened.aside ..

theorem Editor.Holds.tick (h : s.Holds total) (raises bound : Bool) :
    (s.tick raises bound).Holds total := by
  unfold Editor.tick
  split
  · exact h
  rename_i t rest _
  have htaken : Editor.Holds { s with scheduled := rest } total := h.aside ..
  dsimp only
  split
  · exact htaken.aside ..
  rename_i i hcurrent
  split
  · exact htaken.aside ..
  have hcounted := htaken.modify i (fun r => { r with attempts := r.attempts + 1 }) (fun _ => rfl)
    fun _ _ hc => .inl hc
  split
  · split
    · exact hcounted
    · exact (hcounted.aside ..).finish fun c hc => by cases hc
  · split
    · exact hcounted
    · split
      · exact (hcounted.modify i (fun r => { r with attempting := true }) (fun _ => rfl)
          fun _ _ hc => .inl hc).tryConnect (h.sound.current i hcurrent) (.poll t)
      · exact hcounted

theorem Editor.Holds.exited (h : s.Holds total) (j : ℕ) : (s.exited j).Holds total := by
  unfold Editor.exited
  split
  · have hgone : Editor.Holds { s with running := s.running.erase j } total := h.aside ..
    dsimp only
    split
    · exact hgone
    · exact hgone.modify _ (fun r => { r with status := .down, client := none, job := none })
        (fun _ => rfl) fun _ _ hc => by cases hc
  · exact h

theorem Editor.Holds.ended (h : s.Holds total) (c : ℕ) : (s.ended c).Holds total := by
  unfold Editor.ended
  split
  · exact h
  · split
    · exact h.modify _ (fun r => { r with status := .down, client := none }) (fun _ => rfl)
        fun _ _ hc => by cases hc
    · exact h

theorem Editor.Holds.shutdownAll (h : s.Holds total) : s.shutdownAll.Holds total := by
  unfold Editor.shutdownAll
  split
  · exact h
  · exact h.congr rfl rfl (fun _ => rfl) ⟨fun _ hi => (by cases hi), h.sound.connects,
      h.sound.client, h.sound.called⟩

/-- One step keeps the account, and what asks for the daemon adds its callback. -/
theorem Editor.Holds.step (h : s.Holds total) (raises : Bool) (a : Act κ) :
    (s.step raises a).Holds (total + (a.callback.toList : Multiset κ)) := by
  have hsame : total + ((none : Option κ).toList : Multiset κ) = total := add_zero total
  cases a with
  | ensure callback => exact h.ensure callback
  | connected c error spawn => exact hsame.symm ▸ h.connected raises c error spawn
  | elapse t =>
    refine hsame.symm ▸ ?_
    show Editor.Holds (if t ∈ s.live then { s with scheduled := s.scheduled ++ [t] } else s) total
    split
    · exact h.aside ..
    · exact h
  | tick bound => exact hsame.symm ▸ h.tick raises bound
  | exited j => exact hsame.symm ▸ h.exited j
  | ended c => exact hsame.symm ▸ h.ended c
  | shutdownAll => exact hsame.symm ▸ h.shutdownAll

/-- The account along a run. -/
theorem Editor.Holds.run (h : s.Holds total) (raises : Bool) (acts : List (Act κ)) :
    (run (Editor.step raises) s acts).Holds
      (total + (acts.filterMap Act.callback : Multiset κ)) := by
  induction acts generalizing s total with
  | nil => exact (add_zero total).symm ▸ h
  | cons a acts ih =>
    have hnext := ih (h.step raises a)
    rw [add_assoc] at hnext
    have hcons : ((a :: acts).filterMap Act.callback : Multiset κ) =
        (a.callback.toList : Multiset κ) + (acts.filterMap Act.callback : Multiset κ) := by
      rw [Multiset.coe_add, List.filterMap_cons]
      cases a.callback <;> rfl
    rw [hcons, run_cons]
    exact hnext

theorem holds_new : (Editor.new : Editor κ).Holds 0 := by
  refine ⟨⟨fun i hi => ?_, fun c i purpose hc => ?_, fun i c hc => ?_, fun callback c hc => ?_⟩,
    rfl⟩
  · cases hi
  · cases (Finmap.lookup_empty c).symm.trans hc
  · cases hc
  · cases hc

end Account

/-! ## Where clients come from -/

section Linked

variable {s : Editor κ}

theorem linked_finish (outcome : Outcome) : (s.finish outcome).linked = s.linked := by
  unfold Editor.finish
  split <;> rfl

theorem linked_startSpawn (i : ℕ) (spawn : Spawn) : (s.startSpawn i spawn).linked = s.linked := by
  cases spawn with
  | started => rfl
  | refused => exact linked_finish _
  | raised => rfl

theorem linked_ensure (callback : κ) : (s.ensure callback).linked = s.linked := by
  unfold Editor.ensure
  split
  · rfl
  · split <;> rfl

theorem linked_connected (raises : Bool) (c : ℕ) (error : Bool) (spawn : Spawn) :
    (s.connected raises c error spawn).linked = s.linked ∨
      error = false ∧ (s.connected raises c error spawn).linked = c :: s.linked := by
  unfold Editor.connected
  split
  · exact .inl rfl
  rename_i i purpose _
  cases purpose with
  | first =>
    cases error with
    | true => exact .inl (linked_startSpawn i spawn)
    | false => exact .inr ⟨rfl, linked_finish _⟩
  | poll t =>
    cases error with
    | true => exact .inl rfl
    | false =>
      refine .inr ⟨rfl, ?_⟩
      dsimp only
      rw [if_neg Bool.false_ne_true]
      split
      · rfl
      · exact linked_finish _

theorem linked_tick (raises bound : Bool) : (s.tick raises bound).linked = s.linked := by
  unfold Editor.tick
  split
  · rfl
  dsimp only
  split
  · rfl
  split
  · rfl
  split
  · split
    · rfl
    · exact linked_finish _
  · split
    · rfl
    · split <;> rfl

theorem linked_step (raises : Bool) (a : Act κ) : (s.step raises a).linked = s.linked ∨
    ∃ c spawn, a = .connected c false spawn ∧ (s.step raises a).linked = c :: s.linked := by
  cases a with
  | ensure callback => exact .inl (linked_ensure callback)
  | connected c error spawn =>
    rcases linked_connected raises c error spawn with hsame | ⟨rfl, hmore⟩
    · exact .inl hsame
    · exact .inr ⟨c, spawn, rfl, hmore⟩
  | elapse t =>
    refine .inl ?_
    show (if t ∈ s.live then { s with scheduled := s.scheduled ++ [t] } else s).linked = s.linked
    split <;> rfl
  | tick bound => exact .inl (linked_tick raises bound)
  | exited j =>
    refine .inl ?_
    show (s.exited j).linked = s.linked
    unfold Editor.exited
    split
    · dsimp only
      split <;> rfl
    · rfl
  | ended c =>
    refine .inl ?_
    show (s.ended c).linked = s.linked
    unfold Editor.ended
    split
    · rfl
    · split <;> rfl
  | shutdownAll =>
    refine .inl ?_
    show s.shutdownAll.linked = s.linked
    unfold Editor.shutdownAll
    split <;> rfl

theorem mem_linked_run (raises : Bool) (acts : List (Act κ)) {c : ℕ}
    (h : c ∈ (run (Editor.step raises) s acts).linked) :
    c ∈ s.linked ∨ ∃ spawn, Act.connected c false spawn ∈ acts := by
  induction acts generalizing s with
  | nil => exact .inl h
  | cons a acts ih =>
    rcases ih h with hlater | ⟨spawn, hact⟩
    · rcases linked_step raises a with hsame | ⟨c', spawn, rfl, hmore⟩
      · exact .inl (hsame ▸ hlater)
      · rw [hmore] at hlater
        rcases List.mem_cons.mp hlater with rfl | hold
        · exact .inr ⟨spawn, List.mem_cons_self⟩
        · exact .inl hold
    · exact .inr ⟨spawn, List.mem_cons_of_mem _ hact⟩

end Linked

/-- Whatever happens and in whatever order, every callback that was passed was
called once or waits in one record, and a client that was handed out is one
whose connect succeeded. -/
theorem ensured_once (raises : Bool) (acts : List (Act κ)) :
    let s := run (Editor.step raises) Editor.new acts
    (s.called.map Prod.fst : Multiset κ) +
        ∑ i ∈ Finset.range s.size, ((s.records i).waiters : Multiset κ) =
      (acts.filterMap Act.callback : Multiset κ) ∧
    ∀ callback c, (callback, Outcome.client c) ∈ s.called →
      ∃ spawn, Act.connected c false spawn ∈ acts := by
  intro s
  have hholds : s.Holds (0 + (acts.filterMap Act.callback : Multiset κ)) :=
    holds_new.run raises acts
  refine ⟨hholds.account.trans (zero_add _), fun callback c hc => ?_⟩
  rcases mem_linked_run raises acts (hholds.sound.called callback c hc) with hnew | hact
  · cases hnew
  · exact hact

/-! ## Who is never called -/

/-- A record that is not found, with its waiters. -/
structure Editor.Away (s : Editor κ) (i : ℕ) (waiters : List κ) : Prop where
  /-- It was made. -/
  made : i < s.size
  /-- Who waits in it. -/
  waiters : (s.records i).waiters = waiters
  /-- It is not found. -/
  current : s.current ≠ some i

section Away

variable {s : Editor κ} {i : ℕ} {waiters : List κ}

theorem Editor.Away.modify (h : s.Away i waiters) (j : ℕ) (f : Record κ → Record κ)
    (hf : j = i → ∀ r, (f r).waiters = r.waiters) : (s.modify j f).Away i waiters := by
  refine ⟨h.made, ?_, h.current⟩
  by_cases hj : i = j
  · rw [hj, modify_same, hf hj.symm, ← hj, h.waiters]
  · rw [modify_other hj, h.waiters]

/-- Timers, ticks and daemons do not find a record again. -/
theorem Editor.Away.aside (h : s.Away i waiters) (timers : ℕ) (live : Finset ℕ)
    (scheduled : List ℕ) (jobs : ℕ) (running : Finset ℕ) :
    Editor.Away { s with timers, live, scheduled, jobs, running } i waiters :=
  ⟨h.made, h.waiters, h.current⟩

theorem Editor.Away.finish (h : s.Away i waiters) (outcome : Outcome) :
    (s.finish outcome).Away i waiters := by
  unfold Editor.finish
  split
  · exact h
  · rename_i j hcurrent
    have hother : j ≠ i := fun heq => h.current (heq ▸ hcurrent)
    have hmoved := h.modify j (fun r => { r with
        waiters := []
        status := if outcome.isError then .down else r.status }) fun heq => absurd heq hother
    exact ⟨hmoved.made, hmoved.waiters, hmoved.current⟩

theorem Editor.Away.opened (h : s.Away i waiters) (j c : ℕ) : (s.opened j c).Away i waiters := by
  have hlink : Editor.Away { s with linked := c :: s.linked } i waiters :=
    ⟨h.made, h.waiters, h.current⟩
  exact hlink.modify j (fun r => { r with client := some c, status := .ready }) fun _ _ => rfl

theorem Editor.Away.startSpawn (h : s.Away i waiters) (j : ℕ) (spawn : Spawn) :
    (s.startSpawn j spawn).Away i waiters := by
  cases spawn with
  | started =>
    exact (h.modify j (fun r => { r with
      job := some s.jobs, attempts := 0, timer := some s.timers }) fun _ _ => rfl).aside ..
  | refused => exact h.finish _
  | raised => exact h

/-- A new record is found instead of those that were made before. -/
theorem away_fresh (hmade : i < s.size) (hwaiters : (s.records i).waiters = waiters)
    (callback : κ) : (s.fresh callback).Away i waiters := by
  refine ⟨Nat.lt_succ_of_lt hmade, ?_, fun heq => hmade.ne' (Option.some.inj heq)⟩
  show (Function.update s.records s.size (Record.new [callback]) i).waiters = waiters
  rw [Function.update_of_ne hmade.ne, hwaiters]

theorem Editor.Away.ensure (h : s.Away i waiters) (callback : κ) :
    (s.ensure callback).Away i waiters := by
  unfold Editor.ensure
  split
  · exact away_fresh h.made h.waiters callback
  rename_i j hcurrent
  split
  · exact ⟨h.made, h.waiters, h.current⟩
  · exact h.modify j _ fun heq => absurd (heq ▸ hcurrent) h.current
  · exact away_fresh h.made h.waiters callback

theorem Editor.Away.connected (h : s.Away i waiters) (raises : Bool) (c : ℕ) (error : Bool)
    (spawn : Spawn) : (s.connected raises c error spawn).Away i waiters := by
  unfold Editor.connected
  split
  · exact h
  rename_i j purpose _
  have herased : Editor.Away { s with connects := s.connects.erase c } i waiters :=
    ⟨h.made, h.waiters, h.current⟩
  cases purpose with
  | first =>
    cases error with
    | true => exact herased.startSpawn j spawn
    | false => exact (herased.opened j c).finish _
  | poll t =>
    have htried := herased.modify j (fun r => { r with attempting := false }) fun _ _ => rfl
    cases error with
    | true => exact htried
    | false =>
      have hopened := htried.opened j c
      dsimp only
      rw [if_neg Bool.false_ne_true]
      split
      · exact hopened
      · exact (hopened.aside ..).finish _

theorem Editor.Away.tick (h : s.Away i waiters) (raises bound : Bool) :
    (s.tick raises bound).Away i waiters := by
  unfold Editor.tick
  split
  · exact h
  rename_i t rest _
  have htaken : Editor.Away { s with scheduled := rest } i waiters := h.aside ..
  dsimp only
  split
  · exact htaken.aside ..
  rename_i j hcurrent
  split
  · exact htaken.aside ..
  have hcounted := htaken.modify j (fun r => { r with attempts := r.attempts + 1 }) fun _ _ => rfl
  split
  · split
    · exact hcounted
    · exact (hcounted.aside ..).finish _
  · split
    · exact hcounted
    · split
      · have htried := hcounted.modify j (fun r => { r with attempting := true }) fun _ _ => rfl
        exact ⟨htried.made, htried.waiters, htried.current⟩
      · exact hcounted

/-- A record that is not found keeps its waiters. -/
theorem Editor.Away.step (h : s.Away i waiters) (raises : Bool) (a : Act κ) :
    (s.step raises a).Away i waiters := by
  cases a with
  | ensure callback => exact h.ensure callback
  | connected c error spawn => exact h.connected raises c error spawn
  | elapse t =>
    show Editor.Away (if t ∈ s.live then { s with scheduled := s.scheduled ++ [t] } else s) _ _
    split
    · exact h.aside ..
    · exact h
  | tick bound => exact h.tick raises bound
  | exited j =>
    show (s.exited j).Away i waiters
    unfold Editor.exited
    split
    · have hgone : Editor.Away { s with running := s.running.erase j } i waiters := h.aside ..
      dsimp only
      split
      · exact hgone
      · exact hgone.modify _ _ fun _ _ => rfl
    · exact h
  | ended c =>
    show (s.ended c).Away i waiters
    unfold Editor.ended
    split
    · exact h
    · split
      · exact h.modify _ _ fun _ _ => rfl
      · exact h
  | shutdownAll =>
    show s.shutdownAll.Away i waiters
    unfold Editor.shutdownAll
    split
    · exact h
    · exact ⟨h.made, h.waiters, fun heq => by cases heq⟩

/-- A record that is not found, or that is down while no client connects. -/
def Editor.Lost (s : Editor κ) (i : ℕ) (waiters : List κ) : Prop :=
  s.Away i waiters ∨ (i < s.size ∧ (s.records i).waiters = waiters) ∧
    s.current = some i ∧ s.connects = ∅ ∧ (s.records i).status = .down

/-- The exit of a daemon while no client connects. -/
theorem lost_exited {j : ℕ} (hmade : i < s.size) (hcurrent : s.current = some i)
    (hquiet : s.connects = ∅) (hjob : j ∈ s.running) :
    (s.exited j).Lost i (s.records i).waiters := by
  have hdown : s.exited j = Editor.modify { s with running := s.running.erase j } i fun r =>
      { r with status := .down, client := none, job := none } := by
    unfold Editor.exited
    rw [if_pos hjob]
    dsimp only
    split
    · rename_i hnone
      cases hnone.symm.trans hcurrent
    · rename_i k hk
      cases Option.some.inj (hk.symm.trans hcurrent)
      rfl
  rw [hdown]
  refine .inr ⟨⟨hmade, ?_⟩, hcurrent, hquiet, ?_⟩
  · rw [modify_same]
  · rw [modify_same]

/-- Nothing but a new record, or the end, follows a record that is down. -/
theorem Editor.Lost.step (h : s.Lost i waiters) (raises : Bool) (a : Act κ) :
    (s.step raises a).Lost i waiters := by
  rcases h with haway | ⟨⟨hmade, hwaiters⟩, hcurrent, hquiet, hdown⟩
  · exact .inl (haway.step raises a)
  have hstays : s.Lost i waiters := .inr ⟨⟨hmade, hwaiters⟩, hcurrent, hquiet, hdown⟩
  cases a with
  | ensure callback =>
    have hfresh : s.step raises (.ensure callback) = s.fresh callback := by
      show s.ensure callback = s.fresh callback
      unfold Editor.ensure
      rw [hcurrent]
      dsimp only
      rw [hdown]
    rw [hfresh]
    exact .inl (away_fresh hmade hwaiters callback)
  | connected c error spawn =>
    have hnone : s.connects.lookup c = none := hquiet.symm ▸ Finmap.lookup_empty c
    have hsame : s.step raises (.connected c error spawn) = s := by
      show s.connected raises c error spawn = s
      unfold Editor.connected
      rw [hnone]
    rwa [hsame]
  | elapse t =>
    show Editor.Lost (if t ∈ s.live then { s with scheduled := s.scheduled ++ [t] } else s) _ _
    split
    · exact .inr ⟨⟨hmade, hwaiters⟩, hcurrent, hquiet, hdown⟩
    · exact hstays
  | tick bound =>
    show (s.tick raises bound).Lost i waiters
    unfold Editor.tick
    split
    · exact hstays
    · dsimp only
      split
      · exact .inr ⟨⟨hmade, hwaiters⟩, hcurrent, hquiet, hdown⟩
      · rename_i k hk
        cases Option.some.inj (hk.symm.trans hcurrent)
        rw [if_pos (by rw [hdown]; decide)]
        exact .inr ⟨⟨hmade, hwaiters⟩, hcurrent, hquiet, hdown⟩
  | exited j =>
    show (s.exited j).Lost i waiters
    by_cases hjob : j ∈ s.running
    · exact hwaiters ▸ lost_exited hmade hcurrent hquiet hjob
    · unfold Editor.exited
      rwa [if_neg hjob]
  | ended c =>
    have hsame : s.step raises (.ended c) = s := by
      show s.ended c = s
      unfold Editor.ended
      rw [hcurrent]
      dsimp only
      rw [hdown, if_neg fun h => by cases h.2]
    rwa [hsame]
  | shutdownAll =>
    refine .inl ?_
    show s.shutdownAll.Away i waiters
    unfold Editor.shutdownAll
    rw [hcurrent]
    exact ⟨hmade, hwaiters, fun heq => by cases heq⟩

theorem Editor.Lost.run (h : s.Lost i waiters) (raises : Bool) (acts : List (Act κ)) :
    (run (Editor.step raises) s acts).Lost i waiters := by
  induction acts generalizing s with
  | nil => exact h
  | cons a acts ih => exact ih (h.step raises a)

theorem Editor.Lost.kept (h : s.Lost i waiters) : i < s.size ∧ (s.records i).waiters = waiters :=
  h.elim (fun haway => ⟨haway.made, haway.waiters⟩) And.left

end Away

/-- Whoever waits when a daemon exits while no client connects is never called:
whatever happens later, they are left out of the callbacks that were called. -/
theorem waiters_lost (raises : Bool) (earlier later : List (Act κ)) {i j : ℕ}
    (hcurrent : (run (Editor.step raises) Editor.new earlier).current = some i)
    (hquiet : (run (Editor.step raises) Editor.new earlier).connects = ∅)
    (hjob : j ∈ (run (Editor.step raises) Editor.new earlier).running) :
    let before := run (Editor.step raises) Editor.new earlier
    let after := run (Editor.step raises) before (.exited j :: later)
    (after.records i).waiters = (before.records i).waiters ∧
      (after.called.map Prod.fst : Multiset κ) + ((before.records i).waiters : Multiset κ) ≤
        ((earlier ++ .exited j :: later).filterMap Act.callback : Multiset κ) := by
  intro before after
  have hholds : before.Holds (0 + (earlier.filterMap Act.callback : Multiset κ)) :=
    holds_new.run raises earlier
  have hlost : after.Lost i (before.records i).waiters :=
    (lost_exited (hholds.sound.current i hcurrent) hcurrent hquiet hjob).run raises later
  have htotal := (hholds.run raises (.exited j :: later)).account
  rw [zero_add, Multiset.coe_add, ← List.filterMap_append] at htotal
  refine ⟨hlost.kept.2, ?_⟩
  rw [← htotal, ← hlost.kept.2]
  unfold Editor.account Editor.waiting
  have hone := Finset.single_le_sum (f := fun j => ((after.records j).waiters : Multiset κ))
    (fun _ _ => Multiset.zero_le _) (Finset.mem_range.mpr hlost.kept.1)
  exact add_le_add_right hone _

/-- A daemon is started and exits before its socket is there. -/
theorem waiters_lost_early :
    ((run (Editor.step true)
      (run (Editor.step true) Editor.new [Act.ensure true, .connected 0 true .started])
      [.exited 0, .elapse 0, .tick false, .ensure false, .connected 1 false .started]).records
        0).waiters = [true] :=
  (@waiters_lost Bool true [.ensure true, .connected 0 true .started]
    [.elapse 0, .tick false, .ensure false, .connected 1 false .started] 0 0 (by decide +kernel)
    (by decide +kernel) (by decide +kernel)).1.trans (by decide +kernel)

end Steps

end Tyo3.DaemonConnections
