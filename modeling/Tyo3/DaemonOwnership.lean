import Mathlib.Data.List.Basic
import Mathlib.Logic.Function.Basic
import Tyo3.Runs

/-!
# Who owns a root

Any number of daemons are started over one root. Each takes an exclusive lock,
opens the session on a thread of its own, replaces the socket file and accepts
clients; a signal runs the shutdown on the main thread, between any two of its
steps, also within another shutdown. Daemons fail, are signalled or are killed
at any time. Apart from three windows that are named here, at most one of them
has the session open, and one that listens is the one behind the socket file.
-/

namespace Tyo3.DaemonOwnership

open Runs

/-- Where the main thread is in `serve_forever`. -/
inductive Main
  /-- The lock has not been taken. -/
  | created
  /-- The lock is taken, the session actor not started. -/
  | locked
  /-- The thread of the actor is awaited. -/
  | starting
  /-- The session is open and indexed. -/
  | started
  /-- The pump awaits its subscription. -/
  | subscribing
  /-- The pump runs. -/
  | pumped
  /-- A socket file that was found is gone. -/
  | cleared
  /-- Clients are accepted. -/
  | serving
  /-- The accept loop has ended. -/
  | leaving
  /-- Starting has failed, and the lock is to be released. -/
  | failed
  /-- `serve_forever` is over. -/
  | exiting
  /-- The process has ended. -/
  | gone
  deriving DecidableEq

/-- Where a call of `shutdown` is. -/
inductive Pc
  /-- It looks whether there is something to do. -/
  | check
  /-- It sets the flag. -/
  | flag
  /-- It closes the listening socket. -/
  | take
  /-- It closes the read snapshot on the actor. -/
  | submit
  /-- It stops the actor. -/
  | stop
  /-- It waits for the thread of the actor, for some seconds. -/
  | join
  /-- It removes the socket file. -/
  | unlink
  /-- It releases the lock. -/
  | release
  deriving DecidableEq

/-- The thread of the session actor. -/
inductive Actor
  /-- There is none. -/
  | unstarted
  /-- It opens and indexes the session. -/
  | opening
  /-- It runs closures. -/
  | looping
  /-- It has ended with an error of opening or indexing. -/
  | broken
  /-- It was stopped and has closed the session. -/
  | ended
  deriving DecidableEq

/-- A daemon. -/
structure Daemon where
  /-- The main thread. -/
  main : Main
  /-- The calls of `shutdown` on top of it, the innermost first. -/
  frames : List Pc
  /-- The thread of the actor. -/
  actor : Actor
  /-- Whether the actor was told to stop. -/
  stopped : Bool
  /-- Whether a session is open. -/
  session : Bool
  /-- Whether the daemon is told to shut down. -/
  shutdown : Bool
  /-- Whether there is a listening socket. -/
  serverSock : Bool
  /-- Whether there is a descriptor of the lock. -/
  lockFd : Bool
  deriving DecidableEq

/-- A daemon as constructed. -/
def Daemon.new : Daemon := ⟨.created, [], .unstarted, false, false, false, false, false⟩

/-- A daemon after the end of its process. -/
def Daemon.dead : Daemon := ⟨.gone, [], .ended, false, false, false, false, false⟩

/-- What the daemons share. -/
structure Shared (P : Type*) where
  /-- Who holds the lock. -/
  lock : Option P
  /-- Who has bound the socket file. -/
  socket : Option P

/-- The daemons over one root. -/
structure World (P : Type*) where
  /-- The lock and the socket file. -/
  shared : Shared P
  /-- The daemons. -/
  daemons : P → Daemon

/-- Nobody has started. -/
def World.start {P : Type*} : World P := ⟨⟨none, none⟩, fun _ => Daemon.new⟩

/-- What happens to a daemon. -/
inductive Move
  /-- The main thread goes on, and what it does succeeds or fails. -/
  | main (ok : Bool)
  /-- The innermost shutdown goes on; it waits for the actor, or gives up. -/
  | frame (ok : Bool)
  /-- The session is opened, or cannot be. -/
  | opened (ok : Bool)
  /-- The session is indexed, or cannot be. -/
  | indexed (ok : Bool)
  /-- The thread of the actor ends. -/
  | close
  /-- A signal arrives. -/
  | signal
  /-- The last client of a daemon that stops by itself is gone. -/
  | autostop
  /-- The process is killed. -/
  | kill
  deriving DecidableEq

section Steps

variable {P : Type*} [DecidableEq P] (p : P)

/-- The end of a process drops its lock, and leaves the socket file. -/
def die (s : Shared P) (d : Daemon) : Shared P × Daemon :=
  (if d.lockFd then { s with lock := none } else s, Daemon.dead)

/-- Release the lock, if it is held. -/
def releaseLock (s : Shared P) (d : Daemon) : Shared P × Daemon :=
  (if d.lockFd then { s with lock := none } else s, { d with lockFd := false })

/-- The next step of the main thread. -/
def mainStep (ok : Bool) (s : Shared P) (d : Daemon) : Shared P × Daemon :=
  match d.main with
  | .created =>
    if s.lock = none ∧ ok then
      ({ s with lock := some p }, { d with main := .locked, lockFd := true })
    else (s, { d with main := .exiting })
  | .locked => (s, { d with main := .starting, actor := .opening })
  | .starting =>
    match d.actor with
    | .unstarted | .opening => (s, d)
    | .broken => (s, { d with main := .failed })
    | .looping | .ended => (s, { d with main := .started })
  | .started => (s, { d with main := if d.stopped then .failed else .subscribing })
  | .subscribing => (s, { d with main := if ok then .pumped else .failed })
  | .pumped => (if ok then { s with socket := none } else s, { d with main := .cleared })
  | .cleared =>
    if s.socket = none ∧ ok then
      ({ s with socket := some p }, { d with main := .serving, serverSock := true })
    else (s, { d with main := .failed })
  | .serving =>
    if d.shutdown ∨ ok = false then (s, { d with main := .leaving, frames := [.check] })
    else (s, d)
  | .leaving => (s, { d with main := .exiting })
  | .failed => ((releaseLock s d).1, { (releaseLock s d).2 with main := .exiting })
  | .exiting => die s d
  | .gone => (s, d)

/-- The next step of the innermost shutdown. -/
def frameStep (ok : Bool) (s : Shared P) (d : Daemon) (pc : Pc) (rest : List Pc) :
    Shared P × Daemon :=
  match pc with
  | .check =>
    (s, { d with frames := if d.shutdown ∧ d.serverSock = false then rest else .flag :: rest })
  | .flag => (s, { d with shutdown := true, frames := .take :: rest })
  | .take => (s, { d with serverSock := false, frames := .submit :: rest })
  | .submit =>
    -- without a thread that takes it, the closure is waited for without end
    (s, { d with
      frames := if d.stopped ∨ d.actor = .looping then .stop :: rest else .submit :: rest })
  | .stop =>
    if d.stopped ∨ d.actor = .unstarted then (s, { d with frames := .unlink :: rest })
    else (s, { d with stopped := true, frames := .join :: rest })
  | .join =>
    (s, { d with
      frames := if d.actor = .ended ∨ d.actor = .broken ∨ ok = false then .unlink :: rest
        else .join :: rest })
  | .unlink => (if ok then { s with socket := none } else s, { d with frames := .release :: rest })
  | .release => ((releaseLock s d).1, { (releaseLock s d).2 with frames := rest })

/-- What a move does to the daemon and to what is shared. -/
def move (s : Shared P) (d : Daemon) : Move → Shared P × Daemon
  | .main ok => if d.frames = [] then mainStep p ok s d else (s, d)
  | .frame ok =>
    match d.frames with
    | [] => (s, d)
    | pc :: rest => frameStep ok s d pc rest
  | .opened ok =>
    if d.actor = .opening ∧ d.session = false then
      (s, if ok then { d with session := true } else { d with actor := .broken })
    else (s, d)
  | .indexed ok =>
    if d.actor = .opening ∧ d.session then
      (s, { d with actor := if ok then .looping else .broken })
    else (s, d)
  | .close =>
    if d.actor = .looping ∧ d.stopped then (s, { d with actor := .ended, session := false })
    else (s, d)
  | .signal => if d.main = .gone then (s, d) else (s, { d with frames := .check :: d.frames })
  | .autostop =>
    if d.main = .serving ∨ d.main = .leaving then (s, { d with shutdown := true }) else (s, d)
  | .kill => die s d

/-- A move of one of the daemons. -/
def World.step (w : World P) (a : P × Move) : World P :=
  ⟨(move a.1 w.shared (w.daemons a.1) a.2).1,
    Function.update w.daemons a.1 (move a.1 w.shared (w.daemons a.1) a.2).2⟩

end Steps

/-! ## Calm moves -/

/-- A move outside the windows in which ownership is lost: a signal arrives
between the start of the pump and the binding of the socket, or in a shutdown
that has looked and not yet taken the socket; the thread of the actor is given
up while the session is open; starting fails after the session was opened. -/
def Daemon.Calm (d : Daemon) : Move → Prop
  | .signal => d.main ≠ .subscribing ∧ d.main ≠ .pumped ∧ d.main ≠ .cleared ∧
      d.frames.head? ≠ some .flag ∧ d.frames.head? ≠ some .take
  | .frame ok => ¬ (d.frames.head? = some .join ∧ ok = false ∧ d.session)
  | .main _ => ¬ (d.main = .failed ∧ d.frames = [] ∧ d.session)
  | _ => True

instance (d : Daemon) : (m : Move) → Decidable (d.Calm m)
  | .signal => inferInstanceAs (Decidable (_ ∧ _ ∧ _ ∧ _ ∧ _))
  | .frame _ => inferInstanceAs (Decidable (¬ (_ ∧ _ ∧ _)))
  | .main _ => inferInstanceAs (Decidable (¬ (_ ∧ _ ∧ _)))
  | .opened _ => isTrue trivial
  | .indexed _ => isTrue trivial
  | .close => isTrue trivial
  | .autostop => isTrue trivial
  | .kill => isTrue trivial

/-- The shutdown that has found something to do, among the calls of it. It was
called again only after it has taken the socket. -/
def Stack (active : Option Pc) : List Pc → Prop
  | [] => active = none
  | .check :: rest => Stack active rest ∧ active ≠ some .flag ∧ active ≠ some .take
  | pc :: rest => active = some pc ∧ Stack none rest

/-- What holds of a daemon whose moves are calm. -/
structure Facts (active : Option Pc) (d : Daemon) : Prop where
  /-- A session is open under the lock only. -/
  session : d.session → d.lockFd
  /-- A thread that can open a session, or has it open, is under the lock. -/
  thread : d.actor = .opening ∨ d.actor = .looping → d.lockFd
  /-- The loop has a session. -/
  looping : d.actor = .looping → d.session
  /-- A thread that has ended was stopped and has closed the session. -/
  ended : d.actor = .ended → d.session = false
  /-- A thread that was not started has no session. -/
  unstarted : d.actor = .unstarted → d.session = false
  /-- Only a thread that had the session is stopped. -/
  stopped : d.stopped → d.shutdown ∧ d.serverSock = false ∧ (d.actor = .looping ∨ d.actor = .ended)
  /-- A socket is there while clients are accepted. -/
  serverSock : d.serverSock → (d.main = .serving ∨ d.main = .leaving) ∧ d.lockFd
  /-- Without an active shutdown the socket is there until one was done. -/
  idle : (active = none ∨ active = some .flag) →
    (d.shutdown ∨ d.main = .serving ∨ d.main = .leaving) → d.stopped ∨ d.serverSock
  /-- What was stopped is released. -/
  released : active = none → d.stopped → d.lockFd = false
  /-- Before the actor is stopped. -/
  before : (active = some .flag ∨ active = some .take ∨ active = some .submit ∨
    active = some .stop) → d.stopped = false
  /-- The flag is set. -/
  take : active = some .take → d.shutdown
  /-- The socket is taken. -/
  taken : (active = some .submit ∨ active = some .stop ∨ active = some .join ∨
    active = some .unlink ∨ active = some .release) → d.shutdown ∧ d.serverSock = false
  /-- The actor has answered. -/
  stop : active = some .stop → d.actor = .looping
  /-- The lock is held to the end. -/
  held : (active = some .stop ∨ active = some .join ∨ active = some .unlink ∨
    active = some .release) → d.lockFd
  /-- The actor is told to stop. -/
  join : (active = some .join ∨ active = some .unlink ∨ active = some .release) → d.stopped
  /-- The session is closed. -/
  closed : (active = some .unlink ∨ active = some .release) → d.session = false
  /-- Before the lock. -/
  created : d.main = .created → d.lockFd = false
  /-- Before the actor. -/
  early : d.main = .created ∨ d.main = .locked → d.actor = .unstarted
  /-- The lock is kept until it is released. -/
  keeps : d.main ≠ .created → d.main ≠ .exiting → d.main ≠ .gone → d.stopped = false → d.lockFd
  /-- The actor is started. -/
  waiting : d.main = .starting → d.actor ≠ .unstarted
  /-- The actor has opened. -/
  opened : d.main ≠ .created → d.main ≠ .locked → d.main ≠ .starting → d.actor ≠ .opening
  /-- There was an actor. -/
  had : d.main ≠ .created → d.main ≠ .locked → d.main ≠ .exiting → d.actor ≠ .unstarted
  /-- No signal arrives before the socket is bound. -/
  window : d.main = .subscribing ∨ d.main = .pumped ∨ d.main = .cleared →
    d.frames = [] ∧ d.stopped = false
  /-- The last shutdown is done. -/
  leaving : d.main = .leaving → d.frames = [] → d.stopped
  /-- All is released at the end. -/
  exiting : d.main = .exiting ∨ d.main = .gone → d.lockFd = false

namespace Facts

variable {P : Type*} {d : Daemon} {active : Option Pc} {rest : List Pc}

/-! ### The main thread -/

/-- The main thread takes the lock, or leaves. -/
theorem main_created (h : Facts none d) (hmain : d.main = .created)
    (p : P) (ok : Bool) (s : Shared P) : Facts none (mainStep p ok s d).2 := by
  unfold mainStep
  rw [hmain]
  cases h
  -- what speaks of unchanged parts is assumed, the rest is propositional
  dsimp only
  split <;> constructor <;> first | assumption | grind

/-- It starts the actor, or goes on once that is started. -/
theorem main_actor (h : Facts none d) (hframes : d.frames = [])
    (hmain : d.main = .locked ∨ d.main = .started)
    (p : P) (ok : Bool) (s : Shared P) : Facts none (mainStep p ok s d).2 := by
  unfold mainStep
  cases h
  obtain hmain | hmain := hmain <;> rw [hmain] <;> dsimp only
  · constructor <;> first | assumption | grind
  · constructor <;> first | assumption | grind

/-- It goes on with an actor that has the session. -/
theorem main_opened (h : Facts none d) (hmain : d.main = .starting)
    (hactor : d.actor = .looping ∨ d.actor = .ended) : Facts none { d with main := .started } := by
  cases h
  constructor <;> first | assumption | grind

/-- It does not go on with one that has none. -/
theorem main_broken (h : Facts none d) (hmain : d.main = .starting) (hactor : d.actor = .broken) :
    Facts none { d with main := .failed } := by
  cases h
  constructor <;> first | assumption | grind

/-- It waits for the actor. -/
theorem main_starting (h : Facts none d) (hmain : d.main = .starting)
    (p : P) (ok : Bool) (s : Shared P) : Facts none (mainStep p ok s d).2 := by
  unfold mainStep
  rw [hmain]
  dsimp only
  split
  · exact h
  · exact h
  · exact h.main_broken hmain ‹_›
  · exact h.main_opened hmain (.inl ‹_›)
  · exact h.main_opened hmain (.inr ‹_›)

/-- It subscribes, and clears the socket file. -/
theorem main_subscribing (h : Facts none d) (hmain : d.main = .subscribing ∨ d.main = .pumped)
    (p : P) (ok : Bool) (s : Shared P) : Facts none (mainStep p ok s d).2 := by
  unfold mainStep
  cases h
  obtain hmain | hmain := hmain <;> rw [hmain] <;> dsimp only
  · constructor <;> first | assumption | grind
  · constructor <;> first | assumption | grind

/-- It binds the socket, or fails. -/
theorem main_cleared (h : Facts none d) (hmain : d.main = .cleared)
    (p : P) (ok : Bool) (s : Shared P) : Facts none (mainStep p ok s d).2 := by
  unfold mainStep
  rw [hmain]
  cases h
  dsimp only
  split <;> constructor <;> first | assumption | grind

/-- It serves until it is told to shut down, and leaves. -/
theorem main_serving (h : Facts none d) (hframes : d.frames = [])
    (hmain : d.main = .serving ∨ d.main = .leaving)
    (p : P) (ok : Bool) (s : Shared P) : Facts none (mainStep p ok s d).2 := by
  unfold mainStep
  obtain hmain | hmain := hmain <;> rw [hmain] <;> dsimp only
  · split
    · cases h
      constructor <;> first | assumption | grind
    · exact h
  · cases h
    constructor <;> first | assumption | grind

/-- It drops the lock after a failed start. -/
theorem main_failed (h : Facts none d) (hmain : d.main = .failed) (hclosed : ¬ d.session) :
    Facts none { d with lockFd := false, main := .exiting } := by
  cases h
  constructor <;> first | assumption | grind

theorem dead : Facts none Daemon.dead := by
  unfold Daemon.dead
  constructor <;> decide

/-- The main thread goes on while no shutdown is under way. -/
theorem main (h : Facts none d) (hframes : d.frames = []) (p : P) (ok : Bool) (s : Shared P)
    (hcalm : d.Calm (.main ok)) : Facts none (mainStep p ok s d).2 := by
  cases hmain : d.main with
  | created => exact h.main_created hmain p ok s
  | locked => exact h.main_actor hframes (.inl hmain) p ok s
  | starting => exact h.main_starting hmain p ok s
  | started => exact h.main_actor hframes (.inr hmain) p ok s
  | subscribing => exact h.main_subscribing (.inl hmain) p ok s
  | pumped => exact h.main_subscribing (.inr hmain) p ok s
  | cleared => exact h.main_cleared hmain p ok s
  | serving => exact h.main_serving hframes (.inl hmain) p ok s
  | leaving => exact h.main_serving hframes (.inr hmain) p ok s
  | failed =>
    unfold mainStep
    rw [hmain]
    exact h.main_failed hmain fun hopen => hcalm ⟨hmain, hframes, hopen⟩
  | exiting =>
    unfold mainStep
    rw [hmain]
    exact dead
  | gone =>
    unfold mainStep
    rw [hmain]
    exact h

/-! ### A shutdown -/

/-- It finds that there is nothing to do. -/
theorem pop (h : Facts active d) (hframes : d.frames = .check :: rest)
    (hdone : d.shutdown ∧ d.serverSock = false) (hrest : rest = [] → active = none) :
    Facts active { d with frames := rest } := by
  cases h
  constructor <;> first | assumption | grind

/-- It finds that there is something to do. -/
theorem check (h : Facts none d) (hframes : d.frames = .check :: rest)
    (hdone : ¬ (d.shutdown ∧ d.serverSock = false)) :
    Facts (some .flag) { d with frames := .flag :: rest } := by
  cases h
  constructor <;> first | assumption | grind

/-- It sets the flag. -/
theorem flag (h : Facts (some .flag) d) (hframes : d.frames = .flag :: rest) :
    Facts (some .take) { d with shutdown := true, frames := .take :: rest } := by
  cases h
  constructor <;> first | assumption | grind

/-- It takes the socket. -/
theorem takeSock (h : Facts (some .take) d) (hframes : d.frames = .take :: rest) :
    Facts (some .submit) { d with serverSock := false, frames := .submit :: rest } := by
  cases h
  constructor <;> first | assumption | grind

/-- The actor answers. -/
theorem answer (h : Facts (some .submit) d) (hframes : d.frames = .submit :: rest)
    (hanswer : d.stopped ∨ d.actor = .looping) :
    Facts (some .stop) { d with frames := .stop :: rest } := by
  cases h
  constructor <;> first | assumption | grind

/-- The actor is told to stop. -/
theorem stopActor (h : Facts (some .stop) d) (hframes : d.frames = .stop :: rest) :
    Facts (some .join) { d with stopped := true, frames := .join :: rest } := by
  cases h
  constructor <;> first | assumption | grind

/-- The thread of the actor has ended. -/
theorem joined (h : Facts (some .join) d) (hsession : d.session = false) (rest : List Pc) :
    Facts (some .unlink) { d with frames := .unlink :: rest } := by
  cases h
  constructor <;> first | assumption | grind

/-- The socket file is removed. -/
theorem unlink (h : Facts (some .unlink) d) (rest : List Pc) :
    Facts (some .release) { d with frames := .release :: rest } := by
  cases h
  constructor <;> first | assumption | grind

/-- The lock is released. -/
theorem release (h : Facts (some .release) d) (rest : List Pc) :
    Facts none { d with lockFd := false, frames := rest } := by
  cases h
  constructor <;> first | assumption | grind

/-! ### The thread of the actor, and signals -/

/-- The session is opened, or cannot be. -/
theorem openSession (h : Facts active d) (hopening : d.actor = .opening) (ok : Bool) :
    Facts active (if ok then { d with session := true } else { d with actor := .broken }) := by
  cases h
  split <;> constructor <;> first | assumption | grind

/-- The session is indexed, or cannot be. -/
theorem index (h : Facts active d) (hopening : d.actor = .opening) (hsession : d.session)
    (ok : Bool) : Facts active { d with actor := if ok then .looping else .broken } := by
  cases h
  cases ok <;> constructor <;> first | assumption | grind

/-- The thread ends. -/
theorem close (h : Facts active d) (hlooping : d.actor = .looping) (hstopped : d.stopped) :
    Facts active { d with actor := .ended, session := false } := by
  cases h
  constructor <;> first | assumption | grind

/-- A signal arrives. -/
theorem signal (h : Facts active d) (hcalm : d.Calm .signal) :
    Facts active { d with frames := .check :: d.frames } := by
  obtain ⟨hsubscribing, hpumped, hcleared, -⟩ := hcalm
  cases h
  constructor <;> first | assumption | grind

/-- The daemon stops by itself. -/
theorem autostop (h : Facts active d) (hmain : d.main = .serving ∨ d.main = .leaving) :
    Facts active { d with shutdown := true } := by
  cases h
  constructor <;> first | assumption | grind

end Facts

/-! ## Owners -/

/-- What is active has looked. -/
theorem Stack.ne_check {active : Option Pc} {frames : List Pc} (h : Stack active frames) :
    active ≠ some .check := by
  induction frames with
  | nil =>
    have hnone : active = none := h
    rw [hnone]
    exact fun heq => by cases heq
  | cons pc rest ih =>
    cases pc with
    | check => exact ih h.1
    | _ =>
      rw [h.1]
      exact fun heq => by cases heq

/-- A shutdown that is about to take the socket is the innermost. -/
theorem Stack.head {pc : Pc} {frames : List Pc} (h : Stack (some pc) frames)
    (hpc : pc = .flag ∨ pc = .take) : frames.head? = some pc := by
  cases frames with
  | nil => cases h
  | cons first rest =>
    cases first with
    | check =>
      obtain ⟨-, hflag, htake⟩ := h
      rcases hpc with rfl | rfl
      · exact absurd rfl hflag
      · exact absurd rfl htake
    | _ => exact h.1.symm

/-- The main thread starts a shutdown at most. -/
theorem stack_mainStep {P : Type*} (p : P) (ok : Bool) (s : Shared P) {d : Daemon}
    (hframes : d.frames = []) : Stack none (mainStep p ok s d).2.frames := by
  have hnone : Stack none d.frames := by
    rw [hframes]
    rfl
  unfold mainStep
  split
  · split <;> exact hnone
  · exact hnone
  · split <;> exact hnone
  · exact hnone
  · exact hnone
  · exact hnone
  · split <;> exact hnone
  · split
    · exact ⟨rfl, nofun, nofun⟩
    · exact hnone
  · exact hnone
  · exact hnone
  · rfl
  · exact hnone

/-- A daemon whose moves are calm. -/
def Sound (d : Daemon) : Prop := ∃ active, Stack active d.frames ∧ Facts active d

/-- The descriptor of the lock is that of its holder. -/
def HoldsFd {P : Type*} (s : Shared P) (p : P) (d : Daemon) : Prop := d.lockFd ↔ s.lock = some p

section Owners

variable {P : Type*} {p : P} {s : Shared P} {d : Daemon}

/-- The innermost shutdown goes on. -/
theorem sound_frameStep (h : Sound d) {pc : Pc} {rest : List Pc} (hframes : d.frames = pc :: rest)
    (ok : Bool) (hcalm : d.Calm (.frame ok)) : Sound (frameStep ok s d pc rest).2 := by
  obtain ⟨active, hstack, hfacts⟩ := h
  have hactive := hstack.ne_check
  rw [hframes] at hstack
  cases pc with
  | check =>
    obtain ⟨hrest, hflag, htake⟩ := hstack
    unfold frameStep
    dsimp only
    split
    · rename_i hdone
      refine ⟨active, hrest, hfacts.pop hframes hdone fun hnil => ?_⟩
      rw [hnil] at hrest
      exact hrest
    · -- one that has taken the socket would have left nothing to do
      rename_i hdone
      have hnone : active = none := by
        have htaken := hfacts.taken
        cases active with
        | none => rfl
        | some other => cases other <;> simp_all
      subst hnone
      exact ⟨some .flag, ⟨rfl, hrest⟩, hfacts.check hframes hdone⟩
  | flag =>
    obtain ⟨rfl, hrest⟩ := hstack
    exact ⟨some .take, ⟨rfl, hrest⟩, hfacts.flag hframes⟩
  | take =>
    obtain ⟨rfl, hrest⟩ := hstack
    exact ⟨some .submit, ⟨rfl, hrest⟩, hfacts.takeSock hframes⟩
  | submit =>
    obtain ⟨rfl, hrest⟩ := hstack
    unfold frameStep
    dsimp only
    split
    · rename_i hanswer
      exact ⟨some .stop, ⟨rfl, hrest⟩, hfacts.answer hframes hanswer⟩
    · rw [← hframes]
      exact ⟨some .submit, hframes ▸ ⟨rfl, hrest⟩, hfacts⟩
  | stop =>
    obtain ⟨rfl, hrest⟩ := hstack
    have hrunning : ¬ (d.stopped ∨ d.actor = .unstarted) := by
      rw [hfacts.before (.inr (.inr (.inr rfl))), hfacts.stop rfl]
      decide
    unfold frameStep
    dsimp only
    rw [if_neg hrunning]
    exact ⟨some .join, ⟨rfl, hrest⟩, hfacts.stopActor hframes⟩
  | join =>
    obtain ⟨rfl, hrest⟩ := hstack
    unfold frameStep
    dsimp only
    split
    · rename_i hdone
      have hsession : d.session = false := by
        obtain ⟨-, -, hthread⟩ := hfacts.stopped (hfacts.join (.inl rfl))
        rcases hdone with hended | hbroken | hgiven
        · exact hfacts.ended hended
        · rw [hbroken] at hthread
          rcases hthread with hthread | hthread <;> cases hthread
        · refine Bool.eq_false_iff.mpr fun hopen => hcalm ⟨?_, hgiven, hopen⟩
          rw [hframes]
          rfl
      exact ⟨some .unlink, ⟨rfl, hrest⟩, hfacts.joined hsession rest⟩
    · rw [← hframes]
      exact ⟨some .join, hframes ▸ ⟨rfl, hrest⟩, hfacts⟩
  | unlink =>
    obtain ⟨rfl, hrest⟩ := hstack
    exact ⟨some .release, ⟨rfl, hrest⟩, hfacts.unlink rest⟩
  | release =>
    obtain ⟨rfl, hrest⟩ := hstack
    exact ⟨none, hrest, hfacts.release rest⟩

/-- Calm moves keep a daemon sound. -/
theorem sound_move (h : Sound d) {m : Move} (hcalm : d.Calm m) : Sound (move p s d m).2 := by
  cases m with
  | main ok =>
    unfold move
    dsimp only
    split
    · rename_i hframes
      obtain ⟨active, hstack, hfacts⟩ := h
      rw [hframes] at hstack
      have hnone : active = none := hstack
      subst hnone
      exact ⟨none, stack_mainStep p ok s hframes, hfacts.main hframes p ok s hcalm⟩
    · exact h
  | frame ok =>
    unfold move
    dsimp only
    split
    · exact h
    · rename_i pc rest hframes
      exact sound_frameStep h hframes ok hcalm
  | opened ok =>
    unfold move
    dsimp only
    split
    · rename_i hopening
      obtain ⟨active, hstack, hfacts⟩ := h
      refine ⟨active, ?_, hfacts.openSession hopening.1 ok⟩
      cases ok <;> exact hstack
    · exact h
  | indexed ok =>
    unfold move
    dsimp only
    split
    · rename_i hopening
      obtain ⟨active, hstack, hfacts⟩ := h
      exact ⟨active, hstack, hfacts.index hopening.1 hopening.2 ok⟩
    · exact h
  | close =>
    unfold move
    dsimp only
    split
    · rename_i hlooping
      obtain ⟨active, hstack, hfacts⟩ := h
      exact ⟨active, hstack, hfacts.close hlooping.1 hlooping.2⟩
    · exact h
  | signal =>
    unfold move
    dsimp only
    split
    · exact h
    · obtain ⟨active, hstack, hfacts⟩ := h
      refine ⟨active, ⟨hstack, ?_, ?_⟩, hfacts.signal hcalm⟩
      · rintro rfl
        exact hcalm.2.2.2.1 (hstack.head (.inl rfl))
      · rintro rfl
        exact hcalm.2.2.2.2 (hstack.head (.inr rfl))
  | autostop =>
    unfold move
    dsimp only
    split
    · rename_i hmain
      obtain ⟨active, hstack, hfacts⟩ := h
      exact ⟨active, hstack, hfacts.autostop hmain⟩
    · exact h
  | kill => exact ⟨none, rfl, Facts.dead⟩

/-! ## The lock and the socket file -/

/-- What a move does to the lock and its descriptor. -/
theorem lock_move (p : P) (s : Shared P) (d : Daemon) (m : Move) :
    ((move p s d m).1.lock = s.lock ∧ (move p s d m).2.lockFd = d.lockFd) ∨
    (s.lock = none ∧ (move p s d m).1.lock = some p ∧ (move p s d m).2.lockFd = true) ∨
    ((move p s d m).1.lock = (if d.lockFd then none else s.lock) ∧
      (move p s d m).2.lockFd = false) := by
  have hdie : (die s d).1.lock = (if d.lockFd then none else s.lock) ∧
      (die s d).2.lockFd = false := by
    unfold die
    cases d.lockFd <;> exact ⟨rfl, rfl⟩
  have hrelease : (releaseLock s d).1.lock = (if d.lockFd then none else s.lock) := by
    unfold releaseLock
    cases d.lockFd <;> rfl
  cases m with
  | main ok =>
    unfold move
    dsimp only
    split
    · unfold mainStep
      split
      · split
        · rename_i hfree
          exact .inr (.inl ⟨hfree.1, rfl, rfl⟩)
        · exact .inl ⟨rfl, rfl⟩
      · exact .inl ⟨rfl, rfl⟩
      · split <;> exact .inl ⟨rfl, rfl⟩
      · exact .inl ⟨rfl, rfl⟩
      · exact .inl ⟨rfl, rfl⟩
      · cases ok <;> exact .inl ⟨rfl, rfl⟩
      · split <;> exact .inl ⟨rfl, rfl⟩
      · split <;> exact .inl ⟨rfl, rfl⟩
      · exact .inl ⟨rfl, rfl⟩
      · exact .inr (.inr ⟨hrelease, rfl⟩)
      · exact .inr (.inr hdie)
      · exact .inl ⟨rfl, rfl⟩
    · exact .inl ⟨rfl, rfl⟩
  | frame ok =>
    unfold move
    dsimp only
    split
    · exact .inl ⟨rfl, rfl⟩
    · rename_i pc rest hframes
      cases pc with
      | stop =>
        unfold frameStep
        dsimp only
        split <;> exact .inl ⟨rfl, rfl⟩
      | unlink => cases ok <;> exact .inl ⟨rfl, rfl⟩
      | release => exact .inr (.inr ⟨hrelease, rfl⟩)
      | _ => exact .inl ⟨rfl, rfl⟩
  | opened ok =>
    unfold move
    dsimp only
    split
    · cases ok <;> exact .inl ⟨rfl, rfl⟩
    · exact .inl ⟨rfl, rfl⟩
  | kill => exact .inr (.inr hdie)
  | _ =>
    unfold move
    dsimp only
    split <;> exact .inl ⟨rfl, rfl⟩

/-- A descriptor of the lock stays with its holder. -/
theorem holdsFd_move (h : HoldsFd s p d) (m : Move) :
    HoldsFd (move p s d m).1 p (move p s d m).2 := by
  unfold HoldsFd at h ⊢
  rcases lock_move p s d m with ⟨hlock, hfd⟩ | ⟨-, hlock, hfd⟩ | ⟨hlock, hfd⟩
  · rw [hlock, hfd]
    exact h
  · rw [hlock, hfd]
    exact iff_of_true rfl rfl
  · rw [hlock, hfd]
    refine iff_of_false Bool.false_ne_true fun heq => ?_
    split at heq
    · cases heq
    · rename_i hnot
      exact hnot (h.mpr heq)

/-- A move of one daemon takes the lock from no other and gives it to none. -/
theorem lock_elsewhere (h : HoldsFd s p d) (m : Move) {q : P} (hq : q ≠ p) :
    (move p s d m).1.lock = some q ↔ s.lock = some q := by
  have hother : (some p : Option P) = some q → False := fun heq => hq (Option.some.inj heq).symm
  unfold HoldsFd at h
  rcases lock_move p s d m with ⟨hlock, -⟩ | ⟨hfree, hlock, -⟩ | ⟨hlock, -⟩
  · rw [hlock]
  · rw [hlock, hfree]
    exact iff_of_false hother fun heq => by cases heq
  · rw [hlock]
    split
    · rename_i hfd
      rw [h.mp hfd]
      exact iff_of_false (fun heq => by cases heq) hother
    · rfl

/-- Only the holder of the lock touches the socket file, and a daemon that
listens has bound it. -/
theorem socket_move (h : Sound d) (hfd : HoldsFd s p d) (m : Move)
    (hsocket : d.serverSock → s.socket = some p) :
    ((move p s d m).1.socket = s.socket ∨ s.lock = some p) ∧
    ((move p s d m).2.serverSock → (move p s d m).1.socket = some p) := by
  obtain ⟨active, hstack, hfacts⟩ := h
  have hdie : (die s d).1.socket = s.socket := by
    unfold die
    cases d.lockFd <;> rfl
  have hrelease : (releaseLock s d).1.socket = s.socket := by
    unfold releaseLock
    cases d.lockFd <;> rfl
  have hwindow : d.main = .pumped ∨ d.main = .cleared → s.lock = some p ∧ d.serverSock = false := by
    intro hmain
    have hkeeps := hfacts.keeps
    have hopen := hfacts.window
    have hserving := hfacts.serverSock
    have hlock := hfd.mp
    grind
  have hsame : (s.socket = s.socket ∨ s.lock = some p) ∧ (d.serverSock → s.socket = some p) :=
    ⟨.inl rfl, hsocket⟩
  cases m with
  | main ok =>
    unfold move
    dsimp only
    split
    · unfold mainStep
      split
      · split <;> exact hsame
      · exact hsame
      · split <;> exact hsame
      · exact hsame
      · exact hsame
      · rename_i hmain
        obtain ⟨hlock, hnone⟩ := hwindow (.inl hmain)
        exact ⟨.inr hlock, fun hsock => absurd hsock (Bool.eq_false_iff.mp hnone)⟩
      · rename_i hmain
        obtain ⟨hlock, -⟩ := hwindow (.inr hmain)
        split
        · exact ⟨.inr hlock, fun _ => rfl⟩
        · exact hsame
      · split <;> exact hsame
      · exact hsame
      · exact ⟨.inl hrelease, fun hsock => hrelease.trans (hsocket hsock)⟩
      · exact ⟨.inl hdie, fun hsock => absurd hsock Bool.false_ne_true⟩
      · exact hsame
    · exact hsame
  | frame ok =>
    unfold move
    dsimp only
    split
    · exact hsame
    · rename_i pc rest hframes
      rw [hframes] at hstack
      cases pc with
      | take => exact ⟨.inl rfl, fun hsock => absurd hsock Bool.false_ne_true⟩
      | stop =>
        unfold frameStep
        dsimp only
        split <;> exact hsame
      | unlink =>
        have hlock := hfd.mp (hfacts.held (.inr (.inr (.inl hstack.1))))
        obtain ⟨-, hnone⟩ := hfacts.taken (.inr (.inr (.inr (.inl hstack.1))))
        exact ⟨.inr hlock, fun hsock => absurd hsock (Bool.eq_false_iff.mp hnone)⟩
      | release => exact ⟨.inl hrelease, fun hsock => hrelease.trans (hsocket hsock)⟩
      | _ => exact hsame
  | opened ok =>
    unfold move
    dsimp only
    split
    · cases ok <;> exact hsame
    · exact hsame
  | kill => exact ⟨.inl hdie, fun hsock => absurd hsock Bool.false_ne_true⟩
  | _ =>
    unfold move
    dsimp only
    split <;> exact hsame

end Owners

/-! ## Runs of all daemons -/

section Worlds

variable {P : Type*} [DecidableEq P]

/-- Every daemon is sound and the socket file is that of the one that listens. -/
structure Owned (w : World P) : Prop where
  /-- The daemons. -/
  sound : ∀ p, Sound (w.daemons p)
  /-- The lock. -/
  fd : ∀ p, HoldsFd w.shared p (w.daemons p)
  /-- The socket file. -/
  socket : ∀ p, (w.daemons p).serverSock → w.shared.socket = some p

theorem sound_new : Sound Daemon.new := ⟨none, rfl, by constructor <;> decide⟩

omit [DecidableEq P] in
theorem owned_start : Owned (World.start : World P) where
  sound _ := sound_new
  fd p := iff_of_false Bool.false_ne_true fun h => by cases h
  socket _ h := absurd h Bool.false_ne_true

/-- The lock and its descriptors agree after every move. -/
theorem fd_step {w : World P} (h : ∀ p, HoldsFd w.shared p (w.daemons p)) (a : P × Move) (p : P) :
    HoldsFd (w.step a).shared p ((w.step a).daemons p) := by
  unfold World.step
  dsimp only
  by_cases hp : p = a.1
  · subst hp
    rw [Function.update_self]
    exact holdsFd_move (h a.1) a.2
  · rw [Function.update_of_ne hp]
    unfold HoldsFd
    rw [lock_elsewhere (h a.1) a.2 hp]
    exact h p

/-- A calm move keeps ownership. -/
theorem owned_step {w : World P} (h : Owned w) (a : P × Move)
    (hcalm : (w.daemons a.1).Calm a.2) : Owned (w.step a) := by
  obtain ⟨htouch, hown⟩ := socket_move (h.sound a.1) (h.fd a.1) a.2 (h.socket a.1)
  refine ⟨fun p => ?_, fd_step h.fd a, fun p => ?_⟩
  · unfold World.step
    dsimp only
    by_cases hp : p = a.1
    · subst hp
      rw [Function.update_self]
      exact sound_move (h.sound a.1) hcalm
    · rw [Function.update_of_ne hp]
      exact h.sound p
  · unfold World.step
    dsimp only
    by_cases hp : p = a.1
    · subst hp
      rw [Function.update_self]
      exact hown
    · rw [Function.update_of_ne hp]
      intro hsock
      obtain ⟨active, -, hfacts⟩ := h.sound p
      have hlock := (h.fd p).mp (hfacts.serverSock hsock).2
      rcases htouch with hsame | hheld
      · rw [hsame]
        exact h.socket p hsock
      · rw [hlock] at hheld
        exact absurd (Option.some.inj hheld) hp

/-- However many daemons are started over a root, and in whatever order they
go on, fail, are signalled and are killed: while their moves are calm, a
session is open in the daemon that holds the lock only, and the daemon that
listens is that daemon and is the one behind the socket file. -/
theorem one_owner (acts : List (P × Move))
    (hcalm : Along World.step (fun w a => (w.daemons a.1).Calm a.2) World.start acts) :
    (∀ p, ((run World.step World.start acts).daemons p).session →
      (run World.step World.start acts).shared.lock = some p) ∧
    (∀ p q, ((run World.step World.start acts).daemons p).session →
      ((run World.step World.start acts).daemons q).session → p = q) ∧
    ∀ p, ((run World.step World.start acts).daemons p).serverSock →
      (run World.step World.start acts).shared.lock = some p ∧
        (run World.step World.start acts).shared.socket = some p := by
  have howned : Owned (run World.step World.start acts) := by
    refine invariant_run ?_ owned_start hcalm
    exact fun w a h hc => owned_step h a hc
  have hlock : ∀ p, ((run World.step World.start acts).daemons p).session →
      (run World.step World.start acts).shared.lock = some p := by
    intro p hsession
    obtain ⟨active, -, hfacts⟩ := howned.sound p
    exact (howned.fd p).mp (hfacts.session hsession)
  refine ⟨hlock, fun p q hp hq => ?_, fun p hsock => ?_⟩
  · exact Option.some.inj ((hlock p hp).symm.trans (hlock q hq))
  · obtain ⟨active, -, hfacts⟩ := howned.sound p
    exact ⟨(howned.fd p).mp (hfacts.serverSock hsock).2, howned.socket p hsock⟩

/-- The steps of a daemon until it listens. -/
def startUp : List Move :=
  [.main true, .main true, .opened true, .indexed true, .main true, .main true, .main true,
    .main true, .main true]

/-- The steps of a shutdown. -/
def shutDown : List Move :=
  [.frame true, .frame true, .frame true, .frame true, .frame true, .close, .frame true,
    .frame true, .frame true]

/-- One daemon starts, another is refused, the first is stopped by a signal and
a third one takes its place. -/
def handover : List (ℕ × Move) :=
  startUp.map (Prod.mk 0) ++ [(1, .main true)] ++ (.signal :: shutDown).map (Prod.mk 0) ++
    startUp.map (Prod.mk 2)

theorem one_owner_handover :
    (run World.step World.start handover).shared.socket = some 2 :=
  ((one_owner handover (by decide)).2.2 2 (by decide)).2

/-- A signal before the socket is bound: the daemon goes on without the lock,
and takes the socket file of the next one. -/
example : let w := run World.step World.start ((startUp.take 7 ++ .signal :: shutDown).map
      (Prod.mk 0) ++ startUp.map (Prod.mk 1) ++ (startUp.drop 7).map (Prod.mk 0))
    w.shared.socket = some 0 ∧ (w.daemons 1).serverSock := by decide

/-- The thread of the actor is given up: two daemons have the session open. -/
example : let w := run World.step World.start ((startUp ++ Move.signal :: shutDown.take 5 ++
      [Move.frame false, .frame true, .frame true]).map (Prod.mk 0) ++ startUp.map (Prod.mk 1))
    (w.daemons 0).session ∧ (w.daemons 1).session := by decide

end Worlds

/-! ## A signal before the actor is started -/

/-- What holds before the session actor is started. -/
structure Early (d : Daemon) : Prop where
  /-- Nothing takes closures. -/
  actor : d.actor = .unstarted
  /-- The actor was not stopped. -/
  stopped : d.stopped = false
  /-- There is no socket. -/
  serverSock : d.serverSock = false
  /-- No shutdown comes further than to the actor. -/
  frames : ∀ pc ∈ d.frames, pc = .check ∨ pc = .flag ∨ pc = .take ∨ pc = .submit
  /-- A shutdown that set the flag is there. -/
  shutdown : d.shutdown → ∃ pc ∈ d.frames, pc ≠ .check
  /-- The lock is taken. -/
  locked : d.main = .locked → d.lockFd

section Early

variable {P : Type*} {p : P} {s : Shared P} {d : Daemon}

/-- A shutdown before the actor is started is never over. -/
theorem early_frameStep (h : Early d) {pc : Pc} {rest : List Pc} (hframes : d.frames = pc :: rest)
    (ok : Bool) : Early (frameStep ok s d pc rest).2 ∧ (frameStep ok s d pc rest).2.frames ≠ [] ∧
      (frameStep ok s d pc rest).2.main = d.main := by
  obtain ⟨hactor, hstopped, hsock, hshort, hshutdown, hlocked⟩ := h
  rw [hframes] at hshort hshutdown
  obtain ⟨hpc, hrest⟩ := List.forall_mem_cons.mp hshort
  have hwith : ∀ next : Pc, (next = .check ∨ next = .flag ∨ next = .take ∨ next = .submit) →
      ∀ other ∈ next :: rest, other = .check ∨ other = .flag ∨ other = .take ∨ other = .submit :=
    fun next hnext => List.forall_mem_cons.mpr ⟨hnext, hrest⟩
  unfold frameStep
  rcases hpc with rfl | rfl | rfl | rfl
  · dsimp only
    split
    · -- the flag is set by a shutdown that is still there
      rename_i hdone
      obtain ⟨other, hin, hother⟩ := hshutdown hdone.1
      rcases List.mem_cons.mp hin with rfl | hin
      · exact absurd rfl hother
      · exact ⟨⟨hactor, hstopped, hsock, hrest, fun _ => ⟨other, hin, hother⟩, hlocked⟩,
          List.ne_nil_of_mem hin, rfl⟩
    · exact ⟨⟨hactor, hstopped, hsock, hwith .flag (by decide),
        fun _ => ⟨.flag, List.mem_cons_self, by decide⟩, hlocked⟩, List.cons_ne_nil _ _, rfl⟩
  · exact ⟨⟨hactor, hstopped, hsock, hwith .take (by decide),
      fun _ => ⟨.take, List.mem_cons_self, by decide⟩, hlocked⟩, List.cons_ne_nil _ _, rfl⟩
  · exact ⟨⟨hactor, hstopped, rfl, hwith .submit (by decide),
      fun _ => ⟨.submit, List.mem_cons_self, by decide⟩, hlocked⟩, List.cons_ne_nil _ _, rfl⟩
  · have hwaits : ¬ (d.stopped ∨ d.actor = .looping) := by
      rw [hstopped, hactor]
      decide
    dsimp only
    rw [if_neg hwaits]
    exact ⟨⟨hactor, hstopped, hsock, hwith .submit (by decide),
      fun _ => ⟨.submit, List.mem_cons_self, by decide⟩, hlocked⟩, List.cons_ne_nil _ _, rfl⟩

/-- With a shutdown under way nothing but the end of the process gets a daemon
past the start of its actor. -/
theorem early_waits (h : Early d) (hmain : d.main = .created ∨ d.main = .locked)
    (hframes : d.frames ≠ []) {m : Move} (hm : m ≠ .kill) :
    Early (move p s d m).2 ∧ (move p s d m).2.frames ≠ [] ∧ (move p s d m).2.main = d.main := by
  have hsame : Early d ∧ d.frames ≠ [] ∧ d.main = d.main := ⟨h, hframes, rfl⟩
  cases m with
  | main ok =>
    unfold move
    dsimp only
    rw [if_neg hframes]
    exact hsame
  | frame ok =>
    unfold move
    dsimp only
    split
    · exact hsame
    · rename_i pc rest hcons
      exact early_frameStep h hcons ok
  | opened ok =>
    unfold move
    dsimp only
    rw [if_neg (by rw [h.actor]; exact fun hand => by cases hand.1)]
    exact hsame
  | indexed ok =>
    unfold move
    dsimp only
    rw [if_neg (by rw [h.actor]; exact fun hand => by cases hand.1)]
    exact hsame
  | close =>
    unfold move
    dsimp only
    rw [if_neg (by rw [h.actor]; exact fun hand => by cases hand.1)]
    exact hsame
  | signal =>
    unfold move
    dsimp only
    split
    · exact hsame
    · refine ⟨⟨h.actor, h.stopped, h.serverSock, List.forall_mem_cons.mpr ⟨.inl rfl, h.frames⟩,
        fun hset => ?_, h.locked⟩, List.cons_ne_nil _ _, rfl⟩
      obtain ⟨pc, hin, hpc⟩ := h.shutdown hset
      exact ⟨pc, List.mem_cons_of_mem _ hin, hpc⟩
  | autostop =>
    unfold move
    dsimp only
    rw [if_neg (by rcases hmain with hmain | hmain <;> rw [hmain] <;> decide)]
    exact hsame
  | kill => exact absurd rfl hm

/-- A shutdown leaves the main thread where it is. -/
theorem main_frameStep (ok : Bool) (s : Shared P) (d : Daemon) (pc : Pc) (rest : List Pc) :
    (frameStep ok s d pc rest).2.main = d.main := by
  cases pc with
  | stop =>
    unfold frameStep
    dsimp only
    split <;> rfl
  | _ => rfl

/-- A daemon past the start of its actor does not come back. -/
theorem late_move (h : ¬ (d.main = .created ∨ d.main = .locked)) (m : Move) :
    ¬ ((move p s d m).2.main = .created ∨ (move p s d m).2.main = .locked) := by
  cases m with
  | main ok =>
    unfold move
    dsimp only
    split
    · unfold mainStep
      split
      · rename_i hmain
        exact absurd (.inl hmain) h
      · rename_i hmain
        exact absurd (.inr hmain) h
      · split
        · exact h
        · exact h
        · exact not_or.mpr ⟨nofun, nofun⟩
        · exact not_or.mpr ⟨nofun, nofun⟩
        · exact not_or.mpr ⟨nofun, nofun⟩
      · dsimp only
        split <;> decide
      · dsimp only
        split <;> decide
      · exact not_or.mpr ⟨nofun, nofun⟩
      · split <;> exact not_or.mpr ⟨nofun, nofun⟩
      · split
        · exact not_or.mpr ⟨nofun, nofun⟩
        · exact h
      · exact not_or.mpr ⟨nofun, nofun⟩
      · exact not_or.mpr ⟨nofun, nofun⟩
      · exact not_or.mpr ⟨nofun, nofun⟩
      · exact h
    · exact h
  | frame ok =>
    unfold move
    dsimp only
    split
    · exact h
    · rw [main_frameStep]
      exact h
  | opened ok =>
    unfold move
    dsimp only
    split
    · cases ok <;> exact h
    · exact h
  | kill => exact not_or.mpr ⟨nofun, nofun⟩
  | _ =>
    unfold move
    dsimp only
    split <;> exact h

/-- What holds before the actor is started is kept by every move. -/
theorem early_move (h : d.main = .created ∨ d.main = .locked → Early d) (m : Move) :
    (move p s d m).2.main = .created ∨ (move p s d m).2.main = .locked →
      Early (move p s d m).2 := by
  intro hmain
  by_cases hbefore : d.main = .created ∨ d.main = .locked
  · have hearly := h hbefore
    by_cases hkill : m = .kill
    · subst hkill
      rcases hmain with hmain | hmain <;> cases hmain
    by_cases hframes : d.frames = []
    · cases m with
      | main ok =>
        have hmove : move p s d (.main ok) = mainStep p ok s d := if_pos hframes
        rw [hmove] at hmain ⊢
        rcases hbefore with hcreated | hlocked
        · unfold mainStep at hmain ⊢
          rw [hcreated] at hmain ⊢
          dsimp only at hmain ⊢
          split
          · exact ⟨hearly.actor, hearly.stopped, hearly.serverSock, hearly.frames,
              hearly.shutdown, fun _ => rfl⟩
          · rename_i hbusy
            rw [if_neg hbusy] at hmain
            rcases hmain with hmain | hmain <;> cases hmain
        · unfold mainStep at hmain
          rw [hlocked] at hmain
          rcases hmain with hmain | hmain <;> cases hmain
      | frame ok =>
        unfold move
        rw [hframes]
        exact hearly
      | signal =>
        unfold move
        dsimp only
        split
        · exact hearly
        · refine ⟨hearly.actor, hearly.stopped, hearly.serverSock,
            List.forall_mem_cons.mpr ⟨.inl rfl, hearly.frames⟩, fun hset => ?_, hearly.locked⟩
          obtain ⟨pc, hin, hpc⟩ := hearly.shutdown hset
          exact ⟨pc, List.mem_cons_of_mem _ hin, hpc⟩
      | kill => exact absurd rfl hkill
      | _ =>
        unfold move
        dsimp only
        rw [if_neg (by
          first
          | rw [hearly.actor]; exact fun hand => by cases hand.1
          | rcases hbefore with hbefore | hbefore <;> rw [hbefore] <;> decide)]
        exact hearly
    · exact (early_waits hearly hbefore hframes hkill).1
  · exact absurd hmain (late_move hbefore m)

variable [DecidableEq P]

/-- What holds of all daemons before their actors are started. -/
theorem early_run (acts : List (P × Move)) {w : World P}
    (hfd : ∀ p, HoldsFd w.shared p (w.daemons p))
    (hearly : ∀ p, (w.daemons p).main = .created ∨ (w.daemons p).main = .locked →
      Early (w.daemons p)) :
    (∀ p, HoldsFd (run World.step w acts).shared p ((run World.step w acts).daemons p)) ∧
    ∀ p, ((run World.step w acts).daemons p).main = .created ∨
        ((run World.step w acts).daemons p).main = .locked →
      Early ((run World.step w acts).daemons p) := by
  induction acts generalizing w with
  | nil => exact ⟨hfd, hearly⟩
  | cons a acts ih =>
    refine ih (fd_step hfd a) fun p => ?_
    unfold World.step
    dsimp only
    by_cases hp : p = a.1
    · subst hp
      rw [Function.update_self]
      exact early_move (hearly a.1) a.2
    · rw [Function.update_of_ne hp]
      exact hearly p

/-- A daemon that waits goes on waiting. -/
theorem waits_run (more : List (P × Move)) {w : World P} {p : P}
    (hmain : (w.daemons p).main = .created ∨ (w.daemons p).main = .locked)
    (hearly : Early (w.daemons p)) (hframes : (w.daemons p).frames ≠ [])
    (hkill : (p, Move.kill) ∉ more) :
    Early ((run World.step w more).daemons p) ∧ ((run World.step w more).daemons p).frames ≠ [] ∧
      ((run World.step w more).daemons p).main = (w.daemons p).main := by
  induction more generalizing w with
  | nil => exact ⟨hearly, hframes, rfl⟩
  | cons a more ih =>
    obtain ⟨ha, hmore⟩ := not_or.mp (mt List.mem_cons.mpr hkill)
    have hstep : Early ((w.step a).daemons p) ∧ ((w.step a).daemons p).frames ≠ [] ∧
        ((w.step a).daemons p).main = (w.daemons p).main := by
      unfold World.step
      dsimp only
      by_cases hp : p = a.1
      · subst hp
        rw [Function.update_self]
        exact early_waits hearly hmain hframes fun heq => ha (Prod.ext rfl heq.symm)
      · rw [Function.update_of_ne hp]
        exact ⟨hearly, hframes, rfl⟩
    obtain ⟨hearly', hframes', hmain'⟩ := hstep
    obtain ⟨hfinal, hopen, heq⟩ := ih (hmain' ▸ hmain) hearly' hframes' hmore
    exact ⟨hfinal, hopen, heq.trans hmain'⟩

/-- A signal that arrives before the session actor is started is never done:
its shutdown waits for a thread that there is not. In whatever order all
daemons go on, this one stays where it is until it is killed; and when it has
the lock, it keeps it, and no other daemon gets it. -/
theorem signal_waits (acts more : List (P × Move)) {p : P}
    (hmain : ((run World.step World.start acts).daemons p).main = .created ∨
      ((run World.step World.start acts).daemons p).main = .locked)
    (hkill : (p, Move.kill) ∉ more) :
    ((run World.step World.start (acts ++ (p, .signal) :: more)).daemons p).main =
        ((run World.step World.start acts).daemons p).main ∧
      ((run World.step World.start (acts ++ (p, .signal) :: more)).daemons p).frames ≠ [] ∧
      (((run World.step World.start acts).daemons p).main = .locked →
        (run World.step World.start (acts ++ (p, .signal) :: more)).shared.lock = some p ∧
        ∀ q ≠ p,
          ((run World.step World.start (acts ++ (p, .signal) :: more)).daemons q).lockFd =
            false) := by
  have hstart : ∀ p : P, HoldsFd (World.start : World P).shared p
      ((World.start : World P).daemons p) := owned_start.fd
  have hnew : ∀ p : P, ((World.start : World P).daemons p).main = .created ∨
      ((World.start : World P).daemons p).main = .locked →
        Early ((World.start : World P).daemons p) :=
    fun _ _ => ⟨rfl, rfl, rfl, fun _ h => absurd h List.not_mem_nil,
      fun h => absurd h Bool.false_ne_true, fun h => by cases h⟩
  have hbefore := (early_run acts hstart hnew).2 p hmain
  have hall := (early_run (acts ++ (p, .signal) :: more) hstart hnew).1
  have hsplit : run World.step World.start (acts ++ (p, .signal) :: more) =
      run World.step ((run World.step World.start acts).step (p, .signal)) more := by
    unfold run
    rw [List.foldl_append]
    rfl
  rw [hsplit] at hall ⊢
  generalize run World.step World.start acts = w at hmain hbefore hall ⊢
  -- the signal starts a shutdown on the main thread
  have hsignal : (w.step (p, .signal)).daemons p =
      { w.daemons p with frames := .check :: (w.daemons p).frames } := by
    have halive : (w.daemons p).main ≠ .gone := by
      rcases hmain with hmain | hmain <;> rw [hmain] <;> decide
    unfold World.step
    dsimp only
    rw [Function.update_self]
    unfold move
    dsimp only
    rw [if_neg halive]
  have hearly : Early ((w.step (p, .signal)).daemons p) := by
    rw [hsignal]
    refine ⟨hbefore.actor, hbefore.stopped, hbefore.serverSock,
      List.forall_mem_cons.mpr ⟨.inl rfl, hbefore.frames⟩, fun hset => ?_, hbefore.locked⟩
    obtain ⟨pc, hin, hpc⟩ := hbefore.shutdown hset
    exact ⟨pc, List.mem_cons_of_mem _ hin, hpc⟩
  have hmain' : ((w.step (p, .signal)).daemons p).main = (w.daemons p).main := by
    rw [hsignal]
  have hframes : ((w.step (p, .signal)).daemons p).frames ≠ [] := by
    rw [hsignal]
    exact List.cons_ne_nil _ _
  obtain ⟨hfinal, hopen, heq⟩ := waits_run more (hmain'.symm ▸ hmain) hearly hframes hkill
  refine ⟨heq.trans hmain', hopen, fun hlocked => ?_⟩
  have hlock := (hall p).mp (hfinal.locked ((heq.trans hmain').trans hlocked))
  refine ⟨hlock, fun q hq => Bool.eq_false_iff.mpr fun hfd => hq ?_⟩
  exact Option.some.inj (((hall q).mp hfd).symm.trans hlock)

/-- The first daemon is interrupted as soon as it has the lock. -/
theorem signal_waits_second :
    (run World.step World.start ([(true, .main true)] ++ (true, .signal) ::
        [(true, .frame true), (false, .main true), (true, .main true)])).shared.lock =
      some true :=
  ((signal_waits [(true, .main true)] [(true, .frame true), (false, .main true),
    (true, .main true)] (.inr (by decide)) (by decide)).2.2 (by decide)).1

end Early

end Tyo3.DaemonOwnership
