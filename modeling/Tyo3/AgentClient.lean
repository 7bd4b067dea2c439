import Tyo3.JsonValues
import Mathlib.Data.Finset.Basic
import Mathlib.Data.Finset.Insert
import Mathlib.Logic.Function.Basic

/-!
# The agent client

Several threads call the daemon over one connection. A request takes an id,
registers it, sends its frame and waits; the reader thread of a connection
files the response frames under the registered ids. `close` and `reconnect`
write the same fields without taking the locks of the others. All of this is
taken apart into atomic steps that may follow each other in any order, and
the daemon may answer any frame it has received at any time.
-/

namespace Tyo3.AgentClient

open JsonValues

/-! ## Failures -/

/-- What an engine error carries. -/
structure EngineError where
  /-- The message of the daemon, absent where the default text is used. -/
  message : Option Json
  /-- The name of the error. -/
  errorType : String
  /-- The method of the request. -/
  method : String
  /-- The error code. -/
  code : Option Json
  /-- Further data. -/
  data : Option Json

/-- What a request may raise. -/
inductive Failure
  | agentError (method : String) (error : Json)
  | daemonUnavailable (message : String)
  | requestTimeout (method : String)
  | engineError (error : EngineError)
  | revisionEvicted (error : EngineError)
  | sessionClosed (error : EngineError)
  /-- Not one of the client's own exceptions. -/
  | attributeError (message : String)
  /-- Not one of the client's own exceptions. -/
  | keyError (key : ℕ)

/-- The exception is an `AgentError`. -/
def Failure.isAgentError : Failure → Bool
  | .attributeError _ => false
  | .keyError _ => false
  | _ => true

/-- A value that Python reads as an integer. -/
def isInt : Json → Bool
  | .nat _ => true
  | .bool _ => true
  | .real text => (text.toList.dropWhile (· = '-')).all Char.isDigit
  | _ => false

/-- The exception of an error response. -/
def raiseRpcError (method : String) : Json → Failure
  | .obj fields =>
    let data := fields.lookup "data"
    let errorType := (data.bind fun d => (d.index "error_type").asStr).getD "UnknownEngineError"
    let error : EngineError :=
      { message := fields.lookup "message", errorType := errorType, method := method,
        code := (fields.lookup "code").filter isInt, data := data }
    if errorType = "RevisionEvictedError" ∨ errorType = "RevisionEvicted" then
      .revisionEvicted error
    else if errorType = "ProjectClosedError" ∨ errorType = "SessionClosed" then
      .sessionClosed error
    else .engineError error
  | error => .agentError method error

theorem raiseRpcError_isAgentError (method : String) (error : Json) :
    (raiseRpcError method error).isAgentError = true := by
  cases error with
  | obj fields =>
    simp only [raiseRpcError]
    split_ifs <;> rfl
  | _ => rfl

/-! ## Requests, frames and threads -/

/-- A frame that a request has sent. -/
structure Sent where
  /-- The call that sent it. -/
  caller : ℕ
  /-- The id in it. -/
  id : ℕ
  /-- The connection it went over. -/
  conn : ℕ
  deriving DecidableEq

/-- The body of a response. -/
structure Body where
  /-- The `error` field. -/
  error : Option Json
  /-- The `result` field. -/
  result : Option Json

/-- A response frame. It carries the id of the frame it answers, and it goes
over the connection of that frame. -/
structure Frame where
  /-- Its number among all response frames. -/
  number : ℕ
  /-- The frame it answers. -/
  request : Sent
  /-- The rest. -/
  body : Body

/-- How a request ended. -/
inductive Outcome
  /-- It returned the result of a response. -/
  | returned (frame : Frame) (result : Json)
  /-- It raised the error of a response. -/
  | refused (frame : Frame) (failure : Failure)
  /-- It raised without a response. -/
  | raised (failure : Failure)

/-- The response frame that an outcome is made from. -/
def Outcome.frame : Outcome → Option Frame
  | .returned frame _ => some frame
  | .refused frame _ => some frame
  | .raised _ => none

/-- A call of `_request`. -/
inductive Caller
  /-- Not yet made. -/
  | idle
  /-- Past the check that the client is open. -/
  | checked (method : String)
  /-- Its id is registered, its frame is not sent. -/
  | registered (method : String) (id : ℕ)
  /-- Its frame is sent. -/
  | waiting (method : String) (id : ℕ)
  /-- It has found its response and holds the lock of the tables. -/
  | found (method : String) (id : ℕ)
  /-- It has ended. -/
  | finished (id : Option ℕ) (outcome : Outcome)

/-- The reader thread of a connection. -/
inductive Reader
  /-- Not yet started. -/
  | idle
  /-- Started, without a stream. -/
  | starting
  /-- Reads the stream of a connection. -/
  | reading (conn : ℕ)
  /-- Ended. -/
  | ended

/-- Who holds the lock of the tables, and where it is. -/
inductive Holder
  /-- A call that has found its response. -/
  | caller (n : ℕ)
  /-- A reader thread that has seen that the id of a frame is registered. -/
  | storing (t : ℕ) (frame : Frame)
  /-- A reader thread that has stored a frame. -/
  | discarding (t : ℕ) (frame : Frame)

/-- One write of `close` or `reconnect`. -/
inductive Op
  | closeCheck | setClosed | dropSock | dropReader | clearClosed | clearResponses | clearPending
  | installSock | installReader | clearDead | spawn
  deriving DecidableEq

/-- A thread inside `close` or `reconnect`. -/
structure Control where
  /-- What it has still to do. -/
  ops : List Op
  /-- The connection it has made. -/
  conn : ℕ

/-- The writes of `close`. -/
def closeOps : List Op := [.closeCheck, .setClosed, .dropSock, .dropReader]

/-- The writes of a new connection. -/
def connectOps : List Op := [.installSock, .installReader, .clearClosed, .clearDead, .spawn]

/-- The writes of `reconnect`, up to its first request. -/
def reconnectOps : List Op :=
  closeOps ++ [.clearClosed, .clearResponses, .clearPending] ++ connectOps

/-- The client with every thread that uses it. -/
structure Client where
  /-- `_closed`. -/
  closed : Bool
  /-- `_transport_dead`. -/
  dead : Bool
  /-- `_sock`: the number of a connection. -/
  sock : Option ℕ
  /-- `_reader`: the number of a connection. -/
  reader : Option ℕ
  /-- How many connections were made. -/
  connections : ℕ
  /-- `_next_id`. -/
  nextId : ℕ
  /-- `_pending`. -/
  pending : Finset ℕ
  /-- `_responses`. -/
  responses : ℕ → Option Frame
  /-- The call that holds the write lock. -/
  writer : Option ℕ
  /-- Who holds the lock of the tables. -/
  holder : Option Holder
  /-- The calls. -/
  callers : ℕ → Caller
  /-- The reader threads, by connection. -/
  readers : ℕ → Reader
  /-- The threads inside `close` or `reconnect`. -/
  controls : ℕ → Control
  /-- Every frame sent. -/
  sent : List Sent
  /-- Every response frame of the daemon. -/
  frames : List Frame
  /-- Numbers of the response frames that have arrived. -/
  seen : Finset ℕ
  /-- Those of them whose id was registered. -/
  accepted : Finset ℕ
  /-- Those that came after their request timed out or after a reconnect. -/
  late : Finset ℕ

/-- A client whose constructor is about to connect. -/
def Client.new : Client where
  closed := false
  dead := false
  sock := none
  reader := none
  connections := 0
  nextId := 0
  pending := ∅
  responses _ := none
  writer := none
  holder := none
  callers _ := .idle
  readers _ := .idle
  controls := Function.update (fun _ => ⟨[], 0⟩) 0 ⟨connectOps, 0⟩
  sent := []
  frames := []
  seen := ∅
  accepted := ∅
  late := ∅

/-! ## Steps -/

/-- The client with one call moved on. -/
def Client.setCaller (s : Client) (n : ℕ) (caller : Caller) : Client :=
  { s with callers := Function.update s.callers n caller }

/-- The client with one reader moved on. -/
def Client.setReader (s : Client) (t : ℕ) (reader : Reader) : Client :=
  { s with readers := Function.update s.readers t reader }

/-- A request checks that the client is open. -/
def check (s : Client) (n : ℕ) (method : String) : Client :=
  match s.callers n with
  | .idle =>
    if s.closed || s.sock.isNone then
      s.setCaller n (.finished none
        (.raised (.daemonUnavailable "TyO3 daemon connection is closed")))
    else s.setCaller n (.checked method)
  | _ => s

/-- A request takes the write lock and an id, and registers the id. -/
def register (s : Client) (n : ℕ) : Client :=
  match s.callers n, s.writer with
  | .checked method, none =>
    { s.setCaller n (.registered method (s.nextId + 1)) with
      writer := some n, nextId := s.nextId + 1, pending := insert (s.nextId + 1) s.pending }
  | _, _ => s

/-- A request sends its frame, or the operating system refuses. -/
def send (s : Client) (n : ℕ) (error : Option String) : Client :=
  match s.callers n with
  | .registered method id =>
    match s.sock, error with
    | none, _ =>
      { s.setCaller n (.finished (some id)
          (.raised (.attributeError "'NoneType' object has no attribute 'sendall'"))) with
        writer := none }
    | some c, none =>
      { s.setCaller n (.waiting method id) with
        writer := none, sent := s.sent ++ [⟨n, id, c⟩] }
    | some _, some text =>
      { s.setCaller n (.finished (some id) (.raised (.daemonUnavailable
          ("lost connection while sending " ++ method ++ ": " ++ text)))) with
        writer := none, pending := s.pending.erase id }
  | _ => s

/-- A request looks for its response, once around the loop. -/
def wait (s : Client) (n : ℕ) (timedOut : Bool) : Client :=
  match s.callers n, s.holder with
  | .waiting method id, none =>
    if (s.responses id).isSome then
      { s.setCaller n (.found method id) with holder := some (.caller n) }
    else if timedOut then
      { s.setCaller n (.finished (some id) (.raised (.requestTimeout method))) with
        pending := s.pending.erase id }
    else if s.closed || s.dead then
      { s.setCaller n (.finished (some id) (.raised (.daemonUnavailable
          ("lost connection while waiting for " ++ method)))) with
        pending := s.pending.erase id }
    else s
  | _, _ => s

/-- How a request ends on a response. -/
def outcomeOf (method : String) (frame : Frame) : Outcome :=
  match frame.body.error with
  | some error => .refused frame (raiseRpcError method error)
  | none => .returned frame (frame.body.result.getD .null)

/-- A request takes its response out. -/
def pop (s : Client) (n : ℕ) : Client :=
  match s.callers n with
  | .found method id =>
    match s.responses id with
    | some frame =>
      { s.setCaller n (.finished (some id) (outcomeOf method frame)) with
        holder := none, responses := Function.update s.responses id none }
    | none =>
      { s.setCaller n (.finished (some id) (.raised (.keyError id))) with holder := none }
  | _ => s

/-- The daemon answers a frame it has received. -/
def answer (s : Client) (request : Sent) (body : Body) : Client :=
  if request ∈ s.sent then { s with frames := s.frames ++ [⟨s.frames.length, request, body⟩] }
  else s

/-- A reader thread picks up the stream of the client. -/
def readerStart (s : Client) (t : ℕ) : Client :=
  match s.readers t with
  | .starting =>
    match s.reader with
    | some c => s.setReader t (.reading c)
    | none => s.setReader t .ended
  | _ => s

/-- The request ended by its deadline. -/
def Caller.timedOut : Caller → Bool
  | .finished _ (.raised (.requestTimeout _)) => true
  | _ => false

/-- A response comes late when its request has timed out or a connection was
made since its request was sent. -/
def Client.isLate (s : Client) (frame : Frame) : Bool :=
  (s.callers frame.request.caller).timedOut || frame.request.conn != s.connections

/-- A response frame has arrived. -/
def Client.arrive (s : Client) (frame : Frame) : Client :=
  { s with seen := insert frame.number s.seen,
           late := if s.isLate frame then insert frame.number s.late else s.late }

/-- A reader thread reads a response frame and looks its id up. -/
def look (s : Client) (t k : ℕ) : Client :=
  match s.readers t, s.holder, s.frames[k]? with
  | .reading c, none, some frame =>
    if frame.request.conn = c ∧ frame.number ∉ s.seen then
      if frame.request.id ∈ s.pending then
        { s.arrive frame with
          accepted := insert frame.number s.accepted, holder := some (.storing t frame) }
      else s.arrive frame
    else s
  | _, _, _ => s

/-- The reader thread that holds the lock stores its frame. -/
def store (s : Client) : Client :=
  match s.holder with
  | some (.storing t frame) =>
    { s with holder := some (.discarding t frame),
             responses := Function.update s.responses frame.request.id (some frame) }
  | _ => s

/-- The reader thread that holds the lock takes the id of its frame from the
registered ones. -/
def discard (s : Client) : Client :=
  match s.holder with
  | some (.discarding _ frame) =>
    { s with holder := none, pending := s.pending.erase frame.request.id }
  | _ => s

/-- A reader thread finds its stream closed. -/
def readerEnd (s : Client) (t : ℕ) : Client :=
  match s.readers t, s.holder with
  | .reading c, none =>
    { s.setReader t .ended with dead := s.dead || decide (s.reader = some c) }
  | _, _ => s

/-- The client with a thread inside `close` or `reconnect` moved on. -/
def Client.setControl (s : Client) (i : ℕ) (control : Control) : Client :=
  { s with controls := Function.update s.controls i control }

/-- A thread calls `close` or `reconnect`. -/
def begin (s : Client) (i : ℕ) (ops : List Op) : Client :=
  if (s.controls i).ops = [] then s.setControl i ⟨ops, 0⟩ else s

/-- A thread inside `close` or `reconnect` makes its next write. -/
def control (s : Client) (i : ℕ) : Client :=
  let conn := (s.controls i).conn
  match (s.controls i).ops with
  | [] => s
  | .closeCheck :: rest =>
    -- `close` returns at once when the client is closed
    s.setControl i ⟨if s.closed then rest.drop 3 else rest, conn⟩
  | .setClosed :: rest => { s.setControl i ⟨rest, conn⟩ with closed := true }
  | .dropSock :: rest => { s.setControl i ⟨rest, conn⟩ with sock := none }
  | .dropReader :: rest => { s.setControl i ⟨rest, conn⟩ with reader := none }
  | .clearClosed :: rest => { s.setControl i ⟨rest, conn⟩ with closed := false }
  | .clearResponses :: rest => { s.setControl i ⟨rest, conn⟩ with responses := fun _ => none }
  | .clearPending :: rest => { s.setControl i ⟨rest, conn⟩ with pending := ∅ }
  | .installSock :: rest =>
    { s.setControl i ⟨rest, s.connections + 1⟩ with
      sock := some (s.connections + 1), connections := s.connections + 1 }
  | .installReader :: rest => { s.setControl i ⟨rest, conn⟩ with reader := some conn }
  | .clearDead :: rest => { s.setControl i ⟨rest, conn⟩ with dead := false }
  | .spawn :: rest => (s.setReader conn .starting).setControl i ⟨rest, conn⟩

/-- A connection cannot be made, and the thread gives up. -/
def abort (s : Client) (i : ℕ) : Client :=
  match (s.controls i).ops with
  | .installSock :: _ => s.setControl i ⟨[], (s.controls i).conn⟩
  | _ => s

/-- What happens next. -/
inductive Act
  | request (n : ℕ) (method : String)
  | register (n : ℕ)
  | send (n : ℕ) (error : Option String)
  | wait (n : ℕ) (timedOut : Bool)
  | pop (n : ℕ)
  | answer (request : Sent) (body : Body)
  | readerStart (t : ℕ)
  | look (t k : ℕ)
  | store
  | discard
  | readerEnd (t : ℕ)
  | close (i : ℕ)
  | reconnect (i : ℕ)
  | control (i : ℕ)
  | abort (i : ℕ)

/-- One step; a step that is not possible changes nothing. -/
def step (s : Client) : Act → Client
  | .request n method => check s n method
  | .register n => register s n
  | .send n error => send s n error
  | .wait n timedOut => wait s n timedOut
  | .pop n => pop s n
  | .answer request body => answer s request body
  | .readerStart t => readerStart s t
  | .look t k => look s t k
  | .store => store s
  | .discard => discard s
  | .readerEnd t => readerEnd s t
  | .close i => begin s i closeOps
  | .reconnect i => begin s i reconnectOps
  | .control i => control s i
  | .abort i => abort s i

end Tyo3.AgentClient
