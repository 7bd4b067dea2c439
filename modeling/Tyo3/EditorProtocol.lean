import Tyo3.EditorClient

/-!
# The editor and the daemon

The requests of the editor reach the daemon as a stream of bytes, which is read
in pieces and cut into lines. The daemon hands a request to a pool of workers,
so replies go back in any order, with notifications between them, and arrive in
pieces again. A request to subscribe with parameters that are no set ends the
connection. A callback that is called with an answer gets the one reply that
the daemon gave to the request of that callback.
-/

namespace Tyo3.EditorProtocol

open EditorClient FiniteMaps JsonValues LineFrames Runs

/-! ## Frames -/

/-- What the two sides use to write and read JSON. -/
structure Codecs where
  /-- The editor writes a value. -/
  luaEncode : Json → Bytes
  /-- The editor reads a line. -/
  luaDecode : Bytes → Option Json
  /-- The daemon writes a value. -/
  dumps : Json → Bytes
  /-- The daemon reads a line without the blanks around it. -/
  loads : Bytes → Except String Json
  /-- Whether there are only blanks in a line. -/
  isBlank : Bytes → Bool

/-- A value makes its way from the editor to the daemon on one line. -/
def Codecs.ToDaemon (c : Codecs) (value : Json) : Prop :=
  10 ∉ c.luaEncode value ∧ c.isBlank (c.luaEncode value) = false ∧
    c.loads (c.luaEncode value) = .ok value

/-- A value makes its way from the daemon to the editor on one line. -/
def Codecs.ToEditor (c : Codecs) (value : Json) : Prop :=
  10 ∉ c.dumps value ∧ c.luaDecode (c.dumps value) = some value

instance (c : Codecs) (value : Json) : Decidable (c.ToDaemon value) :=
  inferInstanceAs (Decidable (_ ∧ _ ∧ _))

instance (c : Codecs) (value : Json) : Decidable (c.ToEditor value) :=
  inferInstanceAs (Decidable (_ ∧ _))

/-- The value of a request. -/
def frameJson (frame : Frame Json) : Json :=
  .obj [("jsonrpc", .str "2.0"), ("id", .nat frame.1), ("method", .str frame.2.1),
    ("params", frame.2.2)]

/-- The value of a response. -/
def responseJson (id result : Json) : Json :=
  .obj [("jsonrpc", .str "2.0"), ("id", id), ("result", result)]

/-- The number of an error. -/
def codeJson (code : ℤ) : Json := if 0 ≤ code then .nat code.toNat else .real (toString code)

/-- What an error says. -/
structure Failure where
  /-- The number. -/
  code : ℤ
  /-- The message. -/
  message : String
  /-- Further data. -/
  data : Option Json

/-- The value of an error. -/
def errorJson (id : Json) (failure : Failure) : Json :=
  .obj [("jsonrpc", .str "2.0"), ("id", id), ("error", .obj ([("code", codeJson failure.code),
    ("message", .str failure.message)] ++ failure.data.toList.map (Prod.mk "data")))]

/-- The value of a notification. -/
def notificationJson (method : String) (params : Json) : Json :=
  .obj [("jsonrpc", .str "2.0"), ("method", .str method), ("params", params)]

/-- What the editor makes of a value. -/
def messageOf : Json → Option (Message Json)
  | .obj fields => some (match fields.lookup "id" with
    | some id => .response id.asU64 (fields.lookup "error").isSome
      (((fields.lookup "error").or (fields.lookup "result")).getD .null)
    | none => match fields.lookup "method" with
      | some method => .notification method ((fields.lookup "params").getD (.obj []))
      | none => .other)
  | .arr _ => some .other
  | _ => none

/-- What the editor makes of a line. -/
def decodeLine (c : Codecs) (line : Bytes) : Option (Message Json) :=
  (c.luaDecode line).bind messageOf

/-! ## Requests in the daemon -/

/-- A request as the daemon reads it. -/
structure Request where
  /-- The method. -/
  method : String
  /-- The fields of the parameters. -/
  params : List (String × Json)
  /-- The id, null for a notification. -/
  id : Json
  deriving DecidableEq

/-- The fields of parameters, none when they are not an object. -/
def paramsFields : Json → Option (List (String × Json))
  | .null => some []
  | .obj fields => some fields
  | _ => none

/-- The request with these parameters, or the error that they are none. -/
def withParams (id : Json) (method : String) :
    Option (List (String × Json)) → Except (Json × Failure) Request
  | some params => .ok ⟨method, params, id⟩
  | none => .error (id, ⟨-32602, "'params' must be an object", none⟩)

/-- Read a request from its value, or tell the error and the id it is for. -/
def parseObject : Json → Except (Json × Failure) Request
  | .obj fields =>
    let id := (fields.lookup "id").getD .null
    match fields.lookup "method" with
    | some (.str method) =>
      if method = "" then .error (id, ⟨-32600, "missing or invalid 'method'", none⟩)
      else withParams id method (paramsFields ((fields.lookup "params").getD (.obj [])))
    | _ => .error (id, ⟨-32600, "missing or invalid 'method'", none⟩)
  | _ => .error (.null, ⟨-32600, "request must be a JSON object", none⟩)

/-- Values that can be in a set: no lists and no objects. -/
def hashable : Json → Bool
  | .arr _ | .obj _ => false
  | _ => true

/-- Values that a set is made from: the characters of a text, the keys of an
object, and lists of values that can be in a set. -/
def makesSet : Json → Bool
  | .str _ | .obj _ => true
  | .arr items => items.all hashable
  | _ => false

/-- Whether these are the parameters of an interest: what it tells of files, ids
and layers makes sets. -/
def isInterest (params : List (String × Json)) : Bool :=
  ["files", "ids", "layers"].all fun field => ((params.lookup field).map makesSet).getD true

/-- What becomes of a line. -/
inductive Handled where
  /-- Nothing. -/
  | nothing
  /-- The exception is not caught, and the connection ends. -/
  | ends
  /-- It is answered at once. -/
  | reply (value reply : Json)
  /-- It is handed to the pool. -/
  | job (value : Json) (request : Request)

/-- Handle the value of a line. -/
def handleValue (value : Json) : Handled :=
  match parseObject value with
  | .error (id, failure) => .reply value (errorJson id failure)
  | .ok request =>
    if request.id = .null then .nothing
    else if request.method = "subscribe" then
      if isInterest request.params then
        .reply value (responseJson request.id (.obj [("ok", .bool true)]))
      else .ends
    else .job value request

/-- Handle a line. -/
def handleLine (c : Codecs) (line : Bytes) : Handled :=
  if c.isBlank line then .nothing
  else match c.loads line with
    | .error e => .reply .null (errorJson .null ⟨-32700, "parse error: " ++ e, none⟩)
    | .ok value => handleValue value

/-- The reply of a line that is answered at once. -/
def Handled.replied : Handled → Option (Json × Json)
  | .reply value answer => some (value, answer)
  | _ => none

/-- The job of a line that is handed to the pool. -/
def Handled.pooled : Handled → Option (Json × Request)
  | .job value request => some (value, request)
  | _ => none

/-- Whether the daemon goes on after a line. -/
def Handled.goesOn : Handled → Bool
  | .ends => false
  | _ => true

/-- The reply to a job. -/
def replyJson (request : Request) : Except Failure Json → Json
  | .ok result => responseJson request.id result
  | .error failure => errorJson request.id failure

/-! ## The two sides -/

/-- The editor and the daemon, with what is on its way between them. -/
structure System (κ : Type*) where
  /-- The client of the editor. -/
  client : Client κ Json
  /-- How many bytes of the requests the daemon has read. -/
  read : ℕ
  /-- The bytes of an open line in the daemon. -/
  buffer : Bytes
  /-- Whether the daemon serves the connection. -/
  serving : Bool
  /-- What the pool has to do, with the values of the requests. -/
  jobs : List (Json × Request)
  /-- The replies so far, with the values of the requests. -/
  answered : List (Json × Json)
  /-- The bytes that the daemon has sent. -/
  sent : Bytes
  /-- How many of them have arrived. -/
  delivered : ℕ

/-- Before anything happened. -/
def System.start {κ : Type*} : System κ := ⟨Client.new, 0, [], true, [], [], [], 0⟩

/-- What happens. -/
inductive Act (κ : Type*) where
  /-- Something happens in the editor. -/
  | editor (e : Event κ Json)
  /-- Bytes arrive in the editor. -/
  | arrive (n : ℕ)
  /-- The daemon reads bytes. -/
  | read (n : ℕ)
  /-- A worker ends a job. -/
  | finish (i : ℕ) (outcome : Except Failure Json)
  /-- A job, or its reply, is dropped. -/
  | drop (i : ℕ)
  /-- The daemon sends a notification. -/
  | notify (method : String) (params : Json)

section Steps

variable {κ : Type*} (c : Codecs) (iter : HashOrder ℕ)

/-- The bytes of values, each on a line. -/
def linesOf (write : Json → Bytes) (values : List Json) : Bytes :=
  ((values.map write).map (· ++ [10])).flatten

namespace System

/-- The bytes of the requests. -/
def stream (s : System κ) : Bytes := linesOf c.luaEncode (s.client.written.map frameJson)

/-- The next bytes of the requests. -/
def unread (s : System κ) (n : ℕ) : Bytes := ((s.stream c).drop s.read).take n

/-- What the daemon would make of the lines that the next bytes complete. -/
def lines (s : System κ) (n : ℕ) : List Handled :=
  (drain 10 (s.buffer ++ s.unread c n).length (s.buffer ++ s.unread c n)).1.map (handleLine c)

/-- What it makes of them until one ends the connection. -/
def handled (s : System κ) (n : ℕ) : List Handled := (s.lines c n).takeWhile Handled.goesOn

/-- The values that the daemon sends while it serves the connection. -/
def sends (s : System κ) (a : Act κ) : List Json :=
  if s.serving then
    match a with
    | .read n => ((s.handled c n).filterMap Handled.replied).map Prod.snd
    | .finish i outcome => (s.jobs[i]?).toList.map fun job => replyJson job.2 outcome
    | .notify method params => [notificationJson method params]
    | _ => []
  else []

/-- The client takes an event. -/
def tell (s : System κ) (e : Event κ Json) : System κ :=
  { s with client := s.client.step (decodeLine c) iter e }

/-- A worker ends a job. The reply goes nowhere when the connection has ended. -/
def finish (s : System κ) (i : ℕ) (outcome : Except Failure Json) : System κ :=
  { s with
    jobs := s.jobs.eraseIdx i
    answered := if s.serving then
      s.answered ++ (s.jobs[i]?).toList.map fun job => (job.1, replyJson job.2 outcome)
      else s.answered }

/-- The daemon reads bytes and handles the lines that they complete. -/
def readOn (s : System κ) (n : ℕ) : System κ :=
  { s with
    read := s.read + (s.unread c n).length
    buffer := (drain 10 (s.buffer ++ s.unread c n).length (s.buffer ++ s.unread c n)).2
    serving := (s.lines c n).all Handled.goesOn
    jobs := s.jobs ++ (s.handled c n).filterMap Handled.pooled
    answered := s.answered ++ (s.handled c n).filterMap Handled.replied }

/-- What an act does besides sending. -/
def act (s : System κ) : Act κ → System κ
  | .editor (.data _) => s
  | .editor e => s.tell c iter e
  | .arrive n =>
    let chunk := (s.sent.drop s.delivered).take n
    { s.tell c iter (.data chunk) with delivered := s.delivered + chunk.length }
  | .read n => if s.serving then s.readOn c n else s
  | .finish i outcome => s.finish i outcome
  | .drop i => { s with jobs := s.jobs.eraseIdx i }
  | .notify _ _ => s

/-- The next state. -/
def step (s : System κ) (a : Act κ) : System κ :=
  { s.act c iter a with sent := s.sent ++ linesOf c.dumps (s.sends c a) }

/-- What is written in a step can be read on the other side. -/
def Spoken (s : System κ) (a : Act κ) : Prop :=
  (∀ frame ∈ (s.step c iter a).client.written, c.ToDaemon (frameJson frame)) ∧
    ∀ value ∈ s.sends c a, c.ToEditor value

instance (s : System κ) (a : Act κ) : Decidable (s.Spoken c iter a) :=
  inferInstanceAs (Decidable (_ ∧ _))

end System

/-! ## Lines of values -/

variable {c iter}

theorem linesOf_append (write : Json → Bytes) (vs ws : List Json) :
    linesOf write (vs ++ ws) = linesOf write vs ++ linesOf write ws := by
  unfold linesOf
  rw [List.map_append, List.map_append, List.flatten_append]

/-- Lines of values come out as they were written. -/
theorem split_linesOf {write : Json → Bytes} {values : List Json}
    (h : ∀ value ∈ values, 10 ∉ write value) :
    split 10 (linesOf write values) = (values.map write, []) := by
  have hlines : ∀ line ∈ values.map write, (10 : UInt8) ∉ line := by
    intro line hline
    obtain ⟨value, hvalue, rfl⟩ := List.mem_map.mp hline
    exact h value hvalue
  have hsplit := split_terminated hlines []
  rw [List.append_nil] at hsplit
  exact hsplit.trans (by rw [show split 10 ([] : Bytes) = ([], []) from rfl, List.append_nil])

/-- The first bytes of lines of values give the first lines. -/
theorem split_take_linesOf {write : Json → Bytes} {values : List Json}
    (h : ∀ value ∈ values, 10 ∉ write value) (n : ℕ) :
    (split 10 ((linesOf write values).take n)).1 <+: values.map write := by
  have hbegin := @split_le UInt8 _ 10 ((linesOf write values).take n)
    ((linesOf write values).drop n)
  rw [List.take_append_drop, split_linesOf h] at hbegin
  exact hbegin

/-! ## Requests and their replies -/

/-- A frame is found by its value. -/
theorem frameJson_injective : Function.Injective frameJson := by
  rintro ⟨id, method, params⟩ ⟨id', method', params'⟩ h
  simp only [frameJson, Json.obj.injEq, List.cons.injEq, Prod.mk.injEq, Json.nat.injEq,
    Json.str.injEq, true_and, and_true] at h
  obtain ⟨hid, hmethod, hparams⟩ := h
  rw [hid, hmethod, hparams]

/-- What is known of a reply: it tells the id of the request. -/
def Answers (value reply : Json) : Prop :=
  ∀ id failed outcome, messageOf reply = some (.response (some id) failed outcome) →
    value.index "id" = .nat id

theorem asU64_eq_some {value : Json} {n : ℕ} (h : value.asU64 = some n) : value = .nat n := by
  cases value with
  | nat m => rw [Option.some.inj h]
  | _ => cases h

/-- A reply that carries the id of a request answers it. -/
theorem answers_of_message {value reply : Json} {failed : Bool} {outcome : Json}
    (h : messageOf reply = some (.response (value.index "id").asU64 failed outcome)) :
    Answers value reply := by
  intro id failed' outcome' hmessage
  rw [h] at hmessage
  injection hmessage with hmessage
  injection hmessage with hid
  exact asU64_eq_some hid

theorem answers_error (value : Json) (failure : Failure) :
    Answers value (errorJson (value.index "id") failure) := answers_of_message rfl

theorem answers_response (value result : Json) :
    Answers value (responseJson (value.index "id") result) := answers_of_message rfl

/-- What is known of a job: it has the id of its request. -/
def Owned (job : Json × Request) : Prop := job.2.id = job.1.index "id"

theorem answers_reply {job : Json × Request} (h : Owned job) (outcome : Except Failure Json) :
    Answers job.1 (replyJson job.2 outcome) := by
  unfold Owned at h
  cases outcome with
  | ok result =>
    rw [replyJson, h]
    exact answers_response job.1 result
  | error failure =>
    rw [replyJson, h]
    exact answers_error job.1 failure

/-- A request is answered at once or handed to the pool, or it ends the
connection. -/
inductive Taken (value : Json) : Handled → Prop where
  /-- Nothing comes after it. -/
  | ends : Taken value .ends
  /-- The answer is for the request. -/
  | replied (reply : Json) (h : Answers value reply) : Taken value (.reply value reply)
  /-- The job is the request. -/
  | pooled (request : Request) (h : Owned (value, request)) : Taken value (.job value request)

/-- The value of a frame is taken as a request. -/
theorem taken_frame (frame : Frame Json) :
    Taken (frameJson frame) (handleValue (frameJson frame)) := by
  obtain ⟨id, method, params⟩ := frame
  have herror := answers_error (frameJson (id, method, params))
  unfold handleValue
  by_cases hmethod : method = ""
  · have hparse : parseObject (frameJson (id, method, params)) =
        .error (.nat id, ⟨-32600, "missing or invalid 'method'", none⟩) := if_pos hmethod
    rw [hparse]
    exact .replied _ (herror _)
  · have hparse : parseObject (frameJson (id, method, params)) =
        withParams (.nat id) method (paramsFields params) := if_neg hmethod
    rw [hparse]
    cases paramsFields params with
    | none => exact .replied _ (herror _)
    | some fields =>
      dsimp only [withParams]
      rw [if_neg (fun h => by cases h)]
      split
      · split
        · exact .replied _ (answers_response (frameJson (id, method, params)) _)
        · exact .ends
      · exact .pooled _ rfl

/-- The line of a frame is taken as a request. -/
theorem taken_line {frame : Frame Json} (h : c.ToDaemon (frameJson frame)) :
    Taken (frameJson frame) (handleLine c (c.luaEncode (frameJson frame))) := by
  obtain ⟨-, hblank, hloads⟩ := h
  unfold handleLine
  rw [hblank, hloads]
  exact taken_frame frame

/-- Every one of some requests is answered or handed to the pool once, up to
one that ends the connection. -/
theorem taken_all {values : List Json} {lines : List Handled}
    (h : List.Forall₂ Taken values lines) :
    (((lines.takeWhile Handled.goesOn).filterMap Handled.pooled).map Prod.fst : Multiset Json) +
      (((lines.takeWhile Handled.goesOn).filterMap Handled.replied).map Prod.fst :
        Multiset Json) ≤ values ∧
    (∀ job ∈ (lines.takeWhile Handled.goesOn).filterMap Handled.pooled, Owned job) ∧
    ∀ p ∈ (lines.takeWhile Handled.goesOn).filterMap Handled.replied, Answers p.1 p.2 := by
  have hnone : ((([] : List Handled).filterMap Handled.pooled).map Prod.fst : Multiset Json) +
      ((([] : List Handled).filterMap Handled.replied).map Prod.fst : Multiset Json) = 0 := rfl
  induction h with
  | nil => exact ⟨hnone.le, fun job hjob => absurd hjob List.not_mem_nil,
      fun p hp => absurd hp List.not_mem_nil⟩
  | @cons value first values lines htaken _ ih =>
    obtain ⟨hcount, hjobs, hreplies⟩ := ih
    rw [← Multiset.cons_coe]
    cases htaken with
    | ends =>
      exact ⟨hnone.trans_le (Multiset.zero_le _), fun job hjob => absurd hjob List.not_mem_nil,
        fun p hp => absurd hp List.not_mem_nil⟩
    | replied answer hanswer =>
      have hgoes : Handled.goesOn (.reply value answer) = true := rfl
      have hpooled : Handled.pooled (.reply value answer) = none := rfl
      have hreplied : Handled.replied (.reply value answer) = some (value, answer) := rfl
      rw [List.takeWhile_cons_of_pos hgoes, List.filterMap_cons_none hpooled,
        List.filterMap_cons_some hreplied, List.map_cons, ← Multiset.cons_coe, Multiset.add_cons]
      refine ⟨Multiset.cons_le_cons value hcount, hjobs, fun p hp => ?_⟩
      rcases List.mem_cons.mp hp with rfl | hp
      · exact hanswer
      · exact hreplies p hp
    | pooled request howned =>
      have hgoes : Handled.goesOn (.job value request) = true := rfl
      have hpooled : Handled.pooled (.job value request) = some (value, request) := rfl
      have hreplied : Handled.replied (.job value request) = none := rfl
      rw [List.takeWhile_cons_of_pos hgoes, List.filterMap_cons_some hpooled,
        List.filterMap_cons_none hreplied, List.map_cons, ← Multiset.cons_coe, Multiset.cons_add]
      refine ⟨Multiset.cons_le_cons value hcount, fun job hjob => ?_, hreplies⟩
      rcases List.mem_cons.mp hjob with rfl | hjob
      · exact howned
      · exact hjobs job hjob

/-- A job that is taken out and the jobs that are left are the jobs. -/
theorem erase_job (jobs : List (Json × Request)) (i : ℕ) :
    ((jobs.eraseIdx i).map Prod.fst : Multiset Json) + ((jobs[i]?).toList.map Prod.fst) =
      jobs.map Prod.fst := by
  rcases lt_or_ge i jobs.length with hi | hi
  · rw [List.getElem?_eq_getElem hi, Option.toList_some, List.map_singleton, Multiset.coe_singleton,
      add_comm, Multiset.singleton_add, Multiset.cons_coe, ← List.map_cons]
    exact Multiset.coe_eq_coe.mpr ((List.getElem_cons_eraseIdx_perm hi).map Prod.fst)
  · rw [List.getElem?_eq_none hi, List.eraseIdx_of_length_le hi]
    exact add_zero _

/-! ## What the daemon has read -/

/-- The lines that the daemon has read are those of the first requests; each
of these waits in the pool, is answered or was dropped. -/
structure Reader (c : Codecs) (written : List (Frame Json)) (read : ℕ) (buffer : Bytes)
    (jobs : List (Json × Request)) (answered : List (Json × Json)) : Prop where
  /-- The daemon reads what was written. -/
  enough : read ≤ (linesOf c.luaEncode (written.map frameJson)).length
  /-- The open line is what follows the last complete one. -/
  buffer : buffer = (split 10 ((linesOf c.luaEncode (written.map frameJson)).take read)).2
  /-- Requests are taken once. -/
  taken : ∃ frames, frames <+: written ∧
    (split 10 ((linesOf c.luaEncode (written.map frameJson)).take read)).1 =
      frames.map (fun frame => c.luaEncode (frameJson frame)) ∧
    (jobs.map Prod.fst : Multiset Json) + (answered.map Prod.fst : Multiset Json) ≤
      (frames.map frameJson : Multiset Json)
  /-- Jobs have the ids of their requests. -/
  jobs : ∀ job ∈ jobs, Owned job

namespace Reader

variable {written : List (Frame Json)} {read : ℕ} {buffer : Bytes} {jobs : List (Json × Request)}
  {answered : List (Json × Json)}

theorem start : Reader c [] 0 [] [] [] where
  enough := Nat.zero_le _
  buffer := rfl
  taken := ⟨[], List.prefix_rfl, rfl, Multiset.zero_le _⟩
  jobs _ h := absurd h List.not_mem_nil

/-- More requests may be written. -/
theorem grow (h : Reader c written read buffer jobs answered) {written' : List (Frame Json)}
    (hmore : written <+: written') : Reader c written' read buffer jobs answered := by
  obtain ⟨more, rfl⟩ := hmore
  have hstream : (linesOf c.luaEncode ((written ++ more).map frameJson)).take read =
      (linesOf c.luaEncode (written.map frameJson)).take read := by
    rw [List.map_append, linesOf_append, List.take_append_of_le_length h.enough]
  refine ⟨?_, ?_, ?_, h.jobs⟩
  · rw [List.map_append, linesOf_append, List.length_append]
    exact h.enough.trans (Nat.le_add_right _ _)
  · rw [hstream]
    exact h.buffer
  · obtain ⟨frames, hframes, hlines, hcount⟩ := h.taken
    rw [hstream]
    exact ⟨frames, hframes.trans (List.prefix_append _ _), hlines, hcount⟩

/-- A job leaves the pool, answered or not. -/
theorem leave (h : Reader c written read buffer jobs answered) {jobs' : List (Json × Request)}
    {answered' : List (Json × Json)} (hsub : jobs' ⊆ jobs)
    (hcount : (jobs'.map Prod.fst : Multiset Json) + (answered'.map Prod.fst : Multiset Json) ≤
      (jobs.map Prod.fst : Multiset Json) + (answered.map Prod.fst : Multiset Json)) :
    Reader c written read buffer jobs' answered' := by
  refine ⟨h.enough, h.buffer, ?_, fun job hjob => h.jobs job (hsub hjob)⟩
  obtain ⟨frames, hframes, hlines, hle⟩ := h.taken
  exact ⟨frames, hframes, hlines, hcount.trans hle⟩

/-- The daemon reads on. -/
theorem more (h : Reader c written read buffer jobs answered)
    (hframes : ∀ frame ∈ written, c.ToDaemon (frameJson frame)) {piece : Bytes}
    (hpiece : piece <+: (linesOf c.luaEncode (written.map frameJson)).drop read)
    {lines : List Handled} (hread : lines = (split 10 (buffer ++ piece)).1.map (handleLine c)) :
    Reader c written (read + piece.length) (split 10 (buffer ++ piece)).2
      (jobs ++ (lines.takeWhile Handled.goesOn).filterMap Handled.pooled)
      (answered ++ (lines.takeWhile Handled.goesOn).filterMap Handled.replied) ∧
    ∀ p ∈ (lines.takeWhile Handled.goesOn).filterMap Handled.replied, Answers p.1 p.2 := by
  have hfree : ∀ value ∈ written.map frameJson, 10 ∉ c.luaEncode value := by
    intro value hvalue
    obtain ⟨frame, hframe, rfl⟩ := List.mem_map.mp hvalue
    exact (hframes frame hframe).1
  have htake : (linesOf c.luaEncode (written.map frameJson)).take (read + piece.length) =
      (linesOf c.luaEncode (written.map frameJson)).take read ++ piece := by
    rw [List.take_add, ← List.prefix_iff_eq_take.mp hpiece]
  have hsplit := @split_append UInt8 _ 10
    ((linesOf c.luaEncode (written.map frameJson)).take read) piece
  rw [← htake, ← h.buffer] at hsplit
  obtain ⟨frames, ⟨rest, rfl⟩, hlines, hcount⟩ := h.taken
  -- the new lines are those of the requests that follow
  have hbegin := split_take_linesOf hfree (read + piece.length)
  rw [hsplit, hlines, List.map_map, List.map_append] at hbegin
  obtain ⟨fresh, hfresh, hnew⟩ :=
    List.prefix_map_iff.mp ((List.prefix_append_right_inj _).mp hbegin)
  have htaken : List.Forall₂ Taken (fresh.map frameJson) lines := by
    rw [hread, hnew, List.map_map, List.forall₂_map_left_iff, List.forall₂_map_right_iff,
      List.forall₂_same]
    exact fun frame hframe =>
      taken_line (hframes frame (List.mem_append_right _ (hfresh.subset hframe)))
  obtain ⟨hboth, howned, hanswers⟩ := taken_all htaken
  refine ⟨⟨?_, ?_, ⟨frames ++ fresh, ?_, ?_, ?_⟩, fun job hjob => ?_⟩, hanswers⟩
  · have hlength := hpiece.length_le
    rw [List.length_drop] at hlength
    have henough := h.enough
    omega
  · rw [hsplit]
  · exact (List.prefix_append_right_inj frames).mpr hfresh
  · rw [hsplit, hlines, hnew, List.map_append]
    rfl
  · rw [List.map_append, List.map_append, List.map_append, ← Multiset.coe_add,
      ← Multiset.coe_add, ← Multiset.coe_add, add_add_add_comm]
    exact add_le_add hcount hboth
  · rcases List.mem_append.mp hjob with hold | hjob
    · exact h.jobs job hold
    · exact howned job hjob

end Reader

/-! ## What the daemon has sent -/

/-- Every response among the values that were sent is an answer to its
request. -/
def Sender (c : Codecs) (answered : List (Json × Json)) (sent : Bytes) : Prop :=
  ∃ values, sent = linesOf c.dumps values ∧ ∀ value ∈ values, c.ToEditor value ∧
    ∀ id failed outcome, messageOf value = some (.response (some id) failed outcome) →
      ∃ request, (request, value) ∈ answered ∧ request.index "id" = .nat id

/-- More is sent, and it is answers. -/
theorem Sender.more {answered answered' : List (Json × Json)} {sent : Bytes}
    (h : Sender c answered sent) (hsub : answered ⊆ answered') {fresh : List Json}
    (hread : ∀ value ∈ fresh, c.ToEditor value)
    (hfresh : ∀ value ∈ fresh, ∀ id failed outcome,
      messageOf value = some (.response (some id) failed outcome) →
        ∃ request, (request, value) ∈ answered' ∧ request.index "id" = .nat id) :
    Sender c answered' (sent ++ linesOf c.dumps fresh) := by
  obtain ⟨values, rfl, hvalues⟩ := h
  refine ⟨values ++ fresh, (linesOf_append _ _ _).symm, fun value hvalue => ?_⟩
  rcases List.mem_append.mp hvalue with hold | hnew
  · obtain ⟨htold, hanswer⟩ := hvalues value hold
    refine ⟨htold, fun id failed outcome hmessage => ?_⟩
    obtain ⟨request, hrequest, hid⟩ := hanswer id failed outcome hmessage
    exact ⟨request, hsub hrequest, hid⟩
  · exact ⟨hread value hnew, hfresh value hnew⟩

/-! ## What the editor has received -/

/-- The editor has seen the first bytes of the daemon, and its own requests. -/
def Receiver (c : Codecs) (acts : List (Act κ)) (client : Client κ Json) (sent : Bytes)
    (delivered : ℕ) : Prop :=
  delivered ≤ sent.length ∧ ∃ past, Matched (decodeLine c) past client ∧
    received past = sent.take delivered ∧
    ∀ method params callback ms, Event.request method params (some callback) ms ∈ past →
      Act.editor (.request method params (some callback) ms) ∈ acts

namespace Receiver

variable {acts : List (Act κ)} {client : Client κ Json} {sent : Bytes} {delivered : ℕ}

/-- More may be sent, and more may happen elsewhere. -/
theorem grow (h : Receiver c acts client sent delivered) (a : Act κ) (more : Bytes) :
    Receiver c (acts ++ [a]) client (sent ++ more) delivered := by
  obtain ⟨hle, past, hmatched, hreceived, hrequests⟩ := h
  refine ⟨?_, past, hmatched, ?_, fun method params callback ms hin => ?_⟩
  · rw [List.length_append]
    exact hle.trans (Nat.le_add_right _ _)
  · rw [hreceived, List.take_append_of_le_length hle]
  · exact List.mem_append_left _ (hrequests method params callback ms hin)

/-- Something happens in the editor, and no bytes arrive. -/
theorem tell (h : Receiver c acts client sent delivered) {e : Event κ Json} (he : e.bytes = []) :
    Receiver c (acts ++ [.editor e]) (client.step (decodeLine c) iter e) sent delivered := by
  obtain ⟨hle, past, hmatched, hreceived, hrequests⟩ := h
  refine ⟨hle, past ++ [e], matched_step iter hmatched e, ?_,
    fun method params callback ms hin => ?_⟩
  · rw [received_snoc, he, List.append_nil, hreceived]
  · rcases List.mem_append.mp hin with hold | hnew
    · exact List.mem_append_left _ (hrequests method params callback ms hold)
    · rw [List.mem_singleton.mp hnew]
      exact List.mem_append_right _ (List.mem_singleton_self _)

/-- Bytes arrive. -/
theorem arrive (h : Receiver c acts client sent delivered) (n : ℕ) :
    Receiver c (acts ++ [.arrive n])
      (client.step (decodeLine c) iter (.data ((sent.drop delivered).take n))) sent
      (delivered + ((sent.drop delivered).take n).length) := by
  obtain ⟨hle, past, hmatched, hreceived, hrequests⟩ := h
  refine ⟨?_, past ++ [.data ((sent.drop delivered).take n)], matched_step iter hmatched _, ?_,
    fun method params callback ms hin => ?_⟩
  · have hlength := List.length_take_le' n (sent.drop delivered)
    rw [List.length_drop] at hlength
    omega
  · rw [received_snoc, hreceived, List.take_add]
    exact congrArg _ (List.prefix_iff_eq_take.mp (List.take_prefix _ _))
  · rcases List.mem_append.mp hin with hold | hnew
    · exact List.mem_append_left _ (hrequests method params callback ms hold)
    · cases List.mem_singleton.mp hnew

end Receiver

/-! ## Both sides -/

/-- What holds after some acts. -/
structure Sound (c : Codecs) (acts : List (Act κ)) (s : System κ) : Prop where
  /-- The requests can be read by the daemon. -/
  frames : ∀ frame ∈ s.client.written, c.ToDaemon (frameJson frame)
  /-- What the daemon has read. -/
  reader : Reader c s.client.written s.read s.buffer s.jobs s.answered
  /-- What the daemon has sent. -/
  sender : Sender c s.answered s.sent
  /-- What the editor has received. -/
  receiver : Receiver c acts s.client s.sent s.delivered

theorem sound_start (c : Codecs) : Sound c [] (System.start : System κ) where
  frames _ h := absurd h List.not_mem_nil
  reader := Reader.start
  sender := ⟨[], rfl, fun _ h => absurd h List.not_mem_nil⟩
  receiver := ⟨Nat.le_refl _, [], matched_new, rfl, fun _ _ _ _ h => absurd h List.not_mem_nil⟩

namespace Sound

variable {acts : List (Act κ)} {s : System κ}

/-- An act of the daemon that leaves the editor alone. -/
theorem daemon (h : Sound c acts s) {a : Act κ} (hspoken : s.Spoken c iter a)
    (hclient : (s.act c iter a).client = s.client)
    (hdelivered : (s.act c iter a).delivered = s.delivered)
    (hreader : Reader c s.client.written (s.act c iter a).read (s.act c iter a).buffer
      (s.act c iter a).jobs (s.act c iter a).answered)
    (hanswered : s.answered ⊆ (s.act c iter a).answered)
    (hfresh : ∀ value ∈ s.sends c a, ∀ id failed outcome,
      messageOf value = some (.response (some id) failed outcome) →
        ∃ request, (request, value) ∈ (s.act c iter a).answered ∧
          request.index "id" = .nat id) :
    Sound c (acts ++ [a]) (s.step c iter a) := by
  constructor
  · exact hspoken.1
  · show Reader c (s.act c iter a).client.written _ _ _ _
    rw [hclient]
    exact hreader
  · exact h.sender.more hanswered hspoken.2 hfresh
  · show Receiver c _ (s.act c iter a).client _ (s.act c iter a).delivered
    rw [hclient, hdelivered]
    exact h.receiver.grow a _

/-- An act in the editor. -/
theorem told (h : Sound c acts s) {a : Act κ} {e : Event κ Json} (hspoken : s.Spoken c iter a)
    (hact : s.act c iter a = { s with
      client := s.client.step (decodeLine c) iter e
      delivered := (s.act c iter a).delivered })
    (hsends : s.sends c a = [])
    (hreceiver : Receiver c (acts ++ [a]) (s.client.step (decodeLine c) iter e) s.sent
      (s.act c iter a).delivered) :
    Sound c (acts ++ [a]) (s.step c iter a) := by
  have hstep : s.step c iter a = { s with
      client := s.client.step (decodeLine c) iter e
      delivered := (s.act c iter a).delivered } := by
    unfold System.step
    rw [hsends, show linesOf c.dumps [] = [] from rfl, List.append_nil, hact]
  have hframes := hspoken.1
  rw [hstep] at hframes ⊢
  exact ⟨hframes, h.reader.grow (written_step s.client e), h.sender, hreceiver⟩

/-- An act that changes nothing. -/
theorem unchanged (h : Sound c acts s) {a : Act κ} (hspoken : s.Spoken c iter a)
    (hact : s.act c iter a = s) (hsends : s.sends c a = []) :
    Sound c (acts ++ [a]) (s.step c iter a) := by
  refine h.daemon hspoken ?_ ?_ ?_ ?_ ?_
  · rw [hact]
  · rw [hact]
  · rw [hact]
    exact h.reader
  · rw [hact]
    exact List.Subset.refl _
  · rw [hsends]
    exact fun value hvalue => absurd hvalue List.not_mem_nil

/-- A request leaves the pool without an answer. -/
theorem dropped (h : Sound c acts s) {a : Act κ} {i : ℕ} (hspoken : s.Spoken c iter a)
    (hact : s.act c iter a = { s with jobs := s.jobs.eraseIdx i }) (hsends : s.sends c a = []) :
    Sound c (acts ++ [a]) (s.step c iter a) := by
  refine h.daemon hspoken ?_ ?_ ?_ ?_ ?_
  · rw [hact]
  · rw [hact]
  · rw [hact]
    have hle : ((s.jobs.eraseIdx i).map Prod.fst : Multiset Json) ≤ s.jobs.map Prod.fst :=
      Multiset.coe_le.mpr ((List.eraseIdx_sublist s.jobs i).map Prod.fst).subperm
    exact h.reader.leave List.eraseIdx_subset (add_le_add_left hle _)
  · rw [hact]
    exact List.Subset.refl _
  · rw [hsends]
    exact fun value hvalue => absurd hvalue List.not_mem_nil

/-- A request that is answered leaves the pool. -/
theorem finish (h : Sound c acts s) {i : ℕ} {outcome : Except Failure Json}
    (hspoken : s.Spoken c iter (.finish i outcome)) :
    Sound c (acts ++ [.finish i outcome]) (s.step c iter (.finish i outcome)) := by
  cases hserving : s.serving with
  | false =>
    refine h.dropped hspoken (i := i) ?_ ?_
    · show s.finish i outcome = _
      unfold System.finish
      rw [hserving]
      rfl
    · unfold System.sends
      rw [hserving]
      rfl
  | true =>
    have hact : s.act c iter (.finish i outcome) = { s with
        jobs := s.jobs.eraseIdx i
        answered := s.answered ++
          (s.jobs[i]?).toList.map fun job => (job.1, replyJson job.2 outcome) } := by
      show s.finish i outcome = _
      unfold System.finish
      rw [hserving]
      rfl
    have hsends : s.sends c (.finish i outcome) =
        (s.jobs[i]?).toList.map fun job => replyJson job.2 outcome := by
      unfold System.sends
      rw [hserving]
      rfl
    refine h.daemon hspoken ?_ ?_ ?_ ?_ ?_
    · rw [hact]
    · rw [hact]
    · rw [hact]
      refine h.reader.leave List.eraseIdx_subset (le_of_eq ?_)
      rw [List.map_append, List.map_map, ← Multiset.coe_add, ← erase_job s.jobs i,
        add_right_comm, add_assoc]
      rfl
    · rw [hact]
      exact List.subset_append_left _ _
    · rw [hsends, hact]
      intro value hvalue id failed result hmessage
      obtain ⟨job, hjob, rfl⟩ := List.mem_map.mp hvalue
      have howned := h.reader.jobs job (List.mem_of_getElem? (Option.mem_toList.mp hjob))
      exact ⟨job.1, List.mem_append_right _ (List.mem_map.mpr ⟨job, hjob, rfl⟩),
        answers_reply howned outcome id failed result hmessage⟩

/-- The daemon reads on. -/
theorem readOn (h : Sound c acts s) {n : ℕ} (hspoken : s.Spoken c iter (.read n)) :
    Sound c (acts ++ [.read n]) (s.step c iter (.read n)) := by
  cases hserving : s.serving with
  | false =>
    refine h.unchanged hspoken (if_neg (fun htrue => ?_)) ?_
    · rw [hserving] at htrue
      cases htrue
    · unfold System.sends
      rw [hserving]
      rfl
  | true =>
    have hact : s.act c iter (.read n) = s.readOn c n := if_pos hserving
    have hsends : s.sends c (.read n) =
        ((s.handled c n).filterMap Handled.replied).map Prod.snd := if_pos hserving
    have hdrain : drain 10 (s.buffer ++ s.unread c n).length (s.buffer ++ s.unread c n) =
        split 10 (s.buffer ++ s.unread c n) := drain_eq_split (Nat.le_refl _)
    have hlines : s.lines c n = (split 10 (s.buffer ++ s.unread c n)).1.map (handleLine c) :=
      congrArg (fun p => p.1.map (handleLine c)) hdrain
    have hpiece : s.unread c n <+: (s.stream c).drop s.read := List.take_prefix n _
    obtain ⟨hreader, hanswers⟩ := h.reader.more h.frames hpiece hlines
    rw [← hdrain] at hreader
    refine h.daemon hspoken ?_ ?_ ?_ ?_ ?_
    · rw [hact]
      rfl
    · rw [hact]
      rfl
    · rw [hact]
      exact hreader
    · rw [hact]
      exact List.subset_append_left _ _
    · rw [hact, hsends]
      intro value hvalue id failed outcome hmessage
      obtain ⟨p, hp, rfl⟩ := List.mem_map.mp hvalue
      exact ⟨p.1, List.mem_append_right _ hp, hanswers p hp id failed outcome hmessage⟩

/-- A notification is no answer. -/
theorem notify (h : Sound c acts s) {method : String} {params : Json}
    (hspoken : s.Spoken c iter (.notify method params)) :
    Sound c (acts ++ [.notify method params]) (s.step c iter (.notify method params)) := by
  refine h.daemon hspoken rfl rfl h.reader (List.Subset.refl _) ?_
  intro value hvalue id failed outcome hmessage
  unfold System.sends at hvalue
  split at hvalue
  · rw [List.mem_singleton.mp hvalue] at hmessage
    cases hmessage
  · cases hvalue

end Sound

/-- What is sound stays sound. -/
theorem sound_step {acts : List (Act κ)} {s : System κ} (h : Sound c acts s) {a : Act κ}
    (hspoken : s.Spoken c iter a) : Sound c (acts ++ [a]) (s.step c iter a) := by
  have hsilent : ∀ e : Event κ Json, s.sends c (.editor e) = [] := fun _ => ite_self _
  cases a with
  | editor e =>
    cases e with
    | data chunk => exact h.unchanged hspoken rfl (hsilent _)
    | _ => exact h.told hspoken rfl (hsilent _) (h.receiver.tell rfl)
  | arrive n => exact h.told hspoken rfl (ite_self _) (h.receiver.arrive n)
  | read n => exact h.readOn hspoken
  | finish i outcome => exact h.finish hspoken
  | drop i => exact h.dropped hspoken rfl (ite_self _)
  | notify method params => exact h.notify hspoken

/-- Every run is sound. -/
theorem sound_run {acts past : List (Act κ)} {s : System κ} (h : Sound c past s)
    (hspoken : Along (System.step c iter) (System.Spoken c iter) s acts) :
    Sound c (past ++ acts) (run (System.step c iter) s acts) := by
  induction acts generalizing past s with
  | nil =>
    rw [List.append_nil]
    exact h
  | cons a acts ih =>
    have hrest := ih (sound_step h hspoken.1) hspoken.2
    rw [List.append_assoc] at hrest
    exact hrest

/-- A daemon that does not serve the connection sends and answers nothing. -/
theorem ended_step {s : System κ} (h : s.serving = false) (a : Act κ) :
    (s.step c iter a).serving = false ∧ (s.step c iter a).answered = s.answered ∧
      (s.step c iter a).sent = s.sent := by
  have hsent : (s.step c iter a).sent = s.sent := by
    have hsends : s.sends c a = [] := if_neg (by simp [h])
    show s.sent ++ linesOf c.dumps (s.sends c a) = s.sent
    rw [hsends]
    exact List.append_nil _
  have hact : (s.act c iter a).serving = false ∧ (s.act c iter a).answered = s.answered := by
    cases a with
    | editor e => cases e <;> exact ⟨h, rfl⟩
    | read n =>
      have hread : s.act c iter (.read n) = s := if_neg (by simp [h])
      rw [hread]
      exact ⟨h, rfl⟩
    | finish i outcome => exact ⟨h, if_neg (by simp [h])⟩
    | _ => exact ⟨h, rfl⟩
  exact ⟨hact.1, hact.2, hsent⟩

/-- Nothing is answered after the connection has ended. -/
theorem ended_run {s : System κ} (h : s.serving = false) (acts : List (Act κ)) :
    (run (System.step c iter) s acts).answered = s.answered ∧
      (run (System.step c iter) s acts).sent = s.sent := by
  induction acts generalizing s with
  | nil => exact ⟨rfl, rfl⟩
  | cons a acts ih =>
    obtain ⟨hserving, hanswered, hsent⟩ := @ended_step κ c iter s h a
    obtain ⟨hlater, hlast⟩ := ih hserving
    exact ⟨hlater.trans hanswered, hlast.trans hsent⟩

/-- A subscription to a number of files ends the connection. -/
example : (handleValue (frameJson (1, "subscribe", .obj [("files", .nat 3)]))).goesOn = false := by
  decide

/-- The requests that are answered are different. -/
theorem Sound.nodup {acts : List (Act κ)} {s : System κ} (h : Sound c acts s) :
    (s.answered.map Prod.fst).Nodup ∧
      ∀ p ∈ s.answered, ∃ frame ∈ s.client.written, p.1 = frameJson frame := by
  obtain ⟨-, past, hmatched, -⟩ := h.receiver
  obtain ⟨frames, hframes, -, hcount⟩ := h.reader.taken
  have hle : (s.answered.map Prod.fst : Multiset Json) ≤ (frames.map frameJson : Multiset Json) :=
    (Multiset.le_add_left _ _).trans hcount
  have hids : (s.client.written.map Prod.fst).Nodup := hmatched.written ▸ List.nodup_range'
  have hwritten : s.client.written.Nodup := List.Nodup.of_map _ hids
  have hnodup : (frames.map frameJson).Nodup :=
    (hwritten.sublist hframes.sublist).map frameJson_injective
  refine ⟨Multiset.coe_nodup.mp (Multiset.nodup_of_le hle (Multiset.coe_nodup.mpr hnodup)), ?_⟩
  intro p hp
  have hin : p.1 ∈ frames.map frameJson :=
    Multiset.mem_coe.mp (Multiset.mem_of_le hle
      (Multiset.mem_coe.mpr (List.mem_map_of_mem hp)))
  obtain ⟨frame, hframe, heq⟩ := List.mem_map.mp hin
  exact ⟨frame, hframes.subset hframe, heq.symm⟩

/-- However the bytes of both sides are cut and however the workers take turns,
the daemon answers a request once at most; and a callback that is called with
an answer was given with a request, and gets the answer to that request. -/
theorem answered_own (c : Codecs) (iter : HashOrder ℕ) {acts : List (Act κ)}
    (hspoken : Along (System.step c iter) (System.Spoken c iter) System.start acts) :
    ((run (System.step c iter) System.start acts).answered.map Prod.fst).Nodup ∧
    ∀ callback failed value, (callback, Outcome.answered failed value) ∈
        (run (System.step c iter) System.start acts).client.called →
      ∃ id method params ms reply,
        Act.editor (.request method params (some callback) ms) ∈ acts ∧
        (frameJson (id, method, params), reply) ∈
          (run (System.step c iter) System.start acts).answered ∧
        messageOf reply = some (.response (some id) failed value) := by
  have hsound : Sound c acts (run (System.step c iter) System.start acts) :=
    sound_run (sound_start c) hspoken
  generalize run (System.step c iter) System.start acts = s at hsound
  obtain ⟨hnodup, hrequests⟩ := hsound.nodup
  refine ⟨hnodup, fun callback failed value hcalled => ?_⟩
  obtain ⟨-, past, hmatched, hreceived, hacts⟩ := hsound.receiver
  obtain ⟨id, line, hkept, hline, hdecode⟩ := hmatched.called callback failed value hcalled
  obtain ⟨method, params, ms, hevent, hframe⟩ := hmatched.kept id callback hkept
  -- the line is one of the values that were sent
  obtain ⟨values, hsent, hvalues⟩ := hsound.sender
  rw [hreceived, hsent] at hline
  have hbegin := split_take_linesOf (fun value hvalue => (hvalues value hvalue).1.1) s.delivered
  obtain ⟨reply, hreply, rfl⟩ := List.mem_map.mp (hbegin.subset hline)
  obtain ⟨⟨-, hread⟩, hanswer⟩ := hvalues reply hreply
  have hmessage : messageOf reply = some (.response (some id) failed value) := by
    unfold decodeLine at hdecode
    rw [hread] at hdecode
    exact hdecode
  obtain ⟨request, hrequest, hid⟩ := hanswer id failed value hmessage
  -- the ids of requests tell them apart
  obtain ⟨frame, hwritten, heq⟩ := hrequests _ hrequest
  dsimp only at heq
  subst heq
  have hsame : frame = (id, method, params) := by
    have hids : (s.client.written.map Prod.fst).Nodup := hmatched.written ▸ List.nodup_range'
    exact List.inj_on_of_nodup_map hids hwritten hframe (Json.nat.inj hid)
  rw [hsame] at hrequest
  exact ⟨id, method, params, ms, reply, hacts _ _ _ _ hevent, hrequest, hmessage⟩

end Steps

/-- Codecs that number the values of a small conversation. -/
def numbered : Codecs where
  luaEncode value := if value.index "id" = .nat 1 then [1] else [2]
  luaDecode line :=
    if line = [3] then some (responseJson (.nat 1) (.str "a function"))
    else some (errorJson (.nat 2) ⟨-32601, "unknown method: stats", none⟩)
  dumps value := if value.index "id" = .nat 1 then [3] else [4]
  loads line := .ok (frameJson (if line = [1] then (1, "hover", .obj []) else (2, "stats", .obj [])))
  isBlank line := line = []

/-- Two requests, the second answered before the first, and both answers in
one piece. -/
def conversation : List (Act String) :=
  [.editor .connect, .editor (.opened false), .editor .turn,
    .editor (.request "hover" (.obj []) (some "show") 0),
    .editor (.request "stats" (.obj []) (some "count") 0), .read 3, .read 1,
    .finish 1 (.error ⟨-32601, "unknown method: stats", none⟩), .finish 0 (.ok (.str "a function")),
    .arrive 4, .editor .turn, .editor .turn]

theorem answered_own_conversation :
    ((run (System.step numbered HashOrder.increasing) System.start
      conversation).answered.map Prod.fst).Nodup ∧
    ∀ callback failed value, (callback, Outcome.answered failed value) ∈
        (run (System.step numbered HashOrder.increasing) System.start conversation).client.called →
      ∃ id method params ms reply,
        Act.editor (.request method params (some callback) ms) ∈ conversation ∧
        (frameJson (id, method, params), reply) ∈
          (run (System.step numbered HashOrder.increasing) System.start conversation).answered ∧
        messageOf reply = some (.response (some id) failed value) :=
  answered_own numbered HashOrder.increasing (by decide +kernel)

/-- The callbacks get their answers in the order of the answers. -/
example : (run (System.step numbered HashOrder.increasing) System.start
    conversation).client.called =
      [("count", .answered true (.obj [("code", .real "-32601"),
        ("message", .str "unknown method: stats")])),
      ("show", .answered false (.str "a function"))] := by decide +kernel

end Tyo3.EditorProtocol
