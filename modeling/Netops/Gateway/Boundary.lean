import Netops.Lib.Json
import Netops.Lib.Prog
import Netops.Lib.Trace
import Netops.Lib.Utf8

/-!
# The audit boundary of the gateway

`AuditBoundary` of `gateway.py`: one HTTP request from the reading of the token to the last byte of
the reply, as a program over the effects it awaits.

* `Op`            the effects: the token file, the audit log, the client (`receive`, `send`), the
                  inner application, the admission semaphores;
* `handle`, `serve`   `AuditBoundary.handle` and `AuditBoundary.__call__`;
* `machine`       logs every effect with its outcome, the newest first; the environment decides all
                  outcomes.
-/

namespace Netops.Gateway
open Effect

/-! ## data -/

/-- what code outside of the repository may raise; `value` is `ValueError`, `fatal` is no
`Exception` -/
inductive Foreign where
  | cancelled | timeout | os | value | other | fatal
  deriving DecidableEq, Repr

/-- `disconnected` is `_ClientDisconnected`, `unavailable` is `AuditUnavailable` -/
inductive Exc where
  | foreign (f : Foreign)
  | disconnected
  | unavailable
  deriving DecidableEq, Repr

namespace Exc

abbrev cancelled : Exc := .foreign .cancelled
abbrev value : Exc := .foreign .value
abbrev other : Exc := .foreign .other

/-- `isinstance(exc, OSError)` -/
def isOSError : Exc → Bool
  | .foreign .os | .foreign .timeout | .disconnected => true
  | _ => false

/-- `isinstance(exc, Exception)` -/
def isException (e : Exc) : Bool := e ≠ .cancelled ∧ e ≠ .foreign .fatal

/-- `except (OSError, ValueError, UnicodeError)` -/
def isReadError (e : Exc) : Bool := e.isOSError || e = .value

/-- `except (AuditUnavailable, OSError, ValueError)` -/
def isAuditError (e : Exc) : Bool := e.isOSError || e = .value || e = .unavailable

end Exc

abbrev Bytes := List UInt8

/-- the fields of an ASGI scope that are read -/
structure Scope where
  type : String
  scheme : Option String
  httpVersion : Option String
  method : String
  path : String
  queryString : Bytes
  headers : List (Bytes × Bytes)

/-- an event of the inner application -/
inductive Event where
  | start (status : Option Nat) (headers : List (Bytes × Bytes))
  | body (body : Bytes) (moreBody : Bool)
  | other (type : String)

/-- what `receive` returns -/
inductive Received where
  | disconnect
  | part (body : Bytes) (moreBody : Bool)

def text (s : String) : List Nat := s.toList.map Char.toNat
def str (s : String) : Json.Value := .str (text s)
def num (n : Nat) : Json.Value := .int n

/-- the arguments of `JSONResponse`; `close` is the header `Connection: close` -/
structure Reply where
  content : List (String × Json.Value)
  status : Nat
  close : Bool

inductive Part where
  | start | body
  deriving DecidableEq

/-- an event handed to `send`: a part of a reply of the boundary itself, or an event of the
application as `send_audited_response` passes it on -/
inductive Sent where
  | own (reply : Reply) (part : Part)
  | app (event : Event)

inductive Payload where
  | raw (bytes : Bytes)
  | value (fields : List (String × Json.Value))

/-- the arguments of `audit.record` -/
structure Record where
  direction : String
  payload : Payload
  correlation : String
  secretValues : List (List Char)
  decode : Option String
  heavy : Bool
  metadata : List (String × Json.Value)

def maxMessage : Nat := 4 * 1024 * 1024
def smallAuditMessage : Nat := 65536
def version : String := "1.0.5"

/-! ## effects -/

/-- the two semaphores of the boundary -/
inductive Semaphore where
  | largeRequests | slots
  deriving DecidableEq

inductive Op where
  | acquire (s : Semaphore)
  | release (s : Semaphore)
  /-- `AuditBoundary.token` -/
  | readToken
  | reject (reason : String)
  | record (r : Record)
  /-- `receive` under the deadline of the request body -/
  | receive
  | clientGone
  /-- the inner application; `buffered` with `replay_receive` and `buffered_send` -/
  | enter (buffered : Bool) (body : Bytes)
  /-- what the tasks and the clock of `send_audited_response` did since the last look -/
  | watch
  | send (m : Sent)

/-- what the watcher task saw, or why the wait for the two tasks ended -/
inductive Watched where
  | quiet
  | gone
  | broken
  | stopped (f : Foreign)

@[reducible] def Op.Answer : Op → Type
  | .acquire _ => Except Foreign Unit
  | .release _ => Unit
  | .readToken => Except Exc (List Char)
  | .reject _ => Except Exc Unit
  -- `invalid_json`
  | .record _ => Except Exc Bool
  | .receive => Except Foreign Received
  | .clientGone => Except Foreign Bool
  -- the events the application tried to send, and how it ended
  | .enter _ _ => List Event × Except Exc Unit
  | .watch => Watched
  | .send _ => Except Foreign Unit

abbrev sig : Sig := ⟨Op, Op.Answer, Op.Answer⟩
abbrev P (α : Type) := Prog sig Exc α

/-- await one effect -/
def await (o : Op) : P o.Answer := .op o .ret

def orRaise {α : Type} : Except Foreign α → P α
  | .ok a => .ret a
  | .error f => .raise (.foreign f)

def acquire (s : Semaphore) : P Unit := do orRaise (← await (.acquire s))
def release (s : Semaphore) : P Unit := await (.release s)
def token : P (List Char) := do Prog.ofExcept (← await .readToken)
def reject (reason : String) : P Unit := do Prog.ofExcept (← await (.reject reason))
def record (r : Record) : P Bool := do Prog.ofExcept (← await (.record r))
def clientGone : P Bool := do orRaise (← await .clientGone)
def send (m : Sent) : P Unit := do orRaise (← await (.send m))

/-- `await JSONResponse(content, status, headers)(scope, receive, send)` -/
def respond (r : Reply) : P Unit := do
  send (.own r .start)
  send (.own r .body)

/-- `audit_unavailable`, with what is said about the operation -/
def auditUnavailable (mayHaveCompleted close : Bool) : Reply :=
  ⟨[("error", str "audit_unavailable"), ("automatic_retry", .bool false),
    ("operation_may_have_completed", .bool mayHaveCompleted)], 503, close⟩

def authenticationRequired : Reply := ⟨[("error", str "authentication_required")], 401, true⟩

/-- a record about the request itself: not heavy, no secrets, nothing to decode -/
def note (direction : String) (payload : List (String × Json.Value)) (correlation : String)
    (metadata : List (String × Json.Value)) : Record :=
  ⟨direction, .value payload, correlation, [], none, false, metadata⟩

/-- `method=…, path=…, authenticated=True` -/
def origin (scope : Scope) : List (String × Json.Value) :=
  [("method", str scope.method), ("path", str scope.path), ("authenticated", .bool true)]

/-! ## requests -/

/-- `bytes.lower` -/
def lowerByte (b : UInt8) : UInt8 := if 65 ≤ b ∧ b ≤ 90 then b + 32 else b
def lower (b : Bytes) : Bytes := b.map lowerByte

def bytes (s : String) : Bytes := Utf8.encode s.toList

def isDigit (b : UInt8) : Bool := 48 ≤ b ∧ b ≤ 57
def toInt (b : Bytes) : Nat := b.foldl (fun n d => n * 10 + (d.toNat - 48)) 0

/-- the values of the headers of this name -/
def Scope.header (scope : Scope) (name : String) : List Bytes :=
  (scope.headers.filter fun h => lower h.1 = bytes name).map Prod.snd

def largeRequest (scope : Scope) : Bool :=
  if scope.header "transfer-encoding" ≠ [] then true
  else match scope.header "content-length" with
    | [] => !(scope.httpVersion ∈ [some "1.0", some "1.1"] ∧ scope.method ∈ ["GET", "HEAD", "OPTIONS"])
    | [value] => !(0 < value.length ∧ value.length ≤ 10 ∧ value.all isDigit ∧
        toInt value ≤ smallAuditMessage)
    | _ => true

/-- `hmac.compare_digest` on two texts: it refuses anything but ASCII -/
def compareDigest (a b : List Char) : Except Exc Bool :=
  if a.all (·.toNat < 128) && b.all (·.toNat < 128) then .ok (a = b) else .error .other

/-- the request carries the token -/
def authorized (scope : Scope) (token : List Char) : Bool :=
  match scope.header "authorization" with
  | [supplied] => 32 ≤ token.length && supplied = bytes "Bearer " ++ Utf8.encode token
  | _ => false

/-- `str.lower` on the characters of latin-1 -/
def lowerPoint (n : Nat) : Nat :=
  if 65 ≤ n ∧ n ≤ 90 ∨ 192 ≤ n ∧ n ≤ 222 ∧ n ≠ 215 then n + 32 else n

/-- `d.setdefault(key, []).append(value)` -/
def appendValue (key : List Nat) (value : Json.Value) :
    List (List Nat × List Json.Value) → List (List Nat × List Json.Value)
  | [] => [(key, [value])]
  | (k, vs) :: rest =>
      if k = key then (k, vs ++ [value]) :: rest else (k, vs) :: appendValue key value rest

/-- the headers as they are recorded: decoded as latin-1, the values of one name together -/
def auditHeaders (headers : List (Bytes × Bytes)) : Json.Value :=
  .obj ((headers.foldl (fun d h => appendValue (h.1.map fun b => lowerPoint b.toNat)
    (.str (h.2.map UInt8.toNat)) d) []).map fun kv => (kv.1, .arr kv.2))

/-! ## the buffered response -/

/-- `buffered_send`, event by event: a body event that goes over the limit raises in the
application, and so does every one after it -/
def buffer : Nat → List Event → List Event
  | _, [] => []
  | size, .body b more :: es =>
      if size + b.length > maxMessage then buffer (size + b.length) es
      else .body b more :: buffer (size + b.length) es
  | size, e :: es => e :: buffer size es

/-- the events after the first one: bodies, and `more_body` on all but the last -/
def validBodies : List Event → Bool
  | [] => true
  | [.body _ more] => !more
  | .body _ more :: es => more && validBodies es
  | _ => false

def validateBufferedResponse : List Event → Except Exc Unit
  | .start _ _ :: e :: es => if validBodies (e :: es) then .ok () else .error .value
  | _ => .error .value

/-- `payload[offset:offset + 32768]` for the offsets in steps of 32768; one empty piece of an empty
payload -/
def pieces (payload : Bytes) : List Bytes :=
  (List.range ((max payload.length 1 + 32767) / 32768)).map fun i =>
    (payload.drop (i * 32768)).take 32768

/-- what the sender task delivers -/
def outgoing (events : List Event) : List Event :=
  events.flatMap (fun
    | .body payload _ => (pieces payload).map fun p => .body p true
    | e => [e]) ++ [.body [] true]

/-- the watcher or the clock before the next step of the sender -/
def watch : P Unit := do
  match ← await .watch with
  | .quiet => return
  | .gone => throw .disconnected
  | .broken => throw (.foreign .os)
  | .stopped f => throw (.foreign f)

/-- `deliver`: everything but an `OSError` becomes a `ConnectionAbortedError` -/
def deliver (e : Event) : P Unit := do
  match ← await (.send (.app e)) with
  | .ok () => return
  | .error f =>
      -- an observed disconnect is preferred
      watch
      throw (.foreign (if f = .value ∨ f = .other then .os else f))

def deliverAll : List Event → P Unit
  | [] => return
  | e :: es => do
      watch
      deliver e
      deliverAll es

/-- `send_audited_response`: the sender and the watcher run until the first of them ends, then the
watcher is stopped and the terminal event goes out -/
def sendAuditedResponse (events : List Event) : P Unit := do
  deliverAll (outgoing events)
  watch
  watch
  match ← await (.send (.app (.body [] false))) with
  | .ok () => return
  | .error f => throw (.foreign (if f = .value ∨ f = .other then .os else f))

/-! ## the boundary -/

/-- `except (AuditUnavailable, OSError, ValueError)`: a failing log is only written to the standard
error output -/
def ignoreAuditError (e : Exc) : P Unit := if e.isAuditError then .ret () else .raise e

/-- two records of a cancellation, the second one in any case -/
def recordEnd (first second : Record) : P Unit :=
  (do
    let _ ← Prog.finally_ (record first) (do let _ ← record second)
    return).tryCatch ignoreAuditError

def bodyCancelled (scope : Scope) (correlation : String) (received : Nat) : P Unit :=
  recordEnd
    (note "request_body_cancelled" [("phase", str "request_body"), ("complete_body", .bool false),
      ("received_bytes", num received), ("operation_executed", .bool false),
      ("reason", str "cancelled")] correlation (origin scope))
    (note "connection_end" [("delivery", str "not_started")] correlation [])

def admissionCancelled (scope : Scope) (correlation : String) : P Unit :=
  recordEnd
    (note "admission_cancelled" [("phase", str "admission"), ("body_read", .bool false),
      ("received_bytes", num 0), ("operation_executed", .bool false), ("reason", str "cancelled")]
      correlation (origin scope))
    (note "connection_end" [("delivery", str "not_started")] correlation [])

/-- the request body; `none` when the request is over.  `passes` bounds the events received. -/
def receiveBody (scope : Scope) (correlation : String) : Nat → Bytes → P (Option Bytes)
  | 0, _ => .stuck
  | passes+1, body => do
    match ← await .receive with
    | .error .cancelled =>
        bodyCancelled scope correlation body.length
        throw .cancelled
    | .error .timeout =>
        let _ ← record (note "rejection" [("reason", str "body_timeout"),
          ("phase", str "request_body"), ("complete_body", .bool false),
          ("received_bytes", num body.length), ("operation_executed", .bool false)] correlation
          (origin scope))
        respond ⟨[("error", str "request_body_timeout")], 408, true⟩
        return none
    | .error f => throw (.foreign f)
    | .ok .disconnect =>
        let _ ← record (note "client_disconnect" [("phase", str "request_body")] correlation [])
        return none
    | .ok (.part b more) =>
        let body := body ++ b
        if body.length > maxMessage then do
          let _ ← record (note "rejection" [("reason", str "message_size"),
            ("received_bytes", num body.length)] correlation [])
          respond ⟨[("error", str "message_size_limit")], 413, false⟩
          return none
        else if more then receiveBody scope correlation passes body
        else return some body

section
variable (scope : Scope) (correlation : String) (originalToken : List Char)

/-- the record of a response the boundary makes itself -/
def ownResponse (direction : String) (reply : Reply) : Record :=
  ⟨direction, .value reply.content, correlation, [originalToken], none, false,
    [("status", num reply.status)]⟩

/-- record a response of the boundary, then send it -/
def recordAndRespond (direction : String) (reply : Reply) : P Unit := do
  let _ ← record (ownResponse correlation originalToken direction reply)
  respond reply

/-- the handlers of the outer `try` of `handle`, with the values of `dispatched` and
`response_started` -/
def interrupted (dispatched responseStarted : Bool) (exc : Exc) : P Unit :=
  if exc = .cancelled ∨ exc.isOSError then
    if exc.isOSError ∧ !responseStarted then respond (auditUnavailable dispatched false)
    else do
      recordEnd
        (note "interrupted" [("delivery", str "interrupted"), ("automatic_retry", .bool false),
          ("operation_may_have_completed", .bool dispatched)] correlation [])
        (note "connection_end" [("delivery", str "interrupted")] correlation [])
      if exc = .disconnected then return
      throw exc
  else if exc = .unavailable ∨ exc = .value then
    if responseStarted then throw exc
    else respond (auditUnavailable dispatched false)
  else throw exc

/-- a stretch of the outer `try`; `none` when the request is over -/
def guarded {α : Type} (dispatched responseStarted : Bool) (m : P (Option α)) : P (Option α) :=
  m.tryCatch fun e => do
    interrupted correlation dispatched responseStarted e
    return none

/-- the record of the request -/
def requestRecord (body : Bytes) : Record :=
  ⟨"request", .raw body, correlation, [originalToken], some "request", true,
    origin scope ++ [("request_headers", auditHeaders scope.headers),
      ("url_query", if scope.queryString = [] then .null else str "[REDACTED]")]⟩

/-- what is answered without the application, once the request is recorded -/
def answerHere (body : Bytes) (invalidJson : Bool) : P (Option Unit) := do
  if invalidJson then
    recordAndRespond correlation originalToken "response" ⟨[("error", str "invalid_json")], 400, false⟩
    return none
  if scope.queryString ≠ [] then
    recordAndRespond correlation originalToken "response"
      ⟨[("error", str "query_parameters_are_not_supported")], 400, false⟩
    return none
  if scope.path = "/health" then
    recordAndRespond correlation originalToken "response"
      ⟨[("status", str "ready"), ("version", str version)], 200, false⟩
    return none
  let gone ← if largeRequest scope then clientGone else pure false
  if gone then
    let _ ← record (note "client_disconnect" [("phase", str "before_dispatch"),
      ("complete_body", .bool true), ("received_bytes", num body.length),
      ("operation_executed", .bool false)] correlation [])
    let _ ← record (note "connection_end" [("delivery", str "not_started")] correlation [])
    return none
  return some ()

/-- from the record of the request to the dispatch; `none` when it is answered here -/
def beforeDispatch (body : Bytes) : P (Option Unit) := do
  let invalidJson ← record (requestRecord scope correlation originalToken body)
  answerHere scope correlation originalToken body invalidJson

/-- the application, buffered: what it emitted, or how it failed -/
def runApplication (body : Bytes) : P (List Event) := do
  let (events, outcome) ← await (.enter true body)
  Prog.ofExcept outcome
  let emitted := buffer 0 events
  Prog.ofExcept (validateBufferedResponse emitted)
  return emitted

/-- the status of the first start event; a start event without one raises `KeyError` -/
def responseStatus : List Event → Except Exc Nat
  | .start (some status) _ :: _ => .ok status
  | .start none _ :: _ => .error .other
  | _ :: es => responseStatus es
  | [] => .ok 500

def rawResponse (events : List Event) : Bytes :=
  events.flatMap fun
    | .body b _ => b
    | _ => []

def responseHeaders (events : List Event) : Json.Value :=
  auditHeaders (events.flatMap fun
    | .start _ headers => headers
    | _ => [])

/-- from the dispatch to the last record before the response; `none` when it is answered here -/
def dispatch (body : Bytes) : P (Option (List Event)) := do
  match ← (runApplication body).attempt with
  | .error e =>
      if e.isException then
        let _ ← record (note "interrupted" [("outcome", str "unknown"),
          ("automatic_retry", .bool false)] correlation [])
        recordAndRespond correlation originalToken "response"
          ⟨[("error", str "operation_failed"), ("automatic_retry", .bool false)], 503, false⟩
        return none
      else throw e
  | .ok emitted =>
      let current ← token
      let same ← Prog.ofExcept (compareDigest originalToken current)
      if !same then
        recordAndRespond correlation originalToken "response_withheld"
          ⟨[("error", str "token_rotated"), ("operation_may_have_completed", .bool true),
            ("automatic_retry", .bool false)], 401, false⟩
        return none
      let status ← Prog.ofExcept (responseStatus emitted)
      let _ ← record ⟨"response", .raw (rawResponse emitted), correlation, [originalToken],
        some "response", true, [("status", num status), ("response_headers", responseHeaders emitted)]⟩
      let _ ← record ⟨"connection_end", .value [("delivery", str "committed-before-send")],
        correlation, [originalToken], none, false, []⟩
      return some emitted

/-- `AuditBoundary.handle`: the outer `try` is cut where `dispatched` and `response_started`
change -/
def handle (passes : Nat) : P Unit := do
  let some body ← receiveBody scope correlation passes [] | return
  match ← token.attempt with
  | .error e =>
      if e.isReadError then respond (auditUnavailable false true) else throw e
  | .ok current =>
      let same ← Prog.ofExcept (compareDigest originalToken current)
      if !same then
        reject "authentication_required"
        respond authenticationRequired
        return
      let some () ← guarded correlation false false
        (beforeDispatch scope correlation originalToken body) | return
      let some emitted ← guarded correlation true false
        (dispatch correlation originalToken body) | return
      let _ ← guarded correlation true true (do
        sendAuditedResponse emitted
        return some ())
      return

/-- the two semaphores; the first is given back when the second is not had -/
def acquireBoth (large : Bool) : P Unit := do
  if large then acquire .largeRequests
  (acquire .slots).tryCatch fun e => do
    if large then release .largeRequests
    throw e

/-- `AuditBoundary._admit` -/
def admission (large : Bool) : P Unit :=
  (acquireBoth large).tryCatch fun e => do
    if e = Exc.cancelled then admissionCancelled scope correlation
    throw e

end

/-- `AuditBoundary.__call__`; `correlation` is the `uuid4` that is drawn for the request -/
def serve (scope : Scope) (correlation : String) (passes : Nat) : P Unit := do
  if scope.type ≠ "http" then
    let (_, outcome) ← await (.enter false [])
    Prog.ofExcept outcome
  else match ← token.attempt with
    | .error e =>
        if e.isReadError then respond (auditUnavailable false true) else throw e
    | .ok originalToken =>
        if !authorized scope originalToken || scope.scheme ≠ some "https" then
          reject (if !authorized scope originalToken then "authentication_required"
            else "https_required")
          respond authenticationRequired
        else do
          let large := largeRequest scope
          admission scope correlation large
          Prog.finally_
            ((handle scope correlation originalToken passes).tryCatch fun e =>
              if e = .unavailable then respond (auditUnavailable false false) else .raise e)
            (do
              release .slots
              if large then release .largeRequests)

/-! ## runs -/

/-- an effect and its outcome -/
abbrev Entry := (o : Op) × o.Answer

/-- the log of a request, the newest entry first -/
abbrev Log := List Entry

def machine : Machine sig Log where
  exec o a log := (a, ⟨o, a⟩ :: log)

/-- the log of the first `n` effects of a request -/
def logOf (scope : Scope) (correlation : String) (passes : Nat) (env : Env sig) (n : Nat) : Log :=
  (run machine env n (serve scope correlation passes) []).2

end Netops.Gateway
