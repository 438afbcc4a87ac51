import Netops.Lib.Json
import Netops.Lib.Prog

/-!
# Sessions of the helper proxy

The client thread, the watcher and the response threads of `proxy.py` as programs over one shared
state.  One operation is one section that holds `pending_lock`, one write to standard output or one
call whose outcome the environment decides.

* `request`, `response`   `Proxy.request` and `Proxy.response`;
* `reap`, `restart`, `forward`, `watch`, `stop`   the session controller, under its lock;
* `Op.exec`               what an operation does to the `State`;
* `State.meets`           the condition on single steps under which requests and answers are paired;
                          `broken` says that a step did not meet it.

Left out are the side tables of `Proxy` that only shape the content of an answer, and the checks of a
tool call, whose outcome is one decision (`checks`).
-/

namespace Netops.Helper
open Effect

abbrev Bytes := List UInt8

/-- the id of a message, any JSON value -/
abbrev Id := Json.Value

/-! ## ids and messages -/

/-- what Python brings along: the integer that a float literal denotes, if it denotes one, and
`_json_document` on the bytes of the client and of the server -/
structure Runtime where
  floatInt : List Char → Option Int
  document : Bytes → Option Json.Value
  serverDocument : Bytes → Option Json.Value

def number (rt : Runtime) : Id → Option Int
  | .int n => some n
  | .bool b => some (if b then 1 else 0)
  | .float t => rt.floatInt t
  | _ => none

/-- two keys of a dictionary are equal: `1 == 1.0 == True` -/
def sameKey (rt : Runtime) : Id → Id → Bool
  | .null, .null => true
  | .str s, .str t => s = t
  | a, b => match number rt a, number rt b with
    | some m, some n => m = n
    | _, _ => false

/-- the value can be looked up in a dictionary -/
def hashable : Id → Bool
  | .arr _ | .obj _ => false
  | _ => true

def text (s : String) : List Nat := s.toList.map Char.toNat

/-- `message.get(name)`: the last of equal names counts -/
def field (fields : List (List Nat × Json.Value)) (name : String) : Option Json.Value :=
  (fields.reverse.find? fun f => f.1 = text name).map Prod.snd

def isStr : Json.Value → Bool
  | .str _ => true
  | _ => false

def isInt : Json.Value → Bool
  | .int _ => true
  | _ => false

def isObj : Json.Value → Bool
  | .obj _ => true
  | _ => false

def isArr : Json.Value → Bool
  | .arr _ => true
  | _ => false

/-- a message of the server that is valid; what it carries is left out -/
inductive ServerMessage where
  | request
  | notification
  | answer (id : Id)

/-- an error object: `code` is an integer and `message` a text -/
def validError : Json.Value → Bool
  | .obj fields => (field fields "code").any isInt && (field fields "message").any isStr
  | _ => false

/-- `_valid_server_message` -/
def serverMessage : Json.Value → Option ServerMessage
  | .obj fields =>
    if field fields "jsonrpc" ≠ some (.str (text "2.0")) then none
    else match field fields "method" with
      | some method =>
        if isStr method ∧ field fields "result" = none ∧ field fields "error" = none ∧
            ((field fields "params").all fun p => isObj p || isArr p) then
          some (if (field fields "id").isSome then .request else .notification)
        else none
      | none => match field fields "id", field fields "result", field fields "error" with
        | some id, some result, none => if isObj result then some (.answer id) else none
        | some id, none, some error => if validError error then some (.answer id) else none
        | _, _, _ => none
  | _ => none

/-! ## operations -/

/-- why a session was closed -/
inductive Reason where
  | transportClosed | sessionStart | responseTimeout | unpairedResponse | serverMessage
  deriving DecidableEq, Repr

inductive Accepted where
  | duplicate
  | full
  | ok (tag : Nat)

/-- the locked section of `_transform` -/
inductive Pairing where
  | refused
  | internal
  | unpaired
  | paired (tag : Nat)

/-- what becomes of an answer after it was paired: an exception, the answer that an input request
gets, or the answer itself with the id that `sanitize_object` leaves -/
inductive Processed where
  | failed
  | inputRequest
  | complete (id : Id)

/-- An accepted request is known by its number (`tag`). -/
inductive Op where
  /-- the controller lock -/
  | acquire
  | release
  | stopped
  | setStopped
  | restartable
  | forbidRestart
  /-- the epoch of `self.connection` -/
  | connection
  /-- the locked section of `Proxy.request` -/
  | accept (id : Id)
  /-- the checks of a tool call: it goes to the server, or it is answered here -/
  | checks
  /-- a line with an answer to an accepted request -/
  | emit (tag : Nat) (id : Id)
  /-- any other line -/
  | emitOther (id : Id)
  | clearPending (id : Id)
  | accepting (epoch : Option Nat)
  /-- the locked section of `finish_session` -/
  | finishCheck
  | kill
  /-- the locked section of `abandon`: the requests that were waiting -/
  | abandon
  /-- `spawn` up to `open_session` -/
  | popen
  | openSession
  /-- `initialize_message is not None`, `client_initialized` -/
  | hasInitialize
  | clientInitialized
  | expectInternal
  | waitInternal
  /-- write to `self.connection`; whether it succeeded -/
  | write (tag : Option Nat)
  | close (reason : Reason) (epoch : Nat)
  | overdue
  | batchPairable (ids : List Id)
  | transform (epoch : Nat) (id : Id)
  | process (id : Id)
  /-- the child of this connection ends -/
  | ended (epoch : Nat)

@[reducible] def Op.Choice : Op → Type
  | .checks | .popen | .hasInitialize | .clientInitialized | .waitInternal | .write _ | .overdue =>
    Bool
  | .expectInternal => Id
  | .process _ => Processed
  | _ => Unit

@[reducible] def Op.Answer : Op → Type
  | .acquire | .stopped | .restartable | .checks | .accepting _ | .popen | .hasInitialize
  | .clientInitialized | .waitInternal | .write _ | .close _ _ | .overdue | .batchPairable _ => Bool
  | .connection | .openSession => Nat
  | .accept _ => Accepted
  | .finishCheck => Option Reason
  | .abandon => List (Id × Nat)
  | .transform _ _ => Pairing
  | .process _ => Processed
  | _ => Unit

abbrev sig : Sig := ⟨Op, Op.Choice, Op.Answer⟩

/-! ## state -/

/-- who took a request up: it will answer it, or hand it over to the server -/
inductive Owner where
  | controller
  | thread (p : Nat)
  deriving DecidableEq, Repr

def Owner.isThread : Owner → Bool
  | .controller => false
  | .thread _ => true

structure State where
  lock : Option Nat
  stopped : Bool
  restartable : Bool
  /-- the epoch of `self.connection`, and the connections that were neither killed nor ended -/
  connection : Nat
  alive : List Nat
  sessionOpen : Bool
  epoch : Nat
  reason : Option Reason
  /-- ids and numbers of the requests that wait, in the order of the dictionary -/
  pending : List (Id × Nat)
  internal : List Id
  /-- the ids of all requests that were accepted, by number -/
  accepted : List Id
  /-- the requests that were written, with the epoch of the connection -/
  written : List (Nat × Nat)
  holder : Nat → Option Owner
  /-- standard output, the newest line first: the request that is answered, and the id -/
  out : List (Option Nat × Id)
  /-- the session was closed since `finish_session` looked at it -/
  closedSince : Bool
  /-- a step did not meet the condition `meets` -/
  broken : Bool

/-- after the start of the controller -/
def State.start : State where
  lock := none
  stopped := false
  restartable := true
  connection := 1
  alive := [1]
  sessionOpen := true
  epoch := 1
  reason := none
  pending := []
  internal := []
  accepted := []
  written := []
  holder _ := none
  out := []
  closedSince := false
  broken := false

namespace State
variable (rt : Runtime) (s : State)

def maxPending : Nat := 64

/-- `_accepting` -/
def isAccepting (epoch : Option Nat) : Bool :=
  s.sessionOpen && (epoch = none || epoch = some s.epoch)

/-- `pending[id]` -/
def find (id : Id) : Option (Id × Nat) := s.pending.find? fun e => sameKey rt e.1 id

/-- the request was written to a connection -/
def wasWritten (tag : Nat) : Bool := s.written.any fun w => w.1 = tag

/-- these requests are taken up -/
def take (owner : Owner) (tags : List Nat) : State :=
  { s with holder := fun t => if t ∈ tags then some owner else s.holder t }

/-- `id in self.pending or id in self.internal_requests`, with no id twice -/
def pairable : List Id → List Id → Bool
  | _, [] => true
  | seen, id :: rest =>
    hashable id && ((s.find rt id).isSome || s.internal.any fun i => sameKey rt i id) &&
      !(seen.any fun i => sameKey rt i id) && pairable (seen ++ [id]) rest

/-- the locked section of `_transform` -/
def pair (p epoch : Nat) (id : Id) : Pairing × State :=
  if !s.isAccepting (some epoch) then (.refused, s)
  else if !hashable id then (.unpaired, s)
  else if s.internal.any fun i => sameKey rt i id then
    (.internal, { s with internal := s.internal.filter fun i => !sameKey rt i id })
  else match s.find rt id with
    | none => (.unpaired, s)
    | some e =>
      (.paired e.2, { s.take (.thread p) [e.2] with pending := s.pending.filter fun x => x.2 ≠ e.2 })

/-- a response thread took a request up and has not written its answer yet -/
def inHand : Bool := (List.range s.accepted.length).any fun t =>
  (s.holder t).any Owner.isThread && !s.out.any fun line => line.1 = some t

/-- The condition on a step: an answer is paired with a request that was written, under the very id
of the request, and is passed on with that id; and a session is opened only when the last one was
not closed after `finish_session` had looked at it and no answer is in hand. -/
def meets : (o : Op) → o.Choice → Bool
  | .transform epoch id, _ => match (s.pair rt 0 epoch id).1 with
    | .paired tag => s.wasWritten tag && decide (s.accepted[tag]? = some id)
    | _ => true
  | .process id, a => match a with
    | .failed => false
    | .inputRequest => true
    | .complete id' => decide (id' = id)
  | .openSession, _ => !s.closedSince && !s.inHand
  | _, _ => true

end State

/-- what an operation of the process `p` does -/
def Op.exec (rt : Runtime) (p : Nat) (s : State) : (o : Op) → o.Choice → o.Answer × State
  | .acquire, _ => match s.lock with
    | none => (true, { s with lock := some p })
    | some _ => (false, s)
  | .release, _ => ((), { s with lock := none })
  | .stopped, _ => (s.stopped, s)
  | .setStopped, _ => ((), { s with stopped := true })
  | .restartable, _ => (s.restartable, s)
  | .forbidRestart, _ => ((), { s with restartable := false })
  | .connection, _ => (s.connection, s)
  | .accept id, _ =>
    if (s.find rt id).isSome then (.duplicate, s)
    else if s.pending.length ≥ State.maxPending then (.full, s)
    else
      let tag := s.accepted.length
      (.ok tag, { s.take .controller [tag] with
        pending := s.pending ++ [(id, tag)]
        accepted := s.accepted ++ [id] })
  | .checks, a => (a, s)
  | .emit tag id, _ => ((), { s with out := (some tag, id) :: s.out })
  | .emitOther id, _ => ((), { s with out := (none, id) :: s.out })
  | .clearPending id, _ =>
    ((), { s with pending := s.pending.filter fun e => !sameKey rt e.1 id })
  | .accepting epoch, _ => (s.isAccepting epoch, s)
  | .finishCheck, _ =>
    (if s.sessionOpen then none else s.reason, { s with closedSince := false })
  | .kill, _ => ((), { s with alive := s.alive.filter fun c => c ≠ s.connection })
  | .abandon, _ =>
    (s.pending, { s.take .controller (s.pending.map Prod.snd) with
      pending := []
      internal := []
      reason := none })
  | .popen, a => (a, s)
  | .openSession, _ =>
    (s.epoch + 1, { s with
      epoch := s.epoch + 1
      sessionOpen := true
      reason := none
      connection := s.epoch + 1
      alive := (s.epoch + 1) :: s.alive })
  | .hasInitialize, a => (a, s)
  | .clientInitialized, a => (a, s)
  | .expectInternal, id => ((), { s with internal := id :: s.internal })
  | .waitInternal, a => (a, s)
  | .write none, a => (a, s)
  | .write (some tag), a =>
    (a, { s with
      written := (tag, s.connection) :: s.written
      holder := fun t => if t = tag then none else s.holder t })
  | .close reason epoch, _ =>
    if s.isAccepting (some epoch) then
      (true, { s with
        sessionOpen := false
        reason := some reason
        closedSince := true })
    else (false, s)
  | .overdue, a => (a && s.sessionOpen, s)
  | .batchPairable ids, _ => (s.pairable rt [] ids, s)
  | .transform epoch id, _ => s.pair rt p epoch id
  | .process _, a => (a, s)
  | .ended epoch, _ => ((), { s with alive := s.alive.filter fun c => c ≠ epoch })

/-- the operations of the process `p`, with `broken` kept up to date -/
def machine (rt : Runtime) (p : Nat) : Machine sig State where
  exec o a s :=
    ((o.exec rt p s a).1,
      { (o.exec rt p s a).2 with broken := s.broken || !s.meets rt o a })

/-! ## programs -/

abbrev P (α : Type) := Prog sig Unit α

def call (o : Op) : P o.Answer := .op o .ret

/-- one `SessionTerminated` error for every request that was waiting -/
def emitAll : List (Id × Nat) → P Unit
  | [] => return
  | (id, tag) :: rest => do
    call (.emit tag id)
    emitAll rest

/-- `Proxy.abandon` -/
def abandon : P Unit := do
  let waiting ← call .abandon
  emitAll waiting

/-- `_SessionController._reap` with `Proxy.finish_session` -/
def reap : P Unit := do
  match ← call .finishCheck with
  | none => return
  | some reason =>
    call .kill
    abandon
    if reason = .transportClosed ∨ reason = .sessionStart then call .forbidRestart

/-- a message that goes to the server: its number if it was accepted, whether it has an id and
whether it is an `initialize` -/
structure Forwarded where
  tag : Option Nat
  hasId : Bool
  isInitialize : Bool

def maxRequestBytes : Nat := 1048576
def maxServerFrameBytes : Nat := 33554432

/-- an id that a client may use -/
def validId : Id → Bool
  | .null | .str _ | .int _ => true
  | _ => false

/-- an error that answers no accepted request -/
def refuse (id : Id) : P (Option Forwarded) := do
  call (.emitOther id)
  return none

/-- the rest of `Proxy.request`, after the request was accepted or need not be -/
def dispatch (method : Option Json.Value) (id : Option Id) (tag : Option Nat) :
    P (Option Forwarded) := do
  let forwarded : Forwarded := ⟨tag, id.isSome, method = some (.str (text "initialize"))⟩
  if method ≠ some (.str (text "tools/call")) then return some forwarded
  if ← call .checks then return some forwarded
  match tag, id with
  | some tag, some id =>
    call (.emit tag id)
    call (.clearPending id)
    return none
  | _, _ => return none

/-- `Proxy.request` -/
def request (rt : Runtime) (raw : Bytes) : P (Option Forwarded) := do
  if raw.length > maxRequestBytes then refuse .null
  else match rt.document raw with
    | some (.obj fields) =>
      let method := field fields "method"
      match field fields "id" with
      | none => dispatch method none none
      | some id =>
        if !validId id then refuse .null
        else if method.any isStr then
          match ← call (.accept id) with
          | .duplicate => refuse id
          | .full => refuse id
          | .ok tag => dispatch method (some id) (some tag)
        else dispatch method (some id) none
    | _ => refuse .null

/-- `_replay_initialize` -/
def replayInitialize (epoch : Nat) : P Bool := do
  if !(← call .hasInitialize) then return true
  call .expectInternal
  if !(← call (.write none)) then return false
  if !(← call .waitInternal) then return false
  if ← call .clientInitialized then
    if !(← call (.write none)) then return false
  call (.accepting (some epoch))

/-- `_restart` -/
def restart (forwarded : Forwarded) : P Bool := do
  if !(← call .popen) then
    call .forbidRestart
    abandon
    return false
  let epoch ← call .openSession
  if forwarded.isInitialize then return true
  if ← replayInitialize epoch then return true
  let _ ← call (.close .sessionStart epoch)
  reap
  return false

/-- `with self.lock`; a process that does not get the lock is not heard of again -/
def withLock {α : Type} (body : P α) : P α := do
  if ← call .acquire then
    let r ← body
    call .release
    return r
  else .stuck

/-- the write of `forward` and what follows when it fails -/
def send (forwarded : Forwarded) : P Bool := do
  let epoch ← call .connection
  if ← call (.write forwarded.tag) then return true
  let _ ← call (.close .transportClosed epoch)
  reap
  return false

/-- `forward`, after `request` returned a message for the server -/
def deliver (forwarded : Forwarded) : P Bool := do
  if ← call (.accepting none) then send forwarded
  else if !forwarded.hasId then return true
  else if !(← call .restartable) then
    abandon
    return false
  else if ← restart forwarded then send forwarded
  else return false

/-- `_SessionController.forward` -/
def forward (rt : Runtime) (line : Bytes) : P Bool := withLock do
  reap
  match ← request rt line with
  | none => return true
  | some forwarded => deliver forwarded

/-- one round of `_SessionController._watch` -/
def watch : P Bool := withLock do
  if ← call .stopped then return true
  if ← call .overdue then
    let epoch ← call .connection
    let _ ← call (.close .responseTimeout epoch)
  reap
  return true

/-- the locked part of `_SessionController.stop` -/
def stop : P Bool := withLock do
  call .setStopped
  reap
  return true

/-- the id of the error that stands for an input request -/
def inputRequestId : Id → Id
  | .str s => .str s
  | .int n => .int n
  | _ => .null

/-- `_transform`: the line that goes out, if one does -/
def transform (epoch : Nat) : ServerMessage → P (Option (Option Nat × Id))
  | .request => return none
  | .notification => return some (none, .null)
  | .answer id => do
    match ← call (.transform epoch id) with
    | .refused => return none
    | .internal => return none
    | .unpaired =>
      let _ ← call (.close .unpairedResponse epoch)
      return none
    | .paired tag =>
      match ← call (.process id) with
      | .failed => throw ()
      | .inputRequest => return some (some tag, inputRequestId id)
      | .complete id' => return some (some tag, id')

def transformAll (epoch : Nat) : List ServerMessage → P (List (Option Nat × Id))
  | [] => return []
  | m :: rest => do
    let line ← transform epoch m
    let lines ← transformAll epoch rest
    return line.toList ++ lines

def answerIds (messages : List ServerMessage) : List Id :=
  messages.filterMap fun
    | .answer id => some id
    | _ => none

/-- `_refuse_server_message` -/
def refuseServerMessage (epoch : Nat) : P (List (Option Nat × Id)) := do
  let _ ← call (.close .serverMessage epoch)
  return []

/-- `bytes.strip` removes it -/
def isSpace (b : UInt8) : Bool := b = 32 || (9 ≤ b && b ≤ 13)

/-- `Proxy.response` -/
def response (rt : Runtime) (epoch : Nat) (raw : Bytes) : P (List (Option Nat × Id)) := do
  if !(← call (.accepting (some epoch))) then return []
  if raw.length > maxServerFrameBytes then refuseServerMessage epoch
  else if raw.all isSpace then return []
  else match rt.serverDocument raw with
    | none => refuseServerMessage epoch
    | some (.arr items) => match items.mapM serverMessage with
      | none | some [] => refuseServerMessage epoch
      | some messages =>
        if ← call (.batchPairable (answerIds messages)) then transformAll epoch messages
        else
          let _ ← call (.close .unpairedResponse epoch)
          return []
    | some v => match serverMessage v with
      | none => refuseServerMessage epoch
      | some m => do
        let line ← transform epoch m
        return line.toList

def emitLines : List (Option Nat × Id) → P Unit
  | [] => return
  | (some tag, id) :: rest => do
    call (.emit tag id)
    emitLines rest
  | (none, id) :: rest => do
    call (.emitOther id)
    emitLines rest

/-- one frame in `_responses` -/
def frame (rt : Runtime) (epoch : Nat) (raw : Bytes) : P Bool := do
  match ← (response rt epoch raw).attempt with
  | .ok lines => emitLines lines
  | .error () => if ← call (.accepting (some epoch)) then call (.emitOther .null)
  return true

/-- the end of `_responses` -/
def connectionEnd (epoch : Nat) : P Bool := do
  if ← call (.accepting (some epoch)) then
    let _ ← call (.close .transportClosed epoch)
  return true

/-- what may happen next: a line of the client, a round of the watcher, the end of the client, a
frame of a connection, the end of its output, the end of its process -/
inductive Call where
  | forward (line : Bytes)
  | watch
  | stop
  | frame (epoch : Nat) (raw : Bytes)
  | connectionEnd (epoch : Nat)
  | ended (epoch : Nat)

def Call.prog (rt : Runtime) : Call → P Bool
  | .forward line => Helper.forward rt line
  | .watch => Helper.watch
  | .stop => Helper.stop
  | .frame epoch raw => Helper.frame rt epoch raw
  | .connectionEnd epoch => Helper.connectionEnd epoch
  | .ended epoch => do
    call (.ended epoch)
    return true

/-- the proxy with all its threads -/
abbrev Threads := Sys sig State Unit Bool Call

/-- a run of the proxy leads to `w`; a thread may stop for good at any point -/
def Reachable (rt : Runtime) (w : Threads) : Prop :=
  Sys.Reach (machine rt) (fun _ s => s) (Call.prog rt) State.start w

end Netops.Helper
