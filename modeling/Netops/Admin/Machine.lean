import Netops.Admin.Data
import Netops.Lib.Prog
import Netops.Lib.Trace

/-!
# What the change service does to the world

The operations the programs of `execute.py`, `state.py` and `enrollment.py` are made of, and what
each of them does to the state directory, to the locks and to the history.

* `Ask`      calls whose answer the environment chooses: the device (through its adapter), the
             engine and the auditor, the host.  Each may answer anything or raise;
* `FileOp`   reads and atomic writes of one state file.  A write is `done`, `lost` (it raised and
             the old file stays) or `late` (it raised after the new file was in place);
* `LockOp`   device locks, target locks and the admission lock;
* `State`    the files, the locks, the tokens drawn, the budget clock and the `trace`: every
             operation with its answer and with the files before and after it, newest first;
* `machine p`   the operations as the process `p` does them; `State.crash` is the death of one.
-/

namespace Netops
open Effect

/-- the number of a process -/
abbrev Pid := Nat

/-! ## operations -/

/-- calls of `access_factory`, of the adapter and of the access object -/
inductive DeviceCall where
  | connect
  | snapshot
  | accountsCheck (text : String)
  | leftovers
  | hostname (text : String)
  | prechecks (text hostname : String)
  | ports (table : String)
  | planPrechecks (plan : Plan) (text : String)
  /-- `engine.observed_state(plan, adapter.observe(access, plan))` -/
  | observe (plan : Plan)
  | foreignSessions
  | clock
  | installSafeguard (safeguard : Safeguard) (plan : Plan)
  | apply (lines : List String)
  | removeSafeguard
  | removeRemaining
  | revokeToken
  | safeguardAbsent
  | safeguardDisarmed
  | safeguardFired
  | persist
  /-- `engine.verify(plan, text.encode("utf-8"), expect=side)` -/
  | verify (plan : Plan) (text : String) (side : Side)
  /-- the auditor on the snapshot after the change: its new blocking findings -/
  | auditGate (plan : Plan) (before : List String) (text : String)
  deriving DecidableEq

@[reducible] def DeviceCall.Reply : DeviceCall → Type
  | .connect => Unit
  | .snapshot => String
  | .accountsCheck _ => String
  | .leftovers => List String
  | .hostname _ => String
  | .prechecks _ _ => List String
  | .ports _ => Option (List String)
  | .planPrechecks _ _ => List String
  | .observe _ => Option Attrs
  | .foreignSessions => Nat
  | .clock => Int
  -- the problems found, and the time the device shows for the timer
  | .installSafeguard _ _ => List String × Option Int
  | .apply _ => Unit
  | .removeSafeguard => Bool
  | .removeRemaining => Bool
  | .revokeToken => Option Bool
  | .safeguardAbsent => Bool
  | .safeguardDisarmed => Bool
  | .safeguardFired => Bool
  | .persist => Bool
  | .verify _ _ _ => Verdict
  | .auditGate _ _ _ => List String

/-- the events of the audit log -/
inductive AuditEvent where
  | start (record : Record) (changes : List (String × Option String)) (safeguard : String)
  | step (changeId : ChangeId) (device : String) (name : StepName) (detail : Option String)
  | result (record : Record)
  | delivery (changeId : ChangeId) (device : String) (notification : Option Notification)
      (auditDelivery : Option ExportState)
  | administrative (device action : String) (reasonCharacters : Nat) (changeId : Option ChangeId)
  deriving DecidableEq

/-- calls of the planner, of the clock, of the audit log and of the notifier -/
inductive HostCall where
  | buildPlan (request : Request) (text : String) (enrolling undo : Bool)
      (ports : Option (List String))
  /-- `engine._read_plan` -/
  | readPlan (plan : Plan)
  /-- the audit of the snapshot and of its prediction, before the change -/
  | auditBefore (plan : Plan) (text : String)
  /-- the counts in the detail of the step `audit_passed` -/
  | auditSummary (before : List String)
  | planDigest (plan : Plan)
  /-- the changes of `undo_request`, from the plan and its profile -/
  | undoChanges (plan : Plan)
  /-- the operations of a schema undo and the state it expects -/
  | undoOperations (plan : Plan)
  | fingerprint (request : Request)
  /-- `enrollment.binding` -/
  | binding (device : Device) (accounts : String) (firmware : Option String)
  /-- the probe request of `enrollment.run` -/
  | probe (device : Device) (value : String)
  | auditEvent (event : AuditEvent)
  | auditWritable
  | exportState
  | exportUpdatedAt
  | notify (record : Record)
  | time
  | monotonic
  | sleep (seconds : ℚ)
  deriving DecidableEq

@[reducible] def HostCall.Reply : HostCall → Type
  | .buildPlan _ _ _ _ _ => Plan
  | .readPlan _ => Unit
  -- the findings before, the predicted new ones
  | .auditBefore _ _ => List String × List String
  | .auditSummary _ => String
  | .planDigest _ => String
  | .undoChanges _ => PlanOp × List (String × Option String)
  | .undoOperations _ => List Operation × Option Attrs
  | .fingerprint _ => String
  | .binding _ _ _ => String
  | .probe _ _ => Request
  | .auditEvent _ => Unit
  | .auditWritable => Unit
  | .exportState => ExportState × String
  | .exportUpdatedAt => Option ℚ
  -- whether the notifier answered `"sent"`
  | .notify _ => Bool
  | .time => ℚ
  | .monotonic => ℚ
  | .sleep _ => Unit

/-- operations on the files of the state directory -/
inductive FileOp where
  | listOps
  | readOp (c : ChangeId)
  | saveOp (r : Record)
  /-- the second half of `Store._updated`: write unless the file changed since `revision` -/
  | saveOpIf (r : Record) (revision : Nat)
  | readRequest (id : String)
  | writeRequest (id : String) (entry : RequestEntry)
  | readBlock (device : String)
  | writeBlock (device : String) (block : Block)
  /-- `Store.unblock`: remove the block unless it is not `expected` any more -/
  | removeBlock (device : String) (expected : Block)
  | readBaseline (device : String)
  | writeBaseline (device accounts : String)
  | clearBaseline (device : String)
  | readEnrollment (device : String)
  | writeEnrollment (device : String) (certificate : Certificate)
  | clearEnrollment (device : String)
  | readRejections
  | noteRejection (now : ℚ)
  | checkWritable
  deriving DecidableEq

inductive BlockRemoval where
  | removed | absent | changed (now : Block)
  deriving DecidableEq

@[reducible] def FileOp.Reply : FileOp → Type
  | .listOps => List ChangeId
  | .readOp _ => Option (Record × Nat)
  | .saveOp _ => Unit
  | .saveOpIf _ _ => Bool
  | .readRequest _ => Option RequestEntry
  | .writeRequest _ _ => Unit
  | .readBlock _ => Option Block
  | .writeBlock _ _ => Unit
  | .removeBlock _ _ => BlockRemoval
  | .readBaseline _ => Option String
  | .writeBaseline _ _ => Unit
  | .clearBaseline _ => Unit
  | .readEnrollment _ => Option Certificate
  | .writeEnrollment _ _ => Unit
  | .clearEnrollment _ => Unit
  | .readRejections => List ℚ
  | .noteRejection _ => Unit
  | .checkWritable => Unit

inductive LockOp where
  | lockDevice (device : String)
  | unlockDevice (device : String)
  /-- `device in store._held` -/
  | holdsDevice (device : String)
  | lockTarget (fingerprint : String)
  | unlockTarget (fingerprint : String)
  | lockAdmission
  | unlockAdmission
  deriving DecidableEq

/-- A call made to the device carries the device and, once there is one, the operation it is made
for. -/
inductive Op where
  | device (name : String) (change : Option ChangeId) (call : DeviceCall)
  | host (call : HostCall)
  | file (op : FileOp)
  | lock (op : LockOp)
  /-- `secrets.token_hex(16)` -/
  | tokenHex
  /-- `Store.budget_now` -/
  | budgetNow
  deriving DecidableEq

/-- what becomes of an operation on a state file; `lost` and `late` raise the exception -/
inductive Fate where
  | done
  | lost (e : Exn)
  | late (e : Exn)

@[reducible] def Op.Choice : Op → Type
  | .device _ _ call => Except Exn call.Reply
  | .host call => Except Exn call.Reply
  | .file _ => Fate
  | .lock _ => Option Exn
  | .tokenHex => Nat
  | .budgetNow => Except Exn ℚ

@[reducible] def Op.Answer : Op → Type
  | .device _ _ call => Except Exn call.Reply
  | .host call => Except Exn call.Reply
  | .file op => Except Exn op.Reply
  | .lock _ => Except Exn Bool
  | .tokenHex => ChangeId
  | .budgetNow => Except Exn ℚ

/-- the signature of the programs of the change service -/
abbrev adminSig : Sig := ⟨Op, Op.Choice, Op.Answer⟩

/-! ## state -/

/-- the files of the state directory; `revision c` counts the writes of the record of `c` -/
structure Store where
  ops : ChangeId → Option Record
  ids : List ChangeId
  revision : ChangeId → Nat
  requests : String → Option RequestEntry
  blocked : String → Option Block
  baselines : String → Option String
  enrollments : String → Option Certificate
  rejections : List ℚ

def Store.empty : Store where
  ops _ := none
  ids := []
  revision _ := 0
  requests _ := none
  blocked _ := none
  baselines _ := none
  enrollments _ := none
  rejections := []

namespace Store

/-- the directory after the record is written -/
def save (st : Store) (r : Record) : Store :=
  { st with
    ops := Function.update st.ops r.changeId (some r)
    ids := if r.changeId ∈ st.ids then st.ids else r.changeId :: st.ids
    revision := Function.update st.revision r.changeId (st.revision r.changeId + 1) }

def rejectionWindow : ℚ := 3600
def maxRejectionEntries : Nat := 10000

/-- `Store.note_rejection` -/
def noteRejection (st : Store) (now : ℚ) : List ℚ :=
  let kept := st.rejections.filter (fun moment => now - rejectionWindow ≤ moment) ++ [now]
  kept.drop (kept.length - maxRejectionEntries)

/-- the directory after the operation `op` has taken effect -/
def write (st : Store) : FileOp → Store
  | .saveOp r => st.save r
  | .saveOpIf r revision => if st.revision r.changeId = revision then st.save r else st
  | .writeRequest id entry => { st with requests := Function.update st.requests id (some entry) }
  | .writeBlock d b => { st with blocked := Function.update st.blocked d (some b) }
  | .removeBlock d expected =>
      if st.blocked d = some expected then { st with blocked := Function.update st.blocked d none }
      else st
  | .writeBaseline d accounts =>
      { st with baselines := Function.update st.baselines d (some accounts) }
  | .clearBaseline d => { st with baselines := Function.update st.baselines d none }
  | .writeEnrollment d certificate =>
      { st with enrollments := Function.update st.enrollments d (some certificate) }
  | .clearEnrollment d => { st with enrollments := Function.update st.enrollments d none }
  | .noteRejection now => { st with rejections := st.noteRejection now }
  | _ => st

/-- what a reader of the directory is told -/
def read (st : Store) : (op : FileOp) → op.Reply
  | .listOps => st.ids.mergeSort
  | .readOp c => (st.ops c).map fun r => (r, st.revision c)
  | .saveOp _ => ()
  | .saveOpIf r revision => st.revision r.changeId = revision
  | .readRequest id => st.requests id
  | .writeRequest _ _ => ()
  | .readBlock d => st.blocked d
  | .writeBlock _ _ => ()
  | .removeBlock d expected =>
      match st.blocked d with
      | none => .absent
      | some b => if b = expected then .removed else .changed b
  | .readBaseline d => st.baselines d
  | .writeBaseline _ _ => ()
  | .clearBaseline _ => ()
  | .readEnrollment d => st.enrollments d
  | .writeEnrollment _ _ => ()
  | .clearEnrollment _ => ()
  | .readRejections => st.rejections
  | .noteRejection _ => ()
  | .checkWritable => ()

end Store

/-- one operation of the process `pid`, with the files before and after it -/
structure Event where
  pid : Pid
  call : (op : Op) × op.Answer
  before : Store
  after : Store

structure State where
  store : Store
  locks : String → Option Pid
  targets : String → Option Pid
  admission : Option Pid
  /-- the tokens drawn so far, and by whom -/
  tokens : ChangeId → Option Pid
  drawn : List ChangeId
  clock : ℚ
  trace : List Event

/-- an empty state directory, nothing done yet; the budget clock starts anywhere -/
def State.initial (clock : ℚ) : State where
  store := .empty
  locks _ := none
  targets _ := none
  admission := none
  tokens _ := none
  drawn := []
  clock := clock
  trace := []

namespace State

def lockBusy : Exn := .rejected ["another operation holds the device lock"]
def targetBusy : Exn := .rejected ["another operation holds the target lock"]
def admissionBusy : Exn :=
  .rejected ["another operation holds the admission lock of the journal"]

/-- the operation with its answer goes into the trace -/
def log (s : State) (p : Pid) (op : Op) (answer : op.Answer) (after : Store) : State :=
  { s with store := after, trace := ⟨p, ⟨op, answer⟩, s.store, after⟩ :: s.trace }

def fileOp (s : State) (p : Pid) (op : FileOp) : Fate → Except Exn op.Reply × State
  | .done => (.ok (s.store.read op), s.log p (.file op) (.ok (s.store.read op)) (s.store.write op))
  | .lost e => (.error e, s.log p (.file op) (.error e) s.store)
  | .late e => (.error e, s.log p (.file op) (.error e) (s.store.write op))

/-- A lock is not waited for: it is taken when it is free, and refused otherwise.  The admission
lock is tried for some seconds; its last attempt is the one that counts here. -/
def lockOp (s : State) (p : Pid) (refused : Option Exn) : LockOp → Except Exn Bool × State
  | .lockDevice d =>
      match refused, s.locks d with
      | none, none => (.ok true, { s with locks := Function.update s.locks d (some p) })
      | none, some _ => (.error lockBusy, s)
      | some e, _ => (.error e, s)
  | .unlockDevice d =>
      (.ok true, if s.locks d = some p then { s with locks := Function.update s.locks d none } else s)
  | .holdsDevice d => (.ok (decide (s.locks d = some p)), s)
  | .lockTarget f =>
      match refused, s.targets f with
      | none, none => (.ok true, { s with targets := Function.update s.targets f (some p) })
      | none, some _ => (.error targetBusy, s)
      | some e, _ => (.error e, s)
  | .unlockTarget f =>
      (.ok true,
        if s.targets f = some p then { s with targets := Function.update s.targets f none } else s)
  | .lockAdmission =>
      match refused, s.admission with
      | none, none => (.ok true, { s with admission := some p })
      | none, some _ => (.error admissionBusy, s)
      | some e, _ => (.error e, s)
  | .unlockAdmission => (.ok true, if s.admission = some p then { s with admission := none } else s)

/-- tokens do not repeat: a number that was drawn before is replaced by an unused one -/
def freshToken (s : State) (n : Nat) : ChangeId :=
  if n ∈ s.drawn then s.drawn.foldr max 0 + 1 else n

/-- the operations as the process `p` does them; the budget clock never goes back -/
def exec (p : Pid) : (op : Op) → op.Choice → State → op.Answer × State
  | .device d c call, answer, s => (answer, s.log p (.device d c call) answer s.store)
  | .host call, answer, s => (answer, s.log p (.host call) answer s.store)
  | .file op, fate, s => s.fileOp p op fate
  | .lock op, refused, s => s.lockOp p refused op
  | .tokenHex, n, s =>
      (s.freshToken n, { s with
        tokens := Function.update s.tokens (s.freshToken n) (some p)
        drawn := s.freshToken n :: s.drawn })
  | .budgetNow, .error e, s => (.error e, s)
  | .budgetNow, .ok now, s =>
      (.ok (max s.clock now),
        { s.log p .budgetNow (.ok (max s.clock now)) s.store with clock := max s.clock now })

/-- what is left when the process `p` dies: its locks are free again -/
def crash (p : Pid) (s : State) : State :=
  { s with
    locks := fun d => if s.locks d = some p then none else s.locks d
    targets := fun f => if s.targets f = some p then none else s.targets f
    admission := if s.admission = some p then none else s.admission }

end State

/-- the process `p` -/
def machine (p : Pid) : Machine adminSig State := ⟨State.exec p⟩

/-- programs of the change service -/
abbrev Admin (α : Type) : Type := Prog adminSig Exn α

end Netops
