import Mathlib.Algebra.Order.Ring.Rat
import Mathlib.Algebra.Ring.Nat
import Mathlib.Data.Rat.Defs
import Mathlib.Tactic.Common

/-!
# The data of the change service

Plans, requests and journal records (`execute.py`, `state.py`), the exceptions (`errors.py`) and
the results and reasons a record is finished with (`blocking.py`).

* `Reason`, `Result`, `blocks`   what a finished record says, and which of it blocks the device;
* `Exn`                          the exceptions; `Exn.isRejected` is `isinstance(_, Rejected)`;
* `Plan`, `Request`, `Device`, `Config`;
* `Record`                       one journal file of `operations/`; `Record.counted`,
                                 `Record.moment`, `Record.weight` are what the budgets read.
-/

namespace Netops

/-- the name of an operation: the 128 bits of `secrets.token_hex(16)`, as a number -/
abbrev ChangeId := Nat

/-- the dictionaries of object attributes, in the order of their names -/
abbrev Attrs := List (String × String)

/-- `%x`, padded to `n` digits -/
def hexDigits (n c : Nat) : String :=
  let digits := Nat.toDigits 16 c
  String.ofList (List.replicate (n - digits.length) '0' ++ digits)

/-- the 32 characters that name the journal file -/
def ChangeId.text (c : ChangeId) : String := hexDigits 32 c

inductive Platform where
  | fortios | exos | fortiadc
  deriving DecidableEq

def Platform.text : Platform → String
  | .fortios => "fortios"
  | .exos => "exos"
  | .fortiadc => "fortiadc"

/-! ## exceptions -/

inductive SnapshotCategory where
  | incomplete | scopeUnsupported | unreadable | firmwareMismatch
  deriving DecidableEq

def SnapshotCategory.text : SnapshotCategory → String
  | .incomplete => "snapshot incomplete"
  | .scopeUnsupported => "snapshot scope unsupported"
  | .unreadable => "snapshot unreadable"
  | .firmwareMismatch => "snapshot firmware mismatch"

/-- `Rejected`, its subclasses, `AccessError` and every other exception with its class name -/
inductive Exn where
  | rejected (reasons : List String)
  | snapshotRejected (reasons : List String) (category : SnapshotCategory)
  | budgetExhausted (reasons : List String)
  | stateUnreadable (reasons : List String)
  | incomplete (reasons : List String) (summary : String)
  | accessError (message : String) (acceptedLines : Nat)
  | other (name message : String)
  deriving DecidableEq

namespace Exn

def isRejected : Exn → Bool
  | .accessError _ _ => false
  | .other _ _ => false
  | _ => true

def isBudgetExhausted : Exn → Bool
  | .budgetExhausted _ => true
  | _ => false

def isSnapshotRejected : Exn → Bool
  | .snapshotRejected _ _ => true
  | _ => false

/-- an `OSError` or one of its subclasses -/
def isOSError : Exn → Bool
  | .other name _ => name == "OSError"
  | _ => false

def reasons : Exn → List String
  | .rejected l => l
  | .snapshotRejected l _ => l
  | .budgetExhausted l => l
  | .stateUnreadable l => l
  | .incomplete l _ => l
  | _ => []

/-- `type(exc).__name__` -/
def typeName : Exn → String
  | .rejected _ => "Rejected"
  | .snapshotRejected _ _ => "SnapshotRejected"
  | .budgetExhausted _ => "BudgetExhausted"
  | .stateUnreadable _ => "StateUnreadable"
  | .incomplete _ _ => "Incomplete"
  | .accessError _ _ => "AccessError"
  | .other name _ => name

/-- `str(exc)` -/
def message : Exn → String
  | .accessError m _ => m
  | .other _ m => m
  | e => "; ".intercalate e.reasons

/-- `getattr(exc, "accepted_lines", 0)` -/
def acceptedLines : Exn → Nat
  | .accessError _ n => n
  | _ => 0

end Exn

def shownCharacters : Nat := 64

/-- `repr` of a text: single quotes unless only these occur in it -/
def pyRepr (s : String) : String :=
  let quote := if s.contains '\'' && !s.contains '"' then '"' else '\''
  let shownChar (c : Char) : String :=
    if c == '\\' then "\\\\"
    else if c == quote then String.ofList ['\\', c]
    else if c == '\n' then "\\n"
    else if c == '\r' then "\\r"
    else if c == '\t' then "\\t"
    else if c.toNat < 32 || c.toNat == 127 then "\\x" ++ hexDigits 2 c.toNat
    else String.singleton c
  String.singleton quote ++ String.join (s.toList.map shownChar) ++ String.singleton quote

/-- `errors.shown` -/
def shown (s : String) : String :=
  if s.length ≤ shownCharacters then pyRepr s
  else pyRepr (String.ofList (s.toList.take shownCharacters)) ++ "... (" ++ toString s.length
    ++ " characters)"

/-! ## results -/

inductive Result where
  | confirmed | reverted | rejected | unknown | revertFailed
  deriving DecidableEq

def Result.text : Result → String
  | .confirmed => "confirmed"
  | .reverted => "reverted"
  | .rejected => "rejected"
  | .unknown => "unknown"
  | .revertFailed => "revert-failed"

/-- every reason text of `execute.py` -/
inductive Reason where
  | deviceClock | notPersisted | safeguardNotVerified | changeFailed
  | administratorTable | postcheckRejected | snapshot (category : SnapshotCategory)
  | postcheckUnavailable | predictionMismatch
  | auditIncomplete | auditUnavailable | auditFinding
  | checkIdentityUnavailable | checkIdentityMismatch | enrollmentSelfTest
  | noTimeLeft | finalCheckUnavailable | safeguardFired | foreignChange
  | confirmationUnverified | foreignAfterRemoval | foreignDuringSave | savedUnverified
  | cleanupUnverified | interrupted | interruptedBeforeMutation | interruptedUnreachable
  | interruptedSafeguardUnreadable | interruptedStateUnreadable | confirmedBeforeInterruption
  | interruptedConfirmStartMissing | interruptedNeitherSide | enrollmentNotification
  deriving DecidableEq

def Reason.text : Reason → String
  | .deviceClock => "device clock"
  | .notPersisted => "not persisted"
  | .safeguardNotVerified => "safeguard not verified"
  | .changeFailed => "change failed"
  | .administratorTable => "administrator table"
  | .postcheckRejected => "postcheck rejected"
  | .snapshot category => category.text
  | .postcheckUnavailable => "postcheck unavailable"
  | .predictionMismatch => "prediction mismatch"
  | .auditIncomplete => "audit incomplete"
  | .auditUnavailable => "audit unavailable"
  | .auditFinding => "audit finding"
  | .checkIdentityUnavailable => "check identity unavailable"
  | .checkIdentityMismatch => "check identity mismatch"
  | .enrollmentSelfTest => "enrollment self-test"
  | .noTimeLeft => "no time left to confirm"
  | .finalCheckUnavailable => "final check unavailable"
  | .safeguardFired => "safeguard fired during confirmation"
  | .foreignChange => "foreign change"
  | .confirmationUnverified => "confirmation unverified"
  | .foreignAfterRemoval => "foreign change after the safeguard was removed"
  | .foreignDuringSave => "foreign change during save"
  | .savedUnverified => "saved configuration unverified"
  | .cleanupUnverified => "safeguard cleanup unverified"
  | .interrupted => "interrupted"
  | .interruptedBeforeMutation => "interrupted before any mutation"
  | .interruptedUnreachable => "interrupted; device unreachable"
  | .interruptedSafeguardUnreadable => "interrupted; safeguard state unreadable"
  | .interruptedStateUnreadable => "interrupted; state unreadable"
  | .confirmedBeforeInterruption => "confirmed before the interruption"
  | .interruptedConfirmStartMissing =>
      "interrupted; device state matches the after side but confirm_start is missing"
  | .interruptedNeitherSide => "interrupted; state matches neither side"
  | .enrollmentNotification => "enrollment notification unavailable"

/-- `blocking.BLOCKING_RESULTS` -/
def blockingResults : List Result := [.unknown, .revertFailed]

/-- `blocking.BLOCKING_REASONS` -/
def blockingReasons : List Reason :=
  [.administratorTable, .foreignChange, .notPersisted, .foreignDuringSave, .savedUnverified,
    .postcheckRejected, .snapshot .incomplete, .snapshot .scopeUnsupported, .snapshot .unreadable,
    .snapshot .firmwareMismatch]

/-- `blocking.blocks` -/
def blocks (result : Result) (reason : Option Reason) : Bool :=
  result ∈ blockingResults || reason.any (· ∈ blockingReasons)

/-! ## plans, requests, devices -/

inductive PlanOp where
  | create | update | delete
  deriving DecidableEq

inductive Side where
  | before | after
  deriving DecidableEq

/-- a plan of `engine.build_plan`, or (`schema`) of `schema_runtime.build` -/
structure Plan where
  schema : Bool
  platform : Platform
  firmware : Option String
  table : String
  op : PlanOp
  key : String
  device : Option String
  requestId : String
  requestSha256 : String
  reasonCharacters : Nat
  userRequestCharacters : Nat
  snapshotSha256 : String
  restSha256 : String
  prechecks : List String
  commands : List String
  inverse : List String
  before : Option Attrs
  after : Option Attrs
  rollbackEvidence : String
  planSha256 : String
  safeguardId : Option ChangeId
  ports : Option (List String)
  generatedBindings : Attrs
  deriving DecidableEq

namespace Plan

/-- `plan["predicted"][side]` -/
def predicted (plan : Plan) : Side → Option Attrs
  | .before => plan.before
  | .after => plan.after

/-- the plan without the generated values, which are bound to it after the change -/
def unbound (plan : Plan) : Plan := { plan with generatedBindings := [], planSha256 := "" }

end Plan

/-- one operation of a schema transaction -/
structure Operation where
  path : String
  scope : Option String
  owners : List String
  op : PlanOp
  changes : List (String × Option String)
  deriving DecidableEq

/-- `Request`, or `Transaction` when `operations` is not `none` -/
structure Request where
  device : Option String
  table : String
  op : PlanOp
  key : String
  changes : List (String × Option String)
  operations : Option (List Operation)
  reason : String
  userRequest : String
  requestId : String
  fingerprint : String
  deriving DecidableEq

namespace Request

def isTransaction (request : Request) : Bool := request.operations.isSome

/-- `len(request.operations) if transaction else 1` -/
def count (request : Request) : Nat :=
  match request.operations with
  | some l => l.length
  | none => 1

end Request

structure Device where
  name : String
  platform : Platform
  hostKeyFingerprint : String
  firmware : Option String
  safeguardSeconds : Nat
  confirmMarginSeconds : Nat
  optIn : List String
  /-- the calibrated domains, for a device with a schema binding -/
  schema : Option (List String)
  deriving DecidableEq

structure Limits where
  changesPerDevicePerHour : Nat
  changesPerDay : Nat
  rejectionsPerHour : Nat
  planCommands : Nat
  journalRecords : Nat
  deriving DecidableEq

/-- the runtime: configuration, whether there is a notifier, `require_export` -/
structure Config where
  devices : String → Option Device
  name_eq : ∀ n d, devices n = some d → d.name = n
  limits : Limits
  notifier : Bool
  requireExport : Bool

/-! ## journal -/

inductive StepName where
  | clockUnreadable | safeguardInstall | safeguardNotVerified | safeguardVerified
  | changeStart | changeApplied | changeFailed | postcheckFailed | postcheckPassed
  | auditIncomplete | auditFailed | auditPassed | checkIdentityFailed | checkIdentityPassed
  | confirmSkipped | finalCheckFailed | confirmStart | confirmUnverified | removalCheckFailed
  | persistFailed | configurationSaved | savedCheckFailed | revertUnverified | safeguardKept
  | safeguardTokenRevoked | safeguardTokenRevokeUnverified | safeguardRemoved
  | safeguardRemovalUnverified | recoveryStart | recoveryAccessFailed
  | foreignSessions | foreignSessionsUnreadable | enrollmentNotificationVerified
  deriving DecidableEq

def StepName.text : StepName → String
  | .clockUnreadable => "clock_unreadable"
  | .safeguardInstall => "safeguard_install"
  | .safeguardNotVerified => "safeguard_not_verified"
  | .safeguardVerified => "safeguard_verified"
  | .changeStart => "change_start"
  | .changeApplied => "change_applied"
  | .changeFailed => "change_failed"
  | .postcheckFailed => "postcheck_failed"
  | .postcheckPassed => "postcheck_passed"
  | .auditIncomplete => "audit_incomplete"
  | .auditFailed => "audit_failed"
  | .auditPassed => "audit_passed"
  | .checkIdentityFailed => "check_identity_failed"
  | .checkIdentityPassed => "check_identity_passed"
  | .confirmSkipped => "confirm_skipped"
  | .finalCheckFailed => "final_check_failed"
  | .confirmStart => "confirm_start"
  | .confirmUnverified => "confirm_unverified"
  | .removalCheckFailed => "removal_check_failed"
  | .persistFailed => "persist_failed"
  | .configurationSaved => "configuration_saved"
  | .savedCheckFailed => "saved_check_failed"
  | .revertUnverified => "revert_unverified"
  | .safeguardKept => "safeguard_kept"
  | .safeguardTokenRevoked => "safeguard_token_revoked"
  | .safeguardTokenRevokeUnverified => "safeguard_token_revoke_unverified"
  | .safeguardRemoved => "safeguard_removed"
  | .safeguardRemovalUnverified => "safeguard_removal_unverified"
  | .recoveryStart => "recovery_start"
  | .recoveryAccessFailed => "recovery_access_failed"
  | .foreignSessions => "foreign_sessions"
  | .foreignSessionsUnreadable => "foreign_sessions_unreadable"
  | .enrollmentNotificationVerified => "enrollment_notification_verified"

structure Step where
  name : StepName
  detail : Option String
  deriving DecidableEq

inductive Status where
  | running | finished
  deriving DecidableEq

inductive RecordKind where
  | change | enrollment
  deriving DecidableEq

inductive Notification where
  | notConfigured | pending | sending | sent | failed | waived
  deriving DecidableEq

/-- `execute.UNDELIVERED` -/
def Notification.undelivered : Notification → Bool
  | .pending => true
  | .failed => true
  | .sending => true
  | _ => false

inductive ExportState where
  | notConfigured | blocked | pending | acknowledged
  deriving DecidableEq

/-- `record["safeguard"]`: the device time at which it fires, in seconds, and its name -/
structure Safeguard where
  fireAt : Int
  name : String
  deriving DecidableEq

/-- an operation record; a field that may be missing in the file is an `Option` -/
structure Record where
  changeId : ChangeId
  requestId : String
  requestSha256 : String
  device : String
  status : Status
  result : Option Result
  reason : Option Reason
  hostname : String
  plan : Plan
  steps : List Step
  createdAt : Option ℚ
  budgetAt : Option ℚ
  budgetChanges : Option Nat
  finishedAt : Option ℚ
  kind : RecordKind
  accounts : String
  auditBefore : List String
  safeguard : Option Safeguard
  foreignSessions : Option Nat
  differences : List String
  postcheckDifferences : List String
  finalCheckDifferences : List String
  auditFindings : List String
  notification : Option Notification
  auditDelivery : Option ExportState
  enrollmentValid : Bool
  deriving DecidableEq

namespace Record

def addStep (r : Record) (name : StepName) (detail : Option String) : Record :=
  { r with steps := r.steps ++ [⟨name, detail⟩] }

def stepNames (r : Record) : List StepName := r.steps.map (·.name)

/-- the record takes part in the budgets -/
def counted (r : Record) : Bool := r.safeguard.isSome || r.status = .running

/-- `record.get("budget_at_epoch", record.get("created_at_epoch")) or 0` -/
def moment (r : Record) : ℚ :=
  match r.budgetAt with
  | some t => t
  | none => r.createdAt.getD 0

/-- `record.get("budget_changes", 1)` -/
def weight (r : Record) : Nat := r.budgetChanges.getD 1

/-- the record is finished with a blocking result or reason -/
def blocking (r : Record) : Bool :=
  r.status = .finished && (match r.result with
    | some result => blocks result r.reason
    | none => false)

end Record

/-- a file of `requests/` -/
structure RequestEntry where
  changeId : ChangeId
  requestSha256 : String
  device : String
  deriving DecidableEq

/-- a file of `blocked/` -/
structure Block where
  device : String
  changeId : Option ChangeId
  reason : String
  deriving DecidableEq

/-- a file of `enrollments/` -/
structure Certificate where
  binding : String
  firmware : Option String
  changeId : ChangeId
  deriving DecidableEq

/-- the answer of `engine.verify` -/
structure Verdict where
  matched : Bool
  objectMatches : Bool
  differences : List String
  generatedBindings : Attrs
  deriving DecidableEq

/-- `execute._adapter`: the modules `exec_fortios`, `exec_schema_fortios` and `exec_exos` -/
inductive Adapter where
  | fortios | schemaFortios | exos
  deriving DecidableEq

/-- `FIRING_OBSERVED` -/
def Adapter.firingObserved : Adapter → Bool
  | .exos => true
  | _ => false

/-- whether the module has a `revoke_token` -/
def Adapter.hasRevokeToken : Adapter → Bool
  | .fortios => true
  | _ => false

@[simp] theorem Record.addStep_changeId (r : Record) (n : StepName) (x : Option String) :
    (r.addStep n x).changeId = r.changeId := rfl
@[simp] theorem Record.addStep_device (r : Record) (n : StepName) (x : Option String) :
    (r.addStep n x).device = r.device := rfl
@[simp] theorem Record.addStep_result (r : Record) (n : StepName) (x : Option String) :
    (r.addStep n x).result = r.result := rfl
@[simp] theorem Record.addStep_reason (r : Record) (n : StepName) (x : Option String) :
    (r.addStep n x).reason = r.reason := rfl
@[simp] theorem Record.addStep_plan (r : Record) (n : StepName) (x : Option String) :
    (r.addStep n x).plan = r.plan := rfl
@[simp] theorem Record.addStep_safeguard (r : Record) (n : StepName) (x : Option String) :
    (r.addStep n x).safeguard = r.safeguard := rfl
@[simp] theorem Record.stepNames_addStep (r : Record) (n : StepName) (x : Option String) :
    (r.addStep n x).stepNames = r.stepNames ++ [n] := by
  simp [stepNames, addStep]

end Netops
