import Netops.Admin.Recover

/-!
# Admission (`execute.py`, `enrollment.py`)

`apply` looks the request up, prepares the change under the locks of the device, admits it under
the admission lock (`admitRecord`) and runs it.  `preview` only prepares, `undo` applies the inverse
request, `enroll` applies a probe and certifies the device.

`Call` lists the entry points; `Call.prog` is what a process does for each of them.
-/

namespace Netops
open Effect

namespace Execute
variable (cfg : Config)

def hour : ℚ := 3600
def day : ℚ := 86400

/-- the changes of the records counted, from the moment `since` on -/
def spent (rs : List Record) (since : ℚ) : Nat :=
  ((rs.filter fun r => r.counted && decide (since ≤ r.moment)).map Record.weight).sum

/-- `_budgets` -/
def budgets (dev : Device) (changes : Nat) : Admin Unit := do
  raiseIf (changes < 1 ∨ 32 < changes)
    (rejected "the transaction change count must be in 1..32")
  let now ← budgetNow
  let refused ← Journal.rejectionsSince (now - hour)
  raiseIf (cfg.limits.rejectionsPerHour ≤ refused)
    (.budgetExhausted ["the budget of rejected requests for this hour is exhausted"])
  let rs ← Journal.records
  raiseIf (cfg.limits.journalRecords ≤ rs.length)
    (.budgetExhausted ["the journal holds its maximum number of operations; "
      ++ "archive it before new changes"])
  let mine := rs.filter fun r => r.device = dev.name
  raiseIf (cfg.limits.changesPerDevicePerHour < spent mine (now - hour) + changes)
    (.budgetExhausted ["the budget of changes on this device for this hour is exhausted"])
  raiseIf (cfg.limits.changesPerDay < spent rs (now - day) + changes)
    (.budgetExhausted ["the budget of changes for this day is exhausted"])

/-- `_count_rejection` -/
def countRejection : Admin Unit := do
  match ← (do let now ← budgetNow
              file (.noteRejection now)).attempt with
  | .ok _ => return ()
  | .error e => if e.isOSError || e.isRejected then return () else .raise e

/-- the program, a refusal being counted unless a budget refused it -/
def counting {α : Type} (m : Admin α) : Admin α := do
  match ← m.attempt with
  | .ok a => return a
  | .error e =>
    doIf (e.isRejected && !e.isBudgetExhausted) countRejection
    .raise e

/-- `config.OPT_IN_TABLES` -/
def optInTables : List String := ["firewall policy"]

/-- `" ".join(path.replace("/", " ").split())` -/
def spacedPath (path : String) : String :=
  let words := (path.toList.map fun c => if c = '/' then ' ' else c).splitBy
    (fun a b => a.isWhitespace == b.isWhitespace)
  " ".intercalate ((words.filter fun w => !w.all Char.isWhitespace).map String.ofList)

/-- `_opt_in` -/
def optIn (dev : Device) (request : Request) (undo : Bool) : Except Exn Unit :=
  match request.operations with
  | some operations =>
    match operations.find? fun o => optInTables.any fun table =>
        spacedPath o.path = table || (spacedPath o.path).startsWith (table ++ " ") with
    | some o => .error (rejected ("schema transaction path " ++ pyRepr o.path
        ++ " is not supported: firewall policy changes need the firewall policy profile"))
    | none => .ok ()
  | none =>
    if undo then .ok ()
    else if request.table ∈ optInTables ∧ request.table ∉ dev.optIn then
      .error (rejected ("table " ++ pyRepr request.table ++ " is not enabled for device "
        ++ dev.name ++ " (opt_in)"))
    else .ok ()

/-- `_target` -/
def target (d : String) (request : Request) : Except Exn Device :=
  match cfg.devices d with
  | none => .error (notConfigured d)
  | some dev =>
    match request.device with
    | none => .ok dev
    | some named =>
      if named ≠ dev.name then .error (rejected ("the request names device " ++ pyRepr named
        ++ ", but it was sent to device " ++ pyRepr dev.name))
      else .ok dev

/-- `_journaled`: the request among the records -/
def journaled (dev : Device) (request : Request) : Admin (Option Record) := do
  let rs ← Journal.records
  let found := rs.filter fun r => r.requestId = request.requestId
  raiseIf (found.any fun r => r.requestSha256 ≠ request.fingerprint || r.device ≠ dev.name)
    (rejected reusedRequest)
  return found.head?

/-- `_known` -/
def known (dev : Device) (request : Request) : Admin (Option Record) := do
  match ← file (.readRequest request.requestId) with
  | none => journaled dev request
  | some entry =>
    if entry.requestSha256 ≠ request.fingerprint ∨ entry.device ≠ dev.name then
      .raise (rejected reusedRequest)
    else
      match ← Journal.operation (some entry.changeId) with
      | none => .raise (Journal.unreadable (Journal.operationPath entry.changeId))
      | some r => return some r

/-- what `_prepared` hands on -/
structure Prepared where
  accounts : String
  hostname : String
  plan : Plan
  auditBefore : List String
  /-- what an enrollment still misses, in a preview -/
  missing : List String

/-- `_block_accounts` -/
def blockAccounts (d : String) : Admin Unit := do
  Journal.block d none Reason.administratorTable.text
  host (.auditEvent (.administrative d "blocked: administrator table" 0 none))

/-- `except Rejected: raise` / `except Exception`: another exception becomes a refusal -/
def refusing {α : Type} (m : Admin α) (refusal : Exn → String) : Admin α := do
  match ← m.attempt with
  | .ok a => return a
  | .error e => if e.isRejected then .raise e else .raise (rejected (refusal e))

def unreadableDevice (e : Exn) : String :=
  "the device could not be read before any change: " ++ e.message

/-- what `_prepared` reads of the device before there is a plan -/
structure DeviceState where
  text : String
  accounts : String
  hostname : String
  ports : Option (List String)

/-- `_prepared`: the accounts of the device; a change of them blocks it -/
def preparedAccounts (dev : Device) (baseline : Option String) (text : String)
    (previewing : Bool) : Admin String := do
  match ← (do let accounts ← device dev.name none (.accountsCheck text)
              raiseIf (baseline.any (· ≠ accounts))
                (rejected "the administrator accounts changed since the last operation")
              return accounts).attempt with
  | .ok accounts => return accounts
  | .error e =>
    doIf (e.isRejected && !previewing && !e.isSnapshotRejected) (blockAccounts dev.name)
    .raise e

/-- `_prepared`: everything read of the device before there is a plan -/
def preparedDevice (dev : Device) (request : Request) (baseline : Option String)
    (previewing : Bool) : Admin DeviceState := do
  device dev.name none .connect
  let text ← device dev.name none .snapshot
  let accounts ← preparedAccounts dev baseline text previewing
  let leftovers ← device dev.name none .leftovers
  raiseIf (leftovers ≠ []) (rejected ("a safeguard of an earlier operation is still installed: "
    ++ ", ".intercalate leftovers))
  let hostname ← device dev.name none (.hostname text)
  let reasons ← device dev.name none (.prechecks text hostname)
  raiseIf (reasons ≠ []) (.rejected reasons)
  let ports ← device dev.name none (.ports request.table)
  return ⟨text, accounts, hostname, ports⟩

/-- `enrollment.require` -/
def requireEnrollment (dev : Device) (accounts : String) (firmware : Option String) :
    Admin Unit := do
  let refusal := rejected
    "a successful enroll self-test is required for this device, build and configuration"
  match ← file (.readEnrollment dev.name) with
  | none => .raise refusal
  | some certificate =>
    let binding ← host (.binding dev accounts firmware)
    raiseIf (certificate.binding ≠ binding) refusal

/-- `_prepared`: is the device enrolled, or may it be? -/
def preparedEnrollment (dev : Device) (accounts : String) (plan : Plan) (enrolling : Bool)
    (previewing : Bool) (exported : ExportState) : Admin (List String) := do
  if previewing then
    match ← (requireEnrollment dev accounts plan.firmware).attempt with
    | .ok _ => return []
    | .error e => if e.isRejected then return e.reasons else .raise e
  else if !enrolling then
    requireEnrollment dev accounts plan.firmware
    return []
  else if !cfg.notifier || (exported ≠ .acknowledged && exported ≠ .pending
      && (cfg.requireExport || exported ≠ .notConfigured)) then
    .raise (rejected ("enrollment requires notification and "
      ++ (if cfg.requireExport then "a healthy configured audit export"
          else "an available operation audit")))
  else return []

/-- `_prepared`: the audit of the prediction -/
def preparedAudit (plan : Plan) (text : String) : Admin (List String) :=
  refusing (do
      let (before, predicted) ← host (.auditBefore plan text)
      raiseIf (predicted ≠ [])
        (rejected ("predicted audit findings: " ++ ", ".intercalate predicted))
      return before)
    fun e => "the auditor could not evaluate the snapshot before the change (" ++ e.typeName ++ ")"

/-- `_prepared`: the check account sees the object as the snapshot does -/
def preparedObserved (dev : Device) (plan : Plan) : Admin Unit := do
  match ← (device dev.name none (.observe plan)).attempt with
  | .error e =>
    if e.isRejected then
      .raise (rejected ("the check account answer about the object before the change was refused: "
        ++ "; ".intercalate e.reasons))
    else
      .raise (rejected ("the check account could not read the object before the change ("
        ++ e.typeName ++ ")"))
  | .ok seen =>
    raiseIf (seen ≠ plan.before)
      (rejected "the check account sees the object in another state than the snapshot")

/-- `_prepared`: the refusals that need no device -/
def preparedStore (dev : Device) (changes : Nat) : Admin Unit := do
  budgets cfg dev changes
  let blocked ← Journal.blocked dev.name
  raiseIf blocked.isSome (rejected ("the device is blocked ("
    ++ ((blocked.map Block.reason).getD "") ++ ", operation "
    ++ Journal.changeIdOrNone (blocked.bind Block.changeId)
    ++ "); a person must investigate and unblock it"))
  let waiting ← undelivered dev.name
  raiseIf (waiting ≠ []) (rejected ("the notification of operation "
    ++ ((waiting.head?.map ChangeId.text).getD "")
    ++ " was not delivered; run notify-retry, or a person"
    ++ " unblocks the device after checking the notification channel"))
  let running ← Journal.running dev.name
  raiseIf (running ≠ [])
    (rejected "an unfinished operation exists on this device; run recover first")
  file .checkWritable
  host .auditWritable

/-- `_prepared` -/
def prepared (dev : Device) (request : Request) (expected : Option (Option Attrs))
    (enrolling previewing undo : Bool) : Admin Prepared := do
  preparedStore cfg dev request.count
  let (exported, why) ← host .exportState
  raiseIf (exported = .blocked) (rejected ("audit export is blocked: " ++ why))
  let baseline ← file (.readBaseline dev.name)
  let seen ← refusing (preparedDevice dev request baseline previewing) unreadableDevice
  let plan ← host (.buildPlan request seen.text enrolling undo seen.ports)
  let reasons ← refusing (device dev.name none (.planPrechecks plan seen.text)) unreadableDevice
  raiseIf (reasons ≠ []) (.rejected reasons)
  let missing ← preparedEnrollment cfg dev seen.accounts plan enrolling previewing exported
  raiseIf (cfg.limits.planCommands < plan.commands.length
      ∨ cfg.limits.planCommands < plan.inverse.length)
    (rejected ("the plan holds more than " ++ toString cfg.limits.planCommands ++ " commands"))
  raiseIf (expected.any (· ≠ plan.before))
    (rejected "the object differs from the state the undo was planned against")
  let plan := { plan with device := some dev.name }
  let auditBefore ← preparedAudit plan seen.text
  preparedObserved dev plan
  return ⟨seen.accounts, seen.hostname, plan, auditBefore, missing⟩

/-- the record `_apply` starts -/
def newRecord (dev : Device) (request : Request) (p : Prepared) (enrolling : Bool) (c : ChangeId)
    (created budgetAt : ℚ) : Record where
  changeId := c
  requestId := request.requestId
  requestSha256 := request.fingerprint
  device := dev.name
  status := .running
  result := none
  reason := none
  hostname := p.hostname
  plan := { p.plan with safeguardId := some c }
  steps := []
  createdAt := some created
  budgetAt := some budgetAt
  budgetChanges := some request.count
  finishedAt := none
  kind := if enrolling then .enrollment else .change
  accounts := p.accounts
  auditBefore := p.auditBefore
  safeguard := none
  foreignSessions := none
  differences := []
  postcheckDifferences := []
  finalCheckDifferences := []
  auditFindings := []
  notification := none
  auditDelivery := none
  enrollmentValid := false

/-- the part of `_apply` under the admission lock: the request is looked up and the budgets are
checked once more, then the record and the request are written.  Returns a known record. -/
def admitRecord (dev : Device) (request : Request) (r : Record) : Admin (Option Record) :=
  withAdmission do
    match ← known dev request with
    | some found => return some found
    | none =>
      budgets cfg dev r.weight
      Journal.save r
      file (.writeBaseline dev.name r.accounts)
      file (.writeRequest request.requestId ⟨r.changeId, request.fingerprint, dev.name⟩)
      return none

/-- `enrollment.complete`: what must hold on the device before it is certified -/
def enrollmentVerified (r : Record) : Admin String := do
  let text ← call r .snapshot
  let verdict ← call r (.verify r.plan text .before)
  raiseIf (verdict.matched = false)
    (rejected "enrollment cleanup did not restore the initial configuration")
  let observed ← call r (.observe r.plan)
  raiseIf (observed ≠ (if r.plan.schema then r.plan.before else none))
    (rejected "the check account still sees the enrollment probe")
  let accounts ← call r (.accountsCheck text)
  raiseIf (accounts ≠ r.accounts)
    (rejected "enrollment identities or safeguard cleanup changed")
  let absent ← call r .safeguardAbsent
  raiseIf (absent = false) (rejected "enrollment identities or safeguard cleanup changed")
  return accounts

/-- `enrollment.complete` -/
def complete (dev : Device) (r : Record) : Admin Record := do
  if r.result ≠ some .reverted ∨ r.reason ≠ some .enrollmentSelfTest then return r
  else if r.notification ≠ some .sent then return r
  else
    match ← (enrollmentVerified r).attempt with
    | .error _ =>
      Journal.block dev.name (some r.changeId) "enrollment verification"
      .raise (rejected "the enrollment result could not be verified; the device is blocked")
    | .ok accounts =>
      let binding ← host (.binding dev accounts r.plan.firmware)
      file (.writeEnrollment dev.name ⟨binding, r.plan.firmware, r.changeId⟩)
      let r := { r with enrollmentValid := true }
      Journal.save r
      host (.auditEvent (.administrative dev.name "enrolled" 0 (some r.changeId)))
      return r

/-- `_apply`: the sessions of others, as far as the device tells them -/
def noteSessions (r : Record) : Admin Record := do
  match ← (call r .foreignSessions).attempt with
  | .error e => step { r with foreignSessions := none } .foreignSessionsUnreadable (some e.typeName)
  | .ok n =>
    step { r with foreignSessions := some n } .foreignSessions (some (toString n ++ " other sessions"))

/-- `_apply`, once the record is admitted -/
def start (ad : Adapter) (dev : Device) (request : Request) (r : Record) (enrolling : Bool) :
    Admin Record := do
  host (.auditEvent (.start r request.changes (safeguardLabel ad r.changeId)))
  let r ← noteSessions r
  if enrolling then
    let delivered ← notifierOutcome r
    if delivered ≠ .sent then finish cfg r .rejected (some .enrollmentNotification) []
    else
      let r ← step r .enrollmentNotificationVerified none
      file (.clearEnrollment dev.name)
      let r ← execute cfg ad dev r
      complete dev r
  else execute cfg ad dev r

/-- `_apply`, under the locks of the device -/
def applyLocked (ad : Adapter) (dev : Device) (request : Request)
    (expected : Option (Option Attrs)) (enrolling undo : Bool) : Admin Record := do
  match ← known dev request with
  | some found => return found
  | none =>
    let p ← prepared cfg dev request expected enrolling false undo
    let c ← tokenHex
    let created ← host .time
    let budgetAt ← budgetNow
    let r := newRecord dev request p enrolling c created budgetAt
    match ← admitRecord cfg dev request r with
    | some found => return found
    | none => start cfg ad dev request r enrolling

/-- `_apply` -/
def apply (d : String) (request : Request) (expected : Option (Option Attrs))
    (enrolling undo : Bool) : Admin Record := do
  let dev ← Prog.ofExcept (target cfg d request)
  Prog.ofExcept (optIn dev request undo)
  let ad ← Prog.ofExcept (adapter dev.platform request.isTransaction)
  withLock dev.name <| withTargetLock dev <|
    applyLocked cfg ad dev request expected enrolling undo

/-- `_apply_counted` -/
def applyCounted (d : String) (request : Request) (expected : Option (Option Attrs))
    (undo : Bool) : Admin Record :=
  counting (apply cfg d request expected false undo)

inductive PreviewResult where
  | knownRequest (changeId : ChangeId)
  | rejected (reasons : List String)
  | ready (plan : Plan) (auditBefore : List String)

/-- `_preview`; the flag says whether the answer counts as a refusal -/
def previewLocked (dev : Device) (request : Request) : Admin (PreviewResult × Bool) := do
  match ← (do match ← known dev request with
              | some found => return Sum.inl found
              | none => return Sum.inr (← prepared cfg dev request none false true false)).attempt with
  | .error e =>
    if e.isRejected then return (.rejected e.reasons, !e.isBudgetExhausted) else .raise e
  | .ok (.inl found) => return (.knownRequest found.changeId, false)
  | .ok (.inr p) =>
    if p.missing ≠ [] then return (.rejected p.missing, true)
    else return (.ready p.plan p.auditBefore, false)

/-- `preview` -/
def preview (d : String) (request : Request) : Admin PreviewResult := do
  let (result, refused) ← counting do
    let dev ← Prog.ofExcept (target cfg d request)
    Prog.ofExcept (optIn dev request false)
    let _ ← Prog.ofExcept (adapter dev.platform request.isTransaction)
    withLock dev.name <| withTargetLock dev <| previewLocked cfg dev request
  doIf refused countRejection
  return result

/-- `undo_request`; an exception of the host call `fingerprint` is a refusal of `parse_request` -/
def undoRequest (original : Option Record) (reason : String) :
    Admin (Request × Option Attrs) := do
  match original with
  | none => .raise (Netops.rejected "only a confirmed operation can be undone")
  | some r =>
    if r.status ≠ .finished ∨ r.result ≠ some .confirmed then
      .raise (Netops.rejected "only a confirmed operation can be undone")
    else
      host (.readPlan r.plan)
      raiseIf (!r.plan.schema && r.plan.firmware.isNone)
        (Netops.rejected "the plan of the operation names no firmware")
      let body : Request :=
        { device := some r.device, table := r.plan.table, op := r.plan.op, key := r.plan.key
          changes := [], operations := none, reason := reason
          userRequest := "undo of operation " ++ r.changeId.text
          requestId := "undo-" ++ r.changeId.text, fingerprint := "" }
      if r.plan.schema then
        let (operations, expected) ← host (.undoOperations r.plan)
        let body := { body with operations := some operations }
        let fingerprint ← host (.fingerprint body)
        return ({ body with fingerprint := fingerprint }, expected)
      else
        let (op, changes) ← host (.undoChanges r.plan)
        let body := { body with op := op, changes := changes }
        let fingerprint ← host (.fingerprint body)
        return ({ body with fingerprint := fingerprint }, r.plan.after)

/-- `undo`: the plan of a confirmed operation must be readable -/
def checkOriginal : Option Record → Admin Unit
  | none => .ret ()
  | some r => doIf (r.status = .finished ∧ r.result = some .confirmed) (storedPlan r)

/-- `undo` -/
def undo (c : Option ChangeId) (reason : String) : Admin Record := do
  let original ← Journal.operation c
  checkOriginal original
  let (request, expected) ← undoRequest original reason
  match ← (applyCounted cfg (request.device.getD "") request (some expected) true).attempt with
  | .ok r => return r
  | .error e =>
    if e.isRejected && e.reasons = [reusedRequest] then .raise (Netops.rejected undoDone)
    else .raise e

/-- `enrollment.run` -/
def enroll (d : String) (probe : String) : Admin Record := do
  match cfg.devices d with
  | none => .raise (Netops.rejected "device is not configured")
  | some dev =>
    let request ← host (.probe dev probe)
    apply cfg d request none true false

end Execute

/-- the entry points of the service -/
inductive Call where
  | apply (d : String) (request : Request)
  | undo (c : Option ChangeId) (reason : String)
  | preview (d : String) (request : Request)
  | recover (d : String)
  | notifyRetry (c : Option ChangeId)
  | status (c : Option ChangeId)
  | unblock (d : String) (reason : String)
  | enroll (d : String) (probe : String)

/-- what a call answers -/
inductive Answer where
  | record (r : Record)
  | found (r : Option Record)
  | records (rs : List Record)
  | preview (p : Execute.PreviewResult)
  | flag (b : Bool)

/-- what a process does for a call -/
def Call.prog (cfg : Config) : Call → Admin Answer
  | .apply d request => do return .record (← Execute.applyCounted cfg d request none false)
  | .undo c reason => do return .record (← Execute.undo cfg c reason)
  | .preview d request => do return .preview (← Execute.preview cfg d request)
  | .recover d => do return .records (← Execute.recover cfg d)
  | .notifyRetry c => do return .record (← Execute.notifyRetry cfg c)
  | .status c => do return .found (← Execute.status c)
  | .unblock d reason => do return .flag (← Execute.unblock cfg d reason)
  | .enroll d probe => do return .record (← Execute.enroll cfg d probe)

end Netops
