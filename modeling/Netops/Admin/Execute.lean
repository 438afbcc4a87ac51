import Netops.Admin.Journal

/-!
# Running a change (`execute.py`)

`_execute` installs the safeguard, sends the change, checks it and confirms it; every way out ends
in `finish`, most of them through `settleAfterExpiry`.  The function of the source is cut at its
checks: `execute`, `executeChange`, `postcheck`, `auditCheck`, `checkIdentity`, `confirm`,
`removeAndCheck`, `persistAndCheck`, each of which calls the next one last.  A record that the
source changes in place is passed on.

Left out: the prompt specification and the read timeouts of the access object, and the times of the
steps, which nothing here reads.
-/

namespace Netops
open Effect

namespace Execute

def safeguardMaxSeconds : ℚ := 900
def expiryGraceSeconds : ℚ := 20
def expiryPollSeconds : ℚ := 10
def expiryWaitSlackSeconds : ℚ := 60
def expiryWaitLimitSeconds : ℚ :=
  safeguardMaxSeconds + expiryGraceSeconds + expiryWaitSlackSeconds

/-- enough passes for every wait: each pause takes at least a second of the limit -/
def waitPasses : Nat := 982

def reusedRequest : String := "request_id was already used for a different request"
def undoDone : String :=
  "undo of this change has already been performed; "
    ++ "after a reverted change remove the object with regular administration"

/-- `_adapter` -/
def adapter (platform : Platform) (schema : Bool) : Except Exn Adapter :=
  match platform with
  | .fortios => .ok (if schema then .schemaFortios else .fortios)
  | .exos => .ok .exos
  | .fortiadc => .error (rejected
      ("platform " ++ shown platform.text ++ " has no plan and apply adapter"))

/-- `safeguard_label` of the adapter -/
def safeguardLabel (ad : Adapter) (c : ChangeId) : String :=
  match ad with
  | .exos => "netops" ++ String.ofList (c.text.toList.take 6) ++ "t"
  | _ => "netops-sg-" ++ String.ofList (c.text.toList.take 12) ++ "-s"

/-- a call to the device of the record, on behalf of its operation -/
def call (r : Record) (q : DeviceCall) : Admin q.Reply := device r.device (some r.changeId) q

/-- `_step` -/
def step (r : Record) (name : StepName) (detail : Option String) : Admin Record := do
  let r' := r.addStep name detail
  Journal.save r'
  host (.auditEvent (.step r.changeId r.device name detail))
  return r'

/-! ## notification -/

/-- `_note_notification` -/
def noteNotification (r : Record) (value : Notification) : Admin Record := do
  let _ ← Journal.update r.changeId fun current => some { current with notification := some value }
  return { r with notification := some value }

/-- `notifier(record)`, an exception counting as a failure -/
def notifierOutcome (r : Record) : Admin Notification := do
  match ← (host (.notify r)).attempt with
  | .ok true => return .sent
  | _ => return .failed

/-- `_deliver_notification` -/
def deliverNotification (r : Record) : Admin Record := do
  let previous := r.notification
  let r ← (if previous.any Notification.undelivered then noteNotification r .sending else .ret r)
  let outcome ← notifierOutcome r
  let r ← noteNotification r
    (if outcome = .failed ∧ previous = some .waived then .waived else outcome)
  host (.auditEvent (.delivery r.changeId r.device (some outcome) r.auditDelivery))
  return r

variable (cfg : Config)

/-- the record `_finish` writes -/
def finished (r : Record) (result : Result) (reason : Option Reason) (differences : List String)
    (now : ℚ) (state : ExportState) : Record :=
  { r with
    status := .finished
    finishedAt := some now
    result := some result
    reason := reason
    differences := differences
    auditDelivery := some (if state = .acknowledged then .pending else state)
    notification := some (if cfg.notifier then .pending else .notConfigured) }

/-- `_finish`: the block is written before the record -/
def finish (r : Record) (result : Result) (reason : Option Reason)
    (differences : List String) : Admin Record := do
  let now ← host .time
  let (state, _) ← host .exportState
  let r := finished cfg r result reason differences now state
  doIf (blocks result reason)
    (Journal.block r.device (some r.changeId) ((reason.map Reason.text).getD result.text))
  Journal.save r
  host (.auditEvent (.result r))
  if cfg.notifier then deliverNotification r else return r

/-- `notify_retry` -/
def notifyRetry (c : Option ChangeId) : Admin Record := do
  host .auditWritable
  match ← Journal.operation c with
  | none => .raise (rejected "no finished operation matches")
  | some r =>
    if r.status ≠ .finished then .raise (rejected "no finished operation matches")
    else if !cfg.notifier then .raise (rejected "notification is not configured")
    else withLock r.device do
      match ← Journal.operation c with
      | none => .raise (.other "AttributeError" "'NoneType' object has no attribute 'get'")
      | some r => if r.notification ≠ some .sent then deliverNotification r else return r

/-- the change `refresh_delivery` makes -/
def acknowledge (finishedAt : Option ℚ) (current : Record) : Option Record :=
  if current.status ≠ .finished ∨ current.auditDelivery ≠ some .pending
      ∨ current.finishedAt ≠ finishedAt then none
  else some { current with auditDelivery := some .acknowledged }

/-- the export status is newer than the end of the operation -/
def acknowledgedSince : Option ℚ → Option ℚ → Bool
  | some updated, some finishedAt => finishedAt < updated
  | _, _ => false

/-- `refresh_delivery` -/
def refreshDelivery (r : Record) : Admin Record := do
  if r.status ≠ .finished ∨ r.auditDelivery ≠ some .pending then return r
  else
    let (state, _) ← host .exportState
    let statusTime ← host .exportUpdatedAt
    if state = .acknowledged ∧ acknowledgedSince statusTime r.finishedAt then
      match ← (Journal.update r.changeId (acknowledge r.finishedAt)).attempt with
      | .error (.stateUnreadable reasons) => .raise (.stateUnreadable reasons)
      | .error e => if e.isRejected then return r else .raise e
      | .ok none => .raise (.other "TypeError" "'NoneType' object is not subscriptable")
      | .ok (some (saved, acknowledged)) =>
        doIf acknowledged (host (.auditEvent (.delivery saved.changeId saved.device
          saved.notification (some .acknowledged))))
        return saved
    else return r

/-- `store status`: `refresh_delivery` of the record on disk -/
def status (c : Option ChangeId) : Admin (Option Record) := do
  match ← Journal.operation c with
  | none => return none
  | some r => return some (← refreshDelivery r)

/-! ## waiting for the safeguard -/

/-- `_Deadline` -/
structure Deadline where
  last : ℚ
  unslept : ℚ
  expired : String

namespace Deadline

def left (dl : Deadline) : Admin ℚ := do
  let now ← host .monotonic
  return min (dl.last - now) dl.unslept

def tighten (dl : Deadline) (last : ℚ) (expired : String) : Deadline :=
  { dl with last := min dl.last last, expired := expired }

def read {α : Type} (dl : Deadline) (query : Admin α) : Admin α := do
  raiseIf ((← dl.left) < 0) (rejected dl.expired)
  let answer ← query
  raiseIf ((← dl.left) < 0) (rejected dl.expired)
  return answer

def pause (dl : Deadline) (wanted : ℚ) : Admin Deadline := do
  let left ← dl.left
  raiseIf (left ≤ 0) (rejected dl.expired)
  let seconds := min (max (min wanted left) 1) expiryPollSeconds
  host (.sleep seconds)
  return { dl with unslept := dl.unslept - seconds }

end Deadline

/-- the loop of `_wait_for_proof`; returns whether it had to wait -/
def proofLoop (r : Record) : Nat → Deadline → Bool → Admin Bool
  | 0, _, _ => .stuck
  | n+1, dl, pending => do
    let fired ← dl.read (call r .safeguardFired)
    if fired then return pending
    else
      let dl ← dl.pause (← dl.left)
      proofLoop r n dl true

/-- `_wait_for_proof` -/
def waitForProof (r : Record) (dl : Deadline) : Admin Unit := do
  let pending ← proofLoop r waitPasses dl false
  doIf pending (host (.sleep expiryGraceSeconds))

/-- the loop of `_wait_for_expiry` -/
def expiryLoop (r : Record) (fireAt : Int) (due : ℚ) : Nat → Deadline → Admin Unit
  | 0, _ => .stuck
  | n+1, dl => do
    let now ← dl.read (call r .clock)
    let remaining : ℚ := ((fireAt - now : Int) : ℚ) + expiryGraceSeconds
    if remaining ≤ 0 then
      let now ← host .monotonic
      waitForProof r (dl.tighten (max now (due + expiryGraceSeconds) + expiryWaitSlackSeconds)
        "the safeguard was not seen fired within the wait limit")
    else
      let dl ← dl.pause remaining
      expiryLoop r fireAt due n dl

/-- `_wait_for_expiry` -/
def waitForExpiry (r : Record) (due : ℚ) : Admin Unit := do
  match r.safeguard with
  | none => .raise (.other "KeyError" "'safeguard'")
  | some safeguard =>
    let now ← host .monotonic
    expiryLoop r safeguard.fireAt due waitPasses ⟨now + expiryWaitLimitSeconds,
      expiryWaitLimitSeconds, "the safeguard did not expire within the wait limit"⟩

/-! ## settling -/

/-- `_persist` -/
def persist (r : Record) : Admin (Bool × Record) := do
  match ← (call r .persist).attempt with
  | .error e => return (false, ← step r .persistFailed (some e.typeName))
  | .ok saved =>
    if saved then return (true, ← step r .configurationSaved none)
    else return (true, r)

/-- `engine.verify(plan, access.snapshot().encode("utf-8"), expect=side)`, with the text read -/
def verifySnapshot (r : Record) (side : Side) : Admin (String × Verdict) := do
  let text ← call r .snapshot
  let verdict ← call r (.verify r.plan text side)
  return (text, verdict)

/-- the reading part of `_settle_after_expiry` -/
def expiryVerdict (r : Record) (due : ℚ) : Admin (String × Verdict) := do
  waitForExpiry r due
  verifySnapshot r .before

/-- the end of `_settle_after_expiry`: the safeguard goes, the outcome is recorded -/
def settleVerdict (r : Record) (reason : Reason) (verdict : Verdict) : Admin Record := do
  let cleaned ← call r .removeSafeguard
  let r ← step r (if cleaned then .safeguardRemoved else .safeguardRemovalUnverified) none
  if verdict.matched then
    if !cleaned then finish cfg r .unknown (some .cleanupUnverified) []
    else
      let (saved, r) ← persist r
      if !saved then finish cfg r .reverted (some .notPersisted) []
      else finish cfg r .reverted (some reason) []
  else if verdict.objectMatches then
    finish cfg r .reverted (some (if reason ∈ blockingReasons then reason else .foreignChange))
      verdict.differences
  else finish cfg r .revertFailed (some reason) verdict.differences

/-- the step that tells what became of the token of the safeguard -/
def noteRevoked (r : Record) : Option Bool → Admin Record
  | none => .ret r
  | some true => step r .safeguardTokenRevoked none
  | some false => step r .safeguardTokenRevokeUnverified none

/-- `_settle_after_expiry` keeps an armed safeguard whose firing is not proven -/
def keepSafeguard (ad : Adapter) (r : Record) (reason : Reason) (verdict : Verdict) :
    Admin Record := do
  let r ← step r .safeguardKept (some "firing not proven")
  let revoked ← (if ad.hasRevokeToken then call r .revokeToken else .ret none)
  let r ← noteRevoked r revoked
  finish cfg r .unknown (some reason) verdict.differences

/-- `_settle_after_expiry` -/
def settleAfterExpiry (r : Record) (reason : Reason) (due : ℚ) : Admin Record := do
  let ad ← Prog.ofExcept (adapter r.plan.platform r.plan.schema)
  match ← (expiryVerdict r due).attempt with
  | .error e =>
    let r ← step r .revertUnverified (some e.typeName)
    finish cfg r .unknown (some reason) []
  | .ok (_, verdict) =>
    let unproven := !verdict.matched && !verdict.objectMatches && !ad.firingObserved
    let disarmed ← (if unproven then call r .safeguardDisarmed else .ret true)
    if disarmed then settleVerdict cfg r reason verdict
    else keepSafeguard cfg ad r reason verdict

/-! ## `_execute` -/

/-- `_returned` -/
def returned (r : Record) (text : String) : Admin Bool := do
  match ← (call r (.verify r.plan text .before)).attempt with
  | .ok verdict => return verdict.matched
  | .error _ => return false

/-- how many differences, as the steps say it -/
def differencesText (l : List String) : String := toString l.length ++ " differences"

/-- `_execute`, after the removal was checked -/
def persistAndCheck (r : Record) : Admin Record := do
  let (saved, r) ← persist r
  if !saved then finish cfg r .confirmed (some .notPersisted) []
  else if r.stepNames.getLast? = some .configurationSaved then
    match ← (verifySnapshot r .after).attempt with
    | .error e =>
      let r ← step r .savedCheckFailed (some e.typeName)
      finish cfg r .confirmed (some .savedUnverified) []
    | .ok (_, verdict) =>
      if !verdict.matched then
        let r ← step r .savedCheckFailed (some (differencesText verdict.differences))
        finish cfg r .confirmed (some .foreignDuringSave) verdict.differences
      else finish cfg r .confirmed none []
  else finish cfg r .confirmed none []

/-- `_execute`, from `confirm_start` on -/
def removeAndCheck (r : Record) (due : ℚ) : Admin Record := do
  let r ← step r .confirmStart none
  let removed ← call r .removeSafeguard
  if !removed then
    let r ← step r .confirmUnverified none
    settleAfterExpiry cfg r .confirmationUnverified due
  else
    match ← (verifySnapshot r .after).attempt with
    | .error e =>
      let r ← step r .removalCheckFailed (some e.typeName)
      finish cfg r .unknown (some .finalCheckUnavailable) []
    | .ok (text, verdict) =>
      if !verdict.matched then
        let r ← step r .removalCheckFailed (some (differencesText verdict.differences))
        let fired ← returned r text
        if fired then finish cfg r .reverted (some .safeguardFired) []
        else finish cfg r .unknown (some .foreignAfterRemoval) verdict.differences
      else persistAndCheck cfg r

/-- seconds until the safeguard fires, `-1` when the device does not tell its time -/
def remainingSeconds (r : Record) : Admin Int := do
  match r.safeguard with
  | none => return -1
  | some safeguard =>
    match ← (call r .clock).attempt with
    | .ok now => return safeguard.fireAt - now
    | .error _ => return -1

/-- `_execute`: is there time left, and does the device still show the change? -/
def confirm (dev : Device) (r : Record) (due : ℚ) : Admin Record := do
  if r.kind = .enrollment then settleAfterExpiry cfg r .enrollmentSelfTest due
  else
    let remaining ← remainingSeconds r
    if remaining < dev.confirmMarginSeconds then
      let r ← step r .confirmSkipped (some "too close to the safeguard")
      settleAfterExpiry cfg r .noTimeLeft due
    else
      match ← (verifySnapshot r .after).attempt with
      | .error e =>
        let r ← step r .finalCheckFailed (some e.typeName)
        settleAfterExpiry cfg r .finalCheckUnavailable due
      | .ok (text, verdict) =>
        if !verdict.matched then
          let r ← step r .finalCheckFailed (some (differencesText verdict.differences))
          let r := { r with finalCheckDifferences := verdict.differences }
          let fired ← returned r text
          settleAfterExpiry cfg r (if fired then .safeguardFired else .foreignChange) due
        else removeAndCheck cfg r due

/-- `_execute`: the state the check account sees -/
def checkIdentity (dev : Device) (r : Record) (due : ℚ) : Admin Record := do
  match ← (call r (.observe r.plan)).attempt with
  | .error e =>
    let r ← step r .checkIdentityFailed (some e.typeName)
    settleAfterExpiry cfg r .checkIdentityUnavailable due
  | .ok seen =>
    if seen ≠ r.plan.after then
      let r ← step r .checkIdentityFailed (some "state differs")
      settleAfterExpiry cfg r .checkIdentityMismatch due
    else
      let r ← step r .checkIdentityPassed none
      confirm cfg dev r due

/-- `_execute`: the audit gate on the snapshot after the change -/
def auditCheck (dev : Device) (r : Record) (due : ℚ) (text : String) : Admin Record := do
  match ← (call r (.auditGate r.plan r.auditBefore text)).attempt with
  | .error (.incomplete _ summary) =>
    let r ← step r .auditIncomplete (some summary)
    settleAfterExpiry cfg r .auditIncomplete due
  | .error e =>
    let r ← step r .auditFailed (some e.typeName)
    settleAfterExpiry cfg r .auditUnavailable due
  | .ok found =>
    if found ≠ [] then
      let r := { r with auditFindings := found }
      let r ← step r .auditFailed (some (toString found.length ++ " new findings"))
      settleAfterExpiry cfg r .auditFinding due
    else
      let summary ← host (.auditSummary r.auditBefore)
      let r ← step r .auditPassed (some summary)
      checkIdentity cfg dev r due

/-- `schema_runtime.bind_generated`, which changes the plan of the record in place -/
def bindGenerated (r : Record) (values : Attrs) : Admin Record := do
  raiseIf (r.plan.generatedBindings ≠ [] ∧ r.plan.generatedBindings ≠ values)
    (rejected "generated attribute bindings cannot change")
  let bound := { r.plan with generatedBindings := values }
  let digest ← host (.planDigest bound)
  return { r with plan := { bound with planSha256 := digest } }

/-- `getattr(exc, "category", cause)` -/
def categoryOr (cause : Reason) : Exn → Reason
  | .snapshotRejected _ category => .snapshot category
  | _ => cause

/-- `_execute`: a postcheck that raised -/
def postcheckFailed (r : Record) (due : ℚ) (cause : Reason) (e : Exn) : Admin Record := do
  if e.isRejected then
    let cause := categoryOr cause e
    let r ← step r .postcheckFailed (some cause.text)
    settleAfterExpiry cfg r cause due
  else
    let r ← step r .postcheckFailed (some e.typeName)
    settleAfterExpiry cfg r .postcheckUnavailable due

/-- the snapshot after the change, with the accounts the record was admitted with -/
def postcheckSnapshot (r : Record) : Admin String := do
  let text ← call r .snapshot
  let accounts ← call r (.accountsCheck text)
  raiseIf (accounts ≠ r.accounts)
    (rejected "the administrator accounts changed during the operation")
  return text

/-- `_execute`: accounts and prediction, after the change -/
def postcheck (dev : Device) (r : Record) (due : ℚ) : Admin Record := do
  match ← (postcheckSnapshot r).attempt with
  | .error e => postcheckFailed cfg r due .administratorTable e
  | .ok text =>
    match ← (call r (.verify r.plan text .after)).attempt with
    | .error e => postcheckFailed cfg r due .postcheckRejected e
    | .ok verdict =>
      if !verdict.matched then
        let r ← step r .postcheckFailed (some (differencesText verdict.differences))
        let r := { r with postcheckDifferences := verdict.differences }
        settleAfterExpiry cfg r .predictionMismatch due
      else
        let r ← (if r.plan.schema then bindGenerated r verdict.generatedBindings else .ret r)
        let r ← step r .postcheckPassed none
        auditCheck cfg dev r due text

/-- `_execute`: `access.apply(plan["commands"])` or the step after it raised -/
def changeFailed (r : Record) (due : ℚ) (e : Exn) : Admin Record := do
  let r ← step r .changeFailed
    (some (e.typeName ++ " after " ++ toString e.acceptedLines ++ " lines"))
  settleAfterExpiry cfg r .changeFailed due

/-- `_execute`: the change itself, sent once -/
def executeChange (dev : Device) (r : Record) (due : ℚ) : Admin Record := do
  Journal.save r
  let r ← step r .safeguardVerified none
  let r ← step r .changeStart none
  match ← (call r (.apply r.plan.commands)).attempt with
  | .error e => changeFailed cfg r due e
  | .ok _ =>
    match ← (step r .changeApplied none).attempt with
    | .error e => changeFailed cfg (r.addStep .changeApplied none) due e
    | .ok r => postcheck cfg dev r due

/-- `_execute`: the safeguard could not be installed as planned -/
def safeguardNotVerified (r : Record) (problem : String) : Admin Record := do
  let r ← step r .safeguardNotVerified (some problem)
  let cleaned ← call r .removeSafeguard
  if cleaned then
    let (saved, r) ← persist r
    if !saved then finish cfg r .reverted (some .notPersisted) []
    else finish cfg r .reverted (some .safeguardNotVerified) []
  else finish cfg r .unknown (some .safeguardNotVerified) []

def installCause : Exn → String
  | .accessError message _ => "AccessError: " ++ message
  | e => e.typeName

/-- the problems of `adapter.install_safeguard`, an exception being one, and the record with the
time the device shows -/
def installSafeguard (r : Record) (safeguard : Safeguard) : Admin (List String × Record) := do
  match ← (call r (.installSafeguard safeguard r.plan)).attempt with
  | .error e =>
    return (["safeguard installation failed (" ++ installCause e ++ ")"], r)
  | .ok (problems, none) => return (problems, r)
  | .ok (problems, some fireAt) =>
    return (problems, { r with safeguard := some { safeguard with fireAt := fireAt } })

/-- `_execute` -/
def execute (ad : Adapter) (dev : Device) (r : Record) : Admin Record := do
  match ← (call r .clock).attempt with
  | .error e =>
    let r ← step r .clockUnreadable (some e.typeName)
    finish cfg r .rejected (some .deviceClock) []
  | .ok now =>
    let safeguard : Safeguard := ⟨now + dev.safeguardSeconds, safeguardLabel ad r.changeId⟩
    let r := { r with safeguard := some safeguard }
    let r ← step r .safeguardInstall none
    let (problems, r) ← installSafeguard r safeguard
    let monotonic ← host .monotonic
    match problems with
    | problem :: _ => safeguardNotVerified cfg r problem
    | [] => executeChange cfg dev r (monotonic + dev.safeguardSeconds)

end Execute

end Netops
