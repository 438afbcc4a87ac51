import Netops.Admin.Execute

/-!
# Recovery and unblocking (`execute.py`)

`recover` settles every unfinished operation of a device from its journal record alone;
`recoverOne` is the body of its loop.  `unblock` lifts the block of a device.
-/

namespace Netops
open Effect

namespace Execute
variable (cfg : Config)

def notConfigured (d : String) : Exn := rejected ("device " ++ shown d ++ " is not configured")

/-- `_stored_plan`: a plan that cannot be read makes the record unreadable -/
def storedPlan (r : Record) : Admin Unit := do
  match ← (host (.readPlan r.plan)).attempt with
  | .ok _ => return ()
  | .error e =>
    if e.isRejected then .raise (Journal.unreadable (Journal.operationPath r.changeId))
    else .raise e

/-- `recover`, once the safeguard is known to be gone: which side does the device show? -/
def recoverSettled (r : Record) : Admin Record := do
  match ← (do let text ← call r .snapshot
              let after ← call r (.verify r.plan text .after)
              let before ← call r (.verify r.plan text .before)
              return (after.matched, before.matched)).attempt with
  | .error _ => finish cfg r .unknown (some .interruptedStateUnreadable) []
  | .ok (isAfter, isBefore) =>
    if isAfter && decide (.confirmStart ∈ r.stepNames) then
      let (saved, r) ← persist r
      finish cfg r .confirmed (some (if saved then .confirmedBeforeInterruption else .notPersisted)) []
    else if isBefore then
      let (saved, r) ← persist r
      finish cfg r .reverted (some (if saved then .interrupted else .notPersisted)) []
    else if isAfter then finish cfg r .unknown (some .interruptedConfirmStartMissing) []
    else finish cfg r .unknown (some .interruptedNeitherSide) []

/-- `recover`: is the safeguard still there, and can it still fire? -/
def safeguardPresence (r : Record) : Admin (Bool × Bool) := do
  let absent ← call r .safeguardAbsent
  if absent then return (false, false)
  else
    let disarmed ← call r .safeguardDisarmed
    return (true, disarmed)

/-- `recover`, on a device that answers -/
def recoverSafeguard (dev : Device) (r : Record) : Admin Record := do
  match ← (safeguardPresence r).attempt with
  | .error _ => finish cfg r .unknown (some .interruptedSafeguardUnreadable) []
  | .ok (present, disarmed) =>
    if disarmed then
      let removed ← call r .removeRemaining
      if !removed then
        let r ← step r .safeguardRemovalUnverified none
        finish cfg r .unknown (some .cleanupUnverified) []
      else
        let r ← step r .safeguardRemoved none
        recoverSettled cfg r
    else if present then
      let now ← host .monotonic
      settleAfterExpiry cfg r .interrupted (now + dev.safeguardSeconds)
    else recoverSettled cfg r

/-- the body of the loop of `recover` -/
def recoverOne (dev : Device) (r : Record) : Admin Record := do
  if r.safeguard.isNone then
    let r ← step r .recoveryStart none
    finish cfg r .rejected (some .interruptedBeforeMutation) []
  else
    storedPlan r
    let _ ← Prog.ofExcept (adapter r.plan.platform r.plan.schema)
    let r ← step r .recoveryStart none
    match ← (call r .connect).attempt with
    | .error e =>
      let r ← step r .recoveryAccessFailed (some e.typeName)
      finish cfg r .unknown (some .interruptedUnreachable) []
    | .ok _ => recoverSafeguard cfg dev r

/-- the loop of `recover` -/
def recoverAll (dev : Device) : List Record → Admin (List Record)
  | [] => .ret []
  | r :: rs => do
    let settled ← recoverOne cfg dev r
    let rest ← recoverAll dev rs
    return settled :: rest

/-- `_unverified_safeguard` -/
def unverifiedSafeguard (d : String) : Admin (Option Record) := do
  match ← Journal.blocked d with
  | none => return none
  | some b =>
    match ← Journal.operation b.changeId with
    | none => return none
    | some r =>
      if r.status ≠ .finished ∨ r.result ≠ some .unknown
          ∨ r.reason ≠ some .safeguardNotVerified then return none
      else if .safeguardNotVerified ∉ r.stepNames ∨ .changeStart ∈ r.stepNames
          ∨ r.stepNames.getLast? = some .safeguardRemoved then return none
      else return some r

/-- `_remove_unverified_safeguard` -/
def removeUnverifiedSafeguard (r : Record) : Admin Record := do
  storedPlan r
  let _ ← Prog.ofExcept (adapter r.plan.platform r.plan.schema)
  let r ← step r .recoveryStart none
  match ← (do let _ ← call r .connect
              call r .removeRemaining).attempt with
  | .error e => step r .recoveryAccessFailed (some e.typeName)
  | .ok removed => step r (if removed then .safeguardRemoved else .safeguardRemovalUnverified) none

/-- `recover` -/
def recover (d : String) : Admin (List Record) := do
  match cfg.devices d with
  | none => .raise (notConfigured d)
  | some dev =>
    withLock dev.name <| withTargetLock dev do
      let running ← Journal.running dev.name
      let settled ← recoverAll cfg dev running
      match ← unverifiedSafeguard dev.name with
      | none => return settled
      | some r =>
        let r ← removeUnverifiedSafeguard r
        return settled ++ [r]

/-- `_undelivered` -/
def undelivered (d : String) : Admin (List ChangeId) := do
  let rs ← Journal.records
  return ((rs.filter fun r => r.device = d && r.status = .finished
    && r.notification.any Notification.undelivered).map (·.changeId)).mergeSort

/-- the change of `_waived` -/
def waive (current : Record) : Option Record :=
  if current.notification.any Notification.undelivered then
    some { current with notification := some .waived }
  else none

/-- `_waived` -/
def waived (c : ChangeId) : Admin Bool := do
  let changed ← Journal.update c waive
  return changed.any (·.2)

/-- the loop of `unblock` over the undelivered notifications -/
def waiveAll (d : String) (reason : String) : List ChangeId → Admin Nat
  | [] => .ret 0
  | c :: cs => do
    let done ← waived c
    doIf done
      (host (.auditEvent (.administrative d "notification waived" reason.length (some c))))
    let n ← waiveAll d reason cs
    return if done then n + 1 else n

/-- the compare-and-remove of `unblock` -/
def liftBlock (d : String) (reason : String) : Admin Bool := do
  match ← Journal.blocked d with
  | none => return false
  | some b =>
    let removed ← Journal.unblock d b
    if removed then
      file (.clearBaseline d)
      host (.auditEvent (.administrative d "unblock" reason.length b.changeId))
      return true
    else return false

/-- `unblock` -/
def unblock (d : String) (reason : String) : Admin Bool := do
  raiseIf ((cfg.devices d).isNone) (notConfigured d)
  host .auditWritable
  withLock d do
    let removed ← liftBlock d reason
    let waived ← waiveAll d reason (← undelivered d)
    return removed || 0 < waived

end Execute

end Netops
