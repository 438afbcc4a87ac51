import Netops.Admin.Machine

/-!
# The journal (`state.py`)

The methods of `Store` as programs over the operations of `Netops.Admin.Machine`.

A read of all records (`records`, `running`) lists the directory and then reads one file after the
other: it is no snapshot, another process may write between two of its reads.
-/

namespace Netops
open Effect

/-- one operation on a state file -/
def file (op : FileOp) : Admin op.Reply := (Prog.call (S := adminSig) (.file op)).bind .ofExcept

/-- one call to the device `d`, for the operation `c` -/
def device (d : String) (c : Option ChangeId) (call : DeviceCall) : Admin call.Reply :=
  (Prog.call (S := adminSig) (.device d c call)).bind .ofExcept

def host (call : HostCall) : Admin call.Reply :=
  (Prog.call (S := adminSig) (.host call)).bind .ofExcept

def lock (op : LockOp) : Admin Bool := (Prog.call (S := adminSig) (.lock op)).bind .ofExcept

def tokenHex : Admin ChangeId := Prog.call (S := adminSig) .tokenHex

def budgetNow : Admin ℚ := (Prog.call (S := adminSig) .budgetNow).bind .ofExcept

def rejected (reason : String) : Exn := .rejected [reason]

/-- `if c: raise e` -/
def raiseIf (c : Prop) [Decidable c] (e : Exn) : Admin Unit := if c then .raise e else .ret ()

/-- `if c: m` -/
def doIf (c : Prop) [Decidable c] (m : Admin Unit) : Admin Unit := if c then m else .ret ()

/-- `with store.lock(device)` -/
def withLock {α : Type} (d : String) (body : Admin α) : Admin α := do
  let _ ← lock (.lockDevice d)
  body.finally_ ((lock (.unlockDevice d)).bind fun _ => .ret ())

/-- `with _target_lock(device)` -/
def withTargetLock {α : Type} (device : Device) (body : Admin α) : Admin α := do
  let _ ← lock (.lockTarget device.hostKeyFingerprint)
  body.finally_ ((lock (.unlockTarget device.hostKeyFingerprint)).bind fun _ => .ret ())

/-- `with store.admission()` -/
def withAdmission {α : Type} (body : Admin α) : Admin α := do
  let _ ← lock .lockAdmission
  body.finally_ ((lock .unlockAdmission).bind fun _ => .ret ())

namespace Journal

/-- `Store.unreadable` -/
def unreadable (path : String) : Exn :=
  .stateUnreadable ["the state file " ++ path ++ " cannot be read; a person must check it"]

def operationPath (c : ChangeId) : String := "operations/" ++ c.text ++ ".json"

/-- `Store.operation`; a text that is no change id is `none` -/
def operation : Option ChangeId → Admin (Option Record)
  | none => .ret none
  | some c => do
    let found ← file (.readOp c)
    return found.map (·.1)

def save (r : Record) : Admin Unit := file (.saveOp r)

/-- `Store._updated`: read, change, write unless the file changed in between.  `change` gives
`none` where the function of the source returns `False`; the flag says what it did. -/
def updated (c : ChangeId) (change : Record → Option Record) : Admin (Record × Bool) := do
  match ← file (.readOp c) with
  | none => .raise (unreadable (operationPath c))
  | some (r, revision) =>
    match change r with
    | none => return (r, false)
    | some r' =>
      let written ← file (.saveOpIf r' revision)
      raiseIf (written = false) (rejected
        ("the journal record " ++ c.text ++ " changed during the update; nothing was saved"))
      return (r', true)

/-- `Store.update` -/
def update (c : ChangeId) (change : Record → Option Record) : Admin (Option (Record × Bool)) := do
  match ← operation (some c) with
  | none => return none
  | some r =>
    let held ← lock (.holdsDevice r.device)
    let changed ← (if held then updated c change else withLock r.device (updated c change))
    return some changed

/-- the records of the files listed, one read after the other -/
def readAll : List ChangeId → Admin (List Record)
  | [] => .ret []
  | c :: cs => do
    let r ← operation (some c)
    let rs ← readAll cs
    return r.toList ++ rs

def records : Admin (List Record) := do
  let ids ← file .listOps
  readAll ids

/-- `Store.running` -/
def running (d : String) : Admin (List Record) := do
  let rs ← records
  return rs.filter fun r => r.device = d && r.status = .running

def rejectionsSince (since : ℚ) : Admin Nat := do
  let moments ← file .readRejections
  return (moments.filter fun moment => since ≤ moment).length

def blocked (d : String) : Admin (Option Block) := file (.readBlock d)

def block (d : String) (c : Option ChangeId) (reason : String) : Admin Unit :=
  file (.writeBlock d ⟨d, c, reason⟩)

def changeIdOrNone : Option ChangeId → String
  | some c => c.text
  | none => "none"

/-- `Store.unblock` -/
def unblock (d : String) (expected : Block) : Admin Bool := do
  match ← file (.removeBlock d expected) with
  | .removed => return true
  | .absent => return false
  | .changed now => .raise (rejected ("the block of device " ++ d
      ++ " changed while it was being lifted (now: " ++ now.reason ++ ", operation "
      ++ changeIdOrNone now.changeId
      ++ "); nothing was removed, a person must check the new block"))

end Journal

end Netops
