import Netops.Admin.Apply

/-!
# The operations of the helper programs

Most helpers of `execute.py` only read, note steps and deliver notifications.  `Only` says it once:
with `P` true of the harmless operations, the lemmas here list what a helper does besides.

* `Op.harmless`     reads of files and calls of the host;
* `all_step`, `only_update`, `only_waitForExpiry`, `only_records`, ...
-/

namespace Netops
open Effect Prog

variable {α β : Type} {P : Op → Prop}

theorem only_file {op : FileOp} (h : P (.file op)) : Only P (file op) :=
  ⟨h, fun _ => Only.ofExcept⟩

theorem only_device {d : String} {c : Option ChangeId} {q : DeviceCall} (h : P (.device d c q)) :
    Only P (device d c q) :=
  ⟨h, fun _ => Only.ofExcept⟩

theorem only_host {q : HostCall} (h : P (.host q)) : Only P (host q) :=
  ⟨h, fun _ => Only.ofExcept⟩

theorem only_budgetNow (h : P .budgetNow) : Only P budgetNow :=
  ⟨h, fun _ => Only.ofExcept⟩

theorem only_raiseIf {c : Prop} [Decidable c] {e : Exn} : Only P (raiseIf c e) := by
  unfold raiseIf
  split <;> trivial

theorem only_doIf {c : Prop} [Decidable c] {m : Admin Unit} (h : Only P m) : Only P (doIf c m) := by
  unfold doIf
  split
  · exact h
  · trivial

/-- reads of the files and calls of the host: they change no file -/
def Op.harmless : Op → Prop
  | .host _ => True
  | .file .listOps => True
  | .file (.readOp _) => True
  | .file (.readRequest _) => True
  | .file (.readBlock _) => True
  | .file (.readBaseline _) => True
  | .file (.readEnrollment _) => True
  | .file .readRejections => True
  | .file .checkWritable => True
  | _ => False

section
variable (hP : ∀ op : Op, op.harmless → P op)
include hP

/-! ## the journal -/

theorem only_operation (c : Option ChangeId) : Only P (Journal.operation c) := by
  cases c with
  | none => trivial
  | some c =>
    refine Only.bind ?_ fun _ => ?_
    · exact only_file (hP _ trivial)
    · trivial

theorem only_readAll (cs : List ChangeId) : Only P (Journal.readAll cs) := by
  induction cs with
  | nil => trivial
  | cons c cs ih =>
    refine Only.bind (only_operation hP _) fun r => ?_
    exact Only.bind ih fun rs => trivial

theorem only_records : Only P Journal.records := by
  refine Only.bind ?_ fun ids => only_readAll hP ids
  exact only_file (hP _ trivial)

theorem only_running (d : String) : Only P (Journal.running d) :=
  Only.bind (only_records hP) fun _ => trivial

theorem only_undelivered (d : String) : Only P (Execute.undelivered d) :=
  Only.bind (only_records hP) fun _ => trivial

open Execute

theorem all_step (r : Record) (name : StepName) (detail : Option String)
    (h : P (.file (.saveOp (r.addStep name detail)))) :
    (step r name detail).All P (· = r.addStep name detail) (fun _ => True) := by
  refine All.bind (V := fun _ => True) ?_ fun _ _ => ?_
  · exact only_file h
  · refine All.bind (V := fun _ => True) ?_ fun _ _ => rfl
    exact only_host (hP _ trivial)

theorem only_notifierOutcome (r : Record) : Only P (notifierOutcome r) := by
  refine Only.bind (Only.attempt ?_) fun x => ?_
  · exact only_host (hP _ trivial)
  · obtain e | (b | b) := x <;> trivial

theorem only_left (dl : Deadline) : Only P dl.left :=
  Only.bind (only_host (hP _ trivial)) fun _ => trivial

theorem only_read (dl : Deadline) {query : Admin α} (h : Only P query) :
    Only P (dl.read query) := by
  refine Only.bind (only_left hP dl) fun _ => Only.bind only_raiseIf fun _ => ?_
  refine Only.bind h fun _ => Only.bind (only_left hP dl) fun _ => ?_
  exact Only.bind only_raiseIf fun _ => trivial

theorem only_pause (dl : Deadline) (wanted : ℚ) : Only P (dl.pause wanted) := by
  refine Only.bind (only_left hP dl) fun _ => Only.bind only_raiseIf fun _ => ?_
  refine Only.bind ?_ fun _ => trivial
  exact only_host (hP _ trivial)

variable (r : Record) (hfired : P (.device r.device (some r.changeId) .safeguardFired))
include hfired

theorem only_proofLoop (n : Nat) (dl : Deadline) (pending : Bool) :
    Only P (proofLoop r n dl pending) := by
  induction n generalizing dl pending with
  | zero => trivial
  | succ n ih =>
    refine Only.bind (only_read hP dl ?_) fun fired => ?_
    · exact only_device hfired
    · cases fired with
      | true => trivial
      | false =>
        refine Only.bind (only_left hP dl) fun _ => ?_
        exact Only.bind (only_pause hP dl _) fun dl' => ih dl' true

theorem only_waitForProof (dl : Deadline) : Only P (waitForProof r dl) := by
  refine Only.bind (only_proofLoop hP r hfired _ dl false) fun pending => only_doIf ?_
  exact only_host (hP _ trivial)

variable (hclock : P (.device r.device (some r.changeId) .clock))
include hclock

theorem only_expiryLoop (fireAt : Int) (due : ℚ) (n : Nat) (dl : Deadline) :
    Only P (expiryLoop r fireAt due n dl) := by
  induction n generalizing dl with
  | zero => trivial
  | succ n ih =>
    refine Only.bind (only_read hP dl ?_) fun now => ?_
    · exact only_device hclock
    · dsimp only
      split
      · refine Only.bind ?_ fun _ => only_waitForProof hP r hfired _
        exact only_host (hP _ trivial)
      · exact Only.bind (only_pause hP dl _) fun dl' => ih dl'

theorem only_waitForExpiry (due : ℚ) : Only P (waitForExpiry r due) := by
  unfold waitForExpiry
  cases r.safeguard with
  | none => trivial
  | some safeguard =>
    refine Only.bind ?_ fun now => only_expiryLoop hP r hfired hclock _ _ _ _
    exact only_host (hP _ trivial)

end

/-! ## reading the device -/

section
variable {r : Record}
open Execute

theorem only_verifySnapshot (side : Side)
    (hsnap : P (.device r.device (some r.changeId) .snapshot))
    (hverify : ∀ text, P (.device r.device (some r.changeId) (.verify r.plan text side))) :
    Only P (verifySnapshot r side) := by
  refine Only.bind (only_device hsnap) fun text => ?_
  exact Only.bind (only_device (hverify text)) fun _ => trivial

theorem only_returned {text : String}
    (h : P (.device r.device (some r.changeId) (.verify r.plan text .before))) :
    Only P (returned r text) := by
  refine Only.bind (Only.attempt (only_device h)) fun x => ?_
  cases x <;> trivial

theorem only_remainingSeconds (h : P (.device r.device (some r.changeId) .clock)) :
    Only P (remainingSeconds r) := by
  unfold remainingSeconds
  split
  · trivial
  · refine Only.bind (Only.attempt (only_device h)) fun x => ?_
    cases x <;> trivial

end

end Netops
