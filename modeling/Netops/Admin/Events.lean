import Netops.Admin.Machine

/-!
# The events of an operation

What the trace says about one change of one device: the calls that matter and their answers.
-/

namespace Netops
open Effect

/-- the event is the operation `op` with the answer `a` -/
def Event.is (op : Op) (a : op.Answer) (e : Event) : Prop := e.call = ⟨op, a⟩

theorem Event.exists_is {op : Op} {e : Event} : (∃ a, e.is op a) ↔ e.call.1 = op := by
  obtain ⟨p, ⟨op', a⟩, before, after⟩ := e
  constructor
  · rintro ⟨a, h⟩
    exact congrArg Sigma.fst h
  · rintro rfl
    exact ⟨a, rfl⟩

@[simp] theorem State.log_trace (s : State) (p : Pid) (op : Op) (a : op.Answer) (after : Store) :
    (s.log p op a after).trace = ⟨p, ⟨op, a⟩, s.store, after⟩ :: s.trace := rfl

/-- an operation leaves the trace alone or puts itself in front of it -/
theorem State.exec_trace (p : Pid) (op : Op) (a : op.Choice) (s : State) :
    (State.exec p op a s).2.trace = s.trace ∨ ∃ answer after,
      (State.exec p op a s).2.trace = ⟨p, ⟨op, answer⟩, s.store, after⟩ :: s.trace := by
  cases op with
  | device d c q => exact .inr ⟨_, _, rfl⟩
  | host q => exact .inr ⟨_, _, rfl⟩
  | file op =>
    cases a with
    | done => exact .inr ⟨_, _, rfl⟩
    | lost e => exact .inr ⟨_, _, rfl⟩
    | late e => exact .inr ⟨_, _, rfl⟩
  | lock op =>
    left
    cases op <;> simp only [State.exec, State.lockOp] <;> split <;> rfl
  | tokenHex => exact .inl rfl
  | budgetNow =>
    cases a with
    | error e => exact .inl rfl
    | ok now => exact .inr ⟨_, _, rfl⟩

section
variable (d : String) (c : ChangeId) (plan : Plan)

/-- the lines of the change are sent -/
def Sent (e : Event) : Prop := ∃ a, e.is (.device d (some c) (.apply plan.commands)) a

/-- a snapshot is read -/
def Snapped (text : String) (e : Event) : Prop := e.is (.device d (some c) .snapshot) (.ok text)

/-- `engine.verify` finds the snapshot on the side `side` of the plan -/
def Verified (text : String) (side : Side) (e : Event) : Prop :=
  ∃ plan' verdict, e.is (.device d (some c) (.verify plan' text side)) (.ok verdict) ∧
    plan'.unbound = plan.unbound ∧ verdict.matched = true

/-- `adapter.remove_safeguard` returns true -/
def Removed (e : Event) : Prop := e.is (.device d (some c) .removeSafeguard) (.ok true)

/-- `adapter.persist` does not raise -/
def Persisted (e : Event) : Prop := ∃ saved, e.is (.device d (some c) .persist) (.ok saved)

end

end Netops
