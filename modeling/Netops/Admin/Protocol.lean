import Netops.Admin.Apply
import Netops.Admin.Events

/-!
# What the processes of the service promise each other

Every file and every device belongs to whoever holds a lock: the records, the block and the calls
of a device to the holder of its lock, the creation of records and the requests to the holder of
the admission lock.

* `State.view d`   what the holder of the lock of `d` owns: records, block and history of `d`;
* `Later`          what may become of a record;
* `Record.change`, `gates`, `Confirmed`   the checks a confirmed change has passed, in order;
* `RecordOk`, `DeviceOk`, `Inv`           the invariant: of a record, of a device, of a state;
* `OpOk p`         which operations the process `p` may do in a state;
* `Rely p`         what the other processes leave alone.
-/

namespace Netops
open Effect Execute

/-! ## events -/

def Event.op (e : Event) : Op := e.call.1

namespace Op

/-- the device whose records, block or configuration the operation touches -/
def deviceName : Op → Option String
  | .device d _ _ => some d
  | .file (.saveOp r) => some r.device
  | .file (.saveOpIf r _) => some r.device
  | .file (.writeBlock d _) => some d
  | .file (.removeBlock d _) => some d
  | _ => none

/-- a call made for the operation `c` -/
def isFor (c : ChangeId) : Op → Bool
  | .device _ c' _ => c' = some c
  | _ => false

/-- the lines of a change are sent -/
def applies : Op → Bool
  | .device _ _ (.apply _) => true
  | _ => false

/-- the lines of the change `c` are sent -/
def appliesFor (c : ChangeId) : Op → Bool
  | .device _ c' (.apply _) => c' = some c
  | _ => false

/-- configuration lines are sent: those of the safeguard or those of the change -/
def sendsFor (c : ChangeId) : Op → Bool
  | .device _ c' (.apply _) => c' = some c
  | .device _ c' (.installSafeguard _ _) => c' = some c
  | _ => false

end Op

/-- a change: its device, its name, its plan as it was admitted, the accounts it was admitted with -/
structure Change where
  device : String
  id : ChangeId
  plan : Plan
  accounts : String

def Record.change (r : Record) : Change := ⟨r.device, r.changeId, r.plan.unbound, r.accounts⟩

section
variable (x : Change)

/-- `install_safeguard` returns no problems -/
def Installed (e : Event) : Prop := ∃ safeguard plan fireAt,
  e.is (.device x.device (some x.id) (.installSafeguard safeguard plan)) (.ok ([], fireAt))

/-- `accounts_check` returns the accounts of the record -/
def AccountsKept (text : String) (e : Event) : Prop :=
  e.is (.device x.device (some x.id) (.accountsCheck text)) (.ok x.accounts)

/-- the audit gate returns no new blocking finding -/
def AuditPassed (text : String) (e : Event) : Prop := ∃ plan before,
  e.is (.device x.device (some x.id) (.auditGate plan before text)) (.ok [])

/-- the check account sees the state after the change -/
def ObservedAfter (e : Event) : Prop := ∃ plan, plan.unbound = x.plan ∧
  e.is (.device x.device (some x.id) (.observe plan)) (.ok x.plan.after)

/-- the journal takes up `confirm_start` -/
def ConfirmStarted (e : Event) : Prop :=
  (∀ r, e.before.ops x.id = some r → .confirmStart ∉ r.stepNames) ∧
    ∃ r, e.after.ops x.id = some r ∧ .confirmStart ∈ r.stepNames

/-- the safeguard is seen absent -/
def Absent (e : Event) : Prop :=
  e.is (.device x.device (some x.id) .removeSafeguard) (.ok true) ∨
    e.is (.device x.device (some x.id) .removeRemaining) (.ok true) ∨
    e.is (.device x.device (some x.id) .safeguardAbsent) (.ok true)

/-- the checks before `confirm_start`; `text` is the snapshot of the postcheck, `last` that of the
final check -/
def gates (text last : String) : List (Event → Prop) :=
  [Installed x, Sent x.device x.id x.plan,
    Snapped x.device x.id text, AccountsKept x text, Verified x.device x.id x.plan text .after,
    AuditPassed x text, ObservedAfter x,
    Snapped x.device x.id last, Verified x.device x.id x.plan last .after]

/-- the checks before `confirm_start` are passed -/
def GatesPassed (tr : List Event) : Prop := ∃ text last, InOrder (gates x text last) tr

/-- ... and the journal knows -/
def GatesJournaled (tr : List Event) : Prop :=
  ∃ text last, InOrder (gates x text last ++ [ConfirmStarted x]) tr

/-- ... and then the safeguard was seen absent and the change was still there -/
def Confirmed (tr : List Event) : Prop := ∃ text last gone, InOrder (gates x text last ++
  [ConfirmStarted x, Absent x, Snapped x.device x.id gone,
    Verified x.device x.id x.plan gone .after]) tr

end

/-- a block of the device was removed after the operation `c` was finished -/
def Lifted (d : String) (c : ChangeId) (tr : List Event) : Prop :=
  ∃ e ∈ tr, (∃ b, e.op = .file (.removeBlock d b)) ∧ e.before.blocked d ≠ none ∧
    e.after.blocked d = none ∧ ∃ r, e.before.ops c = some r ∧ r.status = .finished

/-! ## records and devices -/

/-- what may become of a record: the change, the request and the budget data stay, a safeguard is
not forgotten, a finished record stays as it was finished -/
structure Later (r r' : Record) : Prop where
  change : r'.change = r.change
  requestId : r'.requestId = r.requestId
  requestSha256 : r'.requestSha256 = r.requestSha256
  moment : r'.moment = r.moment
  weight : r'.weight = r.weight
  safeguard : r.safeguard.isSome → r'.safeguard.isSome
  finished : r.status = .finished → r'.status = .finished ∧ r'.result = r.result ∧
    r'.reason = r.reason ∧ r'.safeguard = r.safeguard

theorem Later.refl (r : Record) : Later r r :=
  ⟨rfl, rfl, rfl, rfl, rfl, id, fun h => ⟨h, rfl, rfl, rfl⟩⟩

theorem Later.trans {a b c : Record} (h : Later a b) (h' : Later b c) : Later a c where
  change := h'.change.trans h.change
  requestId := h'.requestId.trans h.requestId
  requestSha256 := h'.requestSha256.trans h.requestSha256
  moment := h'.moment.trans h.moment
  weight := h'.weight.trans h.weight
  safeguard hs := h'.safeguard (h.safeguard hs)
  finished hf := by
    obtain ⟨hb, h1, h2, h3⟩ := h.finished hf
    obtain ⟨hc, h1', h2', h3'⟩ := h'.finished hb
    exact ⟨hc, h1'.trans h1, h2'.trans h2, h3'.trans h3⟩

theorem Later.changeId {r r' : Record} (h : Later r r') : r'.changeId = r.changeId :=
  congrArg Change.id h.change

theorem Later.device {r r' : Record} (h : Later r r') : r'.device = r.device :=
  congrArg Change.device h.change

/-- a record can only leave the budget -/
theorem Later.counted {r r' : Record} (h : Later r r') (hc : r'.counted = true) :
    r.counted = true := by
  unfold Record.counted at *
  by_cases hs : r.status = .running
  · simp [hs]
  · have hf : r.status = .finished := by
      cases hr : r.status with
      | running => exact absurd hr hs
      | finished => rfl
    obtain ⟨hf', -, -, hg⟩ := h.finished hf
    rw [hf', hg] at hc
    simp only [Bool.or_eq_true, decide_eq_true_eq] at hc ⊢
    rcases hc with hc | hc
    · exact .inl hc
    · cases hc

/-- the records, the block and the history of one device -/
structure View where
  ops : ChangeId → Option Record
  block : Option Block
  trace : List Event

def Store.deviceOps (st : Store) (d : String) (c : ChangeId) : Option Record :=
  (st.ops c).filter fun r => r.device = d

def State.view (s : State) (d : String) : View where
  ops := s.store.deviceOps d
  block := s.store.blocked d
  trace := s.trace.filter fun e => e.op.deviceName = some d

/-- what a record of the device `d` says is true -/
structure RecordOk (d : String) (r : Record) (v : View) : Prop where
  unsent : r.safeguard = none → ∀ e ∈ v.trace, e.op.sendsFor r.changeId = false
  early : r.reason = some .interruptedBeforeMutation → r.safeguard = none
  gates : .confirmStart ∈ r.stepNames → GatesPassed r.change v.trace
  confirmed : r.result = some .confirmed → Confirmed r.change v.trace
  blocked : r.blocking = true → v.block ≠ none ∨ Lifted d r.changeId v.trace

/-- what is true of a device -/
structure DeviceOk (d : String) (v : View) : Prop where
  record : ∀ c r, v.ops c = some r → RecordOk d r v
  journaled : ∀ c r, v.ops c = some r → .confirmStart ∈ r.stepNames →
    GatesJournaled r.change v.trace
  known : ∀ e ∈ v.trace, ∀ c, e.op.isFor c = true → v.ops c ≠ none
  owner : ∀ b c, v.block = some b → b.changeId = some c → v.ops c ≠ none
  armed : ∀ e ∈ v.trace, ∀ c, e.op.sendsFor c = true →
    ∃ r, e.before.ops c = some r ∧ r.safeguard.isSome
  clear : ∀ e ∈ v.trace, e.op.applies = true → e.before.blocked d = none
  once : ∀ c, (v.trace.filter fun e => e.op.appliesFor c).length ≤ 1

/-! ## budgets -/

/-- the last answer of the budget clock to the process `p` -/
def asked (p : Pid) : List Event → Option ℚ
  | [] => none
  | e :: tr =>
    match e.call with
    | ⟨.budgetNow, .ok now⟩ => if e.pid = p then some now else asked p tr
    | _ => asked p tr

/-- a record is created -/
def Event.admission (e : Event) : Bool :=
  match e.op with
  | .file (.saveOp r) => (e.before.ops r.changeId).isNone && (e.after.ops r.changeId).isSome
  | _ => false

/-- the moment of the last admission: the answer of the budget clock it was checked with -/
def admittedAt : List Event → Option ℚ
  | [] => none
  | e :: tr => if e.admission then asked e.pid tr else admittedAt tr

/-- the records of the journal -/
def Store.records (st : Store) : List Record := st.ids.filterMap st.ops

/-- the budgets hold at the moment `now` -/
structure BudgetsHold (cfg : Config) (st : Store) (now : ℚ) : Prop where
  device : ∀ d, spent (st.records.filter fun r => r.device = d) (now - hour)
    ≤ cfg.limits.changesPerDevicePerHour
  day : spent st.records (now - day) ≤ cfg.limits.changesPerDay

/-! ## the invariant -/

structure Inv (cfg : Config) (s : State) : Prop where
  ids : ∀ c, c ∈ s.store.ids ↔ s.store.ops c ≠ none
  nodup : s.store.ids.Nodup
  changeId : ∀ c r, s.store.ops c = some r → r.changeId = c
  drawn : ∀ c, s.tokens c ≠ none → c ∈ s.drawn
  token : ∀ c, s.store.ops c ≠ none → s.tokens c ≠ none
  device : ∀ d, DeviceOk d (s.view d)
  unique : ∀ c c' r r', s.store.ops c = some r → s.store.ops c' = some r' →
    r.requestId = r'.requestId → c = c'
  requests : ∀ id entry, s.store.requests id = some entry → ∃ r,
    s.store.ops entry.changeId = some r ∧ r.requestId = id ∧
      r.requestSha256 = entry.requestSha256 ∧ r.device = entry.device
  asked : ∀ p now, asked p s.trace = some now → now ≤ s.clock
  admitted : ∀ now, admittedAt s.trace = some now → now ≤ s.clock
  budgets : ∀ now, (∀ m, admittedAt s.trace = some m → m ≤ now) → BudgetsHold cfg s.store now

/-! ## what a process may do -/

/-- a record that is there is written on -/
structure Saveable (d : String) (r : Record) (v : View) : Prop where
  ok : RecordOk d r v
  stored : ∃ r₀, v.ops r.changeId = some r₀ ∧ Later r₀ r

/-- a record is created -/
structure Admissible (cfg : Config) (p : Pid) (r : Record) (s : State) : Prop where
  admission : s.admission = some p
  token : s.tokens r.changeId = some p
  absent : s.store.ops r.changeId = none
  running : r.status = .running
  safeguard : r.safeguard = none
  result : r.result = none
  steps : r.steps = []
  request : ∀ c r', s.store.ops c = some r' → r'.requestId ≠ r.requestId
  budget : ∃ now, asked p s.trace = some now ∧
    (∀ m, admittedAt s.trace = some m → m ≤ now) ∧
    spent (s.store.records.filter fun r' => r'.device = r.device) (now - hour) + r.weight
      ≤ cfg.limits.changesPerDevicePerHour ∧
    spent s.store.records (now - day) + r.weight ≤ cfg.limits.changesPerDay

/-- the operations of the process `p` that keep the invariant -/
def OpOk (cfg : Config) (p : Pid) (s : State) : Op → Prop
  | .device d c q => s.locks d = some p ∧
      (∀ c', c = some c' → ∃ r, s.store.ops c' = some r ∧ r.device = d) ∧
      (∀ safeguard plan, q = .installSafeguard safeguard plan →
        ∃ c' r, c = some c' ∧ s.store.ops c' = some r ∧ r.safeguard.isSome) ∧
      (∀ lines, q = .apply lines → s.store.blocked d = none ∧
        ∃ c' r, c = some c' ∧ s.store.ops c' = some r ∧ r.safeguard.isSome ∧
          ∀ e ∈ (s.view d).trace, e.op.appliesFor c' = false)
  | .file (.saveOp r) => s.locks r.device = some p ∧
      (Saveable r.device r (s.view r.device) ∨ Admissible cfg p r s)
  | .file (.saveOpIf r _) => s.locks r.device = some p ∧
      Saveable r.device r (s.view r.device)
  | .file (.writeBlock d b) => s.locks d = some p ∧
      ∀ c, b.changeId = some c → (s.view d).ops c ≠ none
  | .file (.removeBlock d _) => s.locks d = some p
  | .file (.writeRequest id entry) => s.admission = some p ∧ s.store.requests id = none ∧
      ∃ r, s.store.ops entry.changeId = some r ∧ r.requestId = id ∧
        r.requestSha256 = entry.requestSha256 ∧ r.device = entry.device
  | _ => True

/-- what the others leave alone while `p` is at work -/
structure Rely (p : Pid) (s t : State) : Prop where
  locks : ∀ d, t.locks d = some p ↔ s.locks d = some p
  view : ∀ d, s.locks d = some p → t.view d = s.view d
  admission : t.admission = some p ↔ s.admission = some p
  admitted : s.admission = some p → t.store.ids = s.store.ids ∧
    t.store.requests = s.store.requests ∧ admittedAt t.trace = admittedAt s.trace
  later : ∀ c r, s.store.ops c = some r → ∃ r', t.store.ops c = some r' ∧ Later r r'
  token : ∀ c, s.tokens c = some p → t.tokens c = some p ∧
    (s.store.ops c = none → t.store.ops c = none)
  asked : Netops.asked p t.trace = Netops.asked p s.trace
  requests : ∀ id entry, s.store.requests id = some entry → t.store.requests id = some entry

theorem Rely.refl (p : Pid) (s : State) : Rely p s s where
  locks _ := Iff.rfl
  view _ _ := rfl
  admission := Iff.rfl
  admitted _ := ⟨rfl, rfl, rfl⟩
  later _ r h := ⟨r, h, .refl r⟩
  token _ h := ⟨h, id⟩
  asked := rfl
  requests _ _ := id

theorem Rely.trans {p : Pid} {s t u : State} (h : Rely p s t) (h' : Rely p t u) : Rely p s u where
  locks d := (h'.locks d).trans (h.locks d)
  view d hd := (h'.view d ((h.locks d).mpr hd)).trans (h.view d hd)
  admission := h'.admission.trans h.admission
  admitted ha := by
    obtain ⟨h1, h2, h3⟩ := h.admitted ha
    obtain ⟨h1', h2', h3'⟩ := h'.admitted (h.admission.mpr ha)
    exact ⟨h1'.trans h1, h2'.trans h2, h3'.trans h3⟩
  later c r hc := by
    obtain ⟨r', hr', hl⟩ := h.later c r hc
    obtain ⟨r'', hr'', hl'⟩ := h'.later c r' hr'
    exact ⟨r'', hr'', hl.trans hl'⟩
  token c hc := by
    obtain ⟨h1, h2⟩ := h.token c hc
    obtain ⟨h1', h2'⟩ := h'.token c h1
    exact ⟨h1', fun h => h2' (h2 h)⟩
  asked := h'.asked.trans h.asked
  requests id entry he := h'.requests id entry (h.requests id entry he)

end Netops
