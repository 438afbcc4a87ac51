import Netops.Admin.Served
import Netops.Admin.Settled

/-!
# Whole runs of the service

Any number of processes serve any calls on one state directory, in any interleaving, and any of
them may die between two operations.

* `Reachable cfg w`      `w` is reached from a state directory without operations;
* `Reachable.inv`        the invariant holds in every reachable state;
* `confirmed_passed`     a confirmed change has passed every check, in order;
* `no_blind_retry`       a change is sent once at most, and never before its safeguard is on file;
* `budgets_hold`, `blocked_stays`.
-/

namespace Netops
open Effect Prog Execute

/-- a state directory without operations, requests and blocks; nothing is locked -/
structure State.Empty (s : State) : Prop where
  ops : ∀ c, s.store.ops c = none
  ids : s.store.ids = []
  requests : ∀ id, s.store.requests id = none
  blocked : ∀ d, s.store.blocked d = none
  tokens : ∀ c, s.tokens c = none
  trace : s.trace = []

/-- the states of the service -/
abbrev Service := Sys adminSig State Exn Answer Call

/-- the service gets to `w` from an empty state directory -/
def Reachable (cfg : Config) (w : Service) : Prop :=
  ∃ s, s.Empty ∧ Sys.Reach machine State.crash (Call.prog cfg) s w

section
variable {cfg : Config} {w : Service}

theorem State.Empty.inv {s : State} (h : s.Empty) : Inv cfg s := by
  have hops : ∀ d c, (s.view d).ops c = none := fun d c => by
    simp [State.view, Store.deviceOps, h.ops c]
  have htrace : ∀ d, (s.view d).trace = [] := fun d => by
    simp [State.view, h.trace]
  have hrecords : s.store.records = [] := by
    simp [Store.records, h.ids]
  exact {
    ids := fun c => by simp [h.ids, h.ops]
    nodup := h.ids ▸ List.nodup_nil
    changeId := fun c r hr => by cases (h.ops c).symm.trans hr
    drawn := fun c hc => absurd (h.tokens c) hc
    token := fun c hc => absurd (h.ops c) hc
    device := fun d => {
      record := fun c r hr => by cases (hops d c).symm.trans hr
      journaled := fun c r hr => by cases (hops d c).symm.trans hr
      known := fun e he => by rw [htrace] at he; cases he
      owner := fun b c hb => by cases (h.blocked d).symm.trans hb
      armed := fun e he => by rw [htrace] at he; cases he
      clear := fun e he => by rw [htrace] at he; cases he
      once := fun c => by rw [htrace]; exact Nat.zero_le _ }
    unique := fun c c' r r' hr => by cases (h.ops c).symm.trans hr
    requests := fun id entry he => by cases (h.requests id).symm.trans he
    asked := fun p now hn => by rw [h.trace] at hn; cases hn
    admitted := fun now hn => by rw [h.trace] at hn; cases hn
    budgets := fun now _ => by
      refine ⟨fun d => ?_, ?_⟩ <;> rw [hrecords] <;> exact Nat.zero_le _ }

/-- **The invariant holds in every state the service reaches.** -/
theorem Reachable.inv (h : Reachable cfg w) : Inv cfg w.shared := by
  obtain ⟨s, hs, hw⟩ := h
  refine (Sys.Reach.inv (I := Inv cfg) (G := fun p s t => ∀ q, p ≠ q → Rely q s t)
    (H := fun p q s => Conforms cfg p q.prog (fun _ _ => True) s) hs.inv ?_ ?_ ?_ ?_ hw).1
  · exact fun p c s _ => conform_prog cfg p s c
  · intro p q s o k a hi hgood ho
    rw [ho] at hgood
    obtain ⟨hok, hk⟩ := hgood s (.refl p s) hi
    exact ⟨hi.exec hok a, fun q hq => rely_exec hi hq hok a, hk a⟩
  · exact fun p s hi => ⟨hi.crash, fun q hq => rely_crash hq⟩
  · intro p p' q s t hp _ hi hG hgood
    exact Safe.rely (fun _ _ _ => Rely.trans) (fun _ _ _ _ _ _ => trivial) hi (hG p (Ne.symm hp)) hgood

/-! ## the history -/

theorem State.mem_view {s : State} {e : Event} {d : String} (h : e ∈ s.trace)
    (hd : e.op.deviceName = some d) : e ∈ (s.view d).trace :=
  List.mem_filter.mpr ⟨h, decide_eq_true hd⟩

theorem State.view_sublist (s : State) (d : String) : (s.view d).trace.Sublist s.trace :=
  List.filter_sublist

/-- an event for an operation is in the history of the device of the operation -/
theorem Inv.mem_view {s : State} (hi : Inv cfg s) {e : Event} {c : ChangeId} (he : e ∈ s.trace)
    (hc : e.op.isFor c = true) : ∃ r, s.store.ops c = some r ∧ e ∈ (s.view r.device).trace := by
  obtain ⟨d, q, hop⟩ := Op.deviceName_of_isFor hc
  have hmem := State.mem_view (s := s) (d := d) he (by rw [hop]; rfl)
  obtain ⟨r, hr, hd⟩ := Store.deviceOps_ne_none.mp ((hi.device d).known e hmem c hc)
  exact ⟨r, hr, hd ▸ hmem⟩

/-- the calls that send a change are those in the history of its device -/
theorem Inv.applies_view {s : State} (hi : Inv cfg s) {c : ChangeId} {r : Record}
    (hr : s.store.ops c = some r) : (s.trace.filter fun e => e.op.appliesFor c)
      = ((s.view r.device).trace.filter fun e => e.op.appliesFor c) := by
  unfold State.view
  rw [List.filter_filter]
  refine List.filter_congr fun e he => ?_
  by_cases hc : e.op.appliesFor c = true
  · obtain ⟨r', hr', hmem⟩ :=
      hi.mem_view he (Op.isFor_of_sendsFor (Op.sendsFor_of_appliesFor hc))
    cases hr.symm.trans hr'
    rw [hc, (List.mem_filter.mp hmem).2]
    rfl
  · simp [hc]

end

/-! ## what holds in every run -/

section
variable {cfg : Config} {w : Service}

/-- **Confirmation is sound over crashes.**  A record that says `confirmed` has every check of
`Confirmed` in its history, in this order, and its lines were sent exactly once. -/
theorem confirmed_passed (h : Reachable cfg w) (c : ChangeId) (r : Record)
    (hr : w.shared.store.ops c = some r) (hres : r.result = some .confirmed) :
    Confirmed r.change w.shared.trace ∧
      (w.shared.trace.filter fun e => e.op.appliesFor c).length = 1 := by
  have hi := h.inv
  have hid := hi.changeId c r hr
  have hview : (w.shared.view r.device).ops c = some r := Store.deviceOps_eq_some.mpr ⟨hr, rfl⟩
  obtain ⟨text, last, gone, hconf⟩ := ((hi.device r.device).record c r hview).confirmed hres
  refine ⟨⟨text, last, gone, hconf.mono (State.view_sublist _ _)⟩, ?_⟩
  rw [hi.applies_view hr]
  -- once at most by the invariant, once at least because the lines are among the checks
  refine Nat.le_antisymm ((hi.device r.device).once c) ?_
  have hsent : InOrder [Sent r.device r.changeId r.plan.unbound] (w.shared.view r.device).trace :=
    hconf.sublist (by simp [gates, Record.change])
  obtain ⟨e, he, a, hcall⟩ := hsent.mem
  refine List.length_pos_of_mem (List.mem_filter.mpr ⟨he, ?_⟩)
  have hop : e.op = .device r.device (some r.changeId) (.apply r.plan.commands) :=
    Event.exists_is.mp ⟨a, hcall⟩
  rw [hop, hid]
  exact decide_eq_true rfl

/-- no change is sent twice and no write is forgotten -/
structure WrittenAhead (cfg : Config) (s : State) : Prop where
  /-- the lines of a change are sent once at most -/
  once : ∀ c, (s.trace.filter fun e => e.op.appliesFor c).length ≤ 1
  /-- a line is sent only when the safeguard of the operation is on file -/
  armed : ∀ e ∈ s.trace, ∀ c, e.op.sendsFor c = true →
    ∃ r, e.before.ops c = some r ∧ r.safeguard.isSome
  /-- a record that says that nothing was sent is right -/
  unsent : ∀ c r, s.store.ops c = some r → r.reason = some .interruptedBeforeMutation →
    ∀ e ∈ s.trace, e.op.sendsFor c = false
  /-- after `recover` nothing of the device is unfinished -/
  recovered : ∀ d dev p env n rs t, cfg.devices d = some dev →
    run (machine p) env n (recover cfg d) s = (.returned rs, t) →
    ∀ c r, t.store.ops c = some r → r.device = dev.name → r.status = .finished

/-- **No blind retry and no forgotten write.** -/
theorem no_blind_retry (h : Reachable cfg w) : WrittenAhead cfg w.shared := by
  have hi := h.inv
  refine ⟨fun c => ?_, fun e he c hc => ?_, fun c r hr hreason e he => ?_, ?_⟩
  · cases hr : w.shared.store.ops c with
    | some r =>
      rw [hi.applies_view hr]
      exact (hi.device r.device).once c
    | none =>
      -- nothing is sent for an operation without a record
      have hnil : (w.shared.trace.filter fun e => e.op.appliesFor c) = [] := by
        rw [List.filter_eq_nil_iff]
        intro e he hc
        obtain ⟨r, hr', -⟩ := hi.mem_view he (Op.isFor_of_sendsFor (Op.sendsFor_of_appliesFor hc))
        cases hr.symm.trans hr'
      rw [hnil]
      exact Nat.zero_le _
  · obtain ⟨r, -, hmem⟩ := hi.mem_view he (Op.isFor_of_sendsFor hc)
    exact (hi.device r.device).armed e hmem c hc
  · by_contra hc
    have hs : e.op.sendsFor c = true := Bool.eq_true_of_not_eq_false hc
    obtain ⟨r', hr', hmem⟩ := hi.mem_view he (Op.isFor_of_sendsFor hs)
    cases hr.symm.trans hr'
    have hok := (hi.device r.device).record c r (Store.deviceOps_eq_some.mpr ⟨hr, rfl⟩)
    have hun := hok.unsent (hok.early hreason) e hmem
    rw [hi.changeId c r hr, hs] at hun
    cases hun
  · intro d dev p env n rs t hd hrun c r hr hrd
    obtain ⟨-, hret, -⟩ := Safe.run (fun s => Rely.refl p s) (fun s o a hi hok => hi.exec hok a) env n
      (recover cfg d) _ w.shared hi (conform_recover d)
    rw [hrun] at hret
    exact hret rs rfl rs rfl dev hd c r (Store.deviceOps_eq_some.mpr ⟨hr, hrd⟩)

/-- **The budgets hold under concurrency**, at every moment from the last admission on. -/
theorem budgets_hold (h : Reachable cfg w) (now : ℚ)
    (hnow : ∀ m, admittedAt w.shared.trace = some m → m ≤ now) : BudgetsHold cfg w.shared.store now :=
  h.inv.budgets now hnow

/-- blocks last until they are lifted -/
structure Blocking (s : State) : Prop where
  /-- the device of a record that blocks is blocked, unless its block was lifted after the record
  was finished -/
  stays : ∀ c r, s.store.ops c = some r → r.blocking = true →
    s.store.blocked r.device ≠ none ∨ Lifted r.device c s.trace
  /-- no change is sent to a device that is blocked -/
  clear : ∀ e ∈ s.trace, ∀ d c lines, e.op = .device d c (.apply lines) →
    e.before.blocked d = none

/-- **Blocked stays blocked.** -/
theorem blocked_stays (h : Reachable cfg w) : Blocking w.shared := by
  have hi := h.inv
  refine ⟨fun c r hr hb => ?_, fun e he d c lines hop => ?_⟩
  · have hok := (hi.device r.device).record c r (Store.deviceOps_eq_some.mpr ⟨hr, rfl⟩)
    rcases hok.blocked hb with hn | ⟨e, he, hlift⟩
    · exact .inl hn
    · rw [hi.changeId c r hr] at hlift
      exact .inr ⟨e, (State.view_sublist _ _).subset he, hlift⟩
  · have hmem := State.mem_view (s := w.shared) (d := d) he (by rw [hop]; rfl)
    exact (hi.device d).clear e hmem (by rw [hop]; rfl)

end

/-! ## a run -/

def serviceConfig : Config where
  devices d := if d = "edge" then some exampleDevice else none
  name_eq n d h := by
    split at h
    · next hn =>
      cases h
      exact hn.symm
    · cases h
  limits := ⟨6, 40, 30, 32, 20000⟩
  notifier := false
  requireExport := false

/-- an obedient device that may be unable to save its configuration -/
def serviceEnv (saves : Bool) : Env adminSig := fun n op => match op with
  | .device _ none (.observe plan) => (.ok plan.before : Except Exn (Option Attrs))
  | .device _ _ .persist =>
      (if saves then .ok true else .error (.other "OSError" "") : Except Exn Bool)
  | op => exampleEnv 0 n op

/-- a state directory with a certificate for every device and nothing else -/
def serviceStart : State :=
  { State.initial 0 with store := { Store.empty with enrollments := fun _ => some ⟨"", none, 0⟩ } }

def exampleRequest : Request := ⟨none, "vlan", .create, "v10", [], none, "", "", "request-1", ""⟩

def serviceRun (saves : Bool) : State :=
  (run (machine 0) (serviceEnv saves) 200
    (Call.prog serviceConfig (.apply "edge" exampleRequest)) serviceStart).2

theorem serviceStart_empty : serviceStart.Empty :=
  ⟨fun _ => rfl, rfl, fun _ => rfl, fun _ => rfl, fun _ => rfl, rfl⟩

theorem serviceRun_reached (saves : Bool) :
    ∃ w, Sys.Reach machine State.crash (Call.prog serviceConfig) serviceStart w ∧ w.used = [0] ∧
      w.shared = serviceRun saves := by
  have hspawn : Sys.Reach machine State.crash (Call.prog serviceConfig) serviceStart
      ⟨serviceStart, Function.update (fun _ => none) 0 (some ⟨.apply "edge" exampleRequest,
        serviceStart, Call.prog serviceConfig (.apply "edge" exampleRequest), []⟩), [0]⟩ :=
    .step .start (.spawn _ 0 (Call.apply "edge" exampleRequest) List.not_mem_nil)
  obtain ⟨w, q, hw, hused, -, -, -, hshared, -⟩ :=
    Sys.Reach.run (serviceEnv saves) 200 (p := 0) hspawn rfl
  exact ⟨w, hw, hused, hshared⟩

theorem serviceRun_reachable (saves : Bool) :
    ∃ w, Reachable serviceConfig w ∧ w.shared = serviceRun saves := by
  obtain ⟨w, hw, -, hshared⟩ := serviceRun_reached saves
  exact ⟨w, ⟨serviceStart, serviceStart_empty, hw⟩, hshared⟩

theorem confirmed_passed_run : ∃ w c r, Reachable serviceConfig w ∧
    w.shared.store.ops c = some r ∧ r.result = some .confirmed ∧ Confirmed r.change w.shared.trace ∧
      (w.shared.trace.filter fun e => e.op.appliesFor c).length = 1 := by
  obtain ⟨w, hw, hshared⟩ := serviceRun_reachable true
  have hrun : ((serviceRun true).store.ops 1).map (·.result) = some (some .confirmed) := by
    decide +kernel
  obtain ⟨r, hr, hres⟩ := Option.map_eq_some_iff.mp hrun
  rw [← hshared] at hr
  exact ⟨w, 1, r, hw, hr, hres, confirmed_passed hw 1 r hr hres⟩

theorem no_blind_retry_run : ∃ w, Reachable serviceConfig w ∧
    (∃ e ∈ w.shared.trace, e.op.applies = true) ∧ WrittenAhead serviceConfig w.shared := by
  obtain ⟨w, hw, hshared⟩ := serviceRun_reachable true
  have hrun : ∃ e ∈ (serviceRun true).trace, e.op.applies = true := by
    decide +kernel
  exact ⟨w, hw, hshared ▸ hrun, no_blind_retry hw⟩

theorem budgets_hold_run : ∃ w, Reachable serviceConfig w ∧
    admittedAt w.shared.trace = some 0 ∧ BudgetsHold serviceConfig w.shared.store 0 := by
  obtain ⟨w, hw, hshared⟩ := serviceRun_reachable true
  have hrun : admittedAt (serviceRun true).trace = some 0 := by
    decide +kernel
  rw [← hshared] at hrun
  refine ⟨w, hw, hrun, budgets_hold hw 0 fun m hm => ?_⟩
  cases hrun.symm.trans hm
  exact le_rfl

theorem blocked_stays_run : ∃ w r, Reachable serviceConfig w ∧
    w.shared.store.ops 1 = some r ∧ r.blocking = true ∧ Blocking w.shared := by
  obtain ⟨w, hw, hshared⟩ := serviceRun_reachable false
  have hrun : ((serviceRun false).store.ops 1).map (·.blocking) = some true := by
    decide +kernel
  obtain ⟨r, hr, hb⟩ := Option.map_eq_some_iff.mp hrun
  rw [← hshared] at hr
  exact ⟨w, r, hw, hr, hb, blocked_stays hw⟩

end Netops
