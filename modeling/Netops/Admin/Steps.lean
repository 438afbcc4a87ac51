import Netops.Admin.Budget

/-!
# One step of one process

An operation that `OpOk` allows keeps the invariant (`Inv.exec`) and leaves alone what the others
rely on (`rely_exec`); so does the death of a process (`Inv.crash`, `rely_crash`).

`DeviceOk.push` is the step of a device: one more event in its history.
-/

namespace Netops
open Effect Execute

/-! ## views -/

/-- the history of the device after one more event -/
def View.push (v : View) (e : Event) (d : String) : List Event :=
  if e.op.deviceName = some d then e :: v.trace else v.trace

theorem State.view_log (s : State) (p : Pid) (op : Op) (a : op.Answer) (after : Store)
    (d : String) : (s.log p op a after).view d = ⟨after.deviceOps d, after.blocked d,
      (s.view d).push ⟨p, ⟨op, a⟩, s.store, after⟩ d⟩ := by
  unfold State.view View.push
  rw [State.log_trace, List.filter_cons]
  simp only [decide_eq_true_eq]
  rfl

theorem View.push_of_ne {v : View} {e : Event} {d : String} (h : e.op.deviceName ≠ some d) :
    v.push e d = v.trace := if_neg h

theorem View.push_of_eq {v : View} {e : Event} {d : String} (h : e.op.deviceName = some d) :
    v.push e d = e :: v.trace := if_pos h

theorem Store.deviceOps_eq_some {st : Store} {d : String} {c : ChangeId} {r : Record} :
    st.deviceOps d c = some r ↔ st.ops c = some r ∧ r.device = d := by
  simp [Store.deviceOps, Option.filter_eq_some_iff]

theorem Store.deviceOps_ne_none {st : Store} {d : String} {c : ChangeId} :
    st.deviceOps d c ≠ none ↔ ∃ r, st.ops c = some r ∧ r.device = d := by
  rw [Option.ne_none_iff_exists']
  exact exists_congr fun r => Store.deviceOps_eq_some

theorem Op.deviceName_of_isFor {op : Op} {c : ChangeId} (h : op.isFor c = true) :
    ∃ d q, op = .device d (some c) q := by
  cases op with
  | device d c' q =>
    have hc : c' = some c := of_decide_eq_true h
    subst hc
    exact ⟨d, q, rfl⟩
  | _ => cases h

theorem Op.isFor_of_sendsFor {op : Op} {c : ChangeId} (h : op.sendsFor c = true) :
    op.isFor c = true := by
  cases op with
  | device d c' q =>
    cases q with
    | apply lines => exact h
    | installSafeguard safeguard plan => exact h
    | _ => cases h
  | _ => cases h

theorem Op.sendsFor_of_appliesFor {op : Op} {c : ChangeId} (h : op.appliesFor c = true) :
    op.sendsFor c = true := by
  cases op with
  | device d c' q =>
    cases q with
    | apply lines => exact h
    | _ => cases h
  | _ => cases h

/-! ## one more event of a device -/

theorem GatesPassed.cons {x : Change} {tr : List Event} (e : Event) (h : GatesPassed x tr) :
    GatesPassed x (e :: tr) := by
  obtain ⟨text, last, h⟩ := h
  exact ⟨text, last, h.cons e⟩

theorem GatesJournaled.cons {x : Change} {tr : List Event} (e : Event) (h : GatesJournaled x tr) :
    GatesJournaled x (e :: tr) := by
  obtain ⟨text, last, h⟩ := h
  exact ⟨text, last, h.cons e⟩

theorem GatesPassed.journaled {x : Change} {tr : List Event} {e : Event} (h : GatesPassed x tr)
    (he : ConfirmStarted x e) : GatesJournaled x (e :: tr) := by
  obtain ⟨text, last, h⟩ := h
  exact ⟨text, last, h.snoc he⟩

theorem Confirmed.cons {x : Change} {tr : List Event} (e : Event) (h : Confirmed x tr) :
    Confirmed x (e :: tr) := by
  obtain ⟨text, last, gone, h⟩ := h
  exact ⟨text, last, gone, h.cons e⟩

theorem Lifted.cons {d : String} {c : ChangeId} {tr : List Event} (e : Event)
    (h : Lifted d c tr) : Lifted d c (e :: tr) := by
  obtain ⟨e', he', h⟩ := h
  exact ⟨e', List.mem_cons_of_mem _ he', h⟩

/-- what a record says stays true when an event is added -/
theorem RecordOk.cons {d : String} {r : Record} {v v' : View} {e : Event} (h : RecordOk d r v)
    (htr : v'.trace = e :: v.trace)
    (hsend : r.safeguard = none → e.op.sendsFor r.changeId = false)
    (hblock : r.blocking = true → v.block ≠ none →
      v'.block ≠ none ∨ Lifted d r.changeId (e :: v.trace)) : RecordOk d r v' where
  unsent hs := by
    rw [htr]
    intro e' he'
    rcases List.mem_cons.mp he' with rfl | he'
    · exact hsend hs
    · exact h.unsent hs e' he'
  early := h.early
  gates hc := htr ▸ (h.gates hc).cons e
  confirmed hc := htr ▸ (h.confirmed hc).cons e
  blocked hb := by
    rw [htr]
    rcases h.blocked hb with hn | hl
    · exact hblock hb hn
    · exact .inr (hl.cons e)

/-- **One more event of a device.** -/
theorem DeviceOk.push {d : String} {v v' : View} {e : Event} (h : DeviceOk d v)
    (htr : v'.trace = e :: v.trace)
    (hrecord : ∀ c r, v'.ops c = some r → RecordOk d r v')
    (hjournaled : ∀ c r, v'.ops c = some r → .confirmStart ∈ r.stepNames →
      GatesJournaled r.change v'.trace)
    (hops : ∀ c, v.ops c ≠ none → v'.ops c ≠ none)
    (hknown : ∀ c, e.op.isFor c = true → v'.ops c ≠ none)
    (howner : ∀ b c, v'.block = some b → b.changeId = some c → v'.ops c ≠ none)
    (harmed : ∀ c, e.op.sendsFor c = true → ∃ r, e.before.ops c = some r ∧ r.safeguard.isSome)
    (hclear : e.op.applies = true → e.before.blocked d = none)
    (honce : ∀ c, e.op.appliesFor c = true → ∀ e' ∈ v.trace, e'.op.appliesFor c = false) :
    DeviceOk d v' where
  record := hrecord
  journaled := hjournaled
  known := by
    rw [htr]
    intro e' he' c hc
    rcases List.mem_cons.mp he' with rfl | he'
    · exact hknown c hc
    · exact hops c (h.known e' he' c hc)
  owner := howner
  armed := by
    rw [htr]
    intro e' he' c hc
    rcases List.mem_cons.mp he' with rfl | he'
    · exact harmed c hc
    · exact h.armed e' he' c hc
  clear := by
    rw [htr]
    intro e' he' hc
    rcases List.mem_cons.mp he' with rfl | he'
    · exact hclear hc
    · exact h.clear e' he' hc
  once := by
    rw [htr]
    intro c
    rw [List.filter_cons]
    by_cases hc : e.op.appliesFor c = true
    · rw [if_pos hc]
      have hnil : (v.trace.filter fun e => e.op.appliesFor c) = [] := by
        rw [List.filter_eq_nil_iff]
        intro e' he'
        rw [honce c hc e' he']
        simp
      rw [hnil]
      simp
    · rw [if_neg hc]
      exact h.once c

/-- an event that is no call to the device and leaves records and block as they are -/
theorem DeviceOk.push_plain {d : String} {v v' : View} {e : Event} (h : DeviceOk d v)
    (htr : v'.trace = e :: v.trace) (hops : v'.ops = v.ops)
    (hblock : ∀ c r, v.ops c = some r → r.blocking = true → v.block ≠ none →
      v'.block ≠ none ∨ Lifted d r.changeId (e :: v.trace))
    (howner : ∀ b c, v'.block = some b → b.changeId = some c → v.ops c ≠ none)
    (hno : ∀ c, e.op.isFor c = false) (happ : e.op.applies = false) : DeviceOk d v' := by
  have hns : ∀ c, e.op.sendsFor c = false := fun c => by
    by_contra hc
    have := Op.isFor_of_sendsFor (by simpa using hc)
    rw [hno] at this
    cases this
  refine h.push htr ?_ ?_ (fun c hc => hops ▸ hc) ?_ (fun b c hb hc => hops ▸ howner b c hb hc) ?_
    (fun hc => nomatch happ.symm.trans hc) ?_
  · intro c r hr
    rw [hops] at hr
    exact (h.record c r hr).cons htr (fun _ => hns _) (hblock c r hr)
  · intro c r hr hc
    rw [hops] at hr
    rw [htr]
    exact (h.journaled c r hr hc).cons e
  · intro c hc
    rw [hno] at hc
    cases hc
  · intro c hc
    rw [hns] at hc
    cases hc
  · intro c hc
    have := Op.sendsFor_of_appliesFor hc
    rw [hns] at this
    cases this

/-- a call to the device -/
theorem DeviceOk.push_call {cfg : Config} {p : Pid} {s : State} {d : String}
    {c : Option ChangeId} {q : DeviceCall} (h : DeviceOk d (s.view d))
    (hid : ∀ c r, s.store.ops c = some r → r.changeId = c)
    (hok : OpOk cfg p s (.device d c q)) (a : Except Exn q.Reply) :
    DeviceOk d ((s.log p (.device d c q) a s.store).view d) := by
  obtain ⟨-, hfor, hinstall, happly⟩ := hok
  have hsend : ∀ c', Op.sendsFor c' (.device d c q) = true →
      ∃ r, s.store.ops c' = some r ∧ r.safeguard.isSome := by
    intro c' hc'
    cases q with
    | apply lines =>
      obtain ⟨-, c'', r, rfl, hr, hs, -⟩ := happly lines rfl
      obtain rfl := Option.some.inj (of_decide_eq_true hc')
      exact ⟨r, hr, hs⟩
    | installSafeguard safeguard plan =>
      obtain ⟨c'', r, rfl, hr, hs⟩ := hinstall safeguard plan rfl
      obtain rfl := Option.some.inj (of_decide_eq_true hc')
      exact ⟨r, hr, hs⟩
    | _ => cases hc'
  rw [State.view_log]
  have htr := View.push_of_eq (v := s.view d)
    (e := ⟨p, ⟨.device d c q, a⟩, s.store, s.store⟩) (d := d) rfl
  refine h.push htr ?_ ?_ (fun c hc => hc) ?_ h.owner ?_ ?_ ?_
  · intro c' r hr
    refine (h.record c' r hr).cons htr (fun hs => ?_) (fun _ hb => .inl hb)
    by_contra hc
    obtain ⟨r', hr', hs'⟩ := hsend r.changeId (by simpa [Event.op] using hc)
    have hr := (Store.deviceOps_eq_some.mp hr).1
    rw [hid c' r hr] at hr'
    rw [hr] at hr'
    cases hr'
    rw [hs] at hs'
    cases hs'
  · intro c' r hr hc
    dsimp only
    rw [htr]
    exact (h.journaled c' r hr hc).cons _
  · intro c' hc'
    obtain ⟨d', q', he⟩ := Op.deviceName_of_isFor hc'
    have hcc : c = some c' := by
      cases he
      rfl
    exact Store.deviceOps_ne_none.mpr (hfor c' hcc)
  · exact hsend
  · intro hc
    cases q with
    | apply lines => exact (happly lines rfl).1
    | _ => cases hc
  · intro c' hc'
    cases q with
    | apply lines =>
      obtain ⟨-, c'', r, rfl, -, -, hno⟩ := happly lines rfl
      obtain rfl := Option.some.inj (of_decide_eq_true hc')
      exact hno
    | _ => cases hc'

/-! ## records are written -/

theorem Store.save_deviceOps (st : Store) (r : Record) :
    (st.save r).deviceOps r.device
      = Function.update (st.deviceOps r.device) r.changeId (some r) := by
  funext c
  by_cases hc : c = r.changeId
  · subst hc
    rw [Function.update_self]
    simp [Store.deviceOps, Store.save]
  · rw [Function.update_of_ne hc]
    simp [Store.deviceOps, Store.save, Function.update_of_ne hc]

theorem Store.save_deviceOps_of_ne {st : Store} {r : Record} {d : String} (hd : r.device ≠ d)
    (hold : st.deviceOps d r.changeId = none) : (st.save r).deviceOps d = st.deviceOps d := by
  funext c
  by_cases hc : c = r.changeId
  · subst hc
    rw [hold]
    simp [Store.deviceOps, Store.save, hd]
  · simp [Store.deviceOps, Store.save, Function.update_of_ne hc]

/-- the event writes the record `r` -/
structure Writes (r : Record) (e : Event) : Prop where
  op : e.op = .file (.saveOp r) ∨ ∃ n, e.op = .file (.saveOpIf r n)
  after : e.after.ops r.changeId = some r

theorem Writes.isFor {r : Record} {e : Event} (h : Writes r e) (c : ChangeId) :
    e.op.isFor c = false := by
  rcases h.op with h | ⟨n, h⟩ <;> rw [h] <;> rfl

theorem Writes.applies {r : Record} {e : Event} (h : Writes r e) : e.op.applies = false := by
  rcases h.op with h | ⟨n, h⟩ <;> rw [h] <;> rfl

theorem Writes.deviceName {r : Record} {e : Event} (h : Writes r e) :
    e.op.deviceName = some r.device := by
  rcases h.op with h | ⟨n, h⟩ <;> rw [h] <;> rfl

theorem Op.sendsFor_of_not_isFor {op : Op} {c : ChangeId} (h : op.isFor c = false) :
    op.sendsFor c = false := by
  by_contra hc
  have hs := Op.isFor_of_sendsFor (Bool.eq_true_of_not_eq_false hc)
  rw [h] at hs
  cases hs

/-- the device after a record of it was written -/
theorem DeviceOk.push_write {r : Record} {v : View} {e : Event} (h : DeviceOk r.device v)
    (he : Writes r e) (hok : RecordOk r.device r v)
    (hjournaled : .confirmStart ∈ r.stepNames → GatesJournaled r.change (e :: v.trace)) :
    DeviceOk r.device ⟨Function.update v.ops r.changeId (some r), v.block, e :: v.trace⟩ := by
  have hns : ∀ c, e.op.sendsFor c = false := fun c => Op.sendsFor_of_not_isFor (he.isFor c)
  have hkeep : ∀ r', RecordOk r.device r' v → RecordOk r.device r'
      ⟨Function.update v.ops r.changeId (some r), v.block, e :: v.trace⟩ :=
    fun r' hr' => hr'.cons rfl (fun _ => hns _) (fun _ hb => .inl hb)
  have hops : ∀ c, v.ops c ≠ none → Function.update v.ops r.changeId (some r) c ≠ none := by
    intro c hc
    by_cases hc' : c = r.changeId
    · subst hc'
      simp [Function.update_self]
    · rwa [Function.update_of_ne hc']
  refine h.push rfl ?_ ?_ hops ?_ (fun b c hb hc => hops c (h.owner b c hb hc)) ?_
    (fun hc => nomatch he.applies.symm.trans hc) ?_
  · intro c r' hr'
    by_cases hc : c = r.changeId
    · subst hc
      simp only [Function.update_self] at hr'
      cases hr'
      exact hkeep r hok
    · simp only [Function.update_of_ne hc] at hr'
      exact hkeep r' (h.record c r' hr')
  · intro c r' hr' hcs
    by_cases hc : c = r.changeId
    · subst hc
      simp only [Function.update_self] at hr'
      cases hr'
      exact hjournaled hcs
    · simp only [Function.update_of_ne hc] at hr'
      exact (h.journaled c r' hr' hcs).cons e
  · intro c hc
    rw [he.isFor] at hc
    cases hc
  · intro c hc
    rw [hns] at hc
    cases hc
  · intro c hc
    have hs := Op.sendsFor_of_appliesFor hc
    rw [hns] at hs
    cases hs

/-- a record that is there is written on -/
theorem DeviceOk.push_save {r : Record} {v : View} {e : Event} (h : DeviceOk r.device v)
    (he : Writes r e) (hbefore : v.ops r.changeId = e.before.deviceOps r.device r.changeId)
    (hs : Saveable r.device r v) :
    DeviceOk r.device ⟨Function.update v.ops r.changeId (some r), v.block, e :: v.trace⟩ := by
  refine h.push_write he hs.ok fun hc => ?_
  obtain ⟨r₀, hr₀, hl⟩ := hs.stored
  by_cases hc₀ : .confirmStart ∈ r₀.stepNames
  · have hj := (h.journaled _ r₀ hr₀ hc₀).cons e
    rwa [← hl.change] at hj
  · -- this is the write that takes up `confirm_start`
    refine (hs.ok.gates hc).journaled ⟨fun r' hr' => ?_, r, he.after, hc⟩
    rw [hbefore] at hr₀
    have hr₀ := (Store.deviceOps_eq_some.mp hr₀).1
    have hr' : e.before.ops r.changeId = some r' := hr'
    rw [hr₀] at hr'
    cases hr'
    exact hc₀

/-- a record is created -/
theorem DeviceOk.push_new {r : Record} {v : View} {e : Event} (h : DeviceOk r.device v)
    (he : Writes r e) (habsent : v.ops r.changeId = none) (hrunning : r.status = .running)
    (hsafeguard : r.safeguard = none) (hresult : r.result = none)
    (hsteps : r.steps = []) :
    DeviceOk r.device ⟨Function.update v.ops r.changeId (some r), v.block, e :: v.trace⟩ := by
  have hnc : .confirmStart ∉ r.stepNames := by
    rw [Record.stepNames, hsteps]
    simp
  refine h.push_write he ?_ fun hc => absurd hc hnc
  exact {
    unsent := fun _ e' he' => by
      by_contra hc
      have hf := Op.isFor_of_sendsFor (Bool.eq_true_of_not_eq_false hc)
      exact h.known e' he' _ hf habsent
    early := fun _ => hsafeguard
    gates := fun hc => absurd hc hnc
    confirmed := fun hc => by
      rw [hresult] at hc
      cases hc
    blocked := fun hb => by
      simp [Record.blocking, hrunning] at hb }

/-! ## the budget clock -/

theorem asked_cons_of_pid {p : Pid} {e : Event} {tr : List Event} (h : e.pid ≠ p) :
    asked p (e :: tr) = asked p tr := by
  conv_lhs => unfold asked
  split
  · rw [if_neg h]
  · rfl

theorem asked_cons_of_op {p : Pid} {e : Event} {tr : List Event} (h : e.op ≠ .budgetNow) :
    asked p (e :: tr) = asked p tr := by
  conv_lhs => unfold asked
  split
  · next now he =>
    exact absurd (congrArg Sigma.fst he) h
  · rfl

theorem asked_budgetNow (p : Pid) (now : ℚ) (before after : Store) (tr : List Event) :
    asked p (⟨p, ⟨.budgetNow, .ok now⟩, before, after⟩ :: tr) = some now := by
  simp [asked]

/-- every answer of the clock is in the trace -/
theorem asked_cons {p : Pid} {e : Event} {tr : List Event} {now : ℚ}
    (h : asked p (e :: tr) = some now) :
    e.call = ⟨.budgetNow, .ok now⟩ ∨ asked p tr = some now := by
  unfold asked at h
  split at h
  · next now' he =>
    split at h
    · cases h
      exact .inl he
    · exact .inr h
  · exact .inr h

theorem admittedAt_cons {e : Event} {tr : List Event} (h : e.admission = false) :
    admittedAt (e :: tr) = admittedAt tr := by
  simp [admittedAt, h]

/-- nothing is created where the records stay as they are -/
theorem Event.admission_of_ops {e : Event} (h : e.after.ops = e.before.ops) :
    e.admission = false := by
  unfold Event.admission
  split
  · next r _ =>
    rw [h]
    cases e.before.ops r.changeId <;> rfl
  · rfl

/-! ## the invariant, operation by operation -/

section
variable {cfg : Config} {s : State} {p : Pid}

/-- only the locks change -/
theorem Inv.relock {t : State} (h : Inv cfg s) (hstore : t.store = s.store)
    (htrace : t.trace = s.trace) (htokens : t.tokens = s.tokens) (hdrawn : t.drawn = s.drawn)
    (hclock : t.clock = s.clock) : Inv cfg t := by
  have hview : ∀ d, t.view d = s.view d := fun d => by
    unfold State.view
    rw [hstore, htrace]
  exact {
    ids := hstore ▸ h.ids
    nodup := hstore ▸ h.nodup
    changeId := hstore ▸ h.changeId
    drawn := by rw [htokens, hdrawn]; exact h.drawn
    token := by rw [htokens, hstore]; exact h.token
    device := fun d => hview d ▸ h.device d
    unique := hstore ▸ h.unique
    requests := hstore ▸ h.requests
    asked := by rw [htrace, hclock]; exact h.asked
    admitted := by rw [htrace, hclock]; exact h.admitted
    budgets := by rw [htrace, hstore]; exact h.budgets }

/-- an event that leaves the records as they are -/
theorem Inv.log_plain (h : Inv cfg s) {op : Op} {a : op.Answer} {after : Store} (clock : ℚ)
    (hops : after.ops = s.store.ops) (hids : after.ids = s.store.ids)
    (hrequests : ∀ id entry, after.requests id = some entry → ∃ r,
      s.store.ops entry.changeId = some r ∧ r.requestId = id ∧
        r.requestSha256 = entry.requestSha256 ∧ r.device = entry.device)
    (hblocked : ∀ d, op.deviceName ≠ some d → after.blocked d = s.store.blocked d)
    (hdevice : ∀ d, op.deviceName = some d → DeviceOk d ((s.log p op a after).view d))
    (hclock : s.clock ≤ clock)
    (hnow : ∀ now, (⟨op, a⟩ : (op : Op) × op.Answer) = ⟨.budgetNow, .ok now⟩ → now ≤ clock) :
    Inv cfg { s.log p op a after with clock := clock } := by
  have hrecords : after.records = s.store.records := by
    unfold Store.records
    rw [hids, hops]
  have hadm : admittedAt (⟨p, ⟨op, a⟩, s.store, after⟩ :: s.trace) = admittedAt s.trace :=
    admittedAt_cons (Event.admission_of_ops hops)
  exact {
    ids := fun c => by
      show c ∈ after.ids ↔ after.ops c ≠ none
      rw [hids, hops]
      exact h.ids c
    nodup := by
      show after.ids.Nodup
      rw [hids]
      exact h.nodup
    changeId := fun c r hr => h.changeId c r (hops ▸ hr)
    drawn := h.drawn
    token := fun c hc => h.token c (hops ▸ hc)
    device := fun d => by
      by_cases hd : op.deviceName = some d
      · exact hdevice d hd
      · have hview : (s.log p op a after).view d = s.view d := by
          rw [State.view_log, hblocked d hd]
          unfold Store.deviceOps
          rw [hops, View.push_of_ne (e := ⟨p, ⟨op, a⟩, s.store, after⟩) hd]
          rfl
        exact hview ▸ h.device d
    unique := fun c c' r r' hr hr' => h.unique c c' r r' (hops ▸ hr) (hops ▸ hr')
    requests := fun id entry he => by
      obtain ⟨r, hr, hrest⟩ := hrequests id entry he
      exact ⟨r, by rw [← hr]; exact congrFun hops _, hrest⟩
    asked := fun q now hq => by
      rcases asked_cons hq with he | hq
      · exact hnow now he
      · exact (h.asked q now hq).trans hclock
    admitted := fun now hm => (h.admitted now (hadm ▸ hm)).trans hclock
    budgets := fun now hm => by
      have hb := h.budgets now (fun m hm' => hm m (hadm ▸ hm'))
      exact ⟨fun d => by
          show spent (after.records.filter _) _ ≤ _
          rw [hrecords]
          exact hb.device d, by
          show spent after.records _ ≤ _
          rw [hrecords]
          exact hb.day⟩ }

theorem Store.save_ids_of_mem {st : Store} {r : Record} (h : r.changeId ∈ st.ids) :
    (st.save r).ids = st.ids := if_pos h

theorem Store.save_ops_self (st : Store) (r : Record) : (st.save r).ops r.changeId = some r :=
  Function.update_self ..

theorem Store.save_ops_of_ne (st : Store) (r : Record) {c : ChangeId} (h : c ≠ r.changeId) :
    (st.save r).ops c = st.ops c :=
  Function.update_of_ne h ..

/-- what the records were before one of them was written on -/
theorem Store.save_later {st : Store} {r r₀ : Record} (h₀ : st.ops r.changeId = some r₀)
    (hl : Later r₀ r) (c : ChangeId) (r' : Record) (hr' : (st.save r).ops c = some r') :
    ∃ r'', st.ops c = some r'' ∧ Later r'' r' := by
  by_cases hc : c = r.changeId
  · subst hc
    rw [Store.save_ops_self] at hr'
    cases hr'
    exact ⟨r₀, h₀, hl⟩
  · rw [Store.save_ops_of_ne st r hc] at hr'
    exact ⟨r', hr', .refl r'⟩

/-- the view of the device of a record that is written -/
theorem State.view_save {o : Op} {a : o.Answer} {r : Record}
    (hop : o.deviceName = some r.device) :
    (s.log p o a (s.store.save r)).view r.device =
      ⟨Function.update (s.view r.device).ops r.changeId (some r), (s.view r.device).block,
        ⟨p, ⟨o, a⟩, s.store, s.store.save r⟩ :: (s.view r.device).trace⟩ := by
  rw [State.view_log, View.push_of_eq (e := ⟨p, ⟨o, a⟩, s.store, s.store.save r⟩) hop,
    Store.save_deviceOps]
  rfl

theorem State.view_save_of_ne {op : Op} {a : op.Answer} {r : Record} {d : String}
    (hop : op.deviceName = some r.device) (hd : r.device ≠ d)
    (hold : s.store.deviceOps d r.changeId = none) :
    (s.log p op a (s.store.save r)).view d = s.view d := by
  have hne : op.deviceName ≠ some d := fun h => hd (Option.some.inj (hop.symm.trans h))
  rw [State.view_log, View.push_of_ne (e := ⟨p, ⟨op, a⟩, s.store, s.store.save r⟩) hne,
    Store.save_deviceOps_of_ne hd hold]
  rfl

/-- a record that is there is written on -/
theorem Inv.log_save (h : Inv cfg s) {op : Op} {a : op.Answer} {r : Record}
    (hop : op = .file (.saveOp r) ∨ ∃ n, op = .file (.saveOpIf r n))
    (hs : Saveable r.device r (s.view r.device)) :
    Inv cfg (s.log p op a (s.store.save r)) := by
  obtain ⟨r₀, hr₀, hl⟩ := hs.stored
  obtain ⟨h₀, hd₀⟩ := Store.deviceOps_eq_some.mp hr₀
  have hname : op.deviceName = some r.device := by
    rcases hop with h | ⟨n, h⟩ <;> rw [h] <;> rfl
  have hnow : op ≠ .budgetNow := by
    rcases hop with h | ⟨n, h⟩ <;> rw [h] <;> simp
  have hmem : r.changeId ∈ s.store.ids := (h.ids _).mpr (by rw [h₀]; simp)
  have hids : (s.store.save r).ids = s.store.ids := Store.save_ids_of_mem hmem
  have hlater := Store.save_later h₀ hl
  have hadm : admittedAt (⟨p, ⟨op, a⟩, s.store, s.store.save r⟩ :: s.trace)
      = admittedAt s.trace := by
    refine admittedAt_cons ?_
    unfold Event.admission
    split
    · next r' hr' =>
      rcases hop with h | ⟨n, h⟩
      · have hr' : op = .file (.saveOp r') := hr'
        rw [h] at hr'
        cases hr'
        rw [h₀]
        rfl
      · have hr' : op = .file (.saveOp r') := hr'
        rw [h] at hr'
        cases hr'
    · rfl
  exact {
    ids := fun c => by
      show c ∈ (s.store.save r).ids ↔ _
      rw [hids, h.ids c]
      by_cases hc : c = r.changeId
      · subst hc
        show _ ↔ (s.store.save r).ops r.changeId ≠ none
        rw [Store.save_ops_self, h₀]
        simp
      · show _ ↔ (s.store.save r).ops c ≠ none
        rw [Store.save_ops_of_ne _ _ hc]
    nodup := by
      show (s.store.save r).ids.Nodup
      rw [hids]
      exact h.nodup
    changeId := fun c r' hr' => by
      obtain ⟨r'', hr'', hl''⟩ := hlater c r' hr'
      rw [hl''.changeId]
      exact h.changeId c r'' hr''
    drawn := h.drawn
    token := fun c hc => by
      obtain ⟨r', hr'⟩ := Option.ne_none_iff_exists'.mp hc
      obtain ⟨r'', hr'', -⟩ := hlater c r' hr'
      exact h.token c (by rw [hr'']; simp)
    device := fun d => by
      by_cases hd : r.device = d
      · subst hd
        rw [State.view_save hname]
        refine (h.device r.device).push_save ?_ rfl hs
        exact ⟨hop, Store.save_ops_self _ _⟩
      · rw [State.view_save_of_ne hname hd]
        · exact h.device d
        · by_contra hc
          obtain ⟨r', hr', hd'⟩ := Store.deviceOps_ne_none.mp hc
          rw [h₀] at hr'
          cases hr'
          exact hd (hd₀.symm.trans hd')
    unique := fun c c' r₁ r₂ h₁ h₂ heq => by
      obtain ⟨r₁', h₁', hl₁⟩ := hlater c r₁ h₁
      obtain ⟨r₂', h₂', hl₂⟩ := hlater c' r₂ h₂
      rw [hl₁.requestId, hl₂.requestId] at heq
      exact h.unique c c' r₁' r₂' h₁' h₂' heq
    requests := fun id entry he => by
      obtain ⟨r', hr', h1, h2, h3⟩ := h.requests id entry he
      by_cases hc : entry.changeId = r.changeId
      · rw [hc] at hr' ⊢
        rw [h₀] at hr'
        cases hr'
        exact ⟨r, Store.save_ops_self _ _, hl.requestId.trans h1, hl.requestSha256.trans h2,
          hl.device.trans h3⟩
      · exact ⟨r', (Store.save_ops_of_ne _ _ hc).trans hr', h1, h2, h3⟩
    asked := fun q now hq => by
      rw [State.log_trace, asked_cons_of_op (e := ⟨p, ⟨op, a⟩, s.store, s.store.save r⟩) hnow]
        at hq
      exact h.asked q now hq
    admitted := fun now hm => h.admitted now (hadm ▸ hm)
    budgets := fun now hm => (h.budgets now fun m hm' => hm m (hadm ▸ hm')).later hids hlater }


/-- the moment of an admission is the answer of the clock it was checked with -/
theorem admittedAt_new {a : Except Exn Unit} {r : Record} {tr : List Event} {st : Store}
    (h : st.ops r.changeId = none) :
    admittedAt (⟨p, ⟨.file (.saveOp r), a⟩, st, st.save r⟩ :: tr) = asked p tr := by
  have hadm : Event.admission ⟨p, ⟨.file (.saveOp r), a⟩, st, st.save r⟩ = true := by
    simp [Event.admission, Event.op, h, Store.save_ops_self]
  simp [admittedAt, hadm]

/-- the budgets after an admission, from its moment on -/
theorem Admissible.budgetsHold {r : Record} (hr : Admissible cfg p r s) (h : Inv cfg s) {now : ℚ}
    (hnow : ∀ m, asked p s.trace = some m → m ≤ now) : BudgetsHold cfg (s.store.save r) now := by
  obtain ⟨m, hm, hlast, hhour, hday⟩ := hr.budget
  have hle := hnow m hm
  have hold := h.budgets now fun m' hm' => (hlast m' hm').trans hle
  have hnew : r.changeId ∉ s.store.ids := fun hc => (h.ids _).mp hc hr.absent
  have hself : ∀ c r', s.store.ops c = some r' → ∃ r, s.store.ops c = some r ∧ Later r r' :=
    fun _ r' hr' => ⟨r', hr', .refl r'⟩
  refine ⟨fun d => ?_, ?_⟩
  · rw [Store.spent_save_new _ _ hnew]
    by_cases hd : r.device = d
    · subst hd
      have h1 := contribution_le_weight (fun r' => r'.device = r.device) (now - hour) r
      have h2 := Store.spent_le (lasting_device r.device) (sub_le_sub_right hle hour) rfl hself
      omega
    · rw [contribution_of_not_keep (now - hour) (decide_eq_false hd), Nat.zero_add]
      exact hold.device d
  · have heq := Store.spent_save_new (fun _ => true) (now - day) hnew
    have h1 := contribution_le_weight (fun _ => true) (now - day) r
    have h2 := Store.spent_le lasting_true (sub_le_sub_right hle day) rfl hself
    rw [Store.records_filter_true, Store.records_filter_true] at heq
    rw [Store.records_filter_true] at h2
    omega

/-- a record is created -/
theorem Inv.log_new (h : Inv cfg s) {a : Except Exn Unit} {r : Record}
    (hr : Admissible cfg p r s) :
    Inv cfg (s.log p (.file (.saveOp r)) a (s.store.save r)) := by
  have hnew : r.changeId ∉ s.store.ids := fun hc => (h.ids _).mp hc hr.absent
  have hids : (s.store.save r).ids = r.changeId :: s.store.ids := if_neg hnew
  have hadm : admittedAt (⟨p, ⟨.file (.saveOp r), a⟩, s.store, s.store.save r⟩ :: s.trace)
      = Netops.asked p s.trace := admittedAt_new hr.absent
  have hdevice : ∀ d, s.store.deviceOps d r.changeId = none := fun d => by
    simp [Store.deviceOps, hr.absent]
  exact {
    ids := fun c => by
      show c ∈ (s.store.save r).ids ↔ (s.store.save r).ops c ≠ none
      rw [hids, List.mem_cons, h.ids c]
      by_cases hc : c = r.changeId
      · subst hc
        rw [Store.save_ops_self]
        simp
      · rw [Store.save_ops_of_ne _ _ hc]
        simp [hc]
    nodup := by
      show (s.store.save r).ids.Nodup
      rw [hids]
      exact List.nodup_cons.mpr ⟨hnew, h.nodup⟩
    changeId := fun c r' hr' => by
      by_cases hc : c = r.changeId
      · subst hc
        cases (Store.save_ops_self s.store r).symm.trans hr'
        rfl
      · exact h.changeId c r' ((Store.save_ops_of_ne _ _ hc).symm.trans hr')
    drawn := h.drawn
    token := fun c hc => by
      by_cases he : c = r.changeId
      · subst he
        show s.tokens r.changeId ≠ none
        rw [hr.token]
        simp
      · exact h.token c fun hn => hc ((Store.save_ops_of_ne _ _ he).trans hn)
    device := fun d => by
      by_cases hd : r.device = d
      · subst hd
        rw [State.view_save rfl]
        exact (h.device r.device).push_new ⟨.inl rfl, Store.save_ops_self _ _⟩ (hdevice _)
          hr.running hr.safeguard hr.result hr.steps
      · rw [State.view_save_of_ne rfl hd (hdevice d)]
        exact h.device d
    unique := fun c c' r₁ r₂ h₁ h₂ heq => by
      have h₁ : (s.store.save r).ops c = some r₁ := h₁
      have h₂ : (s.store.save r).ops c' = some r₂ := h₂
      by_cases hc : c = r.changeId <;> by_cases hc' : c' = r.changeId
      · exact hc.trans hc'.symm
      · subst hc
        rw [Store.save_ops_self] at h₁
        rw [Store.save_ops_of_ne _ _ hc'] at h₂
        cases h₁
        exact absurd heq.symm (hr.request c' r₂ h₂)
      · subst hc'
        rw [Store.save_ops_self] at h₂
        rw [Store.save_ops_of_ne _ _ hc] at h₁
        cases h₂
        exact absurd heq (hr.request c r₁ h₁)
      · rw [Store.save_ops_of_ne _ _ hc] at h₁
        rw [Store.save_ops_of_ne _ _ hc'] at h₂
        exact h.unique c c' r₁ r₂ h₁ h₂ heq
    requests := fun id entry he => by
      obtain ⟨r', hr', hrest⟩ := h.requests id entry he
      have hc : entry.changeId ≠ r.changeId := fun hc => by
        rw [hc, hr.absent] at hr'
        cases hr'
      exact ⟨r', (Store.save_ops_of_ne _ _ hc).trans hr', hrest⟩
    asked := fun q now hq => by
      rw [State.log_trace, asked_cons_of_op
        (e := ⟨p, ⟨.file (.saveOp r), a⟩, s.store, s.store.save r⟩) (fun h => nomatch h)] at hq
      exact h.asked q now hq
    admitted := fun now hm => h.asked p now (hadm ▸ hm)
    budgets := fun now hm => hr.budgetsHold h fun m hm' => hm m (hadm.trans hm') }


/-- an operation on a file that writes no record -/
theorem DeviceOk.log_file (h : Inv cfg s) {op : FileOp} {a : Except Exn op.Reply} {after : Store}
    {d : String} (hop : Op.deviceName (.file op) = some d) (hops : after.ops = s.store.ops)
    (hblock : s.store.blocked d ≠ none → after.blocked d = none →
      ∃ b, op = .removeBlock d b)
    (howner : ∀ b c, after.blocked d = some b → b.changeId = some c → (s.view d).ops c ≠ none) :
    DeviceOk d ((s.log p (.file op) a after).view d) := by
  rw [State.view_log]
  have htr := View.push_of_eq (v := s.view d) (e := ⟨p, ⟨.file op, a⟩, s.store, after⟩) hop
  refine (h.device d).push_plain htr ?_ ?_ howner (fun _ => rfl) rfl
  · unfold Store.deviceOps
    rw [hops]
    rfl
  · intro c r hr hb hn
    by_cases hn' : after.blocked d = none
    · obtain ⟨b, rfl⟩ := hblock hn hn'
      have hr := (Store.deviceOps_eq_some.mp hr).1
      refine .inr ⟨_, List.mem_cons_self, ⟨b, rfl⟩, hn, hn', r, ?_, ?_⟩
      · rw [h.changeId c r hr]
        exact hr
      · simp only [Record.blocking, Bool.and_eq_true, decide_eq_true_eq] at hb
        exact hb.1
    · exact .inl hn'

/-- an operation on a file that has no effect -/
theorem Inv.log_unwritten (h : Inv cfg s) {op : FileOp} {a : Except Exn op.Reply} :
    Inv cfg (s.log p (.file op) a s.store) :=
  h.log_plain s.clock rfl rfl h.requests (fun _ _ => rfl)
    (fun d hd => .log_file h hd rfl (fun hn hn' => absurd hn' hn) (h.device d).owner) le_rfl
    (fun _ hn => nomatch hn)

/-- an operation on a file of no record and no request -/
theorem Inv.log_file (h : Inv cfg s) {op : FileOp} {a : Except Exn op.Reply} {after : Store}
    (hops : after.ops = s.store.ops) (hids : after.ids = s.store.ids)
    (hrequests : after.requests = s.store.requests)
    (hblocked : ∀ d, Op.deviceName (.file op) ≠ some d → after.blocked d = s.store.blocked d)
    (hblock : ∀ d, s.store.blocked d ≠ none → after.blocked d = none →
      ∃ b, op = .removeBlock d b)
    (howner : ∀ d b c, after.blocked d = some b → b.changeId = some c →
      (s.view d).ops c ≠ none) :
    Inv cfg (s.log p (.file op) a after) :=
  h.log_plain s.clock hops hids (fun id entry he => h.requests id entry (hrequests ▸ he))
    hblocked (fun d hd => .log_file h hd hops (hblock d) (howner d)) le_rfl
    (fun _ hn => nomatch hn)

/-- an operation on a file that takes effect -/
theorem Inv.log_written (h : Inv cfg s) {op : FileOp} {a : Except Exn op.Reply}
    (hok : OpOk cfg p s (.file op)) : Inv cfg (s.log p (.file op) a (s.store.write op)) := by
  cases op with
  | saveOp r =>
    rcases hok.2 with hs | hr
    · exact h.log_save (.inl rfl) hs
    · exact h.log_new hr
  | saveOpIf r n =>
    simp only [Store.write]
    split
    · exact h.log_save (.inr ⟨n, rfl⟩) hok.2
    · exact h.log_unwritten
  | writeRequest id entry =>
    obtain ⟨-, -, hentry⟩ := hok
    refine h.log_plain s.clock rfl rfl ?_ (fun _ _ => rfl) (fun _ hd => nomatch hd)
      le_rfl (fun _ hn => nomatch hn)
    intro id' entry' he
    by_cases hid : id' = id
    · subst hid
      simp only [Function.update_self] at he
      cases he
      exact hentry
    · simp only [Function.update_of_ne hid] at he
      exact h.requests id' entry' he
  | writeBlock d b =>
    refine h.log_file rfl rfl rfl (fun d' hd' => ?_) (fun d' hn hn' => ?_) (fun d' b' c hb hc => ?_)
    · exact Function.update_of_ne (fun he => hd' (congrArg some he.symm)) ..
    · by_cases hd : d' = d
      · subst hd
        simp [Store.write] at hn'
      · simp only [Store.write, Function.update_of_ne hd] at hn'
        exact absurd hn' hn
    · by_cases hd : d' = d
      · subst hd
        simp only [Store.write, Function.update_self] at hb
        cases hb
        exact hok.2 c hc
      · simp only [Store.write, Function.update_of_ne hd] at hb
        exact (h.device d').owner b' c hb hc
  | removeBlock d b =>
    simp only [Store.write]
    split
    · refine h.log_file rfl rfl rfl (fun d' hd' => ?_) (fun d' hn hn' => ?_)
        (fun d' b' c hb hc => ?_)
      · exact Function.update_of_ne (fun he => hd' (congrArg some he.symm)) ..
      · by_cases hd : d' = d
        · subst hd
          exact ⟨b, rfl⟩
        · simp only [Function.update_of_ne hd] at hn'
          exact absurd hn' hn
      · by_cases hd : d' = d
        · subst hd
          simp only [Function.update_self] at hb
          cases hb
        · simp only [Function.update_of_ne hd] at hb
          exact (h.device d').owner b' c hb hc
    · exact h.log_unwritten
  | noteRejection now =>
    simp only [Store.write]
    exact h.log_file rfl rfl rfl (fun _ _ => rfl) (fun _ hn hn' => absurd hn' hn)
      fun d => (h.device d).owner
  | _ =>
    exact h.log_file rfl rfl rfl (fun _ _ => rfl) (fun _ hn hn' => absurd hn' hn)
      fun d => (h.device d).owner

theorem le_foldr_max {n : Nat} {xs : List Nat} (h : n ∈ xs) : n ≤ xs.foldr max 0 := by
  induction xs with
  | nil => cases h
  | cons x xs ih =>
    rcases List.mem_cons.mp h with rfl | h
    · exact le_max_left _ _
    · exact (ih h).trans (le_max_right _ _)

theorem State.freshToken_not_mem (s : State) (n : Nat) : s.freshToken n ∉ s.drawn := by
  unfold State.freshToken
  split
  · intro h
    have := le_foldr_max h
    omega
  · assumption

theorem Inv.tokenHex (h : Inv cfg s) (n : Nat) : Inv cfg (State.exec p .tokenHex n s).2 := by
  have htokens : ∀ c, s.tokens c ≠ none →
      Function.update s.tokens (s.freshToken n) (some p) c ≠ none := by
    intro c hc
    by_cases he : c = s.freshToken n
    · subst he
      simp
    · rwa [Function.update_of_ne he]
  exact {
    ids := h.ids
    nodup := h.nodup
    changeId := h.changeId
    drawn := fun c hc => by
      by_cases he : c = s.freshToken n
      · exact he ▸ List.mem_cons_self
      · refine List.mem_cons_of_mem _ (h.drawn c ?_)
        have hc : Function.update s.tokens (s.freshToken n) (some p) c ≠ none := hc
        rwa [Function.update_of_ne he] at hc
    token := fun c hc => htokens c (h.token c hc)
    device := h.device
    unique := h.unique
    requests := h.requests
    asked := h.asked
    admitted := h.admitted
    budgets := h.budgets }

/-- a lock operation changes locks only -/
theorem State.exec_lock (p : Pid) (op : LockOp) (a : Option Exn) (s : State) :
    (State.exec p (.lock op) a s).2.store = s.store ∧
    (State.exec p (.lock op) a s).2.trace = s.trace ∧
    (State.exec p (.lock op) a s).2.tokens = s.tokens ∧
    (State.exec p (.lock op) a s).2.drawn = s.drawn ∧
    (State.exec p (.lock op) a s).2.clock = s.clock := by
  cases op with
  | holdsDevice d => exact ⟨rfl, rfl, rfl, rfl, rfl⟩
  | _ =>
    simp only [State.exec, State.lockOp]
    split <;> exact ⟨rfl, rfl, rfl, rfl, rfl⟩

/-- **An operation that is allowed keeps the invariant.** -/
theorem Inv.exec (h : Inv cfg s) {o : Op} (hok : OpOk cfg p s o) (a : o.Choice) :
    Inv cfg (State.exec p o a s).2 := by
  cases o with
  | device d c q =>
    refine h.log_plain s.clock rfl rfl h.requests (fun _ _ => rfl) ?_ le_rfl
      (fun _ hn => nomatch hn)
    intro d' hd'
    cases hd'
    exact DeviceOk.push_call (h.device d) h.changeId hok a
  | host q =>
    exact h.log_plain s.clock rfl rfl h.requests (fun _ _ => rfl)
      (fun _ hd => nomatch hd) le_rfl (fun _ hn => nomatch hn)
  | file op =>
    cases a with
    | done => exact h.log_written hok
    | lost e => exact h.log_unwritten
    | late e => exact h.log_written hok
  | lock op =>
    obtain ⟨h1, h2, h3, h4, h5⟩ := State.exec_lock p op a s
    exact h.relock h1 h2 h3 h4 h5
  | tokenHex => exact h.tokenHex a
  | budgetNow =>
    cases a with
    | error e => exact h
    | ok now =>
      refine h.log_plain _ rfl rfl h.requests (fun _ _ => rfl) (fun _ hd => nomatch hd)
        (le_max_left _ _) ?_
      intro now' he
      cases he
      exact le_rfl

theorem Inv.crash (h : Inv cfg s) : Inv cfg (State.crash p s) := h.relock rfl rfl rfl rfl rfl

end

/-! ## what the others rely on -/

section
variable {cfg : Config} {s : State} {p q : Pid}

/-- only locks that are not those of `q` change -/
theorem Rely.relock {t : State} (hstore : t.store = s.store) (htrace : t.trace = s.trace)
    (htokens : t.tokens = s.tokens) (hlocks : ∀ d, t.locks d = some q ↔ s.locks d = some q)
    (hadmission : t.admission = some q ↔ s.admission = some q) : Rely q s t where
  locks := hlocks
  view d _ := by
    unfold State.view
    rw [hstore, htrace]
  admission := hadmission
  admitted _ := by
    rw [hstore, htrace]
    exact ⟨rfl, rfl, rfl⟩
  later c r hr := ⟨r, hstore ▸ hr, .refl r⟩
  token c hc := by
    rw [hstore, htokens]
    exact ⟨hc, id⟩
  asked := by rw [htrace]
  requests id entry he := hstore ▸ he

/-- an event of `p` -/
theorem Rely.log (hp : p ≠ q) {op : Op} {a : op.Answer} {after : Store} (clock : ℚ)
    (hops : ∀ c r, s.store.ops c = some r → ∃ r', after.ops c = some r' ∧ Later r r')
    (hview : ∀ d, s.locks d = some q → (s.log p op a after).view d = s.view d)
    (hadmitted : s.admission = some q → after.ids = s.store.ids ∧
      after.requests = s.store.requests ∧
      Event.admission ⟨p, ⟨op, a⟩, s.store, after⟩ = false)
    (htoken : ∀ c, s.tokens c = some q → s.store.ops c = none → after.ops c = none)
    (hrequests : ∀ id entry, s.store.requests id = some entry → after.requests id = some entry) :
    Rely q s { s.log p op a after with clock := clock } where
  locks _ := Iff.rfl
  view := hview
  admission := Iff.rfl
  admitted ha := by
    obtain ⟨h1, h2, h3⟩ := hadmitted ha
    exact ⟨h1, h2, admittedAt_cons h3⟩
  later := hops
  token c hc := ⟨hc, htoken c hc⟩
  asked := asked_cons_of_pid hp
  requests := hrequests

/-- an event of `p` that leaves the records as they are -/
theorem Rely.log_plain (hp : p ≠ q) {op : Op} {a : op.Answer} {after : Store} (clock : ℚ)
    (hlock : ∀ d, op.deviceName = some d → s.locks d = some p)
    (hops : after.ops = s.store.ops)
    (hblocked : ∀ d, op.deviceName ≠ some d → after.blocked d = s.store.blocked d)
    (hadmitted : s.admission = some q → after.ids = s.store.ids ∧
      after.requests = s.store.requests)
    (hrequests : ∀ id entry, s.store.requests id = some entry → after.requests id = some entry) :
    Rely q s { s.log p op a after with clock := clock } := by
  refine .log hp clock (fun c r hr => ⟨r, hops ▸ hr, .refl r⟩) ?_ ?_ ?_ hrequests
  · intro d hd
    have hne : op.deviceName ≠ some d := fun he => by
      rw [hlock d he] at hd
      exact hp (Option.some.inj hd)
    rw [State.view_log, hblocked d hne, View.push_of_ne (e := ⟨p, ⟨op, a⟩, s.store, after⟩) hne]
    unfold Store.deviceOps
    rw [hops]
    rfl
  · intro ha
    obtain ⟨h1, h2⟩ := hadmitted ha
    exact ⟨h1, h2, Event.admission_of_ops hops⟩
  · intro c _ hn
    rw [hops]
    exact hn

theorem Rely.log_store (hp : p ≠ q) {op : Op} {a : op.Answer} {after : Store}
    (hlock : ∀ d, op.deviceName = some d → s.locks d = some p)
    (hops : after.ops = s.store.ops)
    (hblocked : ∀ d, op.deviceName ≠ some d → after.blocked d = s.store.blocked d)
    (hadmitted : s.admission = some q → after.ids = s.store.ids ∧
      after.requests = s.store.requests)
    (hrequests : ∀ id entry, s.store.requests id = some entry → after.requests id = some entry) :
    Rely q s (s.log p op a after) :=
  .log_plain hp s.clock hlock hops hblocked hadmitted hrequests

/-- a record is written, by the holder of the lock of its device -/
theorem Rely.log_write (hp : p ≠ q) {op : Op} {a : op.Answer} {r : Record}
    (hop : op.deviceName = some r.device) (hlock : s.locks r.device = some p)
    (hlater : ∀ r₀, s.store.ops r.changeId = some r₀ → Later r₀ r)
    (hadmitted : s.admission = some q → (s.store.save r).ids = s.store.ids ∧
      Event.admission ⟨p, ⟨op, a⟩, s.store, s.store.save r⟩ = false)
    (htoken : s.store.ops r.changeId = none → s.tokens r.changeId ≠ some q) :
    Rely q s (s.log p op a (s.store.save r)) := by
  refine .log hp s.clock ?_ ?_ ?_ ?_ (fun _ _ he => he)
  · intro c r₀ hr₀
    by_cases hc : c = r.changeId
    · subst hc
      exact ⟨r, Store.save_ops_self _ _, hlater r₀ hr₀⟩
    · exact ⟨r₀, (Store.save_ops_of_ne _ _ hc).trans hr₀, .refl r₀⟩
  · intro d hd
    have hne : r.device ≠ d := fun he => by
      rw [← he, hlock] at hd
      exact hp (Option.some.inj hd)
    refine State.view_save_of_ne hop hne ?_
    -- an older record of that name is of the same device
    by_contra hc
    obtain ⟨r₀, hr₀, hd₀⟩ := Store.deviceOps_ne_none.mp hc
    exact hne ((hlater r₀ hr₀).device.trans hd₀)
  · intro ha
    obtain ⟨h1, h2⟩ := hadmitted ha
    exact ⟨h1, rfl, h2⟩
  · intro c hc hn
    have hne : c ≠ r.changeId := fun he => by
      subst he
      exact htoken hn hc
    exact (Store.save_ops_of_ne _ _ hne).trans hn

theorem Event.admission_of_stored {p : Pid} {op : Op} {a : op.Answer} {st : Store} {r r₀ : Record}
    (hop : op = .file (.saveOp r) ∨ ∃ n, op = .file (.saveOpIf r n))
    (h₀ : st.ops r.changeId = some r₀) :
    Event.admission ⟨p, ⟨op, a⟩, st, st.save r⟩ = false := by
  unfold Event.admission
  split
  · next r' hr' =>
    have hr' : op = .file (.saveOp r') := hr'
    rcases hop with h | ⟨n, h⟩
    · rw [h] at hr'
      cases hr'
      rw [h₀]
      rfl
    · rw [h] at hr'
      cases hr'
  · rfl

theorem Rely.log_save (h : Inv cfg s) (hp : p ≠ q) {op : Op} {a : op.Answer} {r : Record}
    (hop : op = .file (.saveOp r) ∨ ∃ n, op = .file (.saveOpIf r n))
    (hlock : s.locks r.device = some p) (hs : Saveable r.device r (s.view r.device)) :
    Rely q s (s.log p op a (s.store.save r)) := by
  obtain ⟨r₀, hr₀, hl⟩ := hs.stored
  have h₀ := (Store.deviceOps_eq_some.mp hr₀).1
  have hname : op.deviceName = some r.device := by
    rcases hop with h | ⟨n, h⟩ <;> rw [h] <;> rfl
  refine .log_write hp hname hlock ?_ ?_ ?_
  · intro r' hr'
    cases h₀.symm.trans hr'
    exact hl
  · intro _
    refine ⟨Store.save_ids_of_mem ((h.ids _).mpr ?_), Event.admission_of_stored hop h₀⟩
    rw [h₀]
    simp
  · intro hn
    cases h₀.symm.trans hn

/-- whoever touches a device holds its lock -/
theorem OpOk.lock {op : Op} (hok : OpOk cfg p s op) {d : String} (hd : op.deviceName = some d) :
    s.locks d = some p := by
  cases op with
  | device d' c call =>
    cases hd
    exact hok.1
  | file op =>
    cases op with
    | saveOp r =>
      cases hd
      exact hok.1
    | saveOpIf r n =>
      cases hd
      exact hok.1
    | writeBlock d' b =>
      cases hd
      exact hok.1
    | removeBlock d' b =>
      cases hd
      exact hok
    | _ => cases hd
  | _ => cases hd

/-- an operation of `p` on a file -/
theorem Rely.log_written (h : Inv cfg s) (hp : p ≠ q) {op : FileOp} {a : Except Exn op.Reply}
    (hok : OpOk cfg p s (.file op)) : Rely q s (s.log p (.file op) a (s.store.write op)) := by
  have hlock := fun d => hok.lock (d := d)
  cases op with
  | saveOp r =>
    rcases hok.2 with hs | hr
    · exact .log_save h hp (.inl rfl) hok.1 hs
    · refine .log_write hp rfl hok.1 ?_ ?_ ?_
      · intro r₀ hr₀
        cases hr.absent.symm.trans hr₀
      · intro ha
        rw [hr.admission] at ha
        exact absurd (Option.some.inj ha) hp
      · intro _ ht
        rw [hr.token] at ht
        exact hp (Option.some.inj ht)
  | saveOpIf r n =>
    simp only [Store.write]
    split
    · exact .log_save h hp (.inr ⟨n, rfl⟩) hok.1 hok.2
    · exact .log_store hp hlock rfl (fun _ _ => rfl) (fun _ => ⟨rfl, rfl⟩) (fun _ _ he => he)
  | writeRequest id entry =>
    refine .log_store hp (fun _ hd => nomatch hd) rfl (fun _ _ => rfl) ?_ ?_
    · intro ha
      rw [hok.1] at ha
      exact absurd (Option.some.inj ha) hp
    · intro id' entry' he
      have hne : id' ≠ id := fun hid => by
        rw [hid, hok.2.1] at he
        cases he
      exact (Function.update_of_ne hne ..).trans he
  | writeBlock d b =>
    refine .log_store hp hlock rfl ?_ (fun _ => ⟨rfl, rfl⟩) (fun _ _ he => he)
    intro d' hd'
    exact Function.update_of_ne (fun he => hd' (congrArg some he.symm)) ..
  | removeBlock d b =>
    simp only [Store.write]
    split
    · refine .log_store hp hlock rfl ?_ (fun _ => ⟨rfl, rfl⟩) (fun _ _ he => he)
      intro d' hd'
      exact Function.update_of_ne (fun he => hd' (congrArg some he.symm)) ..
    · exact .log_store hp hlock rfl (fun _ _ => rfl) (fun _ => ⟨rfl, rfl⟩) (fun _ _ he => he)
  | noteRejection now =>
    simp only [Store.write]
    exact .log_store hp (fun _ hd => nomatch hd) rfl (fun _ _ => rfl)
      (fun _ => ⟨rfl, rfl⟩) (fun _ _ he => he)
  | _ =>
    exact .log_store hp (fun _ hd => nomatch hd) rfl (fun _ _ => rfl)
      (fun _ => ⟨rfl, rfl⟩) (fun _ _ he => he)

/-- a lock is taken or given back -/
theorem Rely.exec_lock (hp : p ≠ q) (op : LockOp) (a : Option Exn) :
    Rely q s (State.exec p (.lock op) a s).2 := by
  have hne : (some p : Option Pid) ≠ some q := fun h => hp (Option.some.inj h)
  obtain ⟨h1, h2, h3, -, -⟩ := State.exec_lock p op a s
  refine .relock h1 h2 h3 ?_ ?_
  · intro d
    cases op with
    | lockDevice d' =>
      cases a with
      | some e => exact Iff.rfl
      | none =>
        simp only [State.exec, State.lockOp]
        split
        · next hfree =>
          by_cases hd : d = d'
          · subst hd
            simp [hfree, hne]
          · simp [Function.update_of_ne hd]
        · exact Iff.rfl
        · exact Iff.rfl
    | unlockDevice d' =>
      simp only [State.exec, State.lockOp]
      split
      · next hheld =>
        by_cases hd : d = d'
        · subst hd
          simp [hheld, hne]
        · simp [Function.update_of_ne hd]
      · exact Iff.rfl
    | holdsDevice d' => exact Iff.rfl
    | _ =>
      simp only [State.exec, State.lockOp]
      split <;> exact Iff.rfl
  · cases op with
    | lockAdmission =>
      cases a with
      | some e => exact Iff.rfl
      | none =>
        simp only [State.exec, State.lockOp]
        split
        · next hfree => simp [hfree, hne]
        · exact Iff.rfl
        · exact Iff.rfl
    | unlockAdmission =>
      simp only [State.exec, State.lockOp]
      split
      · next hheld => simp [hheld, hne]
      · exact Iff.rfl
    | holdsDevice d' => exact Iff.rfl
    | _ =>
      simp only [State.exec, State.lockOp]
      split <;> exact Iff.rfl

/-- a token is drawn: it was nobody's before -/
theorem Rely.tokenHex (h : Inv cfg s) (n : Nat) : Rely q s (State.exec p .tokenHex n s).2 where
  locks _ := Iff.rfl
  view _ _ := rfl
  admission := Iff.rfl
  admitted _ := ⟨rfl, rfl, rfl⟩
  later c r hr := ⟨r, hr, .refl r⟩
  token c hc := by
    have hne : c ≠ s.freshToken n := fun he => by
      have hmem := h.drawn c (by rw [hc]; simp)
      rw [he] at hmem
      exact s.freshToken_not_mem n hmem
    exact ⟨(Function.update_of_ne hne ..).trans hc, id⟩
  asked := rfl
  requests _ _ he := he

/-- **An operation that is allowed leaves alone what the others rely on.** -/
theorem rely_exec (h : Inv cfg s) (hp : p ≠ q) {op : Op} (hok : OpOk cfg p s op) (a : op.Choice) :
    Rely q s (State.exec p op a s).2 := by
  have hlock := fun d => hok.lock (d := d)
  cases op with
  | device d c call =>
    exact .log_store hp hlock rfl (fun _ _ => rfl) (fun _ => ⟨rfl, rfl⟩) (fun _ _ he => he)
  | host call =>
    exact .log_store hp hlock rfl (fun _ _ => rfl) (fun _ => ⟨rfl, rfl⟩) (fun _ _ he => he)
  | file op =>
    cases a with
    | done => exact .log_written h hp hok
    | lost e =>
      exact .log_store hp hlock rfl (fun _ _ => rfl) (fun _ => ⟨rfl, rfl⟩)
        (fun _ _ he => he)
    | late e => exact .log_written h hp hok
  | lock op => exact .exec_lock hp op a
  | tokenHex => exact .tokenHex h a
  | budgetNow =>
    cases a with
    | error e => exact .refl q s
    | ok now =>
      exact .log_plain hp _ hlock rfl (fun _ _ => rfl) (fun _ => ⟨rfl, rfl⟩) (fun _ _ he => he)

/-- the death of a process frees its locks and nothing else -/
theorem rely_crash (hp : p ≠ q) : Rely q s (State.crash p s) := by
  have hne : ∀ o : Option Pid, (if o = some p then none else o) = some q ↔ o = some q := by
    intro o
    split
    · next h =>
      subst h
      simp [hp]
    · exact Iff.rfl
  exact .relock rfl rfl rfl (fun d => hne (s.locks d)) (hne s.admission)

end

end Netops
