import Netops.Admin.Recovery

/-!
# Every call keeps to the protocol

`apply` creates a record under the admission lock, after it has looked for the request and counted
the changes of the journal; the other calls change records only.

* `conform_known`, `conform_budgets`   what a look at the journal proves, under the admission lock;
* `conform_admitRecord`   the record is created where `Admissible` holds;
* `conform_call_prog`     every entry point conforms, from every state.
-/

namespace Netops
open Effect Prog Execute

/-! ## operations aside -/

/-- operations that touch no record, request, block, lock or token -/
def Op.aside : Op → Prop
  | .budgetNow => True
  | .file (.writeBaseline _ _) => True
  | .file (.clearBaseline _) => True
  | .file (.writeEnrollment _ _) => True
  | .file (.clearEnrollment _) => True
  | .file (.noteRejection _) => True
  | o => o.harmless

theorem aside_of_harmless (op : Op) (h : op.harmless) : op.aside := by
  cases op with
  | file op => cases op <;> first | exact False.elim h | trivial
  | host q => trivial
  | _ => exact h.elim

/-- nothing a process can rely on has changed, but for the clock -/
structure Calm (s t : State) : Prop where
  locks : t.locks = s.locks
  admission : t.admission = s.admission
  tokens : t.tokens = s.tokens
  ops : t.store.ops = s.store.ops
  ids : t.store.ids = s.store.ids
  requests : t.store.requests = s.store.requests
  view : t.view = s.view

theorem calm_log {s : State} {p : Pid} {op : Op} {a : op.Answer} {after : Store} (clock : ℚ)
    (hop : op.deviceName = none) (hops : after.ops = s.store.ops) (hids : after.ids = s.store.ids)
    (hrequests : after.requests = s.store.requests) (hblocked : after.blocked = s.store.blocked) :
    Calm s { s.log p op a after with clock := clock } := by
  refine ⟨rfl, rfl, rfl, hops, hids, hrequests, funext fun d => ?_⟩
  have hv := State.view_log s p op a after d
  rw [View.push_of_ne (e := ⟨p, ⟨op, a⟩, s.store, after⟩) (fun he => nomatch hop.symm.trans he)] at hv
  unfold Store.deviceOps at hv
  rw [hops, hblocked] at hv
  exact hv

theorem calm_store {s : State} {p : Pid} {op : Op} {a : op.Answer} {after : Store}
    (hop : op.deviceName = none) (hops : after.ops = s.store.ops) (hids : after.ids = s.store.ids)
    (hrequests : after.requests = s.store.requests) (hblocked : after.blocked = s.store.blocked) :
    Calm s (s.log p op a after) :=
  calm_log s.clock hop hops hids hrequests hblocked

theorem Store.write_noteRejection (st : Store) (now : ℚ) :
    st.write (.noteRejection now) = { st with rejections := st.noteRejection now } := rfl

theorem calm_exec {p : Pid} {s : State} {o : Op} (h : o.aside) (a : o.Choice) :
    Calm s (State.exec p o a s).2 := by
  cases o with
  | host q => exact calm_store rfl rfl rfl rfl rfl
  | file op =>
    have hname : Op.deviceName (.file op) = none := by
      cases op <;> first | exact False.elim h | rfl
    have hwrite : (s.store.write op).ops = s.store.ops ∧ (s.store.write op).ids = s.store.ids ∧
        (s.store.write op).requests = s.store.requests ∧
        (s.store.write op).blocked = s.store.blocked := by
      cases op with
      | noteRejection now =>
        rw [Store.write_noteRejection]
        exact ⟨rfl, rfl, rfl, rfl⟩
      | _ => first | exact False.elim h | exact ⟨rfl, rfl, rfl, rfl⟩
    obtain ⟨h1, h2, h3, h4⟩ := hwrite
    cases a with
    | done => exact calm_store hname h1 h2 h3 h4
    | lost e => exact calm_store hname rfl rfl rfl rfl
    | late e => exact calm_store hname h1 h2 h3 h4
  | budgetNow =>
    cases a with
    | error e => exact ⟨rfl, rfl, rfl, rfl, rfl, rfl, rfl⟩
    | ok now => exact calm_log _ rfl rfl rfl rfl rfl
  | _ => exact h.elim

theorem ok_of_aside {cfg : Config} {p : Pid} {s : State} {op : Op} (h : op.aside) :
    OpOk cfg p s op := by
  cases op with
  | file op => cases op <;> first | exact False.elim h | trivial
  | host q => trivial
  | budgetNow => trivial
  | _ => exact h.elim

section
variable {cfg : Config} {p : Pid} {s : State} {α : Type}

/-- a program of operations aside -/
theorem conform_aside {K : State → Prop} (hK : Lasts cfg p K)
    (hcalm : ∀ s t, Calm s t → K s → K t) {m : Admin α} (h : m.Only Op.aside) (hs : K s) :
    Conforms cfg p m (fun _ t => K t) s := by
  refine (Safe.of_all (P := Op.aside) hK (fun t op hop ht hi => ?_) h hs).mono fun _ _ h => h.1
  exact ⟨ok_of_aside hop, fun a => hcalm t _ (calm_exec hop a) ht⟩

theorem Calm.working {r : Record} {ps : List (Event → Prop)} {F : View → Prop} {t : State}
    (hc : Calm s t) (h : Working p r ps F s) : Working p r ps F t := by
  have hv := congrFun hc.view r.device
  exact ⟨hc.locks ▸ h.lock, hv ▸ h.saveable, hv ▸ h.chain, hv ▸ h.frame⟩

/-- operations that are never refused, whatever is known -/
theorem conform_free {m : Admin α} (h : m.Only Op.aside) : Conforms cfg p m (fun _ _ => True) s :=
  conform_aside (fun _ _ _ _ _ => trivial) (fun _ _ _ _ => trivial) h trivial

end

/-! ## looking at the journal -/

section
variable {cfg : Config} {p : Pid} {s : State}

/-- the request is unknown, and stays so while the admission lock is held -/
structure Unknown (p : Pid) (id : String) (t : State) : Prop where
  admission : t.admission = some p
  request : t.store.requests id = none
  records : ∀ c ∈ t.store.ids, ∃ r, t.store.ops c = some r ∧ r.requestId ≠ id

theorem unknown_lasts (id : String) : Lasts cfg p (Unknown p id) := by
  intro s t _ hr h
  obtain ⟨hids, hreq, -⟩ := hr.admitted h.admission
  refine ⟨hr.admission.mpr h.admission, hreq ▸ h.request, fun c hc => ?_⟩
  obtain ⟨r, hr', hne⟩ := h.records c (hids ▸ hc)
  obtain ⟨r', hr'', hl⟩ := hr.later c r hr'
  exact ⟨r', hr'', fun he => hne (hl.requestId.symm.trans he)⟩

theorem Calm.unknown {id : String} {t : State} (hc : Calm s t) (h : Unknown p id s) :
    Unknown p id t :=
  ⟨hc.admission.trans h.admission, hc.requests ▸ h.request, hc.ids ▸ hc.ops ▸ h.records⟩

theorem conform_known {K : State → Prop} (hK : Lasts cfg p K) (hs : K s)
    (hadm : ∀ t, K t → t.admission = some p) (dev : Device) (request : Request) :
    Conforms cfg p (known dev request) (Returns fun o t => K t ∧
      (o = none → Unknown p request.requestId t)) s := by
  refine Safe.andThen (P := Returns fun o t => K t ∧
    (o = none → t.store.requests request.requestId = none)) ?_ fun o t ht => ?_
  · refine conform_read hK (.readRequest request.requestId) trivial hs ?_
      (fun e u _ _ ha => nomatch ha)
    intro t u _ _ _ hu hstore o ho
    cases ho
    exact ⟨hu, fun hn => hstore ▸ hn⟩
  · obtain ⟨hKt, hnone⟩ := ht o rfl
    cases o with
    | some entry =>
      dsimp only
      split
      · exact fun _ h => nomatch h
      · refine Safe.andThen (conform_harmless hK (only_operation (fun _ h => h) _) hKt) fun o u hu => ?_
        cases o with
        | none => exact fun _ h => nomatch h
        | some r =>
          intro o ho
          cases ho
          exact ⟨hu.1, fun h => nomatch h⟩
    | none =>
      have hK' : Lasts cfg p fun t => K t ∧ t.store.requests request.requestId = none :=
        fun s t hi hr ⟨h1, h2⟩ => ⟨hK s t hi hr h1, (hr.admitted (hadm s h1)).2.1 ▸ h2⟩
      refine Safe.andThen (conform_records hK' ⟨hKt, hnone rfl⟩) fun rs u hu => ?_
      obtain ⟨⟨hKu, hreq⟩, w, -, -, hids, hrs⟩ := hu rs rfl
      unfold raiseIf
      dsimp only
      split
      · exact fun _ h => nomatch h
      · intro o ho
        cases ho
        refine ⟨hKu, fun hn => ⟨hadm u hKu, hreq, fun c hc => ?_⟩⟩
        rw [hids (hadm u hKu)] at hc
        obtain ⟨r, hr, ⟨r', hr', hl⟩, -⟩ := forall₂_mem_left hrs (List.mem_mergeSort.mpr hc)
        refine ⟨r', hr', fun he => ?_⟩
        have hmem : r ∈ rs.filter fun r => r.requestId = request.requestId :=
          List.mem_filter.mpr ⟨hr, by simpa using hl.requestId.symm.trans he⟩
        rw [List.head?_eq_none_iff.mp hn] at hmem
        cases hmem

/-- what is read counts at least as much as what is there -/
theorem spent_read {K : State → Prop} {t : State} {keep : Record → Bool} (hk : Lasting keep)
    (since : ℚ) {cs : List ChangeId} {rs : List Record} (h : List.Forall₂ (ReadOf cfg K t) cs rs) :
    (cs.map fun c => contribution keep since (t.store.ops c)).sum
      ≤ spent (rs.filter keep) since := by
  induction h with
  | nil => exact Nat.zero_le _
  | @cons c r cs rs hr _ ih =>
    obtain ⟨⟨r', hr', hl⟩, -⟩ := hr
    have hone := spent_toList keep since (some r)
    have hsplit := spent_append ([r].filter keep) (rs.filter keep) since
    rw [← List.filter_append] at hsplit
    have hle := contribution_later hk since hl
    rw [List.map_cons, List.sum_cons, hr']
    simp only [Option.toList_some] at hone
    rw [List.singleton_append] at hsplit
    omega

theorem Store.spent_perm (st : Store) (keep : Record → Bool) (since : ℚ) {cs : List ChangeId}
    (h : cs.Perm st.ids) : spent (st.records.filter keep) since
      = (cs.map fun c => contribution keep since (st.ops c)).sum := by
  rw [Store.spent_records]
  exact ((h.map _).sum_eq).symm

/-- the budgets have room for `n` more changes at the moment `now` -/
structure Counted (cfg : Config) (p : Pid) (d : String) (n : Nat) (now : ℚ) (t : State) : Prop where
  asked : asked p t.trace = some now
  last : ∀ m, admittedAt t.trace = some m → m ≤ now
  hour : spent (t.store.records.filter fun r => r.device = d) (now - hour) + n
    ≤ cfg.limits.changesPerDevicePerHour
  day : spent t.store.records (now - day) + n ≤ cfg.limits.changesPerDay

theorem counted_rely {d : String} {n : Nat} {now : ℚ} {id : String} {t : State} (hi : Inv cfg t)
    (hrely : Rely p s t) (hu : Unknown p id s) (h : Counted cfg p d n now s) :
    Counted cfg p d n now t := by
  obtain ⟨hids, -, hadm⟩ := hrely.admitted hu.admission
  have hlater : ∀ c r', t.store.ops c = some r' → ∃ r, s.store.ops c = some r ∧ Later r r' := by
    intro c r' hr'
    have hmem : c ∈ t.store.ids := (hi.ids c).mpr (by rw [hr']; simp)
    obtain ⟨r, hr, -⟩ := hu.records c (hids ▸ hmem)
    obtain ⟨r'', hr'', hl⟩ := hrely.later c r hr
    cases hr''.symm.trans hr'
    exact ⟨r, hr, hl⟩
  have hhour := Store.spent_le (lasting_device d) (le_refl (now - Execute.hour)) hids hlater
  have hday := Store.spent_le lasting_true (le_refl (now - Execute.day)) hids hlater
  rw [Store.records_filter_true, Store.records_filter_true] at hday
  have h1 := h.hour
  have h2 := h.day
  refine ⟨hrely.asked.trans h.asked, hadm ▸ h.last, ?_, ?_⟩ <;> omega

end

section
variable {cfg : Config} {p : Pid} {s : State}

theorem conform_raiseIf {β : Type} {c : Prop} [Decidable c] {e : Exn} {f : Unit → Admin β}
    {Q : β → State → Prop} (hf : ¬ c → Conforms cfg p (f ()) (Returns Q) s) :
    Conforms cfg p ((raiseIf c e).bind f) (Returns Q) s := by
  unfold raiseIf
  split
  · exact fun _ h => nomatch h
  · next hc => exact hf hc

/-- **The budgets, counted under the admission lock.** -/
theorem conform_budgets {K : State → Prop} (hK : Lasts cfg p K)
    (hcalm : ∀ s t, Calm s t → K s → K t) {id : String} (hun : ∀ t, K t → Unknown p id t)
    (hs : K s) (dev : Device) (n : Nat) :
    Conforms cfg p (budgets cfg dev n) (Returns fun _ t => K t ∧
      ∃ now, Counted cfg p dev.name n now t) s := by
  let K' : ℚ → State → Prop := fun now t => K t ∧ asked p t.trace = some now ∧
    ∀ m, admittedAt t.trace = some m → m ≤ now
  have hK' : ∀ now, Lasts cfg p (K' now) := fun now s t hi hr ⟨h1, h2, h3⟩ => by
    obtain ⟨-, -, hadm⟩ := hr.admitted (hun s h1).admission
    exact ⟨hK s t hi hr h1, hr.asked.trans h2, hadm ▸ h3⟩
  refine conform_raiseIf fun _ => ?_
  refine Safe.andThen (P := Returns K') ?_ fun now u hu => ?_
  · -- the clock tells a moment no admission is later than
    refine fun u hr hi => ⟨trivial, fun a => Safe.ofExcept ?_⟩
    have hKu := hK s u hi hr hs
    have hcalmed := hcalm u _ (calm_exec (p := p) (o := .budgetNow) trivial a) hKu
    cases a with
    | error e => exact fun _ h => nomatch h
    | ok now =>
      intro now' hnow'
      cases hnow'
      refine ⟨hcalmed, asked_budgetNow .., fun m hm => ?_⟩
      have hm : admittedAt u.trace = some m :=
        (admittedAt_cons (Event.admission_of_ops rfl)).symm.trans hm
      exact (hi.admitted m hm).trans (le_max_left _ _)
  have hu := hu now rfl
  refine Safe.andThen (conform_harmless (m := Journal.rejectionsSince _) (V := fun _ => True)
    (E := fun _ => True) (hK' now) (Only.bind (only_file trivial) fun _ => trivial) hu)
    fun refused v hv => ?_
  refine conform_raiseIf fun _ => ?_
  refine Safe.andThen (conform_records (hK' now) hv.1) fun rs x hx => ?_
  obtain ⟨hKx, y, -, hiy, hids, hrs⟩ := hx rs rfl
  have hperm : (y.store.ids.mergeSort).Perm x.store.ids := by
    rw [hids (hun x hKx.1).admission]
    exact List.mergeSort_perm _ _
  have hsum : ∀ {keep : Record → Bool} (since : ℚ), Lasting keep →
      spent (x.store.records.filter keep) since ≤ spent (rs.filter keep) since := fun since hk => by
    rw [Store.spent_perm _ _ _ hperm]
    exact spent_read hk since hrs
  have hday := hsum (now - day) lasting_true
  rw [Store.records_filter_true, List.filter_eq_self.mpr fun _ _ => rfl] at hday
  have hhour := hsum (now - hour) (lasting_device dev.name)
  refine conform_raiseIf fun _ => conform_raiseIf fun hh => ?_
  unfold raiseIf
  split
  · exact fun _ h => nomatch h
  · next hd =>
    refine fun _ _ => ⟨hKx.1, now, hKx.2.1, hKx.2.2, ?_, ?_⟩ <;> omega

end

/-! ## the admission -/

section
variable {cfg : Config} {p : Pid} {s : State} {α : Type}

theorem conform_withAdmission {K : State → Prop} (hK : Lasts cfg p K) (hs : K s)
    (hacquire : ∀ t, K t → K { t with admission := some p }) {body : Admin α}
    {Q : α → State → Prop} (hQ : ∀ a, Lasts cfg p (Q a))
    (hrelease : ∀ a t, Q a t → Q a { t with admission := none })
    (hbody : ∀ t, K t → t.admission = some p → Conforms cfg p body (Returns Q) t) :
    Conforms cfg p (withAdmission body) (Returns Q) s := by
  refine Safe.andThen (P := Returns fun _ t => K t ∧ t.admission = some p) ?_ fun b t ht => ?_
  · refine fun t hr hi => ⟨trivial, fun a => Safe.ofExcept fun b hb => ?_⟩
    show K (State.lockOp t p a .lockAdmission).2 ∧ _
    rw [State.lockAdmission_ok hb]
    refine ⟨hacquire t (hK s t hi hr hs), ?_⟩
    show (State.lockOp t p a .lockAdmission).2.admission = some p
    rw [State.lockAdmission_ok hb]
  · obtain ⟨hKt, hadm⟩ := ht b rfl
    refine Safe.finally_ (hbody t hKt hadm) fun x u hx => ?_
    refine Safe.bind (P := fun _ => Returns Q x) ?_ (fun _ v hv => hv)
      (fun _ v hv _ ha => nomatch ha)
    refine fun v hr hi => ⟨trivial, fun a => Safe.ofExcept fun y hy => ?_⟩
    have hv := hQ y u v hi hr (hx y hy)
    show Q y (State.lockOp v p a .unlockAdmission).2
    simp only [State.lockOp]
    split
    · exact hrelease y v hv
    · exact hv

/-- the operation `c` of the device `d` has a token and no record yet -/
structure Entering (p : Pid) (d : String) (c : ChangeId) (t : State) : Prop where
  lock : t.locks d = some p
  clear : (t.view d).block = none
  token : t.tokens c = some p
  absent : t.store.ops c = none

theorem entering_lasts (d : String) (c : ChangeId) : Lasts cfg p (Entering p d c) := by
  intro s t _ hr h
  obtain ⟨h1, h2⟩ := hr.token c h.token
  exact ⟨(hr.locks d).mpr h.lock, hr.view d h.lock ▸ h.clear, h1, h2 h.absent⟩

theorem Calm.entering {d : String} {c : ChangeId} {t : State} (hc : Calm s t)
    (h : Entering p d c s) : Entering p d c t :=
  ⟨hc.locks ▸ h.lock, hc.view ▸ h.clear, hc.tokens ▸ h.token, hc.ops ▸ h.absent⟩

/-- a record as `_apply` starts it -/
structure Started (r : Record) : Prop where
  running : r.status = .running
  result : r.result = none
  reason : r.reason = none
  steps : r.steps = []
  safeguard : r.safeguard = none

/-- the record is created: it is admissible at that moment -/
theorem conform_create {r : Record} {id : String} {now : ℚ} (hstart : Started r)
    (hid : r.requestId = id) (he : Entering p r.device r.changeId s) (hun : Unknown p id s)
    (hc : Counted cfg p r.device r.weight now s) :
    Conforms cfg p (Journal.save r) (Returns fun _ t => t.admission = some p ∧
      t.store.requests id = none ∧ Working p r [] (fun v => Fresh r.changeId v ∧ Stored r v) t) s := by
  refine fun t hr hi => ?_
  have het := entering_lasts _ _ s t hi hr he
  have hunt := unknown_lasts _ s t hi hr hun
  have hct := counted_rely hi hr hun hc
  have hadmissible : Admissible cfg p r t := {
    admission := hunt.admission
    token := het.token
    absent := het.absent
    running := hstart.running
    safeguard := hstart.safeguard
    result := hstart.result
    steps := hstart.steps
    request := fun c r' hr' => by
      have hmem : c ∈ t.store.ids := (hi.ids c).mpr (by rw [hr']; simp)
      obtain ⟨r'', hr'', hne⟩ := hunt.records c hmem
      cases hr''.symm.trans hr'
      exact hid ▸ hne
    budget := ⟨now, hct.asked, hct.last, hct.hour, hct.day⟩ }
  have hok : OpOk cfg p t (.file (.saveOp r)) := ⟨het.lock, .inr hadmissible⟩
  refine ⟨hok, fun a => ?_⟩
  have hi' := hi.exec hok a
  cases a with
  | lost e => exact fun _ h => nomatch h
  | late e => exact fun _ h => nomatch h
  | done =>
    intro _ _
    refine ⟨hunt.admission, hunt.request, ?_⟩
    have hv := State.view_save (s := t) (p := p) (o := .file (.saveOp r)) (a := .ok ()) (r := r) rfl
    refine working_stored hi' het.lock (Store.save_ops_self t.store r) ?_
    show Fresh r.changeId ((t.log p (.file (.saveOp r)) (.ok ()) (t.store.save r)).view r.device) ∧
      Stored r ((t.log p (.file (.saveOp r)) (.ok ()) (t.store.save r)).view r.device)
    rw [hv]
    refine ⟨⟨het.clear, fun e he' => ?_⟩, Function.update_self ..⟩
    rcases List.mem_cons.mp he' with rfl | he'
    · rfl
    · -- nothing was done for an operation that has no record
      by_contra hc
      have hfor := Op.isFor_of_sendsFor (Op.sendsFor_of_appliesFor (Bool.eq_true_of_not_eq_false hc))
      obtain ⟨r', hr', -⟩ :=
        Store.deviceOps_ne_none.mp ((hi.device r.device).known e he' _ hfor)
      cases het.absent.symm.trans hr'

/-- **The part under the admission lock.** -/
theorem conform_admitRecord {r : Record} (hstart : Started r) (dev : Device) (request : Request)
    (hd : r.device = dev.name) (hid : r.requestId = request.requestId)
    (hsha : r.requestSha256 = request.fingerprint) (h : Entering p dev.name r.changeId s) :
    Conforms cfg p (admitRecord cfg dev request r) (Returns fun o t =>
      o = none → Working p r [] (Fresh r.changeId) t) s := by
  refine conform_withAdmission (entering_lasts _ _) h (fun t ht => ⟨ht.lock, ht.clear, ht.token, ht.absent⟩)
    (fun o t u hi hr ho hn => working_lasts t u hi hr (ho hn))
    (fun o t ho hn => ⟨(ho hn).lock, (ho hn).saveable, (ho hn).chain, (ho hn).frame⟩)
    fun t ht hadm => ?_
  have hK : Lasts cfg p fun t => Entering p dev.name r.changeId t ∧ t.admission = some p :=
    fun s t hi hr ⟨h1, h2⟩ => ⟨entering_lasts _ _ s t hi hr h1, hr.admission.mpr h2⟩
  refine Safe.andThen (conform_known hK ⟨ht, hadm⟩ (fun _ h => h.2) dev request) fun o u hu => ?_
  obtain ⟨⟨hent, -⟩, hun⟩ := hu o rfl
  cases o with
  | some found =>
    intro o ho
    cases ho
    exact fun h => nomatch h
  | none =>
    have hK : Lasts cfg p fun t => Entering p dev.name r.changeId t ∧
        Unknown p request.requestId t := fun s t hi hr ⟨h1, h2⟩ =>
      ⟨entering_lasts _ _ s t hi hr h1, unknown_lasts _ s t hi hr h2⟩
    refine Safe.andThen (conform_budgets hK (fun _ _ hc h => ⟨hc.entering h.1, hc.unknown h.2⟩)
      (fun _ h => h.2) ⟨hent, hun rfl⟩ dev r.weight) fun _ v hv => ?_
    obtain ⟨⟨hv, hunv⟩, now, hcount⟩ := hv () rfl
    rw [← hd] at hv hcount
    refine Safe.andThen (conform_create hstart hid hv hunv hcount) fun _ w hw => ?_
    have hw := hw () rfl
    let K : State → Prop := fun t => t.admission = some p ∧
      t.store.requests request.requestId = none ∧
      Working p r [] (fun v => Fresh r.changeId v ∧ Stored r v) t
    have hK : Lasts cfg p K := fun s t hi hr ⟨h1, h2, h3⟩ =>
      ⟨hr.admission.mpr h1, (hr.admitted h1).2.1 ▸ h2, working_lasts s t hi hr h3⟩
    refine Safe.andThen (conform_aside hK (fun _ _ hc h => ⟨hc.admission.trans h.1,
      hc.requests ▸ h.2.1, hc.working h.2.2⟩) (only_file trivial) hw) fun _ x hx => ?_
    refine Safe.andThen (P := Returns fun _ t => Working p r [] (Fresh r.changeId) t) ?_ fun _ y hy => ?_
    · refine fun y hr hi => ?_
      obtain ⟨h1, h2, h3⟩ := hK x y hi hr hx
      obtain ⟨hr', hd'⟩ := Store.deviceOps_eq_some.mp h3.frame.2
      refine ⟨⟨h1, h2, r, hr', hid, hsha, hd⟩, fun a => Safe.ofExcept fun b hb => ?_⟩
      cases a with
      | lost e => cases hb
      | late e => cases hb
      | done =>
        have hcalm : ((y.log p (.file (.writeRequest request.requestId
            ⟨r.changeId, request.fingerprint, dev.name⟩)) (.ok ()) (y.store.write (.writeRequest
            request.requestId ⟨r.changeId, request.fingerprint, dev.name⟩))).view r.device)
            = y.view r.device := by
          rw [State.view_log]
          rfl
        have h4 : Working p r [] (Fresh r.changeId) y := h3.mono (List.nil_sublist _) fun _ h => h.1
        exact ⟨h4.lock, hcalm ▸ h4.saveable, .nil _, hcalm ▸ h4.frame⟩
    · intro o ho
      cases ho
      exact fun _ => hy () rfl

end

end Netops
