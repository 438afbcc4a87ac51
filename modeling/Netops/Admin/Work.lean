import Netops.Admin.Quiet
import Netops.Admin.Steps

/-!
# A process at work on a record

What a process knows while it holds the lock of a device and works on a record, and the rules for
the operations it then does.

* `Conforms cfg p m Q s`    `m` keeps to the protocol as the process `p`, from the state `s` on;
* `Alike r r'`              `r'` differs from `r` in nothing the invariant looks at;
* `Working p r ps F s`      `p` holds the lock, `r` may be written, the events `ps` have happened
                            in this order, and `F` is true of the device;
* `conform_work`            operations for the record keep all of it;
* `conform_save`, `conform_call`, `conform_step`, `conform_finish`   the rules.
-/

namespace Netops
open Effect Prog Execute

/-- the process `p` does what `Ok` allows, whatever the others do -/
abbrev ConformsTo (cfg : Config) (p : Pid) (Ok : State → Op → Prop) {α : Type} (m : Admin α)
    (Q : Except Exn α → State → Prop) (s : State) : Prop :=
  Safe (machine p) (Inv cfg) (Rely p) Ok m Q s

/-- the process `p` keeps to the protocol, whatever the others do -/
abbrev Conforms (cfg : Config) (p : Pid) {α : Type} (m : Admin α)
    (Q : Except Exn α → State → Prop) (s : State) : Prop :=
  ConformsTo cfg p (OpOk cfg p) m Q s

/-- the others keep `K` -/
abbrev Lasts (cfg : Config) (p : Pid) (K : State → Prop) : Prop := Stable (Inv cfg) (Rely p) K

/-! ## harmless operations -/

theorem rely_harmless {p : Pid} {s : State} {op : Op} (h : op.harmless) (a : op.Choice) :
    Rely p s (State.exec p op a s).2 := by
  have hlog : ∀ (ans : op.Answer), op ≠ .budgetNow → op.deviceName = none →
      Rely p s (s.log p op ans s.store) := fun ans hnow hd => {
    locks := fun _ => Iff.rfl
    view := fun d _ => by
      rw [State.view_log, View.push_of_ne (e := ⟨p, ⟨op, ans⟩, s.store, s.store⟩)
        (fun he => nomatch hd.symm.trans he)]
      rfl
    admission := Iff.rfl
    admitted := fun _ => ⟨rfl, rfl, admittedAt_cons (Event.admission_of_ops rfl)⟩
    later := fun c r hr => ⟨r, hr, .refl r⟩
    token := fun c hc => ⟨hc, id⟩
    asked := asked_cons_of_op (e := ⟨p, ⟨op, ans⟩, s.store, s.store⟩) hnow
    requests := fun _ _ he => he }
  cases op with
  | host q => exact hlog _ (fun hn => nomatch hn) rfl
  | file op =>
    have hread : Op.deviceName (.file op) = none ∧ s.store.write op = s.store := by
      cases op <;> first | exact False.elim h | exact ⟨rfl, rfl⟩
    cases a with
    | done =>
      have hl := hlog (.ok (s.store.read op)) (fun hn => nomatch hn) hread.1
      rw [← hread.2] at hl
      simpa only [State.exec, State.fileOp, hread.2] using hl
    | lost e => exact hlog (.error e) (fun hn => nomatch hn) hread.1
    | late e =>
      have hl := hlog (.error e) (fun hn => nomatch hn) hread.1
      simpa only [State.exec, State.fileOp, hread.2] using hl
  | _ => exact h.elim

theorem ok_of_harmless {cfg : Config} {p : Pid} {s : State} {op : Op} (h : op.harmless) :
    OpOk cfg p s op := by
  cases op with
  | host q => trivial
  | file op => cases op <;> first | exact False.elim h | trivial
  | _ => exact h.elim

/-- operations that no protocol forbids: reads, locks, the clock and the count of refusals -/
def Op.free : Op → Prop
  | .lock _ => True
  | .budgetNow => True
  | .file (.noteRejection _) => True
  | o => o.harmless

theorem free_of_harmless (op : Op) (h : op.harmless) : op.free := by
  cases op with
  | file op => cases op <;> first | exact False.elim h | trivial
  | host q => trivial
  | _ => exact h.elim

theorem ok_of_free {cfg : Config} {p : Pid} {s : State} {op : Op} (h : op.free) :
    OpOk cfg p s op := by
  cases op with
  | file op => cases op <;> first | exact False.elim h | trivial
  | host q => trivial
  | lock q => trivial
  | budgetNow => trivial
  | _ => exact h.elim

class Permits (Ok : State → Op → Prop) : Prop where
  ok : ∀ t op, Op.free op → Ok t op

instance (cfg : Config) (p : Pid) : Permits (OpOk cfg p) := ⟨fun _ _ h => ok_of_free h⟩

section
variable {cfg : Config} {p : Pid} {s : State} {α : Type} {Ok : State → Op → Prop} [Permits Ok]

/-- a program that only reads keeps what the others keep -/
theorem conform_harmless {K : State → Prop} (hK : Lasts cfg p K) {V : α → Prop} {E : Exn → Prop}
    {m : Admin α} (h : m.All Op.harmless V E) (hs : K s) :
    ConformsTo cfg p Ok m (fun x t => K t ∧ (∀ a, x = .ok a → V a) ∧ ∀ e, x = .error e → E e)
      s := by
  refine Safe.of_all (P := Op.harmless) hK (fun t op hop ht hi => ?_) h hs
  refine ⟨Permits.ok t op (free_of_harmless op hop), fun a => ?_⟩
  exact hK t _ (hi.exec (ok_of_harmless hop) a) (rely_harmless hop a) ht

/-- one read of a file, under what the others keep -/
theorem conform_read {K : State → Prop} (hK : Lasts cfg p K) (op : FileOp)
    (hop : Op.harmless (.file op)) (hs : K s) {Q : Except Exn op.Reply → State → Prop}
    (hok : ∀ t u, K t → Inv cfg t → Inv cfg u → K u → u.store = t.store → Q (.ok (t.store.read op)) u)
    (herr : ∀ e u, K u → Q (.error e) u) : ConformsTo cfg p Ok (file op) Q s := by
  refine fun t hr hi => ⟨Permits.ok t _ (free_of_harmless _ hop), fun a => ?_⟩
  have hKt := hK s t hi hr hs
  have hi' := hi.exec (show OpOk cfg p t (.file op) from ok_of_harmless hop) a
  have hK' := hK t _ hi' (rely_harmless hop a) hKt
  have hstore : t.store.write op = t.store := by
    cases op <;> first | exact False.elim hop | rfl
  cases a with
  | done => exact hok t _ hKt hi hi' hK' hstore
  | lost e => exact herr e _ hK'
  | late e => exact herr e _ hK'

end

/-! ## records -/

/-- `r'` differs from `r` in nothing the invariant looks at; steps other than `confirm_start` may
have been added -/
structure Alike (r r' : Record) : Prop where
  change : r'.change = r.change
  requestId : r'.requestId = r.requestId
  requestSha256 : r'.requestSha256 = r.requestSha256
  moment : r'.moment = r.moment
  weight : r'.weight = r.weight
  safeguard : r'.safeguard = r.safeguard
  status : r'.status = r.status
  result : r'.result = r.result
  reason : r'.reason = r.reason
  steps : .confirmStart ∈ r'.stepNames → .confirmStart ∈ r.stepNames

namespace Alike
variable {r r' r'' : Record}

theorem refl (r : Record) : Alike r r := ⟨rfl, rfl, rfl, rfl, rfl, rfl, rfl, rfl, rfl, id⟩

theorem trans (h : Alike r r') (h' : Alike r' r'') : Alike r r'' where
  change := h'.change.trans h.change
  requestId := h'.requestId.trans h.requestId
  requestSha256 := h'.requestSha256.trans h.requestSha256
  moment := h'.moment.trans h.moment
  weight := h'.weight.trans h.weight
  safeguard := h'.safeguard.trans h.safeguard
  status := h'.status.trans h.status
  result := h'.result.trans h.result
  reason := h'.reason.trans h.reason
  steps hc := h.steps (h'.steps hc)

theorem changeId (h : Alike r r') : r'.changeId = r.changeId := congrArg Change.id h.change

theorem device (h : Alike r r') : r'.device = r.device := congrArg Change.device h.change

theorem later (h : Alike r r') : Later r r' where
  change := h.change
  requestId := h.requestId
  requestSha256 := h.requestSha256
  moment := h.moment
  weight := h.weight
  safeguard hs := h.safeguard ▸ hs
  finished hf := ⟨h.status.trans hf, h.result, h.reason, h.safeguard⟩

theorem earlier (h : Alike r r') : Later r' r where
  change := h.change.symm
  requestId := h.requestId.symm
  requestSha256 := h.requestSha256.symm
  moment := h.moment.symm
  weight := h.weight.symm
  safeguard hs := h.safeguard ▸ hs
  finished hf := ⟨h.status.symm.trans hf, h.result.symm, h.reason.symm, h.safeguard.symm⟩

theorem blocking (h : Alike r r') : r'.blocking = r.blocking := by
  unfold Record.blocking
  rw [h.status, h.result, h.reason]

theorem recordOk {d : String} {v : View} (h : Alike r r') (hr : RecordOk d r v) :
    RecordOk d r' v where
  unsent hs := by
    rw [h.changeId]
    exact hr.unsent (h.safeguard ▸ hs)
  early hc := h.safeguard.trans (hr.early (h.reason ▸ hc))
  gates hc := by
    rw [h.change]
    exact hr.gates (h.steps hc)
  confirmed hc := by
    rw [h.change]
    exact hr.confirmed (h.result ▸ hc)
  blocked hb := by
    rw [h.changeId]
    exact hr.blocked (h.blocking ▸ hb)

theorem saveable {d : String} {v : View} (h : Alike r r') (hs : Saveable d r v) :
    Saveable d r' v := by
  obtain ⟨r₀, hr₀, hl⟩ := hs.stored
  exact ⟨h.recordOk hs.ok, r₀, by rw [h.changeId]; exact hr₀, hl.trans h.later⟩

theorem addStep {name : StepName} (hname : name ≠ .confirmStart) (detail : Option String) :
    Alike r (r.addStep name detail) :=
  { refl r with
    steps := fun hc => by
      rw [Record.stepNames_addStep, List.mem_append, List.mem_singleton] at hc
      rcases hc with hc | hc
      · exact hc
      · exact absurd hc.symm hname }

end Alike

/-- a record of the device may be written as it is -/
theorem DeviceOk.saveable {d : String} {v : View} {r : Record} (h : DeviceOk d v)
    (hr : v.ops r.changeId = some r) : Saveable d r v :=
  ⟨h.record _ r hr, r, hr, .refl r⟩

/-! ## devices -/

/-- one more event of the device, which sends no line; only the record of `c` may have changed -/
structure View.Moved (c : ChangeId) (v v' : View) : Prop where
  trace : ∃ e, (∀ c', e.op.sendsFor c' = false) ∧ v'.trace = e :: v.trace
  others : ∀ c', c' ≠ c → v'.ops c' = v.ops c'
  own : ∀ r, v.ops c = some r → ∃ r', v'.ops c = some r' ∧ Later r r'

theorem View.Moved.same {c : ChangeId} {v v' : View} {e : Event}
    (he : ∀ c', e.op.sendsFor c' = false) (htr : v'.trace = e :: v.trace) (hops : v'.ops = v.ops) :
    v.Moved c v' :=
  ⟨⟨e, he, htr⟩, fun _ _ => congrFun hops _, fun r hr => ⟨r, hops ▸ hr, .refl r⟩⟩

/-- events of the operation `c` keep `F`, as long as they leave the block alone -/
def Framed (c : ChangeId) (F : View → Prop) : Prop :=
  ∀ v v', v.Moved c v' → v'.block = v.block → F v → F v'

/-- events of the operation `c` keep `F` -/
def Frame (c : ChangeId) (F : View → Prop) : Prop := ∀ v v', v.Moved c v' → F v → F v'

theorem Frame.framed {c : ChangeId} {F : View → Prop} (h : Frame c F) : Framed c F :=
  fun v v' hm _ => h v v' hm

theorem frame_true (c : ChangeId) : Frame c fun _ => True := fun _ _ _ _ => trivial

theorem Saveable.moved {c : ChangeId} {d : String} {r : Record} {v v' : View}
    (h : Saveable d r v) (hm : v.Moved c v')
    (hblock : r.blocking = true → v.block ≠ none → v'.block ≠ none)
    (hops : ∃ r₀, v'.ops r.changeId = some r₀ ∧ Later r₀ r) : Saveable d r v' := by
  obtain ⟨e, he, htr⟩ := hm.trace
  exact ⟨h.ok.cons htr (fun _ => he _) (fun hb hn => .inl (hblock hb hn)), hops⟩

/-! ## at work -/

/-- `p` holds the lock of the device and works on `r`; the events `ps` have happened, in this
order, and `F` is true of the device -/
structure Working (p : Pid) (r : Record) (ps : List (Event → Prop)) (F : View → Prop)
    (s : State) : Prop where
  lock : s.locks r.device = some p
  saveable : Saveable r.device r (s.view r.device)
  chain : InOrder ps (s.view r.device).trace
  frame : F (s.view r.device)

section
variable {cfg : Config} {p : Pid} {s : State} {α : Type} {r r' : Record}
variable {ps : List (Event → Prop)} {F : View → Prop}

theorem working_lasts : Lasts cfg p (Working p r ps F) := by
  intro s t _ hr h
  have hv := hr.view r.device h.lock
  exact ⟨(hr.locks _).mpr h.lock, hv ▸ h.saveable, hv ▸ h.chain, hv ▸ h.frame⟩

theorem Working.alike (h : Working p r ps F s) (ha : Alike r r') : Working p r' ps F s := by
  obtain ⟨h1, h2, h3, h4⟩ := h
  have hs := ha.saveable h2
  rw [← ha.device] at h1 h3 h4 hs
  exact ⟨h1, hs, h3, h4⟩

theorem Working.mono {ps' : List (Event → Prop)} {F' : View → Prop} (h : Working p r ps F s)
    (hps : ps'.Sublist ps) (hF : ∀ v, F v → F' v) : Working p r ps' F' s :=
  ⟨h.lock, h.saveable, h.chain.sublist hps, hF _ h.frame⟩

/-- the record on file -/
theorem Working.stored (h : Working p r ps F s) :
    ∃ r₀, s.store.ops r.changeId = some r₀ ∧ r₀.device = r.device ∧ Later r₀ r := by
  obtain ⟨r₀, hr₀, hl⟩ := h.saveable.stored
  obtain ⟨h1, h2⟩ := Store.deviceOps_eq_some.mp hr₀
  exact ⟨r₀, h1, h2, hl⟩

theorem Working.later (h : Working p r ps F s) {r₀ : Record}
    (hr₀ : (s.view r.device).ops r.changeId = some r₀) : Later r₀ r := by
  obtain ⟨r₁, hr₁, hl⟩ := h.saveable.stored
  cases hr₀.symm.trans hr₁
  exact hl

/-- a record of the device that is there may be worked on -/
theorem working_stored (hi : Inv cfg s) {c : ChangeId} (hlock : s.locks r.device = some p)
    (hr : s.store.ops c = some r) (hF : F (s.view r.device)) : Working p r [] F s := by
  refine ⟨hlock, (hi.device r.device).saveable ?_, .nil _, hF⟩
  rw [hi.changeId c r hr]
  exact Store.deviceOps_eq_some.mpr ⟨hr, rfl⟩

/-! ### writing the record -/

/-- the operation writes the record `r` -/
def Op.saves (r : Record) (op : Op) : Prop :=
  op = .file (.saveOp r) ∨ ∃ n, op = .file (.saveOpIf r n)

theorem Op.saves.deviceName {op : Op} (h : op.saves r) : op.deviceName = some r.device := by
  rcases h with h | ⟨n, h⟩ <;> rw [h] <;> rfl

theorem Op.saves.sendsFor {op : Op} (h : op.saves r) (c : ChangeId) : op.sendsFor c = false := by
  rcases h with h | ⟨n, h⟩ <;> rw [h] <;> rfl

/-- the device after a write of a record of `r` -/
theorem View.moved_save {op : Op} {a : op.Answer} (hop : op.saves r') (hd : r'.device = r.device)
    (hc : r'.changeId = r.changeId)
    (hl : ∀ r₀, (s.view r.device).ops r.changeId = some r₀ → Later r₀ r') :
    (s.view r.device).Moved r.changeId ((s.log p op a (s.store.save r')).view r.device) ∧
      ((s.log p op a (s.store.save r')).view r.device).block = (s.view r.device).block ∧
      ((s.log p op a (s.store.save r')).view r.device).ops r.changeId = some r' := by
  have hv := State.view_save (s := s) (p := p) (a := a) hop.deviceName
  have hself : ((s.log p op a (s.store.save r')).view r.device).ops r.changeId = some r' := by
    rw [← hd, hv, ← hc]
    exact Function.update_self ..
  refine ⟨⟨?_, ?_, fun r₀ hr₀ => ⟨r', hself, hl r₀ hr₀⟩⟩, ?_, hself⟩
  · rw [← hd, hv]
    exact ⟨⟨p, ⟨op, a⟩, s.store, s.store.save r'⟩, hop.sendsFor, rfl⟩
  · intro c' hne
    rw [← hd, hv]
    exact Function.update_of_ne (hc ▸ hne) ..
  · rw [← hd, hv]

/-- ... and after a write that failed -/
theorem View.moved_unsaved {op : Op} {a : op.Answer} (hop : op.saves r')
    (hd : r'.device = r.device) :
    (s.view r.device).Moved r.changeId ((s.log p op a s.store).view r.device) ∧
      ((s.log p op a s.store).view r.device).block = (s.view r.device).block ∧
      ((s.log p op a s.store).view r.device).ops = (s.view r.device).ops := by
  have hv := State.view_log s p op a s.store r.device
  rw [View.push_of_eq (e := ⟨p, ⟨op, a⟩, s.store, s.store⟩) (hd ▸ hop.deviceName)] at hv
  rw [hv]
  exact ⟨.same (e := ⟨p, ⟨op, a⟩, s.store, s.store⟩) hop.sendsFor rfl rfl, rfl, rfl⟩

theorem Working.moved (h : Working p r ps F s) (hF : Framed r.changeId F) {t : State}
    (hlock : t.locks = s.locks) (hm : (s.view r.device).Moved r.changeId (t.view r.device))
    (hb : (t.view r.device).block = (s.view r.device).block)
    (hops : ∃ r₀, (t.view r.device).ops r.changeId = some r₀ ∧ Later r₀ r) :
    Working p r ps F t := by
  obtain ⟨e, -, htr⟩ := hm.trace
  refine ⟨hlock ▸ h.lock, h.saveable.moved hm (fun _ hn => hb ▸ hn) hops, ?_, hF _ _ hm hb h.frame⟩
  rw [htr]
  exact h.chain.cons e

/-- another state of the record was written: `r` may still be written over it -/
theorem Working.overwritten (h : Working p r ps F s) (hF : Framed r.changeId F) {op : Op}
    {a : op.Answer} (hop : op.saves r') (hl : Later r' r)
    (hl₀ : ∀ r₀, (s.view r.device).ops r.changeId = some r₀ → Later r₀ r') :
    Working p r ps F (s.log p op a (s.store.save r')) := by
  obtain ⟨hm, hb, hself⟩ := View.moved_save (s := s) (p := p) (a := a) hop hl.device.symm
    hl.changeId.symm hl₀
  exact h.moved hF rfl hm hb ⟨r', hself, hl⟩

/-- ... or could not be written -/
theorem Working.unwritten (h : Working p r ps F s) (hF : Framed r.changeId F) {op : Op}
    {a : op.Answer} (hop : op.saves r') (hd : r'.device = r.device) :
    Working p r ps F (s.log p op a s.store) := by
  obtain ⟨hm, hb, hops⟩ := View.moved_unsaved (s := s) (p := p) (a := a) hop hd
  exact h.moved hF rfl hm hb (hops ▸ h.saveable.stored)

/-- what may be written in place of `r` is worked on from now on -/
theorem Working.change (h : Working p r ps F s) (hl : Later r r')
    (hr' : RecordOk r.device r' (s.view r.device)) : Working p r' ps F s := by
  obtain ⟨h1, h2, h3, h4⟩ := h
  obtain ⟨r₀, hr₀, hl₀⟩ := h2.stored
  rw [← hl.device] at h1 h3 h4 hr₀ hr'
  rw [← hl.changeId] at hr₀
  exact ⟨h1, ⟨hr', r₀, hr₀, hl₀.trans hl⟩, h3, h4⟩

theorem Working.saveOk (h : Working p r ps F s) {op : Op} (hop : op.saves r) :
    OpOk cfg p s op := by
  rcases hop with rfl | ⟨n, rfl⟩
  · exact ⟨h.lock, .inl h.saveable⟩
  · exact ⟨h.lock, h.saveable⟩

/-- **The rule for a write of the record.** -/
theorem conform_save (h : Working p r ps F s) (hF : Framed r.changeId F) :
    Conforms cfg p (Journal.save r) (fun x t => Working p r ps F t ∧
      ∀ a, x = .ok a → (t.view r.device).ops r.changeId = some r) s := by
  refine fun t hr hi => ?_
  have ht := working_lasts s t hi hr h
  have hl := fun r₀ (hr₀ : (t.view r.device).ops r.changeId = some r₀) => ht.later hr₀
  have hop : Op.saves r (.file (.saveOp r)) := .inl rfl
  refine ⟨ht.saveOk hop, fun a => ?_⟩
  cases a with
  | done =>
    exact ⟨ht.overwritten hF hop (.refl r) hl, fun _ _ => (View.moved_save hop rfl rfl hl).2.2⟩
  | lost e => exact ⟨ht.unwritten hF hop rfl, fun _ hx => nomatch hx⟩
  | late e => exact ⟨ht.overwritten hF hop (.refl r) hl, fun _ hx => nomatch hx⟩

end

/-! ## the rules -/

/-- the call sends no configuration line -/
def DeviceCall.plain : DeviceCall → Prop
  | .apply _ => False
  | .installSafeguard _ _ => False
  | _ => True

theorem DeviceCall.plain.sendsFor {q : DeviceCall} (h : q.plain) (d : String)
    (c : Option ChangeId) (c' : ChangeId) : Op.sendsFor c' (.device d c q) = false := by
  cases q <;> first | exact False.elim h | rfl

section
variable {cfg : Config} {p : Pid} {s : State} {α : Type} {r r' : Record}
variable {ps : List (Event → Prop)} {F : View → Prop}

/-- the device after a call to it that sends no line -/
theorem Working.called (h : Working p r ps F s) (hF : Framed r.changeId F) {q : DeviceCall}
    (hq : q.plain) (c : Option ChangeId) (a : Except Exn q.Reply) {P : Event → Prop}
    (hP : ∀ e, e.is (.device r.device c q) a → P e) :
    Working p r (ps ++ [P]) F (s.log p (.device r.device c q) a s.store) := by
  have hv := State.view_log s p (.device r.device c q) a s.store r.device
  rw [View.push_of_eq (e := ⟨p, ⟨.device r.device c q, a⟩, s.store, s.store⟩) rfl] at hv
  have hm : (s.view r.device).Moved r.changeId
      ((s.log p (.device r.device c q) a s.store).view r.device) := by
    rw [hv]
    exact .same (e := ⟨p, ⟨.device r.device c q, a⟩, s.store, s.store⟩)
      (fun c' => hq.sendsFor r.device c c') rfl rfl
  have hb : ((s.log p (.device r.device c q) a s.store).view r.device).block
      = (s.view r.device).block := by
    rw [hv]
    rfl
  refine ⟨h.lock, h.saveable.moved hm (fun _ hn => hb ▸ hn) ?_, ?_, hF _ _ hm hb h.frame⟩
  · rw [hv]
    exact h.saveable.stored
  · rw [hv]
    exact h.chain.snoc (hP _ rfl)

theorem Working.callOk (h : Working p r ps F s) {q : DeviceCall} (hq : q.plain) :
    OpOk cfg p s (.device r.device (some r.changeId) q) := by
  obtain ⟨r₀, hr₀, hd₀, -⟩ := h.stored
  refine ⟨h.lock, fun c' hc' => ?_, fun safeguard plan he => ?_, fun lines he => ?_⟩
  · cases hc'
    exact ⟨r₀, hr₀, hd₀⟩
  · subst he
    exact hq.elim
  · subst he
    exact hq.elim

/-- **The rule for a call to the device**: its answer is one more event of the history. -/
theorem conform_call (h : Working p r ps F s) (hF : Framed r.changeId F) {q : DeviceCall}
    (hq : q.plain) : Conforms cfg p (call r q) (fun x t => Working p r ps F t ∧
      ∀ a, x = .ok a → ∀ P : Event → Prop,
        (∀ e, e.is (.device r.device (some r.changeId) q) (.ok a) → P e) →
        Working p r (ps ++ [P]) F t) s := by
  refine fun t hr hi => ⟨(working_lasts s t hi hr h).callOk hq, fun a => Safe.ofExcept ?_⟩
  have ht := working_lasts s t hi hr h
  refine ⟨?_, fun a' ha' P hP => ?_⟩
  · exact (ht.called hF hq _ a (P := fun _ => True) fun _ _ => trivial).mono
      (List.sublist_append_left _ _) fun _ h => h
  · cases ha'
    exact ht.called hF hq _ _ hP

/-- operations for the record `r` that change nothing the invariant looks at -/
def Op.works (r : Record) : Op → Prop
  | .device d c q => d = r.device ∧ c = some r.changeId ∧ q.plain
  | .file (.saveOp r') => Alike r r'
  | o => o.harmless

theorem works_of_harmless (op : Op) (h : op.harmless) : op.works r := by
  cases op with
  | device d c q => exact h.elim
  | file op =>
    cases op with
    | saveOp r' => exact h.elim
    | _ => exact h
  | _ => exact h

theorem Working.worksOk (h : Working p r ps F s) {op : Op} (hop : op.works r) :
    OpOk cfg p s op := by
  cases op with
  | device d c q =>
    obtain ⟨rfl, rfl, hq⟩ := hop
    exact h.callOk hq
  | file op =>
    cases op with
    | saveOp r' =>
      have ha : Alike r r' := hop
      exact (h.alike ha).saveOk (.inl rfl)
    | _ => exact ok_of_harmless hop
  | _ => exact ok_of_harmless hop

theorem Working.exec (h : Working p r ps F s) (hi : Inv cfg s) (hF : Framed r.changeId F) {op : Op}
    (hop : op.works r) (a : op.Choice) : Working p r ps F (State.exec p op a s).2 := by
  have hharmless : op.harmless → Working p r ps F (State.exec p op a s).2 :=
    fun hh => working_lasts s _ (hi.exec (ok_of_harmless hh) a) (rely_harmless hh a) h
  cases op with
  | device d c q =>
    obtain ⟨rfl, rfl, hq⟩ := hop
    exact (h.called hF hq _ a (P := fun _ => True) fun _ _ => trivial).mono
      (List.sublist_append_left _ _) fun _ h => h
  | file op =>
    cases op with
    | saveOp r' =>
      have ha : Alike r r' := hop
      have hl : ∀ r₀, (s.view r.device).ops r.changeId = some r₀ → Later r₀ r' :=
        fun r₀ hr₀ => (h.later hr₀).trans ha.later
      cases a with
      | done => exact h.overwritten hF (.inl rfl) ha.earlier hl
      | lost e => exact h.unwritten hF (.inl rfl) ha.device
      | late e => exact h.overwritten hF (.inl rfl) ha.earlier hl
    | _ => exact hharmless hop
  | _ => exact hharmless hop

/-- **Work on a record keeps what is known of it.** -/
theorem conform_work {V : α → Prop} {E : Exn → Prop} {m : Admin α} (h : m.All (Op.works r) V E)
    (hF : Framed r.changeId F) (hs : Working p r ps F s) :
    Conforms cfg p m (fun x t => Working p r ps F t ∧ (∀ a, x = .ok a → V a) ∧
      ∀ e, x = .error e → E e) s := by
  refine Safe.of_all (P := Op.works r) working_lasts (fun t op hop ht hi => ?_) h hs
  exact ⟨ht.worksOk hop, fun a => ht.exec hi hF hop a⟩

end

section
variable {cfg : Config} {p : Pid} {s : State} {α : Type} {r r' : Record}
variable {ps : List (Event → Prop)} {F : View → Prop}

/-- the record is on file as it is worked on -/
def Stored (r : Record) (v : View) : Prop := v.ops r.changeId = some r

/-- a step of a record that may be written -/
theorem conform_step_of (name : StepName) (detail : Option String)
    (h : Working p (r.addStep name detail) ps F s) (hF : Framed r.changeId F) :
    Conforms cfg p (step r name detail) (fun x t => Working p (r.addStep name detail) ps F t ∧
      ∀ r', x = .ok r' → r' = r.addStep name detail ∧
        Working p (r.addStep name detail) ps (fun v => F v ∧ Stored (r.addStep name detail) v) t)
      s := by
  refine Safe.bind (conform_save h hF) (fun _ t ht => ?_) (fun e t ht => ⟨ht.1, fun _ hx => nomatch hx⟩)
  have hw : Working p (r.addStep name detail) ps
      (fun v => F v ∧ Stored (r.addStep name detail) v) t :=
    ⟨ht.1.lock, ht.1.saveable, ht.1.chain, ht.1.frame, ht.2 _ rfl⟩
  have hforget : ∀ t, Working p (r.addStep name detail) ps
      (fun v => F v ∧ Stored (r.addStep name detail) v) t →
      Working p (r.addStep name detail) ps F t := fun t ht =>
    ht.mono (List.Sublist.refl _) fun _ hv => hv.1
  refine Safe.bind (conform_harmless working_lasts (only_host trivial) hw) (fun _ u hu => ?_)
    (fun e u hu => ⟨hforget u hu.1, fun _ hx => nomatch hx⟩)
  refine ⟨hforget u hu.1, fun r' hr' => ?_⟩
  cases hr'
  exact ⟨rfl, hu.1⟩

/-- **The rule for a step.** -/
theorem conform_step (h : Working p r ps F s) (hF : Framed r.changeId F) {name : StepName}
    (hname : name ≠ .confirmStart) (detail : Option String) :
    Conforms cfg p (step r name detail) (fun x t => Working p (r.addStep name detail) ps F t ∧
      ∀ r', x = .ok r' → r' = r.addStep name detail) s :=
  (conform_step_of name detail (h.alike (.addStep hname detail)) hF).mono
    fun _ _ ht => ⟨ht.1, fun r' hr' => (ht.2 r' hr').1⟩

/-! ### updates of a record on file -/

/-- the record on file, read by whoever holds the lock of its device -/
theorem conform_operation (h : Working p r ps F s) :
    Conforms cfg p (Journal.operation (some r.changeId)) (fun x t => Working p r ps F t ∧
      ∀ o, x = .ok o → ∃ r₀, o = some r₀ ∧ r₀.device = r.device) s := by
  refine Safe.bind (P := fun x t => Working p r ps F t ∧ ∀ o, x = .ok o →
    ∃ y, o = some y ∧ y.1.device = r.device) ?_ ?_ ?_
  · refine conform_read working_lasts (.readOp r.changeId) trivial h ?_ ?_
    · intro t u ht _ _ hu _
      obtain ⟨r₀, hr₀, hd₀, -⟩ := ht.stored
      refine ⟨hu, fun o ho => ?_⟩
      cases ho
      exact ⟨(r₀, t.store.revision r.changeId), by simp [Store.read, hr₀], hd₀⟩
    · exact fun e u hu => ⟨hu, fun _ hx => nomatch hx⟩
  · intro o t ht
    obtain ⟨y, rfl, hy⟩ := ht.2 o rfl
    refine ⟨ht.1, fun o' ho' => ?_⟩
    cases ho'
    exact ⟨y.1, rfl, hy⟩
  · exact fun e t ht => ⟨ht.1, fun _ hx => nomatch hx⟩

/-- read, change, write: the change is one the invariant does not see -/
theorem conform_updated (h : Working p r ps F s) (hF : Framed r.changeId F)
    {change : Record → Option Record} (hch : ∀ r₀ r₁, change r₀ = some r₁ → Alike r₀ r₁) :
    Conforms cfg p (Journal.updated r.changeId change) (fun _ t => Working p r ps F t) s := by
  -- what was read is still there when it is written back
  let K (y : Record) : View → Prop := fun v => F v ∧ v.ops r.changeId = some y
  refine Safe.bind (P := fun x t => Working p r ps F t ∧ ∀ o, x = .ok o →
    ∃ y, o = some y ∧ Working p r ps (K y.1) t) ?_ ?_ (fun _ _ ht => ht.1)
  · refine conform_read working_lasts (.readOp r.changeId) trivial h ?_ ?_
    · intro t u ht _ _ hu hstore
      obtain ⟨r₀, hr₀, hd₀, -⟩ := ht.stored
      refine ⟨hu, fun o ho => ?_⟩
      cases ho
      refine ⟨(r₀, t.store.revision r.changeId), by simp [Store.read, hr₀], ?_⟩
      refine ⟨hu.lock, hu.saveable, hu.chain, hu.frame, ?_⟩
      exact Store.deviceOps_eq_some.mpr ⟨hstore ▸ hr₀, hd₀⟩
    · exact fun e u hu => ⟨hu, fun _ hx => nomatch hx⟩
  · intro o t ht
    obtain ⟨⟨r₀, n⟩, rfl, hw⟩ := ht.2 o rfl
    dsimp only
    cases hc : change r₀ with
    | none => exact ht.1
    | some r₁ =>
      have ha := hch r₀ r₁ hc
      refine Safe.bind (P := fun _ t => Working p r ps F t) ?_ (fun written u hu => ?_)
        (fun _ _ hu => hu)
      · refine fun u hr hi => ?_
        have hu := working_lasts t u hi hr hw
        have hu' : Working p r ps F u := hu.mono (List.Sublist.refl _) fun _ hv => hv.1
        obtain ⟨h₀, hd₀⟩ := Store.deviceOps_eq_some.mp hu.frame.2
        have hc₀ := hi.changeId _ r₀ h₀
        have hw₀ : Working p r₀ [] (fun _ => True) u :=
          working_stored hi (hd₀ ▸ hu.lock) h₀ trivial
        refine ⟨(hw₀.alike ha).saveOk (.inr ⟨n, rfl⟩), fun a => ?_⟩
        have hover : ∀ ans, Working p r ps F
            (u.log p (.file (.saveOpIf r₁ n)) ans (u.store.save r₁)) := fun ans => by
          refine hu'.overwritten hF (.inr ⟨n, rfl⟩) (ha.earlier.trans (hu.later hu.frame.2)) ?_
          intro r₂ hr₂
          cases hu.frame.2.symm.trans hr₂
          exact ha.later
        have hun : ∀ ans, Working p r ps F (u.log p (.file (.saveOpIf r₁ n)) ans u.store) :=
          fun ans => hu'.unwritten hF (.inr ⟨n, rfl⟩) (ha.device.trans hd₀)
        have hwrite : ∀ ans, Working p r ps F
            (u.log p (.file (.saveOpIf r₁ n)) ans (u.store.write (.saveOpIf r₁ n))) := fun ans => by
          simp only [Store.write]
          split
          · exact hover ans
          · exact hun ans
        cases a with
        | done => exact hwrite _
        | lost e => exact hun _
        | late e => exact hwrite _
      · unfold raiseIf
        split
        · exact hu
        · exact hu

theorem conform_holds {K : State → Prop} (hK : Lasts cfg p K) {d : String} (hs : K s)
    (hlock : ∀ t, K t → t.locks d = some p) :
    Conforms cfg p (lock (.holdsDevice d)) (fun x t => K t ∧ x = .ok true) s := by
  refine fun t hr hi => ⟨trivial, fun _ => ?_⟩
  have ht := hK s t hi hr hs
  refine ⟨ht, ?_⟩
  simp [hlock t ht]

/-- an update by whoever holds the lock -/
theorem conform_update (h : Working p r ps F s) (hF : Framed r.changeId F)
    {change : Record → Option Record} (hch : ∀ r₀ r₁, change r₀ = some r₁ → Alike r₀ r₁) :
    Conforms cfg p (Journal.update r.changeId change) (fun _ t => Working p r ps F t) s := by
  refine Safe.bind (conform_operation h) (fun o t ht => ?_) (fun _ _ ht => ht.1)
  obtain ⟨r₀, rfl, hd₀⟩ := ht.2 o rfl
  dsimp only
  refine Safe.bind (conform_holds working_lasts ht.1 fun u hu => hd₀ ▸ hu.lock)
    (fun held u hu => ?_) (fun _ _ hu => hu.1)
  obtain ⟨hu, hheld⟩ := hu
  cases hheld
  exact Safe.bind (conform_updated hu hF hch) (fun _ _ hv => hv) (fun _ _ hv => hv)

end

/-! ### locks -/

section
variable {cfg : Config} {p : Pid} {s : State} {α : Type} {Ok : State → Op → Prop} [Permits Ok]

/-- the locks of targets are in nobody's way -/
theorem rely_target (f : String) (a : Option Exn) :
    Rely p s (State.exec p (.lock (.lockTarget f)) a s).2 ∧
      Rely p s (State.exec p (.lock (.unlockTarget f)) a s).2 := by
  simp only [State.exec, State.lockOp]
  constructor
  · split <;> exact .relock rfl rfl rfl (fun _ => Iff.rfl) Iff.rfl
  · split <;> exact .relock rfl rfl rfl (fun _ => Iff.rfl) Iff.rfl

theorem State.lockDevice_ok {d : String} {a : Option Exn} {b : Bool}
    (h : (State.lockOp s p a (.lockDevice d)).1 = .ok b) :
    (State.lockOp s p a (.lockDevice d)).2
      = { s with locks := Function.update s.locks d (some p) } := by
  cases a with
  | some e => cases h
  | none =>
    cases hl : s.locks d with
    | none => simp only [State.lockOp, hl]
    | some q =>
      simp only [State.lockOp, hl] at h
      cases h

theorem State.lockAdmission_ok {a : Option Exn} {b : Bool}
    (h : (State.lockOp s p a .lockAdmission).1 = .ok b) :
    (State.lockOp s p a .lockAdmission).2 = { s with admission := some p } := by
  cases a with
  | some e => cases h
  | none =>
    cases hl : s.admission with
    | none => simp only [State.lockOp, hl]
    | some q =>
      simp only [State.lockOp, hl] at h
      cases h

theorem conform_withTargetLock {K : State → Prop} (hK : Lasts cfg p K) (hs : K s) {dev : Device}
    {body : Admin α} {Q : α → State → Prop} (hQ : ∀ a, Lasts cfg p (Q a))
    (hbody : ∀ t, K t → ConformsTo cfg p Ok body (Returns Q) t) :
    ConformsTo cfg p Ok (withTargetLock dev body) (Returns Q) s := by
  refine Safe.andThen (P := fun _ => K) ?_ fun _ t ht => ?_
  · refine fun t hr hi => ⟨Permits.ok t _ trivial, fun a => Safe.ofExcept ?_⟩
    have hi' := hi.exec (p := p) (o := .lock (.lockTarget dev.hostKeyFingerprint)) trivial a
    exact hK t _ hi' (rely_target _ a).1 (hK s t hi hr hs)
  · refine Safe.finally_ (hbody t ht) fun x u hx => ?_
    refine Safe.bind (P := fun _ => Returns Q x) ?_ (fun _ v hv => hv)
      (fun _ v hv _ ha => nomatch ha)
    refine fun v hr hi => ⟨Permits.ok v _ trivial, fun a => Safe.ofExcept fun y hy => ?_⟩
    have hi' := hi.exec (p := p) (o := .lock (.unlockTarget dev.hostKeyFingerprint)) trivial a
    exact hQ y v _ hi' (rely_target _ a).2 (hQ y u v hi hr (hx y hy))

/-- **The rule for the lock of a device**: what the body leaves behind of the device is there when
the lock is given back. -/
theorem conform_withLock {K : State → Prop} (hK : Lasts cfg p K) (hs : K s) {d : String}
    (hacquire : ∀ t, K t → K { t with locks := Function.update t.locks d (some p) })
    {body : Admin α} {G : α → View → Prop}
    (hbody : ∀ t, K t → Inv cfg t → t.locks d = some p →
      ConformsTo cfg p Ok body (Returns fun a u => u.locks d = some p ∧ G a (u.view d)) t) :
    ConformsTo cfg p Ok (withLock d body) (Returns fun a u => G a (u.view d)) s := by
  refine Safe.andThen (P := fun x t => ∀ b, x = .ok b → K t ∧ Inv cfg t ∧ t.locks d = some p)
    ?_ fun b t ht => ?_
  · refine fun t hr hi => ⟨Permits.ok t _ trivial, fun a => Safe.ofExcept ?_⟩
    have ht := hK s t hi hr hs
    have hi' := hi.exec (p := p) (o := .lock (.lockDevice d)) trivial a
    intro b hb
    refine ⟨?_, hi', ?_⟩
    · show K (State.lockOp t p a (.lockDevice d)).2
      rw [State.lockDevice_ok hb]
      exact hacquire t ht
    · show (State.lockOp t p a (.lockDevice d)).2.locks d = some p
      rw [State.lockDevice_ok hb]
      exact Function.update_self ..
  · obtain ⟨hKt, hi, hlock⟩ := ht b rfl
    refine Safe.finally_ (hbody t hKt hi hlock) fun x u hx => ?_
    refine Safe.bind (P := fun _ => Returns (fun a (u : State) => G a (u.view d)) x) ?_
      (fun _ v hv => hv)
      (fun _ v hv _ ha => nomatch ha)
    refine fun v hr _ => ⟨Permits.ok v _ trivial, fun a => Safe.ofExcept fun y hy => ?_⟩
    obtain ⟨hl, hg⟩ := hx y hy
    rw [← hr.view d hl] at hg
    show G y ((State.lockOp v p a (.unlockDevice d)).2.view d)
    simp only [State.lockOp]
    split <;> exact hg

/-- an update by whoever does not know what it holds: the lock is taken if need be -/
theorem conform_update_any (c : ChangeId) {change : Record → Option Record}
    (hch : ∀ r₀ r₁, change r₀ = some r₁ → Alike r₀ r₁) :
    Conforms cfg p (Journal.update c change) (fun _ _ => True) s := by
  -- a record that was read stays, with its device
  let K (r : Record) : State → Prop := fun t => ∃ r', t.store.ops c = some r' ∧ Later r r'
  have hK : ∀ r, Lasts cfg p (K r) := fun r s t _ hr ⟨r', hr', hl⟩ => by
    obtain ⟨r'', hr'', hl'⟩ := hr.later c r' hr'
    exact ⟨r'', hr'', hl.trans hl'⟩
  have hupdated : ∀ r t, K r t → Inv cfg t → t.locks r.device = some p →
      Conforms cfg p (Journal.updated c change) (fun _ _ => True) t := by
    intro r t ⟨r', hr', hl⟩ hi hlock
    rw [← hi.changeId c r' hr']
    refine (conform_updated (F := fun _ => True) (working_stored hi (hl.device ▸ hlock) hr' trivial)
      (fun _ _ _ _ _ => trivial) hch).mono fun _ _ _ => trivial
  refine Safe.bind (P := fun x t => ∀ o, x = .ok o → ∀ r, o = some r → K r t) ?_ ?_
    (fun _ _ _ => trivial)
  · refine Safe.bind (P := fun x t => ∀ o, x = .ok o → ∀ y, o = some y → K y.1 t) ?_ ?_ ?_
    · refine conform_read (K := fun _ => True) (fun _ _ _ _ _ => trivial) (.readOp c) trivial trivial
        ?_ (fun e u _ o ho => nomatch ho)
      intro t u _ _ _ _ hstore o ho y hy
      cases ho
      simp only [Store.read, Option.map_eq_some_iff] at hy
      obtain ⟨r, hr, rfl⟩ := hy
      exact ⟨r, hstore ▸ hr, .refl r⟩
    · intro o t ht o' ho' r hr
      cases ho'
      obtain ⟨y, hy, rfl⟩ := Option.map_eq_some_iff.mp hr
      exact ht o rfl y hy
    · exact fun e t _ o ho => nomatch ho
  · intro o t ht
    cases o with
    | none => trivial
    | some r =>
      have hKt := ht _ rfl r rfl
      refine Safe.bind (P := fun x u => Inv cfg u ∧ K r u ∧ ∀ b, x = .ok b →
        (b = true → u.locks r.device = some p)) ?_ ?_ (fun _ _ _ => trivial)
      · refine fun u hr hi => ⟨trivial, fun a => ⟨hi, hK r t u hi hr hKt, fun b hb hb' => ?_⟩⟩
        cases hb
        exact of_decide_eq_true hb'
      · intro held u ⟨hi, hKu, hheld⟩
        refine Safe.bind (P := fun _ _ => True) ?_ (fun _ _ _ => trivial) (fun _ _ _ => trivial)
        cases held with
        | true => exact hupdated r u hKu hi (hheld true rfl rfl)
        | false =>
          refine (conform_withLock (hK r) hKu (fun _ h => h) (G := fun _ _ => True)
            fun v hv hi hlock => ?_).mono fun _ _ _ => trivial
          -- `updated` keeps the lock
          obtain ⟨r', hr', hl⟩ := hv
          rw [← hi.changeId c r' hr']
          have hw : Working p r' [] (fun _ => True) v :=
            working_stored hi (hl.device ▸ hlock) hr' trivial
          refine (conform_updated hw (fun _ _ _ _ _ => trivial) hch).mono fun x w hx _ _ => ?_
          exact ⟨hl.device ▸ hx.lock, trivial⟩

end

/-! ### the end of an operation -/

section
variable {cfg : Config} {p : Pid} {s : State} {r r' : Record}
variable {ps : List (Event → Prop)} {F : View → Prop}

theorem conform_noteNotification (h : Working p r ps F s) (hF : Framed r.changeId F)
    (value : Notification) : Conforms cfg p (noteNotification r value)
      (Returns fun r' t => Alike r r' ∧ Working p r' ps F t) s := by
  refine Safe.andThen (conform_update h hF ?_) fun _ t ht => ?_
  · intro r₀ r₁ he
    cases he
    exact { Alike.refl r₀ with }
  · intro r' hr'
    cases hr'
    have ha : Alike r { r with notification := some value } := { Alike.refl r with }
    exact ⟨ha, ht.alike ha⟩

theorem conform_deliverNotification (h : Working p r ps F s) (hF : Framed r.changeId F) :
    Conforms cfg p (deliverNotification r)
      (Returns fun r' t => Alike r r' ∧ Working p r' ps F t) s := by
  refine Safe.andThen (P := Returns fun r' t => Alike r r' ∧ Working p r' ps F t) ?_ fun r₁ t ht => ?_
  · split
    · exact conform_noteNotification h hF _
    · intro r' hr'
      cases hr'
      exact ⟨.refl r, h⟩
  · obtain ⟨ha₁, ht⟩ := ht r₁ rfl
    refine Safe.andThen (conform_harmless working_lasts
      (only_notifierOutcome (fun _ h => h) r₁) ht) fun outcome u hu => ?_
    refine Safe.andThen (conform_noteNotification hu.1 (ha₁.changeId ▸ hF) _) fun r₂ v hv => ?_
    obtain ⟨ha₂, hv⟩ := hv r₂ rfl
    refine Safe.andThen (conform_harmless working_lasts (only_host trivial) hv) fun _ w hw => ?_
    intro r' hr'
    cases hr'
    exact ⟨ha₁.trans ha₂, hw.1⟩

/-- the block of the device is written -/
theorem conform_block (h : Working p r ps F s) (hF : Frame r.changeId F) (reason : String) :
    Conforms cfg p (Journal.block r.device (some r.changeId) reason)
      (Returns fun _ t => Working p r ps (fun v => F v ∧ v.block ≠ none) t) s := by
  refine fun t hr hi => ?_
  have ht := working_lasts s t hi hr h
  have hown : ∀ c, (some r.changeId : Option ChangeId) = some c → (t.view r.device).ops c ≠ none := by
    intro c hc
    cases hc
    obtain ⟨r₀, hr₀, -⟩ := ht.saveable.stored
    rw [hr₀]
    simp
  refine ⟨⟨ht.lock, hown⟩, fun a => Safe.ofExcept fun u hu => ?_⟩
  cases a with
  | lost e => cases hu
  | late e => cases hu
  | done =>
    let b : Block := ⟨r.device, some r.changeId, reason⟩
    let after := t.store.write (.writeBlock r.device b)
    have hv := State.view_log t p (.file (.writeBlock r.device b)) (.ok ()) after r.device
    rw [View.push_of_eq (e := ⟨p, ⟨.file (.writeBlock r.device b), .ok ()⟩, t.store, after⟩) rfl] at hv
    have hm : (t.view r.device).Moved r.changeId
        ((t.log p (.file (.writeBlock r.device b)) (.ok ()) after).view r.device) := by
      rw [hv]
      exact .same (e := ⟨p, ⟨.file (.writeBlock r.device b), .ok ()⟩, t.store, after⟩)
        (fun _ => rfl) rfl rfl
    have hb : ((t.log p (.file (.writeBlock r.device b)) (.ok ()) after).view r.device).block
        ≠ none := by
      rw [hv]
      simp [after, Store.write]
    refine ⟨ht.lock, ht.saveable.moved hm (fun _ _ => hb) ?_, ?_, hF _ _ hm ht.frame, hb⟩
    · show ∃ r₀, ((t.log p (.file (.writeBlock r.device b)) (.ok ()) after).view r.device).ops
        r.changeId = some r₀ ∧ Later r₀ r
      rw [hv]
      exact ht.saveable.stored
    · show InOrder ps ((t.log p (.file (.writeBlock r.device b)) (.ok ()) after).view r.device).trace
      rw [hv]
      exact ht.chain.cons _

/-- the operation `c` is finished on file -/
def Done (c : ChangeId) (v : View) : Prop := ∃ r, v.ops c = some r ∧ r.status = .finished

theorem frame_done (c : ChangeId) : Frame c (Done c) := by
  intro v v' hm ⟨r, hr, hs⟩
  obtain ⟨r', hr', hl⟩ := hm.own r hr
  exact ⟨r', hr', (hl.finished hs).1⟩

theorem Frame.and {c : ChangeId} {G : View → Prop} (hF : Frame c F) (hG : Frame c G) :
    Frame c fun v => F v ∧ G v :=
  fun v v' hm h => ⟨hF v v' hm h.1, hG v v' hm h.2⟩

/-- `r'` is what became of `r` at the end of the operation -/
def Ended (p : Pid) (r : Record) (F : View → Prop) (r' : Record) (t : State) : Prop :=
  Later r r' ∧ Working p r' [] (fun v => F v ∧ Done r.changeId v) t

theorem Ended.of_later {r₁ : Record} {t : State} (hl : Later r r₁) (h : Ended p r₁ F r' t) :
    Ended p r F r' t := by
  obtain ⟨h1, h2⟩ := h
  rw [hl.changeId] at h2
  exact ⟨hl.trans h1, h2⟩

/-- what a record says when it is written as finished -/
theorem finished_ok {d : String} {v : View} {result : Result} {reason : Option Reason}
    {differences : List String} {now : ℚ} {state : ExportState} (h : RecordOk d r v)
    (hearly : reason = some .interruptedBeforeMutation → r.safeguard = none)
    (hconf : result = .confirmed → Confirmed r.change v.trace)
    (hblock : blocks result reason = true → v.block ≠ none) :
    RecordOk d (finished cfg r result reason differences now state) v where
  unsent := h.unsent
  early := hearly
  gates := h.gates
  confirmed hc := hconf (Option.some.inj hc)
  blocked hb := by
    simp only [Record.blocking, finished, Bool.and_eq_true, decide_eq_true_eq] at hb
    exact .inl (hblock hb.2)

theorem finished_later (hrun : r.status = .running) (result : Result) (reason : Option Reason)
    (differences : List String) (now : ℚ) (state : ExportState) :
    Later r (finished cfg r result reason differences now state) where
  change := rfl
  requestId := rfl
  requestSha256 := rfl
  moment := rfl
  weight := rfl
  safeguard := id
  finished hf := by
    rw [hrun] at hf
    cases hf

/-- **The rule for an exit.** -/
theorem conform_finish (h : Working p r ps F s) (hF : Frame r.changeId F)
    (hrun : r.status = .running) (result : Result) (reason : Option Reason)
    (differences : List String)
    (hearly : reason = some .interruptedBeforeMutation → r.safeguard = none)
    (hconf : result = .confirmed → ∀ tr, InOrder ps tr → Confirmed r.change tr) :
    Conforms cfg p (finish cfg r result reason differences) (Returns (Ended p r F)) s := by
  refine Safe.andThen (conform_harmless working_lasts (only_host trivial) h) fun now t ht => ?_
  refine Safe.andThen (conform_harmless working_lasts (only_host trivial) ht.1) fun x u hu => ?_
  obtain ⟨state, why⟩ := x
  let r₁ := finished cfg r result reason differences now state
  have hl : Later r r₁ := finished_later hrun result reason differences now state
  -- the block is written first
  refine Safe.andThen (P := Returns fun _ t => Working p r ps
    (fun v => F v ∧ (blocks result reason = true → v.block ≠ none)) t) ?_ fun _ v hv => ?_
  · unfold doIf
    split
    · refine (conform_block hu.1 hF _).mono fun x t ht a ha => ?_
      exact (ht a ha).mono (List.Sublist.refl _) fun _ h => ⟨h.1, fun _ => h.2⟩
    · next hb => exact fun _ _ => hu.1.mono (List.Sublist.refl _) fun _ h => ⟨h, fun hc => absurd hc hb⟩
  have hv := hv () rfl
  have hw := hv.change hl (finished_ok hv.saveable.ok hearly
    (fun hc => hconf hc _ hv.chain) hv.frame.2)
  have hF' : Framed r.changeId fun v => F v ∧ (blocks result reason = true → v.block ≠ none) :=
    fun v v' hm hb ⟨h1, h2⟩ => ⟨hF v v' hm h1, fun hc => hb ▸ h2 hc⟩
  -- then the record
  refine Safe.andThen (conform_save hw hF') fun _ w hww => ?_
  have hdone : Working p r₁ ps (fun v => F v ∧ Done r.changeId v) w :=
    ⟨hww.1.lock, hww.1.saveable, hww.1.chain, hww.1.frame.1, r₁, hww.2 () rfl, rfl⟩
  have hF'' : Framed r.changeId fun v => F v ∧ Done r.changeId v :=
    (hF.and (frame_done _)).framed
  refine Safe.andThen (conform_harmless working_lasts (only_host trivial) hdone) fun _ z hz => ?_
  split
  · refine (conform_deliverNotification hz.1 hF'').mono fun x t ht r' hr' => ?_
    obtain ⟨ha, ht⟩ := ht r' hr'
    exact ⟨hl.trans ha.later, ht.mono (List.nil_sublist _) fun _ h => h⟩
  · intro r' hr'
    cases hr'
    exact ⟨hl, hz.1.mono (List.nil_sublist _) fun _ h => h⟩

end

end Netops
