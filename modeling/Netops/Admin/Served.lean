import Netops.Admin.Admission

/-!
# Every call keeps to the protocol

What `_prepared` reads of the device and of the journal, and the entry points.

* `conform_prepared`   the device is not blocked when `_prepared` returns;
* `conform_start`      an admitted change is run;
* `conform_prog`       every call conforms, from every state.
-/

namespace Netops
open Effect Prog Execute

/-! ## before there is a record -/

section
variable {cfg : Config} {p : Pid} {s : State} {α : Type} {d : String}

/-- the lock of the device is held and the device is not blocked -/
structure Clear (p : Pid) (d : String) (t : State) : Prop where
  lock : t.locks d = some p
  clear : (t.view d).block = none

theorem clear_lasts (d : String) : Lasts cfg p (Clear p d) := by
  intro s t _ hr h
  exact ⟨(hr.locks d).mpr h.lock, hr.view d h.lock ▸ h.clear⟩

theorem Calm.clear {t : State} (hc : Calm s t) (h : Clear p d s) : Clear p d t :=
  ⟨hc.locks ▸ h.lock, hc.view ▸ h.clear⟩

/-- operations that prepare a change of the device `d` -/
def Op.prepares (d : String) : Op → Prop
  | .device d' c q => d' = d ∧ c = none ∧ q.plain
  | o => o.aside

theorem prepares_of_aside (op : Op) (h : op.aside) : op.prepares d := by
  cases op with
  | device d' c q => exact h.elim
  | _ => exact h

theorem prepares_of_harmless (op : Op) (h : op.harmless) : op.prepares d :=
  prepares_of_aside op (aside_of_harmless op h)

theorem conform_prepare {m : Admin α} (h : m.Only (Op.prepares d)) (hs : Clear p d s) :
    Conforms cfg p m (fun _ t => Clear p d t) s := by
  refine (Safe.of_all (P := Op.prepares d) (clear_lasts d) (fun t op hop ht hi => ?_) h hs).mono
    fun _ _ h => h.1
  have haside : op.aside → OpOk cfg p t op ∧ ∀ a, Clear p d (State.exec p op a t).2 :=
    fun h => ⟨ok_of_aside h, fun a => (calm_exec h a).clear ht⟩
  cases op with
  | device d' c q =>
    obtain ⟨rfl, rfl, hq⟩ := hop
    refine ⟨⟨ht.lock, ?_, ?_, ?_⟩, fun a => ⟨ht.lock, ?_⟩⟩
    · intro _ h
      cases h
    · intro safeguard plan he
      subst he
      exact hq.elim
    · intro lines he
      subst he
      exact hq.elim
    · show ((t.log p (.device d' none q) a t.store).view d').block = none
      rw [State.view_log]
      exact ht.clear
  | _ => exact haside hop

theorem only_budgets (dev : Device) (n : Nat) : Only Op.aside (budgets cfg dev n) := by
  refine Only.bind only_raiseIf fun _ => Only.bind (only_budgetNow trivial) fun now => ?_
  refine Only.bind (Only.bind (only_file trivial) fun _ => trivial) fun refused => ?_
  refine Only.bind only_raiseIf fun _ => Only.bind (only_records aside_of_harmless) fun rs => ?_
  exact Only.bind only_raiseIf fun _ => Only.bind only_raiseIf fun _ => only_raiseIf

/-- the refusals that need no device: a blocked device is refused -/
theorem conform_preparedStore (h : s.locks d = some p) (dev : Device) (hd : dev.name = d) (n : Nat) :
    Conforms cfg p (preparedStore cfg dev n) (Returns fun _ t => Clear p d t) s := by
  subst hd
  have hK : Lasts cfg p fun t => t.locks dev.name = some p :=
    fun s t _ hr h => (hr.locks _).mpr h
  refine Safe.andThen (conform_aside hK (fun s t hc h => hc.locks ▸ h) (only_budgets dev n) h)
    fun _ t ht => ?_
  refine Safe.andThen (P := Returns fun o u => u.locks dev.name = some p ∧
    (u.view dev.name).block = o) ?_ fun o u hu => ?_
  · refine conform_read hK (.readBlock dev.name) trivial ht ?_ (fun e u _ _ ha => nomatch ha)
    intro t u _ _ _ hu hstore o ho
    cases ho
    exact ⟨hu, congrFun (congrArg Store.blocked hstore) dev.name⟩
  · obtain ⟨hlock, hblock⟩ := hu o rfl
    refine conform_raiseIf fun hn => ?_
    have hclear : Clear p dev.name u := ⟨hlock, hblock.trans (by simpa using hn)⟩
    refine Safe.mono (Q := fun _ t => Clear p dev.name t) (conform_prepare ?_ hclear)
      fun _ _ h _ _ => h
    refine Only.bind (only_undelivered prepares_of_harmless _) fun _ => ?_
    refine Only.bind only_raiseIf fun _ => Only.bind (only_running prepares_of_harmless _) fun _ => ?_
    refine Only.bind only_raiseIf fun _ => Only.bind (only_file trivial) fun _ => ?_
    exact only_host trivial

end

section
variable {cfg : Config} {p : Pid} {s : State} {α : Type}

theorem conform_refusing {m : Admin α} {Q : α → State → Prop} {refusal : Exn → String}
    (h : Conforms cfg p m (Returns Q) s) : Conforms cfg p (refusing m refusal) (Returns Q) s := by
  refine Safe.attemptThen h fun x t ht => ?_
  cases x with
  | ok a =>
    intro b hb
    cases hb
    exact ht a rfl
  | error e =>
    dsimp only
    split <;> exact fun _ h => nomatch h

/-- a program that prepares a change, with what follows it -/
theorem conform_prepareThen {β : Type} {d : String} {m : Admin α} {k : α → Admin β}
    {Q : β → State → Prop} (h : m.Only (Op.prepares d)) (hs : Clear p d s)
    (hk : ∀ a t, Clear p d t → Conforms cfg p (k a) (Returns Q) t) :
    Conforms cfg p (m.bind k) (Returns Q) s :=
  Safe.andThen (conform_prepare h hs) fun a t ht => hk a t ht

theorem conform_blockAccounts {d : String} (h : s.locks d = some p) :
    Conforms cfg p (blockAccounts d) (fun _ _ => True) s := by
  refine Safe.bind (P := fun _ _ => True) ?_ (fun _ _ _ => ?_) (fun _ _ _ => trivial)
  · refine fun t hr _ => ⟨⟨(hr.locks d).mpr h, fun _ h => nomatch h⟩, fun a => Safe.ofExcept trivial⟩
  · exact conform_free (only_host trivial)

theorem conform_preparedAccounts (dev : Device) (h : Clear p dev.name s) (baseline : Option String)
    (text : String) (previewing : Bool) :
    Conforms cfg p (preparedAccounts dev baseline text previewing)
      (Returns fun _ t => Clear p dev.name t) s := by
  refine Safe.attemptThen (conform_prepare ?_ h) fun x t ht => ?_
  · refine Only.bind (only_device ⟨rfl, rfl, trivial⟩) fun accounts => ?_
    exact Only.bind only_raiseIf fun _ => trivial
  · cases x with
    | ok accounts => exact fun _ _ => ht
    | error e =>
      refine Safe.andThen (P := fun _ _ => True) ?_ fun _ u _ => fun _ h => nomatch h
      unfold doIf
      split
      · exact conform_blockAccounts ht.lock
      · trivial

theorem conform_preparedDevice (dev : Device) (h : Clear p dev.name s) (request : Request)
    (baseline : Option String) (previewing : Bool) :
    Conforms cfg p (preparedDevice dev request baseline previewing)
      (Returns fun _ t => Clear p dev.name t) s := by
  refine conform_prepareThen (only_device ⟨rfl, rfl, trivial⟩) h fun _ t ht => ?_
  refine conform_prepareThen (only_device ⟨rfl, rfl, trivial⟩) ht fun text u hu => ?_
  refine Safe.andThen (conform_preparedAccounts dev hu baseline text previewing) fun accounts v hv => ?_
  refine Safe.mono (Q := fun _ t => Clear p dev.name t) (conform_prepare ?_ (hv accounts rfl))
    fun _ _ h _ _ => h
  refine Only.bind (only_device ⟨rfl, rfl, trivial⟩) fun _ => Only.bind only_raiseIf fun _ => ?_
  refine Only.bind (only_device ⟨rfl, rfl, trivial⟩) fun _ => ?_
  refine Only.bind (only_device ⟨rfl, rfl, trivial⟩) fun _ => Only.bind only_raiseIf fun _ => ?_
  exact Only.bind (only_device ⟨rfl, rfl, trivial⟩) fun _ => trivial

theorem only_refusing {P : Op → Prop} {m : Admin α} {refusal : Exn → String} (h : Only P m) :
    Only P (refusing m refusal) := by
  refine Only.bind (Only.attempt h) fun x => ?_
  cases x with
  | ok a => trivial
  | error e =>
    dsimp only
    split <;> trivial

theorem only_requireEnrollment (dev : Device) (accounts : String) (firmware : Option String) :
    Only Op.harmless (requireEnrollment dev accounts firmware) := by
  refine Only.bind (only_file trivial) fun o => ?_
  cases o with
  | none => trivial
  | some certificate => exact Only.bind (only_host trivial) fun _ => only_raiseIf

theorem only_preparedEnrollment (dev : Device) (accounts : String) (plan : Plan)
    (enrolling previewing : Bool) (exported : ExportState) :
    Only Op.harmless (preparedEnrollment cfg dev accounts plan enrolling previewing exported) := by
  unfold preparedEnrollment
  split
  · refine Only.bind (Only.attempt (only_requireEnrollment dev accounts _)) fun x => ?_
    cases x with
    | ok _ => trivial
    | error e =>
      dsimp only
      split <;> trivial
  · split
    · exact Only.bind (only_requireEnrollment dev accounts _) fun _ => trivial
    · split <;> trivial

theorem only_preparedAudit (plan : Plan) (text : String) :
    Only Op.harmless (preparedAudit plan text) := by
  refine only_refusing (Only.bind (only_host trivial) fun x => ?_)
  obtain ⟨before, predicted⟩ := x
  exact Only.bind only_raiseIf fun _ => trivial

theorem only_preparedObserved (dev : Device) (plan : Plan) :
    Only (Op.prepares dev.name) (preparedObserved dev plan) := by
  refine Only.bind (Only.attempt (only_device ⟨rfl, rfl, trivial⟩)) fun x => ?_
  cases x with
  | error e =>
    dsimp only
    split <;> trivial
  | ok seen => exact only_raiseIf

theorem Only.weaken {P P' : Op → Prop} {m : Admin α} (h : Only P m) (hP : ∀ op, P op → P' op) :
    Only P' m := h.mono hP (fun _ h => h) fun _ h => h

/-- **A change that is prepared is of a device that is not blocked.** -/
theorem conform_prepared (dev : Device) (h : s.locks dev.name = some p) (request : Request)
    (expected : Option (Option Attrs)) (enrolling previewing undo : Bool) :
    Conforms cfg p (prepared cfg dev request expected enrolling previewing undo)
      (Returns fun _ t => Clear p dev.name t) s := by
  refine Safe.andThen (conform_preparedStore h dev rfl _) fun _ t ht => ?_
  refine conform_prepareThen (only_host trivial) (ht () rfl) fun x u hu => ?_
  obtain ⟨exported, why⟩ := x
  refine conform_raiseIf fun _ => ?_
  refine conform_prepareThen (only_file trivial) hu fun baseline v hv => ?_
  refine Safe.andThen (conform_refusing (conform_preparedDevice dev hv request baseline previewing))
    fun seen w hw => ?_
  refine Safe.mono (Q := fun _ t => Clear p dev.name t) (conform_prepare ?_ (hw seen rfl))
    fun _ _ h _ _ => h
  refine Only.bind (only_host trivial) fun plan => ?_
  refine Only.bind (only_refusing (only_device ⟨rfl, rfl, trivial⟩)) fun reasons => ?_
  refine Only.bind only_raiseIf fun _ => ?_
  refine Only.bind (Only.weaken (only_preparedEnrollment dev _ _ _ _ _) prepares_of_harmless)
    fun missing => ?_
  refine Only.bind only_raiseIf fun _ => Only.bind only_raiseIf fun _ => ?_
  refine Only.bind (Only.weaken (only_preparedAudit _ _) prepares_of_harmless) fun auditBefore => ?_
  exact Only.bind (only_preparedObserved dev _) fun _ => trivial

end

/-! ## an admitted change -/

theorem only_known (dev : Device) (request : Request) : Only Op.harmless (known dev request) := by
  refine Only.bind (only_file trivial) fun o => ?_
  cases o with
  | none =>
    refine Only.bind (only_records fun _ h => h) fun rs => ?_
    exact Only.bind only_raiseIf fun _ => trivial
  | some entry =>
    dsimp only
    split
    · trivial
    · refine Only.bind (only_operation (fun _ h => h) _) fun o => ?_
      cases o <;> trivial

section
variable {cfg : Config} {p : Pid} {s : State} {r : Record}

theorem conform_noteSessions {F : View → Prop} (h : Working p r [] F s)
    (hF : Framed r.changeId F) :
    Conforms cfg p (noteSessions r) (Returns fun r' t => Alike r r' ∧ Working p r' [] F t) s := by
  refine Safe.attemptThen (conform_call h hF (by trivial)) fun x t ht => ?_
  have hstep : ∀ (sessions : Option Nat) (name : StepName) (detail : Option String),
      name ≠ .confirmStart → Conforms cfg p
        (step { r with foreignSessions := sessions } name detail)
        (Returns fun r' t => Alike r r' ∧ Working p r' [] F t) t := by
    intro sessions name detail hname
    have ha : Alike r { r with foreignSessions := sessions } := { Alike.refl r with }
    refine (conform_step (ht.1.alike ha) hF hname detail).mono fun x u hu r' hr' => ?_
    rw [hu.2 r' hr']
    exact ⟨ha.trans (.addStep hname detail), hu.1⟩
  cases x with
  | error e => exact hstep _ _ _ (by simp)
  | ok n => exact hstep _ _ _ (by simp)

/-- the certificate of an enrollment -/
theorem conform_complete {F : View → Prop} (h : Working p r [] F s) (hF : Frame r.changeId F)
    (dev : Device) (hd : r.device = dev.name) :
    Conforms cfg p (complete dev r) (fun _ _ => True) s := by
  unfold complete
  split
  · trivial
  split
  · trivial
  have hverify : Only (Op.works r) (enrollmentVerified r) := by
    refine Only.bind (only_device ⟨rfl, rfl, trivial⟩) fun text => ?_
    refine Only.bind (only_device ⟨rfl, rfl, trivial⟩) fun _ => Only.bind only_raiseIf fun _ => ?_
    refine Only.bind (only_device ⟨rfl, rfl, trivial⟩) fun _ => Only.bind only_raiseIf fun _ => ?_
    refine Only.bind (only_device ⟨rfl, rfl, trivial⟩) fun _ => Only.bind only_raiseIf fun _ => ?_
    refine Only.bind (only_device ⟨rfl, rfl, trivial⟩) fun _ => Only.bind only_raiseIf fun _ => ?_
    trivial
  refine Safe.attemptThen (conform_work hverify hF.framed h) fun x t ht => ?_
  obtain ⟨ht, -⟩ := ht
  cases x with
  | error e =>
    rw [← hd]
    exact Safe.bind (conform_block ht hF _) (fun _ _ _ => trivial) (fun _ _ _ => trivial)
  | ok accounts =>
    refine Safe.bind (conform_harmless working_lasts (only_host trivial) ht) (fun binding u hu => ?_)
      (fun _ _ _ => trivial)
    refine Safe.bind (conform_aside working_lasts (fun _ _ hc h => hc.working h)
      (only_file trivial) hu.1) (fun _ v hv => ?_) (fun _ _ _ => trivial)
    have ha : Alike r { r with enrollmentValid := true } := { Alike.refl r with }
    refine Safe.bind (conform_save (hv.alike ha) hF.framed) (fun _ w hw => ?_)
      (fun _ _ _ => trivial)
    exact conform_free (Only.bind (only_host trivial) fun _ => trivial)

/-- **An admitted change is run.** -/
theorem conform_start (h : Working p r [] (Fresh r.changeId) s) (hrun : r.status = .running)
    (hreason : r.reason = none) (ad : Adapter) (dev : Device) (hd : r.device = dev.name)
    (request : Request) (enrolling : Bool) :
    Conforms cfg p (start cfg ad dev request r enrolling) (fun _ _ => True) s := by
  refine Safe.bind (conform_harmless working_lasts (only_host trivial) h) (fun _ t ht => ?_)
    (fun _ _ _ => trivial)
  refine Safe.bind (conform_noteSessions ht.1 (framed_fresh _)) (fun r₁ u hu => ?_)
    (fun _ _ _ => trivial)
  obtain ⟨ha, hu⟩ := hu r₁ rfl
  rw [← ha.changeId] at hu
  have hrun₁ : r₁.status = .running := ha.status.trans hrun
  have hreason₁ : r₁.reason = none := ha.reason.trans hreason
  have hne : r₁.reason ≠ some .interruptedBeforeMutation := by
    rw [hreason₁]
    simp
  split
  · refine Safe.bind (conform_harmless working_lasts (only_notifierOutcome (fun _ h => h) r₁) hu)
      (fun delivered v hv => ?_) (fun _ _ _ => trivial)
    split
    · have hw : Working p r₁ [] (fun _ => True) v :=
        hv.1.mono (List.nil_sublist _) fun _ _ => trivial
      exact (conform_exit hw (frame_true _) hrun₁ (by simp) (by simp) _).mono fun _ _ _ => trivial
    · refine Safe.bind (conform_step hv.1 (framed_fresh _) (by simp) _) (fun r₂ w hw => ?_)
        (fun _ _ _ => trivial)
      obtain rfl := hw.2 r₂ rfl
      refine Safe.bind (conform_aside working_lasts (fun _ _ hc h => hc.working h)
        (only_file trivial) hw.1) (fun _ x hx => ?_) (fun _ _ _ => trivial)
      refine Safe.bind (conform_execute hx hrun₁ hne ad dev) (fun r₃ y hy => ?_)
        (fun _ _ _ => trivial)
      obtain ⟨hl, hy⟩ := hy r₃ rfl
      have hF : Frame r₃.changeId fun v => True ∧ Done r₁.changeId v :=
        (frame_true _).and (hl.changeId ▸ frame_done _)
      exact conform_complete hy hF dev (hl.device.trans (ha.device.trans hd))
  · exact (conform_execute hu hrun₁ hne ad dev).mono fun _ _ _ => trivial

theorem newRecord_started (dev : Device) (request : Request) (pr : Prepared) (enrolling : Bool)
    (c : ChangeId) (created budgetAt : ℚ) :
    Started (newRecord dev request pr enrolling c created budgetAt) :=
  ⟨rfl, rfl, rfl, rfl, rfl⟩

/-- the token is nobody's yet, and there is no record of that name -/
theorem conform_tokenHex {d : String} (h : Clear p d s) :
    Conforms cfg p tokenHex (Returns fun c t => Entering p d c t) s := by
  refine fun t hr hi => ⟨trivial, fun n c hc => ?_⟩
  cases hc
  have ht := clear_lasts d s t hi hr h
  refine ⟨ht.lock, ht.clear, Function.update_self .., ?_⟩
  by_contra hn
  exact t.freshToken_not_mem n (hi.drawn _ (hi.token _ hn))

theorem conform_applyLocked (ad : Adapter) (dev : Device) (h : s.locks dev.name = some p)
    (request : Request) (expected : Option (Option Attrs)) (enrolling undo : Bool) :
    Conforms cfg p (applyLocked cfg ad dev request expected enrolling undo) (fun _ _ => True) s := by
  have hK : Lasts cfg p fun t => t.locks dev.name = some p := fun s t _ hr h => (hr.locks _).mpr h
  refine Safe.bind (conform_harmless hK (only_known dev request) h) (fun o t ht => ?_)
    (fun _ _ _ => trivial)
  cases o with
  | some found => trivial
  | none =>
    refine Safe.bind (conform_prepared dev ht.1 request expected enrolling false undo)
      (fun pr u hu => ?_) (fun _ _ _ => trivial)
    refine Safe.bind (conform_tokenHex (hu pr rfl)) (fun c v hv => ?_) (fun _ _ _ => trivial)
    refine Safe.bind (conform_harmless (entering_lasts _ _) (only_host trivial) (hv c rfl))
      (fun created w hw => ?_) (fun _ _ _ => trivial)
    refine Safe.bind (conform_aside (entering_lasts _ _) (fun _ _ hc h => hc.entering h)
      (only_budgetNow trivial) hw.1) (fun budgetAt x hx => ?_) (fun _ _ _ => trivial)
    refine Safe.bind (conform_admitRecord (newRecord_started dev request pr enrolling c created budgetAt)
      dev request rfl rfl rfl hx) (fun o y hy => ?_) (fun _ _ _ => trivial)
    cases o with
    | some found => trivial
    | none => exact conform_start (hy none rfl rfl) rfl rfl ad dev rfl request enrolling

end

/-! ## the entry points -/

section
variable {cfg : Config} {p : Pid} {s : State} {α : Type} {Ok : State → Op → Prop} [Permits Ok]

theorem conform_any {m : Admin α} (h : m.Only Op.free) :
    ConformsTo cfg p Ok m (fun _ _ => True) s :=
  (Safe.of_all (P := Op.free) (K := fun _ => True) (fun _ _ _ _ _ => trivial)
    (fun t op hop _ _ => ⟨Permits.ok t op hop, fun _ => trivial⟩) h trivial).mono fun _ _ _ => trivial

/-- a body that conforms, whatever it leaves behind -/
theorem conform_withLock_any {d : String} {K : State → Prop} (hK : Lasts cfg p K) (hs : K s)
    (hacquire : ∀ t, K t → K { t with locks := Function.update t.locks d (some p) })
    {body : Admin α} (hbody : ∀ t, K t → Inv cfg t → t.locks d = some p →
      ConformsTo cfg p Ok body (fun _ _ => True) t) :
    ConformsTo cfg p Ok (withLock d body) (fun _ _ => True) s := by
  refine Safe.bind (P := Returns fun _ t => K t ∧ Inv cfg t ∧ t.locks d = some p) ?_ (fun b t ht => ?_)
    (fun _ _ _ => trivial)
  · refine fun t hr hi => ⟨Permits.ok t _ trivial, fun a => Safe.ofExcept fun b hb => ?_⟩
    have hi' := hi.exec (p := p) (o := .lock (.lockDevice d)) trivial a
    have heq := State.lockDevice_ok hb
    refine ⟨?_, hi', ?_⟩
    · show K (State.lockOp t p a (.lockDevice d)).2
      rw [heq]
      exact hacquire t (hK s t hi hr hs)
    · show (State.lockOp t p a (.lockDevice d)).2.locks d = some p
      rw [heq]
      exact Function.update_self ..
  · obtain ⟨hKt, hi, hlock⟩ := ht b rfl
    refine Safe.finally_ (hbody t hKt hi hlock) fun x u _ => ?_
    refine Safe.mono (Q := fun _ _ => True) ?_ fun x u _ => by cases x <;> trivial
    exact Safe.bind (P := fun _ _ => True) (fun v _ _ => ⟨Permits.ok v _ trivial, fun a => Safe.ofExcept trivial⟩)
      (fun _ _ _ => trivial) (fun _ _ _ => trivial)

theorem conform_withTargetLock_any {K : State → Prop} (hK : Lasts cfg p K) (hs : K s) {dev : Device}
    {body : Admin α} (hbody : ∀ t, K t → ConformsTo cfg p Ok body (fun _ _ => True) t) :
    ConformsTo cfg p Ok (withTargetLock dev body) (fun _ _ => True) s :=
  (conform_withTargetLock (Q := fun _ _ => True) hK hs (fun _ _ _ _ _ _ => trivial)
    fun t ht => (hbody t ht).mono fun _ _ _ _ _ => trivial).mono fun _ _ _ => trivial

theorem only_countRejection : Only Op.free countRejection := by
  refine Only.bind (Only.attempt ?_) fun x => ?_
  · exact Only.bind (only_budgetNow trivial) fun now => only_file trivial
  · cases x with
    | ok _ => trivial
    | error e =>
      dsimp only
      split <;> trivial

theorem conform_counting {m : Admin α} (h : ConformsTo cfg p Ok m (fun _ _ => True) s) :
    ConformsTo cfg p Ok (counting m) (fun _ _ => True) s := by
  refine Safe.attemptThen h fun x t _ => ?_
  cases x with
  | ok a => trivial
  | error e =>
    exact Safe.bind (P := fun _ _ => True) (conform_any (only_doIf only_countRejection))
      (fun _ _ _ => trivial) (fun _ _ _ => trivial)

/-- the locks of a device, as every change takes them -/
theorem conform_locked (dev : Device) {body : Admin α}
    (h : ∀ t, t.locks dev.name = some p → ConformsTo cfg p Ok body (fun _ _ => True) t) :
    ConformsTo cfg p Ok (withLock dev.name (withTargetLock dev body)) (fun _ _ => True) s :=
  conform_withLock_any (K := fun _ => True) (fun _ _ _ _ _ => trivial) trivial (fun _ _ => trivial)
    fun _ _ _ hlock => conform_withTargetLock_any (fun _ _ _ hr h => (hr.locks _).mpr h) hlock h

omit [Permits Ok] in
theorem conform_ofExcept {β : Type} {x : Except Exn α} {k : α → Admin β}
    (h : ∀ a, ConformsTo cfg p Ok (k a) (fun _ _ => True) s) :
    ConformsTo cfg p Ok ((Prog.ofExcept x).bind k) (fun _ _ => True) s := by
  cases x with
  | ok a => exact h a
  | error e => trivial

theorem conform_apply (d : String) (request : Request) (expected : Option (Option Attrs))
    (enrolling undo : Bool) :
    Conforms cfg p (apply cfg d request expected enrolling undo) (fun _ _ => True) s := by
  refine conform_ofExcept fun dev => conform_ofExcept fun _ => conform_ofExcept fun ad => ?_
  exact conform_locked dev fun t ht =>
    conform_applyLocked ad dev ht request expected enrolling undo

theorem conform_preview (d : String) (request : Request) :
    Conforms cfg p (preview cfg d request) (fun _ _ => True) s := by
  refine Safe.bind (P := fun _ _ => True) (conform_counting ?_) (fun x t _ => ?_)
    (fun _ _ _ => trivial)
  · refine conform_ofExcept fun dev => conform_ofExcept fun _ => conform_ofExcept fun ad => ?_
    refine conform_locked dev fun t ht => ?_
    refine Safe.attemptThen (P := fun _ _ => True) ?_ fun x u _ => ?_
    · have hK : Lasts cfg p fun t => t.locks dev.name = some p :=
        fun s t _ hr h => (hr.locks _).mpr h
      refine Safe.bind (conform_harmless hK (only_known dev request) ht) (fun o u hu => ?_)
        (fun _ _ _ => trivial)
      cases o with
      | some found => trivial
      | none =>
        exact Safe.bind (conform_prepared dev hu.1 request none false true false)
          (fun _ _ _ => trivial) (fun _ _ _ => trivial)
    · obtain e | (found | pr) := x
      · dsimp only
        split <;> trivial
      · trivial
      · dsimp only
        split <;> trivial
  · obtain ⟨result, refused⟩ := x
    exact Safe.bind (P := fun _ _ => True) (conform_any (only_doIf only_countRejection))
      (fun _ _ _ => trivial) (fun _ _ _ => trivial)

end

section
variable {cfg : Config} {p : Pid} {s : State}

theorem conform_applyCounted (d : String) (request : Request) (expected : Option (Option Attrs))
    (undo : Bool) : Conforms cfg p (applyCounted cfg d request expected undo) (fun _ _ => True) s :=
  conform_counting (conform_apply d request expected false undo)

theorem only_undoRequest (original : Option Record) (reason : String) :
    Only Op.harmless (undoRequest original reason) := by
  unfold undoRequest
  split
  · trivial
  · split
    · trivial
    · refine Only.bind (only_host trivial) fun _ => Only.bind only_raiseIf fun _ => ?_
      dsimp only
      split
      · refine Only.bind (only_host trivial) fun x => ?_
        exact Only.bind (only_host trivial) fun _ => trivial
      · refine Only.bind (only_host trivial) fun x => ?_
        exact Only.bind (only_host trivial) fun _ => trivial

theorem conform_undo (c : Option ChangeId) (reason : String) :
    Conforms cfg p (undo cfg c reason) (fun _ _ => True) s := by
  refine Safe.bind (P := fun _ _ => True) (conform_free ?_) (fun original t _ => ?_)
    (fun _ _ _ => trivial)
  · exact only_operation aside_of_harmless c
  refine Safe.bind (P := fun _ _ => True) (conform_free ?_) (fun _ u _ => ?_) (fun _ _ _ => trivial)
  · unfold checkOriginal
    split
    · trivial
    · exact only_doIf (Only.weaken only_storedPlan aside_of_harmless)
  refine Safe.bind (P := fun _ _ => True)
    (conform_free (Only.weaken (only_undoRequest original reason) aside_of_harmless)) (fun x v _ => ?_)
    (fun _ _ _ => trivial)
  obtain ⟨request, expected⟩ := x
  refine Safe.attemptThen (conform_applyCounted _ request (some expected) true) fun x w _ => ?_
  cases x with
  | ok r => trivial
  | error e =>
    dsimp only
    split <;> trivial

theorem conform_enroll (d probe : String) :
    Conforms cfg p (enroll cfg d probe) (fun _ _ => True) s := by
  unfold enroll
  split
  · trivial
  · exact Safe.bind (P := fun _ _ => True) (conform_free (only_host trivial))
      (fun request t _ => conform_apply d request none true false) (fun _ _ _ => trivial)

theorem conform_notifyRetry (c : Option ChangeId) :
    Conforms cfg p (notifyRetry cfg c) (fun _ _ => True) s := by
  refine Safe.bind (P := fun _ _ => True) (conform_free (only_host trivial)) (fun _ t _ => ?_)
    (fun _ _ _ => trivial)
  cases c with
  | none => trivial
  | some c =>
    -- the record that was read stays, with its device
    let K (r : Record) : State → Prop := fun t => ∃ r', t.store.ops c = some r' ∧ Later r r'
    have hK : ∀ r, Lasts cfg p (K r) := fun r s t _ hr ⟨r', hr', hl⟩ => by
      obtain ⟨r'', hr'', hl'⟩ := hr.later c r' hr'
      exact ⟨r'', hr'', hl.trans hl'⟩
    refine Safe.bind (P := Returns fun o t => ∀ r, o = some r → K r t) ?_ (fun o u hu => ?_)
      (fun _ _ _ => trivial)
    · refine Safe.andThen (P := Returns fun o t => ∀ y, o = some y → K y.1 t) ?_ fun o t ht => ?_
      · refine conform_read (K := fun _ => True) (fun _ _ _ _ _ => trivial) (.readOp c) trivial trivial
          ?_ (fun e u _ _ ha => nomatch ha)
        intro t u _ _ _ _ hstore o ho y hy
        cases ho
        simp only [Store.read, Option.map_eq_some_iff] at hy
        obtain ⟨r, hr, rfl⟩ := hy
        exact ⟨r, hstore ▸ hr, .refl r⟩
      · intro o' ho' r hr
        cases ho'
        obtain ⟨y, hy, rfl⟩ := Option.map_eq_some_iff.mp hr
        exact ht o rfl y hy
    · cases o with
      | none => trivial
      | some r =>
        have hKu := hu (some r) rfl r rfl
        dsimp only
        split
        · trivial
        split
        · trivial
        refine conform_withLock_any (hK r) hKu (fun _ h => h) fun v hv hi hlock => ?_
        obtain ⟨r₁, hr₁, hl⟩ := hv
        have hops : (v.view r.device).ops c ≠ none :=
          Store.deviceOps_ne_none.mpr ⟨r₁, hr₁, hl.device⟩
        refine Safe.bind (conform_readHeld hlock hops) (fun o w hw => ?_) (fun _ _ _ => trivial)
        obtain ⟨r₂, rfl, -, hw⟩ := hw o rfl
        dsimp only
        split
        · have hw : Working p r₂ [] (fun _ => True) w := hw.mono (List.nil_sublist _) fun _ _ => trivial
          exact (conform_deliverNotification hw (frame_true _).framed).mono fun _ _ _ => trivial
        · trivial

theorem acknowledge_alike {finishedAt : Option ℚ} {r r' : Record}
    (h : acknowledge finishedAt r = some r') : Alike r r' := by
  unfold acknowledge at h
  split at h
  · cases h
  · cases h
    exact { Alike.refl r with }

theorem waive_alike {r r' : Record} (h : waive r = some r') : Alike r r' := by
  unfold waive at h
  split at h
  · cases h
    exact { Alike.refl r with }
  · cases h

theorem conform_refreshDelivery (r : Record) :
    Conforms cfg p (refreshDelivery r) (fun _ _ => True) s := by
  unfold refreshDelivery
  split
  · trivial
  refine Safe.bind (P := fun _ _ => True) (conform_free (only_host trivial)) (fun x t _ => ?_)
    (fun _ _ _ => trivial)
  obtain ⟨state, why⟩ := x
  refine Safe.bind (P := fun _ _ => True) (conform_free (only_host trivial)) (fun statusTime u _ => ?_)
    (fun _ _ _ => trivial)
  split
  · refine Safe.attemptThen (conform_update_any r.changeId fun _ _ h => acknowledge_alike h)
      fun x v _ => ?_
    obtain e | (_ | ⟨saved, acknowledged⟩) := x
    · cases e with
      | stateUnreadable reasons => trivial
      | _ =>
        dsimp only
        split <;> trivial
    · trivial
    · exact conform_free (Only.bind (only_doIf (only_host trivial)) fun _ => trivial)
  · trivial

theorem conform_status (c : Option ChangeId) :
    Conforms cfg p (status c) (fun _ _ => True) s := by
  refine Safe.bind (P := fun _ _ => True) (conform_free (only_operation aside_of_harmless c))
    (fun o t _ => ?_) (fun _ _ _ => trivial)
  cases o with
  | none => trivial
  | some r =>
    exact Safe.bind (conform_refreshDelivery r) (fun _ _ _ => trivial) (fun _ _ _ => trivial)

theorem conform_waiveAll (d reason : String) (cs : List ChangeId) :
    Conforms cfg p (waiveAll d reason cs) (fun _ _ => True) s := by
  induction cs generalizing s with
  | nil => trivial
  | cons c cs ih =>
    refine Safe.bind (P := fun _ _ => True) ?_ (fun done t _ => ?_) (fun _ _ _ => trivial)
    · exact Safe.bind (conform_update_any c fun _ _ h => waive_alike h) (fun _ _ _ => trivial)
        (fun _ _ _ => trivial)
    refine Safe.bind (P := fun _ _ => True) (conform_free (only_doIf (only_host trivial)))
      (fun _ u _ => ?_) (fun _ _ _ => trivial)
    exact Safe.bind ih (fun _ _ _ => trivial) (fun _ _ _ => trivial)

theorem conform_liftBlock {d : String} (h : s.locks d = some p) (reason : String) :
    Conforms cfg p (liftBlock d reason) (fun _ _ => True) s := by
  have hK : Lasts cfg p fun t => t.locks d = some p := fun s t _ hr h => (hr.locks _).mpr h
  refine Safe.bind (conform_harmless hK (only_file trivial) h) (fun o t ht => ?_)
    (fun _ _ _ => trivial)
  cases o with
  | none => trivial
  | some b =>
    refine Safe.bind (P := fun _ _ => True) ?_ (fun removed u _ => ?_) (fun _ _ _ => trivial)
    · refine Safe.bind (P := fun _ _ => True) ?_ (fun x u _ => ?_) (fun _ _ _ => trivial)
      · exact fun u hr _ => ⟨(hr.locks d).mpr ht.1, fun a => Safe.ofExcept trivial⟩
      · cases x <;> trivial
    · split
      · refine conform_free (Only.bind (only_file trivial) fun _ => ?_)
        exact Only.bind (only_host trivial) fun _ => trivial
      · trivial

theorem conform_unblock (d reason : String) :
    Conforms cfg p (unblock cfg d reason) (fun _ _ => True) s := by
  refine Safe.bind (P := fun _ _ => True) (conform_free only_raiseIf) (fun _ t _ => ?_)
    (fun _ _ _ => trivial)
  refine Safe.bind (P := fun _ _ => True) (conform_free (only_host trivial)) (fun _ u _ => ?_)
    (fun _ _ _ => trivial)
  refine conform_withLock_any (K := fun _ => True) (fun _ _ _ _ _ => trivial) trivial (fun _ _ => trivial)
    fun v _ _ hlock => ?_
  refine Safe.bind (conform_liftBlock hlock reason) (fun removed w _ => ?_) (fun _ _ _ => trivial)
  refine Safe.bind (P := fun _ _ => True) (conform_free (only_undelivered aside_of_harmless d))
    (fun cs x _ => ?_) (fun _ _ _ => trivial)
  exact Safe.bind (conform_waiveAll d reason cs) (fun _ _ _ => trivial) (fun _ _ _ => trivial)

/-- **Every call keeps to the protocol**, from every state and whatever the others do. -/
theorem conform_prog (cfg : Config) (p : Pid) (s : State) (c : Call) :
    Conforms cfg p (c.prog cfg) (fun _ _ => True) s := by
  have hret : ∀ {α : Type} {m : Admin α} {f : α → Answer}, Conforms cfg p m (fun _ _ => True) s →
      Conforms cfg p (m.bind fun a => (.ret (f a) : Admin Answer)) (fun _ _ => True) s :=
    fun h => Safe.bind h (fun _ _ _ => trivial) (fun _ _ _ => trivial)
  cases c with
  | apply d request => exact hret (conform_applyCounted d request none false)
  | undo c reason => exact hret (conform_undo c reason)
  | preview d request => exact hret (conform_preview d request)
  | recover d => exact hret ((conform_recover d).mono fun _ _ _ => trivial)
  | notifyRetry c => exact hret (conform_notifyRetry c)
  | status c => exact hret (conform_status c)
  | unblock d reason => exact hret (conform_unblock d reason)
  | enroll d probe => exact hret (conform_enroll d probe)

end

end Netops
