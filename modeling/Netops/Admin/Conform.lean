import Netops.Admin.Work

/-!
# The change keeps to the protocol

`_execute`, piece by piece from the last one back.  Each piece is given the checks that were passed
before it and ends in an exit (`Ended`); `removeAndCheck` is the only one that confirms, with all of
`gates` behind it.
-/

namespace Netops
open Effect Prog Execute

section
variable {cfg : Config} {p : Pid} {s : State} {r r' : Record}
variable {ps : List (Event → Prop)} {F : View → Prop}

theorem Record.later_addStep (r : Record) (name : StepName) (detail : Option String) :
    Later r (r.addStep name detail) :=
  ⟨rfl, rfl, rfl, rfl, rfl, id, fun h => ⟨h, rfl, rfl, rfl⟩⟩

/-- a step, and on to the exit -/
theorem conform_stepThen (h : Working p r ps F s) (hF : Frame r.changeId F) {name : StepName}
    (hname : name ≠ .confirmStart) (detail : Option String) {k : Record → Admin Record}
    (hk : ∀ t, Working p (r.addStep name detail) ps F t →
      Conforms cfg p (k (r.addStep name detail)) (Returns (Ended p (r.addStep name detail) F)) t) :
    Conforms cfg p ((step r name detail).bind k) (Returns (Ended p r F)) s := by
  refine Safe.andThen (conform_step h hF.framed hname detail) fun r₁ t ht => ?_
  obtain rfl := ht.2 r₁ rfl
  refine (hk t ht.1).mono fun x u hx r' hr' => ?_
  exact (hx r' hr').of_later (r.later_addStep name detail)

/-- an exit that does not confirm -/
theorem conform_exit (h : Working p r ps F s) (hF : Frame r.changeId F) (hrun : r.status = .running)
    {result : Result} (hresult : result ≠ .confirmed) {reason : Option Reason}
    (hreason : reason ≠ some .interruptedBeforeMutation) (differences : List String) :
    Conforms cfg p (finish cfg r result reason differences) (Returns (Ended p r F)) s :=
  conform_finish h hF hrun result reason differences (fun hc => absurd hc hreason)
    (fun hc => absurd hc hresult)

/-! ## settling -/

theorem all_persist (r : Record) :
    (persist r).All (Op.works r) (fun x => Alike r x.2) (fun _ => True) := by
  refine All.bind (V := fun _ => True) (Only.attempt (only_device ⟨rfl, rfl, trivial⟩)) fun x _ => ?_
  have hstep : ∀ name detail b, name ≠ .confirmStart →
      ((step r name detail).bind fun r' => (.ret (b, r') : Admin (Bool × Record))).All (Op.works r)
        (fun x => Alike r x.2) (fun _ => True) := fun name detail b hname =>
    All.bind (all_step works_of_harmless r name detail (Alike.addStep hname detail)) fun r' hr' => by
      subst hr'
      exact Alike.addStep hname detail
  cases x with
  | error e => exact hstep _ _ _ (fun h => nomatch h)
  | ok saved =>
    cases saved with
    | true => exact hstep _ _ _ (fun h => nomatch h)
    | false => exact Alike.refl r

/-- saving the configuration, and on to the exit -/
theorem conform_persistThen (h : Working p r ps F s) (hF : Frame r.changeId F)
    {k : Bool × Record → Admin Record}
    (hk : ∀ b r₁ t, Alike r r₁ → Working p r₁ ps F t →
      Conforms cfg p (k (b, r₁)) (Returns (Ended p r₁ F)) t) :
    Conforms cfg p ((persist r).bind k) (Returns (Ended p r F)) s := by
  refine Safe.andThen (conform_work (all_persist r) hF.framed h) fun x t ht => ?_
  obtain ⟨b, r₁⟩ := x
  have ha : Alike r r₁ := ht.2.1 _ rfl
  refine (hk b r₁ t ha (ht.1.alike ha)).mono fun y u hy r' hr' => ?_
  exact (hy r' hr').of_later ha.later

theorem conform_settleVerdict (h : Working p r ps F s) (hF : Frame r.changeId F)
    (hrun : r.status = .running) {reason : Reason} (hreason : reason ≠ .interruptedBeforeMutation)
    (verdict : Verdict) :
    Conforms cfg p (settleVerdict cfg r reason verdict) (Returns (Ended p r F)) s := by
  have hr : some reason ≠ some Reason.interruptedBeforeMutation := fun h => hreason (Option.some.inj h)
  refine Safe.andThen (conform_call h hF.framed (by trivial)) fun cleaned t ht => ?_
  refine conform_stepThen ht.1 hF (by split <;> exact fun h => nomatch h) none fun u hu => ?_
  split
  · split
    · exact conform_exit hu hF hrun (by simp) (by simp) _
    · refine conform_persistThen hu hF fun b r₁ v ha hv => ?_
      have hrun₁ : r₁.status = .running := ha.status.trans hrun
      have hF₁ : Frame r₁.changeId F := ha.changeId ▸ hF
      dsimp only
      split
      · exact conform_exit hv hF₁ hrun₁ (by simp) (by simp) _
      · exact conform_exit hv hF₁ hrun₁ (by simp) hr _
  · split
    · refine conform_exit hu hF hrun (by simp) ?_ _
      split
      · exact hr
      · simp
    · exact conform_exit hu hF hrun (by simp) hr _

theorem conform_keepSafeguard (h : Working p r ps F s) (hF : Frame r.changeId F)
    (hrun : r.status = .running) {reason : Reason} (hreason : reason ≠ .interruptedBeforeMutation)
    (ad : Adapter) (verdict : Verdict) :
    Conforms cfg p (keepSafeguard cfg ad r reason verdict) (Returns (Ended p r F)) s := by
  have hr : some reason ≠ some Reason.interruptedBeforeMutation := fun h => hreason (Option.some.inj h)
  refine conform_stepThen h hF (by simp) _ fun t ht => ?_
  generalize hr₁ : r.addStep .safeguardKept (some "firing not proven") = r₁ at ht ⊢
  have hrun : r₁.status = .running := hr₁ ▸ hrun
  have hF : Frame r₁.changeId F := hr₁ ▸ hF
  refine Safe.andThen (P := fun _ u => Working p r₁ ps F u) ?_ fun revoked u hu => ?_
  · split
    · exact (conform_call ht hF.framed (by trivial)).mono fun _ _ h => h.1
    · exact ht
  · unfold noteRevoked
    split
    · exact conform_exit hu hF hrun (by simp) hr _
    · exact conform_stepThen hu hF (by simp) _ fun v hv =>
        conform_exit hv hF hrun (by simp) hr _
    · exact conform_stepThen hu hF (by simp) _ fun v hv =>
        conform_exit hv hF hrun (by simp) hr _

theorem conform_settleAfterExpiry (h : Working p r ps F s) (hF : Frame r.changeId F)
    (hrun : r.status = .running) {reason : Reason} (hreason : reason ≠ .interruptedBeforeMutation)
    (due : ℚ) :
    Conforms cfg p (settleAfterExpiry cfg r reason due) (Returns (Ended p r F)) s := by
  have hr : some reason ≠ some Reason.interruptedBeforeMutation := fun h => hreason (Option.some.inj h)
  refine Safe.andThen (P := fun _ t => Working p r ps F t) (Safe.ofExcept h) fun ad t ht => ?_
  have hwait : Only (Op.works r) (expiryVerdict r due) := by
    refine Only.bind (only_waitForExpiry works_of_harmless r ?_ ?_ due) fun _ => ?_
    · exact ⟨rfl, rfl, trivial⟩
    · exact ⟨rfl, rfl, trivial⟩
    · exact only_verifySnapshot .before ⟨rfl, rfl, trivial⟩ fun _ => ⟨rfl, rfl, trivial⟩
  refine Safe.attemptThen (conform_work hwait hF.framed ht) fun x u hu => ?_
  obtain ⟨hu, -⟩ := hu
  obtain e | ⟨text, verdict⟩ := x
  · exact conform_stepThen hu hF (by simp) _ fun v hv =>
      conform_exit hv hF hrun (by simp) hr _
  · dsimp only
    refine Safe.andThen (P := fun _ v => Working p r ps F v) ?_ fun disarmed v hv => ?_
    · split
      · exact (conform_call hu hF.framed (by trivial)).mono fun _ _ h => h.1
      · exact hu
    · split
      · exact conform_settleVerdict hv hF hrun hreason verdict
      · exact conform_keepSafeguard hv hF hrun hreason ad verdict

end

/-! ## the change -/

section
variable {cfg : Config} {p : Pid} {s : State} {r r' : Record}
variable {ps : List (Event → Prop)} {F : View → Prop}

/-- a snapshot and its verdict are two more events of the history -/
theorem conform_verifySnapshot (h : Working p r ps F s) (hF : Framed r.changeId F) (side : Side) :
    Conforms cfg p (verifySnapshot r side) (fun x t => Working p r ps F t ∧
      ∀ y, x = .ok y → y.2.matched = true → Working p r (ps ++ [Snapped r.device r.changeId y.1,
        Verified r.device r.changeId r.change.plan y.1 side]) F t) s := by
  refine Safe.bind (conform_call h hF (by trivial)) (fun text t ht => ?_)
    (fun e t ht => ⟨ht.1, fun _ hy => nomatch hy⟩)
  have hsnap := ht.2 text rfl (Snapped r.device r.changeId text) (fun e he => he)
  have hforget : ∀ u, Working p r (ps ++ [Snapped r.device r.changeId text]) F u →
      Working p r ps F u := fun u hu => hu.mono (List.sublist_append_left _ _) fun _ h => h
  refine Safe.bind (conform_call hsnap hF (by trivial)) (fun verdict u hu => ?_)
    (fun e u hu => ⟨hforget u hu.1, fun _ hy => nomatch hy⟩)
  refine ⟨hforget u hu.1, fun y hy hm => ?_⟩
  cases hy
  have hv := hu.2 verdict rfl (Verified r.device r.changeId r.change.plan text side)
    (fun e he => ⟨r.plan, verdict, he, rfl, hm⟩)
  rwa [List.append_assoc] at hv

theorem conform_persistAndCheck (h : Working p r ps F s) (hF : Frame r.changeId F)
    (hrun : r.status = .running) (hconf : ∀ tr, InOrder ps tr → Confirmed r.change tr) :
    Conforms cfg p (persistAndCheck cfg r) (Returns (Ended p r F)) s := by
  refine conform_persistThen h hF fun saved r₁ t ha ht => ?_
  have hrun₁ : r₁.status = .running := ha.status.trans hrun
  have hF₁ : Frame r₁.changeId F := ha.changeId ▸ hF
  rw [← ha.change] at hconf
  have hexit : ∀ (r₂ : Record) (reason : Option Reason) (differences : List String) (u : State),
      r₂.change = r₁.change → r₂.status = .running → Frame r₂.changeId F →
      reason ≠ some .interruptedBeforeMutation → Working p r₂ ps F u →
      Conforms cfg p (finish cfg r₂ .confirmed reason differences) (Returns (Ended p r₂ F)) u :=
    fun r₂ reason differences u hc hrun hF hreason hu =>
      conform_finish hu hF hrun .confirmed reason differences (fun h => absurd h hreason)
        (fun _ tr htr => hc ▸ hconf tr htr)
  dsimp only
  split
  · exact hexit r₁ _ _ t rfl hrun₁ hF₁ (by simp) ht
  · split
    · refine Safe.attemptThen (conform_verifySnapshot ht hF₁.framed .after) fun x u hu => ?_
      obtain ⟨hu, -⟩ := hu
      obtain e | ⟨text, verdict⟩ := x
      · exact conform_stepThen hu hF₁ (by simp) _ fun v hv =>
          hexit _ _ _ v rfl hrun₁ hF₁ (by simp) hv
      · dsimp only
        split
        · exact conform_stepThen hu hF₁ (by simp) _ fun v hv =>
            hexit _ _ _ v rfl hrun₁ hF₁ (by simp) hv
        · exact hexit r₁ _ _ u rfl hrun₁ hF₁ (by simp) hu
    · exact hexit r₁ _ _ t rfl hrun₁ hF₁ (by simp) ht

/-- a call of the host, where the invariant tells more of what is known -/
theorem conform_host {K L : State → Prop} (hK : Lasts cfg p K) (hs : K s) (q : HostCall)
    (hL : Lasts cfg p L) (hup : ∀ t, Inv cfg t → K t → L t) :
    Conforms cfg p (host q) (fun _ t => L t) s := by
  refine fun t hr hi => ⟨trivial, fun a => Safe.ofExcept ?_⟩
  have hi' := hi.exec (p := p) (o := .host q) trivial a
  exact hL t _ hi' (rely_harmless (show Op.harmless (.host q) from trivial) a) (hup t hi (hK s t hi hr hs))

/-- **The journal takes up `confirm_start`**, with every check before it passed. -/
theorem conform_confirmStart (h : Working p r ps F s) (hF : Framed r.changeId F)
    (hgates : ∀ tr, InOrder ps tr → GatesPassed r.change tr) :
    Conforms cfg p (step r .confirmStart none) (Returns fun r' t => r' = r.addStep .confirmStart none ∧
      ∃ text last, Working p r' (gates r.change text last ++ [ConfirmStarted r.change]) F t) s := by
  let r₁ := r.addStep .confirmStart none
  have hok : RecordOk r₁.device r₁ (s.view r₁.device) :=
    { unsent := h.saveable.ok.unsent
      early := h.saveable.ok.early
      gates := fun _ => hgates _ h.chain
      confirmed := h.saveable.ok.confirmed
      blocked := h.saveable.ok.blocked }
  have hw : Working p r₁ ps F s := h.change (r.later_addStep _ _) hok
  refine Safe.andThen (conform_save hw hF) fun _ t ht => ?_
  have hstored : Working p r₁ ps (fun v => F v ∧ Stored r₁ v) t :=
    ⟨ht.1.lock, ht.1.saveable, ht.1.chain, ht.1.frame, ht.2 () rfl⟩
  refine Safe.andThen (conform_host (L := Working p r₁ []
    (fun v => F v ∧ GatesJournaled r.change v.trace)) working_lasts hstored _ working_lasts ?_) ?_
  · intro u hi hu
    refine ⟨hu.lock, hu.saveable, .nil _, hu.frame.1, ?_⟩
    refine (hi.device r₁.device).journaled _ r₁ hu.frame.2 ?_
    simp [r₁]
  · intro _ u hu r' hr'
    cases hr'
    obtain ⟨hF', text, last, hj⟩ := hu.frame
    exact ⟨rfl, text, last, hu.lock, hu.saveable, hj, hF'⟩

theorem conform_removeAndCheck (h : Working p r ps F s) (hF : Frame r.changeId F)
    (hrun : r.status = .running) (hgates : ∀ tr, InOrder ps tr → GatesPassed r.change tr) (due : ℚ) :
    Conforms cfg p (removeAndCheck cfg r due) (Returns (Ended p r F)) s := by
  refine Safe.andThen (conform_confirmStart h hF.framed hgates) fun r₁ t ht => ?_
  obtain ⟨hr₁, text, last, ht⟩ := ht r₁ rfl
  have hc : r₁.change = r.change := hr₁ ▸ rfl
  have hl : Later r r₁ := hr₁ ▸ r.later_addStep _ _
  have hrun : r₁.status = .running := hr₁ ▸ hrun
  have hF : Frame r₁.changeId F := hr₁ ▸ hF
  rw [← hc] at ht
  refine Safe.mono (Q := Returns (Ended p r₁ F)) ?_ fun x u hx r' hr' => (hx r' hr').of_later hl
  refine Safe.andThen (conform_call ht hF.framed (by trivial)) fun removed u hu => ?_
  cases removed with
  | false =>
    exact conform_stepThen hu.1 hF (by simp) _ fun v hv =>
      conform_settleAfterExpiry hv hF hrun (by simp) due
  | true =>
    have habsent := hu.2 true rfl (Absent r₁.change) (fun e he => .inl he)
    refine Safe.attemptThen (conform_verifySnapshot habsent hF.framed .after) fun x v hv => ?_
    obtain ⟨hv, hmatch⟩ := hv
    obtain e | ⟨gone, verdict⟩ := x
    · exact conform_stepThen hv hF (by simp) _ fun w hw =>
        conform_exit hw hF hrun (by simp) (by simp) _
    · dsimp only
      split
      · refine conform_stepThen hv hF (by simp) _ fun w hw => ?_
        refine Safe.andThen (conform_work (r := r₁.addStep _ _)
          (only_returned ⟨rfl, rfl, trivial⟩) hF.framed hw) fun fired z hz => ?_
        split
        · exact conform_exit hz.1 hF hrun (by simp) (by simp) _
        · exact conform_exit hz.1 hF hrun (by simp) (by simp) _
      · next hm =>
        have hm : verdict.matched = true := by simpa using hm
        refine conform_persistAndCheck (hmatch _ rfl hm) hF hrun fun tr htr => ⟨text, last, gone, ?_⟩
        rw [List.append_assoc, List.append_assoc] at htr
        exact htr

end

/-! ## the checks after the change -/

section
variable {cfg : Config} {p : Pid} {s : State} {r r' : Record} {F : View → Prop} {text : String}

/-- the checks passed when the state the check account sees is in order -/
def passedObserved (x : Change) (text : String) : List (Event → Prop) :=
  [Installed x, Sent x.device x.id x.plan, Snapped x.device x.id text, AccountsKept x text,
    Verified x.device x.id x.plan text .after, AuditPassed x text, ObservedAfter x]

/-- a record that differs in its reports only goes on to the same exit -/
theorem Ended.alike {t : State} (ha : Alike r r') {r'' : Record} (h : Ended p r' F r'' t) :
    Ended p r F r'' t := h.of_later ha.later

theorem conform_confirm (h : Working p r (passedObserved r.change text) F s)
    (hF : Frame r.changeId F) (hrun : r.status = .running) (dev : Device) (due : ℚ) :
    Conforms cfg p (confirm cfg dev r due) (Returns (Ended p r F)) s := by
  unfold confirm
  split
  · exact conform_settleAfterExpiry h hF hrun (by simp) due
  · refine Safe.andThen (conform_work (only_remainingSeconds ⟨rfl, rfl, trivial⟩) hF.framed h)
      fun remaining t ht => ?_
    split
    · exact conform_stepThen ht.1 hF (by simp) _ fun u hu =>
        conform_settleAfterExpiry hu hF hrun (by simp) due
    · refine Safe.attemptThen (conform_verifySnapshot ht.1 hF.framed .after) fun x u hu => ?_
      obtain ⟨hu, hmatch⟩ := hu
      obtain e | ⟨last, verdict⟩ := x
      · exact conform_stepThen hu hF (by simp) _ fun v hv =>
          conform_settleAfterExpiry hv hF hrun (by simp) due
      · dsimp only
        split
        · refine conform_stepThen hu hF (by simp) _ fun v hv => ?_
          generalize hr₁ : r.addStep .finalCheckFailed _ = r₁ at hv ⊢
          have hrun : r₁.status = .running := hr₁ ▸ hrun
          have hF : Frame r₁.changeId F := hr₁ ▸ hF
          have ha : Alike r₁ { r₁ with finalCheckDifferences := verdict.differences } :=
            { Alike.refl r₁ with }
          refine Safe.andThen (conform_work (only_returned ⟨rfl, rfl, trivial⟩) hF.framed
            (hv.alike ha)) fun fired w hw => ?_
          refine Safe.mono (conform_settleAfterExpiry hw.1 hF hrun ?_ due) fun x z hx r' hr' =>
            (hx r' hr').alike ha
          split <;> simp
        · next hm =>
          have hm : verdict.matched = true := by simpa using hm
          exact conform_removeAndCheck (hmatch _ rfl hm) hF hrun
            (fun tr htr => ⟨text, last, htr⟩) due

theorem conform_checkIdentity (h : Working p r (passedObserved r.change text).dropLast F s)
    (hF : Frame r.changeId F) (hrun : r.status = .running) (dev : Device) (due : ℚ) :
    Conforms cfg p (checkIdentity cfg dev r due) (Returns (Ended p r F)) s := by
  refine Safe.attemptThen (conform_call h hF.framed (by trivial)) fun x t ht => ?_
  obtain ⟨ht, hseen⟩ := ht
  obtain e | seen := x
  · exact conform_stepThen ht hF (by simp) _ fun u hu =>
      conform_settleAfterExpiry hu hF hrun (by simp) due
  · dsimp only
    split
    · exact conform_stepThen ht hF (by simp) _ fun u hu =>
        conform_settleAfterExpiry hu hF hrun (by simp) due
    · next he =>
      have he : seen = r.plan.after := by simpa using he
      subst he
      have hobs := hseen _ rfl (ObservedAfter r.change) (fun e he => ⟨r.plan, rfl, he⟩)
      exact conform_stepThen hobs hF (by simp) _ fun u hu => conform_confirm hu hF hrun dev due

theorem conform_auditCheck (h : Working p r (passedObserved r.change text).dropLast.dropLast F s)
    (hF : Frame r.changeId F) (hrun : r.status = .running) (dev : Device) (due : ℚ) :
    Conforms cfg p (auditCheck cfg dev r due text) (Returns (Ended p r F)) s := by
  refine Safe.attemptThen (conform_call h hF.framed (by trivial)) fun x t ht => ?_
  obtain ⟨ht, hpassed⟩ := ht
  have hfail : ∀ detail, Conforms cfg p
      ((step r .auditFailed detail).bind fun r => settleAfterExpiry cfg r .auditUnavailable due)
      (Returns (Ended p r F)) t := fun detail =>
    conform_stepThen ht hF (by simp) _ fun u hu =>
      conform_settleAfterExpiry hu hF hrun (by simp) due
  cases x with
  | error e =>
    cases e with
    | incomplete a summary =>
      exact conform_stepThen ht hF (by simp) _ fun u hu =>
        conform_settleAfterExpiry hu hF hrun (by simp) due
    | _ => exact hfail _
  | ok found =>
    dsimp only
    split
    · have ha : Alike r { r with auditFindings := found } := { Alike.refl r with }
      refine Safe.mono (Q := Returns (Ended p { r with auditFindings := found } F)) ?_
        fun x z hx r' hr' => (hx r' hr').alike ha
      exact conform_stepThen (ht.alike ha) hF (by simp) _ fun u hu =>
        conform_settleAfterExpiry hu hF hrun (by simp) due
    · next he =>
      have he : found = [] := by simpa using he
      subst he
      have haudit := hpassed [] rfl (AuditPassed r.change text)
        (fun e he => ⟨r.plan, r.auditBefore, he⟩)
      refine Safe.andThen (conform_harmless working_lasts (only_host trivial) haudit)
        fun summary u hu => ?_
      exact conform_stepThen hu.1 hF (by simp) _ fun v hv =>
        conform_checkIdentity hv hF hrun dev due

end

/-! ## sending the change -/

section
variable {cfg : Config} {p : Pid} {s : State} {r r' : Record}
variable {ps : List (Event → Prop)} {F : View → Prop}

theorem categoryOr_ne {cause : Reason} (h : cause ≠ .interruptedBeforeMutation) (e : Exn) :
    categoryOr cause e ≠ .interruptedBeforeMutation := by
  unfold categoryOr
  split
  · simp
  · exact h

theorem conform_postcheckFailed (h : Working p r ps F s) (hF : Frame r.changeId F)
    (hrun : r.status = .running) (due : ℚ) {cause : Reason}
    (hcause : cause ≠ .interruptedBeforeMutation) (e : Exn) :
    Conforms cfg p (postcheckFailed cfg r due cause e) (Returns (Ended p r F)) s := by
  unfold postcheckFailed
  split
  · exact conform_stepThen h hF (by simp) _ fun t ht =>
      conform_settleAfterExpiry ht hF hrun (categoryOr_ne hcause e) due
  · exact conform_stepThen h hF (by simp) _ fun t ht =>
      conform_settleAfterExpiry ht hF hrun (by simp) due

theorem conform_postcheckSnapshot (h : Working p r ps F s) (hF : Framed r.changeId F) :
    Conforms cfg p (postcheckSnapshot r) (fun x t => Working p r ps F t ∧ ∀ text, x = .ok text →
      Working p r (ps ++ [Snapped r.device r.changeId text, AccountsKept r.change text]) F t) s := by
  refine Safe.bind (conform_call h hF (by trivial)) (fun text t ht => ?_)
    (fun e t ht => ⟨ht.1, fun _ hy => nomatch hy⟩)
  have hsnap := ht.2 text rfl (Snapped r.device r.changeId text) (fun e he => he)
  have hforget : ∀ u, Working p r (ps ++ [Snapped r.device r.changeId text]) F u →
      Working p r ps F u := fun u hu => hu.mono (List.sublist_append_left _ _) fun _ h => h
  refine Safe.bind (conform_call hsnap hF (by trivial)) (fun accounts u hu => ?_)
    (fun e u hu => ⟨hforget u hu.1, fun _ hy => nomatch hy⟩)
  unfold raiseIf
  split
  · exact ⟨hforget u hu.1, fun _ hy => nomatch hy⟩
  · next he =>
    have he : accounts = r.accounts := by simpa using he
    subst he
    refine ⟨hforget u hu.1, fun text' hy => ?_⟩
    cases hy
    have hkept := hu.2 _ rfl (AccountsKept r.change text) (fun e he => he)
    rwa [List.append_assoc] at hkept

/-- binding the generated values changes nothing the invariant looks at -/
theorem alike_bindGenerated (values : Attrs) :
    (bindGenerated r values).All Op.harmless (Alike r) (fun _ => True) := by
  refine All.bind (V := fun _ => True) only_raiseIf fun _ _ => ?_
  refine All.bind (V := fun _ => True) (only_host trivial) fun digest _ => ?_
  exact { Alike.refl r with }

theorem conform_postcheck
    (h : Working p r [Installed r.change, Sent r.change.device r.change.id r.change.plan] F s)
    (hF : Frame r.changeId F) (hrun : r.status = .running) (dev : Device) (due : ℚ) :
    Conforms cfg p (postcheck cfg dev r due) (Returns (Ended p r F)) s := by
  refine Safe.attemptThen (conform_postcheckSnapshot h hF.framed) fun x t ht => ?_
  obtain ⟨ht, hkept⟩ := ht
  obtain e | text := x
  · exact conform_postcheckFailed ht hF hrun due (by simp) e
  · refine Safe.attemptThen (conform_call (hkept text rfl) hF.framed (by trivial)) fun x u hu => ?_
    obtain ⟨hu, hverified⟩ := hu
    obtain e | verdict := x
    · exact conform_postcheckFailed hu hF hrun due (by simp) e
    · dsimp only
      split
      · refine conform_stepThen hu hF (by simp) _ fun v hv => ?_
        generalize hr₁ : r.addStep .postcheckFailed _ = r₁ at hv ⊢
        have hrun : r₁.status = .running := hr₁ ▸ hrun
        have hF : Frame r₁.changeId F := hr₁ ▸ hF
        have ha : Alike r₁ { r₁ with postcheckDifferences := verdict.differences } :=
          { Alike.refl r₁ with }
        exact Safe.mono (conform_settleAfterExpiry (hv.alike ha) hF hrun (by simp) due)
          fun x z hx r' hr' => (hx r' hr').alike ha
      · next hm =>
        have hm : verdict.matched = true := by simpa using hm
        have hv := hverified verdict rfl
          (Verified r.change.device r.change.id r.change.plan text .after)
          (fun e he => ⟨r.plan, verdict, he, rfl, hm⟩)
        refine Safe.andThen (P := Returns fun r₁ t => Alike r r₁ ∧
          Working p r₁ (passedObserved r₁.change text).dropLast.dropLast F t) ?_ fun r₁ w hw => ?_
        · split
          · refine (conform_harmless working_lasts (alike_bindGenerated _) hv).mono
              fun x w hx r₁ hr₁ => ?_
            have ha := hx.2.1 r₁ hr₁
            refine ⟨ha, ?_⟩
            rw [ha.change]
            exact hx.1.alike ha
          · intro r₁ hr₁
            cases hr₁
            exact ⟨.refl r, hv⟩
        · obtain ⟨ha, hw⟩ := hw r₁ rfl
          have hrun₁ : r₁.status = .running := ha.status.trans hrun
          have hF₁ : Frame r₁.changeId F := ha.changeId ▸ hF
          refine Safe.mono (Q := Returns (Ended p r₁ F)) ?_ fun x z hx r' hr' =>
            (hx r' hr').alike ha
          exact conform_stepThen hw hF₁ (by simp) _ fun z hz =>
            conform_auditCheck hz hF₁ hrun₁ dev due

theorem conform_changeFailed (h : Working p r ps F s) (hF : Frame r.changeId F)
    (hrun : r.status = .running) (due : ℚ) (e : Exn) :
    Conforms cfg p (changeFailed cfg r due e) (Returns (Ended p r F)) s :=
  conform_stepThen h hF (by simp) _ fun _ ht => conform_settleAfterExpiry ht hF hrun (by simp) due

/-- the change may be sent: the device is not blocked, the safeguard of the record is on file and
nothing was sent before -/
structure Ready (c : ChangeId) (v : View) : Prop where
  clear : v.block = none
  unsent : ∀ e ∈ v.trace, e.op.appliesFor c = false
  armed : ∃ r, v.ops c = some r ∧ r.safeguard.isSome

theorem Op.appliesFor_of_not_sendsFor {op : Op} {c : ChangeId} (h : op.sendsFor c = false) :
    op.appliesFor c = false := by
  by_contra hc
  have hs := Op.sendsFor_of_appliesFor (Bool.eq_true_of_not_eq_false hc)
  rw [h] at hs
  cases hs

theorem framed_ready (c : ChangeId) : Framed c (Ready c) := by
  intro v v' hm hb h
  obtain ⟨e, he, htr⟩ := hm.trace
  obtain ⟨r, hr, hs⟩ := h.armed
  obtain ⟨r', hr', hl⟩ := hm.own r hr
  refine ⟨hb.trans h.clear, fun e' he' => ?_, r', hr', hl.safeguard hs⟩
  rw [htr] at he'
  rcases List.mem_cons.mp he' with rfl | he'
  · exact Op.appliesFor_of_not_sendsFor (he c)
  · exact h.unsent e' he'

/-- the device after lines were sent to it -/
theorem Working.sent {F' : View → Prop} (h : Working p r ps F s) (hs : r.safeguard.isSome)
    {q : DeviceCall} {a : Except Exn q.Reply} {P : Event → Prop}
    (hP : ∀ e, e.is (.device r.device (some r.changeId) q) a → P e)
    (hF' : ∀ e, e.op = .device r.device (some r.changeId) q → ∀ v, F v →
      F' ⟨v.ops, v.block, e :: v.trace⟩) :
    Working p r (ps ++ [P]) F'
      (s.log p (.device r.device (some r.changeId) q) a s.store) := by
  let op : Op := .device r.device (some r.changeId) q
  have hv := State.view_log s p op a s.store r.device
  rw [View.push_of_eq (e := ⟨p, ⟨op, a⟩, s.store, s.store⟩) rfl] at hv
  have hok : RecordOk r.device r ((s.log p op a s.store).view r.device) := by
    rw [hv]
    refine h.saveable.ok.cons rfl (fun hn => ?_) (fun _ hb => .inl hb)
    rw [hn] at hs
    cases hs
  refine ⟨h.lock, ⟨hok, ?_⟩, ?_, ?_⟩
  · rw [hv]
    exact h.saveable.stored
  · rw [hv]
    exact h.chain.snoc (hP _ rfl)
  · rw [hv]
    exact hF' _ rfl _ h.frame

theorem conform_executeChange (h : Working p r [Installed r.change] (Ready r.changeId) s)
    (hs : r.safeguard.isSome) (hrun : r.status = .running) (dev : Device) (due : ℚ) :
    Conforms cfg p (executeChange cfg dev r due) (Returns (Ended p r fun _ => True)) s := by
  refine Safe.andThen (conform_save h (framed_ready _)) fun _ t ht => ?_
  refine Safe.andThen (conform_step ht.1 (framed_ready _) (by simp) _) fun r₁ u hu => ?_
  obtain ⟨hu, hr₁⟩ := hu
  obtain rfl := hr₁ r₁ rfl
  refine Safe.andThen (conform_step hu (framed_ready _) (by simp) _) fun r₂ v hv => ?_
  obtain ⟨hv, hr₂⟩ := hv
  have hr₂ := hr₂ r₂ rfl
  rw [← hr₂] at hv
  have hl : Later r r₂ := hr₂ ▸ (r.later_addStep _ _).trans (Record.later_addStep _ _ _)
  have hc : r₂.change = r.change := hl.change
  have hrun : r₂.status = .running := hr₂ ▸ hrun
  have hs : r₂.safeguard.isSome := hr₂ ▸ hs
  have hid : r.changeId = r₂.changeId := hl.changeId.symm
  rw [← hc, hid] at hv
  have hF : Frame r₂.changeId fun _ => True := frame_true _
  refine Safe.mono (Q := Returns (Ended p r₂ fun _ => True)) ?_ fun x u hx r' hr' =>
    (hx r' hr').of_later hl
  refine Safe.attemptThen (P := fun _ t => Working p r₂
    [Installed r₂.change, Sent r₂.change.device r₂.change.id r₂.change.plan] (fun _ => True) t) ?_
    fun x w hw => ?_
  · refine fun t hr hi => ?_
    have ht := working_lasts v t hi hr hv
    obtain ⟨r₀, hr₀, hs₀⟩ := ht.frame.armed
    obtain ⟨hr₀, hd₀⟩ := Store.deviceOps_eq_some.mp hr₀
    refine ⟨⟨ht.lock, ?_, ?_, ?_⟩, fun a => Safe.ofExcept ?_⟩
    · intro c' hc'
      cases hc'
      exact ⟨r₀, hr₀, hd₀⟩
    · intro _ _ he
      cases he
    · intro lines _
      exact ⟨ht.frame.clear, r₂.changeId, r₀, rfl, hr₀, hs₀, ht.frame.unsent⟩
    · exact ht.sent hs (fun e he => ⟨_, he⟩) (fun _ _ _ _ => trivial)
  · cases x with
    | error e => exact conform_changeFailed hw hF hrun due e
    | ok _ =>
      refine Safe.attemptThen (conform_step hw hF.framed (by simp) _) fun x z hz => ?_
      obtain ⟨hz, hr₃⟩ := hz
      have hl' := r₂.later_addStep .changeApplied none
      cases x with
      | error e =>
        exact (conform_changeFailed hz hF hrun due e).mono fun x u hx r' hr' =>
          (hx r' hr').of_later hl'
      | ok r₃ =>
        obtain rfl := hr₃ r₃ rfl
        exact (conform_postcheck hz hF hrun dev due).mono fun x u hx r' hr' =>
          (hx r' hr').of_later hl'

end

/-! ## installing the safeguard -/

section
variable {cfg : Config} {p : Pid} {s : State} {r : Record}
variable {ps : List (Event → Prop)} {F : View → Prop}

theorem conform_safeguardNotVerified (h : Working p r ps F s) (hF : Frame r.changeId F)
    (hrun : r.status = .running) (problem : String) :
    Conforms cfg p (safeguardNotVerified cfg r problem) (Returns (Ended p r F)) s := by
  refine conform_stepThen h hF (by simp) _ fun t ht => ?_
  refine Safe.andThen (conform_call ht hF.framed (by trivial)) fun cleaned u hu => ?_
  split
  · refine conform_persistThen hu.1 hF fun saved r₁ v ha hv => ?_
    have hrun₁ : r₁.status = .running := ha.status.trans hrun
    have hF₁ : Frame r₁.changeId F := ha.changeId ▸ hF
    dsimp only
    split
    · exact conform_exit hv hF₁ hrun₁ (by simp) (by simp) _
    · exact conform_exit hv hF₁ hrun₁ (by simp) (by simp) _
  · exact conform_exit hu.1 hF hrun (by simp) (by simp) _

/-- nothing was sent yet and the device is not blocked -/
structure Fresh (c : ChangeId) (v : View) : Prop where
  clear : v.block = none
  unsent : ∀ e ∈ v.trace, e.op.appliesFor c = false

theorem framed_fresh (c : ChangeId) : Framed c (Fresh c) := by
  intro v v' hm hb h
  obtain ⟨e, he, htr⟩ := hm.trace
  refine ⟨hb.trans h.clear, fun e' he' => ?_⟩
  rw [htr] at he'
  rcases List.mem_cons.mp he' with rfl | he'
  · exact Op.appliesFor_of_not_sendsFor (he c)
  · exact h.unsent e' he'

/-- the record with a safeguard, or with another fire time of it -/
theorem Working.rearm (h : Working p r ps F s) (hrun : r.status = .running)
    (hreason : r.reason ≠ some .interruptedBeforeMutation) (sg : Safeguard) :
    Working p { r with safeguard := some sg } ps F s := by
  refine h.change ?_ ?_
  · exact ⟨rfl, rfl, rfl, rfl, rfl, fun _ => rfl, fun hf => by rw [hrun] at hf; cases hf⟩
  · exact {
      unsent := fun hn => nomatch hn
      early := fun hc => absurd hc hreason
      gates := h.saveable.ok.gates
      confirmed := h.saveable.ok.confirmed
      blocked := fun hb => by simp [Record.blocking, hrun] at hb }

/-- the safeguard is installed; it is on file before a line is sent -/
theorem conform_installSafeguard (h : Working p r [] (Ready r.changeId) s)
    (hs : r.safeguard.isSome) (hrun : r.status = .running)
    (hreason : r.reason ≠ some .interruptedBeforeMutation) (safeguard : Safeguard) :
    Conforms cfg p (installSafeguard r safeguard) (Returns fun x t => Later r x.2 ∧
      x.2.safeguard.isSome ∧ x.2.status = .running ∧
      Working p x.2 [] (Ready r.changeId) t ∧
      (x.1 = [] → Working p x.2 [Installed r.change] (Ready r.changeId) t)) s := by
  refine Safe.attemptThen (P := fun x t => Working p r [] (Ready r.changeId) t ∧
    ∀ y, x = .ok y → y.1 = [] → Working p r [Installed r.change] (Ready r.changeId) t) ?_
    fun x t ht => ?_
  · refine fun t hr hi => ?_
    have ht := working_lasts s t hi hr h
    obtain ⟨r₀, hr₀, hs₀⟩ := ht.frame.armed
    obtain ⟨hr₀, hd₀⟩ := Store.deviceOps_eq_some.mp hr₀
    refine ⟨⟨ht.lock, ?_, ?_, ?_⟩, fun a => Safe.ofExcept ?_⟩
    · intro c' hc'
      cases hc'
      exact ⟨r₀, hr₀, hd₀⟩
    · exact fun _ _ _ => ⟨r.changeId, r₀, rfl, hr₀, hs₀⟩
    · intro _ he
      cases he
    · have hF' : ∀ e : Event, e.op = .device r.device (some r.changeId)
          (.installSafeguard safeguard r.plan) → ∀ v, Ready r.changeId v →
          Ready r.changeId ⟨v.ops, v.block, e :: v.trace⟩ := by
        intro e he v hv
        refine ⟨hv.clear, fun e' he' => ?_, hv.armed⟩
        rcases List.mem_cons.mp he' with rfl | he'
        · rw [he]
          rfl
        · exact hv.unsent e' he'
      refine ⟨?_, fun y hy hnil => ?_⟩
      · exact (ht.sent hs (P := fun _ => True) (fun _ _ => trivial) hF').mono
          (List.nil_sublist _) fun _ h => h
      · obtain ⟨problems, fireAt⟩ := y
        cases hnil
        exact ht.sent hs (fun e he => ⟨safeguard, r.plan, fireAt, hy ▸ he⟩) hF'
  · obtain ⟨ht, hok⟩ := ht
    obtain e | ⟨problems, _ | fireAt⟩ := x
    · intro y hy
      cases hy
      exact ⟨.refl r, hs, hrun, ht, fun h => nomatch h⟩
    · intro y hy
      cases hy
      exact ⟨.refl r, hs, hrun, ht, hok _ rfl⟩
    · intro y hy
      cases hy
      refine ⟨?_, rfl, hrun, ht.rearm hrun hreason _, fun hn => ?_⟩
      · exact ⟨rfl, rfl, rfl, rfl, rfl, fun _ => rfl, fun hf => by rw [hrun] at hf; cases hf⟩
      · exact (hok _ rfl hn).rearm hrun hreason _

theorem conform_execute (h : Working p r [] (Fresh r.changeId) s) (hrun : r.status = .running)
    (hreason : r.reason ≠ some .interruptedBeforeMutation) (ad : Adapter) (dev : Device) :
    Conforms cfg p (execute cfg ad dev r) (Returns (Ended p r fun _ => True)) s := by
  have hF : Frame r.changeId fun _ => True := frame_true _
  have hforget : ∀ t, Working p r [] (Fresh r.changeId) t → Working p r [] (fun _ => True) t :=
    fun t ht => ht.mono (List.Sublist.refl _) fun _ _ => trivial
  refine Safe.attemptThen (conform_call h (framed_fresh _) (by trivial)) fun x t ht => ?_
  obtain ⟨ht, -⟩ := ht
  obtain e | now := x
  · exact conform_stepThen (hforget t ht) hF (by simp) _ fun u hu =>
      conform_exit hu hF hrun (by simp) (by simp) _
  · dsimp only
    generalize hsg : (⟨now + dev.safeguardSeconds, safeguardLabel ad r.changeId⟩ : Safeguard) = sg
    generalize hr₁ : { r with safeguard := some sg } = r₁
    have hl : Later r (r₁.addStep .safeguardInstall none) := by
      subst hr₁
      exact ⟨rfl, rfl, rfl, rfl, rfl, fun _ => rfl, fun hf => by rw [hrun] at hf; cases hf⟩
    have hw : Working p (r₁.addStep .safeguardInstall none) [] (Fresh r₁.changeId) t := by
      subst hr₁
      exact (ht.rearm hrun hreason sg).alike (.addStep (by simp) none)
    refine Safe.andThen (conform_step_of _ _ hw (framed_fresh _)) fun r₂ u hu => ?_
    obtain ⟨hr₂, hu⟩ := hu.2 r₂ rfl
    have hs₂ : r₂.safeguard.isSome := by
      subst hr₂ hr₁
      rfl
    have hrun₂ : r₂.status = .running := by
      subst hr₂ hr₁
      exact hrun
    have hreason₂ : r₂.reason ≠ some .interruptedBeforeMutation := by
      subst hr₂ hr₁
      exact hreason
    rw [← hr₂] at hl
    have hready : Working p r₂ [] (Ready r₂.changeId) u := by
      rw [← hr₂] at hu
      refine hu.mono (List.Sublist.refl _) fun v hv => ?_
      have hc : r₁.changeId = r₂.changeId := by
        rw [hr₂]
        rfl
      exact ⟨hv.1.clear, fun e he => hc ▸ hv.1.unsent e he, r₂, hv.2, hs₂⟩
    refine Safe.mono (Q := Returns (Ended p r₂ fun _ => True)) ?_ fun x u hx r' hr' =>
      (hx r' hr').of_later hl
    refine Safe.andThen (conform_installSafeguard hready hs₂ hrun₂ hreason₂ sg) fun x v hv => ?_
    obtain ⟨problems, r₃⟩ := x
    obtain ⟨hl₃, hs₃, hrun₃, hv, hok⟩ := hv _ rfl
    have hc₃ : r₂.changeId = r₃.changeId := hl₃.changeId.symm
    refine Safe.mono (Q := Returns (Ended p r₃ fun _ => True)) ?_ fun x u hx r' hr' =>
      (hx r' hr').of_later hl₃
    cases problems with
    | cons problem rest =>
      have hv : Working p r₃ [] (fun _ => True) v := hv.mono (List.Sublist.refl _) fun _ _ => trivial
      refine Safe.andThen (conform_harmless working_lasts (only_host trivial) hv) fun _ w hw => ?_
      exact conform_safeguardNotVerified hw.1 (frame_true _) hrun₃ problem
    | nil =>
      have hv := hok rfl
      refine Safe.andThen (conform_harmless working_lasts (only_host trivial) hv) fun _ w hw => ?_
      have hw := hw.1
      rw [hc₃, ← hl₃.change] at hw
      exact conform_executeChange hw hs₃ hrun₃ dev _

end

end Netops
