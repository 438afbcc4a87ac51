import Netops.Admin.Conform
import Netops.Admin.Reading

/-!
# Recovery keeps to the protocol

* `conform_recoverOne`  an unfinished operation is finished from its record alone; it is confirmed
                        only where the journal had taken up `confirm_start`;
* `conform_recover`     when `recover` returns, nothing of the device is unfinished.
-/

namespace Netops
open Effect Prog Execute

/-! ## one operation -/

section
variable {cfg : Config} {p : Pid} {s : State} {r : Record}
variable {ps : List (Event → Prop)} {F : View → Prop}

/-- where the journal has taken up `confirm_start`, the events `ps` are the checks before it, itself
and what came `since` -/
def Since (r : Record) (since ps : List (Event → Prop)) : Prop :=
  .confirmStart ∈ r.stepNames → ∃ text last,
    ps = gates r.change text last ++ [ConfirmStarted r.change] ++ since

theorem Since.alike {r' : Record} {since : List (Event → Prop)} (h : Since r since ps)
    (ha : Alike r r') : Since r' since ps := by
  intro hc
  rw [ha.change]
  exact h (ha.steps hc)

theorem Since.snoc {since : List (Event → Prop)} {P : Event → Prop} (h : Since r since ps) :
    Since r (since ++ [P]) (ps ++ [P]) := by
  intro hc
  obtain ⟨text, last, rfl⟩ := h hc
  exact ⟨text, last, by rw [List.append_assoc _ since]⟩

theorem conform_recoverSettled (h : Working p r ps F s) (hF : Frame r.changeId F)
    (hrun : r.status = .running) (hgone : Since r [Absent r.change] ps) :
    Conforms cfg p (recoverSettled cfg r) (Returns (Ended p r F)) s := by
  refine Safe.attemptThen (P := fun x t => Working p r ps F t ∧ ∀ y, x = .ok y → y.1 = true →
    ∃ gone, Working p r (ps ++ [Snapped r.device r.changeId gone,
      Verified r.device r.changeId r.change.plan gone .after]) F t) ?_ fun x t ht => ?_
  · refine Safe.bind (conform_call h hF.framed (by trivial)) (fun text t ht => ?_)
      (fun e t ht => ⟨ht.1, fun _ hy => nomatch hy⟩)
    have hsnap := ht.2 text rfl (Snapped r.device r.changeId text) (fun e he => he)
    have hforget : ∀ {qs u}, Working p r (ps ++ qs) F u → Working p r ps F u := fun hu =>
      hu.mono (List.sublist_append_left _ _) fun _ h => h
    refine Safe.bind (conform_call hsnap hF.framed (by trivial)) (fun after u hu => ?_)
      (fun e u hu => ⟨hforget hu.1, fun _ hy => nomatch hy⟩)
    refine Safe.bind (P := fun _ v => Working p r ps F v ∧ (after.matched = true →
      Working p r (ps ++ [Snapped r.device r.changeId text,
        Verified r.device r.changeId r.change.plan text .after]) F v)) ?_ (fun before v hv => ?_)
      (fun e v hv => ⟨hv.1, fun _ hy => nomatch hy⟩)
    · by_cases hm : after.matched = true
      · have hv := hu.2 after rfl (Verified r.device r.changeId r.change.plan text .after)
          (fun e he => ⟨r.plan, after, he, rfl, hm⟩)
        rw [List.append_assoc] at hv
        exact (conform_call hv hF.framed (by trivial)).mono fun _ _ hw => ⟨hforget hw.1, fun _ => hw.1⟩
      · exact (conform_call (hforget hu.1) hF.framed (by trivial)).mono fun _ _ hw =>
          ⟨hw.1, fun hc => absurd hc hm⟩
    · refine ⟨hv.1, fun y hy hm => ?_⟩
      cases hy
      exact ⟨text, hv.2 hm⟩
  · obtain ⟨ht, hafter⟩ := ht
    obtain e | ⟨isAfter, isBefore⟩ := x
    · exact conform_exit ht hF hrun (by simp) (by simp) _
    · dsimp only
      split
      · next hc =>
        simp only [Bool.and_eq_true, decide_eq_true_eq] at hc
        obtain ⟨gone, hw⟩ := hafter _ rfl hc.1
        refine conform_persistThen hw hF fun saved r₁ u ha hu => ?_
        refine conform_finish hu (ha.changeId ▸ hF) (ha.status.trans hrun) _ _ _ ?_ ?_
        · dsimp only
          split <;> simp
        · intro _ tr htr
          rw [ha.change]
          obtain ⟨text, last, rfl⟩ := hgone hc.2
          rw [List.append_assoc, List.append_assoc] at htr
          exact ⟨text, last, gone, htr⟩
      · split
        · refine conform_persistThen ht hF fun saved r₁ u ha hu => ?_
          refine conform_exit hu (ha.changeId ▸ hF) (ha.status.trans hrun) (by simp) ?_ _
          dsimp only
          split <;> simp
        · split
          · exact conform_exit ht hF hrun (by simp) (by simp) _
          · exact conform_exit ht hF hrun (by simp) (by simp) _

end

section
variable {cfg : Config} {p : Pid} {s : State} {r : Record}
variable {ps : List (Event → Prop)} {F : View → Prop}

theorem conform_safeguardPresence (h : Working p r ps F s) (hF : Framed r.changeId F) :
    Conforms cfg p (safeguardPresence r) (fun x t => Working p r ps F t ∧ ∀ y, x = .ok y →
      y.1 = true ∨ y = (false, false) ∧ Working p r (ps ++ [Absent r.change]) F t) s := by
  refine Safe.bind (conform_call h hF (by trivial)) (fun absent t ht => ?_)
    (fun e t ht => ⟨ht.1, fun _ hy => nomatch hy⟩)
  cases absent with
  | true =>
    refine ⟨ht.1, fun y hy => ?_⟩
    cases hy
    exact .inr ⟨rfl, ht.2 true rfl (Absent r.change) (fun e he => .inr (.inr he))⟩
  | false =>
    refine Safe.bind (conform_call ht.1 hF (by trivial)) (fun disarmed u hu => ?_)
      (fun e u hu => ⟨hu.1, fun _ hy => nomatch hy⟩)
    refine ⟨hu.1, fun y hy => ?_⟩
    cases hy
    exact .inl rfl

theorem conform_recoverSafeguard (h : Working p r ps F s) (hF : Frame r.changeId F)
    (hrun : r.status = .running) (hps : Since r [] ps) (dev : Device) :
    Conforms cfg p (recoverSafeguard cfg dev r) (Returns (Ended p r F)) s := by
  refine Safe.attemptThen (conform_safeguardPresence h hF.framed) fun x t ht => ?_
  obtain ⟨ht, hpresence⟩ := ht
  obtain e | ⟨present, disarmed⟩ := x
  · exact conform_exit ht hF hrun (by simp) (by simp) _
  · dsimp only
    split
    · refine Safe.andThen (conform_call ht hF.framed (by trivial)) fun removed u hu => ?_
      cases removed with
      | false =>
        exact conform_stepThen hu.1 hF (by simp) _ fun v hv =>
          conform_exit hv hF hrun (by simp) (by simp) _
      | true =>
        have habsent := hu.2 true rfl (Absent r.change) (fun e he => .inr (.inl he))
        exact conform_stepThen habsent hF (by simp) _ fun v hv =>
          conform_recoverSettled hv hF hrun (hps.snoc.alike (.addStep (by simp) none))
    · next hd =>
      split
      · refine Safe.andThen (conform_harmless working_lasts (only_host trivial) ht) fun now u hu => ?_
        exact conform_settleAfterExpiry hu.1 hF hrun (by simp) _
      · next hp =>
        rcases hpresence _ rfl with hp' | ⟨-, habsent⟩
        · exact absurd hp' hp
        · exact conform_recoverSettled habsent hF hrun hps.snoc

theorem only_storedPlan : Only Op.harmless (storedPlan r) := by
  refine Only.bind (Only.attempt (only_host trivial)) fun x => ?_
  cases x with
  | ok _ => trivial
  | error e =>
    dsimp only
    split <;> trivial

/-- **An unfinished operation is finished from its record alone.** -/
theorem conform_recoverOne (h : Working p r ps F s) (hF : Frame r.changeId F)
    (hrun : r.status = .running) (hps : Since r [] ps) (dev : Device) :
    Conforms cfg p (recoverOne cfg dev r) (Returns (Ended p r F)) s := by
  have ha : Alike r (r.addStep .recoveryStart none) := .addStep (by simp) none
  unfold recoverOne
  split
  · next hn =>
    refine conform_stepThen h hF (by simp) _ fun t ht => ?_
    refine conform_finish ht hF hrun _ _ _ (fun _ => ?_) (fun hc => nomatch hc)
    simpa using hn
  · refine Safe.andThen (conform_harmless working_lasts only_storedPlan h) fun _ t ht => ?_
    refine Safe.andThen (P := fun _ u => Working p r ps F u) (Safe.ofExcept ht.1) fun _ u hu => ?_
    refine conform_stepThen hu hF (by simp) _ fun v hv => ?_
    refine Safe.attemptThen (conform_call hv hF.framed (by trivial)) fun x w hw => ?_
    cases x with
    | error e =>
      exact conform_stepThen hw.1 hF (by simp) _ fun z hz =>
        conform_exit hz hF hrun (by simp) (by simp) _
    | ok _ => exact conform_recoverSafeguard hw.1 hF hrun (hps.alike ha) dev

end

/-! ## all operations of a device -/

section
variable {cfg : Config} {p : Pid} {s : State}

/-- an unfinished operation of the device, as it is on file -/
structure Resumable (d : String) (v : View) (r : Record) : Prop where
  device : r.device = d
  stored : v.ops r.changeId = some r
  running : r.status = .running
  ok : RecordOk d r v
  journaled : .confirmStart ∈ r.stepNames → GatesJournaled r.change v.trace

theorem DeviceOk.resumable {d : String} {v : View} {r : Record} (h : DeviceOk d v)
    (hd : r.device = d) (hr : v.ops r.changeId = some r) (hrun : r.status = .running) :
    Resumable d v r :=
  ⟨hd, hr, hrun, h.record _ r hr, h.journaled _ r hr⟩

/-- the work on another operation leaves it alone -/
theorem Resumable.moved {d : String} {v v' : View} {r : Record} {c : ChangeId}
    (h : Resumable d v r) (hc : r.changeId ≠ c) (hm : v.Moved c v') : Resumable d v' r := by
  obtain ⟨e, he, htr⟩ := hm.trace
  refine ⟨h.device, (hm.others _ hc).trans h.stored, h.running, ?_, fun hcs => ?_⟩
  · refine h.ok.cons htr (fun _ => he _) (fun hb => ?_)
    simp [Record.blocking, h.running] at hb
  · rw [htr]
    exact (h.journaled hcs).cons e

theorem Resumable.working {d : String} {r : Record} {F : View → Prop} (h : Resumable d (s.view d) r)
    (hlock : s.locks d = some p) (hF : F (s.view d)) :
    ∃ ps, Since r [] ps ∧ Working p r ps F s := by
  obtain ⟨rfl, hr, hrun, hok, hj⟩ := h
  have hs : Saveable r.device r (s.view r.device) := ⟨hok, r, hr, .refl r⟩
  by_cases hc : .confirmStart ∈ r.stepNames
  · obtain ⟨text, last, hj⟩ := hj hc
    exact ⟨_, fun _ => ⟨text, last, (List.append_nil _).symm⟩, hlock, hs, hj, hF⟩
  · exact ⟨[], fun h => absurd h hc, hlock, hs, .nil _, hF⟩

/-- `rs` are the unfinished operations of the device -/
structure Unfinished (d : String) (rs : List Record) (v : View) : Prop where
  resumable : ∀ r ∈ rs, Resumable d v r
  nodup : (rs.map (·.changeId)).Nodup
  all : ∀ c r, v.ops c = some r → r.status = .running → c ∈ rs.map (·.changeId)

theorem conform_recoverAll {d : String} (rs : List Record) (hlock : s.locks d = some p)
    (h : Unfinished d rs (s.view d)) (dev : Device) :
    Conforms cfg p (recoverAll cfg dev rs) (Returns fun _ t => t.locks d = some p ∧
      Unfinished d [] (t.view d)) s := by
  induction rs generalizing s with
  | nil =>
    intro _ _
    exact ⟨hlock, h⟩
  | cons r rs ih =>
    have hr := h.resumable r List.mem_cons_self
    obtain ⟨hnew, hnodup⟩ := List.nodup_cons.mp h.nodup
    -- the other operations are left alone
    let F : View → Prop := fun v => (∀ r' ∈ rs, Resumable d v r') ∧
      ∀ c r', c ≠ r.changeId → v.ops c = some r' → r'.status = .running →
        c ∈ rs.map (·.changeId)
    have hF : Frame r.changeId F := by
      intro v v' hm ⟨h1, h2⟩
      refine ⟨fun r' hr' => (h1 r' hr').moved (fun he => ?_) hm, fun c r' hc hr' => ?_⟩
      · exact hnew (List.mem_map.mpr ⟨r', hr', he⟩)
      · rw [hm.others c hc] at hr'
        exact h2 c r' hc hr'
    have hFs : F (s.view d) := by
      refine ⟨fun r' hr' => h.resumable r' (.tail _ hr'), fun c r' hc hr' hs => ?_⟩
      rcases List.mem_cons.mp (h.all c r' hr' hs) with rfl | hmem
      · exact absurd rfl hc
      · exact hmem
    obtain ⟨ps, hps, hw⟩ := hr.working hlock hFs
    refine Safe.andThen (conform_recoverOne hw hF hr.running hps dev) fun r₁ t ht => ?_
    obtain ⟨hl, ht⟩ := ht r₁ rfl
    have hd : r₁.device = d := hl.device.trans hr.device
    have hrest : Unfinished d rs (t.view d) := by
      obtain ⟨⟨h1, h2⟩, r₂, hr₂, hs₂⟩ := hd ▸ ht.frame
      refine ⟨h1, hnodup, fun c r' hr' hs => ?_⟩
      by_cases hc : c = r.changeId
      · -- this one is finished
        subst hc
        cases hr₂.symm.trans hr'
        rw [hs₂] at hs
        cases hs
      · exact h2 c r' hc hr' hs
    refine Safe.andThen (ih (hd ▸ ht.lock) hrest) fun rs' u hu => ?_
    intro _ _
    exact hu rs' rfl

/-- the unfinished operations of a device, read by whoever holds its lock -/
theorem conform_running {d : String} (hlock : s.locks d = some p) (hok : DeviceOk d (s.view d)) :
    Conforms cfg p (Journal.running d) (Returns fun rs t => t.locks d = some p ∧
      Unfinished d rs (t.view d)) s := by
  let K : State → Prop := fun t => t.locks d = some p ∧ t.view d = s.view d
  have hK : Lasts cfg p K := fun t u _ hr ⟨h1, h2⟩ =>
    ⟨(hr.locks d).mpr h1, (hr.view d h1).trans h2⟩
  refine Safe.andThen (conform_records hK ⟨hlock, rfl⟩) fun rs t ht => ?_
  obtain ⟨hKt, u, hKu, hiu, -, hrs⟩ := ht rs rfl
  intro rs' hrs'
  cases hrs'
  refine ⟨hKt.1, ?_⟩
  rw [hKt.2]
  -- a record of the device is the same at every moment
  have hops : ∀ w c r, K w → w.store.ops c = some r → r.device = d →
      (s.view d).ops c = some r := fun w c r hw hr hd => by
    rw [← hw.2]
    exact Store.deviceOps_eq_some.mpr ⟨hr, hd⟩
  have hids : rs.map (·.changeId) = u.store.ids.mergeSort := by
    refine List.forall₂_eq_eq_eq ▸ (List.forall₂_map_left_iff.mpr (hrs.flip.imp ?_))
    intro r c h
    obtain ⟨-, w, -, hiw, hr⟩ := h
    exact hiw.changeId c r hr
  have hnodup : (rs.map (·.changeId)).Nodup := by
    rw [hids]
    exact (List.mergeSort_perm _ _).nodup_iff.mpr hiu.nodup
  refine ⟨fun r hr => ?_, ?_, fun c r hr hs => ?_⟩
  · obtain ⟨hmem, hf⟩ := List.mem_filter.mp hr
    simp only [Bool.and_eq_true, decide_eq_true_eq] at hf
    obtain ⟨c, -, -, w, hKw, hiw, hr'⟩ := forall₂_mem_right hrs hmem
    have hstored := hops w c r hKw hr' hf.1
    rw [← hiw.changeId c r hr'] at hstored
    exact hok.resumable hf.1 hstored hf.2
  · exact hnodup.sublist (List.filter_sublist.map _)
  · rw [← hKu.2] at hr
    have hmem : c ∈ u.store.ids.mergeSort := by
      rw [List.mem_mergeSort, hiu.ids c, (Store.deviceOps_eq_some.mp hr).1]
      simp
    obtain ⟨r', hr', -, w, hKw, hiw, hw⟩ := forall₂_mem_left hrs hmem
    rw [hKu.2, ← hKw.2] at hr
    obtain ⟨hr, hd⟩ := Store.deviceOps_eq_some.mp hr
    cases hw.symm.trans hr
    refine List.mem_map.mpr ⟨r, List.mem_filter.mpr ⟨hr', ?_⟩, hiw.changeId c r hr⟩
    simp [hd, hs]

/-! ## `recover` -/

/-- every operation of the device is finished -/
def AllDone (v : View) : Prop := ∀ c r, v.ops c = some r → r.status = .finished

theorem Unfinished.allDone {d : String} {v : View} (h : Unfinished d [] v) : AllDone v := by
  intro c r hr
  cases hs : r.status with
  | finished => rfl
  | running => cases h.all c r hr hs

/-- work on an operation that is there keeps everything finished -/
theorem frame_allDone (c : ChangeId) : Frame c fun v => AllDone v ∧ v.ops c ≠ none := by
  intro v v' hm ⟨h1, h2⟩
  obtain ⟨r, hr⟩ := Option.ne_none_iff_exists'.mp h2
  obtain ⟨r', hr', hl⟩ := hm.own r hr
  refine ⟨fun c' r'' hr'' => ?_, by rw [hr']; simp⟩
  by_cases hc : c' = c
  · subst hc
    cases hr'.symm.trans hr''
    exact (hl.finished (h1 _ r hr)).1
  · rw [hm.others c' hc] at hr''
    exact h1 c' r'' hr''

/-- the operation that blocks the device, read by whoever holds its lock -/
theorem conform_unverifiedSafeguard {d : String} (hlock : s.locks d = some p)
    (h : AllDone (s.view d)) :
    Conforms cfg p (unverifiedSafeguard d) (Returns fun o t => t.locks d = some p ∧
      AllDone (t.view d) ∧ ∀ r, o = some r → r.device = d ∧
        Working p r [] (fun v => AllDone v ∧ v.ops r.changeId ≠ none) t) s := by
  let K : State → Prop := fun t => t.locks d = some p ∧ t.view d = s.view d
  have hK : Lasts cfg p K := fun t u _ hr ⟨h1, h2⟩ =>
    ⟨(hr.locks d).mpr h1, (hr.view d h1).trans h2⟩
  refine Safe.andThen (P := Returns fun o t => K t ∧ ∀ b c, o = some b → b.changeId = some c →
    (t.view d).ops c ≠ none) ?_ fun o t ht => ?_
  · refine conform_read hK (.readBlock d) trivial ⟨hlock, rfl⟩ ?_ (fun e u _ _ ha => nomatch ha)
    intro t u ht hi _ hu _ o ho
    cases ho
    refine ⟨hu, fun b c hb hc => ?_⟩
    rw [hu.2, ← ht.2]
    -- the block of the device is of one of its own operations
    exact (hi.device d).owner b c hb hc
  · obtain ⟨hKt, hown⟩ := ht o rfl
    have hdone : AllDone (t.view d) := hKt.2 ▸ h
    have hnone : ∀ u, u.locks d = some p → AllDone (u.view d) →
        Returns (ε := Exn) (fun o (t : State) => t.locks d = some p ∧ AllDone (t.view d) ∧
          ∀ r, o = some r → r.device = d ∧
            Working p r [] (fun v => AllDone v ∧ v.ops r.changeId ≠ none) t)
          (.ok (none : Option Record)) u := by
      intro u hl hd o ho
      cases ho
      exact ⟨hl, hd, fun r hr => nomatch hr⟩
    cases o with
    | none => exact hnone t hKt.1 hdone
    | some b =>
      cases hc : b.changeId with
      | none =>
        simp only [hc]
        exact hnone t hKt.1 hdone
      | some c =>
        simp only [hc]
        refine Safe.andThen (conform_readHeld hKt.1 (hown b c rfl hc)) fun o u hu => ?_
        obtain ⟨r, rfl, rfl, hw⟩ := hu o rfl
        have hw : Working p r [] (fun v => AllDone v ∧ v.ops r.changeId ≠ none) u :=
          hw.mono (List.Sublist.refl _) fun v hv => ⟨hv.1 ▸ hdone, hv.2⟩
        dsimp only
        split
        · exact hnone u hw.lock hw.frame.1
        · split
          · exact hnone u hw.lock hw.frame.1
          · intro o ho
            cases ho
            refine ⟨hw.lock, hw.frame.1, fun r' hr' => ?_⟩
            cases hr'
            exact ⟨rfl, hw⟩

theorem conform_removeUnverifiedSafeguard {r : Record} {F : View → Prop}
    (h : Working p r [] F s) (hF : Frame r.changeId F) :
    Conforms cfg p (removeUnverifiedSafeguard r) (Returns fun _ t => Working p r [] F t) s := by
  refine Safe.andThen (conform_harmless working_lasts only_storedPlan h) fun _ t ht => ?_
  refine Safe.andThen (P := fun _ u => Working p r [] F u) (Safe.ofExcept ht.1) fun _ u hu => ?_
  refine (conform_work (V := fun _ => True) (E := fun _ => True) ?_ hF.framed hu).mono fun _ _ h _ _ => h.1
  have ha : Alike r (r.addStep .recoveryStart none) := .addStep (by simp) none
  have hstep : ∀ name detail, name ≠ .confirmStart →
      Only (Op.works r) (step (r.addStep .recoveryStart none) name detail) :=
    fun name detail hname => (all_step works_of_harmless _ name detail
      (ha.trans (.addStep hname detail))).mono (fun _ h => h) (fun _ _ => trivial) fun _ h => h
  refine All.bind (all_step works_of_harmless r .recoveryStart none ha) fun r₁ hr₁ => ?_
  subst hr₁
  refine Only.bind (Only.attempt ?_) fun x => ?_
  · exact Only.bind (only_device ⟨rfl, rfl, trivial⟩) fun _ => only_device ⟨rfl, rfl, trivial⟩
  · cases x with
    | error e => exact hstep _ _ (by simp)
    | ok removed =>
      refine hstep _ _ ?_
      split <;> simp

/-- **`recover` leaves nothing of the device unfinished.** -/
theorem conform_recover (d : String) :
    Conforms cfg p (recover cfg d) (Returns fun _ t => ∀ dev, cfg.devices d = some dev →
      AllDone (t.view dev.name)) s := by
  unfold recover
  cases hd : cfg.devices d with
  | none => exact fun _ h => nomatch h
  | some dev =>
    dsimp only
    refine Safe.mono (Q := Returns fun _ t => AllDone (t.view dev.name)) ?_ fun x t h a ha dev' hd' => ?_
    · refine conform_withLock (K := fun _ => True) (fun _ _ _ _ _ => trivial) trivial
        (fun _ _ => trivial) fun t _ hi hlock => ?_
      refine conform_withTargetLock
        (K := fun u => u.locks dev.name = some p ∧ DeviceOk dev.name (u.view dev.name))
        (fun u v _ hr ⟨h1, h2⟩ => ⟨(hr.locks _).mpr h1, hr.view _ h1 ▸ h2⟩)
        ⟨hlock, hi.device dev.name⟩
        (fun _ u v _ hr ⟨h1, h2⟩ => ⟨(hr.locks _).mpr h1, hr.view _ h1 ▸ h2⟩) fun u hu => ?_
      refine Safe.andThen (conform_running hu.1 hu.2) fun rs v hv => ?_
      obtain ⟨hlock, hrs⟩ := hv rs rfl
      refine Safe.andThen (conform_recoverAll rs hlock hrs dev) fun settled w hw => ?_
      obtain ⟨hlock, hnone⟩ := hw settled rfl
      refine Safe.andThen (conform_unverifiedSafeguard hlock hnone.allDone) fun o x hx => ?_
      obtain ⟨hlock, hdone, hfound⟩ := hx o rfl
      cases o with
      | none => exact fun _ _ => ⟨hlock, hdone⟩
      | some r =>
        obtain ⟨hd, hw⟩ := hfound r rfl
        rw [← hd]
        refine Safe.andThen (conform_removeUnverifiedSafeguard hw (frame_allDone _)) fun r' y hy => ?_
        have hy := hy r' rfl
        exact fun _ _ => ⟨hy.lock, hy.frame.1⟩
    · cases hd'
      exact h a ha

end

end Netops
