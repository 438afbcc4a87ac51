import Netops.Helper.Pairing

/-!
# Every request has one answer

The programs of the proxy, piece by piece, and what holds in every run whose steps all meet
`State.meets`.

* `Keeps`     a program does nothing that is not `Allowed`, whatever the others do in between;
* `Ctl`, `Steady`   what the holder of the controller lock knows, and what stays true for it;
* `keeps_reap`, `keeps_request`, `keeps_deliver`, `keeps_response`;
* `one_answer_each`   the pairing of requests and answers;
* `stale_request`     a run in which a session is opened over requests of the last one.
-/

namespace Netops.Helper
open Effect

section
variable {rt : Runtime} {p : Nat} {s : State} {α β : Type}

/-- The program does what is allowed and raises nothing, and ends as `Q` says, if all steps met the
condition. -/
abbrev Keeps (rt : Runtime) (p : Nat) (m : P α) (Q : α → State → Prop) (s : State) : Prop :=
  Safe (machine rt p) Inv (Rely p) (Allowed rt p) m
    (fun x t => t.broken = false → ∃ a, x = .ok a ∧ Q a t) s

/-- nothing is said once a step did not meet the condition -/
theorem Keeps.of_broken {m : P α} {Q : α → State → Prop} (h : s.broken = true) :
    Keeps rt p m Q s := by
  cases m with
  | ret a => exact fun hb => nomatch h.symm.trans hb
  | raise e => exact fun hb => nomatch h.symm.trans hb
  | stuck => trivial
  | op o k => exact fun t hr hi => nomatch (hr.broken h).symm.trans hi.unbroken

theorem Keeps.ret {a : α} {Q : α → State → Prop} (h : Q a s) : Keeps rt p (.ret a) Q s :=
  fun _ => ⟨a, rfl, h⟩

theorem Keeps.mono {m : P α} {Q Q' : α → State → Prop} (h : Keeps rt p m Q s)
    (hQ : ∀ a t, Q a t → Q' a t) : Keeps rt p m Q' s := by
  refine Safe.mono h fun x t hx hb => ?_
  obtain ⟨a, ha, hq⟩ := hx hb
  exact ⟨a, ha, hQ a t hq⟩

theorem Keeps.bind {m : P α} {f : α → P β} {K : α → State → Prop} {Q : β → State → Prop}
    (h : Keeps rt p m K s) (hf : ∀ a t, K a t → Keeps rt p (f a) Q t) :
    Keeps rt p (m.bind f) Q s := by
  refine Safe.bind h (fun a t ha => ?_) fun e t he hb => ?_
  · cases hb : t.broken with
    | true => exact Keeps.of_broken hb
    | false =>
      obtain ⟨b, hab, hk⟩ := ha hb
      cases hab
      exact hf a t hk
  · obtain ⟨a, ha, -⟩ := he hb
    cases ha

theorem Keeps.attempt {m : P α} {Q : α → State → Prop} (h : Keeps rt p m Q s) :
    Keeps rt p m.attempt (fun x t => ∃ a, x = .ok a ∧ Q a t) s :=
  Safe.attempt h fun x _ hx hb => ⟨x, rfl, hx hb⟩

/-- One operation under a fact `K` that the others keep; the state after it is well formed. -/
theorem Keeps.call {o : Op} {Q : o.Answer → State → Prop} (K : State → Prop)
    (hst : Stable Inv (Rely p) K) (hK : K s)
    (h : ∀ t, K t → Inv t → Allowed rt p t o ∧ ∀ a, t.meets rt o a = true →
      Inv (o.exec rt p t a).2 → Q (o.exec rt p t a).1 (o.exec rt p t a).2) :
    Keeps rt p (Helper.call o) Q s := by
  refine Safe.call K hst hK fun t hKt hi => ?_
  obtain ⟨hok, hnext⟩ := h t hKt hi
  refine ⟨hok, fun a hb => ?_⟩
  have hm : t.meets rt o a = true := by
    by_contra hm
    rw [broken_of_not_meets (.inr (by simpa using hm))] at hb
    cases hb
  rw [machine_exec hi.unbroken hm]
  exact ⟨_, rfl, hnext a hm (hi.exec hok hm)⟩

/-! ## what the controller knows -/

/-- a fact that stays true for the holder of the controller lock -/
def Steady (K : State → Prop) : Prop := ∀ s t, Inv t → Locked s t → K s → K t

theorem Steady.and {K L : State → Prop} (hK : Steady K) (hL : Steady L) :
    Steady fun s => K s ∧ L s :=
  fun s t hi h hs => ⟨hK s t hi h hs.1, hL s t hi h hs.2⟩

/-- the process has the lock; all it took up after it was written has its answer, but for `owed` -/
structure Ctl (p : Nat) (owed : List Nat) (s : State) : Prop where
  lock : s.lock = some p
  clean : ∀ t, s.holder t = some .controller → s.wasWritten t = true → s.Answered t ∨ t ∈ owed

theorem Ctl.locked {owed : List Nat} {t : State} (h : Ctl p owed s) (hl : Locked s t) :
    Ctl p owed t where
  lock := hl.lock.trans h.lock
  clean := fun x hx hw => (h.clean x ((hl.holder x).mp hx) ((hl.wasWritten x).symm.trans hw)).imp_left
    (hl.answered x)

theorem Steady.stable {K : State → Prop} (hK : Steady K) (owed : List Nat) :
    Stable Inv (Rely p) fun s => Ctl p owed s ∧ K s := by
  intro s t hi hr h
  have hl := hr.locked h.1.lock
  exact ⟨h.1.locked hl, hK s t hi hl h.2⟩

/-- no request that waits has an answer -/
def State.Unanswered (s : State) : Prop := ∀ e ∈ s.pending, ¬ s.Answered e.2

theorem steady_unanswered : Steady State.Unanswered := by
  intro s t hi hl h e he ha
  cases hw : t.wasWritten e.2 with
  | true => exact (hi.waiting e he hw).2 ha
  | false =>
    have hh := (hl.holder e.2).mp (hi.fresh e he hw).2
    exact h e (hl.pending.subset he) (hl.unanswered e.2 hh ha)

theorem steady_rested : Steady State.Rested :=
  fun _ _ _ hl h e he => (hl.wasWritten e.2).trans (h e (hl.pending.subset he))

theorem steady_reaped : Steady State.Reaped := by
  intro s t hi hl h
  refine ⟨fun e he => (hl.wasWritten e.2).trans (h.1 e (hl.pending.subset he)), ?_⟩
  exact List.eq_nil_iff_forall_not_mem.mpr fun c hc => by
    have := hl.alive c hc
    rw [h.2] at this
    cases this

theorem steady_closed : Steady fun s => s.sessionOpen = false := fun _ _ _ hl h => (hl.closed h).1

theorem steady_dead : Steady fun s => s.restartable = true → s.alive = [] := by
  intro s t hi hl h hr
  refine List.eq_nil_iff_forall_not_mem.mpr fun c hc => ?_
  have := hl.alive c hc
  rw [h (hl.restartable.symm.trans hr)] at this
  cases this

/-- the session waits for `finish_session` -/
def State.Closing (s : State) : Prop := s.sessionOpen = false ∧ s.reason ≠ none

theorem steady_closing : Steady State.Closing :=
  fun _ _ _ hl h => ⟨(hl.closed h.1).1, (hl.closed h.1).2 ▸ h.2⟩

theorem steady_active : Steady State.Active := by
  intro s t hi hl h
  cases ho : s.sessionOpen with
  | true => exact (hl.opened ho).imp_right fun h => h.2
  | false =>
    refine .inr ((hl.closed ho).2 ▸ h.resolve_left ?_)
    rw [ho]
    decide

/-- unless the session was closed in the meantime, it is open or it was finished -/
def State.Gate (s : State) : Prop :=
  s.closedSince = false → s.sessionOpen = true ∨ (s.restartable = true → s.Reaped)

theorem steady_gate : Steady State.Gate := by
  intro s t hi hl h hc
  have hs : s.closedSince = false := by
    cases hsc : s.closedSince with
    | false => rfl
    | true => exact nomatch (hl.since hsc).symm.trans hc
  rcases h hs with ho | hr
  · exact (hl.opened ho).imp_right fun h => nomatch h.1.symm.trans hc
  · exact .inr fun hrest => steady_reaped s t hi hl (hr (hl.restartable.symm.trans hrest))

/-- the request that `forward` is about: it waits, was not written and has no answer -/
structure State.Fresh (id : Id) (tag : Nat) (s : State) : Prop where
  pending : (id, tag) ∈ s.pending
  unwritten : s.wasWritten tag = false
  only : ∀ e ∈ s.pending, s.wasWritten e.2 = false → e.2 = tag

theorem steady_fresh (id : Id) (tag : Nat) : Steady (State.Fresh id tag) :=
  fun _ _ _ hl h => {
    pending := hl.kept _ h.pending h.unwritten
    unwritten := (hl.wasWritten tag).trans h.unwritten
    only := fun e he hw => h.only e (hl.pending.subset he) ((hl.wasWritten e.2).symm.trans hw) }

/-! ## the controller, piece by piece -/

/-- nothing waits, the session is closed and its connection is gone -/
def State.Emptied (s : State) : Prop :=
  s.pending = [] ∧ s.sessionOpen = false ∧ (s.restartable = true → s.alive = [])

theorem steady_emptied : Steady State.Emptied := by
  intro s t hi hl h
  refine ⟨?_, (hl.closed h.2.1).1, steady_dead s t hi hl h.2.2⟩
  have hsub := hl.pending
  rw [h.1] at hsub
  exact List.sublist_nil.mp hsub

/-- the requests that `abandon` took up and that still have to be answered -/
structure State.Owed (l : List (Id × Nat)) (s : State) : Prop where
  nodup : (l.map Prod.snd).Nodup
  held : ∀ e ∈ l, s.holder e.2 = some .controller
  unanswered : ∀ e ∈ l, ¬ s.Answered e.2
  known : ∀ e ∈ l, s.accepted[e.2]? = some e.1

theorem steady_owed (l : List (Id × Nat)) : Steady (State.Owed l) :=
  fun _ _ _ hl h => {
    nodup := h.nodup
    held := fun e he => (hl.holder e.2).mpr (h.held e he)
    unanswered := fun e he ha => h.unanswered e he (hl.unanswered e.2 (h.held e he) ha)
    known := fun e he => hl.accepted ▸ h.known e he }

/-- a line more: what was answered stays answered -/
theorem answered_cons {tag t : Nat} {id : Id} :
    State.Answered { s with out := (some tag, id) :: s.out } t ↔ t = tag ∨ s.Answered t := by
  constructor
  · rintro ⟨v, hv⟩
    rcases List.mem_cons.mp hv with hv | hv
    · exact .inl (Option.some.inj (Prod.mk.inj hv).1)
    · exact .inr ⟨v, hv⟩
  · rintro (rfl | ⟨v, hv⟩)
    · exact ⟨id, List.mem_cons_self⟩
    · exact ⟨v, List.mem_cons_of_mem _ hv⟩

/-- an operation of the controller, under a steady fact -/
theorem Keeps.ctl {o : Op} {Q : o.Answer → State → Prop} {owed : List Nat} {K : State → Prop}
    (hst : Steady K) (hc : Ctl p owed s) (hK : K s)
    (h : ∀ t, Ctl p owed t → K t → Inv t → Allowed rt p t o ∧ ∀ a, t.meets rt o a = true →
      Inv (o.exec rt p t a).2 → Q (o.exec rt p t a).1 (o.exec rt p t a).2) :
    Keeps rt p (Helper.call o) Q s :=
  Keeps.call _ (hst.stable owed) ⟨hc, hK⟩ fun t ht hi => h t ht.1 ht.2 hi

/-- the controller looks at the state -/
theorem Keeps.read {o : Op} {owed : List Nat} {K : State → Prop} (hr : reads o = true)
    (hst : Steady K) (hc : Ctl p owed s) (hK : K s) :
    Keeps rt p (Helper.call o)
      (fun x t => Ctl p owed t ∧ K t ∧ Inv t ∧ ∃ a, x = (o.exec rt p t a).1) s := by
  refine Keeps.ctl hst hc hK fun t hc hK hi => ⟨?_, fun a _ _ => ?_⟩
  · cases o with
    | write tag =>
      cases tag with
      | none => trivial
      | some tag => cases hr
    | release | forbidRestart | accept | emit | clearPending | finishCheck | kill | abandon
    | openSession => cases hr
    | _ => trivial
  · rw [exec_of_reads hr]
    exact ⟨hc, hK, hi, a, rfl⟩

theorem keeps_emitAll (l : List (Id × Nat)) (hc : Ctl p (l.map Prod.snd) s) (ho : s.Owed l)
    (he : s.Emptied) : Keeps rt p (emitAll l) (fun _ t => Ctl p [] t ∧ t.Emptied) s := by
  induction l generalizing s with
  | nil => exact Keeps.ret ⟨hc, he⟩
  | cons e l ih =>
    obtain ⟨id, tag⟩ := e
    refine Keeps.bind (K := fun _ t => Ctl p (l.map Prod.snd) t ∧ t.Owed l ∧ t.Emptied)
      (Keeps.ctl ((steady_owed ((id, tag) :: l)).and steady_emptied) hc ⟨ho, he⟩ ?_)
      (fun _ t h => ih h.1 h.2.1 h.2.2)
    rintro t hc ⟨ho, he⟩ hi
    refine ⟨⟨ho.known _ List.mem_cons_self, ho.unanswered _ List.mem_cons_self,
      .inr ⟨hc.lock, ho.held _ List.mem_cons_self⟩⟩, fun _ _ _ => ⟨⟨hc.lock, ?_⟩, ?_, he⟩⟩
    · intro x hx hw
      rcases hc.clean x hx hw with h | h
      · exact .inl (answered_cons.mpr (.inr h))
      · rcases List.mem_cons.mp h with h | h
        · exact .inl (answered_cons.mpr (.inl h))
        · exact .inr h
    · obtain ⟨hn, hnodup⟩ := List.nodup_cons.mp ho.nodup
      refine ⟨hnodup, fun e he => ho.held e (List.mem_cons_of_mem _ he), fun e he ha => ?_,
        fun e he => ho.known e (List.mem_cons_of_mem _ he)⟩
      rcases answered_cons.mp ha with h | h
      · exact hn (List.mem_map.mpr ⟨e, he, h⟩)
      · exact ho.unanswered e (List.mem_cons_of_mem _ he) h

/-- **`abandon`**: what waits is taken up and answered -/
theorem keeps_abandon (hc : Ctl p [] s) (hu : s.Unanswered) (hcl : s.sessionOpen = false)
    (hd : s.restartable = true → s.alive = []) :
    Keeps rt p abandon (fun _ t => Ctl p [] t ∧ t.Emptied) s := by
  refine Keeps.bind (K := fun l t => Ctl p (l.map Prod.snd) t ∧ t.Owed l ∧ t.Emptied)
    (Keeps.ctl (steady_unanswered.and (steady_closed.and steady_dead)) hc ⟨hu, hcl, hd⟩ ?_)
    (fun l t h => keeps_emitAll l h.1 h.2.1 h.2.2)
  rintro t hc ⟨hu, hcl, hd⟩ hi
  refine ⟨⟨hc.lock, hcl, hd⟩, fun _ _ _ => ⟨⟨hc.lock, fun x hx hw => ?_⟩, ?_, rfl, hcl, hd⟩⟩
  · by_cases hmem : x ∈ t.pending.map Prod.snd
    · exact .inr hmem
    · have hx' : (if x ∈ t.pending.map Prod.snd then some .controller else t.holder x)
          = some Owner.controller := hx
      rw [if_neg hmem] at hx'
      exact .inl ((hc.clean x hx' hw).resolve_right List.not_mem_nil)
  · exact ⟨hi.tags, fun e he => if_pos (List.mem_map_of_mem he), hu, hi.known⟩

/-- what holds whenever the controller is between two of its tasks -/
structure State.Between (s : State) : Prop where
  unanswered : s.Unanswered
  rested : s.Rested
  gate : s.Gate

theorem State.Emptied.between (h : s.Emptied) : s.Between where
  unanswered := fun _ he => nomatch h.1 ▸ he
  rested := fun _ he => nomatch h.1 ▸ he
  gate := fun _ => .inr fun hr => ⟨fun _ he => (nomatch h.1 ▸ he), h.2.2 hr⟩

/-- after the session was looked at: nothing is left, or it is to be closed -/
abbrev Reaped : Option Reason → State → Prop
  | none, t => t.Between
  | some _, t => t.Unanswered ∧ t.sessionOpen = false

/-- **`_reap`**: a session that was closed is finished, and all that waited is answered -/
theorem keeps_reap (hc : Ctl p [] s) (hu : s.Unanswered) (hr : s.Rested ∨ s.Closing) :
    Keeps rt p reap (fun _ t => Ctl p [] t ∧ t.Between) s := by
  have hst : Steady fun s => s.Unanswered ∧ (s.Rested ∨ s.Closing) :=
    steady_unanswered.and fun s t hi hl h =>
      h.imp (steady_rested s t hi hl) (steady_closing s t hi hl)
  refine Keeps.bind (K := fun x t => Ctl p [] t ∧ Reaped x t) (Keeps.ctl hst hc ⟨hu, hr⟩ ?_) ?_
  · rintro t hc ⟨hu, hr⟩ hi
    refine ⟨hc.lock, fun _ _ _ => ?_⟩
    show Ctl p [] { t with closedSince := false } ∧ _
    refine ⟨⟨hc.lock, hc.clean⟩, ?_⟩
    cases ho : t.sessionOpen with
    | true =>
      have hx : (if t.sessionOpen = true then none else t.reason) = none := if_pos ho
      simp only [Op.exec, hx]
      exact ⟨hu, hr.resolve_right fun h => (by cases ho.symm.trans h.1), fun _ => .inl ho⟩
    | false =>
      have hx : (if t.sessionOpen = true then none else t.reason) = t.reason :=
        if_neg (by rw [ho]; decide)
      simp only [Op.exec, hx]
      cases hreason : t.reason with
      | none =>
        refine ⟨hu, hr.resolve_right fun h => h.2 hreason, fun _ => .inr fun hrest => ?_⟩
        exact hi.reaped ho hreason hrest
      | some r => exact ⟨hu, ho⟩
  · rintro (_ | reason) t ⟨hc, h⟩
    · exact Keeps.ret ⟨hc, h⟩
    · refine Keeps.bind (K := fun _ t => Ctl p [] t ∧ t.Unanswered ∧ t.sessionOpen = false ∧
        t.alive = []) (Keeps.ctl (steady_unanswered.and steady_closed) hc h ?_) ?_
      · rintro t hc ⟨hu, hcl⟩ hi
        refine ⟨hc.lock, fun _ _ _ => ⟨⟨hc.lock, hc.clean⟩, hu, hcl, ?_⟩⟩
        refine List.filter_eq_nil_iff.mpr fun c hmem => ?_
        simp [hi.alive c hmem]
      · rintro - t ⟨hc, hu, hcl, hd⟩
        refine Keeps.bind (keeps_abandon hc hu hcl fun _ => hd) fun _ t h => ?_
        split_ifs
        · refine Keeps.ctl steady_emptied h.1 h.2 fun t hc he hi => ⟨hc.lock, fun _ _ _ => ?_⟩
          exact ⟨⟨hc.lock, hc.clean⟩, State.Emptied.between ⟨he.1, he.2.1, fun hn => (by cases hn)⟩⟩
        · exact Keeps.ret ⟨h.1, h.2.between⟩

theorem sameKey_self {id : Id} (h : validId id = true) : sameKey rt id id = true := by
  cases id with
  | null => rfl
  | str t => exact decide_eq_true rfl
  | int n => exact decide_eq_true rfl
  | _ => cases h

/-- what waits under this id is the request with this number -/
def State.Sole (rt : Runtime) (id : Id) (tag : Nat) (s : State) : Prop :=
  ∀ e ∈ s.pending, sameKey rt e.1 id = true → e.2 = tag

theorem steady_sole (id : Id) (tag : Nat) : Steady (State.Sole rt id tag) :=
  fun _ _ _ hl h e he => h e (hl.pending.subset he)

/-- The message that `forward` has in hand: a request that was accepted waits and was not written,
nothing else is on its way. -/
def State.Ready (fw : Forwarded) (s : State) : Prop :=
  s.Unanswered ∧ match fw.tag with
    | none => s.Rested
    | some tag => fw.hasId = true ∧ ∃ id, s.Fresh id tag

theorem steady_ready (fw : Forwarded) : Steady (State.Ready fw) := by
  obtain ⟨tag, hasId, init⟩ := fw
  refine steady_unanswered.and ?_
  cases tag with
  | none => exact steady_rested
  | some tag =>
    rintro s t hi hl ⟨h1, id, h2⟩
    exact ⟨h1, id, steady_fresh id tag s t hi hl h2⟩

/-- what `request` leaves behind -/
def State.After (x : Option Forwarded) (s : State) : Prop :=
  match x with
  | none => s.Rested
  | some fw => s.Ready fw ∧ s.Gate

/-- the request is answered here: it is taken off after its answer went out -/
theorem keeps_answer_here {id : Id} {tag : Nat} (hc : Ctl p [] s) (hu : s.Unanswered)
    (hf : s.Fresh id tag) (hs : s.Sole rt id tag) :
    Keeps rt p (do
      call (.emit tag id)
      call (.clearPending id)
      return (none : Option Forwarded)) (fun x t => Ctl p [] t ∧ t.After x) s := by
  refine Keeps.bind (K := fun _ t => Ctl p [] t ∧ t.Fresh id tag ∧ t.Sole rt id tag)
    (Keeps.ctl (steady_unanswered.and ((steady_fresh id tag).and (steady_sole id tag))) hc
      ⟨hu, hf, hs⟩ ?_) ?_
  · rintro t hc ⟨hu, hf, hs⟩ hi
    refine ⟨⟨hi.known _ hf.pending, hu _ hf.pending,
      .inr ⟨hc.lock, (hi.fresh _ hf.pending hf.unwritten).2⟩⟩, fun _ _ _ => ⟨⟨hc.lock, ?_⟩, { hf with }, hs⟩⟩
    exact fun x hx hw => (hc.clean x hx hw).imp_left fun h => answered_cons.mpr (.inr h)
  · rintro - t ⟨hc, hf, hs⟩
    refine Keeps.bind (K := fun _ t => Ctl p [] t ∧ t.Rested)
      (Keeps.ctl ((steady_fresh id tag).and (steady_sole id tag)) hc ⟨hf, hs⟩ ?_)
      fun _ _ h => Keeps.ret h
    rintro t hc ⟨hf, hs⟩ hi
    refine ⟨⟨hc.lock, fun e he hk => hs e he hk ▸ hf.unwritten⟩,
      fun _ _ _ => ⟨⟨hc.lock, hc.clean⟩, fun e he => ?_⟩⟩
    obtain ⟨he, hk⟩ := List.mem_filter.mp he
    by_contra hw
    have hw' : t.wasWritten e.2 = false := Bool.eq_false_iff.mpr hw
    have htag : e.2 = tag := hf.only e he hw'
    have hid : id ∈ t.accepted := List.mem_of_getElem? (hi.known _ hf.pending)
    have hsame : e.1 = id := by
      have h1 := hi.known e he
      rw [htag, hi.known _ hf.pending] at h1
      exact (Option.some.inj h1).symm
    rw [hsame, sameKey_self (hi.valid id hid)] at hk
    cases hk

/-- the message in hand, before the checks of `tools/call` -/
theorem keeps_dispatch (method : Option Json.Value) {id : Option Id} {tag : Option Nat}
    (hc : Ctl p [] s) (hu : s.Unanswered) (hg : s.Gate)
    (h : tag = none ∧ s.Rested ∨ ∃ i t, id = some i ∧ tag = some t ∧ s.Fresh i t ∧ s.Sole rt i t) :
    Keeps rt p (dispatch method id tag) (fun x t => Ctl p [] t ∧ t.After x) s := by
  have hready : ∀ (b : Bool) {t : State}, t.Unanswered → (tag = none ∧ t.Rested ∨
      ∃ i j, id = some i ∧ tag = some j ∧ t.Fresh i j ∧ t.Sole rt i j) →
      t.Ready ⟨tag, id.isSome, b⟩ := by
    rintro b t hu (⟨rfl, hr⟩ | ⟨i, j, rfl, rfl, hf, -⟩)
    · exact ⟨hu, hr⟩
    · exact ⟨hu, rfl, i, hf⟩
  have hst : Steady fun s => s.Unanswered ∧ s.Gate ∧ (tag = none ∧ s.Rested ∨
      ∃ i t, id = some i ∧ tag = some t ∧ s.Fresh i t ∧ s.Sole rt i t) := by
    refine steady_unanswered.and (steady_gate.and fun s t hi hl h => ?_)
    rcases h with ⟨h1, h2⟩ | ⟨i, j, h1, h2, h3, h4⟩
    · exact .inl ⟨h1, steady_rested s t hi hl h2⟩
    · exact .inr ⟨i, j, h1, h2, steady_fresh i j s t hi hl h3, steady_sole i j s t hi hl h4⟩
  simp only [dispatch]
  split_ifs
  · exact Keeps.ret ⟨hc, hready _ hu h, hg⟩
  · refine Keeps.bind (Keeps.read rfl hst hc ⟨hu, hg, h⟩) ?_
    rintro b t ⟨hc, ⟨hu, hg, h⟩, -, -⟩
    cases b with
    | true => exact Keeps.ret ⟨hc, hready _ hu h, hg⟩
    | false =>
      rcases h with ⟨rfl, hr⟩ | ⟨i, j, rfl, rfl, hf, hs⟩
      · exact Keeps.ret ⟨hc, hr⟩
      · exact keeps_answer_here hc hu hf hs

theorem keeps_refuse (id : Id) (hc : Ctl p [] s) (hr : s.Rested) :
    Keeps rt p (refuse id) (fun x t => Ctl p [] t ∧ t.After x) s := by
  refine Keeps.bind (K := fun _ t => Ctl p [] t ∧ t.Rested)
    (Keeps.ctl steady_rested hc hr fun t hc hr hi => ⟨trivial, fun _ _ _ => ⟨⟨hc.lock, ?_⟩, hr⟩⟩)
    fun _ _ h => Keeps.ret h
  exact fun x hx hw => (hc.clean x hx hw).imp_left answered_other.mpr

theorem steady_between : Steady State.Between :=
  fun s t hi hl h => {
    unanswered := steady_unanswered s t hi hl h.unanswered
    rested := steady_rested s t hi hl h.rested
    gate := steady_gate s t hi hl h.gate }

/-- an id that is new, in a state where every request that waits was written -/
theorem accept_fresh (hi : Inv s) (hc : Ctl p [] s) (hb : s.Between) {id : Id}
    (hfind : s.find rt id = none) :
    let t : State := { s.take .controller [s.accepted.length] with
      pending := s.pending ++ [(id, s.accepted.length)]
      accepted := s.accepted ++ [id] }
    Ctl p [] t ∧ t.Unanswered ∧ t.Gate ∧ t.Fresh id s.accepted.length ∧
      t.Sole rt id s.accepted.length := by
  have hnew := not_wasWritten hi (le_refl s.accepted.length)
  refine ⟨⟨hc.lock, fun x hx hw => ?_⟩, fun e he => ?_, fun hs => ?_, ?_, fun e he hk => ?_⟩
  · by_cases hmem : x ∈ [s.accepted.length]
    · rw [List.mem_singleton.mp hmem] at hw
      exact nomatch hnew.symm.trans hw
    · have hx' : (if x ∈ [s.accepted.length] then some .controller else s.holder x)
          = some Owner.controller := hx
      rw [if_neg hmem] at hx'
      exact hc.clean x hx' hw
  · rcases List.mem_append.mp he with he | he
    · exact hb.unanswered e he
    · rw [List.mem_singleton.mp he]
      exact not_answered hi (le_refl _)
  · refine (hb.gate hs).imp_right fun h hr => ⟨fun e he => ?_, (h hr).2⟩
    rcases List.mem_append.mp he with he | he
    · exact (h hr).1 e he
    · rw [List.mem_singleton.mp he]
      exact hnew
  · refine ⟨List.mem_append_right _ (List.mem_singleton.mpr rfl), hnew, fun e he hw => ?_⟩
    rcases List.mem_append.mp he with he | he
    · exact nomatch (hb.rested e he).symm.trans hw
    · rw [List.mem_singleton.mp he]
  · rcases List.mem_append.mp he with he | he
    · exact absurd hk (List.find?_eq_none.mp hfind e he)
    · rw [List.mem_singleton.mp he]

theorem keeps_accept {id : Id} (hid : validId id = true) (hc : Ctl p [] s) (hb : s.Between) :
    Keeps rt p (call (.accept id)) (fun x t => Ctl p [] t ∧ match x with
      | .ok tag => t.Unanswered ∧ t.Gate ∧ t.Fresh id tag ∧ t.Sole rt id tag
      | _ => t.Rested) s := by
  refine Keeps.ctl steady_between hc hb fun t hc hb hi => ⟨⟨hc.lock, hid⟩, fun _ _ _ => ?_⟩
  simp only [Op.exec]
  split_ifs with h1 h2
  · exact ⟨hc, hb.rested⟩
  · exact ⟨hc, hb.rested⟩
  · exact accept_fresh hi hc hb (by simpa using h1)

/-- **`request`** -/
theorem keeps_request (raw : Bytes) (hc : Ctl p [] s) (hb : s.Between) :
    Keeps rt p (request rt raw) (fun x t => Ctl p [] t ∧ t.After x) s := by
  unfold request
  split_ifs
  · exact keeps_refuse _ hc hb.rested
  · split
    · dsimp only
      split
      · exact keeps_dispatch _ hc hb.unanswered hb.gate (.inl ⟨rfl, hb.rested⟩)
      · rename_i id _
        split_ifs with hid
        · exact keeps_refuse _ hc hb.rested
        · refine Keeps.bind (keeps_accept (by simpa using hid) hc hb) ?_
          rintro (_ | _ | tag) t ⟨hc, h⟩
          · exact keeps_refuse _ hc h
          · exact keeps_refuse _ hc h
          · exact keeps_dispatch _ hc h.1 h.2.1 (.inr ⟨id, tag, rfl, rfl, h.2.2.1, h.2.2.2⟩)
        · exact keeps_dispatch _ hc hb.unanswered hb.gate (.inl ⟨rfl, hb.rested⟩)
    · exact keeps_refuse _ hc hb.rested

/-! ### writing to the server -/

/-- the session that was opened as `epoch` is closed; it may have been closed before -/
theorem keeps_close (reason : Reason) {epoch : Nat} (hc : Ctl p [] s) (hu : s.Unanswered)
    (ha : s.Active) (he : s.epoch = epoch) :
    Keeps rt p (call (.close reason epoch))
      (fun _ t => Ctl p [] t ∧ t.Unanswered ∧ (t.Rested ∨ t.Closing)) s := by
  have hst : Steady fun s => s.epoch = epoch := fun _ _ _ hl h => hl.epoch.trans h
  refine Keeps.ctl (steady_unanswered.and (steady_active.and hst)) hc ⟨hu, ha, he⟩ ?_
  rintro t hc ⟨hu, ha, he⟩ hi
  refine ⟨trivial, fun _ _ _ => ?_⟩
  simp only [Op.exec]
  split_ifs with h
  · exact ⟨⟨hc.lock, hc.clean⟩, hu, .inr ⟨rfl, fun h => (by cases h)⟩⟩
  · have hcl : t.sessionOpen = false := by
      cases ho : t.sessionOpen with
      | false => rfl
      | true =>
        refine absurd ?_ h
        simp [State.isAccepting, ho, he]
    refine ⟨hc, hu, .inr ⟨hcl, ha.resolve_left ?_⟩⟩
    rw [hcl]
    decide

/-- a session that fails is closed and finished -/
theorem keeps_closeReap (reason : Reason) {epoch : Nat} (hc : Ctl p [] s) (hu : s.Unanswered)
    (ha : s.Active) (he : s.epoch = epoch) :
    Keeps rt p (do
      let _ ← call (.close reason epoch)
      reap
      return false) (fun b t => b = false ∧ Ctl p [] t ∧ t.Rested) s := by
  refine Keeps.bind (keeps_close reason hc hu ha he) fun _ t h => ?_
  refine Keeps.bind (keeps_reap h.1 h.2.1 h.2.2) fun _ t h => ?_
  exact Keeps.ret ⟨rfl, h.1, h.2.rested⟩

/-- the write of `send`: afterwards every request that waits was written -/
theorem keeps_write {fw : Forwarded} {epoch : Nat} (hc : Ctl p [] s) (hr : s.Ready fw)
    (ha : s.Active) (he : s.epoch = epoch) :
    Keeps rt p (call (.write fw.tag)) (fun _ t => Ctl p [] t ∧ t.Unanswered ∧ t.Rested ∧ t.Active ∧
      t.epoch = epoch) s := by
  have hst : Steady fun s => s.epoch = epoch := fun _ _ _ hl h => hl.epoch.trans h
  obtain ⟨tag, hasId, init⟩ := fw
  refine Keeps.ctl ((steady_ready ⟨tag, hasId, init⟩).and (steady_active.and hst)) hc
    ⟨hr, ha, he⟩ ?_
  rintro t hc ⟨hr, ha, he⟩ hi
  cases tag with
  | none => exact ⟨trivial, fun _ _ _ => ⟨hc, hr.1, hr.2, ha, he⟩⟩
  | some tag =>
    obtain ⟨hu, -, id, hf⟩ := hr
    have hmem : tag ∈ t.tags := List.mem_map.mpr ⟨_, hf.pending, rfl⟩
    refine ⟨⟨hc.lock, (hi.fresh _ hf.pending hf.unwritten).2, hu _ hf.pending, ha, hmem⟩,
      fun _ _ _ => ⟨⟨hc.lock, fun x hx hw => ?_⟩, hu, fun e hmem => ?_, ha, he⟩⟩
    · have hx' : (if x = tag then none else t.holder x) = some Owner.controller := hx
      have hne : x ≠ tag := fun h => by
        rw [if_pos h] at hx'
        cases hx'
      rw [if_neg hne] at hx'
      refine hc.clean x hx' ?_
      obtain ⟨w, hw, hwx⟩ := wasWritten_iff.mp hw
      rcases List.mem_cons.mp hw with hw | hw
      · exact absurd (hwx.symm.trans (congrArg Prod.fst hw)) hne
      · exact wasWritten_iff.mpr ⟨w, hw, hwx⟩
    · cases hw : t.wasWritten e.2 with
      | true =>
        obtain ⟨w, hw, hwe⟩ := wasWritten_iff.mp hw
        exact wasWritten_iff.mpr ⟨w, List.mem_cons_of_mem _ hw, hwe⟩
      | false =>
        exact wasWritten_iff.mpr ⟨_, List.mem_cons_self, (hf.only e hmem hw).symm⟩

theorem keeps_send {fw : Forwarded} (hc : Ctl p [] s) (hr : s.Ready fw) (ha : s.Active) :
    Keeps rt p (send fw) (fun _ t => Ctl p [] t ∧ t.Rested) s := by
  refine Keeps.bind (Keeps.read rfl ((steady_ready fw).and steady_active) hc ⟨hr, ha⟩) ?_
  rintro epoch t ⟨hc, ⟨hr, ha⟩, hi, _, he⟩
  have he : t.epoch = epoch := hi.connection.symm.trans he.symm
  refine Keeps.bind (keeps_write hc hr ha he) ?_
  rintro b t ⟨hc, hu, hr, ha, he⟩
  cases b with
  | true => exact Keeps.ret ⟨hc, hr⟩
  | false => exact (keeps_closeReap _ hc hu ha he).mono fun _ _ h => h.2

theorem keeps_replayInitialize {fw : Forwarded} {epoch : Nat} (hc : Ctl p [] s) (hr : s.Ready fw)
    (ha : s.Active) (he : s.epoch = epoch) :
    Keeps rt p (replayInitialize epoch)
      (fun _ t => Ctl p [] t ∧ t.Ready fw ∧ t.Active ∧ t.epoch = epoch) s := by
  have hst : Steady fun s => s.Ready fw ∧ s.Active ∧ s.epoch = epoch :=
    (steady_ready fw).and (steady_active.and fun _ _ _ hl h => hl.epoch.trans h)
  have hread : ∀ {o : Op} {s : State}, reads o = true → Ctl p [] s →
      (s.Ready fw ∧ s.Active ∧ s.epoch = epoch) →
      Keeps rt p (call o)
        (fun _ t => Ctl p [] t ∧ t.Ready fw ∧ t.Active ∧ t.epoch = epoch) s :=
    fun ho hc hK => (Keeps.read ho hst hc hK).mono fun _ _ h => ⟨h.1, h.2.1⟩
  refine Keeps.bind (hread rfl hc ⟨hr, ha, he⟩) ?_
  rintro (_ | _) t ⟨hc, h⟩
  · exact Keeps.ret ⟨hc, h⟩
  refine Keeps.bind (K := fun _ t => Ctl p [] t ∧ t.Ready fw ∧ t.Active ∧ t.epoch = epoch)
    (Keeps.ctl hst hc h fun t hc h _ => ⟨trivial, fun _ _ hi =>
      ⟨⟨hc.lock, hc.clean⟩, hst t _ hi { Locked.refl t with } h⟩⟩) ?_
  rintro - t ⟨hc, h⟩
  refine Keeps.bind (hread rfl hc h) ?_
  rintro (_ | _) t ⟨hc, h⟩
  · exact Keeps.ret ⟨hc, h⟩
  refine Keeps.bind (hread rfl hc h) ?_
  rintro (_ | _) t ⟨hc, h⟩
  · exact Keeps.ret ⟨hc, h⟩
  refine Keeps.bind (hread rfl hc h) ?_
  rintro (_ | _) t ⟨hc, h⟩
  · exact hread rfl hc h
  refine Keeps.bind (hread rfl hc h) ?_
  rintro (_ | _) t ⟨hc, h⟩
  · exact Keeps.ret ⟨hc, h⟩
  · exact hread rfl hc h

/-- a session is opened: every request of the last one is answered, its connection is gone -/
theorem keeps_openSession {fw : Forwarded} (hc : Ctl p [] s) (hr : s.Ready fw) (hg : s.Gate)
    (hcl : s.sessionOpen = false) (hrest : s.restartable = true) :
    Keeps rt p (call .openSession)
      (fun epoch t => Ctl p [] t ∧ t.Ready fw ∧ t.Active ∧ t.epoch = epoch) s := by
  have hst : Steady fun s => s.restartable = true := fun _ _ _ hl h => hl.restartable.trans h
  refine Keeps.ctl ((steady_ready fw).and (steady_gate.and (steady_closed.and hst))) hc
    ⟨hr, hg, hcl, hrest⟩ ?_
  rintro t hc ⟨hr, hg, hcl, hrest⟩ hi
  refine ⟨⟨hc.lock, hcl, fun hs => ⟨?_, ?_⟩⟩, fun _ _ _ => ⟨⟨hc.lock, hc.clean⟩, ?_, .inl rfl, rfl⟩⟩
  · refine (hg hs).resolve_left ?_ hrest
    rw [hcl]
    decide
  · exact fun x hx hw => (hc.clean x hx hw).resolve_right List.not_mem_nil
  · refine ⟨hr.1, ?_⟩
    obtain ⟨tag, hasId, init⟩ := fw
    cases tag with
    | none => exact hr.2
    | some tag =>
      obtain ⟨-, h1, id, h2⟩ := hr
      exact ⟨h1, id, { h2 with }⟩

theorem keeps_restart {fw : Forwarded} (hc : Ctl p [] s) (hr : s.Ready fw) (hg : s.Gate)
    (hcl : s.sessionOpen = false) (hrest : s.restartable = true) :
    Keeps rt p (restart fw)
      (fun b t => Ctl p [] t ∧ if b then t.Ready fw ∧ t.Active else t.Rested) s := by
  have hst : Steady fun s => s.restartable = true := fun _ _ _ hl h => hl.restartable.trans h
  refine Keeps.bind (Keeps.read rfl
    ((steady_ready fw).and (steady_gate.and (steady_closed.and hst))) hc ⟨hr, hg, hcl, hrest⟩) ?_
  rintro (_ | _) t ⟨hc, ⟨hr, hg, hcl, hrest⟩, -⟩
  · refine Keeps.bind (K := fun _ t => Ctl p [] t ∧ t.Unanswered ∧ t.sessionOpen = false ∧
      t.restartable = false) (Keeps.ctl (steady_unanswered.and steady_closed) hc ⟨hr.1, hcl⟩ ?_) ?_
    · exact fun t hc h _ => ⟨hc.lock, fun _ _ _ => ⟨⟨hc.lock, hc.clean⟩, h.1, h.2, rfl⟩⟩
    · rintro - t ⟨hc, hu, hcl, hrest⟩
      refine Keeps.bind (keeps_abandon hc hu hcl fun h => nomatch hrest.symm.trans h) fun _ t h => ?_
      exact Keeps.ret ⟨h.1, h.2.between.rested⟩
  · refine Keeps.bind (keeps_openSession hc hr hg hcl hrest) ?_
    rintro epoch t ⟨hc, hr, ha, he⟩
    split_ifs with hinit
    · exact Keeps.ret ⟨hc, hr, ha⟩
    · refine Keeps.bind (keeps_replayInitialize hc hr ha he) ?_
      rintro (_ | _) t ⟨hc, hr, ha, he⟩
      · refine (keeps_closeReap _ hc hr.1 ha he).mono fun b t h => ⟨h.2.1, ?_⟩
        rw [h.1]
        exact h.2.2
      · exact Keeps.ret ⟨hc, hr, ha⟩

/-- **`forward`** after `request` -/
theorem keeps_deliver {fw : Forwarded} (hc : Ctl p [] s) (hr : s.Ready fw) (hg : s.Gate) :
    Keeps rt p (deliver fw) (fun _ t => Ctl p [] t ∧ t.Rested) s := by
  refine Keeps.bind (Keeps.read rfl ((steady_ready fw).and steady_gate) hc ⟨hr, hg⟩) ?_
  rintro b t ⟨hc, ⟨hr, hg⟩, hi, _, hb⟩
  have hb : b = t.sessionOpen := hb.trans (Bool.and_true _)
  cases b with
  | true => exact keeps_send hc hr (.inl hb.symm)
  | false =>
    show Keeps rt p (if (!fw.hasId) = true then _ else _) _ t
    split_ifs with hid
    · -- a message with no id was not accepted
      refine Keeps.ret ⟨hc, ?_⟩
      obtain ⟨tag, hasId, init⟩ := fw
      cases tag with
      | none => exact hr.2
      | some tag =>
        have : hasId = false := by simpa using hid
        exact nomatch this.symm.trans hr.2.1
    · refine Keeps.bind (Keeps.read rfl ((steady_ready fw).and (steady_gate.and steady_closed)) hc
        ⟨hr, hg, hb.symm⟩) ?_
      rintro (_ | _) t ⟨hc, ⟨hr, hg, hcl⟩, hi, _, hb⟩
      · have hrest : t.restartable = false := hb.symm
        refine Keeps.bind (keeps_abandon hc hr.1 hcl fun h => nomatch hrest.symm.trans h)
          fun _ t h => ?_
        exact Keeps.ret ⟨h.1, h.2.between.rested⟩
      · refine Keeps.bind (keeps_restart hc hr hg hcl hb.symm) ?_
        rintro (_ | _) t ⟨hc, h⟩
        · exact Keeps.ret ⟨hc, h⟩
        · exact keeps_send hc h.1 h.2

/-! ### the controller lock -/

/-- `with self.lock`: the lock is handed over in a state where all that waits was written -/
theorem keeps_withLock {body : P α}
    (h : ∀ t, Ctl p [] t → t.Unanswered → t.Rested →
      Keeps rt p body (fun _ t => Ctl p [] t ∧ t.Rested) t) :
    Keeps rt p (withLock body) (fun _ _ => True) s := by
  refine Keeps.bind (K := fun b t => b = true → Ctl p [] t ∧ t.Unanswered ∧ t.Rested)
    (Keeps.call (fun _ => True) (fun _ _ _ _ h => h) trivial ?_) ?_
  · intro t _ hi
    refine ⟨trivial, fun _ _ _ => ?_⟩
    simp only [Op.exec]
    split
    · rename_i hl
      have hr : t.Rested := fun e he => by
        cases hw : t.wasWritten e.2 with
        | true => rfl
        | false => exact absurd hl (hi.fresh e he hw).1
      refine fun _ => ⟨⟨rfl, fun x hx hw => .inl (hi.idle hl x hx hw)⟩, fun e he => ?_, hr⟩
      exact (hi.waiting e he (hr e he)).2
    · exact fun hb => by cases hb
  · rintro (_ | _) t ht
    · exact trivial
    · obtain ⟨hc, hu, hr⟩ := ht rfl
      refine Keeps.bind (h t hc hu hr) fun r t ht => ?_
      refine Keeps.bind (K := fun _ _ => True) (Keeps.ctl steady_rested ht.1 ht.2 ?_)
        fun _ _ _ => Keeps.ret trivial
      refine fun t hc hr _ => ⟨⟨hc.lock, hr, fun x hx hw => ?_⟩, fun _ _ _ => trivial⟩
      exact (hc.clean x hx hw).resolve_right List.not_mem_nil

theorem keeps_forward (line : Bytes) : Keeps rt p (forward rt line) (fun _ _ => True) s := by
  refine keeps_withLock fun t hc hu hr => ?_
  refine Keeps.bind (keeps_reap hc hu (.inl hr)) fun _ t h => ?_
  refine Keeps.bind (keeps_request line h.1 h.2) ?_
  rintro (_ | fw) t ⟨hc, h⟩
  · exact Keeps.ret ⟨hc, h⟩
  · exact keeps_deliver hc h.1 h.2

theorem keeps_watch : Keeps rt p watch (fun _ _ => True) s := by
  have hst : Steady fun s => s.Unanswered ∧ s.Rested := steady_unanswered.and steady_rested
  have hreap : ∀ {t : State}, Ctl p [] t → t.Unanswered ∧ t.Rested →
      Keeps rt p (do reap; return true) (fun _ t => Ctl p [] t ∧ t.Rested) t := by
    intro t hc h
    exact Keeps.bind (keeps_reap hc h.1 (.inl h.2)) fun _ t h => Keeps.ret ⟨h.1, h.2.rested⟩
  refine keeps_withLock fun t hc hu hr => ?_
  refine Keeps.bind (Keeps.read rfl hst hc ⟨hu, hr⟩) ?_
  rintro (_ | _) t ⟨hc, h, -⟩
  · refine Keeps.bind (Keeps.read rfl hst hc h) ?_
    rintro (_ | _) t ⟨hc, h, -⟩
    · exact hreap hc h
    · refine Keeps.bind (Keeps.read rfl hst hc h) fun epoch t h => ?_
      refine Keeps.bind (K := fun _ t => Ctl p [] t ∧ t.Unanswered ∧ t.Rested)
        (Keeps.ctl hst h.1 h.2.1 fun t hc h _ => ⟨trivial, fun _ _ _ => ?_⟩)
        fun _ t h => hreap h.1 h.2
      simp only [Op.exec]
      split_ifs
      · exact ⟨⟨hc.lock, hc.clean⟩, h⟩
      · exact ⟨hc, h⟩
  · exact Keeps.ret ⟨hc, h.2⟩

theorem keeps_stop : Keeps rt p stop (fun _ _ => True) s := by
  refine keeps_withLock fun t hc hu hr => ?_
  refine Keeps.bind (K := fun _ t => Ctl p [] t ∧ t.Unanswered ∧ t.Rested)
    (Keeps.ctl (steady_unanswered.and steady_rested) hc ⟨hu, hr⟩ fun t hc h _ =>
      ⟨trivial, fun _ _ _ => ⟨⟨hc.lock, hc.clean⟩, h⟩⟩) fun _ t h => ?_
  exact Keeps.bind (keeps_reap h.1 h.2.1 (.inl h.2.2)) fun _ t h => Keeps.ret ⟨h.1, h.2.rested⟩

/-! ## the response threads -/

/-- the lines that the thread is going to write: their requests are its own, and without answer -/
structure Mine (p : Nat) (l : List (Option Nat × Id)) (s : State) : Prop where
  nodup : (l.filterMap Prod.fst).Nodup
  held : ∀ t id, (some t, id) ∈ l →
    s.holder t = some (.thread p) ∧ ¬ s.Answered t ∧ s.accepted[t]? = some id

theorem mine_nil : Mine p [] s := ⟨List.nodup_nil, fun _ _ h => nomatch h⟩

theorem stable_mine (l : List (Option Nat × Id)) : Stable Inv (Rely p) (Mine p l) := by
  refine fun s t _ hr h => ⟨h.nodup, fun x id hx => ?_⟩
  obtain ⟨h1, h2, h3⟩ := h.held x id hx
  obtain ⟨h4, h5⟩ := hr.mine x h1
  exact ⟨h4, fun ha => h2 (h5 ha), hr.accepted x id h3⟩

/-- a line that answers no request -/
theorem Mine.other {l : List (Option Nat × Id)} (h : Mine p l s) (id : Id) :
    Mine p (l ++ [(none, id)]) s := by
  refine ⟨?_, fun t v hv => ?_⟩
  · rw [List.filterMap_append]
    simpa using h.nodup
  · rcases List.mem_append.mp hv with hv | hv
    · exact h.held t v hv
    · exact nomatch List.mem_singleton.mp hv

/-- a request that waits becomes the thread's own -/
theorem Mine.pair {l : List (Option Nat × Id)} (h : Mine p l s) (hi : Inv s) {e : Id × Nat} {id : Id}
    (he : e ∈ s.pending) (hw : s.wasWritten e.2 = true) (hid : s.accepted[e.2]? = some id) :
    Mine p (l ++ [(some e.2, id)]) { s.take (.thread p) [e.2] with
      pending := s.pending.filter fun x => x.2 ≠ e.2 } := by
  have hne : ∀ {t : Nat} {v : Id}, (some t, v) ∈ l → t ≠ e.2 := fun hv ht =>
    not_thread_of_pending hi he (ht ▸ (h.held _ _ hv).1)
  refine ⟨?_, fun t v hv => ?_⟩
  · rw [List.filterMap_append]
    refine List.nodup_append.mpr ⟨h.nodup, List.nodup_singleton _, fun a ha b hb => ?_⟩
    obtain ⟨⟨x, v⟩, hx, hxa⟩ := List.mem_filterMap.mp ha
    have hxa : x = some a := hxa
    subst hxa
    rw [List.mem_singleton.mp hb]
    exact hne hx
  · rcases List.mem_append.mp hv with hv | hv
    · obtain ⟨h1, h2, h3⟩ := h.held t v hv
      exact ⟨(if_neg fun hm => hne hv (List.mem_singleton.mp hm)).trans h1, h2, h3⟩
    · cases List.mem_singleton.mp hv
      exact ⟨if_pos (List.mem_singleton.mpr rfl), (hi.waiting e he hw).2, hid⟩

theorem inputRequestId_of_valid {id : Id} (h : validId id = true) : inputRequestId id = id := by
  cases id with
  | null | str | int => rfl
  | _ => cases h

/-- what a frame says about one id, with the lines of the frame so far -/
theorem keeps_pair {l : List (Option Nat × Id)} (epoch : Nat) (id : Id) (h : Mine p l s) :
    Keeps rt p (call (.transform epoch id)) (fun x t => match x with
      | .paired tag => Mine p (l ++ [(some tag, id)]) t
      | _ => Mine p l t) s := by
  refine Keeps.call _ (stable_mine l) h fun t h hi => ⟨trivial, fun a hm _ => ?_⟩
  simp only [Op.exec]
  rcases pair_cases rt p t epoch id with ⟨m, h1, h2⟩ | ⟨e, he, h1, h2⟩
  · rw [h1]
    generalize (t.pair rt p epoch id).1 = x at h2
    cases x with
    | paired tag => exact absurd rfl (h2 tag)
    | _ => exact ⟨h.nodup, h.held⟩
  · obtain ⟨hw, hid⟩ := meets_paired h1 hm
    rw [h1, h2]
    exact h.pair hi he hw hid

/-- `_transform`: a line more, or none -/
theorem keeps_transform {l : List (Option Nat × Id)} (epoch : Nat) (m : ServerMessage)
    (h : Mine p l s) :
    Keeps rt p (transform epoch m) (fun x t => Mine p (l ++ x.toList) t) s := by
  have hnone : ∀ {t : State}, Mine p l t → Mine p (l ++ (none : Option (Option Nat × Id)).toList) t :=
    fun h => (List.append_nil l).symm ▸ h
  cases m with
  | request => exact Keeps.ret (hnone h)
  | notification => exact Keeps.ret (h.other _)
  | answer id =>
    refine Keeps.bind (keeps_pair epoch id h) ?_
    rintro (_ | _ | _ | tag) t h
    · exact Keeps.ret (hnone h)
    · exact Keeps.ret (hnone h)
    · refine Keeps.bind (K := fun _ t => Mine p l t) (Keeps.call _ (stable_mine l) h
        fun t h hi => ⟨trivial, fun _ _ _ => ?_⟩) fun _ t h => Keeps.ret (hnone h)
      simp only [Op.exec]
      split_ifs
      · exact ⟨h.nodup, h.held⟩
      · exact h
    · refine Keeps.bind (K := fun x t => Mine p (l ++ [(some tag, id)]) t ∧ Inv t ∧
        State.meets rt t (.process id) x = true) (Keeps.call _ (stable_mine _) h
        fun t h hi => ⟨trivial, fun _ hm _ => ⟨h, hi, hm⟩⟩) ?_
      rintro (_ | _ | id') t ⟨h, hi, hm⟩
      · cases hm
      · have hid : id ∈ t.accepted := List.mem_of_getElem?
          (h.held tag id (List.mem_append_right _ (List.mem_singleton.mpr rfl))).2.2
        show Keeps rt p (.ret (some (some tag, inputRequestId id))) _ t
        rw [inputRequestId_of_valid (hi.valid id hid)]
        exact Keeps.ret h
      · cases of_decide_eq_true hm
        exact Keeps.ret h

theorem keeps_transformAll (epoch : Nat) (ms : List ServerMessage) {l : List (Option Nat × Id)}
    (h : Mine p l s) :
    Keeps rt p (transformAll epoch ms) (fun x t => Mine p (l ++ x) t) s := by
  induction ms generalizing s l with
  | nil => exact Keeps.ret ((List.append_nil l).symm ▸ h)
  | cons m ms ih =>
    refine Keeps.bind (keeps_transform epoch m h) fun line t h => ?_
    refine Keeps.bind (ih h) fun lines t h => Keeps.ret ?_
    rw [← List.append_assoc]
    exact h

/-- an operation that needs nothing and after which nothing is known -/
theorem Keeps.any {o : Op} (h : ∀ t, Allowed rt p t o) :
    Keeps rt p (Helper.call o) (fun _ _ => True) s :=
  Keeps.call (fun _ => True) (fun _ _ _ _ h => h) trivial fun t _ _ => ⟨h t, fun _ _ _ => trivial⟩

/-- **`response`**: each line answers a request of its own -/
theorem keeps_response (epoch : Nat) (raw : Bytes) :
    Keeps rt p (response rt epoch raw) (fun x t => Mine p x t) s := by
  have hrefuse : ∀ {t : State},
      Keeps rt p (refuseServerMessage epoch) (fun x t => Mine p x t) t :=
    Keeps.bind (Keeps.any fun _ => trivial) fun _ _ _ => Keeps.ret mine_nil
  refine Keeps.bind (Keeps.any fun _ => trivial) fun b t _ => ?_
  cases b with
  | false => exact Keeps.ret mine_nil
  | true =>
    simp only [Bool.not_true, Bool.false_eq_true, if_false]
    split_ifs
    · exact hrefuse
    · exact Keeps.ret mine_nil
    · split
      · exact hrefuse
      · split
        · exact hrefuse
        · exact hrefuse
        · refine Keeps.bind (Keeps.any fun _ => trivial) fun b t _ => ?_
          cases b with
          | true => exact keeps_transformAll epoch _ mine_nil
          | false => exact Keeps.bind (Keeps.any fun _ => trivial) fun _ _ _ => Keeps.ret mine_nil
      · split
        · exact hrefuse
        · exact Keeps.bind (keeps_transform epoch _ mine_nil) fun _ _ h => Keeps.ret h

theorem keeps_emitLines (l : List (Option Nat × Id)) (h : Mine p l s) :
    Keeps rt p (emitLines l) (fun _ _ => True) s := by
  induction l generalizing s with
  | nil => exact Keeps.ret trivial
  | cons line l ih =>
    obtain ⟨_ | tag, id⟩ := line
    · refine Keeps.bind (K := fun _ t => Mine p l t) (Keeps.call _ (stable_mine _) h
        fun t h _ => ⟨trivial, fun _ _ _ => ⟨h.nodup, fun x v hx => ?_⟩⟩) fun _ t h => ih h
      obtain ⟨h1, h2, h3⟩ := h.held x v (List.mem_cons_of_mem _ hx)
      exact ⟨h1, fun ha => h2 (answered_other.mp ha), h3⟩
    · refine Keeps.bind (K := fun _ t => Mine p l t) (Keeps.call _ (stable_mine _) h ?_)
        fun _ t h => ih h
      intro t h _
      obtain ⟨h1, h2, h3⟩ := h.held tag id List.mem_cons_self
      obtain ⟨hn, hnodup⟩ := List.nodup_cons.mp h.nodup
      refine ⟨⟨h3, h2, .inl h1⟩, fun _ _ _ => ⟨hnodup, fun x v hx => ?_⟩⟩
      obtain ⟨h4, h5, h6⟩ := h.held x v (List.mem_cons_of_mem _ hx)
      refine ⟨h4, fun ha => (answered_cons.mp ha).elim (fun hx' => hn ?_) h5, h6⟩
      exact List.mem_filterMap.mpr ⟨_, hx, congrArg some hx'⟩

theorem keeps_frame (epoch : Nat) (raw : Bytes) :
    Keeps rt p (frame rt epoch raw) (fun _ _ => True) s := by
  refine Keeps.bind (keeps_response epoch raw).attempt ?_
  rintro x t ⟨lines, rfl, h⟩
  exact Keeps.bind (keeps_emitLines lines h) fun _ _ _ => Keeps.ret trivial

theorem keeps_connectionEnd (epoch : Nat) :
    Keeps rt p (connectionEnd epoch) (fun _ _ => True) s := by
  refine Keeps.bind (Keeps.any fun _ => trivial) fun b t _ => ?_
  cases b with
  | false => exact Keeps.ret trivial
  | true => exact Keeps.bind (Keeps.any fun _ => trivial) fun _ _ _ => Keeps.ret trivial

theorem keeps_call (c : Call) : Keeps rt p (c.prog rt) (fun _ _ => True) s := by
  cases c with
  | forward line => exact keeps_forward line
  | watch => exact keeps_watch
  | stop => exact keeps_stop
  | frame epoch raw => exact keeps_frame epoch raw
  | connectionEnd epoch => exact keeps_connectionEnd epoch
  | ended epoch => exact Keeps.bind (Keeps.any fun _ => trivial) fun _ _ _ => Keeps.ret trivial

end

/-! ## whole runs -/

/-- **Induction over the runs of the proxy.**  As long as all steps met the condition, the invariant
holds and every process does what is allowed. -/
theorem Reachable.inv {rt : Runtime} {w : Threads} (h : Reachable rt w)
    (hb : w.shared.broken = false) :
    Inv w.shared ∧ ∀ p q, w.procs p = some q → Keeps rt p q.prog (fun _ _ => True) w.shared := by
  have key := Sys.Reach.inv (I := fun s => s.broken = false → Inv s)
    (G := fun p s t => t.broken = false → s.broken = false ∧ ∀ q, q ≠ p → Rely q s t)
    (H := fun p q s => Keeps rt p q.prog (fun _ _ => True) s)
    (fun _ => inv_start) (fun p c s _ => keeps_call c) ?_
    (fun p s hi => ⟨hi, fun hb => ⟨hb, fun q _ => Rely.refl q s⟩⟩) ?_ h
  · exact ⟨key.1 hb, key.2⟩
  · intro p q s o k a hi hg ho
    rw [ho] at hg
    cases hbs : s.broken with
    | true =>
      have hbt : ((machine rt p).exec o a s).2.broken = true := broken_of_not_meets (.inl hbs)
      exact ⟨fun hb => (nomatch hbt.symm.trans hb), fun hb => (nomatch hbt.symm.trans hb),
        Keeps.of_broken hbt⟩
    | false =>
      obtain ⟨hok, hnext⟩ := hg s (Rely.refl p s) (hi hbs)
      refine ⟨fun hb => ?_, fun hb => ⟨rfl, fun q hq => ?_⟩, hnext a⟩
      all_goals
        have hm : s.meets rt o a = true := by
          by_contra hm
          rw [broken_of_not_meets (.inr (Bool.eq_false_iff.mpr hm))] at hb
          cases hb
        rw [machine_exec hbs hm]
      · exact (hi hbs).exec hok hm
      · exact rely_exec (hi hbs) hq.symm hok hm
  · intro p p' q s t hne hi hi' hG hg
    cases hbt : t.broken with
    | true => exact Keeps.of_broken hbt
    | false =>
      refine Safe.rely (fun _ _ _ => Rely.trans) (fun x => ?_) (hi' hbt) ((hG hbt).2 p hne) hg
      intro s t hi hr hx hb
      refine (hx ?_).imp fun a h => ⟨h.1, trivial⟩
      cases hs : s.broken with
      | false => rfl
      | true => exact nomatch (hr.broken hs).symm.trans hb

/-- every check passes and every write succeeds; an answer keeps its id -/
def smooth : (o : Op) → o.Choice
  | .checks | .popen | .waitInternal | .write _ => true
  | .hasInitialize | .clientInitialized | .overdue => false
  | .expectInternal => .null
  | .process id => .complete id
  | .acquire | .release | .stopped | .setStopped | .restartable | .forbidRestart | .connection
  | .accept _ | .emit _ _ | .emitOther _ | .clearPending _ | .accepting _ | .finishCheck | .kill
  | .abandon | .openSession | .close _ _ | .batchPairable _ | .transform _ _ | .ended _ => ()

/-- a tool call that is answered here -/
def refusing : (o : Op) → o.Choice
  | .checks => false
  | o => smooth o

/-- `n` steps of the process `p` -/
def steps (p n : Nat) (env : (o : Op) → o.Choice) : List (Move sig Call) :=
  List.replicate n (.step p env)

def requestOf (id : Json.Value) (method : String) : Json.Value :=
  .obj [(text "jsonrpc", .str (text "2.0")), (text "id", id), (text "method", .str (text method))]

def bytes (v : Json.Value) : Bytes := (Json.dumps v).map fun c => UInt8.ofNat c.toNat

def ping (n : Int) : Bytes := bytes (requestOf (.int n) "ping")

end Netops.Helper
