import Netops.Gateway.Boundary

/-!
# Audit before action

What the log of a request says at every moment, whatever the environment answers.

* `Allowed`     what must stand in the log before an effect: the record of the request before the
                application is entered; the record of the response, the end of the connection and a
                second look at the token before an event of the application is sent; and no reply
                says that nothing happened once the application was entered;
* `Calm`, `Early`   effects that are allowed at any time, and before the application is entered;
* `audit_before_action`.
-/

namespace Netops.Gateway
open Effect

/-! ## the rule -/

/-- `audit.record(direction, …)` of this correlation succeeded -/
def Recorded (direction correlation : String) (e : Entry) : Prop :=
  ∃ r invalidJson, e = ⟨.record r, .ok invalidJson⟩ ∧ r.direction = direction ∧
    r.correlation = correlation

/-- the token was read and is this one -/
def Read (token : List Char) (e : Entry) : Prop := e = ⟨.readToken, .ok token⟩

/-- the inner application was entered -/
def Entered (e : Entry) : Prop := ∃ buffered body a, e = ⟨.enter buffered body, a⟩

/-- the reply carries `operation_may_have_completed: false` -/
def Reply.DeniesCompletion (r : Reply) : Prop :=
  ("operation_may_have_completed", .bool false) ∈ r.content

/-- what the log holds, in this order, when the application is entered -/
def admitted (correlation : String) (token : List Char) : List (Entry → Prop) :=
  [Read token, Recorded "request" correlation]

/-- what the log holds, in this order, when an event of the application is sent -/
def committed (correlation : String) (token : List Char) : List (Entry → Prop) :=
  admitted correlation token ++
    [Entered, Read token, Recorded "response" correlation, Recorded "connection_end" correlation]

def Allowed (scope : Scope) (correlation : String) (earlier : Log) : Op → Prop
  | .enter _ _ => ∃ token, authorized scope token ∧ InOrder (admitted correlation token) earlier
  | .send (.app _) => ∃ token, authorized scope token ∧ InOrder (committed correlation token) earlier
  | .send (.own r _) => r.DeniesCompletion → ∀ e ∈ earlier, ¬ Entered e
  | _ => True

/-- every effect of the log was allowed by the ones before it -/
def Proper (scope : Scope) (correlation : String) (log : Log) : Prop :=
  ∀ later o a earlier, log = later ++ ⟨o, a⟩ :: earlier → Allowed scope correlation earlier o

theorem Proper.nil (scope : Scope) (correlation : String) : Proper scope correlation [] := by
  intro later o a earlier h
  simp at h

theorem Proper.cons {scope : Scope} {correlation : String} {log : Log} {o : Op} (a : o.Answer)
    (h : Proper scope correlation log) (ho : Allowed scope correlation log o) :
    Proper scope correlation (⟨o, a⟩ :: log) := by
  intro later o' a' earlier e
  cases later with
  | nil =>
    cases e
    exact ho
  | cons x later =>
    obtain ⟨-, e⟩ := List.cons.inj e
    exact h later o' a' earlier e

/-! ## effects that are always allowed -/

/-- neither the application nor one of its events, and no reply that denies completion -/
def Calm : Op → Prop
  | .enter _ _ => False
  | .send (.app _) => False
  | .send (.own r _) => ¬ r.DeniesCompletion
  | _ => True

/-- neither the application nor one of its events -/
def Early : Op → Prop
  | .enter _ _ => False
  | .send (.app _) => False
  | _ => True

/-- an event of the application, or a look at the watcher -/
def Delivery : Op → Prop
  | .watch => True
  | .send (.app _) => True
  | _ => False

theorem Calm.early {o : Op} (h : Calm o) : Early o := by
  cases o with
  | enter b body => exact h
  | send m =>
    cases m with
    | own r part => trivial
    | app e => exact h
  | _ => trivial

/-- the application was not entered -/
def Outside (log : Log) : Prop := ∀ e ∈ log, ¬ Entered e

theorem Outside.cons {log : Log} {o : Op} (h : Outside log) (ho : Early o) (a : o.Answer) :
    Outside (⟨o, a⟩ :: log) := by
  intro e he
  rcases List.mem_cons.mp he with rfl | he
  · rintro ⟨b, body, a', heq⟩
    cases heq
    exact ho
  · exact h e he

section
variable {scope : Scope} {correlation : String} {α : Type} {V : α → Prop} {E : Exc → Prop}
variable {ps : List (Entry → Prop)} {log : Log}

/-- a program that keeps the rule, whatever it is answered -/
abbrev Keeps (scope : Scope) (correlation : String) (m : P α) (Q : Except Exc α → Log → Prop)
    (log : Log) : Prop :=
  Safe machine (Proper scope correlation) Eq (Allowed scope correlation) m Q log

theorem stable (K : Log → Prop) : Stable (Proper scope correlation) Eq K :=
  fun _ _ _ h hk => h ▸ hk

theorem Keeps.await {o : Op} {Q : Except Exc o.Answer → Log → Prop}
    (ho : Allowed scope correlation log o) (h : ∀ a, Q (.ok a) (⟨o, a⟩ :: log)) :
    Keeps scope correlation (Gateway.await o) Q log := by
  intro t e _
  subst e
  exact ⟨ho, h⟩

/-- calm effects, at any time -/
theorem Keeps.calm {m : P α} (h : m.All Calm V E) (hk : InOrder ps log) :
    Keeps scope correlation m (fun x log => InOrder ps log ∧ (∀ a, x = .ok a → V a) ∧
      ∀ e, x = .error e → E e) log := by
  refine Safe.of_all (stable _) ?_ h hk
  intro log o ho hk _
  refine ⟨?_, fun a => hk.cons _⟩
  cases o with
  | enter b body => exact ho.elim
  | send m =>
    cases m with
    | own r part => exact fun hr => absurd hr ho
    | app e => exact ho.elim
  | _ => trivial

/-- early effects, before the application is entered -/
theorem Keeps.early {m : P α} (h : m.All Early V E) (hk : InOrder ps log ∧ Outside log) :
    Keeps scope correlation m (fun x log => (InOrder ps log ∧ Outside log) ∧
      (∀ a, x = .ok a → V a) ∧ ∀ e, x = .error e → E e) log := by
  refine Safe.of_all (stable _) ?_ h hk
  intro log o ho hk _
  refine ⟨?_, fun a => ⟨hk.1.cons _, hk.2.cons ho a⟩⟩
  cases o with
  | enter b body => exact ho.elim
  | send m =>
    cases m with
    | own r part => exact fun _ => hk.2
    | app e => exact ho.elim
  | _ => trivial

/-- the events of the application, once they are committed -/
theorem Keeps.delivery {m : P α} {token : List Char} (ht : authorized scope token)
    (h : m.All Delivery V E) (hk : InOrder (committed correlation token) log) :
    Keeps scope correlation m (fun x log => InOrder (committed correlation token) log ∧
      (∀ a, x = .ok a → V a) ∧ ∀ e, x = .error e → E e) log := by
  refine Safe.of_all (stable _) ?_ h hk
  intro log o ho hk _
  refine ⟨?_, fun a => hk.cons _⟩
  cases o with
  | send m =>
    cases m with
    | own r part => exact ho.elim
    | app e => exact ⟨token, ht, hk⟩
  | watch => trivial
  | _ => exact ho.elim

/-! ## the effects of the pieces -/

variable {A : Op → Prop}

theorem all_orRaise {r : Except Foreign α} (hV : ∀ a, V a) (hE : ∀ f, E (.foreign f)) :
    (orRaise r).All A V E := by
  cases r with
  | ok a => exact hV a
  | error f => exact hE f

theorem all_record {r : Record} {V : Bool → Prop} (hr : A (.record r)) (hV : ∀ b, V b)
    (hE : ∀ e, E e) : (record r).All A V E :=
  ⟨hr, fun _ => Prog.all_ofExcept (fun b _ => hV b) fun e _ => hE e⟩

theorem all_send {m : Sent} {V : Unit → Prop} (hm : A (.send m)) (hV : V ())
    (hE : ∀ f, E (.foreign f)) : (send m).All A V E :=
  ⟨hm, fun _ => all_orRaise (fun _ => hV) hE⟩

theorem all_respond {r : Reply} {V : Unit → Prop} (hr : ∀ part, A (.send (.own r part)))
    (hV : V ()) (hE : ∀ f, E (.foreign f)) : (respond r).All A V E := by
  refine Prog.all_bind.mpr (all_send (hr .start) ?_ hE)
  exact all_send (hr .body) hV hE

theorem all_recordEnd {first second : Record} {V : Unit → Prop} (h1 : A (.record first))
    (h2 : A (.record second)) (hV : V ()) (hE : ∀ e, e ≠ .unavailable → E e) :
    (recordEnd first second).All A V E := by
  have hcatch : ∀ e : Exc, (ignoreAuditError e).All A V E := by
    intro e
    unfold ignoreAuditError
    by_cases he : e.isAuditError
    · rw [if_pos he]
      exact hV
    · rw [if_neg he]
      exact hE e fun h => he (by rw [h]; rfl)
  refine Prog.all_tryCatch.mpr (Prog.all_bind.mpr (Prog.all_bind.mpr (Prog.all_attempt.mpr ?_)))
  have hsecond : ∀ r : Except Exc Bool, (Prog.bind (record second) fun _ => .ret ()).All A
      (fun _ => (Prog.ofExcept r : P Bool).All A (fun _ => V ())
        fun e => (ignoreAuditError e).All A V E)
      fun e => (ignoreAuditError e).All A V E := by
    intro r
    exact Prog.all_bind.mpr (all_record h2
      (fun _ => Prog.all_ofExcept (fun _ _ => hV) fun e _ => hcatch e) hcatch)
  exact all_record h1 (fun b => Prog.all_bind.mpr (hsecond (.ok b)))
    fun e => Prog.all_bind.mpr (hsecond (.error e))

theorem all_recordAndRespond {token : List Char} {direction : String} {reply : Reply}
    {V : Unit → Prop} (h1 : ∀ r, A (.record r)) (h2 : ∀ part, A (.send (.own reply part)))
    (hV : V ()) (hE : ∀ e, E e) :
    (recordAndRespond correlation token direction reply).All A V E :=
  Prog.all_bind.mpr (all_record (h1 _) (fun _ => all_respond h2 hV fun _ => hE _) hE)

theorem not_deniesCompletion (c : Bool) :
    ¬ (auditUnavailable true c).DeniesCompletion := by
  simp [Reply.DeniesCompletion, auditUnavailable]

/-- the handlers of `handle` before the dispatch -/
theorem interrupted_early (started : Bool) (exc : Exc) :
    (interrupted correlation false started exc).All Early (fun _ => True) fun _ => True := by
  unfold interrupted
  split_ifs
  · exact all_respond (fun _ => trivial) trivial fun _ => trivial
  · exact Prog.all_bind.mpr (all_recordEnd trivial trivial trivial fun _ _ => trivial)
  · exact Prog.all_bind.mpr (all_recordEnd trivial trivial trivial fun _ _ => trivial)
  · trivial
  · exact all_respond (fun _ => trivial) trivial fun _ => trivial
  · trivial

/-- the handlers of `handle` after the dispatch -/
theorem interrupted_calm (started : Bool) (exc : Exc) (h : started → exc ≠ .unavailable) :
    (interrupted correlation true started exc).All Calm (fun _ => True) (· ≠ .unavailable) := by
  unfold interrupted
  split_ifs with h1 h2 h3 h4 h5
  · exact all_respond (fun _ => not_deniesCompletion false) trivial fun _ => Exc.noConfusion
  · exact Prog.all_bind.mpr (all_recordEnd trivial trivial trivial fun _ he => he)
  · refine Prog.all_bind.mpr (all_recordEnd trivial trivial ?_ fun _ he => he)
    rintro rfl
    rcases h1 with h1 | h1 <;> cases h1
  · exact h h5
  · exact all_respond (fun _ => not_deniesCompletion false) trivial fun _ => Exc.noConfusion
  · exact fun he => h4 (.inl he)

theorem all_token {V : List Char → Prop} (h : A .readToken) (hV : ∀ t, V t) (hE : ∀ e, E e) :
    token.All A V E :=
  ⟨h, fun _ => Prog.all_ofExcept (fun t _ => hV t) fun e _ => hE e⟩

theorem receiveBody_early (passes : Nat) (body : Bytes) :
    (receiveBody scope correlation passes body).All Early (fun _ => True) fun _ => True := by
  induction passes generalizing body with
  | zero => trivial
  | succ passes ih =>
    refine Prog.all_bind.mpr ⟨trivial, fun r => ?_⟩
    rcases r with f | _ | ⟨b, more⟩
    · cases f with
      | cancelled => exact Prog.all_bind.mpr (all_recordEnd trivial trivial trivial fun _ _ => trivial)
      | timeout =>
        refine Prog.all_bind.mpr (all_record trivial (fun _ => ?_) fun _ => trivial)
        exact Prog.all_bind.mpr (all_respond (fun _ => trivial) trivial fun _ => trivial)
      | _ => trivial
    · exact Prog.all_bind.mpr (all_record trivial (fun _ => trivial) fun _ => trivial)
    · simp only [Prog.all_ret]
      split_ifs
      · refine Prog.all_bind.mpr (all_record trivial (fun _ => ?_) fun _ => trivial)
        exact Prog.all_bind.mpr (all_respond (fun _ => trivial) trivial fun _ => trivial)
      · exact ih _
      · trivial

/-! ## the stretches of `handle` -/

theorem Keeps.record (r : Record) (hk : InOrder ps log) :
    Keeps scope correlation (Gateway.record r)
      (Returns fun _ => InOrder (ps ++ [Recorded r.direction r.correlation])) log := by
  intro _ e _
  subst e
  refine ⟨trivial, fun a => Safe.ofExcept fun b hb => ?_⟩
  subst hb
  exact hk.snoc ⟨r, b, rfl, rfl, rfl⟩

theorem Keeps.token (hk : InOrder ps log) :
    Keeps scope correlation Gateway.token (Returns fun t => InOrder (ps ++ [Read t])) log := by
  intro _ e _
  subst e
  refine ⟨trivial, fun a => Safe.ofExcept fun t ht => ?_⟩
  subst ht
  exact hk.snoc rfl

variable {token : List Char}

theorem answerHere_early (body : Bytes) (invalidJson : Bool) :
    (answerHere scope correlation token body invalidJson).All Early (fun _ => True)
      fun _ => True := by
  unfold answerHere
  have hrespond : ∀ reply, (Prog.bind (recordAndRespond correlation token "response" reply)
      fun _ => (.ret none : P (Option Unit))).All Early (fun _ => True) fun _ => True := fun reply =>
    Prog.all_bind.mpr (all_recordAndRespond (fun _ => trivial) (fun _ => trivial) trivial
      fun _ => trivial)
  split_ifs
  · exact hrespond _
  · exact hrespond _
  · exact hrespond _
  · refine Prog.all_bind.mpr ⟨trivial, fun gone => ?_⟩
    refine all_orRaise (fun gone => ?_) fun _ => trivial
    dsimp only
    split_ifs
    · refine Prog.all_bind.mpr (all_record trivial (fun _ => ?_) fun _ => trivial)
      exact Prog.all_bind.mpr (all_record trivial (fun _ => trivial) fun _ => trivial)
    · trivial
  · trivial

theorem beforeDispatch_keeps (body : Bytes) (hk : InOrder [Read token] log ∧ Outside log) :
    Keeps scope correlation (beforeDispatch scope correlation token body)
      (fun x log => Outside log ∧
        ∀ u, x = .ok (some u) → InOrder (admitted correlation token) log) log := by
  have hearly : (record (requestRecord scope correlation token body)).All Early (fun _ => True)
      fun _ => True := all_record trivial (fun _ => trivial) fun _ => trivial
  refine Safe.bind ((Keeps.record _ hk.1).and (Keeps.early hearly hk)) ?_ ?_
  · intro invalidJson log h
    refine (Keeps.early (answerHere_early body invalidJson) ⟨h.1 _ rfl, h.2.1.2⟩).mono ?_
    exact fun x log h => ⟨h.1.2, fun _ _ => h.1.1⟩
  · exact fun e log h => ⟨h.2.1.2, fun u hu => nomatch hu⟩

theorem guarded_beforeDispatch (body : Bytes) (hk : InOrder [Read token] log ∧ Outside log) :
    Keeps scope correlation
      (guarded correlation false false (beforeDispatch scope correlation token body))
      (fun x log => Outside log ∧
        ∀ u, x = .ok (some u) → InOrder (admitted correlation token) log) log := by
  refine Safe.tryCatch (beforeDispatch_keeps body hk) (fun _ _ h => h) fun e log h => ?_
  have hk' : InOrder [] log ∧ Outside log := ⟨InOrder.nil _, h.1⟩
  refine Safe.bind (Keeps.early (interrupted_early false e) hk') ?_ ?_
  · exact fun _ log h => ⟨h.1.2, fun u hu => nomatch hu⟩
  · exact fun _ log h => ⟨h.1.2, fun u hu => nomatch hu⟩

theorem runApplication_keeps (body : Bytes) (ht : authorized scope token)
    (hk : InOrder (admitted correlation token) log) :
    Keeps scope correlation (runApplication body)
      (fun _ log => InOrder (admitted correlation token ++ [Entered]) log) log := by
  refine Safe.bind (Keeps.await (Q := fun _ log =>
    InOrder (admitted correlation token ++ [Entered]) log) ⟨token, ht, hk⟩
    fun a => hk.snoc ⟨true, body, a, rfl⟩) ?_ fun _ _ h => h
  rintro ⟨events, outcome⟩ log h
  refine Safe.bind (P := fun _ => InOrder _) (Safe.ofExcept h) (fun _ log h => ?_) fun _ _ h => h
  exact Safe.bind (P := fun _ => InOrder _) (Safe.ofExcept h) (fun _ log h => h) fun _ _ h => h

theorem eq_of_compareDigest {a b : List Char} (h : compareDigest a b = .ok true) : a = b := by
  unfold compareDigest at h
  split_ifs at h
  simpa using h

/-- the application, then its response recorded under the same token -/
theorem dispatch_keeps (body : Bytes) (ht : authorized scope token)
    (hk : InOrder (admitted correlation token) log) :
    Keeps scope correlation (dispatch correlation token body)
      (Returns fun r log => ∀ events, r = some events → InOrder (committed correlation token) log)
      log := by
  refine Safe.attemptThen (runApplication_keeps body ht hk) ?_
  rintro (e | emitted) log hk
  · dsimp only
    split_ifs
    · refine (Keeps.calm (V := fun r => r = none) (E := fun _ => True) ?_ hk).mono ?_
      · refine Prog.all_bind.mpr (all_record trivial (fun _ => ?_) fun _ => trivial)
        refine Prog.all_bind.mpr (all_recordAndRespond (fun _ => trivial) (fun _ => ?_) rfl
          fun _ => trivial)
        simp [Calm, Reply.DeniesCompletion]
      · intro x log h r hr events he
        rw [h.2.1 r hr] at he
        cases he
    · exact fun _ hr => nomatch hr
  · refine Safe.andThen (Keeps.token hk) fun current log hk => ?_
    replace hk := hk current rfl
    cases hc : compareDigest token current with
    | error e => exact fun _ hr => nomatch hr
    | ok same =>
      cases same with
      | false =>
        simp only [Prog.bind_eq, Prog.ofExcept, Prog.bind, Bool.not_false, if_true]
        refine (Keeps.calm (V := fun r => r = none) (E := fun _ => True) ?_ hk).mono ?_
        · refine Prog.all_bind.mpr (all_recordAndRespond (fun _ => trivial) (fun _ => ?_) rfl
            fun _ => trivial)
          simp [Calm, Reply.DeniesCompletion]
        · intro x log h r hr events he
          rw [h.2.1 r hr] at he
          cases he
      | true =>
        obtain rfl := eq_of_compareDigest hc
        simp only [Prog.bind_eq, Prog.ofExcept, Prog.bind, Bool.not_true, Bool.false_eq_true, if_false]
        refine Safe.andThen (P := fun _ => InOrder _) (Safe.ofExcept hk) fun status log hk => ?_
        refine Safe.andThen (Keeps.record _ hk) fun _ log hk => ?_
        refine Safe.andThen (Keeps.record _ (hk _ rfl)) fun _ log hk => ?_
        intro r _ events _
        simpa [committed] using hk _ rfl

theorem guarded_dispatch (body : Bytes) (ht : authorized scope token)
    (hk : InOrder (admitted correlation token) log) :
    Keeps scope correlation (guarded correlation true false (dispatch correlation token body))
      (fun x log => x ≠ .error .unavailable ∧
        ∀ events, x = .ok (some events) → InOrder (committed correlation token) log) log := by
  refine Safe.tryCatch (dispatch_keeps body ht hk) ?_ fun e log _ => ?_
  · exact fun r log h => ⟨fun hx => (nomatch hx), fun events he => h r rfl events (by cases he; rfl)⟩
  · refine Safe.bind (Keeps.calm (interrupted_calm false e (fun h => nomatch h)) (InOrder.nil log)) ?_ ?_
    · exact fun _ log _ => ⟨fun hx => (nomatch hx), fun events he => (nomatch he)⟩
    · refine fun e log h => ⟨fun hx => h.2.2 e rfl ?_, fun events he => (nomatch he)⟩
      cases hx
      rfl

theorem watch_delivery {V : Unit → Prop} (hV : V ()) :
    watch.All Delivery V (· ≠ .unavailable) := by
  refine Prog.all_bind.mpr ⟨trivial, fun r => ?_⟩
  cases r with
  | quiet => exact hV
  | gone => exact Exc.noConfusion
  | broken => exact Exc.noConfusion
  | stopped f => exact Exc.noConfusion

theorem deliver_delivery {V : Unit → Prop} (e : Event) (hV : V ()) :
    (deliver e).All Delivery V (· ≠ .unavailable) := by
  refine Prog.all_bind.mpr ⟨trivial, fun r => ?_⟩
  cases r with
  | ok u => exact hV
  | error f => exact Prog.all_bind.mpr (watch_delivery Exc.noConfusion)

theorem deliverAll_delivery {V : Unit → Prop} (events : List Event) (hV : V ()) :
    (deliverAll events).All Delivery V (· ≠ .unavailable) := by
  induction events with
  | nil => exact hV
  | cons e events ih =>
    exact Prog.all_bind.mpr (watch_delivery (Prog.all_bind.mpr (deliver_delivery e ih)))

theorem sendAuditedResponse_delivery {V : Unit → Prop} (events : List Event) (hV : V ()) :
    (sendAuditedResponse events).All Delivery V (· ≠ .unavailable) := by
  refine Prog.all_bind.mpr (deliverAll_delivery _ ?_)
  refine Prog.all_bind.mpr (watch_delivery (Prog.all_bind.mpr (watch_delivery ?_)))
  refine Prog.all_bind.mpr ⟨trivial, fun r => ?_⟩
  cases r with
  | ok u => exact hV
  | error f => exact Exc.noConfusion

theorem guarded_send (events : List Event) (ht : authorized scope token)
    (hk : InOrder (committed correlation token) log) :
    Keeps scope correlation
      (guarded correlation true true (do
        sendAuditedResponse events
        return some ()))
      (fun x _ => x ≠ .error .unavailable) log := by
  have hall : (Prog.bind (sendAuditedResponse events) fun _ => (.ret (some ()) : P (Option Unit))).All
      Delivery (fun _ => True) (· ≠ .unavailable) :=
    Prog.all_bind.mpr (sendAuditedResponse_delivery events trivial)
  refine Safe.tryCatch (Keeps.delivery ht hall hk) (fun _ _ _ hx => nomatch hx) fun e log h => ?_
  refine Safe.bind (Keeps.calm (interrupted_calm true e fun _ => h.2.2 e rfl) h.1) ?_ ?_
  · exact fun _ _ _ hx => nomatch hx
  · intro e log h hx
    cases hx
    exact h.2.2 _ rfl rfl

/-! ## the whole request -/

/-- how `handle` may end: `AuditUnavailable` leaves it only when the application was not entered -/
def HandleEnd (x : Except Exc Unit) (log : Log) : Prop := x = .error .unavailable → Outside log

theorem Keeps.earlyEnd {m : P Unit} (h : m.All Early (fun _ => True) fun _ => True)
    (hk : InOrder ps log ∧ Outside log) : Keeps scope correlation m HandleEnd log :=
  (Keeps.early h hk).mono fun _ _ h _ => h.1.2

theorem handle_keeps (passes : Nat) (ht : authorized scope token)
    (hk : InOrder [Read token] log ∧ Outside log) :
    Keeps scope correlation (handle scope correlation token passes) HandleEnd log := by
  refine Safe.bind (Keeps.early (receiveBody_early passes []) hk) ?_ fun _ _ h _ => h.1.2
  rintro (_ | body) log ⟨hk, -⟩
  · exact fun hx => nomatch hx
  refine Safe.attemptThen (Keeps.early (all_token (V := fun _ => True) (E := fun _ => True) trivial
    (fun _ => trivial) fun _ => trivial) hk) ?_
  rintro (e | current) log ⟨hk, -⟩
  · dsimp only
    split_ifs
    · exact Keeps.earlyEnd (all_respond (fun _ => trivial) trivial fun _ => trivial) hk
    · exact fun _ => hk.2
  dsimp only
  cases hc : compareDigest token current with
  | error e => exact fun _ => hk.2
  | ok same =>
    cases same with
    | false =>
      simp only [Prog.bind_eq, Prog.ofExcept, Prog.bind, Bool.not_false, if_true]
      refine Keeps.earlyEnd (Prog.all_bind.mpr ⟨trivial, fun r => ?_⟩) hk
      refine Prog.all_ofExcept (fun _ _ => ?_) fun _ _ => trivial
      exact Prog.all_bind.mpr (all_respond (fun _ => trivial) trivial fun _ => trivial)
    | true =>
      simp only [Prog.bind_eq, Prog.ofExcept, Prog.bind, Bool.not_true, Bool.false_eq_true, if_false]
      refine Safe.bind (guarded_beforeDispatch body hk) ?_ fun _ _ h _ => h.1
      rintro (_ | u) log ⟨-, hk⟩
      · exact fun hx => nomatch hx
      refine Safe.bind (guarded_dispatch body ht (hk u rfl)) ?_ ?_
      · rintro (_ | emitted) log ⟨-, hk⟩
        · exact fun hx => nomatch hx
        refine Safe.bind (guarded_send emitted ht (hk emitted rfl)) ?_ ?_
        · exact fun _ _ _ hx => nomatch hx
        · exact fun e _ h hx => absurd (by cases hx; rfl) h
      · exact fun e _ h hx => absurd (by cases hx; rfl) h.1

theorem all_acquire {V : Unit → Prop} (x : Semaphore) (h : A (.acquire x)) (hV : V ())
    (hE : ∀ f, E (.foreign f)) : (acquire x).All A V E :=
  ⟨h, fun _ => all_orRaise (fun _ => hV) hE⟩

theorem acquireBoth_early (large : Bool) :
    (acquireBoth large).All Early (fun _ => True) fun _ => True := by
  have hslots : ∀ m : Exc → P Unit, (∀ e, (m e).All Early (fun _ => True) fun _ => True) →
      ((acquire .slots).tryCatch m).All Early (fun _ => True) fun _ => True := fun m hm =>
    Prog.all_tryCatch.mpr (all_acquire .slots trivial trivial fun _ => hm _)
  cases large with
  | false => exact hslots _ fun _ => trivial
  | true =>
    refine Prog.all_bind.mpr (all_acquire .largeRequests trivial ?_ fun _ => trivial)
    exact hslots _ fun _ => ⟨trivial, fun _ => trivial⟩

theorem admission_early (large : Bool) :
    (admission scope correlation large).All Early (fun _ => True) fun _ => True := by
  refine Prog.all_tryCatch.mpr ((acquireBoth_early large).mono (fun _ h => h) (fun _ h => h) ?_)
  intro e _
  dsimp only
  split_ifs
  · exact Prog.all_bind.mpr (all_recordEnd trivial trivial trivial fun _ _ => trivial)
  · trivial

theorem releaseBoth_calm (large : Bool) :
    (do
      release .slots
      if large then release .largeRequests : P Unit).All Calm (fun _ => True) fun _ => True := by
  cases large with
  | false => exact ⟨trivial, fun _ => trivial⟩
  | true => exact ⟨trivial, fun _ => ⟨trivial, fun _ => trivial⟩⟩

theorem serve_keeps (passes : Nat) (hhttp : scope.type = "http") :
    Keeps scope correlation (serve scope correlation passes) (fun _ _ => True) [] := by
  have hout : Outside [] := fun e he => nomatch he
  have hnil : InOrder ([] : List (Entry → Prop)) [] ∧ Outside [] := ⟨InOrder.nil [], hout⟩
  unfold serve
  rw [if_neg (by simp [hhttp])]
  have htoken : Keeps scope correlation Gateway.token (fun x log =>
      (∀ t, x = .ok t → InOrder [Read t] log) ∧ Outside log) [] :=
    ((Keeps.token hnil.1).and (Keeps.early (all_token (V := fun _ => True) (E := fun _ => True)
      trivial (fun _ => trivial) fun _ => trivial) hnil)).mono
        fun x log h => ⟨fun t ht => h.1 t ht, h.2.1.2⟩
  refine Safe.attemptThen htoken ?_
  rintro (e | token) log ⟨hk, hout⟩
  · dsimp only
    split_ifs
    · exact (Keeps.early (V := fun _ => True) (E := fun _ => True) (all_respond (fun _ => trivial)
        trivial fun _ => trivial) ⟨InOrder.nil log, hout⟩).mono fun _ _ _ => trivial
    · trivial
  replace hk := hk token rfl
  dsimp only
  by_cases hauth : (!authorized scope token || decide (scope.scheme ≠ some "https")) = true
  · rw [if_pos hauth]
    refine (Keeps.early (V := fun _ => True) (E := fun _ => True) ?_ ⟨hk, hout⟩).mono
      fun _ _ _ => trivial
    refine Prog.all_bind.mpr ⟨trivial, fun r => Prog.all_ofExcept (fun _ _ => ?_) fun _ _ => trivial⟩
    exact all_respond (fun _ => trivial) trivial fun _ => trivial
  · rw [if_neg hauth]
    have ht : authorized scope token := by
      by_contra h
      exact hauth (by simp [h])
    refine Safe.bind (Keeps.early (admission_early _) ⟨hk, hout⟩) (fun _ log h => ?_)
      fun _ _ _ => trivial
    have hhandle : Keeps scope correlation ((handle scope correlation token passes).tryCatch fun e =>
        if e = .unavailable then respond (auditUnavailable false false) else .raise e)
        (fun _ _ => True) log := by
      refine Safe.tryCatch (handle_keeps passes ht h.1) (fun _ _ _ => trivial) fun e log h => ?_
      split_ifs with he
      · subst he
        exact (Keeps.early (V := fun _ => True) (E := fun _ => True) (all_respond (fun _ => trivial)
          trivial fun _ => trivial) ⟨InOrder.nil log, h rfl⟩).mono fun _ _ _ => trivial
      · trivial
    refine Safe.finally_ hhandle fun r log _ => ?_
    refine (Keeps.calm (releaseBoth_calm _) (InOrder.nil log)).mono ?_
    rintro (e | u) log _ <;> trivial

end

/-- **Audit before action.**  At every moment of every HTTP request, whatever the token file, the
audit log, the client, the application and the semaphores do: the application is entered only after
the request of this correlation was recorded; an event of the application is sent only after the
response and the end of the connection were recorded and the token that authorized the request was
read once more; and no reply that denies completion is sent once the application was entered. -/
theorem audit_before_action (scope : Scope) (correlation : String) (hhttp : scope.type = "http")
    (passes : Nat) (env : Env sig) (n : Nat) :
    Proper scope correlation (logOf scope correlation passes env n) := by
  have hstep : ∀ log o (a : o.Answer), Proper scope correlation log →
      Allowed scope correlation log o → Proper scope correlation (machine.exec o a log).2 :=
    fun _ _ a h ho => Proper.cons a h ho
  exact (Safe.run (fun _ => rfl) hstep env n _ _ _ (Proper.nil scope correlation)
    (serve_keeps passes hhttp)).1

/-- an event of the application is handed to the client -/
def sendsApp : Entry → Bool
  | ⟨.send (.app _), _⟩ => true
  | _ => false

def sampleToken : List Char := List.replicate 32 't'

def sampleScope : Scope where
  type := "http"
  scheme := some "https"
  httpVersion := some "1.1"
  method := "GET"
  path := "/mcp"
  queryString := []
  headers := [(bytes "Authorization", bytes "Bearer " ++ Utf8.encode sampleToken)]

/-- nothing fails and the application answers with one body -/
def sampleEnv : Env sig := fun _ o => match o with
  | .acquire _ => .ok ()
  | .release _ => ()
  | .readToken => .ok sampleToken
  | .reject _ => .ok ()
  | .record _ => .ok false
  | .receive => .ok (.part [] false)
  | .clientGone => .ok false
  | .enter _ _ => ([.start (some 200) [], .body [104, 105] false], .ok ())
  | .watch => .quiet
  | .send _ => .ok ()

theorem audit_before_action_delivered :
    (logOf sampleScope "c" 1 sampleEnv 40).any sendsApp = true ∧
      Proper sampleScope "c" (logOf sampleScope "c" 1 sampleEnv 40) :=
  ⟨by decide +kernel, audit_before_action sampleScope "c" rfl 1 sampleEnv 40⟩

end Netops.Gateway
