import Netops.Admin.Runs

/-!
# One operation for a request

A request that the journal knows is answered from the journal: `apply` finds the record by the
file of the request or by a scan of all records, and does nothing to the device.

* `checked`        the checks `apply` makes before it takes a lock;
* `Refused`        why `apply` may refuse a request that is known;
* `ends_known`     the lookup finds the one record, whatever the others write meanwhile;
* `ends_apply`     `apply` answers with it, or refuses;
* `once_per_request`   what holds in every run.
-/

namespace Netops
open Effect Prog Execute

/-- the checks of `_apply` before it takes a lock -/
def Execute.checked (cfg : Config) (d : String) (request : Request) (undo : Bool) :
    Except Exn (Device × Adapter) :=
  match target cfg d request with
  | .error e => .error e
  | .ok dev =>
    match optIn dev request undo with
    | .error e => .error e
    | .ok _ => (adapter dev.platform request.isTransaction).map (dev, ·)

theorem apply_eq (cfg : Config) (d : String) (request : Request) (expected : Option (Option Attrs))
    (enrolling undo : Bool) : apply cfg d request expected enrolling undo
      = (Prog.ofExcept (checked cfg d request undo)).bind fun x =>
        withLock x.1.name <| withTargetLock x.1 <|
          applyLocked cfg x.2 x.1 request expected enrolling undo := by
  unfold apply checked
  generalize target cfg d request = x
  cases x with
  | error e => rfl
  | ok dev =>
    show (Prog.ofExcept (optIn dev request undo)).bind (fun _ =>
      (Prog.ofExcept (adapter dev.platform request.isTransaction)).bind fun ad => _) = _
    dsimp only
    generalize optIn dev request undo = y
    cases y with
    | error e => rfl
    | ok _ =>
      show (Prog.ofExcept (adapter dev.platform request.isTransaction)).bind (fun ad => _) = _
      dsimp only
      generalize adapter dev.platform request.isTransaction = z
      cases z <;> rfl

/-- the request of the record `r` is `request`, sent to the device `dev` -/
def Record.Answers (r : Record) (request : Request) (dev : Device) : Prop :=
  r.requestSha256 = request.fingerprint ∧ r.device = dev.name

instance (r : Record) (request : Request) (dev : Device) : Decidable (r.Answers request dev) :=
  inferInstanceAs (Decidable (_ ∧ _))

theorem Later.answers {r r' : Record} {request : Request} {dev : Device} (h : Later r r') :
    r'.Answers request dev ↔ r.Answers request dev := by
  unfold Record.Answers
  rw [h.requestSha256, h.device]

/-- why a request with the record `r` is refused: a lock is taken (where `B` holds), something
fails (where `F` holds), the request does not pass the first checks, or it is another one -/
inductive Refused (cfg : Config) (d : String) (request : Request) (undo : Bool) (r : Record)
    (B F : Prop) : Exn → Prop
  | failed (e : Exn) (h : F) : Refused cfg d request undo r B F e
  | unchecked (e : Exn) (h : checked cfg d request undo = .error e) :
      Refused cfg d request undo r B F e
  | lockBusy (h : B) : Refused cfg d request undo r B F State.lockBusy
  | targetBusy (h : B) : Refused cfg d request undo r B F State.targetBusy
  | reused (dev : Device) (ad : Adapter) (h : checked cfg d request undo = .ok (dev, ad))
      (hne : ¬ r.Answers request dev) : Refused cfg d request undo r B F (rejected reusedRequest)

/-! ## the lookup -/

section
variable {cfg : Config} {p : Pid} {s : State} {R : State → State → Prop} {K : State → Prop}
variable {Ok : State → Op → Prop} [Permits Ok] {F : Prop} {c : ChangeId} {r : Record}
variable (hR : ∀ s t, R s t → Rely p s t) (hKr : ∀ t, K t → ∃ r', t.store.ops c = some r' ∧ Later r r')
include hKr

omit [Permits Ok] in
/-- a record of the same request is the record of `c` -/
theorem readOf_same {t : State} {c' : ChangeId} {r' : Record} (h : ReadOf cfg K t c' r')
    (hid : r'.requestId = r.requestId) : c' = c ∧ Later r r' := by
  obtain ⟨-, u, hKu, hi, hr'⟩ := h
  obtain ⟨r₀, hr₀, hl⟩ := hKr u hKu
  have hc := hi.unique c' c r' r₀ hr' hr₀ (hid.trans hl.requestId.symm)
  subst hc
  cases hr'.symm.trans hr₀
  exact ⟨rfl, hl⟩

include hR

theorem ends_journaled (hK : Kept cfg p R K) (hs : K s) (dev : Device) (request : Request)
    (hid : r.requestId = request.requestId) :
    EndsIn cfg p R Ok F (journaled dev request)
      (Yields (fun e => F ∨ e = rejected reusedRequest ∧ ¬ r.Answers request dev)
        fun o t => r.Answers request dev ∧ K t ∧ ∃ r', o = some r' ∧ ReadOf cfg K t c r') s := by
  refine Ends.andThen (ends_records hR hK hs fun h _ => .inl h) ?_
  rintro rs t ⟨hKt, u, hKu, hi, -, hrs⟩
  have hfound : ∀ x ∈ rs.filter fun x => x.requestId = request.requestId,
      ReadOf cfg K t c x ∧ Later r x := by
    intro x hx
    obtain ⟨hx, hxid⟩ := List.mem_filter.mp hx
    obtain ⟨c', -, hread⟩ := forall₂_mem_right hrs hx
    obtain ⟨rfl, hl⟩ := readOf_same hKr hread ((of_decide_eq_true hxid).trans hid.symm)
    exact ⟨hread, hl⟩
  -- the record was there when the directory was listed
  obtain ⟨r₀, hr₀, -⟩ := hKr u hKu
  have hmem : c ∈ u.store.ids.mergeSort :=
    List.mem_mergeSort.mpr ((hi.ids c).mpr (by rw [hr₀]; simp))
  obtain ⟨x, hx, hread⟩ := forall₂_mem_left hrs hmem
  have hxid : x.requestId = request.requestId := by
    obtain ⟨-, v, hKv, -, hv⟩ := hread
    obtain ⟨r₁, hr₁, hl⟩ := hKr v hKv
    cases hv.symm.trans hr₁
    exact hl.requestId.trans hid
  have hx' : x ∈ rs.filter fun x => x.requestId = request.requestId :=
    List.mem_filter.mpr ⟨hx, decide_eq_true hxid⟩
  have hany : ((rs.filter fun x => x.requestId = request.requestId).any fun x =>
      x.requestSha256 ≠ request.fingerprint || x.device ≠ dev.name) = true ↔
      ¬ r.Answers request dev := by
    rw [List.any_eq_true]
    constructor
    · rintro ⟨y, hy, hne⟩ ha
      obtain ⟨h1, h2⟩ := (hfound y hy).2.answers.mpr ha
      simp [h1, h2] at hne
    · intro hne
      refine ⟨x, hx', ?_⟩
      rw [← (hfound x hx').2.answers] at hne
      unfold Record.Answers at hne
      by_cases h1 : x.requestSha256 = request.fingerprint
      · simp [show x.device ≠ dev.name from fun h2 => hne ⟨h1, h2⟩]
      · simp [h1]
  unfold raiseIf
  simp only [bind_eq, pure_eq]
  split
  · next h => exact .inr ⟨rfl, hany.mp h⟩
  · next h =>
    refine ⟨not_not.mp fun hne => h (hany.mpr hne), hKt, ?_⟩
    cases hhead : (rs.filter fun x => x.requestId = request.requestId) with
    | nil => rw [hhead] at hx'; cases hx'
    | cons y ys => exact ⟨y, rfl, (hfound y (by rw [hhead]; exact .head _)).1⟩

/-- **The lookup finds the one record**, or says that its request is another one. -/
theorem ends_known (hK : Kept cfg p R K) (hs : K s) (dev : Device) (request : Request)
    (hid : r.requestId = request.requestId) :
    EndsIn cfg p R Ok F (known dev request)
      (Yields (fun e => F ∨ e = rejected reusedRequest ∧ ¬ r.Answers request dev)
        fun o t => r.Answers request dev ∧ K t ∧ ∃ r', o = some r' ∧ ReadOf cfg K t c r') s := by
  refine Ends.andThen (P := fun o t => K t ∧ ∀ entry, o = some entry → entry.changeId = c ∧
    (entry.requestSha256 = request.fingerprint ∧ entry.device = dev.name ↔ r.Answers request dev))
    (ends_read hK (.readRequest request.requestId) trivial hs (fun h _ => .inl h) ?_) ?_
  · intro t u hKt hi _ hKu _
    refine ⟨hKu, fun entry he => ?_⟩
    obtain ⟨r', hr', hid', hsha, hdev⟩ := hi.requests _ entry he
    obtain ⟨r₀, hr₀, hl⟩ := hKr t hKt
    have hc := hi.unique entry.changeId c r' r₀ hr' hr₀ (hid'.trans (hl.requestId.trans hid).symm)
    rw [hc] at hr'
    cases hr'.symm.trans hr₀
    refine ⟨hc, ?_⟩
    rw [← hl.answers, ← hsha, ← hdev]
    rfl
  · rintro o t ⟨hKt, hentry⟩
    cases o with
    | none => exact ends_journaled hR hKr hK hKt dev request hid
    | some entry =>
      obtain ⟨rfl, hans⟩ := hentry entry rfl
      dsimp only
      split
      · next hne =>
        refine .inr ⟨rfl, fun ha => ?_⟩
        obtain ⟨h1, h2⟩ := hans.mpr ha
        exact hne.elim (fun h => h h1) fun h => h h2
      · next heq =>
        obtain ⟨h1, h2⟩ := not_or.mp heq
        have ha := hans.mp ⟨not_not.mp h1, not_not.mp h2⟩
        obtain ⟨r₀, hr₀, -⟩ := hKr t hKt
        refine Ends.andThen (ends_readOp hR hK hKt (by rw [hr₀]; simp) fun h _ => .inl h) ?_
        rintro _ u ⟨hKu, r', rfl, hread⟩
        exact ⟨ha, hKu, r', rfl, hread⟩

end

/-! ## the locks -/

theorem State.lockOp_store (s : State) (p : Pid) (a : Option Exn) (op : LockOp) :
    (s.lockOp p a op).2.store = s.store := by
  cases op <;> simp only [State.lockOp] <;> split <;> rfl

theorem State.lockDevice_error {s : State} {p : Pid} {a : Option Exn} {d : String} {e : Exn}
    (h : (s.lockOp p a (.lockDevice d)).1 = .error e) :
    a = some e ∨ e = State.lockBusy ∧ s.locks d ≠ none := by
  cases a with
  | some e' => cases h; exact .inl rfl
  | none =>
    cases hl : s.locks d with
    | none => simp only [State.lockOp, hl] at h; cases h
    | some q => simp only [State.lockOp, hl] at h; cases h; exact .inr ⟨rfl, by simp⟩

theorem State.lockTarget_error {s : State} {p : Pid} {a : Option Exn} {f : String} {e : Exn}
    (h : (s.lockOp p a (.lockTarget f)).1 = .error e) :
    a = some e ∨ e = State.targetBusy ∧ s.targets f ≠ none := by
  cases a with
  | some e' => cases h; exact .inl rfl
  | none =>
    cases hl : s.targets f with
    | none => simp only [State.lockOp, hl] at h; cases h
    | some q => simp only [State.lockOp, hl] at h; cases h; exact .inr ⟨rfl, by simp⟩

section
variable {cfg : Config} {p : Pid} {s : State} {R : State → State → Prop} {K : State → Prop}
variable {Ok : State → Op → Prop} [Permits Ok] {F B : Prop} {c : ChangeId} {r : Record} {α : Type}

/-- a body between taking a lock and giving it back -/
theorem ends_locked {l l' : LockOp} {body : Admin α} {E : Exn → Prop} {Q : α → State → Prop}
    (hrelease : ∀ t a, (State.lockOp t p a l').1 = .ok true) (hQ : ∀ x, Stable (Inv cfg) R (Q x))
    (hstore : ∀ x t u, u.store = t.store → Q x t → Q x u)
    (hget : ∀ t a, R s t → Inv cfg t → Smooth F (.lock l) a →
      (∀ e, (State.lockOp t p a l).1 = .error e → E e) ∧
      ∀ b, (State.lockOp t p a l).1 = .ok b →
        EndsIn cfg p R Ok F body (Yields E Q) (State.lockOp t p a l).2) :
    EndsIn cfg p R Ok F ((lock l).bind fun _ =>
      body.finally_ ((lock l').bind fun _ => .ret ())) (Yields E Q) s := by
  refine Ends.andThen (P := fun _ t => EndsIn cfg p R Ok F body (Yields E Q) t) ?_ fun _ t ht => ?_
  · refine fun t hr hi => ⟨Permits.ok t _ trivial, fun a ha => Ends.ofExcept ?_⟩
    obtain ⟨herr, hok⟩ := hget t a hr hi ha
    show Yields E _ (State.lockOp t p a l).1 (State.lockOp t p a l).2
    cases hx : (State.lockOp t p a l).1 with
    | ok b => exact hok b hx
    | error e => exact herr e hx
  · refine Ends.finally_ ht fun x u hx => ?_
    refine Ends.bind (P := fun y v => (∃ b, y = .ok b) ∧ Yields E Q x v) ?_ (fun _ v hv => hv.2)
      (fun e v hv => by obtain ⟨⟨b, hb⟩, -⟩ := hv; cases hb)
    refine fun v hr hi => ⟨Permits.ok v _ trivial, fun a _ => Ends.ofExcept ⟨⟨true, hrelease v a⟩, ?_⟩⟩
    cases x with
    | error e => exact hx
    | ok y => exact hstore y v _ (State.lockOp_store v p a l') (hQ y u v hi hr hx)

theorem ends_countRejection :
    EndsIn cfg p R Ok F countRejection (Yields (fun _ => F) fun _ _ => True) s := by
  refine Ends.attemptThen (P := Yields (fun _ => F) fun _ _ => True) ?_ fun x t hx => ?_
  · refine Ends.andThen (P := fun _ _ => True) ?_ fun now t _ => ?_
    · refine fun t _ _ => ⟨Permits.ok t _ trivial, fun a ha => Ends.ofExcept ?_⟩
      cases a with
      | ok now => trivial
      | error e => exact ha.resolve_right fun ⟨_, h⟩ => nomatch h
    · refine fun u _ _ => ⟨Permits.ok u _ trivial, fun a ha => Ends.ofExcept ?_⟩
      cases a with
      | done => trivial
      | lost e => exact ha.resolve_right fun h => nomatch h
      | late e => exact ha.resolve_right fun h => nomatch h
  · cases x with
    | ok _ => trivial
    | error e =>
      dsimp only
      split
      · trivial
      · exact hx

theorem ends_counting {m : Admin α} {E : Exn → Prop} {Q : α → State → Prop} (hE : F → ∀ e, E e)
    (h : EndsIn cfg p R Ok F m (Yields E Q) s) :
    EndsIn cfg p R Ok F (counting m) (Yields E Q) s := by
  refine Ends.attemptThen h fun x t hx => ?_
  cases x with
  | ok a => exact hx
  | error e =>
    refine Ends.bind (P := Yields (fun _ => F) fun _ _ => True) ?_ (fun _ _ _ => hx)
      (fun e' _ hF => hE hF e')
    unfold doIf
    split
    · exact ends_countRejection
    · trivial

/-! ## `apply` -/

/-- the record `x`, as it was at some moment since `K` holds, is the answer to the request -/
def Told (cfg : Config) (d : String) (request : Request) (undo : Bool) (c : ChangeId) (r : Record)
    (K : State → Prop) (x : Record) (t : State) : Prop :=
  ∃ dev ad, checked cfg d request undo = .ok (dev, ad) ∧ r.Answers request dev ∧ K t ∧
    ReadOf cfg K t c x

variable (hR : ∀ s t, R s t → Rely p s t)
variable (hKr : ∀ t, K t → ∃ r', t.store.ops c = some r' ∧ Later r r')
variable (hKs : ∀ t u, u.store = t.store → K t → K u)
include hR hKr hKs

/-- **`apply` answers a known request from the journal**: the record is returned if the request is
its request, and nothing else is done. -/
theorem ends_apply (hK : Kept cfg p R K) (hs : K s) (d : String) (request : Request)
    (hid : r.requestId = request.requestId) (expected : Option (Option Attrs))
    (enrolling undo : Bool) (hlocks : B ∨ ∀ s t, R s t → t.locks = s.locks ∧ t.targets = s.targets)
    (hfree : B ∨ ∀ dev ad, checked cfg d request undo = .ok (dev, ad) →
      s.locks dev.name = none ∧ s.targets dev.hostKeyFingerprint = none) :
    EndsIn cfg p R Ok F (apply cfg d request expected enrolling undo)
      (Yields (Refused cfg d request undo r B F) (Told cfg d request undo c r K)) s := by
  rw [apply_eq]
  cases hx : checked cfg d request undo with
  | error e => exact .unchecked e hx
  | ok x =>
    obtain ⟨dev, ad⟩ := x
    have hstable : ∀ x, Stable (Inv cfg) R (Told cfg d request undo c r K x) :=
      fun x t u hi hr ⟨dev, ad, h1, h2, h3, h4⟩ =>
        ⟨dev, ad, h1, h2, hK.rely t u hi hr h3, h4.rely (hR t u hr)⟩
    have hstore : ∀ x t u, u.store = t.store → Told cfg d request undo c r K x t →
        Told cfg d request undo c r K x u := by
      rintro x t u hu ⟨dev, ad, h1, h2, h3, h4, h5⟩
      exact ⟨dev, ad, h1, h2, hKs t u hu h3, hu ▸ h4, h5⟩
    have hfree' : ∀ t, R s t → B ∨ t.locks dev.name = none ∧ t.targets dev.hostKeyFingerprint = none := by
      intro t hr
      rcases hlocks with hB | hl
      · exact .inl hB
      · rw [(hl s t hr).1, (hl s t hr).2]
        exact hfree.imp id fun h => h dev ad hx
    refine ends_locked (fun _ _ => rfl) hstable hstore fun t a hr hi ha =>
      ⟨fun e he => ?_, fun b hb => ?_⟩
    · rcases State.lockDevice_error he with rfl | ⟨rfl, hbusy⟩
      · exact .failed e (ha.resolve_right fun h => nomatch h)
      · exact .lockBusy ((hfree' t hr).resolve_right fun h => hbusy h.1)
    · rw [State.lockDevice_ok hb]
      have hKt := hKs t { t with locks := Function.update t.locks dev.name (some p) } rfl
        (hK.rely s t hi hr hs)
      refine ends_locked (fun _ _ => rfl) hstable hstore fun u a' hr' hi' ha' =>
        ⟨fun e he => ?_, fun b hb => ?_⟩
      · rcases State.lockTarget_error he with rfl | ⟨rfl, hbusy⟩
        · exact .failed e (ha'.resolve_right fun h => nomatch h)
        · rcases hlocks with hB | hl
          · exact .targetBusy hB
          · rw [(hl _ u hr').2] at hbusy
            exact .targetBusy ((hfree' t hr).resolve_right fun h => hbusy h.2)
      · have hKu := hKs u _ (State.lockOp_store u p a' (.lockTarget dev.hostKeyFingerprint)) (hK.rely _ u hi' hr' hKt)
        refine Ends.bind (ends_known hR hKr hK hKu dev request hid) ?_ ?_
        · rintro _ v ⟨hans, hKv, r', rfl, hread⟩
          exact ⟨dev, ad, hx, hans, hKv, hread⟩
        · rintro e v (hF | ⟨rfl, hne⟩)
          · exact .failed e hF
          · exact .reused dev ad hx hne

/-- the same for the call of a process -/
theorem ends_call (hK : Kept cfg p R K) (hs : K s) (d : String) (request : Request)
    (hid : r.requestId = request.requestId)
    (hlocks : B ∨ ∀ s t, R s t → t.locks = s.locks ∧ t.targets = s.targets)
    (hfree : B ∨ ∀ dev ad, checked cfg d request false = .ok (dev, ad) →
      s.locks dev.name = none ∧ s.targets dev.hostKeyFingerprint = none) :
    EndsIn cfg p R Ok F (Call.prog cfg (.apply d request))
      (Yields (Refused cfg d request false r B F) fun answer t => ∃ x, answer = .record x ∧
        Told cfg d request false c r K x t) s := by
  refine Ends.andThen (ends_counting (fun hF e => .failed e hF)
    (ends_apply hR hKr hKs hK hs d request hid none false false hlocks hfree)) ?_
  exact fun x t hx => ⟨x, rfl, hx⟩

end

/-! ## what holds in every run -/

theorem State.exec_harmless_store {p : Pid} {op : Op} {a : op.Choice} {t : State}
    (h : op.harmless) : (State.exec p op a t).2.store = t.store := by
  cases op with
  | host q => rfl
  | file op =>
    have hread : t.store.write op = t.store := by
      cases op <;> first | exact False.elim h | rfl
    cases a with
    | done => exact hread
    | lost e => rfl
    | late e => exact hread
  | _ => exact h.elim

/-- nothing is sent to a device -/
def Silent (_ : State) (o : Op) : Prop := ∀ d c q, o ≠ .device d c q

instance : Permits Silent where
  ok _ op h := by
    rintro d c q rfl
    exact h

/-- the journal or the directory of the requests knows the request -/
def Store.Knows (st : Store) (id : String) : Prop :=
  st.requests id ≠ none ∨ ∃ c r, st.ops c = some r ∧ r.requestId = id

theorem Inv.knows {cfg : Config} {s : State} (hi : Inv cfg s) {id : String} (h : s.store.Knows id) :
    ∃ c r, s.store.ops c = some r ∧ r.requestId = id := by
  rcases h with h | h
  · obtain ⟨entry, he⟩ := Option.ne_none_iff_exists'.mp h
    obtain ⟨r, hr, hid, -⟩ := hi.requests id entry he
    exact ⟨entry.changeId, r, hr, hid⟩
  · exact h

/-- what became of the record `r` of `c` -/
def Still (c : ChangeId) (r : Record) (t : State) : Prop :=
  ∃ r', t.store.ops c = some r' ∧ Later r r'

theorem still_kept {cfg : Config} {p : Pid} (c : ChangeId) (r : Record) :
    Kept cfg p (Rely p) (Still c r) :=
  Kept.of_rely (fun _ _ h => h) fun s t hr ⟨r', hr', hl⟩ => by
    obtain ⟨r'', hr'', hl'⟩ := hr.later c r' hr'
    exact ⟨r'', hr'', hl.trans hl'⟩

/-- what is known of a process that applies a request which was known when it started -/
structure Answering (cfg : Config) (p : Pid) (q : Proc adminSig State Exn Answer Call) (s : State)
    (d : String) (request : Request) (c : ChangeId) (r : Record) : Prop where
  silent : ∀ x ∈ q.log, ∀ d c call, x.1 ≠ .device d c call
  ends : ∀ F : Prop, (∀ x ∈ q.log, Smooth F x.1 x.2) →
    EndsIn cfg p (Rely p) Silent F q.prog
      (Yields (Refused cfg d request false r True F) fun answer t => ∃ x, answer = .record x ∧
        Told cfg d request false c r (Still c r) x t) s

section
variable {cfg : Config} {w : Service}

theorem Reachable.answering (h : Reachable cfg w) {p : Pid}
    {q : Proc adminSig State Exn Answer Call} (hq : w.procs p = some q) : Inv cfg q.start ∧
    ∀ d request, q.call = .apply d request → ∀ c r, q.start.store.ops c = some r →
      r.requestId = request.requestId → Answering cfg p q w.shared d request c r := by
  obtain ⟨s, hs, hw⟩ := h
  refine ((Sys.Reach.inv (I := Inv cfg) (G := fun p s t => ∀ q, p ≠ q → Rely q s t)
    (H := fun p q s => Conforms cfg p q.prog (fun _ _ => True) s ∧ Inv cfg q.start ∧
      ∀ d request, q.call = .apply d request → ∀ c r, q.start.store.ops c = some r →
        r.requestId = request.requestId → Answering cfg p q s d request c r)
    hs.inv ?_ ?_ ?_ ?_ hw).2 p q hq).2
  · intro p call s hi
    refine ⟨conform_prog cfg p s call, hi, ?_⟩
    rintro d request rfl c r hr hid
    refine ⟨fun _ hx => (nomatch hx), fun F _ => ?_⟩
    exact ends_call (fun _ _ h => h) (fun _ h => h) (fun t u hu h => by rw [hu]; exact h)
      (still_kept c r) ⟨r, hr, .refl r⟩ d request hid (.inl trivial) (.inl trivial)
  · intro p q s o k a hi ⟨hgood, hstart, hans⟩ ho
    rw [ho] at hgood
    obtain ⟨hok, hk⟩ := hgood s (.refl p s) hi
    refine ⟨hi.exec hok a, fun q hq => rely_exec hi hq hok a, hk a, hstart, ?_⟩
    intro d request hc c r hr hid
    obtain ⟨hsilent, hends⟩ := hans d request hc c r hr hid
    refine ⟨fun x hx => ?_, fun F hF => ?_⟩
    · rcases List.mem_cons.mp hx with rfl | hx
      · have hop := hends True fun x _ => smooth_true x.1 x.2
        rw [ho] at hop
        exact (hop s (.refl p s) hi).1
      · exact hsilent x hx
    · have hop := hends F fun x hx => hF x (.tail _ hx)
      rw [ho] at hop
      exact (hop s (.refl p s) hi).2 a (hF _ (.head _))
  · exact fun p s hi => ⟨hi.crash, fun q hq => rely_crash hq⟩
  · intro p p' q s t hp _ hi hG ⟨hgood, hstart, hans⟩
    have hr := hG p (Ne.symm hp)
    refine ⟨Safe.rely (fun _ _ _ => Rely.trans) (fun _ _ _ _ _ _ => trivial) hi hr hgood, hstart, ?_⟩
    intro d request hc c r hstored hid
    obtain ⟨hsilent, hends⟩ := hans d request hc c r hstored hid
    refine ⟨hsilent, fun F hF => Ends.rely (fun _ _ _ => Rely.trans) (fun x => ?_) hi hr (hends F hF)⟩
    intro u v hi' hr' hx
    cases x with
    | error e => exact hx
    | ok answer =>
      obtain ⟨x, hx, dev, ad, hchecked, hanswers, hstill, hread⟩ := hx
      exact ⟨x, hx, dev, ad, hchecked, hanswers, (still_kept c r).rely u v hi' hr' hstill,
        hread.rely hr'⟩

/-- one operation for a request -/
structure OncePerRequest (cfg : Config) (w : Service) : Prop where
  /-- no two records have one request -/
  unique : ∀ c c' r r', w.shared.store.ops c = some r → w.shared.store.ops c' = some r' →
    r.requestId = r'.requestId → c = c'
  /-- a process whose request was known when it started does nothing to a device -/
  silent : ∀ p q d request, w.procs p = some q → q.call = .apply d request →
    q.start.store.Knows request.requestId → ∀ x ∈ q.log, ∀ d c call, x.1 ≠ .device d c call
  /-- ... and it returns the one record, as it was read, or says why it does not; that the request is
  another one, only where it is -/
  answered : ∀ p q d request, w.procs p = some q → q.call = .apply d request →
    q.start.store.Knows request.requestId → ∃ c r, q.start.store.ops c = some r ∧
      r.requestId = request.requestId ∧ q.prog ≠ .stuck ∧
      (∀ answer, q.prog = .ret answer → ∃ x r' dev ad, answer = .record x ∧
        checked cfg d request false = .ok (dev, ad) ∧ r.Answers request dev ∧ Later r x ∧
        w.shared.store.ops c = some r' ∧ Later x r') ∧
      ∀ e, q.prog = .raise e →
        Refused cfg d request false r True (∃ x ∈ q.log, ¬ x.1.succeeds x.2) e
  /-- a process that finds the locks free and meets no failure gets its answer -/
  ends : ∀ p d request dev ad, checked cfg d request false = .ok (dev, ad) →
    w.shared.locks dev.name = none → w.shared.targets dev.hostKeyFingerprint = none →
    w.shared.store.Knows request.requestId → ∃ c r, w.shared.store.ops c = some r ∧
      r.requestId = request.requestId ∧ ∀ env : Env adminSig, (∀ i o, Op.succeeds o (env i o)) →
      ∃ N t, ∀ n, N ≤ n →
        run (machine p) (fun i => env (n - i)) n (Call.prog cfg (.apply d request)) w.shared
          = (if r.Answers request dev then .returned (.record r)
              else .raised (rejected reusedRequest), t)

/-- **At most one operation per request.** -/
theorem once_per_request (h : Reachable cfg w) : OncePerRequest cfg w := by
  refine ⟨h.inv.unique, ?_, ?_, ?_⟩
  · intro p q d request hq hcall hknows
    obtain ⟨hi, hans⟩ := h.answering hq
    obtain ⟨c, r, hr, hid⟩ := hi.knows hknows
    exact (hans d request hcall c r hr hid).silent
  · intro p q d request hq hcall hknows
    obtain ⟨hi, hans⟩ := h.answering hq
    obtain ⟨c, r, hr, hid⟩ := hi.knows hknows
    have hends := (hans d request hcall c r hr hid).ends (∃ x ∈ q.log, ¬ x.1.succeeds x.2)
      fun x hx => or_iff_not_imp_right.mpr fun hfail => ⟨x, hx, hfail⟩
    refine ⟨c, r, hr, hid, fun hstuck => ?_, fun answer hret => ?_, fun e hraise => ?_⟩
    · rw [hstuck] at hends
      exact hends
    · rw [hret] at hends
      obtain ⟨x, rfl, dev, ad, hchecked, hanswers, -, ⟨r', hr', hl⟩, u, ⟨r₀, hr₀, hl₀⟩, -, hx⟩ := hends
      cases hx.symm.trans hr₀
      exact ⟨x, r', dev, ad, rfl, hchecked, hanswers, hl₀, hr', hl⟩
    · rw [hraise] at hends
      exact hends
  · intro p d request dev ad hchecked hlock htarget hknows
    have hi := h.inv
    obtain ⟨c, r, hr, hid⟩ := hi.knows hknows
    refine ⟨c, r, hr, hid, fun env henv => ?_⟩
    -- alone: nothing changes between two operations
    have hK : Kept cfg p (· = ·) fun t => t.store.ops c = some r :=
      ⟨fun _ _ _ he ht => he ▸ ht, fun t op a hop _ ht => by
        rw [State.exec_harmless_store hop]
        exact ht⟩
    have hends : EndsIn cfg p (· = ·) (OpOk cfg p) False (Call.prog cfg (.apply d request)) _ w.shared :=
      ends_call (B := False) (fun s _ he => he ▸ .refl p s) (fun t ht => ⟨r, ht, .refl r⟩)
        (fun t u hu ht => by rw [hu]; exact ht) hK hr d request hid
        (.inr fun _ _ he => he ▸ ⟨rfl, rfl⟩) (.inr fun dev' ad' hx => by
          cases hchecked.symm.trans hx
          exact ⟨hlock, htarget⟩)
    obtain ⟨N, x, t, hx, hrun⟩ := Ends.run (e := env) (fun _ => rfl) (fun s o a hi hok => hi.exec hok a)
      hi hends fun i o => .inr (henv i o)
    refine ⟨N, t, fun n hn => (hrun n hn).trans ?_⟩
    cases x with
    | ok answer =>
      obtain ⟨x, rfl, dev', ad', hx, hanswers, -, -, u, hu, -, hread⟩ := hx
      cases hchecked.symm.trans hx
      cases hu.symm.trans hread
      rw [if_pos hanswers]
      rfl
    | error e =>
      cases hx with
      | failed e h => exact h.elim
      | unchecked e h => cases hchecked.symm.trans h
      | lockBusy h => exact h.elim
      | targetBusy h => exact h.elim
      | reused dev' ad' h hne =>
        cases hchecked.symm.trans h
        rw [if_neg hne]
        rfl

end

theorem once_per_request_run : ∃ w, Reachable serviceConfig w ∧
    w.shared.store.Knows exampleRequest.requestId ∧ OncePerRequest serviceConfig w := by
  obtain ⟨w, hw, hshared⟩ := serviceRun_reachable true
  have hrun : ((serviceRun true).store.requests exampleRequest.requestId).isSome = true := by
    decide +kernel
  refine ⟨w, hw, .inl fun hn => ?_, once_per_request hw⟩
  rw [← hshared, hn] at hrun
  cases hrun

/-- the state after another process has taken the lock of the device -/
def serviceHeld : State :=
  (run (machine 1) (serviceEnv true) 2 (Call.prog serviceConfig (.unblock "edge" ""))
    (serviceRun true)).2

theorem serviceHeld_busy : (run (machine 2) (serviceEnv true) 20
    (Call.prog serviceConfig (.apply "edge" exampleRequest)) serviceHeld).1
      = .raised State.lockBusy := by
  have hrun : (match (run (machine 2) (serviceEnv true) 20
      (Call.prog serviceConfig (.apply "edge" exampleRequest)) serviceHeld).1 with
    | .raised e => decide (e = State.lockBusy)
    | _ => false) = true := by decide +kernel
  split at hrun
  · next e he => rw [he, of_decide_eq_true hrun]
  · cases hrun

/-- A request is asked for a second time while another process holds the lock of the device: the
process neither returns the record nor is it refused because of the request. -/
theorem known_request_busy : ∃ w q r, Reachable serviceConfig w ∧ w.procs 2 = some q ∧
    q.call = .apply "edge" exampleRequest ∧ q.start.store.ops 1 = some r ∧
    r.requestId = exampleRequest.requestId ∧ r.Answers exampleRequest exampleDevice ∧
    q.prog = .raise State.lockBusy ∧ State.lockBusy ≠ rejected reusedRequest := by
  obtain ⟨w, hw, hused, hshared⟩ := serviceRun_reached true
  have hspawn := Sys.Reach.step hw (.spawn w 1 (Call.unblock "edge" "") (by rw [hused]; decide))
  obtain ⟨w₁, -, hw₁, hused₁, -, -, -, hshared₁, -⟩ :=
    Sys.Reach.run (serviceEnv true) 2 (p := 1) hspawn rfl
  have hheld : w₁.shared = serviceHeld := by
    rw [hshared₁, serviceHeld, ← hshared]
  have hspawn₂ := Sys.Reach.step hw₁ (.spawn w₁ 2 (Call.apply "edge" exampleRequest)
    (by simp [hused₁, hused]))
  obtain ⟨w₂, q, hw₂, -, hq, hcall, hstart, -, hraise⟩ :=
    Sys.Reach.run (serviceEnv true) 20 (p := 2) hspawn₂ rfl
  have hbusy : ∃ r, serviceHeld.store.ops 1 = some r ∧ r.requestId = exampleRequest.requestId ∧
      r.Answers exampleRequest exampleDevice := by
    have hrun : ((serviceHeld.store.ops 1).map fun r =>
        decide (r.requestId = exampleRequest.requestId ∧ r.Answers exampleRequest exampleDevice))
        = some true := by
      decide +kernel
    obtain ⟨r, hr, hans⟩ := Option.map_eq_some_iff.mp hrun
    exact ⟨r, hr, of_decide_eq_true hans⟩
  obtain ⟨r, hr, hid, hans⟩ := hbusy
  refine ⟨w₂, q, r, ⟨serviceStart, serviceStart_empty, hw₂⟩, hq, hcall, ?_, hid, hans, ?_, by decide⟩
  · rw [hstart, ← hr, ← hheld]
  · refine hraise State.lockBusy ?_
    rw [hheld]
    exact serviceHeld_busy

end Netops
