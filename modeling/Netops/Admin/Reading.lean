import Netops.Admin.Work

/-!
# Reading the journal

A read of the whole journal is no snapshot: the directory is listed and one file is read after the
other, while the others go on writing.

* `Smooth F`         the environment decides without a failure, or `F` holds;
* `Kept cfg p R K`   the others (`R`) and the reads of `p` keep `K`;
* `ReadOf`           a record as it was at some moment; what became of it is there now;
* `ends_read`, `ends_records`   the rules: a read ends, and fails only where `F` holds;
* `conform_records`  the same where any read may fail.
-/

namespace Netops
open Effect Prog Execute

/-- the environment decides without a failure -/
def Op.succeeds : (op : Op) → op.Choice → Prop
  | .device _ _ _, a => ∃ y, a = .ok y
  | .host _, a => ∃ y, a = .ok y
  | .file _, a => a = .done
  | .lock _, a => a = none
  | .tokenHex, _ => True
  | .budgetNow, a => ∃ now, a = .ok now

/-- ... or `F` holds -/
def Smooth (F : Prop) (op : Op) (a : op.Choice) : Prop := F ∨ op.succeeds a

theorem smooth_true (op : Op) (a : op.Choice) : Smooth True op a := .inl trivial

/-- the others and the reads of `p` keep `K` -/
structure Kept (cfg : Config) (p : Pid) (R : State → State → Prop) (K : State → Prop) : Prop where
  rely : Stable (Inv cfg) R K
  own : ∀ t op a, Op.harmless op → Inv cfg t → K t → K (State.exec p op a t).2

/-- `p` comes to an end, with the others as in `R` and failures where `F` holds -/
abbrev EndsIn (cfg : Config) (p : Pid) (R : State → State → Prop) (Ok : State → Op → Prop)
    (F : Prop) {α : Type} (m : Admin α) (Q : Except Exn α → State → Prop) (s : State) : Prop :=
  Effect.Ends (machine p) (Inv cfg) R Ok (Smooth F) m Q s

section
variable {cfg : Config} {p : Pid} {s : State} {R : State → State → Prop} {K L : State → Prop}

theorem Lasts.kept (h : Lasts cfg p K) : Kept cfg p (Rely p) K :=
  ⟨h, fun t _ a hop hi ht => h t _ (hi.exec (ok_of_harmless hop) a) (rely_harmless hop a) ht⟩

theorem Kept.and (h : Kept cfg p R K) (h' : Kept cfg p R L) : Kept cfg p R fun t => K t ∧ L t :=
  ⟨h.rely.and h'.rely, fun t op a hop hi ht => ⟨h.own t op a hop hi ht.1, h'.own t op a hop hi ht.2⟩⟩

/-- what every step of the others keeps, the reads of `p` keep as well -/
theorem Kept.of_rely (hR : ∀ s t, R s t → Rely p s t) (h : ∀ s t, Rely p s t → K s → K t) :
    Kept cfg p R K :=
  ⟨fun s t _ hr => h s t (hR s t hr), fun t _ a hop _ => h t _ (rely_harmless hop a)⟩

/-- `r` was the record of `c` at a moment when `K` held, and what became of it is there now -/
def ReadOf (cfg : Config) (K : State → Prop) (t : State) (c : ChangeId) (r : Record) : Prop :=
  (∃ r', t.store.ops c = some r' ∧ Later r r') ∧ ∃ u, K u ∧ Inv cfg u ∧ u.store.ops c = some r

theorem ReadOf.rely {t u : State} {c : ChangeId} {r : Record}
    (h : ReadOf cfg K t c r) (hr : Rely p t u) : ReadOf cfg K u c r := by
  obtain ⟨⟨r', hr', hl⟩, hread⟩ := h
  obtain ⟨r'', hr'', hl'⟩ := hr.later c r' hr'
  exact ⟨⟨r'', hr'', hl.trans hl'⟩, hread⟩

theorem ReadOf.imp {t : State} {c : ChangeId} {r : Record}
    (h : ReadOf cfg K t c r) (hK : ∀ u, K u → L u) : ReadOf cfg L t c r := by
  obtain ⟨hnow, u, hu, hi, hr⟩ := h
  exact ⟨hnow, u, hK u hu, hi, hr⟩

/-- a record stays -/
theorem Rely.ops_ne_none {t : State} (hr : Rely p s t) {c : ChangeId} (h : s.store.ops c ≠ none) :
    t.store.ops c ≠ none := by
  obtain ⟨r, hr'⟩ := Option.ne_none_iff_exists'.mp h
  obtain ⟨r', hr'', -⟩ := hr.later c r hr'
  rw [hr'']
  simp

end

section
variable {cfg : Config} {p : Pid} {s : State} {R : State → State → Prop} {K : State → Prop}
variable {Ok : State → Op → Prop} [Permits Ok] {F : Prop}

/-- one read of a file: it fails only where `F` holds -/
theorem ends_read (hK : Kept cfg p R K) (op : FileOp) (hop : Op.harmless (.file op)) (hs : K s)
    {E : Exn → Prop} {Q : op.Reply → State → Prop} (hE : F → ∀ e, E e)
    (hok : ∀ t u, K t → Inv cfg t → Inv cfg u → K u → u.store = t.store → Q (t.store.read op) u) :
    EndsIn cfg p R Ok F (file op) (Yields E Q) s := by
  refine fun t hr hi => ⟨Permits.ok t _ (free_of_harmless _ hop), fun a ha => ?_⟩
  have hKt := hK.rely s t hi hr hs
  have hi' := hi.exec (show OpOk cfg p t (.file op) from ok_of_harmless hop) a
  have hK' := hK.own t _ a hop hi hKt
  have hstore : t.store.write op = t.store := by
    cases op <;> first | exact False.elim hop | rfl
  cases a with
  | done => exact hok t _ hKt hi hi' hK' hstore
  | lost e => exact hE (ha.resolve_right fun h => nomatch h) e
  | late e => exact hE (ha.resolve_right fun h => nomatch h) e

variable (hR : ∀ s t, R s t → Rely p s t)
include hR

theorem ends_readOp (hK : Kept cfg p R K) (hs : K s) {c : ChangeId} (hc : s.store.ops c ≠ none)
    {E : Exn → Prop} (hE : F → ∀ e, E e) :
    EndsIn cfg p R Ok F (Journal.operation (some c)) (Yields E fun o t => K t ∧
      ∃ r, o = some r ∧ ReadOf cfg K t c r) s := by
  have hK' := hK.and (Kept.of_rely (K := fun t => t.store.ops c ≠ none) hR
    fun s t hr h => hr.ops_ne_none h)
  refine Ends.andThen (P := fun o t => K t ∧ ∃ y, o = some y ∧ ReadOf cfg K t c y.1)
    (ends_read hK' (.readOp c) trivial ⟨hs, hc⟩ hE ?_) ?_
  · intro t u ht hi _ hu hstore
    obtain ⟨r, hr⟩ := Option.ne_none_iff_exists'.mp ht.2
    refine ⟨hu.1, (r, t.store.revision c), by simp [Store.read, hr], ?_⟩
    exact ⟨⟨r, hstore ▸ hr, .refl r⟩, t, ht.1, hi, hr⟩
  · rintro _ t ⟨hKt, y, rfl, hy⟩
    exact ⟨hKt, y.1, rfl, hy⟩

theorem ends_readAll (hK : Kept cfg p R K) (cs : List ChangeId) (hs : K s)
    (hcs : ∀ c ∈ cs, s.store.ops c ≠ none) {E : Exn → Prop} (hE : F → ∀ e, E e) :
    EndsIn cfg p R Ok F (Journal.readAll cs) (Yields E fun rs t => K t ∧
      List.Forall₂ (ReadOf cfg K t) cs rs) s := by
  induction cs generalizing s K with
  | nil => exact ⟨hs, .nil⟩
  | cons c cs ih =>
    -- what is not read yet stays, and so does what was read
    have hrest := hK.and (Kept.of_rely
      (K := fun t => ∀ c' ∈ cs, t.store.ops c' ≠ none) hR
      fun s t hr h c' hc' => hr.ops_ne_none (h c' hc'))
    refine Ends.andThen (ends_readOp hR hrest ⟨hs, fun c' hc' => hcs c' (.tail _ hc')⟩
      (hcs c (.head _)) hE) ?_
    rintro _ t ⟨⟨hKt, hcs'⟩, r, rfl, hread⟩
    have hread : ReadOf cfg K t c r := hread.imp fun _ h => h.1
    have hKr := hK.and (Kept.of_rely (K := fun t => ReadOf cfg K t c r) hR
      fun s t hr h => h.rely hr)
    refine Ends.andThen (ih hKr ⟨hKt, hread⟩ hcs') ?_
    rintro rs u ⟨⟨hKu, hread⟩, hrs⟩
    exact ⟨hKu, .cons hread (hrs.imp fun _ _ h => h.imp fun _ h => h.1)⟩

/-- **A read of the whole journal**: the names listed at one moment, each record as it was when it
was read. -/
theorem ends_records (hK : Kept cfg p R K) (hs : K s) {E : Exn → Prop} (hE : F → ∀ e, E e) :
    EndsIn cfg p R Ok F Journal.records (Yields E fun rs t => K t ∧ ∃ u, K u ∧ Inv cfg u ∧
      (t.admission = some p → t.store.ids = u.store.ids) ∧
      List.Forall₂ (ReadOf cfg K t) u.store.ids.mergeSort rs) s := by
  -- nothing is created while the admission lock is held
  have hadmitted : ∀ ids, Kept cfg p R fun t => t.admission = some p → t.store.ids = ids :=
    fun ids => Kept.of_rely hR fun s t hr h ha => by
      have ha' := hr.admission.mp ha
      exact (hr.admitted ha').1.trans (h ha')
  refine Ends.andThen (P := fun ids t => ∃ u, K u ∧ Inv cfg u ∧
    (K t ∧ (t.admission = some p → t.store.ids = u.store.ids)) ∧
    ids = u.store.ids.mergeSort ∧ ∀ c ∈ ids, t.store.ops c ≠ none)
    (ends_read hK .listOps trivial hs hE ?_) ?_
  · intro t u ht hi _ hu hstore
    refine ⟨t, ht, hi, ⟨hu, fun _ => by rw [hstore]⟩, rfl, fun c hc => ?_⟩
    rw [hstore]
    exact (hi.ids c).mp (List.mem_mergeSort.mp hc)
  · rintro _ t ⟨u, hKu, hi, hKt, rfl, hcs⟩
    refine (ends_readAll hR (hK.and (hadmitted u.store.ids)) _ hKt hcs hE).mono ?_
    refine Yields.imp (fun _ h => h) fun rs v ⟨hKv, hrs⟩ => ?_
    exact ⟨hKv.1, u, hKu, hi, hKv.2, hrs.imp fun _ _ h => h.imp fun _ h => h.1⟩

end

/-! ## where any read may fail -/

section
variable {cfg : Config} {p : Pid} {s : State} {K : State → Prop}
variable {Ok : State → Op → Prop} [Permits Ok]

omit [Permits Ok] in
theorem EndsIn.conforms {α : Type} {m : Admin α} {E : Exn → Prop} {Q : α → State → Prop}
    (h : EndsIn cfg p (Rely p) Ok True m (Yields E Q) s) : ConformsTo cfg p Ok m (Returns Q) s := by
  refine (Ends.safe smooth_true h).mono fun x t hx a ha => ?_
  subst ha
  exact hx

theorem conform_readOp (hK : Lasts cfg p K) (hs : K s) {c : ChangeId}
    (hc : s.store.ops c ≠ none) :
    ConformsTo cfg p Ok (Journal.operation (some c)) (Returns fun o t => K t ∧
      ∃ r, o = some r ∧ ReadOf cfg K t c r) s :=
  (ends_readOp (fun _ _ h => h) hK.kept hs hc (E := fun _ => True) fun _ _ => trivial).conforms

theorem conform_records (hK : Lasts cfg p K) (hs : K s) :
    ConformsTo cfg p Ok Journal.records (Returns fun rs t => K t ∧ ∃ u, K u ∧ Inv cfg u ∧
      (t.admission = some p → t.store.ids = u.store.ids) ∧
      List.Forall₂ (ReadOf cfg K t) u.store.ids.mergeSort rs) s :=
  (ends_records (fun _ _ h => h) hK.kept hs (E := fun _ => True) fun _ _ => trivial).conforms

/-- a record of the device, read by whoever holds its lock -/
theorem conform_readHeld {d : String} {c : ChangeId} (hlock : s.locks d = some p)
    (hc : (s.view d).ops c ≠ none) :
    ConformsTo cfg p Ok (Journal.operation (some c)) (Returns fun o t => ∃ r, o = some r ∧
      r.device = d ∧ Working p r [] (fun v => v = s.view d ∧ v.ops r.changeId ≠ none) t) s := by
  let K : State → Prop := fun t => t.locks d = some p ∧ t.view d = s.view d
  have hK : Lasts cfg p K := fun t u _ hr ⟨h1, h2⟩ =>
    ⟨(hr.locks d).mpr h1, (hr.view d h1).trans h2⟩
  have hops : s.store.ops c ≠ none := by
    obtain ⟨r, hr, -⟩ := Store.deviceOps_ne_none.mp hc
    rw [hr]
    simp
  refine (conform_readOp hK ⟨hlock, rfl⟩ hops).mono fun x t ht o ho => ?_
  obtain ⟨hKt, r, rfl, -, w, hKw, hiw, hr⟩ := ht o ho
  have hd : r.device = d := by
    rw [← hKw.2] at hc
    obtain ⟨r', hr', hd⟩ := Store.deviceOps_ne_none.mp hc
    cases hr.symm.trans hr'
    exact hd
  have hstored : (t.view d).ops r.changeId = some r := by
    rw [hKt.2, ← hKw.2, hiw.changeId c r hr]
    exact Store.deviceOps_eq_some.mpr ⟨hr, hd⟩
  have hok : DeviceOk d (t.view d) := by
    rw [hKt.2, ← hKw.2]
    exact hiw.device d
  subst hd
  exact ⟨r, rfl, rfl, hKt.1, hok.saveable hstored, .nil _, hKt.2, by rw [hstored]; simp⟩

end

end Netops
