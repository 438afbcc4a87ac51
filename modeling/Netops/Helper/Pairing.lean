import Mathlib.Data.List.Nodup
import Netops.Helper.Session

/-!
# Requests and answers of the helper proxy

What every step keeps, as long as all steps meet the condition `State.meets`.

* `Inv`         the invariant of the shared state;
* `Allowed`     what is known when an operation is done;
* `Rely p`      what the other processes do to the state, seen from the process `p`;
* `Inv.exec`, `rely_exec`   one step keeps the invariant and what the others rely on.
-/

namespace Netops.Helper
open Effect

namespace State
variable (s : State)

/-- the request has an answer on standard output -/
def Answered (tag : Nat) : Prop := ∃ id, (some tag, id) ∈ s.out

/-- the requests that wait -/
def tags : List Nat := s.pending.map Prod.snd

/-- nothing that was written waits any more, and no connection is left -/
def Reaped : Prop := (∀ e ∈ s.pending, s.wasWritten e.2 = false) ∧ s.alive = []

/-- what the controller took up after it was written has its answer -/
def Clean : Prop := ∀ t, s.holder t = some .controller → s.wasWritten t = true → s.Answered t

/-- every request that waits was written -/
def Rested : Prop := ∀ e ∈ s.pending, s.wasWritten e.2 = true

end State

/-- the invariant of the shared state -/
structure Inv (s : State) : Prop where
  unbroken : s.broken = false
  valid : ∀ id ∈ s.accepted, validId id = true
  tags : s.tags.Nodup
  known : ∀ e ∈ s.pending, s.accepted[e.2]? = some e.1
  waiting : ∀ e ∈ s.pending, s.wasWritten e.2 = true → s.holder e.2 = none ∧ ¬ s.Answered e.2
  fresh : ∀ e ∈ s.pending, s.wasWritten e.2 = false →
    s.lock ≠ none ∧ s.holder e.2 = some .controller
  once : (s.out.filterMap Prod.fst).Nodup
  ids : ∀ t id, (some t, id) ∈ s.out → s.accepted[t]? = some id
  held : ∀ t o, s.holder t = some o → t < s.accepted.length
  sent : ∀ w ∈ s.written, w.1 < s.accepted.length
  settled : ∀ w ∈ s.written, w.1 ∈ s.tags ∨ s.Answered w.1 ∨ ∃ o, s.holder w.1 = some o
  idle : s.lock = none → s.Clean
  reaped : s.sessionOpen = false → s.reason = none → s.restartable = true → s.Reaped
  connection : s.connection = s.epoch
  alive : ∀ c ∈ s.alive, c = s.connection

theorem inv_start : Inv State.start where
  unbroken := rfl
  valid := fun _ h => nomatch h
  tags := List.nodup_nil
  known := fun _ h => nomatch h
  waiting := fun _ h => nomatch h
  fresh := fun _ h => nomatch h
  once := List.nodup_nil
  ids := fun _ _ h => nomatch h
  held := fun _ _ h => nomatch h
  sent := fun _ h => nomatch h
  settled := fun _ h => nomatch h
  idle := fun _ _ h => nomatch h
  reaped := fun h => nomatch h
  connection := rfl
  alive := fun _ h => List.mem_singleton.mp h

/-- the session is open, or it was closed and not finished yet -/
def State.Active (s : State) : Prop := s.sessionOpen = true ∨ s.reason ≠ none

/-- what is known when the process `p` does an operation -/
def Allowed (rt : Runtime) (p : Nat) (s : State) : Op → Prop
  | .release => s.lock = some p ∧ s.Rested ∧ s.Clean
  | .forbidRestart => s.lock = some p
  | .accept id => s.lock = some p ∧ validId id = true
  | .emit tag id => s.accepted[tag]? = some id ∧ ¬ s.Answered tag ∧
      (s.holder tag = some (.thread p) ∨ s.lock = some p ∧ s.holder tag = some .controller)
  | .clearPending id => s.lock = some p ∧
      ∀ e ∈ s.pending, sameKey rt e.1 id = true → s.wasWritten e.2 = false
  | .finishCheck => s.lock = some p
  | .kill => s.lock = some p
  | .abandon => s.lock = some p ∧ s.sessionOpen = false ∧ (s.restartable = true → s.alive = [])
  | .openSession => s.lock = some p ∧ s.sessionOpen = false ∧
      (s.closedSince = false → s.Reaped ∧ s.Clean)
  | .write (some tag) => s.lock = some p ∧ s.holder tag = some .controller ∧ ¬ s.Answered tag ∧
      s.Active ∧ tag ∈ s.tags
  | _ => True

/-- the operation leaves the state as it is -/
def reads : Op → Bool
  | .stopped | .restartable | .connection | .checks | .accepting _ | .popen | .hasInitialize
  | .clientInitialized | .waitInternal | .write none | .overdue | .batchPairable _ | .process _ =>
    true
  | _ => false

section
variable {rt : Runtime} {p : Nat} {s : State}

theorem exec_of_reads {o : Op} (h : reads o = true) (a : o.Choice) : (o.exec rt p s a).2 = s := by
  cases o with
  | write tag =>
    cases tag with
    | none => rfl
    | some tag => cases h
  | stopped | restartable | connection | checks | accepting | popen | hasInitialize
  | clientInitialized | waitInternal | overdue | batchPairable | process => rfl
  | _ => cases h

theorem pair_broken (epoch : Nat) (id : Id) : (s.pair rt p epoch id).2.broken = s.broken := by
  unfold State.pair
  split_ifs
  · rfl
  · rfl
  · rfl
  · split <;> rfl

theorem exec_broken (rt : Runtime) (p : Nat) (s : State) (o : Op) (a : o.Choice) :
    (o.exec rt p s a).2.broken = s.broken := by
  cases o with
  | acquire =>
    simp only [Op.exec]
    split <;> rfl
  | accept id =>
    simp only [Op.exec]
    split_ifs <;> rfl
  | write tag => cases tag <;> rfl
  | close reason epoch =>
    simp only [Op.exec]
    split_ifs <;> rfl
  | transform epoch id => exact pair_broken epoch id
  | _ => rfl

/-- a step that meets the condition does what the operation does -/
theorem machine_exec {o : Op} {a : o.Choice} (hb : s.broken = false)
    (hm : s.meets rt o a = true) : ((machine rt p).exec o a s).2 = (o.exec rt p s a).2 := by
  have h := exec_broken rt p s o a
  show { (o.exec rt p s a).2 with broken := s.broken || !s.meets rt o a } = _
  rw [hm, hb] at *
  rw [show (false || !true) = false from rfl, ← h]

theorem broken_of_not_meets {o : Op} {a : o.Choice} (h : s.broken = true ∨ s.meets rt o a = false) :
    ((machine rt p).exec o a s).2.broken = true := by
  show (s.broken || !s.meets rt o a) = true
  rcases h with h | h <;> simp [h]

/-! ## one step keeps the invariant -/

theorem wasWritten_iff {t : Nat} : s.wasWritten t = true ↔ ∃ w ∈ s.written, w.1 = t := by
  simp [State.wasWritten]

theorem not_wasWritten (hi : Inv s) {t : Nat} (ht : s.accepted.length ≤ t) :
    s.wasWritten t = false := by
  cases h : s.wasWritten t with
  | false => rfl
  | true =>
    obtain ⟨w, hw, rfl⟩ := wasWritten_iff.mp h
    exact absurd (hi.sent w hw) (by omega)

theorem not_answered (hi : Inv s) {t : Nat} (ht : s.accepted.length ≤ t) : ¬ s.Answered t := by
  rintro ⟨id, h⟩
  have hid := hi.ids t id h
  rw [List.getElem?_eq_none ht] at hid
  cases hid

theorem tag_lt (hi : Inv s) {e : Id × Nat} (he : e ∈ s.pending) : e.2 < s.accepted.length :=
  (List.getElem?_eq_some_iff.mp (hi.known e he)).1

theorem Inv.acquire (hi : Inv s) (h : s.lock = none) : Inv { s with lock := some p } :=
  { hi with
    fresh := fun e he hw => absurd h (hi.fresh e he hw).1
    idle := fun hn => nomatch hn }

theorem Inv.release (hi : Inv s) (hr : s.Rested) (hc : s.Clean) : Inv { s with lock := none } :=
  { hi with
    fresh := fun e he hw => absurd ((hr e he).symm.trans hw) (by decide)
    idle := fun _ => hc }

theorem Inv.accept (hi : Inv s) (hlock : s.lock = some p) {id : Id} (hid : validId id = true) :
    Inv { s.take .controller [s.accepted.length] with
      pending := s.pending ++ [(id, s.accepted.length)]
      accepted := s.accepted ++ [id] } := by
  have hlast : (s.accepted ++ [id])[s.accepted.length]? = some id := List.getElem?_concat_length
  have hkeep : ∀ {t : Nat} {v : Id}, s.accepted[t]? = some v → (s.accepted ++ [id])[t]? = some v :=
    fun {t v} h => by
      rw [List.getElem?_append_left (List.getElem?_eq_some_iff.mp h).1]
      exact h
  have hold : ∀ {t : Nat}, t < s.accepted.length →
      (s.take .controller [s.accepted.length]).holder t = s.holder t := by
    intro t ht
    show (if t ∈ [s.accepted.length] then _ else _) = _
    rw [if_neg (by simp; omega)]
  have hnew : (s.take .controller [s.accepted.length]).holder s.accepted.length
      = some .controller := if_pos (List.mem_singleton.mpr rfl)
  exact {
    unbroken := hi.unbroken
    valid := by
      intro v hv
      rcases List.mem_append.mp hv with hv | hv
      · exact hi.valid v hv
      · rw [List.mem_singleton.mp hv]
        exact hid
    tags := by
      show ((s.pending ++ [(id, s.accepted.length)]).map Prod.snd).Nodup
      rw [List.map_append, List.nodup_append]
      refine ⟨hi.tags, List.nodup_singleton _, fun a ha b hb => ?_⟩
      obtain ⟨e, he, rfl⟩ := List.mem_map.mp ha
      rw [List.mem_singleton.mp hb]
      exact (tag_lt hi he).ne
    known := by
      intro e he
      rcases List.mem_append.mp he with he | he
      · exact hkeep (hi.known e he)
      · rw [List.mem_singleton.mp he]
        exact hlast
    waiting := by
      intro e he hw
      rcases List.mem_append.mp he with he | he
      · exact ⟨(hold (tag_lt hi he)).trans (hi.waiting e he hw).1, (hi.waiting e he hw).2⟩
      · rw [List.mem_singleton.mp he] at hw
        exact absurd ((not_wasWritten hi (le_refl _)).symm.trans hw) (by decide)
    fresh := by
      intro e he hw
      refine ⟨fun h => (nomatch hlock.symm.trans h), ?_⟩
      rcases List.mem_append.mp he with he | he
      · exact (hold (tag_lt hi he)).trans (hi.fresh e he hw).2
      · rw [List.mem_singleton.mp he]
        exact hnew
    once := hi.once
    ids := fun t v h => hkeep (hi.ids t v h)
    held := by
      intro t o h
      show t < (s.accepted ++ [id]).length
      rw [List.length_append, List.length_singleton]
      by_cases ht : t = s.accepted.length
      · omega
      · have hne : t ∉ [s.accepted.length] := fun h => ht (List.mem_singleton.mp h)
        have h' : (if t ∈ [s.accepted.length] then some .controller else s.holder t) = some o := h
        rw [if_neg hne] at h'
        have := hi.held t o h'
        omega
    sent := by
      intro w hw
      have := hi.sent w hw
      show w.1 < (s.accepted ++ [id]).length
      rw [List.length_append]
      omega
    settled := by
      intro w hw
      rcases hi.settled w hw with h | h | ⟨o, h⟩
      · left
        show w.1 ∈ (s.pending ++ [(id, s.accepted.length)]).map Prod.snd
        rw [List.map_append]
        exact List.mem_append_left _ h
      · exact .inr (.inl h)
      · exact .inr (.inr ⟨o, (hold (hi.sent w hw)).trans h⟩)
    idle := fun h => nomatch hlock.symm.trans h
    reaped := by
      intro h1 h2 h3
      obtain ⟨hp, ha⟩ := hi.reaped h1 h2 h3
      refine ⟨fun e he => ?_, ha⟩
      rcases List.mem_append.mp he with he | he
      · exact hp e he
      · rw [List.mem_singleton.mp he]
        exact not_wasWritten hi (le_refl _)
    connection := hi.connection
    alive := hi.alive }

theorem Inv.emit (hi : Inv s) {tag : Nat} {id : Id} (hid : s.accepted[tag]? = some id)
    (hn : ¬ s.Answered tag) (ho : ∃ o, s.holder tag = some o) :
    Inv { s with out := (some tag, id) :: s.out } := by
  have hmore : ∀ {t : Nat}, s.Answered t →
      State.Answered { s with out := (some tag, id) :: s.out } t :=
    fun ⟨v, hv⟩ => ⟨v, List.mem_cons_of_mem _ hv⟩
  have hback : ∀ {t : Nat}, State.Answered { s with out := (some tag, id) :: s.out } t →
      t = tag ∨ s.Answered t := by
    rintro t ⟨v, hv⟩
    rcases List.mem_cons.mp hv with hv | hv
    · exact .inl (Option.some.inj (Prod.mk.inj hv).1)
    · exact .inr ⟨v, hv⟩
  exact { hi with
    waiting := by
      intro e he hw
      obtain ⟨h1, h2⟩ := hi.waiting e he hw
      refine ⟨h1, fun ha => ?_⟩
      rcases hback ha with h | h
      · obtain ⟨o, ho⟩ := ho
        rw [← h] at ho
        exact nomatch h1.symm.trans ho
      · exact h2 h
    once := by
      have hcons : ((some tag, id) :: s.out).filterMap Prod.fst
          = tag :: s.out.filterMap Prod.fst := rfl
      show (((some tag, id) :: s.out).filterMap Prod.fst).Nodup
      rw [hcons]
      refine List.nodup_cons.mpr ⟨fun h => hn ?_, hi.once⟩
      obtain ⟨⟨x, v⟩, hx, he⟩ := List.mem_filterMap.mp h
      exact ⟨v, by rw [← (show x = some tag from he)]; exact hx⟩
    ids := by
      intro t v h
      rcases List.mem_cons.mp h with h | h
      · cases h
        exact hid
      · exact hi.ids t v h
    settled := fun w hw => (hi.settled w hw).imp_right (Or.imp_left hmore)
    idle := fun hl t h1 h2 => hmore (hi.idle hl t h1 h2) }

theorem answered_other {id : Id} {t : Nat} :
    State.Answered { s with out := (none, id) :: s.out } t ↔ s.Answered t := by
  constructor
  · rintro ⟨v, hv⟩
    rcases List.mem_cons.mp hv with hv | hv
    · cases hv
    · exact ⟨v, hv⟩
  · exact fun ⟨v, hv⟩ => ⟨v, List.mem_cons_of_mem _ hv⟩

theorem Inv.emitOther (hi : Inv s) (id : Id) : Inv { s with out := (none, id) :: s.out } :=
  { hi with
    waiting := fun e he hw => ⟨(hi.waiting e he hw).1, fun h =>
      (hi.waiting e he hw).2 (answered_other.mp h)⟩
    once := hi.once
    ids := by
      intro t v h
      rcases List.mem_cons.mp h with h | h
      · cases h
      · exact hi.ids t v h
    settled := fun w hw => (hi.settled w hw).imp_right (Or.imp_left answered_other.mpr)
    idle := fun hl t h1 h2 => answered_other.mpr (hi.idle hl t h1 h2) }

/-- some requests that wait are taken off, none of which was written -/
theorem Inv.clearPending (hi : Inv s) (f : Id × Nat → Bool)
    (hf : ∀ e ∈ s.pending, f e = false → s.wasWritten e.2 = false) :
    Inv { s with pending := s.pending.filter f } :=
  { hi with
    tags := hi.tags.sublist (List.filter_sublist.map Prod.snd)
    known := fun e he => hi.known e (List.mem_filter.mp he).1
    waiting := fun e he => hi.waiting e (List.mem_filter.mp he).1
    fresh := fun e he => hi.fresh e (List.mem_filter.mp he).1
    settled := by
      intro w hw
      refine (hi.settled w hw).imp_left fun h => ?_
      obtain ⟨e, he, hew⟩ := List.mem_map.mp h
      refine List.mem_map.mpr ⟨e, List.mem_filter.mpr ⟨he, ?_⟩, hew⟩
      by_contra hfe
      have hnot := hf e he (by simpa using hfe)
      have hyes : s.wasWritten w.1 = true := wasWritten_iff.mpr ⟨w, hw, rfl⟩
      rw [hew, hyes] at hnot
      cases hnot
    reaped := fun h1 h2 h3 => ⟨fun e he => (hi.reaped h1 h2 h3).1 e (List.mem_filter.mp he).1,
      (hi.reaped h1 h2 h3).2⟩ }

theorem Inv.dropAlive (hi : Inv s) (f : Nat → Bool) : Inv { s with alive := s.alive.filter f } :=
  { hi with
    reaped := by
      intro h1 h2 h3
      obtain ⟨hp, ha⟩ := hi.reaped h1 h2 h3
      refine ⟨hp, ?_⟩
      show s.alive.filter f = []
      rw [ha]
      rfl
    alive := fun c hc => hi.alive c (List.mem_filter.mp hc).1 }

theorem Inv.abandon (hi : Inv s) (hlock : s.lock = some p)
    (ha : s.restartable = true → s.alive = []) :
    Inv { s.take .controller (s.pending.map Prod.snd) with
      pending := []
      internal := []
      reason := none } := by
  have hsome : ∀ {t : Nat}, (∃ o, s.holder t = some o) ∨ t ∈ s.tags →
      ∃ o, (s.take .controller (s.pending.map Prod.snd)).holder t = some o := by
    intro t h
    show ∃ o, (if t ∈ s.pending.map Prod.snd then some .controller else s.holder t) = some o
    split_ifs with ht
    · exact ⟨_, rfl⟩
    · exact h.resolve_right ht
  exact { hi with
    tags := List.nodup_nil
    known := fun _ he => nomatch he
    waiting := fun _ he => nomatch he
    fresh := fun _ he => nomatch he
    held := by
      intro t o h
      have h' : (if t ∈ s.pending.map Prod.snd then some .controller else s.holder t) = some o := h
      split_ifs at h' with ht
      · obtain ⟨e, he, rfl⟩ := List.mem_map.mp ht
        exact tag_lt hi he
      · exact hi.held t o h'
    settled := by
      intro w hw
      rcases hi.settled w hw with h | h | h
      · exact .inr (.inr (hsome (.inr h)))
      · exact .inr (.inl h)
      · exact .inr (.inr (hsome (.inl h)))
    idle := fun h => nomatch hlock.symm.trans h
    reaped := fun _ _ h3 => ⟨fun _ he => (nomatch he), ha h3⟩ }

theorem Inv.openSession (hi : Inv s) (hr : s.Reaped) :
    Inv { s with
      epoch := s.epoch + 1
      sessionOpen := true
      reason := none
      connection := s.epoch + 1
      alive := (s.epoch + 1) :: s.alive } :=
  { hi with
    reaped := fun h => nomatch h
    connection := rfl
    alive := by
      intro c hc
      rcases List.mem_cons.mp hc with hc | hc
      · exact hc
      · rw [hr.2] at hc
        cases hc }

theorem Inv.write (hi : Inv s) {tag : Nat} (hlock : s.lock = some p)
    (ho : s.holder tag = some .controller) (hn : ¬ s.Answered tag) (hactive : s.Active)
    (hpending : tag ∈ s.tags) :
    Inv { s with
      written := (tag, s.connection) :: s.written
      holder := fun t => if t = tag then none else s.holder t } := by
  have hwritten : ∀ {t : Nat},
      State.wasWritten { s with written := (tag, s.connection) :: s.written } t = true →
        t = tag ∨ s.wasWritten t = true := by
    intro t h
    obtain ⟨w, hw, rfl⟩ := wasWritten_iff.mp h
    rcases List.mem_cons.mp hw with rfl | hw
    · exact .inl rfl
    · exact .inr (wasWritten_iff.mpr ⟨w, hw, rfl⟩)
  have hmono : ∀ {t : Nat}, s.wasWritten t = true →
      State.wasWritten { s with written := (tag, s.connection) :: s.written } t = true := by
    intro t h
    obtain ⟨w, hw, rfl⟩ := wasWritten_iff.mp h
    exact wasWritten_iff.mpr ⟨w, List.mem_cons_of_mem _ hw, rfl⟩
  have hself : State.wasWritten { s with written := (tag, s.connection) :: s.written } tag = true :=
    wasWritten_iff.mpr ⟨_, List.mem_cons_self, rfl⟩
  exact { hi with
    waiting := by
      intro e he hw
      show (if e.2 = tag then none else s.holder e.2) = none ∧ ¬ s.Answered e.2
      split_ifs with ht
      · exact ⟨rfl, ht ▸ hn⟩
      · exact hi.waiting e he ((hwritten hw).resolve_left ht)
    fresh := by
      intro e he hw
      have hne : e.2 ≠ tag := fun h => by
        have hw' : State.wasWritten { s with written := (tag, s.connection) :: s.written } e.2
          = false := hw
        rw [h, hself] at hw'
        cases hw'
      have hold : s.wasWritten e.2 = false := by
        cases h : s.wasWritten e.2 with
        | false => rfl
        | true => exact nomatch (hmono h).symm.trans hw
      refine ⟨(hi.fresh e he hold).1, ?_⟩
      show (if e.2 = tag then none else s.holder e.2) = _
      rw [if_neg hne]
      exact (hi.fresh e he hold).2
    held := by
      intro t o h
      have h' : (if t = tag then none else s.holder t) = some o := h
      split_ifs at h'
      exact hi.held t o h'
    sent := by
      intro w hw
      rcases List.mem_cons.mp hw with rfl | hw
      · exact hi.held tag _ ho
      · exact hi.sent w hw
    settled := by
      intro w hw
      rcases List.mem_cons.mp hw with rfl | hw
      · exact .inl hpending
      · by_cases ht : w.1 = tag
        · exact .inl (ht ▸ hpending)
        · refine (hi.settled w hw).imp_right (Or.imp_right fun ⟨o, h⟩ => ⟨o, ?_⟩)
          show (if w.1 = tag then none else s.holder w.1) = some o
          rw [if_neg ht]
          exact h
    idle := fun h => nomatch hlock.symm.trans h
    reaped := by
      intro h1 h2
      rcases hactive with h | h
      · exact nomatch h.symm.trans h1
      · exact absurd h2 h }

theorem Inv.close (hi : Inv s) (reason : Reason) :
    Inv { s with
      sessionOpen := false
      reason := some reason
      closedSince := true } :=
  { hi with reaped := fun _ h => nomatch h }

/-- a request is taken up by the thread that has its answer -/
theorem Inv.pair (hi : Inv s) {e : Id × Nat} (he : e ∈ s.pending) :
    Inv { s.take (.thread p) [e.2] with pending := s.pending.filter fun x => x.2 ≠ e.2 } := by
  have hne : ∀ {t : Nat}, t ≠ e.2 → (s.take (.thread p) [e.2]).holder t = s.holder t := fun {t} ht =>
    if_neg fun h => ht (List.mem_singleton.mp h)
  have hself : (s.take (.thread p) [e.2]).holder e.2 = some (.thread p) :=
    if_pos (List.mem_singleton.mpr rfl)
  have hmem : ∀ {x : Id × Nat}, x ∈ s.pending.filter (fun x => x.2 ≠ e.2) →
      x ∈ s.pending ∧ x.2 ≠ e.2 := fun {x} hx => by simpa using hx
  exact { hi with
    tags := hi.tags.sublist (List.filter_sublist.map Prod.snd)
    known := fun x hx => hi.known x (hmem hx).1
    waiting := fun x hx hwx => ⟨(hne (hmem hx).2).trans (hi.waiting x (hmem hx).1 hwx).1,
      (hi.waiting x (hmem hx).1 hwx).2⟩
    fresh := fun x hx hwx => ⟨(hi.fresh x (hmem hx).1 hwx).1,
      (hne (hmem hx).2).trans (hi.fresh x (hmem hx).1 hwx).2⟩
    held := by
      intro t o h
      by_cases ht : t = e.2
      · rw [ht]
        exact tag_lt hi he
      · exact hi.held t o ((hne ht).symm.trans h)
    settled := by
      intro w hww
      by_cases ht : w.1 = e.2
      · exact .inr (.inr ⟨.thread p, by rw [ht]; exact hself⟩)
      · rcases hi.settled w hww with h | h | ⟨o, h⟩
        · obtain ⟨x, hx, hxw⟩ := List.mem_map.mp h
          exact .inl (List.mem_map.mpr ⟨x, List.mem_filter.mpr ⟨hx, by simpa [hxw] using ht⟩, hxw⟩)
        · exact .inr (.inl h)
        · exact .inr (.inr ⟨o, (hne ht).trans h⟩)
    idle := by
      intro hl t h1 h2
      by_cases ht : t = e.2
      · rw [ht] at h1
        exact nomatch hself.symm.trans h1
      · exact hi.idle hl t ((hne ht).symm.trans h1) h2
    reaped := fun h1 h2 h3 => ⟨fun x hx => (hi.reaped h1 h2 h3).1 x (hmem hx).1,
      (hi.reaped h1 h2 h3).2⟩ }

/-- what the locked section of `_transform` does: nothing to the requests, or one request is taken
up -/
theorem pair_cases (rt : Runtime) (p : Nat) (s : State) (epoch : Nat) (id : Id) :
    (∃ l, (s.pair rt p epoch id).2 = { s with internal := l } ∧
      ∀ t, (s.pair rt p epoch id).1 ≠ .paired t) ∨
    ∃ e ∈ s.pending, (s.pair rt p epoch id).1 = .paired e.2 ∧
      (s.pair rt p epoch id).2
        = { s.take (.thread p) [e.2] with pending := s.pending.filter fun x => x.2 ≠ e.2 } := by
  unfold State.pair
  split_ifs
  · exact .inl ⟨s.internal, rfl, fun _ h => nomatch h⟩
  · exact .inl ⟨s.internal, rfl, fun _ h => nomatch h⟩
  · exact .inl ⟨_, rfl, fun _ h => nomatch h⟩
  · cases hf : s.find rt id with
    | none => exact .inl ⟨s.internal, rfl, fun _ h => nomatch h⟩
    | some e => exact .inr ⟨e, List.mem_of_find?_eq_some hf, rfl, rfl⟩

/-- whether and what is paired does not depend on the thread -/
theorem pair_fst (rt : Runtime) (p q : Nat) (s : State) (epoch : Nat) (id : Id) :
    (s.pair rt p epoch id).1 = (s.pair rt q epoch id).1 := by
  unfold State.pair
  split_ifs
  · rfl
  · rfl
  · rfl
  · split <;> rfl

/-- **One step keeps the invariant.** -/
theorem Inv.exec (hi : Inv s) {o : Op} {a : o.Choice} (hok : Allowed rt p s o)
    (hm : s.meets rt o a = true) : Inv (o.exec rt p s a).2 := by
  by_cases hr : reads o = true
  · rw [exec_of_reads hr]
    exact hi
  cases o with
  | acquire =>
    simp only [Op.exec]
    split
    · rename_i hl
      exact hi.acquire hl
    · exact hi
  | release => exact hi.release hok.2.1 hok.2.2
  | setStopped => exact { hi with }
  | forbidRestart => exact { hi with reaped := fun _ _ h => nomatch h }
  | accept id =>
    simp only [Op.exec]
    split_ifs
    · exact hi
    · exact hi
    · exact hi.accept hok.1 hok.2
  | emit tag id =>
    refine hi.emit hok.1 hok.2.1 ?_
    rcases hok.2.2 with h | h
    · exact ⟨_, h⟩
    · exact ⟨_, h.2⟩
  | emitOther id => exact hi.emitOther id
  | clearPending id => exact hi.clearPending _ fun e he hf => hok.2 e he (by simpa using hf)
  | finishCheck => exact { hi with }
  | kill => exact hi.dropAlive _
  | abandon => exact hi.abandon hok.1 hok.2.2
  | openSession => exact hi.openSession (hok.2.2 (by simpa using (Bool.and_eq_true_iff.mp hm).1)).1
  | expectInternal => exact { hi with }
  | write tag =>
    cases tag with
    | none => exact hi
    | some tag => exact hi.write hok.1 hok.2.1 hok.2.2.1 hok.2.2.2.1 hok.2.2.2.2
  | close reason epoch =>
    simp only [Op.exec]
    split_ifs
    · exact hi.close reason
    · exact hi
  | transform epoch id =>
    show Inv (s.pair rt p epoch id).2
    rcases pair_cases rt p s epoch id with ⟨l, h, -⟩ | ⟨e, he, -, h2⟩
    · rw [h]
      exact { hi with }
    · rw [h2]
      exact hi.pair he
  | ended epoch => exact hi.dropAlive _
  | stopped | restartable | connection | checks | accepting | popen | hasInitialize
  | clientInitialized | waitInternal | overdue | batchPairable | process => exact absurd rfl hr

/-- an answer that is paired under the condition: the request was written, under this id -/
theorem meets_paired {epoch : Nat} {id : Id} {tag : Nat} {a : Unit}
    (h : (s.pair rt p epoch id).1 = .paired tag) (hm : s.meets rt (.transform epoch id) a = true) :
    s.wasWritten tag = true ∧ s.accepted[tag]? = some id := by
  rw [State.meets, ← pair_fst rt p, h] at hm
  obtain ⟨h1, h2⟩ := Bool.and_eq_true_iff.mp hm
  exact ⟨h1, of_decide_eq_true h2⟩

end

/-! ## what the others do -/

/-- what the others leave to the process that holds the controller lock -/
structure Locked (s t : State) : Prop where
  lock : t.lock = s.lock
  accepted : t.accepted = s.accepted
  written : t.written = s.written
  epoch : t.epoch = s.epoch
  restartable : t.restartable = s.restartable
  pending : t.pending.Sublist s.pending
  kept : ∀ e ∈ s.pending, s.wasWritten e.2 = false → e ∈ t.pending
  holder : ∀ x, t.holder x = some .controller ↔ s.holder x = some .controller
  answered : ∀ x, s.Answered x → t.Answered x
  unanswered : ∀ x, s.holder x = some .controller → t.Answered x → s.Answered x
  closed : s.sessionOpen = false → t.sessionOpen = false ∧ t.reason = s.reason
  opened : s.sessionOpen = true → t.sessionOpen = true ∨ t.closedSince = true ∧ t.reason ≠ none
  since : s.closedSince = true → t.closedSince = true
  alive : ∀ c ∈ t.alive, c ∈ s.alive

theorem Locked.refl (s : State) : Locked s s where
  lock := rfl
  accepted := rfl
  written := rfl
  epoch := rfl
  restartable := rfl
  pending := List.Sublist.refl _
  kept := fun _ he _ => he
  holder := fun _ => Iff.rfl
  answered := fun _ h => h
  unanswered := fun _ _ h => h
  closed := fun h => ⟨h, rfl⟩
  opened := fun h => .inl h
  since := fun h => h
  alive := fun _ h => h

theorem Locked.wasWritten {s t : State} (h : Locked s t) (x : Nat) :
    t.wasWritten x = s.wasWritten x := by
  rw [State.wasWritten, State.wasWritten, h.written]

theorem Locked.trans {s t u : State} (h : Locked s t) (h' : Locked t u) : Locked s u where
  lock := h'.lock.trans h.lock
  accepted := h'.accepted.trans h.accepted
  written := h'.written.trans h.written
  epoch := h'.epoch.trans h.epoch
  restartable := h'.restartable.trans h.restartable
  pending := h'.pending.trans h.pending
  kept := fun e he hw => h'.kept e (h.kept e he hw) ((h.wasWritten e.2).trans hw)
  holder := fun x => (h'.holder x).trans (h.holder x)
  answered := fun x hx => h'.answered x (h.answered x hx)
  unanswered := fun x hx ha => h.unanswered x hx (h'.unanswered x ((h.holder x).mpr hx) ha)
  closed := fun hs => ⟨(h'.closed (h.closed hs).1).1,
    (h'.closed (h.closed hs).1).2.trans (h.closed hs).2⟩
  opened := by
    intro hs
    rcases h.opened hs with ht | ⟨hsince, hr⟩
    · exact h'.opened ht
    · cases hopen : t.sessionOpen with
      | true => exact (h'.opened hopen).imp_right fun hu => ⟨h'.since hsince, hu.2⟩
      | false => exact .inr ⟨h'.since hsince, (h'.closed hopen).2 ▸ hr⟩
  since := fun hs => h'.since (h.since hs)
  alive := fun c hc => h.alive c (h'.alive c hc)

/-- what the others do to the state, seen from the process `p` -/
structure Rely (p : Nat) (s t : State) : Prop where
  broken : s.broken = true → t.broken = true
  accepted : ∀ (x : Nat) (id : Id), s.accepted[x]? = some id → t.accepted[x]? = some id
  mine : ∀ x, s.holder x = some (.thread p) → t.holder x = some (.thread p) ∧
    (t.Answered x → s.Answered x)
  locked : s.lock = some p → Locked s t

theorem Rely.refl (p : Nat) (s : State) : Rely p s s where
  broken := fun h => h
  accepted := fun _ _ h => h
  mine := fun _ h => ⟨h, fun h => h⟩
  locked := fun _ => Locked.refl s

theorem Rely.trans {p : Nat} {s t u : State} (h : Rely p s t) (h' : Rely p t u) : Rely p s u where
  broken := fun hs => h'.broken (h.broken hs)
  accepted := fun x id hx => h'.accepted x id (h.accepted x id hx)
  mine := fun x hx => ⟨(h'.mine x (h.mine x hx).1).1, fun ha =>
    (h.mine x hx).2 ((h'.mine x (h.mine x hx).1).2 ha)⟩
  locked := fun hs => (h.locked hs).trans (h'.locked ((h.locked hs).lock.trans hs))

section
variable {rt : Runtime} {p q : Nat} {s : State}

/-- a step that needs the lock is nothing to the holder of the lock -/
theorem Rely.of_lock {t : State} (hp : s.lock = some p) (hpq : p ≠ q)
    (hb : t.broken = s.broken)
    (ha : ∀ (x : Nat) (id : Id), s.accepted[x]? = some id → t.accepted[x]? = some id)
    (hm : ∀ x, s.holder x = some (.thread q) → t.holder x = some (.thread q) ∧
      (t.Answered x → s.Answered x)) : Rely q s t where
  broken := fun h => hb.trans h
  accepted := ha
  mine := hm
  locked := fun h => absurd (Option.some.inj (hp.symm.trans h)) hpq

/-- what waits is not in the hands of a thread -/
theorem not_thread_of_pending (hi : Inv s) {e : Id × Nat} (he : e ∈ s.pending) :
    s.holder e.2 ≠ some (.thread q) := by
  intro h
  cases hw : s.wasWritten e.2 with
  | true => exact nomatch (hi.waiting e he hw).1.symm.trans h
  | false => exact nomatch (hi.fresh e he hw).2.symm.trans h

theorem rely_accept (hi : Inv s) (hpq : p ≠ q) (hp : s.lock = some p) (id : Id) :
    Rely q s { s.take .controller [s.accepted.length] with
      pending := s.pending ++ [(id, s.accepted.length)]
      accepted := s.accepted ++ [id] } := by
  refine Rely.of_lock hp hpq rfl ?_ ?_
  · intro x v h
    show (s.accepted ++ [id])[x]? = some v
    rw [List.getElem?_append_left (List.getElem?_eq_some_iff.mp h).1]
    exact h
  · intro x h
    refine ⟨?_, fun h => h⟩
    show (if x ∈ [s.accepted.length] then _ else s.holder x) = _
    rw [if_neg (fun hx => absurd (hi.held x _ h) (by rw [List.mem_singleton.mp hx]; omega))]
    exact h

theorem rely_abandon (hi : Inv s) (hpq : p ≠ q) (hp : s.lock = some p) :
    Rely q s { s.take .controller (s.pending.map Prod.snd) with
      pending := []
      internal := []
      reason := none } := by
  refine Rely.of_lock hp hpq rfl (fun _ _ h => h) fun x h => ⟨?_, fun h => h⟩
  show (if x ∈ s.pending.map Prod.snd then _ else s.holder x) = _
  rw [if_neg]
  · exact h
  · intro hx
    obtain ⟨e, he, rfl⟩ := List.mem_map.mp hx
    exact not_thread_of_pending hi he h

theorem rely_write (hpq : p ≠ q) (hp : s.lock = some p) {tag : Nat}
    (ho : s.holder tag = some .controller) :
    Rely q s { s with
      written := (tag, s.connection) :: s.written
      holder := fun t => if t = tag then none else s.holder t } := by
  refine Rely.of_lock hp hpq rfl (fun _ _ h => h) fun x h => ⟨?_, fun h => h⟩
  show (if x = tag then none else s.holder x) = _
  rw [if_neg]
  · exact h
  · rintro rfl
    exact nomatch ho.symm.trans h

theorem rely_emit {tag : Nat} {id : Id} (hpq : p ≠ q)
    (ho : s.holder tag = some (.thread p) ∨ s.lock = some p ∧ s.holder tag = some .controller) :
    Rely q s { s with out := (some tag, id) :: s.out } := by
  have hmore : ∀ {t : Nat}, s.Answered t →
      State.Answered { s with out := (some tag, id) :: s.out } t :=
    fun ⟨v, hv⟩ => ⟨v, List.mem_cons_of_mem _ hv⟩
  have hback : ∀ {t : Nat}, t ≠ tag →
      State.Answered { s with out := (some tag, id) :: s.out } t → s.Answered t := by
    rintro t ht ⟨v, hv⟩
    rcases List.mem_cons.mp hv with hv | hv
    · exact absurd (Option.some.inj (Prod.mk.inj hv).1) ht
    · exact ⟨v, hv⟩
  exact {
    broken := fun h => h
    accepted := fun _ _ h => h
    mine := by
      intro x h
      refine ⟨h, hback ?_⟩
      rintro rfl
      rcases ho with ho | ho
      · cases ho.symm.trans h
        exact hpq rfl
      · exact nomatch ho.2.symm.trans h
    locked := by
      intro hl
      exact { Locked.refl s with
        answered := fun _ => hmore
        unanswered := by
          intro x h
          refine hback ?_
          rintro rfl
          rcases ho with ho | ho
          · exact nomatch ho.symm.trans h
          · exact hpq (Option.some.inj (ho.1.symm.trans hl)) } }

theorem rely_emitOther (id : Id) : Rely q s { s with out := (none, id) :: s.out } where
  broken := fun h => h
  accepted := fun _ _ h => h
  mine := fun _ h => ⟨h, answered_other.mp⟩
  locked := fun _ => { Locked.refl s with
    answered := fun _ => answered_other.mpr
    unanswered := fun _ _ => answered_other.mp }

theorem rely_close (reason : Reason) (h : s.sessionOpen = true) :
    Rely q s { s with
      sessionOpen := false
      reason := some reason
      closedSince := true } where
  broken := fun h => h
  accepted := fun _ _ h => h
  mine := fun _ h => ⟨h, fun h => h⟩
  locked := fun _ => { Locked.refl s with
    closed := fun hc => nomatch h.symm.trans hc
    opened := fun _ => .inr ⟨rfl, fun hn => nomatch hn⟩
    since := fun _ => rfl }

theorem rely_pair (hi : Inv s) {e : Id × Nat} (he : e ∈ s.pending)
    (hw : s.wasWritten e.2 = true) :
    Rely q s { s.take (.thread p) [e.2] with
      pending := s.pending.filter fun x => x.2 ≠ e.2 } := by
  have hne : ∀ {t : Nat}, t ≠ e.2 → (s.take (.thread p) [e.2]).holder t = s.holder t := fun {t} ht =>
    if_neg fun h => ht (List.mem_singleton.mp h)
  have hself : (s.take (.thread p) [e.2]).holder e.2 = some (.thread p) :=
    if_pos (List.mem_singleton.mpr rfl)
  exact {
    broken := fun h => h
    accepted := fun _ _ h => h
    mine := by
      intro x h
      refine ⟨(hne ?_).trans h, fun h => h⟩
      rintro rfl
      exact not_thread_of_pending hi he h
    locked := fun _ => { Locked.refl s with
      pending := List.filter_sublist
      kept := by
        intro x hx hwx
        refine List.mem_filter.mpr ⟨hx, ?_⟩
        have hxe : x.2 ≠ e.2 := fun h => nomatch (h ▸ hwx).symm.trans hw
        simpa using hxe
      holder := by
        intro x
        by_cases hx : x = e.2
        · subst hx
          constructor
          · exact fun h => nomatch hself.symm.trans h
          · exact fun h => nomatch (hi.waiting e he hw).1.symm.trans h
        · exact iff_of_eq (congrArg (· = some Owner.controller) (hne hx)) } }

theorem rely_dropAlive (f : Nat → Bool) : Rely q s { s with alive := s.alive.filter f } where
  broken := fun h => h
  accepted := fun _ _ h => h
  mine := fun _ h => ⟨h, fun h => h⟩
  locked := fun _ => { Locked.refl s with alive := fun _ hc => (List.mem_filter.mp hc).1 }

/-- **What one step does to the others.** -/
theorem rely_exec (hi : Inv s) (hpq : p ≠ q) {o : Op} {a : o.Choice} (hok : Allowed rt p s o)
    (hm : s.meets rt o a = true) : Rely q s (o.exec rt p s a).2 := by
  by_cases hr : reads o = true
  · rw [exec_of_reads hr]
    exact .refl q s
  cases o with
  | acquire =>
    simp only [Op.exec]
    split
    · rename_i hl
      exact { Rely.refl q s with locked := fun h => nomatch hl.symm.trans h }
    · exact .refl q s
  | release => exact Rely.of_lock hok.1 hpq rfl (fun _ _ h => h) fun _ h => ⟨h, fun h => h⟩
  | setStopped => exact { Rely.refl q s with locked := fun _ => { Locked.refl s with } }
  | forbidRestart => exact Rely.of_lock hok hpq rfl (fun _ _ h => h) fun _ h => ⟨h, fun h => h⟩
  | accept id =>
    simp only [Op.exec]
    split_ifs
    · exact .refl q s
    · exact .refl q s
    · exact rely_accept hi hpq hok.1 id
  | emit tag id => exact rely_emit hpq hok.2.2
  | emitOther id => exact rely_emitOther id
  | clearPending id =>
    exact Rely.of_lock hok.1 hpq rfl (fun _ _ h => h) fun _ h => ⟨h, fun h => h⟩
  | finishCheck => exact Rely.of_lock hok hpq rfl (fun _ _ h => h) fun _ h => ⟨h, fun h => h⟩
  | kill => exact rely_dropAlive _
  | abandon => exact rely_abandon hi hpq hok.1
  | openSession =>
    exact Rely.of_lock hok.1 hpq rfl (fun _ _ h => h) fun _ h => ⟨h, fun h => h⟩
  | expectInternal => exact { Rely.refl q s with locked := fun _ => { Locked.refl s with } }
  | write tag =>
    cases tag with
    | none => exact .refl q s
    | some tag => exact rely_write hpq hok.1 hok.2.1
  | close reason epoch =>
    simp only [Op.exec]
    split_ifs with h
    · exact rely_close reason (Bool.and_eq_true_iff.mp h).1
    · exact .refl q s
  | transform epoch id =>
    show Rely q s (s.pair rt p epoch id).2
    rcases pair_cases rt p s epoch id with ⟨l, h, -⟩ | ⟨e, he, h1, h2⟩
    · rw [h]
      exact { Rely.refl q s with locked := fun _ => { Locked.refl s with } }
    · rw [h2]
      exact rely_pair hi he (meets_paired h1 hm).1
  | ended epoch => exact rely_dropAlive _
  | stopped | restartable | connection | checks | accepting | popen | hasInitialize
  | clientInitialized | waitInternal | overdue | batchPairable | process => exact absurd rfl hr

end

end Netops.Helper
