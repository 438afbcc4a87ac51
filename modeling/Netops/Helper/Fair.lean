import Mathlib.Algebra.Order.Ring.Unbundled.Rat
import Mathlib.Data.Rat.Floor
import Netops.Helper.Rate
import Netops.Lib.Utf8

/-!
# What a run of the proxy spends

`Moment` is a state of a run with the time and the calls that went to the server.  In every run the
calls of a target keep its rate, and a call that takes no slot redeems a continuation page that the
answer to the same read offered.

* `Runs`       runs with a clock that does not go back;
* `Unnamed`    a call that names no content finds no page of a content named `None`;
* `Fair`       what holds at every moment;
* `runs_are_fair`.
-/

namespace Netops.Relay

open Json (Value sorted)
open Netops.Helper

/-! ## runs -/

structure Moment where
  calls : List Call
  now : ℚ
  proxy : Proxy

def Moment.start : Moment := ⟨[], 0, .start⟩

def Clock.Ordered (c : Clock) : Prop :=
  c.accepted ≤ c.checked ∧ c.checked ≤ c.status ∧ c.status ≤ c.redeemed ∧ c.redeemed ≤ c.consumed

/-- a line of the client, a frame of the server, and what the session controller does -/
inductive Step (host : Host) (limit : Text → Limit) : Moment → Moment → Prop
  | request (m : Moment) (clock : Clock) (site : Site) (raw : Bytes) (hnow : m.now ≤ clock.accepted)
      (hclock : clock.Ordered) :
      Step host limit m
        ⟨m.calls ++ (request host limit clock site raw m.proxy).1.call.toList, clock.consumed,
          (request host limit clock site raw m.proxy).2⟩
  | response (m : Moment) (now : Nat → ℚ) (epoch : Option Nat) (raw : Bytes) (later : ℚ)
      (hnow : m.now ≤ now 0) (hclock : Monotone now) (hlater : ∀ n, now n ≤ later) :
      Step host limit m ⟨m.calls, later, (response host now epoch raw m.proxy).2⟩
  | openSession (m : Moment) : Step host limit m { m with proxy := m.proxy.openSession }
  | closeSession (m : Moment) (reason : Helper.Reason) (epoch : Option Nat) :
      Step host limit m { m with proxy := m.proxy.closeSession reason epoch }
  | expectInternal (m : Moment) (id : Id) :
      Step host limit m { m with proxy := m.proxy.expectInternal id }
  | abandon (m : Moment) : Step host limit m { m with proxy := m.proxy.abandon }

/-- a run leads from one moment to the other -/
abbrev Runs (host : Host) (limit : Text → Limit) : Moment → Moment → Prop :=
  Relation.ReflTransGen (Step host limit)

/-- the line is this call of this target -/
def IsCall (host : Host) (site : Site) (raw : Bytes) (tool : Text) (args : Fields) (target : Text) :
    Prop :=
  ∃ id message given, readMessage host raw = .ok (id, message) ∧ callIn message = some (tool, given) ∧
    validateToolArguments host site tool given = .arguments args ∧
    validAlias (field args "target") = some target

/-- the call names no content -/
def namesNothing (args : Fields) : Prop :=
  field args "content_sha256" = none ∨ field args "content_sha256" = some .null

/-- a call that names no content finds no page of a content with the name `None` -/
def Unnamed (host : Host) (site : Site) (raw : Bytes) (p : Proxy) : Prop :=
  ∀ tool args target, IsCall host site raw tool args target → namesNothing args →
    ∀ c ∈ p.rates.continuations, c.1 ≠ pageKey (continuationKey tool args) (text "None")

/-! ## what was spent -/

/-- the times at which a call took slots of a target -/
def Charge.slotsOf (target : Text) : Charge → List ℚ
  | .slots t count now => if t = target then List.replicate count now else []
  | .continuation _ => []

def slots (calls : List Call) (target : Text) : List ℚ :=
  calls.flatMap fun call => call.charge.slotsOf target

def Charge.number : Charge → Option Nat
  | .slots _ _ _ => none
  | .continuation n => some n

/-- the numbers of the continuations that were redeemed -/
def redeemed (calls : List Call) : List Nat := calls.filterMap fun call => call.charge.number

/-- the key is that of a call with such an id -/
def FromCall (calls : List Call) (isId : Id → Prop) (key : Text) : Prop :=
  ∃ call ∈ calls, (∃ i, call.id = some i ∧ isId i) ∧
    call.tool ∈ continuationTools ∧ key = continuationKey call.tool call.args

/-- A call redeems a page that the answer to an earlier call with the same tool and the same
arguments offered, and no call before did. -/
structure Redeems (host : Host) (m : Moment) (call : Call) (n : Nat) : Prop where
  tool : call.tool ∈ continuationTools
  fresh : n ∉ redeemed m.calls
  page : ∃ offset snapshot issue, 0 < offset ∧ field call.args "offset" = some (.int offset) ∧
    field call.args "content_sha256" = some (.str snapshot) ∧
    m.proxy.rates.issued[n]? = some issue ∧ offeredPage issue.message = some (offset, snapshot) ∧
    ∃ earlier ∈ m.calls, (∃ i, earlier.id = some i ∧ sameKey host.rt i issue.id = true) ∧
      earlier.tool = call.tool ∧ SameArguments earlier.args call.args

/-- what holds at every moment of a run -/
structure Fair (host : Host) (limit : Text → Limit) (m : Moment) : Prop where
  limited : ∀ target, Window.Limited (limit target).requests ((limit target).window : ℚ) m.now
    (slots m.calls target) (m.proxy.rates.history target)
  plain : ∀ call ∈ m.calls, NoAuth call.args ∧ 10 ∉ continuationKey call.tool call.args
  waiting : ∀ e ∈ m.proxy.pendingContinuations, FromCall m.calls (· = e.1) e.2
  answered : ∀ i ∈ m.proxy.rates.issued,
    FromCall m.calls (fun id => sameKey host.rt id i.id = true) i.key
  held : ∀ c ∈ m.proxy.rates.continuations, ∃ issue snapshot,
    m.proxy.rates.issued[c.2.number]? = some issue ∧
      offeredPage issue.message = some (c.2.nextOffset, snapshot) ∧ c.1 = pageKey issue.key snapshot
  numbers : (m.proxy.rates.continuations.map fun c => c.2.number).Nodup
  unspent : ∀ c ∈ m.proxy.rates.continuations, c.2.number ∉ redeemed m.calls
  spent : ∀ n ∈ redeemed m.calls, n < m.proxy.rates.issued.length
  once : (redeemed m.calls).Nodup
  few : m.proxy.rates.continuations.length ≤ continuationMaxEntries

/-! ## the arguments of a call -/

theorem leaves_of_field {fs : Fields} {name : String} {v : Value} (h : field fs name = some v) :
    v.leaves ⊆ Json.leavesOfFields fs := by
  obtain ⟨f, hf, rfl⟩ := Option.map_eq_some_iff.1 h
  intro x hx
  exact Json.mem_leavesOfFields.2 ⟨f, List.mem_reverse.1 (List.mem_of_find?_eq_some hf), .inr hx⟩

theorem leaves_of_callIn {message given : Fields} {tool : Text}
    (h : callIn message = some (tool, given)) :
    Json.leavesOfFields given ⊆ Json.leavesOfFields message := by
  rw [callIn] at h
  split at h
  · next t g _ hargs =>
    cases h
    cases hp : field message "params" with
    | none =>
      rw [hp] at hargs
      cases hargs
    | some params =>
      rw [hp] at hargs
      cases params with
      | obj params =>
        exact List.Subset.trans (leaves_of_field (v := .obj given) hargs)
          (leaves_of_field (v := .obj params) hp)
      | _ => cases hargs
  · cases h

theorem leaves_drop (fs : Fields) (name : String) :
    Json.leavesOfFields (drop fs name) ⊆ Json.leavesOfFields fs := by
  intro x hx
  obtain ⟨f, hf, hx⟩ := Json.mem_leavesOfFields.1 hx
  exact Json.mem_leavesOfFields.2 ⟨f, List.mem_of_mem_filter hf, hx⟩

theorem leaves_inObject {g : Fields → Fields}
    (h : ∀ fs, Json.leavesOfFields (g fs) ⊆ Json.leavesOfFields fs) (v : Value) :
    (inObject g v).leaves ⊆ v.leaves := by
  cases v with
  | obj fs => exact h fs
  | _ => exact fun x hx => hx

theorem leaves_adjust {g : Value → Value} (h : ∀ v, (g v).leaves ⊆ v.leaves) (fs : Fields)
    (name : String) : Json.leavesOfFields (adjust fs name g) ⊆ Json.leavesOfFields fs := by
  intro x hx
  obtain ⟨f, hf, hx⟩ := Json.mem_leavesOfFields.1 hx
  obtain ⟨e, he, rfl⟩ := List.mem_map.1 hf
  refine Json.mem_leavesOfFields.2 ⟨e, he, ?_⟩
  split at hx
  · exact hx.imp id fun hx => h _ hx
  · exact hx

theorem leaves_withhold (message : Fields) :
    Json.leavesOfFields (withholdClientCapabilities message) ⊆ Json.leavesOfFields message := by
  have hthree : ∀ v, (inObject (fun fs => drop (drop (drop fs "sampling") "elicitation") "roots")
      v).leaves ⊆ v.leaves := leaves_inObject fun fs =>
    List.Subset.trans (leaves_drop _ _) (List.Subset.trans (leaves_drop _ _) (leaves_drop _ _))
  refine leaves_adjust (leaves_inObject fun params => ?_) _ _
  refine List.Subset.trans (leaves_adjust (leaves_inObject fun m => leaves_adjust hthree _ _) _ _) ?_
  split
  · exact leaves_adjust hthree _ _
  · exact fun _ hx => hx

theorem plain_of_readMessage {host : Host} {raw : Bytes} {id : Option Id} {message : Fields}
    (h : readMessage host raw = .ok (id, message)) :
    Json.PlainNumbers (Json.leavesOfFields message) := by
  rw [readMessage] at h
  split at h
  · exact nomatch h
  · split at h
    · exact nomatch h
    · next original hdoc =>
      have hplain := host.plain_numbers raw _ hdoc
      split at h
      · exact nomatch h
      · cases h
        split
        · exact fun t ht => hplain t (leaves_withhold original ht)
        · exact hplain
    · exact nomatch h

/-- no tool has the argument that the proxy adds -/
theorem noAuth_of_schema {tool : Text} {args : Fields} (h : matchesSchema tool args = true) :
    NoAuth args := by
  have hall : ∀ s ∈ toolArgumentSchemas, ∀ name ∈ s.2.1 ++ s.2.2, text name ≠ authField := by decide
  rw [matchesSchema] at h
  split at h
  · exact nomatch h
  · next name required optional hfind =>
    intro f hf hauth
    obtain ⟨-, hnames⟩ := Bool.and_eq_true_iff.1 h
    obtain ⟨n, hn, hfn⟩ := List.any_eq_true.1 (List.all_eq_true.1 hnames f hf)
    exact hall _ (List.mem_of_find?_eq_some hfind) n hn ((of_decide_eq_true hfn).symm.trans hauth)

theorem mapPlatform_cases {tool : Text} {given args : Fields} (h : mapPlatform tool given = some args) :
    args = given ∨ ∃ name, args = put given "platform" (str name) := by
  rw [mapPlatform] at h
  split at h
  · obtain ⟨x, -, rfl⟩ := Option.map_eq_some_iff.1 h
    exact .inr ⟨_, rfl⟩
  · cases h
    exact .inl rfl

/-- the arguments are those of the call, but for the name of the platform -/
theorem validate_cases {host : Host} {site : Site} {tool : Text} {given args : Fields}
    (h : validateToolArguments host site tool given = .arguments args) :
    matchesSchema tool given = true ∧
      (args = given ∨ ∃ name, args = put given "platform" (str name)) := by
  rw [validateToolArguments] at h
  split at h
  · exact nomatch h
  · next hschema =>
    refine ⟨by simpa using hschema, ?_⟩
    split at h
    · split at h
      · exact nomatch h
      · exact nomatch h
      · cases h
        exact .inl rfl
    · split at h
      · exact nomatch h
      · split at h
        · exact nomatch h
        · exact nomatch h
        · split at h
          · exact nomatch h
          · split at h
            · exact nomatch h
            · exact nomatch h
            · exact nomatch h
            · next hmap _ =>
              split at h
              · exact nomatch h
              · cases h
                exact mapPlatform_cases hmap

theorem mem_put {fs : Fields} {name : String} {v : Value} {f : Text × Value} (h : f ∈ put fs name v) :
    f = (text name, v) ∨ f ∈ fs := by
  rw [put] at h
  split at h
  · obtain ⟨e, he, rfl⟩ := List.mem_map.1 h
    split
    · next hn => exact .inl (by rw [hn])
    · exact .inr he
  · rcases List.mem_append.1 h with h | h
    · exact .inr h
    · exact .inl (List.mem_singleton.1 h)

theorem plain_of_valid {host : Host} {site : Site} {tool : Text} {given args : Fields}
    (h : validateToolArguments host site tool given = .arguments args)
    (hplain : Json.PlainNumbers (Json.leavesOfFields given)) :
    NoAuth args ∧ 10 ∉ continuationKey tool args := by
  obtain ⟨hschema, hargs⟩ := validate_cases h
  have hnoauth := noAuth_of_schema hschema
  rcases hargs with rfl | ⟨name, rfl⟩
  · exact ⟨hnoauth, continuationKey_line hplain⟩
  · refine ⟨fun f hf => ?_, continuationKey_line fun t ht => ?_⟩
    · rcases mem_put hf with rfl | hf
      · exact (by decide : text "platform" ≠ authField)
      · exact hnoauth f hf
    · obtain ⟨f, hf, hx⟩ := Json.mem_leavesOfFields.1 ht
      rcases mem_put hf with rfl | hf
      · rcases hx with hx | hx
        · exact nomatch hx
        · exact nomatch List.mem_singleton.1 hx
      · exact hplain t (Json.mem_leavesOfFields.2 ⟨f, hf, hx⟩)

theorem field_put_ne {fs : Fields} {name other : String} {v : Value} (h : text name ≠ text other) :
    field (put fs name v) other = field fs other := by
  unfold put field
  split
  · rw [← List.map_reverse, List.find?_map, Option.map_map]
    have hp : ((fun f : Text × Value => decide (f.1 = text other)) ∘ fun f =>
        if f.1 = text name then (f.1, v) else f) = fun f => decide (f.1 = text other) := by
      funext f
      simp only [Function.comp]
      split <;> rfl
    rw [hp]
    cases hf : fs.reverse.find? fun f => decide (f.1 = text other) with
    | none => rfl
    | some f =>
      have hname : f.1 = text other := by simpa using List.find?_some hf
      simp only [Option.map_some, Function.comp]
      rw [if_neg (by rw [hname]; exact h.symm)]
  · rw [List.reverse_append, List.reverse_singleton, List.singleton_append,
      List.find?_cons_of_neg (by simpa using h)]

/-- what a call names is nothing or a text -/
theorem snapshot_of_valid {host : Host} {site : Site} {tool : Text} {given args : Fields}
    (h : validateToolArguments host site tool given = .arguments args)
    (htool : tool ≠ text "read_query_catalog") :
    namesNothing args ∨ ∃ s, field args "content_sha256" = some (.str s) := by
  have hsame : field args "content_sha256" = field given "content_sha256" := by
    rcases (validate_cases h).2 with rfl | ⟨name, rfl⟩
    · rfl
    · exact field_put_ne (by decide)
  have hvalid : validSnapshot (field given "content_sha256") = true := by
    rw [validateToolArguments] at h
    split at h
    · exact nomatch h
    · split at h
      · exact nomatch h
      · split at h
        · exact nomatch h
        · exact nomatch h
        · split at h
          · exact nomatch h
          · next hchecks =>
            simp only [Bool.not_eq_true', Bool.not_eq_false, Bool.and_eq_true] at hchecks
            exact hchecks.1.1
  rw [namesNothing, hsame]
  unfold validSnapshot at hvalid
  split at hvalid
  · exact .inl (.inl ‹_›)
  · exact .inl (.inr ‹_›)
  · exact .inr ⟨_, ‹_›⟩
  · exact nomatch hvalid

/-! ## every step is fair -/

theorem FromCall.mono {calls calls' : List Call} (hsub : calls ⊆ calls') {isId : Id → Prop}
    {key : Text} (h : FromCall calls isId key) : FromCall calls' isId key := by
  obtain ⟨call, hc, hrest⟩ := h
  exact ⟨call, hsub hc, hrest⟩

section
variable {host : Host} {limit : Text → Limit} {m : Moment}

theorem fair_start : Fair host limit .start where
  limited := fun _ => Window.limited_nil _ _ _
  plain := fun _ h => nomatch h
  waiting := fun _ h => nomatch h
  answered := fun _ h => nomatch h
  held := fun _ h => nomatch h
  numbers := List.nodup_nil
  unspent := fun _ h => nomatch h
  spent := fun _ h => nomatch h
  once := List.nodup_nil
  few := Nat.zero_le _

/-- the calls are the same, and continuations are only dropped -/
theorem Fair.keep (h : Fair host limit m) {m' : Moment} (hcalls : m'.calls = m.calls)
    (hlimited : ∀ target, Window.Limited (limit target).requests ((limit target).window : ℚ) m'.now
      (slots m.calls target) (m'.proxy.rates.history target))
    (hcont : m'.proxy.rates.continuations.Sublist m.proxy.rates.continuations)
    (hissued : m'.proxy.rates.issued = m.proxy.rates.issued)
    (hkeys : m'.proxy.pendingContinuations ⊆ m.proxy.pendingContinuations) : Fair host limit m' where
  limited := by rwa [hcalls]
  plain := by
    rw [hcalls]
    exact h.plain
  waiting := fun e he => hcalls ▸ h.waiting e (hkeys he)
  answered := by
    rw [hissued, hcalls]
    exact h.answered
  held := fun c hc => hissued ▸ h.held c (hcont.subset hc)
  numbers := h.numbers.sublist (hcont.map _)
  unspent := fun c hc => hcalls ▸ h.unspent c (hcont.subset hc)
  spent := by
    rw [hissued, hcalls]
    exact h.spent
  once := by
    rw [hcalls]
    exact h.once
  few := hcont.length_le.trans h.few

/-- a target whose rate is looked at -/
theorem Fair.prune (h : Fair host limit m) {now : ℚ} (hle : m.now ≤ now) (target : Text) :
    Window.Limited (limit target).requests ((limit target).window : ℚ) now (slots m.calls target)
      (pruned (limit target) now (m.proxy.rates.history target)) :=
  ((h.limited target).later hle).prune

theorem Fair.settle (h : Fair host limit m) {a : Rates × IdMap Text}
    (hs : Settles host m.proxy.ledger a) {q : Proxy} (hq : q.ledger = a) :
    Fair host limit { m with proxy := q } := by
  generalize hb : m.proxy.ledger = b at hs
  induction hs generalizing m q with
  | @drop r keys keys' hsub =>
    have hr : q.rates = m.proxy.rates :=
      (congrArg Prod.fst hq).trans (congrArg Prod.fst hb).symm
    have hk : q.pendingContinuations ⊆ m.proxy.pendingContinuations := by
      rw [show q.pendingContinuations = keys' from congrArg Prod.snd hq,
        show m.proxy.pendingContinuations = keys from congrArg Prod.snd hb]
      exact hsub
    refine h.keep rfl ?_ ?_ ?_ hk
    · rw [hr]
      exact h.limited
    · rw [hr]
    · rw [hr]
  | trans _ _ ih ih' =>
    subst hb
    have hmid := ih h (q := { m.proxy with
      rates := _
      pendingContinuations := _ }) rfl rfl
    exact ih' hmid hq rfl
  | @issue r keys id e now message he hid =>
    have hr : m.proxy.rates = r := congrArg Prod.fst hb
    have hk : m.proxy.pendingContinuations = keys := congrArg Prod.snd hb
    have hqr : q.rates = issueContinuation host now id e.2 message m.proxy.rates :=
      (congrArg Prod.fst hq).trans (by rw [hr])
    have hqk : q.pendingContinuations = m.proxy.pendingContinuations :=
      (congrArg Prod.snd hq).trans hk.symm
    have hfrom : FromCall m.calls (fun i => sameKey host.rt i id = true) e.2 := by
      obtain ⟨call, hcall, ⟨i, hi, rfl⟩, hrest⟩ := h.waiting e (hk ▸ he)
      exact ⟨call, hcall, ⟨e.1, hi, hid⟩, hrest⟩
    obtain ⟨kept, hsub, heq | ⟨next, snapshot, expires, hoffer, hroom, heq⟩⟩ :=
      issueContinuation_cases host now id e.2 message m.proxy.rates
    · refine h.keep rfl ?_ ?_ ?_ (by rw [hqk]; exact fun _ hx => hx)
      · rw [hqr, heq]
        exact h.limited
      · rw [hqr, heq]
        exact hsub
      · rw [hqr, heq]
    · have hlen : ∀ c ∈ kept, c.2.number < m.proxy.rates.issued.length := by
        intro c hc
        obtain ⟨issue, -, hissue, -⟩ := h.held c (hsub.subset hc)
        exact (List.getElem?_eq_some_iff.1 hissue).1
      refine ⟨?_, h.plain, ?_, ?_, ?_, ?_, ?_, ?_, h.once, ?_⟩
      · rw [hqr, heq]
        exact h.limited
      · rw [hqk]
        exact h.waiting
      · rw [hqr, heq]
        intro i hi
        rcases List.mem_append.1 hi with hi | hi
        · exact h.answered i hi
        · rw [List.mem_singleton.1 hi]
          exact hfrom
      · rw [hqr, heq]
        intro c hc
        rcases List.mem_append.1 hc with hc | hc
        · obtain ⟨issue, s, hissue, hrest⟩ := h.held c (hsub.subset hc)
          exact ⟨issue, s, List.getElem?_append_left (hlen c hc) ▸ hissue, hrest⟩
        · rw [List.mem_singleton.1 hc]
          exact ⟨⟨id, e.2, message⟩, snapshot, List.getElem?_concat_length, hoffer, rfl⟩
      · rw [hqr, heq]
        simp only [List.map_append, List.map_cons, List.map_nil]
        refine List.nodup_append.2 ⟨h.numbers.sublist (hsub.map _), List.nodup_singleton _, ?_⟩
        intro a ha b hb
        obtain ⟨c, hc, rfl⟩ := List.mem_map.1 ha
        rw [List.mem_singleton.1 hb]
        exact (hlen c hc).ne
      · rw [hqr, heq]
        intro c hc
        rcases List.mem_append.1 hc with hc | hc
        · exact h.unspent c (hsub.subset hc)
        · rw [List.mem_singleton.1 hc]
          exact fun hn => absurd (h.spent _ hn) (Nat.lt_irrefl _)
      · rw [hqr, heq]
        intro n hn
        rw [List.length_append]
        exact (h.spent n hn).trans_le (Nat.le_add_right _ _)
      · rw [hqr, heq, List.length_append]
        exact hroom

theorem slots_append (calls : List Call) (call : Call) (target : Text) :
    slots (calls ++ [call]) target = slots calls target ++ call.charge.slotsOf target := by
  simp [slots]

theorem redeemed_append (calls : List Call) (call : Call) :
    redeemed (calls ++ [call]) = redeemed calls ++ call.charge.number.toList := by
  cases h : call.charge.number <;> simp [redeemed, h]

/-- a call that took slots -/
theorem Fair.spend (h : Fair host limit m) {m' : Moment} {call : Call} (hcalls : m'.calls = m.calls ++ [call])
    (hnumber : call.charge.number = none)
    (hlimited : ∀ target, Window.Limited (limit target).requests ((limit target).window : ℚ) m'.now
      (slots m'.calls target) (m'.proxy.rates.history target))
    (hcont : m'.proxy.rates.continuations = m.proxy.rates.continuations)
    (hissued : m'.proxy.rates.issued = m.proxy.rates.issued)
    (hplain : NoAuth call.args ∧ 10 ∉ continuationKey call.tool call.args)
    (hkeys : ∀ e ∈ m'.proxy.pendingContinuations, e ∈ m.proxy.pendingContinuations ∨
      call.id = some e.1 ∧ call.tool ∈ continuationTools ∧ e.2 = continuationKey call.tool call.args) :
    Fair host limit m' := by
  have hsub : m.calls ⊆ m'.calls := by
    rw [hcalls]
    exact List.subset_append_left _ _
  have hredeemed : redeemed m'.calls = redeemed m.calls := by
    rw [hcalls, redeemed_append, hnumber]
    exact List.append_nil _
  refine ⟨hlimited, ?_, ?_, ?_, ?_, ?_, ?_, ?_, ?_, ?_⟩
  · intro c hc
    rw [hcalls] at hc
    rcases List.mem_append.1 hc with hc | hc
    · exact h.plain c hc
    · rw [List.mem_singleton.1 hc]
      exact hplain
  · intro e he
    rcases hkeys e he with he | ⟨hid, htool, hkey⟩
    · exact (h.waiting e he).mono hsub
    · refine ⟨call, ?_, ⟨e.1, hid, rfl⟩, htool, hkey⟩
      rw [hcalls]
      exact List.mem_append_right _ (List.mem_singleton.2 rfl)
  · rw [hissued]
    exact fun i hi => (h.answered i hi).mono hsub
  · rw [hcont, hissued]
    exact h.held
  · rw [hcont]
    exact h.numbers
  · rw [hcont, hredeemed]
    exact h.unspent
  · rw [hredeemed, hissued]
    exact h.spent
  · rw [hredeemed]
    exact h.once
  · rw [hcont]
    exact h.few

/-- a call that redeemed a continuation -/
theorem Fair.redeem (h : Fair host limit m) {m' : Moment} {call : Call} {key : Text} {c : Continuation}
    (hcalls : m'.calls = m.calls ++ [call]) (hcharge : call.charge = .continuation c.number)
    (hc : (key, c) ∈ m.proxy.rates.continuations)
    (hrates : m'.proxy.rates = { m.proxy.rates with
      continuations := m.proxy.rates.continuations.filter fun d => d.1 ≠ key })
    (hnow : m.now ≤ m'.now) (hplain : NoAuth call.args ∧ 10 ∉ continuationKey call.tool call.args)
    (hkeys : ∀ e ∈ m'.proxy.pendingContinuations, e ∈ m.proxy.pendingContinuations ∨
      call.id = some e.1 ∧ call.tool ∈ continuationTools ∧ e.2 = continuationKey call.tool call.args) :
    Fair host limit m' := by
  -- first the continuation is dropped, then the call is counted
  have hdropped : Fair host limit ⟨m.calls, m'.now, { m.proxy with rates := m'.proxy.rates }⟩ := by
    refine h.keep rfl (fun target => ?_) ?_ ?_ fun _ he => he
    · rw [hrates]
      exact (h.limited target).later hnow
    · rw [hrates]
      exact List.filter_sublist
    · rw [hrates]
  have hsub : m.calls ⊆ m'.calls := by
    rw [hcalls]
    exact List.subset_append_left _ _
  have hredeemed : redeemed m'.calls = redeemed m.calls ++ [c.number] := by
    rw [hcalls, redeemed_append, hcharge]
    rfl
  have hslots : ∀ target, slots m'.calls target = slots m.calls target := by
    intro target
    rw [hcalls, slots_append, hcharge]
    exact List.append_nil _
  have hother : ∀ d ∈ m'.proxy.rates.continuations, d.2.number ≠ c.number := by
    intro d hd he
    rw [hrates] at hd
    obtain ⟨hmem, hne⟩ := List.mem_filter.1 hd
    have hsame := List.inj_on_of_nodup_map h.numbers hmem hc he
    rw [hsame] at hne
    simp at hne
  refine ⟨?_, ?_, ?_, ?_, hdropped.held, hdropped.numbers, ?_, ?_, ?_, hdropped.few⟩
  · intro target
    rw [hslots]
    exact hdropped.limited target
  · intro d hd
    rw [hcalls] at hd
    rcases List.mem_append.1 hd with hd | hd
    · exact h.plain d hd
    · rw [List.mem_singleton.1 hd]
      exact hplain
  · intro e he
    rcases hkeys e he with he | ⟨hid, htool, hkey⟩
    · exact (h.waiting e he).mono hsub
    · refine ⟨call, ?_, ⟨e.1, hid, rfl⟩, htool, hkey⟩
      rw [hcalls]
      exact List.mem_append_right _ (List.mem_singleton.2 rfl)
  · exact fun i hi => (hdropped.answered i hi).mono hsub
  · intro d hd hn
    rw [hredeemed] at hn
    rcases List.mem_append.1 hn with hn | hn
    · exact hdropped.unspent d hd hn
    · exact hother d hd (List.mem_singleton.1 hn)
  · intro n hn
    rw [hredeemed] at hn
    rcases List.mem_append.1 hn with hn | hn
    · exact hdropped.spent n hn
    · rw [List.mem_singleton.1 hn, hrates]
      obtain ⟨issue, -, hissue, -⟩ := h.held _ hc
      exact (List.getElem?_eq_some_iff.1 hissue).1
  · rw [hredeemed]
    refine List.nodup_append.2 ⟨h.once, List.nodup_singleton _, ?_⟩
    intro a ha b hb he
    rw [List.mem_singleton.1 hb] at he
    exact h.unspent _ hc (he ▸ ha)

/-- the history of one target changes -/
theorem limited_update {now : ℚ} {calls : List Call} {r : Rates} {target : Text} {queue : List ℚ}
    (hother : ∀ t, t ≠ target → Window.Limited (limit t).requests ((limit t).window : ℚ) now
      (slots calls t) (r.history t))
    (hone : Window.Limited (limit target).requests ((limit target).window : ℚ) now
      (slots calls target) queue) :
    ∀ t, Window.Limited (limit t).requests ((limit t).window : ℚ) now (slots calls t)
      (Function.update r.history target queue t) := by
  intro t
  by_cases ht : t = target
  · subst ht
    rwa [Function.update_self]
  · rw [Function.update_of_ne ht]
    exact hother t ht

theorem Fair.request (h : Fair host limit m) {clock : Clock} (site : Site) (raw : Bytes)
    (hnow : m.now ≤ clock.accepted) (hclock : clock.Ordered) :
    Fair host limit ⟨m.calls ++ (Relay.request host limit clock site raw m.proxy).1.call.toList,
      clock.consumed, (Relay.request host limit clock site raw m.proxy).2⟩ := by
  obtain ⟨h1, h2, h3, h4⟩ := hclock
  have hstatus : m.now ≤ clock.status := hnow.trans (h1.trans h2)
  have hconsumed : m.now ≤ clock.consumed := hstatus.trans (h3.trans h4)
  have hcall : ∀ o : Outcome, o.charged = false → o.call = none := by
    intro o ho
    cases o with
    | forwarded v c =>
      cases c with
      | none => rfl
      | some c => exact nomatch ho
    | _ => rfl
  rcases request_effect host limit clock site raw m.proxy with ⟨id, message, hread, heff⟩ | ⟨o, he, ho⟩
  · generalize Relay.request host limit clock site raw m.proxy = r at heff
    cases heff with
    | @quiet o p' targets ho hr hp =>
      rw [hcall o ho]
      refine h.keep (List.append_nil _) (fun target => ?_) (by rw [hr]; exact List.Sublist.refl _)
        (by rw [hr]; rfl) hp
      rw [hr]
      refine Window.Limited.later ?_ (h3.trans h4)
      by_cases ht : target ∈ targets
      · simp only [rateStatus, if_pos ht]
        exact h.prune hstatus target
      · simp only [rateStatus, if_neg ht]
        exact (h.limited target).later hstatus
    | @limited p' tool given args target admitted shown retry hc hcharge hp =>
      have hcases := charge_cases host (limit target) clock.redeemed clock.consumed target tool args
        m.proxy.rates
      rw [hcharge] at hcases
      generalize hr : p'.rates = r' at hcases
      cases hcases with
      | refused hfull =>
        refine h.keep (List.append_nil _) ?_ (by rw [hr]) (by rw [hr]) hp
        rw [hr]
        exact limited_update (fun t _ => (h.limited t).later hconsumed) (h.prune hconsumed target)
    | @paid p' tool given args target admitted sent how hc hcharge hp =>
      have hplain := plain_of_valid hc.valid fun t ht =>
        plain_of_readMessage hread t (leaves_of_callIn hc.call ht)
      have hcases := charge_cases host (limit target) clock.redeemed clock.consumed target tool args
        m.proxy.rates
      rw [hcharge] at hcases
      generalize hr : p'.rates = r' at hcases
      cases hcases with
      | redeemed hfree hkey hmem hoffset =>
        exact h.redeem rfl rfl hmem hr hconsumed hplain hp
      | slots hroom =>
        refine h.spend rfl rfl ?_ (by rw [hr]) (by rw [hr]) hplain hp
        rw [hr]
        refine limited_update (fun t ht => ?_) ?_
        · have hslots : slots (m.calls ++ [⟨id, tool, args, .slots target (rateCost tool) clock.consumed⟩]) t
              = slots m.calls t := by
            rw [slots_append]
            simp only [Charge.slotsOf, if_neg (Ne.symm ht), List.append_nil]
          exact hslots ▸ (h.limited t).later hconsumed
        · have hslots : slots (m.calls ++ [⟨id, tool, args, .slots target (rateCost tool) clock.consumed⟩])
              target = slots m.calls target ++ List.replicate (rateCost tool) clock.consumed := by
            rw [slots_append]
            simp only [Charge.slotsOf, if_pos]
          exact hslots ▸ (h.prune hconsumed target).allow hroom
  · rw [he, hcall o ho]
    exact h.keep (List.append_nil _) (fun t => (h.limited t).later hconsumed) (List.Sublist.refl _) rfl
      fun _ hx => hx

theorem Fair.step (h : Fair host limit m) {m' : Moment} (hs : Step host limit m m') :
    Fair host limit m' := by
  cases hs with
  | request clock site raw hnow hclock => exact h.request site raw hnow hclock
  | response now epoch raw later hnow hclock hlater =>
    have hsettled := h.settle (response_settles (p := m.proxy) now epoch raw) rfl
    exact hsettled.keep rfl (fun t => (hsettled.limited t).later (hnow.trans (hlater 0)))
      (List.Sublist.refl _) rfl fun _ hx => hx
  | openSession => exact h.keep rfl h.limited (List.Sublist.refl _) rfl fun _ hx => hx
  | closeSession reason epoch =>
    have hl := closeSession_ledger (p := m.proxy) reason epoch
    have hr : (m.proxy.closeSession reason epoch).rates = m.proxy.rates := congrArg Prod.fst hl
    have hk : (m.proxy.closeSession reason epoch).pendingContinuations
        = m.proxy.pendingContinuations := congrArg Prod.snd hl
    refine h.keep rfl ?_ ?_ ?_ ?_
    · rw [hr]
      exact h.limited
    · rw [hr]
    · rw [hr]
    · rw [hk]
      exact fun _ hx => hx
  | expectInternal id => exact h.keep rfl h.limited (List.Sublist.refl _) rfl fun _ hx => hx
  | abandon =>
    exact h.keep rfl h.limited (List.nil_sublist _) rfl fun _ hx => nomatch hx

theorem Fair.runs (h : Fair host limit m) {m' : Moment} (hr : Runs host limit m m') :
    Fair host limit m' := by
  induction hr with
  | refl => exact h
  | tail _ hs ih => exact ih.step hs

/-! ## free pages -/

/-- what can be free is a page of a read, and not its first one -/
theorem offset_of_free {tool : Text} {args : Fields} (h : rateCostsSlot tool args = false) :
    tool ∈ continuationTools ∧ ∃ n, 0 < n ∧ field args "offset" = some (.int n) := by
  rw [rateCostsSlot, Bool.not_eq_false', Bool.and_eq_true] at h
  obtain ⟨htool, h⟩ := h
  refine ⟨of_decide_eq_true htool, ?_⟩
  split at h
  · next n hn => exact ⟨n, of_decide_eq_true h, hn⟩
  · exact nomatch h

theorem Fair.redeems (h : Fair host limit m) {clock : Clock} {site : Site} {raw : Bytes} {sent : Value}
    {call : Call} {n : Nat} (hmeets : Unnamed host site raw m.proxy)
    (hsent : (Relay.request host limit clock site raw m.proxy).1 = .forwarded sent (some call))
    (hn : call.charge = .continuation n) : Redeems host m call n := by
  rcases request_effect host limit clock site raw m.proxy with ⟨id, message, hread, heff⟩ | ⟨o, he, ho⟩
  · generalize Relay.request host limit clock site raw m.proxy = r at heff hsent
    cases heff with
    | quiet targets ho hr hp =>
      cases hsent
      exact nomatch ho
    | limited hc hcharge hp => exact nomatch hsent
    | @paid p' tool given args target admitted sent how hc hcharge hp =>
      cases hsent
      have hplain := plain_of_valid hc.valid fun t ht =>
        plain_of_readMessage hread t (leaves_of_callIn hc.call ht)
      have hcases := charge_cases host (limit target) clock.redeemed clock.consumed target tool args
        m.proxy.rates
      rw [hcharge] at hcases
      generalize hr : p'.rates = r' at hcases
      cases hcases with
      | slots hroom => exact nomatch hn
      | @redeemed key c hfree hkey hmem hoffset =>
        cases hn
        obtain ⟨htool, offset, hpos, hoff⟩ := offset_of_free hfree
        have hnext : offset = c.nextOffset := by
          rw [hoff] at hoffset
          cases hoffset
          rfl
        subst hnext
        obtain ⟨issue, snapshot, hissue, hoffer, hpage⟩ := h.held _ hmem
        obtain ⟨earlier, hearlier, hid, htool', hkey'⟩ :=
          h.answered issue (List.mem_of_getElem? hissue)
        obtain ⟨hauth', hline'⟩ := h.plain earlier hearlier
        obtain ⟨hkeys, hsnap⟩ : continuationKey tool args = issue.key ∧
            strOf host (field args "content_sha256") = snapshot :=
          pageKey_inj hplain.2 (hkey' ▸ hline') (hkey.symm.trans hpage)
        obtain ⟨hsame, hargs⟩ := continuationKey_inj hauth' hplain.1 htool' htool
          (hkey'.symm.trans hkeys.symm)
        refine ⟨htool, h.unspent _ hmem, c.nextOffset, snapshot, issue, hpos, hoff, ?_, hissue, hoffer,
          earlier, hearlier, hid, hsame, hargs⟩
        rcases snapshot_of_valid hc.valid hc.remote.2.2 with hnothing | ⟨s, hs⟩
        · refine absurd ?_ (hmeets tool args target
            ⟨id, message, given, hread, hc.call, hc.valid, hc.target⟩ hnothing _ hmem)
          rw [hkey]
          rcases hnothing with hnone | hnull
          · rw [hnone]
            rfl
          · rw [hnull]
            rfl
        · rw [hs] at hsnap ⊢
          rw [← hsnap]
          rfl
  · rw [he] at hsent
    subst hsent
    exact nomatch ho

/-! ## when to try again -/

theorem dispatch_charged {clock : Clock} {site : Site} {message given args : Fields} {id : Option Id}
    {tool target : Text} {admitted : Admitted} {p : Proxy}
    (h : Chargeable host site message tool given args target admitted) :
    (dispatch host limit clock site message id p).1.charged = true := by
  obtain ⟨hmethod, hcall, hvalid, ⟨hscope, hstatus, hcatalog⟩, htarget, hauthorize⟩ := h
  rw [callIn] at hcall
  split at hcall
  · next hname hargs =>
    cases hcall
    rw [dispatch, if_neg (not_not.2 hmethod)]
    dsimp only
    rw [hname, hargs]
    dsimp only
    rw [hvalid]
    dsimp only
    rw [if_neg hscope, callTool.eq_def]
    dsimp only
    rw [if_neg hstatus, if_neg hcatalog, htarget]
    dsimp only
    rw [hauthorize]
    dsimp only
    split <;> rfl
  · cases hcall

/-- as many seconds later there is room for the call -/
theorem room_after {l : Limit} {now later : ℚ} {cost : Nat} {history : List ℚ}
    (ho : history.Pairwise (· ≤ ·)) (hcost : cost ≤ l.requests)
    (hfull : l.requests < history.length + cost)
    (hlater : now + retryAfter l now cost history ≤ later) :
    (pruned l later history).length + cost ≤ l.requests := by
  have hindex : min (history.length - 1) (history.length + cost - l.requests - 1)
      = history.length + cost - l.requests - 1 := by omega
  have hlt : history.length + cost - l.requests - 1 < history.length := by omega
  obtain ⟨t, ht⟩ : ∃ t, history[history.length + cost - l.requests - 1]? = some t :=
    ⟨_, List.getElem?_eq_getElem hlt⟩
  have hretry : (t + l.window - now : ℚ) ≤ retryAfter l now cost history := by
    rw [retryAfter, hindex, ht]
    exact (Int.le_ceil _).trans (Int.cast_le.2 (le_max_right _ _))
  have hold : t + (l.window : ℚ) ≤ later := by linarith
  have hlen := Window.length_prune_le ho ht hold
  rw [pruned]
  omega

theorem Fair.admitted (h : Fair host limit m) {clock clock' : Clock} {site : Site} {raw : Bytes}
    {shown : Value} {retry : Int} {tool target : Text} {args : Fields} {m' : Moment}
    (hnow : m.now ≤ clock.accepted) (hclock : clock.Ordered)
    (hlimited : (Relay.request host limit clock site raw m.proxy).1 = .rateLimited shown retry)
    (hcall : IsCall host site raw tool args target) (hcost : rateCost tool ≤ (limit target).requests)
    (hfair : Fair host limit m') (hslots : slots m'.calls target = slots m.calls target)
    (hnow' : m'.now ≤ clock'.accepted) (hclock' : clock'.Ordered)
    (hlater : clock.consumed + retry ≤ clock'.consumed) :
    (∃ sent call, (Relay.request host limit clock' site raw m'.proxy).1 = .forwarded sent (some call)) ∨
      ∃ id code, (code = -32600 ∨ code = -32014) ∧
        (Relay.request host limit clock' site raw m'.proxy).1 = .refused id code := by
  obtain ⟨id, message, given, hread, hin, hvalid, htarget⟩ := hcall
  have hconsumed : m.now ≤ clock.consumed :=
    hnow.trans (hclock.1.trans (hclock.2.1.trans (hclock.2.2.1.trans hclock.2.2.2)))
  have hconsumed' : m'.now ≤ clock'.consumed :=
    hnow'.trans (hclock'.1.trans (hclock'.2.1.trans (hclock'.2.2.1.trans hclock'.2.2.2)))
  -- why the call was refused
  obtain ⟨admitted, hc, hfull, hretry⟩ : ∃ admitted,
      Chargeable host site message tool given args target admitted ∧
      (limit target).requests < (pruned (limit target) clock.consumed
        (m.proxy.rates.history target)).length + rateCost tool ∧
      retry = retryAfter (limit target) clock.consumed (rateCost tool)
        (pruned (limit target) clock.consumed (m.proxy.rates.history target)) := by
    rcases request_effect host limit clock site raw m.proxy with ⟨i, msg, hr, heff⟩ | ⟨o, he, ho⟩
    · rw [hread] at hr
      cases hr
      generalize Relay.request host limit clock site raw m.proxy = r at heff hlimited
      cases heff with
      | quiet targets ho hr hp =>
        cases hlimited
        exact nomatch ho
      | paid hc hcharge hp => exact nomatch hlimited
      | @limited p' tool' given' args' target' admitted shown' retry' hc hcharge hp =>
        cases hlimited
        have hin' := hc.call
        rw [hin] at hin'
        cases hin'
        have hvalid' := hc.valid
        rw [hvalid] at hvalid'
        cases hvalid'
        have htarget' := hc.target
        rw [htarget] at htarget'
        cases htarget'
        have hcases := charge_cases host (limit target) clock.redeemed clock.consumed target tool args
          m.proxy.rates
        rw [hcharge] at hcases
        generalize p'.rates = r' at hcases
        generalize hx : (Except.error retry : Except Int Charge) = x at hcases
        cases hcases with
        | refused hfull =>
          cases hx
          exact ⟨admitted, hc, hfull, rfl⟩
        | redeemed => exact nomatch hx
        | slots => exact nomatch hx
    · rw [he] at hlimited
      subst hlimited
      exact nomatch ho
  -- how much room there is later
  have hbefore := h.prune hconsumed target
  have hafter := hfair.limited target
  rw [hslots] at hafter
  have hmono : clock.consumed ≤ clock'.consumed := by
    have hone : (1 : ℚ) ≤ retry := by
      rw [hretry, retryAfter]
      split
      · exact_mod_cast le_max_left _ _
      · exact_mod_cast le_max_left _ _
    linarith
  have hroom : (pruned (limit target) clock'.consumed (m'.proxy.rates.history target)).length
      + rateCost tool ≤ (limit target).requests := by
    have hfits := room_after hbefore.queue_ordered hcost hfull (hretry ▸ hlater)
    have h1 := (hbefore.later hmono).length_prune
    have h2 := (hafter.later hconsumed').length_prune
    rw [pruned] at hfits ⊢
    omega
  -- the line is read as before
  have hok : ∀ retry r, charge host (limit target) clock'.redeemed clock'.consumed target tool args
      m'.proxy.rates ≠ (.error retry, r) := by
    intro retry r he
    have hcases := charge_cases host (limit target) clock'.redeemed clock'.consumed target tool args
      m'.proxy.rates
    rw [he] at hcases
    cases hcases with
    | refused hfull' => exact absurd hroom (Nat.not_le.2 hfull')
  rw [Relay.request, hread]
  dsimp only
  split
  · next o ho =>
    obtain ⟨i, rfl, rfl | rfl⟩ := accept_error ho
    · exact .inr ⟨i, _, .inl rfl, rfl⟩
    · exact .inr ⟨i, _, .inr rfl, rfl⟩
  · next q hq =>
    obtain ⟨hr, -⟩ := accept_ok hq
    have hcharged : (dispatch host limit clock' site message id q).1.charged = true :=
      dispatch_charged hc
    have heff : Effect host limit clock' site message id q
        (dispatch host limit clock' site message id q) := dispatch_effect
    generalize dispatch host limit clock' site message id q = r at hcharged heff
    cases heff with
    | quiet targets ho _ _ =>
      rw [ho] at hcharged
      exact nomatch hcharged
    | paid => exact .inl ⟨_, _, rfl⟩
    | @limited p' tool' given' args' target' admitted' shown' retry' hc' hcharge _ =>
      have hin' := hc'.call
      rw [hin] at hin'
      cases hin'
      have hvalid' := hc'.valid
      rw [hvalid] at hvalid'
      cases hvalid'
      have htarget' := hc'.target
      rw [htarget] at htarget'
      cases htarget'
      rw [hr] at hcharge
      exact absurd hcharge (hok _ _)

end

/-! ## the whole run -/

theorem close_right (w t : ℚ) : Window.Close w fun x => t ≤ x && x < t + w := by
  intro x y hx hy
  simp only [Bool.and_eq_true, decide_eq_true_eq] at hx hy
  linarith

theorem close_left (w t : ℚ) : Window.Close w fun x => t < x && x ≤ t + w := by
  intro x y hx hy
  simp only [Bool.and_eq_true, decide_eq_true_eq] at hx hy
  linarith

/-- In every run: the calls of a target take no more slots in a window than its limit; a call that
takes none redeems a page that the answer to the same read offered, and each page is redeemed once; a
call that was refused is admitted after the time it was told; and few pages are held. -/
theorem runs_are_fair (host : Host) (limit : Text → Limit) {m : Moment}
    (h : Runs host limit .start m) :
    (∀ target (t : ℚ),
      (slots m.calls target).countP (fun x => t ≤ x && x < t + (limit target).window)
          ≤ (limit target).requests ∧
        (slots m.calls target).countP (fun x => t < x && x ≤ t + (limit target).window)
          ≤ (limit target).requests) ∧
      (∀ clock site raw sent call n, Unnamed host site raw m.proxy →
        (request host limit clock site raw m.proxy).1 = .forwarded sent (some call) →
        call.charge = .continuation n → Redeems host m call n) ∧
      (redeemed m.calls).Nodup ∧
      (∀ clock site raw shown retry tool args target m' clock', m.now ≤ clock.accepted →
        clock.Ordered → (request host limit clock site raw m.proxy).1 = .rateLimited shown retry →
        IsCall host site raw tool args target → rateCost tool ≤ (limit target).requests →
        Runs host limit ⟨m.calls, clock.consumed, (request host limit clock site raw m.proxy).2⟩ m' →
        slots m'.calls target = slots m.calls target → m'.now ≤ clock'.accepted → clock'.Ordered →
        clock.consumed + retry ≤ clock'.consumed →
        (∃ sent call, (request host limit clock' site raw m'.proxy).1 = .forwarded sent (some call)) ∨
          ∃ id code, (code = -32600 ∨ code = -32014) ∧
            (request host limit clock' site raw m'.proxy).1 = .refused id code) ∧
      m.proxy.rates.continuations.length ≤ continuationMaxEntries := by
  have hfair : Fair host limit m := fair_start.runs h
  refine ⟨fun target t => ?_, ?_, hfair.once, ?_, hfair.few⟩
  · exact ⟨(hfair.limited target).limited _ (close_right _ t),
      (hfair.limited target).limited _ (close_left _ t)⟩
  · intro clock site raw sent call n hmeets hsent hn
    exact hfair.redeems hmeets hsent hn
  · intro clock site raw shown retry tool args target m' clock' hnow hclock hlimited hcall hcost hruns
      hslots hnow' hclock' hlater
    have hafter := hfair.request site raw hnow hclock
    rw [hlimited] at hafter
    have hcalls : m.calls ++ (Outcome.rateLimited shown retry).call.toList = m.calls :=
      List.append_nil _
    rw [hcalls] at hafter
    exact hfair.admitted hnow hclock hlimited hcall hcost (hafter.runs hruns) hslots hnow' hclock' hlater

section

/-- `{"jsonrpc":"2.0","id":id,"method":"tools/call",...}` -/
def readCall (id : Int) (page : Fields) : Value :=
  .obj [(text "jsonrpc", str "2.0"), (text "id", .int id), (text "method", str "tools/call"),
    (text "params", .obj [(text "name", str "ssh_read"), (text "arguments",
      .obj ([(text "target", str "fw"), (text "platform", str "fortios"), (text "query", str "arp")]
        ++ page))])]

/-- the answer to the first call, with a page that starts at 5 -/
def readAnswer (snapshot : String) : Value :=
  .obj [(text "jsonrpc", str "2.0"), (text "id", .int 1), (text "result",
    .obj [(text "structuredContent", .obj [(text "ok", .bool true), (text "next_offset", .int 5),
      (text "content_sha256", str snapshot)])])]

def bytesOf (v : Value) : Bytes := Utf8.encode (Json.dumps v)

def digest : String := "0123456789abcdef0123456789abcdef0123456789abcdef0123456789abcdef"

def unnamedPage : Fields := [(text "offset", .int 5)]
def namedPage : Fields := [(text "offset", .int 5), (text "content_sha256", str digest)]

/-- a line of the client in these runs -/
def sampleLines : List Value := [readCall 1 [], readCall 2 unnamedPage, readCall 2 namedPage]

/-- the message whose text it is -/
def messageOf (vs : List Value) (raw : Bytes) : Option Value := vs.find? fun v => bytesOf v = raw

def sampleHost : Host where
  rt := ⟨fun _ => none, messageOf sampleLines, messageOf [readAnswer "None", readAnswer digest]⟩
  py := Sanitize.plainPython
  depth := 99
  textDocument s := Json.loads 100 (s.map Char.ofNat)
  dumps v := (Json.dumps v).map Char.toNat
  str _ := []
  isPrintable n := 32 ≤ n && n < 127
  plain_numbers raw v h := by
    have hfind : messageOf sampleLines raw = some v := h
    have hmem : v ∈ sampleLines := List.mem_of_find?_eq_some hfind
    intro t ht
    simp only [sampleLines, List.mem_cons, List.not_mem_nil, or_false] at hmem
    rcases hmem with rfl | rfl | rfl <;>
      simp [readCall, unnamedPage, namedPage, Value.leaves, Json.leavesOfFields, str] at ht

def sampleSite : Site where
  early _ _ := .pass
  late _ _ := .pass
  forgets _ := false
  authorize _ _ := .ok ⟨text "ctx", []⟩
  status := .error .internalError
  scope _ := .raised
  enrolled := []

def sampleLimit (_ : Text) : Limit := ⟨1, 60⟩

def clockAt (t : ℚ) : Clock := ⟨t, t, t, t, t⟩

theorem clockAt_ordered (t : ℚ) : (clockAt t).Ordered := ⟨le_rfl, le_rfl, le_rfl, le_rfl⟩

/-- after a line at time 0 and a frame at time 1 -/
def afterAnswer (host : Host) (limit : Text → Limit) (site : Site) (line frame : Bytes) : Moment :=
  ⟨(request host limit (clockAt 0) site line .start).1.call.toList, 1,
    (response host (fun _ => 1) none frame (request host limit (clockAt 0) site line .start).2).2⟩

theorem afterAnswer_runs (host : Host) (limit : Text → Limit) (site : Site) (line frame : Bytes) :
    Runs host limit .start (afterAnswer host limit site line frame) := by
  have hfirst : Step host limit .start _ :=
    .request .start (clockAt 0) site line le_rfl (clockAt_ordered 0)
  refine (Relation.ReflTransGen.single hfirst).tail ?_
  exact .response _ (fun _ => 1) none frame 1 (zero_le_one (α := ℚ)) monotone_const fun _ => le_rfl

/-- after the first call, when its answer gives the content this name -/
def sampleMoment (snapshot : String) : Moment :=
  afterAnswer sampleHost sampleLimit sampleSite (bytesOf (readCall 1 [])) (bytesOf (readAnswer snapshot))

/-- the outcome of the second call -/
def secondOutcome (snapshot : String) (page : Fields) : Outcome :=
  (request sampleHost sampleLimit (clockAt 2) sampleSite (bytesOf (readCall 2 page))
    (sampleMoment snapshot).proxy).1

theorem getLast_pageKey_none (key : Text) : (pageKey key (text "None")).getLast? = some 101 := by
  rw [pageKey, List.getLast?_append]
  rfl

/-- what the second call finds and gets, when the page has a proper name -/
theorem second_named :
    ((secondOutcome digest namedPage).call.map fun call => call.charge.number) = some (some 0) ∧
      ∀ c ∈ (sampleMoment digest).proxy.rates.continuations, c.1.getLast? = some 102 := by
  decide +kernel

theorem runs_are_fair_page :
    ∃ sent call, secondOutcome digest namedPage = .forwarded sent (some call) ∧
      Redeems sampleHost (sampleMoment digest) call 0 := by
  obtain ⟨hcall, hlast⟩ := second_named
  have hmeets : Unnamed sampleHost sampleSite (bytesOf (readCall 2 namedPage))
      (sampleMoment digest).proxy := by
    intro tool args target _ _ c hc he
    have h := hlast c hc
    rw [he, getLast_pageKey_none] at h
    exact absurd h (by decide)
  have hfair := (runs_are_fair sampleHost sampleLimit (m := sampleMoment digest)
    (afterAnswer_runs _ _ _ _ _)).2.1
  have hredeem := hfair (clockAt 2) sampleSite (bytesOf (readCall 2 namedPage))
  cases ho : secondOutcome digest namedPage with
  | forwarded sent call =>
    rw [ho] at hcall
    cases call with
    | none => exact nomatch hcall
    | some call =>
      have hnumber : call.charge.number = some 0 := Option.some.inj hcall
      refine ⟨sent, call, rfl, hredeem sent call 0 hmeets ho ?_⟩
      cases hc : call.charge with
      | slots t count now =>
        rw [hc] at hnumber
        exact nomatch hnumber
      | continuation n =>
        rw [hc] at hnumber
        rw [Option.some.inj hnumber]
  | _ =>
    rw [ho] at hcall
    exact nomatch hcall

/-- a page of a content with the name `None` is free for a call that names no content -/
theorem unnamed_page_is_free :
    ¬ ∀ (host : Host) (limit : Text → Limit) (m : Moment), Runs host limit .start m →
      ∀ clock site raw sent call n,
        (request host limit clock site raw m.proxy).1 = .forwarded sent (some call) →
        call.charge = .continuation n → Redeems host m call n := by
  intro h
  have hcall : ((secondOutcome "None" unnamedPage).call.map fun call =>
      (call.charge.number, field call.args "content_sha256")) = some (some 0, none) := by decide +kernel
  have hredeem := h sampleHost sampleLimit (sampleMoment "None") (afterAnswer_runs _ _ _ _ _)
    (clockAt 2) sampleSite (bytesOf (readCall 2 unnamedPage))
  cases ho : secondOutcome "None" unnamedPage with
  | forwarded sent call =>
    rw [ho] at hcall
    cases call with
    | none => exact nomatch hcall
    | some call =>
      obtain ⟨hnumber, hsha⟩ := Prod.mk.inj (Option.some.inj hcall)
      have hcharge : call.charge = .continuation 0 := by
        cases hc : call.charge with
        | slots t count now =>
          rw [hc] at hnumber
          exact nomatch hnumber
        | continuation n =>
          rw [hc] at hnumber
          rw [Option.some.inj hnumber]
      obtain ⟨_, snapshot, _, _, _, hsnap, _⟩ := (hredeem sent call 0 ho hcharge).page
      rw [hsha] at hsnap
      exact nomatch hsnap
  | _ =>
    rw [ho] at hcall
    exact nomatch hcall

end

end Netops.Relay
