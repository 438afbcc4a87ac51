import Mathlib.Algebra.BigOperators.Group.List.Basic
import Mathlib.Algebra.Order.BigOperators.Group.List
import Mathlib.Algebra.Order.Ring.Rat
import Mathlib.Data.List.Chain
import Mathlib.Tactic.Linarith
import Netops.Admin.Execute
import Netops.Lib.Play

/-!
# Waiting for the safeguard comes to an end (`_Deadline`, `_wait_for_expiry`, `_wait_for_proof`)

The two loops ask the device for its clock and for the safeguard, and sleep between the questions.  The
device may show any time and the monotonic clock may do what it likes; what runs down is `unslept`, the
part of the limit that has not been slept.

* `Wait`, `waitsOf`   the questions and the sleeps of a run;
* `Follows`           what may come after what: a loop asks again only after it has slept;
* `Good`              what holds all the way: `unslept` and the sleeps make up the limit.
-/

namespace Netops
open Effect

namespace Execute

/-- a question to the device, or a sleep -/
inductive Wait where
  | asked (question : DeviceCall)
  | slept (seconds : ℚ)
  deriving DecidableEq

def waitOf (c : adminSig.Call) : Option Wait :=
  match c.1 with
  | .device _ _ question => some (.asked question)
  | .host (.sleep seconds) => some (.slept seconds)
  | _ => none

def waitsOf (t : List adminSig.Call) : List Wait := t.filterMap waitOf

def Wait.seconds : Wait → Option ℚ
  | .asked _ => none
  | .slept seconds => some seconds

def sleeps (ws : List Wait) : List ℚ := ws.filterMap Wait.seconds

def reads (ws : List Wait) : Nat := ws.countP fun w => w.seconds.isNone

/-- A pass that does not leave its loop sleeps before the next question; the first loop is left for the
second one without a sleep. -/
inductive Follows : Wait → Wait → Prop where
  | pass (question : DeviceCall) (seconds : ℚ) : Follows (.asked question) (.slept seconds)
  | again (seconds : ℚ) (question : DeviceCall) : Follows (.slept seconds) (.asked question)
  | proof : Follows (.asked .clock) (.asked .safeguardFired)

/-- what holds of the waits, `extra` being how many loops have been left or are asking -/
structure Good (dl : Deadline) (extra : Nat) (ws : List Wait) : Prop where
  chain : ws.IsChain Follows
  pauses : ∀ s ∈ sleeps ws, 1 ≤ s ∧ s ≤ expiryPollSeconds
  balance : (sleeps ws).sum + dl.unslept = expiryWaitLimitSeconds
  room : -1 < dl.unslept
  reads : reads ws ≤ (sleeps ws).length + extra

section
variable {dl : Deadline} {extra : Nat} {ws : List Wait} {q : DeviceCall} {s : ℚ}

theorem sleeps_asked (ws : List Wait) (q : DeviceCall) : sleeps (ws ++ [.asked q]) = sleeps ws := by
  rw [sleeps, List.filterMap_append]
  exact List.append_nil _

theorem sleeps_slept (ws : List Wait) (s : ℚ) : sleeps (ws ++ [.slept s]) = sleeps ws ++ [s] := by
  rw [sleeps, List.filterMap_append]
  rfl

theorem reads_asked (ws : List Wait) (q : DeviceCall) : reads (ws ++ [.asked q]) = reads ws + 1 := by
  rw [reads, List.countP_append]
  rfl

theorem reads_slept (ws : List Wait) (s : ℚ) : reads (ws ++ [.slept s]) = reads ws := by
  rw [reads, List.countP_append]
  rfl

theorem Good.ask (h : Good dl extra ws) (hlast : ∀ w ∈ ws.getLast?, Follows w (.asked q)) :
    Good dl (extra + 1) (ws ++ [.asked q]) := by
  refine ⟨?_, ?_, ?_, h.room, ?_⟩
  · refine List.isChain_append.mpr ⟨h.chain, List.isChain_singleton _, fun w hw y hy => ?_⟩
    obtain rfl : Wait.asked q = y := Option.some.inj hy
    exact hlast w hw
  · rw [sleeps_asked]
    exact h.pauses
  · rw [sleeps_asked]
    exact h.balance
  · have hreads := h.reads
    rw [reads_asked, sleeps_asked]
    omega

/-- the pause is taken from what is left of the limit, and only while something is left -/
theorem Good.sleep (h : Good dl (extra + 1) (ws ++ [.asked q])) (hleft : 0 < dl.unslept)
    (hs : 1 ≤ s ∧ s ≤ expiryPollSeconds) (hmax : s ≤ max dl.unslept 1) :
    Good { dl with unslept := dl.unslept - s } extra (ws ++ [.asked q] ++ [.slept s]) := by
  refine ⟨?_, ?_, ?_, ?_, ?_⟩
  · refine List.isChain_append.mpr ⟨h.chain, List.isChain_singleton _, fun w hw y hy => ?_⟩
    obtain rfl : Wait.slept s = y := Option.some.inj hy
    rw [List.getLast?_append, List.getLast?_singleton, Option.some_or] at hw
    obtain rfl : Wait.asked q = w := Option.some.inj hw
    exact .pass q s
  · intro x hx
    rw [sleeps_slept] at hx
    rcases List.mem_append.mp hx with hx | hx
    · exact h.pauses x hx
    · rw [List.mem_singleton.mp hx]
      exact hs
  · have hbalance := h.balance
    rw [sleeps_slept, List.sum_append, List.sum_singleton]
    dsimp only
    linarith
  · dsimp only
    rcases max_cases dl.unslept 1 with ⟨hm, -⟩ | ⟨hm, -⟩ <;> rw [hm] at hmax <;> linarith
  · have hreads := h.reads
    rw [reads_slept, sleeps_slept, List.length_append, List.length_singleton]
    omega

theorem Good.mono (h : Good dl extra ws) {extra' : Nat} (hle : extra ≤ extra') : Good dl extra' ws := by
  have hreads := h.reads
  exact ⟨h.chain, h.pauses, h.balance, h.room, by omega⟩

/-- each sleep takes a second at least -/
theorem Good.length_le (h : Good dl extra ws) : (sleeps ws).length ≤ 980 := by
  have hsum : ((sleeps ws).length : ℚ) ≤ (sleeps ws).sum := by
    have hcard := List.card_nsmul_le_sum (sleeps ws) 1 fun x hx => (h.pauses x hx).1
    simpa using hcard
  have hbalance := h.balance
  have hroom := h.room
  have hlimit : expiryWaitLimitSeconds = 980 := by
    norm_num [expiryWaitLimitSeconds, safeguardMaxSeconds, expiryGraceSeconds, expiryWaitSlackSeconds]
  have hlt : ((sleeps ws).length : ℚ) < 981 := by linarith
  have hlt : (sleeps ws).length < 981 := by exact_mod_cast hlt
  omega

end

/-! ## the operations of a deadline -/

section
variable {answer : List adminSig.Call → (o : Op) → o.Answer} {t : List adminSig.Call} {dl : Deadline}

theorem plays_host {c : HostCall} {Q : List adminSig.Call → Except Exn c.Reply → Prop}
    (h : ∀ x : Except Exn c.Reply, Q (t ++ [⟨.host c, x⟩]) x) : Plays answer t (host c) Q := by
  have hx := h (answer t (.host c))
  show Plays answer (t ++ [⟨.host c, answer t (.host c)⟩]) (Prog.ofExcept (answer t (.host c))) Q
  revert hx
  cases answer t (.host c) with
  | error e => exact Plays.raise
  | ok a => exact Plays.ret

theorem plays_device {r : Record} {q : DeviceCall} {Q : List adminSig.Call → Except Exn q.Reply → Prop}
    (h : ∀ x : Except Exn q.Reply, Q (t ++ [⟨.device r.device (some r.changeId) q, x⟩]) x) :
    Plays answer t (call r q) Q := by
  have hx := h (answer t (.device r.device (some r.changeId) q))
  show Plays answer (t ++ [⟨.device r.device (some r.changeId) q,
    answer t (.device r.device (some r.changeId) q)⟩])
      (Prog.ofExcept (answer t (.device r.device (some r.changeId) q))) Q
  revert hx
  cases answer t (.device r.device (some r.changeId) q) with
  | error e => exact Plays.raise
  | ok a => exact Plays.ret

theorem plays_raiseIf {c : Prop} [Decidable c] {e : Exn} {Q : List adminSig.Call → Except Exn Unit → Prop}
    (hraise : Q t (.error e)) (hgo : ¬c → Q t (.ok ())) : Plays answer t (raiseIf c e) Q := by
  rw [raiseIf]
  split_ifs with hc
  · exact Plays.raise hraise
  · exact Plays.ret (hgo hc)

theorem waitsOf_append (t u : List adminSig.Call) : waitsOf (t ++ u) = waitsOf t ++ waitsOf u :=
  List.filterMap_append

/-- what is left is at most what has not been slept -/
theorem plays_left : Plays answer t dl.left fun t' x =>
    waitsOf t' = waitsOf t ∧ ∀ l, x = .ok l → l ≤ dl.unslept := by
  have hnow : ∀ x : Except Exn ℚ, waitsOf (t ++ [⟨.host .monotonic, x⟩]) = waitsOf t := by
    intro x
    rw [waitsOf_append]
    exact List.append_nil _
  refine Plays.bind (plays_host (Q := fun t' _ => waitsOf t' = waitsOf t) hnow) (fun t' e h => ?_)
    fun t' now h => Plays.ret ?_
  · exact ⟨h, fun l hl => nomatch hl⟩
  · exact ⟨h, fun l hl => Except.ok.inj hl ▸ min_le_right _ _⟩

/-- a question is asked, or the time was over before -/
theorem plays_read (r : Record) (q : DeviceCall) : Plays answer t (dl.read (call r q)) fun t' x =>
    waitsOf t' = waitsOf t ++ [.asked q] ∨ waitsOf t' = waitsOf t ∧ ∃ e, x = .error e := by
  have hask : ∀ t1, waitsOf t1 = waitsOf t → ∀ x : Except Exn q.Reply,
      waitsOf (t1 ++ [⟨.device r.device (some r.changeId) q, x⟩]) = waitsOf t ++ [.asked q] := by
    intro t1 h x
    rw [waitsOf_append, h]
    rfl
  refine Plays.bind plays_left (fun t1 e h => .inr ⟨h.1, e, rfl⟩) fun t1 l h1 => ?_
  refine Plays.bind (P := fun t2 x => t2 = t1) (plays_raiseIf rfl fun _ => rfl)
    (fun t2 e h => .inr ⟨h ▸ h1.1, e, rfl⟩) ?_
  rintro t2 ⟨⟩ rfl
  refine Plays.bind (plays_device (Q := fun t3 _ => waitsOf t3 = waitsOf t ++ [.asked q])
    (hask t2 h1.1)) (fun t3 e h => .inl h) fun t3 a h3 => ?_
  refine Plays.bind plays_left (fun t4 e h => .inl (h.1.trans h3)) fun t4 l h4 => ?_
  refine Plays.bind (P := fun t5 x => t5 = t4) (plays_raiseIf rfl fun _ => rfl)
    (fun t5 e h => .inl (h ▸ h4.1.trans h3)) ?_
  rintro t5 ⟨⟩ rfl
  exact Plays.ret (.inl (h4.1.trans h3))

/-- a pause is slept while something of the limit is left, or the time is over -/
theorem plays_pause (wanted : ℚ) : Plays answer t (dl.pause wanted) fun t' x =>
    (waitsOf t' = waitsOf t ∧ ∃ e, x = .error e) ∨
    ∃ s, waitsOf t' = waitsOf t ++ [.slept s] ∧ 0 < dl.unslept ∧ (1 ≤ s ∧ s ≤ expiryPollSeconds) ∧
      s ≤ max dl.unslept 1 ∧ ∀ dl', x = .ok dl' → dl' = { dl with unslept := dl.unslept - s } := by
  refine Plays.bind plays_left (fun t1 e h => .inl ⟨h.1, e, rfl⟩) fun t1 l h1 => ?_
  have hl : l ≤ dl.unslept := h1.2 l rfl
  refine Plays.bind (P := fun t2 x => t2 = t1 ∧ (x = .ok () → ¬l ≤ 0))
    (plays_raiseIf ⟨rfl, fun h => nomatch h⟩ fun h => ⟨rfl, fun _ => h⟩)
    (fun t2 e h => .inl ⟨h.1 ▸ h1.1, e, rfl⟩) ?_
  rintro t2 ⟨⟩ ⟨rfl, hpos⟩
  have hpos : 0 < l := not_le.mp (hpos rfl)
  have hsleep : ∀ x : Except Exn Unit,
      waitsOf (t2 ++ [⟨.host (.sleep (min (max (min wanted l) 1) expiryPollSeconds)), x⟩]) =
        waitsOf t ++ [.slept (min (max (min wanted l) 1) expiryPollSeconds)] := by
    intro x
    rw [waitsOf_append, h1.1]
    rfl
  have hone : (1 : ℚ) ≤ min (max (min wanted l) 1) expiryPollSeconds :=
    le_min (le_max_right _ _) (by norm_num [expiryPollSeconds])
  have hmax : min (max (min wanted l) 1) expiryPollSeconds ≤ max dl.unslept 1 :=
    (min_le_left _ _).trans (max_le_max_right 1 ((min_le_right _ _).trans hl))
  have hs : 0 < dl.unslept := hpos.trans_le hl
  refine Plays.bind (plays_host (Q := fun t3 _ => waitsOf t3 = waitsOf t ++ [_]) hsleep)
    (fun t3 e h => .inr ⟨_, h, hs, ⟨hone, min_le_right _ _⟩, hmax, fun dl' hd => nomatch hd⟩)
    fun t3 _ h3 => Plays.ret (.inr ⟨_, h3, hs, ⟨hone, min_le_right _ _⟩, hmax, fun dl' hd => ?_⟩)
  exact (Except.ok.inj hd).symm

/-! ## the two loops -/

theorem plays_proofLoop (r : Record) {n : Nat} (pending : Bool) (h : Good dl 1 (waitsOf t))
    (hlast : ∀ w ∈ (waitsOf t).getLast?, Follows w (.asked .safeguardFired))
    (hn : 981 ≤ n + (sleeps (waitsOf t)).length) :
    Plays answer t (proofLoop r n dl pending) fun t' _ => ∃ dl', Good dl' 2 (waitsOf t') := by
  induction n generalizing t dl pending with
  | zero =>
    have hle := h.length_le
    omega
  | succ n ih =>
    refine Plays.bind (plays_read r .safeguardFired) (fun t1 e h1 => ?_) fun t1 fired h1 => ?_
    · rcases h1 with h1 | ⟨h1, -⟩
      · exact ⟨dl, h1 ▸ h.ask hlast⟩
      · exact ⟨dl, h1 ▸ h.mono (by omega)⟩
    · have hw1 := h1.resolve_right fun h1 => (nomatch h1.2.choose_spec)
      have hasked : Good dl 2 (waitsOf t1) := hw1 ▸ h.ask hlast
      cases fired with
      | true => exact Plays.ret ⟨dl, hasked⟩
      | false =>
        refine Plays.bind plays_left (fun t2 e h2 => ⟨dl, h2.1 ▸ hasked⟩) fun t2 l h2 => ?_
        refine Plays.bind (plays_pause l) (fun t3 e h3 => ?_) fun t3 dl' h3 => ?_
        · rcases h3 with ⟨h3, -⟩ | ⟨s, h3, hpos, hs, hmax, -⟩
          · exact ⟨dl, h3 ▸ h2.1 ▸ hasked⟩
          · refine ⟨{ dl with unslept := dl.unslept - s }, ?_⟩
            rw [h3, h2.1, hw1]
            exact ((h.ask hlast).sleep hpos hs hmax).mono (by omega)
        · rcases h3 with ⟨-, e, he⟩ | ⟨s, h3, hpos, hs, hmax, hdl⟩
          · exact nomatch he
          · obtain rfl := hdl dl' rfl
            rw [h2.1, hw1] at h3
            have hsleeps : (sleeps (waitsOf t3)).length = (sleeps (waitsOf t)).length + 1 := by
              rw [h3, sleeps_slept, sleeps_asked, List.length_append, List.length_singleton]
            refine ih true (h3 ▸ (h.ask hlast).sleep hpos hs hmax) (fun w hw => ?_) (by omega)
            rw [h3, List.getLast?_append, List.getLast?_singleton, Option.some_or] at hw
            obtain rfl : Wait.slept s = w := Option.some.inj hw
            exact .again s .safeguardFired

/-- what the waits are in the end: a last sleep may stand at their end -/
def Waited (t : List adminSig.Call) : Prop :=
  ∃ ws grace dl, waitsOf t = ws ++ grace ∧ (grace = [] ∨ grace = [.slept expiryGraceSeconds]) ∧
    Good dl 2 ws

theorem Good.waited {extra : Nat} (h : Good dl extra (waitsOf t)) (hle : extra ≤ 2) : Waited t :=
  ⟨waitsOf t, [], dl, (List.append_nil _).symm, .inl rfl, h.mono hle⟩

theorem plays_waitForProof (r : Record) (h : Good dl 1 (waitsOf t))
    (hlast : ∀ w ∈ (waitsOf t).getLast?, Follows w (.asked .safeguardFired)) :
    Plays answer t (waitForProof r dl) fun t' _ => Waited t' := by
  have hn : 981 ≤ waitPasses + (sleeps (waitsOf t)).length := Nat.le_add_right_of_le (by decide)
  refine Plays.bind (plays_proofLoop r false h hlast hn) (fun t1 e h1 => ?_) fun t1 pending h1 => ?_
  · exact h1.choose_spec.waited le_rfl
  · obtain ⟨dl1, h1⟩ := h1
    rw [doIf]
    split_ifs
    · refine plays_host fun x => ⟨waitsOf t1, [.slept expiryGraceSeconds], dl1, ?_, .inr rfl, h1⟩
      rw [waitsOf_append]
      rfl
    · exact Plays.ret (h1.waited le_rfl)

theorem plays_expiryLoop (r : Record) (fireAt : Int) (due : ℚ) {n : Nat} (h : Good dl 0 (waitsOf t))
    (hlast : ∀ w ∈ (waitsOf t).getLast?, Follows w (.asked .clock))
    (hn : 981 ≤ n + (sleeps (waitsOf t)).length) :
    Plays answer t (expiryLoop r fireAt due n dl) fun t' _ => Waited t' := by
  induction n generalizing t dl with
  | zero =>
    have hle := h.length_le
    omega
  | succ n ih =>
    refine Plays.bind (plays_read r .clock) (fun t1 e h1 => ?_) fun t1 now h1 => ?_
    · rcases h1 with h1 | ⟨h1, -⟩
      · exact (h1 ▸ h.ask hlast : Good dl 1 (waitsOf t1)).waited (by omega)
      · exact (h1 ▸ h : Good dl 0 (waitsOf t1)).waited (by omega)
    · have hw1 := h1.resolve_right fun h1 => (nomatch h1.2.choose_spec)
      have hasked : Good dl 1 (waitsOf t1) := hw1 ▸ h.ask hlast
      dsimp only
      split_ifs with hover
      · -- the second loop goes on with what has not been slept
        have hnow : ∀ x : Except Exn ℚ, waitsOf (t1 ++ [⟨.host .monotonic, x⟩]) = waitsOf t1 := by
          intro x
          rw [waitsOf_append]
          exact List.append_nil _
        refine Plays.bind (plays_host (Q := fun t2 _ => waitsOf t2 = waitsOf t1) hnow)
          (fun t2 e h2 => (h2 ▸ hasked : Good dl 1 (waitsOf t2)).waited (by omega)) fun t2 now h2 => ?_
        have htight : Good dl 1 (waitsOf t2) := h2 ▸ hasked
        refine plays_waitForProof r ⟨htight.chain, htight.pauses, htight.balance, htight.room,
          htight.reads⟩ fun w hw => ?_
        rw [h2, hw1, List.getLast?_append, List.getLast?_singleton, Option.some_or] at hw
        obtain rfl : Wait.asked .clock = w := Option.some.inj hw
        exact .proof
      · refine Plays.bind (plays_pause _) (fun t3 e h3 => ?_) fun t3 dl' h3 => ?_
        · rcases h3 with ⟨h3, -⟩ | ⟨s, h3, hpos, hs, hmax, -⟩
          · exact (h3 ▸ hasked : Good dl 1 (waitsOf t3)).waited (by omega)
          · rw [hw1] at h3
            exact (h3 ▸ (h.ask hlast).sleep hpos hs hmax : Good _ 0 (waitsOf t3)).waited (by omega)
        · rcases h3 with ⟨-, e, he⟩ | ⟨s, h3, hpos, hs, hmax, hdl⟩
          · exact nomatch he
          · obtain rfl := hdl dl' rfl
            rw [hw1] at h3
            have hsleeps : (sleeps (waitsOf t3)).length = (sleeps (waitsOf t)).length + 1 := by
              rw [h3, sleeps_slept, sleeps_asked, List.length_append, List.length_singleton]
            refine ih (h3 ▸ (h.ask hlast).sleep hpos hs hmax) (fun w hw => ?_) (by omega)
            rw [h3, List.getLast?_append, List.getLast?_singleton, Option.some_or] at hw
            obtain rfl : Wait.slept s = w := Option.some.inj hw
            exact .again s .clock

/-- the limit is unslept at the start -/
theorem plays_waitForExpiry (r : Record) (due : ℚ) :
    Plays answer [] (waitForExpiry r due) fun t' _ => Waited t' := by
  have hstart : ∀ last expired, Good ⟨last, expiryWaitLimitSeconds, expired⟩ 0 [] := by
    refine fun last expired => ⟨List.isChain_nil, fun s hs => absurd hs List.not_mem_nil, ?_, ?_, ?_⟩
    · exact zero_add _
    · norm_num [expiryWaitLimitSeconds, safeguardMaxSeconds, expiryGraceSeconds, expiryWaitSlackSeconds]
    · exact Nat.le_refl 0
  unfold waitForExpiry
  cases r.safeguard with
  | none => exact Plays.raise ((hstart 0 "").waited (t := []) (by omega))
  | some safeguard =>
    refine Plays.bind (plays_host (Q := fun t' _ => waitsOf t' = []) fun x => rfl)
      (fun t1 e h1 => ?_) fun t1 now h1 => ?_
    · exact (h1 ▸ hstart 0 "" : Good _ 0 (waitsOf t1)).waited (by omega)
    · refine plays_expiryLoop r _ due (h1 ▸ hstart _ _) (fun w hw => ?_) ?_
      · rw [h1] at hw
        exact nomatch hw
      · exact Nat.le_add_right_of_le (by decide)

end

/-- **Waiting for the safeguard comes to an end.**  Whatever the clocks and the device answer, the function
returns or raises after at most 982 questions; every pass that does not leave its loop sleeps between one
and ten seconds, and what is slept before the last sleep stays below the limit and one second. -/
theorem waitForExpiry_ends (answer : List adminSig.Call → (o : Op) → o.Answer) (r : Record) (due : ℚ) :
    ∃ t outcome ws grace, (waitForExpiry r due).play answer [] = (t, some outcome) ∧
      waitsOf t = ws ++ grace ∧ (grace = [] ∨ grace = [.slept expiryGraceSeconds]) ∧
      ws.IsChain Follows ∧ (∀ s ∈ sleeps ws, 1 ≤ s ∧ s ≤ 10) ∧
      (sleeps ws).sum < expiryWaitLimitSeconds + 1 ∧ reads ws ≤ 982 := by
  obtain ⟨t, outcome, hplay, ws, grace, dl, hws, hgrace, hgood⟩ := @plays_waitForExpiry answer r due
  refine ⟨t, outcome, ws, grace, hplay, hws, hgrace, hgood.chain, hgood.pauses, ?_, ?_⟩
  · have hbalance := hgood.balance
    have hroom := hgood.room
    linarith
  · have hreads := hgood.reads
    have hle := hgood.length_le
    omega

end Execute

end Netops
