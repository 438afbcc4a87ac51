import Netops.Fortios.Parse
import Netops.Lib.Play

/-!
# Sessions on a device

The programs that run diagnostics talk to a shell on the device, and where that fails to a second one.  The
environment answers every command, with a text or an exception, and knows all that was done before.

* `Op`, `shell`     commands, reconnecting, and what else a session is asked;
* `send`            one command;
* `Event`           what was done and answered;
* `onSame`, `orReconnect`   the second session;
* `orReconnect_plays`       one of the two sessions has done everything, if the outcome says so.
-/

namespace Netops.Diagnostics

open Effect
open Netops.Fortios (Text)

/-- the session at hand, or the one that is opened to repair -/
inductive Who where
  | original
  | repair
  deriving DecidableEq

/-- before the first change, inside of `try`, or inside of `finally` -/
inductive Phase where
  | before
  | body
  | restore
  deriving DecidableEq

inductive Exn where
  /-- `StepRefused`: the device refused a command -/
  | refused (output : Text)
  /-- any other exception of the shell -/
  | shell
  /-- `ValueError` -/
  | value
  | unsupportedPlatform
  | scopeRefused
  | optionRefused
  | restoreUnverified
  deriving DecidableEq

variable {C : Type}

inductive Op (C : Type) where
  | command (who : Who) (phase : Phase) (c : C)
  /-- a command under a timer, or listening: the answer says whether the timer has fired -/
  | bounded (c : Option C)
  | reconnect
  /-- leaving the session that was opened -/
  | close
  /-- `shell.ready` -/
  | ready (who : Who)

/-- what a session answers -/
def shell (C : Type) : Sig where
  Op := Op C
  Ask _ := Unit
  Ans
    | .command _ _ _ => Except Exn Text
    | .bounded _ => Except Exn (Text × Bool)
    | .reconnect => Except Exn Unit
    | .close => Except Exn Unit
    | .ready _ => Bool

/-- an operation with its answer -/
abbrev Event (C : Type) : Type := (shell C).Call

/-- a command that was answered -/
def answered (who : Who) (phase : Phase) (c : C) (r : Except Exn Text) : Event C := ⟨.command who phase c, r⟩

section
variable {ε : Type}

/-- an answer of the session; `raised` says what becomes of an exception -/
def ofReply {α : Type} (raised : Exn → ε) : Except Exn α → Prog (shell C) ε α
  | .ok a => .ret a
  | .error e => .raise (raised e)

/-- `shell.command` -/
def sendWith (raised : Exn → ε) (who : Who) (phase : Phase) (c : C) : Prog (shell C) ε Text :=
  .op (.command who phase c) (ofReply raised)

def send (who : Who) (phase : Phase) (c : C) : Prog (shell C) Exn Text := sendWith id who phase c

/-- a command of which only the answer counts -/
def tried (who : Who) (phase : Phase) (c : C) : Prog (shell C) ε (Except Exn Text) :=
  .op (.command who phase c) .ret

/-- `_bounded` -/
def boundedWith (raised : Exn → ε) (c : Option C) : Prog (shell C) ε (Text × Bool) :=
  .op (.bounded c) (ofReply raised)

def reconnect : Prog (shell C) Exn Unit := .op .reconnect (ofReply id)

def close : Prog (shell C) Exn Unit := .op .close (ofReply id)

/-- `with reconnect() as repair: …`, where every exception counts as a failure -/
def withRepair (body : Prog (shell C) Exn Bool) : Prog (shell C) ε Bool :=
  (Prog.bind reconnect fun _ => Prog.bind (Prog.outcome body) fun r => Prog.bind close fun _ =>
    Prog.ofExcept r).outcome.bind fun (r : Except Exn Bool) =>
      .ret (match r with
        | .ok b => b
        | .error _ => false)

/-- the second session goes on if it is on the device that was found -/
def onSame {I : Type} [DecidableEq I] (identify : Text → Except Exn I) (status : C) (found : I)
    (again : Prog (shell C) Exn Bool) : Prog (shell C) Exn Bool :=
  (send .repair .restore status).bind fun text =>
    match identify text with
    | .error e => .raise e
    | .ok now => if now = found then again else .ret false

/-- what failed in the first session is done in a second one -/
def orReconnect (first : Prog (shell C) ε Bool) (reconnects : Bool) (second : Prog (shell C) Exn Bool) :
    Prog (shell C) ε Bool :=
  first.bind fun restored =>
    if restored = true then .ret true
    else if reconnects = true then withRepair second
    else .ret false

end

/-! ## what a part of a run adds -/

/-- the event is one of `finally` -/
def InFinally : Event C → Prop
  | ⟨.command _ phase _, _⟩ => phase = .restore
  | ⟨.bounded _, _⟩ => False
  | _ => True

/-- one event after the other satisfies its condition -/
def Matches (P : List (Event C → Prop)) (u : List (Event C)) : Prop := List.Forall₂ (fun p e => p e) P u

/-- what is added belongs to `finally`, and where the outcome is `true` the events are these -/
def Adds {ε : Type} (P : List (Event C → Prop)) (t t' : List (Event C)) (x : Except ε Bool) : Prop :=
  ∃ u b, t' = t ++ u ∧ x = .ok b ∧ (∀ e ∈ u, InFinally e) ∧ (b = true → Matches P u)

section
variable {answer : List (Event C) → (o : (shell C).Op) → (shell C).Ans o} {ε α : Type} {t : List (Event C)}
  {Q : List (Event C) → Except ε α → Prop}

theorem ofReply_plays {β : Type} {raised : Exn → ε} {r : Except Exn β} {f : β → Prog (shell C) ε α}
    (herror : ∀ e, r = .error e → Q t (.error (raised e))) (hok : ∀ a, r = .ok a → Plays answer t (f a) Q) :
    Plays answer t ((ofReply raised r).bind f) Q := by
  cases r with
  | error e => exact .raise (herror e rfl)
  | ok a => exact hok a rfl

theorem tried_plays {who : Who} {phase : Phase} {c : C} {f : Except Exn Text → Prog (shell C) ε α}
    (h : ∀ r, Plays answer (t ++ [answered who phase c r]) (f r) Q) :
    Plays answer t ((tried who phase c).bind f) Q := h _

/-- one command -/
theorem sendWith_plays {raised : Exn → ε} {who : Who} {phase : Phase} {c : C} {f : Text → Prog (shell C) ε α}
    (herror : ∀ e, Q (t ++ [answered who phase c (.error e)]) (.error (raised e)))
    (hok : ∀ text, Plays answer (t ++ [answered who phase c (.ok text)]) (f text) Q) :
    Plays answer t ((sendWith raised who phase c).bind f) Q := by
  refine Plays.op (ofReply_plays (fun e he => ?_) fun text htext => ?_)
  · rw [he]
    exact herror e
  · rw [htext]
    exact hok text

theorem inFinally_append {u v : List (Event C)} (hu : ∀ e ∈ u, InFinally e) (hv : ∀ e ∈ v, InFinally e) :
    ∀ e ∈ u ++ v, InFinally e := by
  intro e he
  rcases List.mem_append.1 he with he | he
  · exact hu e he
  · exact hv e he

theorem inFinally_answered (who : Who) (c : C) (r : Except Exn Text) :
    ∀ e ∈ [answered who .restore c r], InFinally e := by
  intro e he
  obtain rfl := List.mem_singleton.1 he
  rfl

/-- nothing is asked -/
theorem Adds.nothing (t : List (Event C)) : Adds [] t t (.ok true : Except ε Bool) :=
  ⟨[], true, (List.append_nil t).symm, rfl, List.forall_mem_nil _, fun _ => .nil⟩

/-- one part after the other -/
theorem Adds.bind {P : List (Event C → Prop)} {m : Prog (shell C) ε Bool} {f : Bool → Prog (shell C) ε α}
    (hm : Plays answer t m (Adds P t))
    (hf : ∀ u b, (∀ e ∈ u, InFinally e) → (b = true → Matches P u) → Plays answer (t ++ u) (f b) Q) :
    Plays answer t (m.bind f) Q := by
  refine Plays.bind hm (fun _ _ h => ?_) ?_
  · obtain ⟨_, _, -, hx, -⟩ := h
    exact nomatch hx
  · rintro t' b ⟨u, b', rfl, hb, hquiet, hall⟩
    obtain rfl := Except.ok.inj hb
    exact hf u b hquiet hall

/-- what a part adds is among the events of `finally`, and is `P` if the outcome is `true` -/
def AddsSome (P : List (Event C) → Prop) (t t' : List (Event C)) (x : Except ε Bool) : Prop :=
  ∃ w, t' = t ++ w ∧ (∀ e ∈ w, InFinally e) ∧ (x = .ok true → P w)

theorem reconnect_plays {β : Type} {f : Unit → Prog (shell C) Exn β} {R : List (Event C) → Except Exn β → Prop}
    (herror : ∀ r e, R (t ++ [⟨.reconnect, r⟩]) (.error e))
    (hok : ∀ r, Plays answer (t ++ [⟨.reconnect, r⟩]) (f ()) R) : Plays answer t (reconnect.bind f) R :=
  Plays.op (ofReply_plays (fun e _ => herror _ e) fun _ _ => hok _)

theorem close_plays {β : Type} {f : Unit → Prog (shell C) Exn β} {R : List (Event C) → Except Exn β → Prop}
    (herror : ∀ r e, R (t ++ [⟨.close, r⟩]) (.error e))
    (hok : ∀ r, Plays answer (t ++ [⟨.close, r⟩]) (f ()) R) : Plays answer t (close.bind f) R :=
  Plays.op (ofReply_plays (fun e _ => herror _ e) fun _ _ => hok _)

/-- `with reconnect()`: the outcome is `true` only if that of the body is -/
theorem withRepair_plays {m : Prog (shell C) Exn Bool} {P : List (Event C) → Prop}
    (hm : ∀ t, Plays answer t m (AddsSome P t)) :
    Plays answer t (withRepair m : Prog (shell C) ε Bool) fun t' x => ∃ w b, t' = t ++ w ∧ x = .ok b ∧
      (∀ e ∈ w, InFinally e) ∧ (b = true → ∃ a v d, w = a ++ v ++ d ∧ P v) := by
  have hopen : ∀ r, ∀ e ∈ [(⟨.reconnect, r⟩ : Event C)], InFinally e := by
    intro r e he
    obtain rfl := List.mem_singleton.1 he
    trivial
  have hclose : ∀ r, ∀ e ∈ [(⟨.close, r⟩ : Event C)], InFinally e := by
    intro r e he
    obtain rfl := List.mem_singleton.1 he
    trivial
  have hinner : Plays answer t
      (Prog.bind reconnect fun _ => Prog.bind (Prog.outcome m) fun r => Prog.bind close fun _ => Prog.ofExcept r)
      (AddsSome (fun w => ∃ a v d, w = a ++ v ++ d ∧ P v) t) := by
    refine reconnect_plays (fun r e => ⟨_, rfl, hopen r, nofun⟩) fun r => ?_
    refine Plays.bind (hm _).outcome (fun _ _ h => ?_) ?_
    · obtain ⟨_, hx, -⟩ := h
      exact nomatch hx
    · rintro t' x ⟨y, hy, w, rfl, hw, hP⟩
      obtain rfl := Except.ok.inj hy
      have hall : ∀ s, ∀ e ∈ [⟨.reconnect, r⟩] ++ w ++ [(⟨.close, s⟩ : Event C)], InFinally e := fun s =>
        inFinally_append (inFinally_append (hopen r) hw) (hclose s)
      refine close_plays (fun s e => ⟨_, ?_, hall s, nofun⟩) fun s => ?_
      · simp only [List.append_assoc]
      · cases x with
        | error e => exact .raise ⟨_, by simp only [List.append_assoc], hall s, nofun⟩
        | ok b =>
          exact .ret ⟨[⟨.reconnect, r⟩] ++ w ++ [⟨.close, s⟩], by simp only [List.append_assoc], hall s,
            fun hb => ⟨_, w, _, rfl, hP hb⟩⟩
  refine Plays.bind hinner.outcome (fun _ _ h => ?_) ?_
  · obtain ⟨_, hx, -⟩ := h
    exact nomatch hx
  · rintro t' x ⟨y, hy, w, rfl, hw, hP⟩
    obtain rfl := Except.ok.inj hy
    cases x with
    | error e => exact .ret ⟨w, false, rfl, rfl, hw, nofun⟩
    | ok b => exact .ret ⟨w, b, rfl, rfl, hw, fun hb => hP (by rw [hb])⟩

/-- a session has shown that it is on the device that was found -/
def SameDevice {I : Type} (identify : Text → Except Exn I) (status : C) (found : I) (who : Who) (phase : Phase)
    (c : List (Event C)) : Prop :=
  ∃ text, answered who phase status (.ok text) ∈ c ∧ identify text = .ok found

theorem onSame_plays {I : Type} [DecidableEq I] {identify : Text → Except Exn I} {status : C} {found : I}
    {again : Prog (shell C) Exn Bool} {P : List (Event C → Prop)}
    (hagain : ∀ t, Plays answer t again (Adds P t)) (t : List (Event C)) :
    Plays answer t (onSame identify status found again) (AddsSome (fun w => ∃ c u, w = c ++ u ∧ Matches P u ∧
      SameDevice identify status found .repair .restore c) t) := by
  have hquiet := inFinally_answered Who.repair status
  refine sendWith_plays (fun e => ⟨_, rfl, hquiet _, nofun⟩) fun text => ?_
  cases hid : identify text with
  | error e => exact .raise ⟨_, rfl, hquiet _, nofun⟩
  | ok now =>
    dsimp only
    by_cases hnow : now = found
    · rw [if_pos hnow]
      refine (hagain _).mono ?_
      rintro t' x ⟨u, b, rfl, rfl, hu, hall⟩
      refine ⟨[answered .repair .restore status (.ok text)] ++ u, by rw [List.append_assoc],
        inFinally_append (hquiet _) hu, fun hx => ⟨_, u, rfl, hall (Except.ok.inj hx), text, ?_, ?_⟩⟩
      · exact List.mem_singleton_self _
      · rw [hid, hnow]
    · rw [if_neg hnow]
      exact .ret ⟨_, rfl, hquiet _, nofun⟩

/-- one session has done everything, among these events -/
def ByOne (P : Who → List (Event C → Prop)) (S : List (Event C) → Prop) (w : List (Event C)) : Prop :=
  ∃ who c u d, w = c ++ u ++ d ∧ Matches (P who) u ∧ (who = .original ∨ S c)

/-- the outcome is `true` only if one of the two sessions has done everything -/
theorem orReconnect_plays {first : Prog (shell C) ε Bool} {reconnects : Bool} {second : Prog (shell C) Exn Bool}
    {P : Who → List (Event C → Prop)} {S : List (Event C) → Prop} (hS : ∀ a c, S c → S (a ++ c))
    (hfirst : Plays answer t first (Adds (P .original) t))
    (hsecond : ∀ t, Plays answer t second
      (AddsSome (fun w => ∃ c u, w = c ++ u ∧ Matches (P .repair) u ∧ S c) t)) :
    Plays answer t (orReconnect first reconnects second) fun t' x => ∃ w b, t' = t ++ w ∧ x = .ok b ∧
      (∀ e ∈ w, InFinally e) ∧ (b = true → ByOne P S w) := by
  refine Adds.bind hfirst fun u restored hu hall => ?_
  by_cases hrestored : restored = true
  · rw [if_pos hrestored]
    exact .ret ⟨u, true, rfl, rfl, hu, fun _ =>
      ⟨.original, [], u, [], (List.append_nil u).symm, hall hrestored, .inl rfl⟩⟩
  rw [if_neg hrestored]
  by_cases hreconnects : reconnects = true
  · rw [if_pos hreconnects]
    refine (withRepair_plays hsecond).mono ?_
    rintro t' x ⟨w, b, rfl, rfl, hw, hb⟩
    refine ⟨u ++ w, b, List.append_assoc t u w, rfl, inFinally_append hu hw, fun htrue => ?_⟩
    obtain ⟨a, v, d, rfl, c, v', rfl, hv', hsame⟩ := hb htrue
    exact ⟨.repair, u ++ a ++ c, v', d, by simp only [List.append_assoc], hv', .inr (hS _ _ hsame)⟩
  · rw [if_neg hreconnects]
    exact .ret ⟨u, false, rfl, rfl, hu, nofun⟩

theorem SameDevice.append {I : Type} {identify : Text → Except Exn I} {status : C} {found : I} {who : Who}
    {phase : Phase} (a c : List (Event C)) (h : SameDevice identify status found who phase c) :
    SameDevice identify status found who phase (a ++ c) := by
  obtain ⟨text, hmem, hid⟩ := h
  exact ⟨text, List.mem_append_right a hmem, hid⟩

end

end Netops.Diagnostics
