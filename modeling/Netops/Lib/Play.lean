import Netops.Lib.Prog

/-!
# Programs against an environment that answers every operation

`Prog.play answer t m` follows the program `m` to its end.  The environment knows all that was done and
answered before; `t` is the list of it.  A program that runs out of passes has no outcome.
-/

namespace Effect

variable {S : Sig} {ε α β : Type}

/-- an operation and its answer -/
abbrev Sig.Call (S : Sig) : Type := (o : S.Op) × S.Ans o

namespace Prog

/-- the operations and answers at the end, and the outcome -/
def play (answer : List S.Call → (o : S.Op) → S.Ans o) (t : List S.Call) :
    Prog S ε α → List S.Call × Option (Except ε α)
  | .ret a => (t, some (.ok a))
  | .raise e => (t, some (.error e))
  | .stuck => (t, none)
  | .op o k => play answer (t ++ [⟨o, answer t o⟩]) (k (answer t o))

variable {answer : List S.Call → (o : S.Op) → S.Ans o} {t t' : List S.Call} {m : Prog S ε α}
  {f : α → Prog S ε β}

theorem play_bind_ok {a : α} (h : play answer t m = (t', some (.ok a))) :
    play answer t (m.bind f) = play answer t' (f a) := by
  induction m generalizing t with
  | ret b =>
    obtain ⟨rfl, hb⟩ := Prod.mk.inj h
    obtain rfl : b = a := Except.ok.inj (Option.some.inj hb)
    rfl
  | raise e => exact absurd (Option.some.inj (Prod.mk.inj h).2) (by simp)
  | stuck => exact absurd (Prod.mk.inj h).2 (by simp)
  | op o k ih => exact ih _ h

theorem play_bind_error {e : ε} (h : play answer t m = (t', some (.error e))) :
    play answer t (m.bind f) = (t', some (.error e)) := by
  induction m generalizing t with
  | ret b => exact absurd (Option.some.inj (Prod.mk.inj h).2) (by simp)
  | raise e' =>
    obtain ⟨rfl, he⟩ := Prod.mk.inj h
    obtain rfl : e' = e := Except.error.inj (Option.some.inj he)
    rfl
  | stuck => exact absurd (Prod.mk.inj h).2 (by simp)
  | op o k ih => exact ih _ h

end Prog

/-- the program comes to an end, with a list and an outcome that satisfy `Q` -/
def Plays (answer : List S.Call → (o : S.Op) → S.Ans o) (t : List S.Call) (m : Prog S ε α)
    (Q : List S.Call → Except ε α → Prop) : Prop :=
  ∃ t' x, m.play answer t = (t', some x) ∧ Q t' x

section
variable {answer : List S.Call → (o : S.Op) → S.Ans o} {t : List S.Call} {m : Prog S ε α}
  {f : α → Prog S ε β} {P : List S.Call → Except ε α → Prop} {Q : List S.Call → Except ε β → Prop}

theorem Plays.bind (h : Plays answer t m P) (herror : ∀ t' e, P t' (.error e) → Q t' (.error e))
    (hok : ∀ t' a, P t' (.ok a) → Plays answer t' (f a) Q) : Plays answer t (m.bind f) Q := by
  obtain ⟨t', x, hplay, hP⟩ := h
  cases x with
  | error e => exact ⟨t', .error e, Prog.play_bind_error hplay, herror t' e hP⟩
  | ok a =>
    obtain ⟨t'', y, hplay', hQ⟩ := hok t' a hP
    exact ⟨t'', y, (Prog.play_bind_ok hplay).trans hplay', hQ⟩

theorem Plays.mono {Q' : List S.Call → Except ε α → Prop} (h : Plays answer t m P)
    (hQ : ∀ t' x, P t' x → Q' t' x) : Plays answer t m Q' := by
  obtain ⟨t', x, hplay, hP⟩ := h
  exact ⟨t', x, hplay, hQ t' x hP⟩

theorem Plays.op {o : S.Op} {k : S.Ans o → Prog S ε α}
    (h : Plays answer (t ++ [⟨o, answer t o⟩]) (k (answer t o)) P) : Plays answer t (.op o k) P := h

theorem Plays.ret {a : α} (h : P t (.ok a)) : Plays answer t (.ret a) P := ⟨t, .ok a, rfl, h⟩

theorem Plays.raise {e : ε} (h : P t (.error e)) : Plays answer t (.raise e) P := ⟨t, .error e, rfl, h⟩

/-- the outcome as a value, in a program that raises something else -/
def Prog.outcome {δ : Type} : Prog S ε α → Prog S δ (Except ε α)
  | .ret a => .ret (.ok a)
  | .raise e => .ret (.error e)
  | .stuck => .stuck
  | .op o k => .op o fun r => (k r).outcome

theorem Plays.outcome {δ : Type} (h : Plays answer t m P) :
    Plays answer t (m.outcome : Prog S δ (Except ε α)) fun t' x => ∃ y, x = .ok y ∧ P t' y := by
  obtain ⟨t', y, hplay, hP⟩ := h
  refine ⟨t', .ok y, ?_, y, rfl, hP⟩
  induction m generalizing t with
  | ret a =>
    obtain ⟨rfl, hy⟩ := Prod.mk.inj hplay
    rw [← Option.some.inj hy]
    rfl
  | raise e =>
    obtain ⟨rfl, hy⟩ := Prod.mk.inj hplay
    rw [← Option.some.inj hy]
    rfl
  | stuck => exact absurd (Prod.mk.inj hplay).2 (by simp)
  | op o k ih => exact ih _ hplay

/-- every operation satisfies `ok`, and the program comes to an end -/
def Prog.Asks (ok : S.Op → Prop) : Prog S ε α → Prop
  | .ret _ => True
  | .raise _ => True
  | .stuck => False
  | .op o k => ok o ∧ ∀ r, (k r).Asks ok

theorem Prog.Asks.bind {ok : S.Op → Prop} (h : m.Asks ok) (hf : ∀ a, (f a).Asks ok) : (m.bind f).Asks ok := by
  induction m with
  | ret a => exact hf a
  | raise e => trivial
  | stuck => exact h
  | op o k ih => exact ⟨h.1, fun r => ih r (h.2 r)⟩

theorem Prog.Asks.ofExcept {ok : S.Op → Prop} (x : Except ε α) : (Prog.ofExcept x : Prog S ε α).Asks ok := by
  cases x <;> trivial

end

end Effect
