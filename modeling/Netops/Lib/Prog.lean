import Mathlib.Logic.Function.Basic

/-!
# Effectful programs, their runs and their safety under interference

A program is a tree of operations over a signature `Sig`: every operation is answered and the
answer selects the rest of the program.  `Ask o` is what the environment decides about the
operation `o` (the reply of a device, the fate of a write), `Ans o` is what the program sees.

* `Prog S ε α`       programs that return an `α`, raise an `ε` or are stuck (a loop whose budget
                     of passes is spent); `bind`, `tryCatch`;
* `Machine S σ`      what an operation does to the state `σ`;
* `Prog.All P V E`   every operation of the program satisfies `P`, whatever is answered, every
                     value it returns `V` and every exception it raises `E`;
* `run`              the run of one program that dies after at most `n` operations;
* `Safe`             every operation of the program is allowed (`Ok`) at the moment it is done,
                     whatever the environment answers and whatever the others do in between
                     (`R`), and the outcome satisfies `Q`;
* `Ends`             `Safe` where the environment is bound to decide within `D`, and the program is
                     never stuck: `Ends.run` says that its runs come to an end;
* `Sys`              processes that share one state, with spawning, steps and crashes;
                     `Sys.Reach.inv` is the induction over whole runs and `Sys.play` follows a
                     schedule.
-/

namespace Effect

/-- operations, what the environment decides about each and what the program is told -/
structure Sig where
  Op : Type
  Ask : Op → Type
  Ans : Op → Type

inductive Prog (S : Sig) (ε α : Type) where
  | ret (a : α)
  | raise (e : ε)
  | stuck
  | op (o : S.Op) (k : S.Ans o → Prog S ε α)

namespace Prog
variable {S : Sig} {ε α β γ : Type}

def bind : Prog S ε α → (α → Prog S ε β) → Prog S ε β
  | .ret a, f => f a
  | .raise e, _ => .raise e
  | .stuck, _ => .stuck
  | .op o k, f => .op o fun r => (k r).bind f

def tryCatch : Prog S ε α → (ε → Prog S ε α) → Prog S ε α
  | .ret a, _ => .ret a
  | .raise e, h => h e
  | .stuck, _ => .stuck
  | .op o k, h => .op o fun r => (k r).tryCatch h

instance : Monad (Prog S ε) where
  pure := .ret
  bind := .bind

instance : MonadExceptOf ε (Prog S ε) where
  throw := .raise
  tryCatch := .tryCatch

/-- do one operation and return its answer -/
def call (o : S.Op) : Prog S ε (S.Ans o) := .op o .ret

/-- the outcome as a value: nothing is raised any more -/
def attempt : Prog S ε α → Prog S ε (Except ε α)
  | .ret a => .ret (.ok a)
  | .raise e => .ret (.error e)
  | .stuck => .stuck
  | .op o k => .op o fun r => (k r).attempt

def ofExcept : Except ε α → Prog S ε α
  | .ok a => .ret a
  | .error e => .raise e

/-- `body` with `release` done on both ways out -/
def finally_ (body : Prog S ε α) (release : Prog S ε Unit) : Prog S ε α :=
  body.attempt.bind fun r => release.bind fun _ => ofExcept r

@[simp] theorem pure_eq (a : α) : (pure a : Prog S ε α) = .ret a := rfl
@[simp] theorem bind_eq (m : Prog S ε α) (f : α → Prog S ε β) : (m >>= f) = m.bind f := rfl
@[simp] theorem throw_eq (e : ε) : (throw e : Prog S ε α) = .raise e := rfl
@[simp] theorem tryCatch_eq (m : Prog S ε α) (h : ε → Prog S ε α) :
    (MonadExcept.tryCatch m h : Prog S ε α) = m.tryCatch h := rfl
@[simp] theorem tryCatchThe_eq (m : Prog S ε α) (h : ε → Prog S ε α) :
    (tryCatchThe ε m h : Prog S ε α) = m.tryCatch h := rfl

/-! ### the operations of a program -/

/-- every operation satisfies `P`, every value returned `V` and every exception raised `E` -/
def All (P : S.Op → Prop) (V : α → Prop) (E : ε → Prop) : Prog S ε α → Prop
  | .ret a => V a
  | .raise e => E e
  | .stuck => True
  | .op o k => P o ∧ ∀ r, (k r).All P V E

variable {P : S.Op → Prop} {V : α → Prop} {W : β → Prop} {E : ε → Prop}

@[simp] theorem all_ret {a : α} : (ret a : Prog S ε α).All P V E ↔ V a := Iff.rfl
@[simp] theorem all_raise {e : ε} : (raise e : Prog S ε α).All P V E ↔ E e := Iff.rfl
@[simp] theorem all_stuck : (stuck : Prog S ε α).All P V E ↔ True := Iff.rfl

@[simp] theorem all_call {o : S.Op} {V : S.Ans o → Prop} :
    (call o : Prog S ε _).All P V E ↔ P o ∧ ∀ r, V r := Iff.rfl

@[simp] theorem all_bind {m : Prog S ε α} {f : α → Prog S ε β} :
    (m.bind f).All P W E ↔ m.All P (fun a => (f a).All P W E) E := by
  induction m with
  | ret a => exact Iff.rfl
  | raise e => exact Iff.rfl
  | stuck => exact Iff.rfl
  | op o k ih => exact and_congr_right fun _ => forall_congr' fun r => ih r

@[simp] theorem all_tryCatch {m : Prog S ε α} {h : ε → Prog S ε α} :
    (m.tryCatch h).All P V E ↔ m.All P V (fun e => (h e).All P V E) := by
  induction m with
  | ret a => exact Iff.rfl
  | raise e => exact Iff.rfl
  | stuck => exact Iff.rfl
  | op o k ih => exact and_congr_right fun _ => forall_congr' fun r => ih r

@[simp] theorem all_attempt {m : Prog S ε α} {V : Except ε α → Prop} :
    m.attempt.All P V E ↔ m.All P (fun a => V (.ok a)) (fun e => V (.error e)) := by
  induction m with
  | ret a => exact Iff.rfl
  | raise e => exact Iff.rfl
  | stuck => exact Iff.rfl
  | op o k ih => exact and_congr_right fun _ => forall_congr' fun r => ih r

@[simp] theorem all_ofExcept_ok {a : α} :
    (ofExcept (.ok a) : Prog S ε α).All P V E ↔ V a := Iff.rfl

@[simp] theorem all_ofExcept_error {e : ε} :
    (ofExcept (.error e) : Prog S ε α).All P V E ↔ E e := Iff.rfl

theorem all_ofExcept {r : Except ε α} (hV : ∀ a, r = .ok a → V a) (hE : ∀ e, r = .error e → E e) :
    (ofExcept r : Prog S ε α).All P V E := by
  cases r with
  | ok a => exact hV a rfl
  | error e => exact hE e rfl

theorem All.mono {P' : S.Op → Prop} {V' : α → Prop} {E' : ε → Prop} {m : Prog S ε α}
    (h : m.All P V E) (hP : ∀ o, P o → P' o) (hV : ∀ a, V a → V' a) (hE : ∀ e, E e → E' e) :
    m.All P' V' E' := by
  induction m with
  | ret a => exact hV a h
  | raise e => exact hE e h
  | stuck => exact trivial
  | op o k ih => exact ⟨hP o h.1, fun r => ih r (h.2 r)⟩

theorem All.bind {m : Prog S ε α} {f : α → Prog S ε β} (h : m.All P V E)
    (hf : ∀ a, V a → (f a).All P W E) : (m.bind f).All P W E :=
  all_bind.mpr (h.mono (fun _ h => h) hf fun _ h => h)

/-- only operations that satisfy `P` are done -/
abbrev Only (P : S.Op → Prop) (m : Prog S ε α) : Prop := m.All P (fun _ => True) (fun _ => True)

theorem Only.bind {m : Prog S ε α} {f : α → Prog S ε β} (h : m.Only P)
    (hf : ∀ a, (f a).Only P) : (m.bind f).Only P :=
  All.bind h fun a _ => hf a

theorem Only.attempt {m : Prog S ε α} (h : m.Only P) : m.attempt.Only P :=
  all_attempt.mpr h

theorem Only.ofExcept {r : Except ε α} : (ofExcept r : Prog S ε α).Only P :=
  all_ofExcept (fun _ _ => trivial) fun _ _ => trivial

theorem Only.finally_ {m : Prog S ε α} {f : Prog S ε Unit} (h : m.Only P) (hf : f.Only P) :
    (m.finally_ f).Only P :=
  Only.bind h.attempt fun _ => Only.bind hf fun _ => Only.ofExcept

end Prog

/-- what an operation does: the answer and the next state -/
structure Machine (S : Sig) (σ : Type) where
  exec : (o : S.Op) → S.Ask o → σ → S.Ans o × σ

/-- everything the environment decides, operation by operation -/
def Env (S : Sig) : Type := Nat → (o : S.Op) → S.Ask o

/-- how the run of one program ends; a process that dies is `died` -/
inductive Outcome (ε α : Type) where
  | returned (a : α)
  | raised (e : ε)
  | died

section Run
variable {S : Sig} {σ ε α β : Type} (M : Machine S σ)

/-- the run of a program that dies when `n` operations are done, if it has not ended before -/
def run (env : Env S) : Nat → Prog S ε α → σ → Outcome ε α × σ
  | _, .ret a, s => (.returned a, s)
  | _, .raise e, s => (.raised e, s)
  | _, .stuck, s => (.died, s)
  | 0, .op _ _, s => (.died, s)
  | n+1, .op o k, s => run env n (k (M.exec o (env n o) s).1) (M.exec o (env n o) s).2

end Run

/-! ## safety -/

section Safe
variable {S : Sig} {σ ε α β : Type} (M : Machine S σ)
variable (Inv : σ → Prop) (R : σ → σ → Prop) (Ok : σ → S.Op → Prop)

/-- Every operation of the program is allowed when it is done, in every state the others (`R`)
can lead to and for every decision of the environment, and every outcome satisfies `Q`. -/
def Safe : Prog S ε α → (Except ε α → σ → Prop) → σ → Prop
  | .ret a, Q, s => Q (.ok a) s
  | .raise e, Q, s => Q (.error e) s
  | .stuck, _, _ => True
  | .op o k, Q, s => ∀ t, R s t → Inv t →
      Ok t o ∧ ∀ a, Safe (k (M.exec o a t).1) Q (M.exec o a t).2

/-- a fact that the others keep -/
def Stable (K : σ → Prop) : Prop := ∀ s t, Inv t → R s t → K s → K t

variable {M Inv R Ok}

theorem Stable.and {K L : σ → Prop} (hK : Stable Inv R K) (hL : Stable Inv R L) :
    Stable Inv R (fun s => K s ∧ L s) :=
  fun s t hi hr h => ⟨hK s t hi hr h.1, hL s t hi hr h.2⟩

theorem Safe.mono {m : Prog S ε α} {Q Q' : Except ε α → σ → Prop} {s : σ}
    (h : Safe M Inv R Ok m Q s) (hQ : ∀ r t, Q r t → Q' r t) : Safe M Inv R Ok m Q' s := by
  induction m generalizing s with
  | ret a => exact hQ _ _ h
  | raise e => exact hQ _ _ h
  | stuck => exact trivial
  | op o k ih => exact fun t hr hi => ⟨(h t hr hi).1, fun a => ih _ ((h t hr hi).2 a)⟩

theorem Safe.and {m : Prog S ε α} {Q Q' : Except ε α → σ → Prop} {s : σ}
    (h : Safe M Inv R Ok m Q s) (h' : Safe M Inv R Ok m Q' s) :
    Safe M Inv R Ok m (fun r t => Q r t ∧ Q' r t) s := by
  induction m generalizing s with
  | ret a => exact ⟨h, h'⟩
  | raise e => exact ⟨h, h'⟩
  | stuck => exact trivial
  | op o k ih =>
    exact fun t hr hi => ⟨(h t hr hi).1, fun a => ih _ ((h t hr hi).2 a) ((h' t hr hi).2 a)⟩

/-- the rule of `bind`: the rest is safe wherever the first part returns -/
theorem Safe.bind {m : Prog S ε α} {f : α → Prog S ε β} {P : Except ε α → σ → Prop}
    {Q : Except ε β → σ → Prop} {s : σ} (h : Safe M Inv R Ok m P s)
    (hok : ∀ a t, P (.ok a) t → Safe M Inv R Ok (f a) Q t)
    (herr : ∀ e t, P (.error e) t → Q (.error e) t) : Safe M Inv R Ok (m.bind f) Q s := by
  induction m generalizing s with
  | ret a => exact hok a s h
  | raise e => exact herr e s h
  | stuck => exact trivial
  | op o k ih => exact fun t hr hi => ⟨(h t hr hi).1, fun a => ih _ ((h t hr hi).2 a)⟩

theorem Safe.tryCatch {m : Prog S ε α} {f : ε → Prog S ε α} {P Q : Except ε α → σ → Prop} {s : σ}
    (h : Safe M Inv R Ok m P s) (hok : ∀ a t, P (.ok a) t → Q (.ok a) t)
    (herr : ∀ e t, P (.error e) t → Safe M Inv R Ok (f e) Q t) :
    Safe M Inv R Ok (m.tryCatch f) Q s := by
  induction m generalizing s with
  | ret a => exact hok a s h
  | raise e => exact herr e s h
  | stuck => exact trivial
  | op o k ih => exact fun t hr hi => ⟨(h t hr hi).1, fun a => ih _ ((h t hr hi).2 a)⟩

theorem Safe.attempt {m : Prog S ε α} {P : Except ε α → σ → Prop}
    {Q : Except ε (Except ε α) → σ → Prop} {s : σ} (h : Safe M Inv R Ok m P s)
    (hQ : ∀ r t, P r t → Q (.ok r) t) : Safe M Inv R Ok m.attempt Q s := by
  induction m generalizing s with
  | ret a => exact hQ _ s h
  | raise e => exact hQ _ s h
  | stuck => exact trivial
  | op o k ih => exact fun t hr hi => ⟨(h t hr hi).1, fun a => ih _ ((h t hr hi).2 a)⟩

/-- `attempt` with what follows it: both ways out go on -/
theorem Safe.attemptThen {m : Prog S ε α} {k : Except ε α → Prog S ε β}
    {P : Except ε α → σ → Prop} {Q : Except ε β → σ → Prop} {s : σ} (h : Safe M Inv R Ok m P s)
    (hk : ∀ x t, P x t → Safe M Inv R Ok (k x) Q t) : Safe M Inv R Ok (m.attempt.bind k) Q s := by
  refine Safe.bind (P := fun x t => match x with
    | .ok y => P y t
    | .error _ => False) (Safe.attempt h fun x t hx => hx) ?_ ?_
  · exact hk
  · exact fun e t he => he.elim

theorem Safe.ofExcept {r : Except ε α} {Q : Except ε α → σ → Prop} {s : σ} (h : Q r s) :
    Safe M Inv R Ok (Prog.ofExcept r) Q s := by
  cases r with
  | ok a => exact h
  | error e => exact h

/-- the rule of `finally_`: the outcome of the body is kept over the release -/
theorem Safe.finally_ {m : Prog S ε α} {f : Prog S ε Unit} {P Q : Except ε α → σ → Prop} {s : σ}
    (h : Safe M Inv R Ok m P s)
    (hf : ∀ r t, P r t → Safe M Inv R Ok f (fun x u => match x with
      | .ok _ => Q r u
      | .error e => Q (.error e) u) t) :
    Safe M Inv R Ok (m.finally_ f) Q s := by
  refine Safe.attemptThen h fun r t hr => Safe.bind (hf r t hr) ?_ ?_
  · exact fun _ u hu => Safe.ofExcept hu
  · exact fun e u hu => hu

/-- One operation under a stable fact `K`. -/
theorem Safe.op {o : S.Op} {k : S.Ans o → Prog S ε α} {Q : Except ε α → σ → Prop} {s : σ}
    (K : σ → Prop) (hst : Stable Inv R K) (hK : K s)
    (h : ∀ t, K t → Inv t → Ok t o ∧
      ∀ a, Safe M Inv R Ok (k (M.exec o a t).1) Q (M.exec o a t).2) :
    Safe M Inv R Ok (.op o k) Q s :=
  fun t hr hi => h t (hst s t hi hr hK) hi

/-- `call` under a stable fact `K` -/
theorem Safe.call {o : S.Op} {Q : Except ε (S.Ans o) → σ → Prop} {s : σ}
    (K : σ → Prop) (hst : Stable Inv R K) (hK : K s)
    (h : ∀ t, K t → Inv t → Ok t o ∧ ∀ a, Q (.ok (M.exec o a t).1) (M.exec o a t).2) :
    Safe M Inv R Ok (Prog.call o) Q s :=
  fun t hr hi => h t (hst s t hi hr hK) hi

/-- What others do to the state leaves a program safe. -/
theorem Safe.rely {m : Prog S ε α} {Q : Except ε α → σ → Prop} {s t : σ}
    (htrans : ∀ a b c, R a b → R b c → R a c) (hQ : ∀ x, Stable Inv R (Q x)) (hi : Inv t)
    (hr : R s t) (h : Safe M Inv R Ok m Q s) : Safe M Inv R Ok m Q t := by
  cases m with
  | ret a => exact hQ _ s t hi hr h
  | raise e => exact hQ _ s t hi hr h
  | stuck => exact trivial
  | op o k => exact fun u hr' hi' => h u (htrans s t u hr hr') hi'

/-- what holds when a value is returned -/
def Returns (Q : α → σ → Prop) (x : Except ε α) (s : σ) : Prop := ∀ a, x = .ok a → Q a s

/-- `bind` where nothing is said about exceptions -/
theorem Safe.andThen {m : Prog S ε α} {f : α → Prog S ε β} {P : Except ε α → σ → Prop}
    {Q : β → σ → Prop} {s : σ} (h : Safe M Inv R Ok m P s)
    (hok : ∀ a t, P (.ok a) t → Safe M Inv R Ok (f a) (Returns Q) t) :
    Safe M Inv R Ok (m.bind f) (Returns Q) s :=
  Safe.bind h hok fun _ _ _ _ ha => nomatch ha

/-- A program all of whose operations are allowed under `K` and keep it is safe. -/
theorem Safe.of_all {P : S.Op → Prop} {V : α → Prop} {E : ε → Prop} {K : σ → Prop}
    (hst : Stable Inv R K)
    (hop : ∀ t o, P o → K t → Inv t → Ok t o ∧ ∀ a, K (M.exec o a t).2) {m : Prog S ε α}
    (h : m.All P V E) {s : σ} (hK : K s) :
    Safe M Inv R Ok m (fun r t => K t ∧ (∀ a, r = .ok a → V a) ∧ ∀ e, r = .error e → E e) s := by
  induction m generalizing s with
  | ret a => exact ⟨hK, fun b hb => by cases hb; exact h, fun e he => (nomatch he)⟩
  | raise e => exact ⟨hK, fun b hb => (nomatch hb), fun e he => by cases he; exact h⟩
  | stuck => exact trivial
  | op o k ih =>
    intro t hr hi
    obtain ⟨hok, hk⟩ := hop t o h.1 (hst s t hi hr hK) hi
    exact ⟨hok, fun a => ih _ (h.2 _) (hk a)⟩

/-- A safe program keeps the invariant in every state of every run of its own, and ends as it
should. -/
theorem Safe.run (hrefl : ∀ s, R s s)
    (hstep : ∀ s o a, Inv s → Ok s o → Inv (M.exec o a s).2) (env : Env S) :
    ∀ (n : Nat) (m : Prog S ε α) (Q : Except ε α → σ → Prop) (s : σ), Inv s →
      Safe M Inv R Ok m Q s →
      Inv (Effect.run M env n m s).2 ∧
      (∀ a, (Effect.run M env n m s).1 = .returned a → Q (.ok a) (Effect.run M env n m s).2) ∧
      (∀ e, (Effect.run M env n m s).1 = .raised e → Q (.error e) (Effect.run M env n m s).2) := by
  intro n m
  induction m generalizing n with
  | ret a =>
    intro Q s hi h
    have e : Effect.run M env n (.ret a : Prog S ε α) s = (.returned a, s) := by cases n <;> rfl
    rw [e]
    exact ⟨hi, fun b hb => by cases hb; exact h, fun b hb => (nomatch hb)⟩
  | raise e =>
    intro Q s hi h
    have e' : Effect.run M env n (.raise e : Prog S ε α) s = (.raised e, s) := by cases n <;> rfl
    rw [e']
    exact ⟨hi, fun b hb => (nomatch hb), fun b hb => by cases hb; exact h⟩
  | stuck =>
    intro Q s hi _
    have e : Effect.run M env n (.stuck : Prog S ε α) s = (.died, s) := by cases n <;> rfl
    rw [e]
    exact ⟨hi, fun b hb => (nomatch hb), fun b hb => (nomatch hb)⟩
  | op o k ih =>
    intro Q s hi h
    cases n with
    | zero => exact ⟨hi, fun b hb => (nomatch hb), fun b hb => (nomatch hb)⟩
    | succ n =>
      obtain ⟨hok, hk⟩ := h s (hrefl s) hi
      exact ih _ n Q _ (hstep s o (env n o) hi hok) (hk (env n o))

end Safe

/-! ## total correctness -/

section Ends
variable {S : Sig} {σ ε α β : Type} (M : Machine S σ)
variable (Inv : σ → Prop) (R : σ → σ → Prop) (Ok : σ → S.Op → Prop)
variable (D : (o : S.Op) → S.Ask o → Prop)

/-- Like `Safe`, where the environment decides within `D` only and the program must not get
stuck. -/
def Ends : Prog S ε α → (Except ε α → σ → Prop) → σ → Prop
  | .ret a, Q, s => Q (.ok a) s
  | .raise e, Q, s => Q (.error e) s
  | .stuck, _, _ => False
  | .op o k, Q, s => ∀ t, R s t → Inv t →
      Ok t o ∧ ∀ a, D o a → Ends (k (M.exec o a t).1) Q (M.exec o a t).2

/-- a value that satisfies `Q`, or an exception that satisfies `E` -/
def Yields (E : ε → Prop) (Q : α → σ → Prop) : Except ε α → σ → Prop
  | .ok a, s => Q a s
  | .error e, _ => E e

variable {M Inv R Ok D}

theorem Yields.imp {E E' : ε → Prop} {Q Q' : α → σ → Prop} (hE : ∀ e, E e → E' e)
    (hQ : ∀ a s, Q a s → Q' a s) (x : Except ε α) (s : σ) (h : Yields E Q x s) :
    Yields E' Q' x s := by
  cases x with
  | ok a => exact hQ a s h
  | error e => exact hE e h

theorem Ends.mono {m : Prog S ε α} {Q Q' : Except ε α → σ → Prop} {s : σ}
    (h : Ends M Inv R Ok D m Q s) (hQ : ∀ r t, Q r t → Q' r t) : Ends M Inv R Ok D m Q' s := by
  induction m generalizing s with
  | ret a => exact hQ _ _ h
  | raise e => exact hQ _ _ h
  | stuck => exact h
  | op o k ih => exact fun t hr hi => ⟨(h t hr hi).1, fun a ha => ih _ ((h t hr hi).2 a ha)⟩

theorem Ends.bind {m : Prog S ε α} {f : α → Prog S ε β} {P : Except ε α → σ → Prop}
    {Q : Except ε β → σ → Prop} {s : σ} (h : Ends M Inv R Ok D m P s)
    (hok : ∀ a t, P (.ok a) t → Ends M Inv R Ok D (f a) Q t)
    (herr : ∀ e t, P (.error e) t → Q (.error e) t) : Ends M Inv R Ok D (m.bind f) Q s := by
  induction m generalizing s with
  | ret a => exact hok a s h
  | raise e => exact herr e s h
  | stuck => exact h
  | op o k ih => exact fun t hr hi => ⟨(h t hr hi).1, fun a ha => ih _ ((h t hr hi).2 a ha)⟩

/-- `bind` with the same exceptions on both sides -/
theorem Ends.andThen {m : Prog S ε α} {f : α → Prog S ε β} {E : ε → Prop} {P : α → σ → Prop}
    {Q : β → σ → Prop} {s : σ} (h : Ends M Inv R Ok D m (Yields E P) s)
    (hok : ∀ a t, P a t → Ends M Inv R Ok D (f a) (Yields E Q) t) :
    Ends M Inv R Ok D (m.bind f) (Yields E Q) s :=
  Ends.bind h hok fun _ _ he => he

theorem Ends.attemptThen {m : Prog S ε α} {k : Except ε α → Prog S ε β}
    {P : Except ε α → σ → Prop} {Q : Except ε β → σ → Prop} {s : σ}
    (h : Ends M Inv R Ok D m P s) (hk : ∀ x t, P x t → Ends M Inv R Ok D (k x) Q t) :
    Ends M Inv R Ok D (m.attempt.bind k) Q s := by
  induction m generalizing s with
  | ret a => exact hk _ s h
  | raise e => exact hk _ s h
  | stuck => exact h
  | op o k ih => exact fun t hr hi => ⟨(h t hr hi).1, fun a ha => ih _ ((h t hr hi).2 a ha)⟩

theorem Ends.ofExcept {r : Except ε α} {Q : Except ε α → σ → Prop} {s : σ} (h : Q r s) :
    Ends M Inv R Ok D (Prog.ofExcept r) Q s := by
  cases r with
  | ok a => exact h
  | error e => exact h

theorem Ends.finally_ {m : Prog S ε α} {f : Prog S ε Unit} {P Q : Except ε α → σ → Prop} {s : σ}
    (h : Ends M Inv R Ok D m P s)
    (hf : ∀ r t, P r t → Ends M Inv R Ok D f (fun x u => match x with
      | .ok _ => Q r u
      | .error e => Q (.error e) u) t) :
    Ends M Inv R Ok D (m.finally_ f) Q s := by
  refine Ends.attemptThen h fun r t hr => Ends.bind (hf r t hr) ?_ ?_
  · exact fun _ u hu => Ends.ofExcept hu
  · exact fun e u hu => hu

/-- a program that ends as it should is safe -/
theorem Ends.safe {m : Prog S ε α} {Q : Except ε α → σ → Prop} {s : σ} (hD : ∀ o a, D o a)
    (h : Ends M Inv R Ok D m Q s) : Safe M Inv R Ok m Q s := by
  induction m generalizing s with
  | ret a => exact h
  | raise e => exact h
  | stuck => trivial
  | op o k ih => exact fun t hr hi => ⟨(h t hr hi).1, fun a => ih _ ((h t hr hi).2 a (hD o a))⟩

theorem Ends.rely {m : Prog S ε α} {Q : Except ε α → σ → Prop} {s t : σ}
    (htrans : ∀ a b c, R a b → R b c → R a c) (hQ : ∀ x, Stable Inv R (Q x)) (hi : Inv t)
    (hr : R s t) (h : Ends M Inv R Ok D m Q s) : Ends M Inv R Ok D m Q t := by
  cases m with
  | ret a => exact hQ _ s t hi hr h
  | raise e => exact hQ _ s t hi hr h
  | stuck => exact h
  | op o k => exact fun u hr' hi' => h u (htrans s t u hr hr') hi'

/-- how a run ends that does end -/
def Outcome.of : Except ε α → Outcome ε α
  | .ok a => .returned a
  | .error e => .raised e

/-- the run only looks at the decisions up to its bound -/
theorem run_congr {env env' : Env S} : ∀ {n : Nat} {m : Prog S ε α} {s : σ},
    (∀ i < n, env i = env' i) → Effect.run M env n m s = Effect.run M env' n m s := by
  intro n m
  induction m generalizing n with
  | ret a => intro s _; cases n <;> rfl
  | raise e => intro s _; cases n <;> rfl
  | stuck => intro s _; cases n <;> rfl
  | op o k ih =>
    intro s h
    cases n with
    | zero => rfl
    | succ n =>
      simp only [Effect.run]
      rw [h n (Nat.lt_succ_self n)]
      exact ih _ fun i hi => h i (Nat.lt_succ_of_lt hi)

/-- **A run comes to its end**, once it may do enough operations; `env i` decides about the `i`-th
operation. -/
theorem Ends.run (hrefl : ∀ s, R s s)
    (hstep : ∀ s o a, Inv s → Ok s o → Inv (M.exec o a s).2) {m : Prog S ε α}
    {Q : Except ε α → σ → Prop} {s : σ} (hi : Inv s) (h : Ends M Inv R Ok D m Q s)
    {e : Env S} (henv : ∀ i o, D o (e i o)) :
    ∃ N, ∃ x t, Q x t ∧
      ∀ n, N ≤ n → Effect.run M (fun i => e (n - i)) n m s = (Outcome.of x, t) := by
  induction m generalizing s e with
  | ret a => exact ⟨0, .ok a, s, h, fun n _ => by cases n <;> rfl⟩
  | raise x => exact ⟨0, .error x, s, h, fun n _ => by cases n <;> rfl⟩
  | stuck => exact h.elim
  | op o k ih =>
    obtain ⟨hok, hk⟩ := h s (hrefl s) hi
    obtain ⟨N, x, t, hQ, hrun⟩ := ih _ (hstep s o (e 1 o) hi hok) (hk (e 1 o) (henv 1 o))
      (e := fun i => e (i + 1)) fun i o => henv (i + 1) o
    refine ⟨N + 1, x, t, hQ, fun n hn => ?_⟩
    obtain ⟨n, rfl⟩ : ∃ n', n = n' + 1 := ⟨n - 1, by omega⟩
    have hfirst : n + 1 - n = 1 := by omega
    simp only [Effect.run, hfirst]
    rw [← hrun n (by omega)]
    refine run_congr fun i hi => ?_
    have hindex : n + 1 - i = n - i + 1 := by omega
    rw [hindex]

end Ends

/-! ## processes that share a state -/

section Sys
variable {S : Sig} {σ ε α κ : Type}

/-- a process: the call it serves, the state it was started in, what it still has to do and what it
did, with the decisions of the environment -/
structure Proc (S : Sig) (σ ε α κ : Type) where
  call : κ
  start : σ
  prog : Prog S ε α
  log : List ((o : S.Op) × S.Ask o)

/-- the shared state and the processes; a process that died is `none` again, its number is not
used a second time (`used`) -/
structure Sys (S : Sig) (σ ε α κ : Type) where
  shared : σ
  procs : Nat → Option (Proc S σ ε α κ)
  used : List Nat

variable (M : Nat → Machine S σ) (crash : Nat → σ → σ) (prog : κ → Prog S ε α)

inductive Sys.Step : Sys S σ ε α κ → Sys S σ ε α κ → Prop where
  | spawn (w : Sys S σ ε α κ) (p : Nat) (c : κ) (hp : p ∉ w.used) :
      Sys.Step w ⟨w.shared, Function.update w.procs p (some ⟨c, w.shared, prog c, []⟩), p :: w.used⟩
  | step (w : Sys S σ ε α κ) (p : Nat) (q : Proc S σ ε α κ) (o : S.Op)
      (k : S.Ans o → Prog S ε α) (hq : w.procs p = some q) (ho : q.prog = .op o k)
      (a : S.Ask o) :
      Sys.Step w ⟨((M p).exec o a w.shared).2,
        Function.update w.procs p
          (some ⟨q.call, q.start, k ((M p).exec o a w.shared).1, ⟨o, a⟩ :: q.log⟩), w.used⟩
  | crash (w : Sys S σ ε α κ) (p : Nat) :
      Sys.Step w ⟨crash p w.shared, Function.update w.procs p none, w.used⟩

/-- the system states that runs from `s` can lead to -/
inductive Sys.Reach (s : σ) : Sys S σ ε α κ → Prop where
  | start : Sys.Reach s ⟨s, fun _ => none, []⟩
  | step {w w' : Sys S σ ε α κ} : Sys.Reach s w → Sys.Step M crash prog w w' → Sys.Reach s w'

variable {M crash prog}

/-- a process may run on alone -/
theorem Sys.Reach.run {s : σ} (env : Env S) : ∀ (n : Nat) {w : Sys S σ ε α κ} {p : Nat}
    {q : Proc S σ ε α κ}, Sys.Reach M crash prog s w → w.procs p = some q →
    ∃ w' q', Sys.Reach M crash prog s w' ∧ w'.used = w.used ∧ w'.procs p = some q' ∧
      q'.call = q.call ∧ q'.start = q.start ∧
      w'.shared = (Effect.run (M p) env n q.prog w.shared).2 ∧
      ∀ e, (Effect.run (M p) env n q.prog w.shared).1 = .raised e → q'.prog = .raise e := by
  intro n
  induction n with
  | zero =>
    intro w p q h hq
    cases hprog : q.prog with
    | raise e => exact ⟨w, q, h, rfl, hq, rfl, rfl, rfl, fun e' he => by cases he; exact hprog⟩
    | _ => exact ⟨w, q, h, rfl, hq, rfl, rfl, rfl, fun e he => nomatch he⟩
  | succ n ih =>
    intro w p q h hq
    cases hprog : q.prog with
    | op o k => exact ih (.step h (.step w p q o k hq hprog (env n o))) (Function.update_self ..)
    | raise e => exact ⟨w, q, h, rfl, hq, rfl, rfl, rfl, fun e' he => by cases he; exact hprog⟩
    | _ => exact ⟨w, q, h, rfl, hq, rfl, rfl, rfl, fun e he => nomatch he⟩

/-- one decision of a scheduler; what the environment decides comes with the step -/
inductive Move (S : Sig) (κ : Type) where
  | spawn (p : Nat) (c : κ)
  | step (p : Nat) (env : (o : S.Op) → S.Ask o)

/-- the system state that the moves lead to, if all of them can be made -/
def Sys.play (M : Nat → Machine S σ) (prog : κ → Prog S ε α) :
    List (Move S κ) → Sys S σ ε α κ → Option (Sys S σ ε α κ)
  | [], w => some w
  | .spawn p c :: rest, w =>
    if p ∈ w.used then none
    else play M prog rest
      ⟨w.shared, Function.update w.procs p (some ⟨c, w.shared, prog c, []⟩), p :: w.used⟩
  | .step p env :: rest, w => match w.procs p with
    | some ⟨c, start, .op o k, log⟩ =>
      play M prog rest ⟨((M p).exec o (env o) w.shared).2,
        Function.update w.procs p
          (some ⟨c, start, k ((M p).exec o (env o) w.shared).1, ⟨o, env o⟩ :: log⟩), w.used⟩
    | _ => none

/-- what a scheduler leads to can be reached -/
theorem Sys.Reach.play {s : σ} (moves : List (Move S κ)) {w w' : Sys S σ ε α κ}
    (h : Sys.Reach M crash prog s w) (hw : Sys.play M prog moves w = some w') :
    Sys.Reach M crash prog s w' := by
  induction moves generalizing w with
  | nil => cases hw; exact h
  | cons m moves ih =>
    cases m with
    | spawn p c =>
      simp only [Sys.play] at hw
      split at hw
      · cases hw
      · rename_i hp
        exact ih (.step h (.spawn w p c hp)) hw
    | step p env =>
      simp only [Sys.play] at hw
      split at hw
      · rename_i c start o k log hq
        exact ih (.step h (.step w p _ o k hq rfl (env o))) hw
      · cases hw

/-- **Induction over whole runs.**  `H p q s` is what is known of the process `q` with number `p`
when the shared state is `s`: it holds when the process starts, its own steps keep the invariant and
`H`, and the steps `G` of the others keep `H`. -/
theorem Sys.Reach.inv {I : σ → Prop} {G : Nat → σ → σ → Prop}
    {H : Nat → Proc S σ ε α κ → σ → Prop} {s : σ} (h0 : I s)
    (hspawn : ∀ p c s, I s → H p ⟨c, s, prog c, []⟩ s)
    (hstep : ∀ p q s o k a, I s → H p q s → q.prog = .op o k →
      I ((M p).exec o a s).2 ∧ G p s ((M p).exec o a s).2 ∧
      H p ⟨q.call, q.start, k ((M p).exec o a s).1, ⟨o, a⟩ :: q.log⟩ ((M p).exec o a s).2)
    (hcrash : ∀ p s, I s → I (crash p s) ∧ G p s (crash p s))
    (hrely : ∀ p p' q s t, p ≠ p' → I s → I t → G p' s t → H p q s → H p q t)
    {w : Sys S σ ε α κ} (h : Sys.Reach M crash prog s w) :
    I w.shared ∧ ∀ p q, w.procs p = some q → H p q w.shared := by
  induction h with
  | start => exact ⟨h0, fun p q hq => (nomatch hq)⟩
  | step _ hs ih =>
    obtain ⟨hi, hg⟩ := ih
    cases hs with
    | spawn p c hp =>
      refine ⟨hi, fun p' q hq => ?_⟩
      by_cases e : p' = p
      · subst e
        simp only [Function.update_self] at hq
        cases hq
        exact hspawn p' c _ hi
      · simp only [Function.update_of_ne e] at hq
        exact hg p' q hq
    | step p q o k hq ho a =>
      obtain ⟨hi', hG, hown⟩ := hstep p q _ o k a hi (hg p q hq) ho
      refine ⟨hi', fun p' q' hq' => ?_⟩
      by_cases e : p' = p
      · subst e
        simp only [Function.update_self] at hq'
        cases hq'
        exact hown
      · simp only [Function.update_of_ne e] at hq'
        exact hrely p' p q' _ _ e hi hi' hG (hg p' q' hq')
    | crash p =>
      obtain ⟨hi', hG⟩ := hcrash p _ hi
      refine ⟨hi', fun p' q' hq' => ?_⟩
      by_cases e : p' = p
      · subst e
        simp only [Function.update_self] at hq'
        exact (nomatch hq')
      · simp only [Function.update_of_ne e] at hq'
        exact hrely p' p q' _ _ e hi hi' hG (hg p' q' hq')

end Sys

end Effect
