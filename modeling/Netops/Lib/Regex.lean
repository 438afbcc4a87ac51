import Mathlib.Data.List.Infix

/-!
# Regular expressions and hiding parts of a text

Expressions as a backtracking matcher tries them: the ways to match are listed in the order in which
they are tried, each with what is left of the text.

* `Regex.run`     the ways to match at the start of a text;
* `substitute`    replaces what an expression matches, from left to right, and keeps what the first
                  part of it matched;
* `replaceAll`    the same for a fixed text;
* `Masked m s t`  `t` is `s` with some parts replaced by `m`.  A text that has nothing in common with
                  `m` cannot appear by that: `Masked.appears_of_appears`.
-/

inductive Regex (α : Type) where
  | empty
  | char (accepts : α → Bool)
  | seq (r s : Regex α)
  | alt (r s : Regex α)
  | star (r : Regex α)
  /-- at the start of the text, or after such a character -/
  | after (accepts : α → Bool)
  /-- what follows matches, and is not consumed -/
  | ahead (r : Regex α)
  /-- as few times as possible -/
  | lazy (r : Regex α)
  /-- what follows does not match -/
  | unless (r : Regex α)

namespace Regex

variable {α : Type}

/-- the character before, and the text that is left -/
abbrev Cursor (α : Type) := Option α × List α

/-- greedy repetition; every round consumes something, and `n` bounds the rounds -/
def repeatRun (run : Cursor α → List (Cursor α)) : Nat → Cursor α → List (Cursor α)
  | 0, c => [c]
  | n+1, c => ((run c).filter fun d => d.2.length < c.2.length).flatMap (repeatRun run n) ++ [c]

/-- the same, with the fewest rounds first -/
def lazyRun (run : Cursor α → List (Cursor α)) : Nat → Cursor α → List (Cursor α)
  | 0, c => [c]
  | n+1, c => c :: ((run c).filter fun d => d.2.length < c.2.length).flatMap (lazyRun run n)

def run : Regex α → Cursor α → List (Cursor α)
  | .empty, c => [c]
  | .char accepts, (_, x :: xs) => if accepts x then [(some x, xs)] else []
  | .char _, (_, []) => []
  | .seq r s, c => (run r c).flatMap (run s)
  | .alt r s, c => run r c ++ run s c
  | .star r, c => repeatRun (run r) c.2.length c
  | .after accepts, c => if c.1.all accepts then [c] else []
  | .ahead r, c => if (run r c).isEmpty then [] else [c]
  | .lazy r, c => lazyRun (run r) c.2.length c
  | .unless r, c => if (run r c).isEmpty then [c] else []

/-- the characters one by one -/
def word (cs : List (α → Bool)) : Regex α := cs.foldr (fun p r => .seq (.char p) r) .empty

def oneOf (rs : List (Regex α)) : Regex α :=
  match rs with
  | [] => .char fun _ => false
  | r :: rs => rs.foldl .alt r

def plus (r : Regex α) : Regex α := .seq r (.star r)

def maybe (r : Regex α) : Regex α := .alt r .empty

/-- the end of the text -/
def atEnd : Regex α := .unless (.char fun _ => true)

/-- exactly `n` times -/
def times (r : Regex α) : Nat → Regex α
  | 0 => .empty
  | n+1 => .seq r (times r n)

/-- at most `n` times -/
def upTo (r : Regex α) : Nat → Regex α
  | 0 => .empty
  | n+1 => maybe (.seq r (upTo r n))

/-- `fullmatch` -/
def fullMatch (r : Regex α) (text : List α) : Bool :=
  (run r (none, text)).any fun c => c.2.isEmpty

/-- `match` -/
def matchesStart (r : Regex α) (text : List α) : Bool := !(run r (none, text)).isEmpty

/-- `fullmatch` of some parts, one after the other: what each of them takes -/
def parts : List (Regex α) → Cursor α → Option (List (List α))
  | [], c => if c.2.isEmpty then some [] else none
  | r :: rs, c => (run r c).findSome? fun d =>
    (parts rs d).map fun found => c.2.take (c.2.length - d.2.length) :: found

/-- a match at the start of the text: how many characters it takes -/
def matchLength (r : Regex α) (c : Cursor α) : Option Nat :=
  (run r c).head?.map fun d => c.2.length - d.2.length

/-- the first place from which the expression matches: what is before it, and how long the match is -/
def search (r : Regex α) : Option α → List α → Option (Nat × Nat)
  | prev, [] => (matchLength r (prev, [])).map fun n => (0, n)
  | prev, x :: xs =>
    match matchLength r (prev, x :: xs) with
    | some n => some (0, n)
    | none => (search r (some x) xs).map fun found => (found.1 + 1, found.2)

/-- the text has a match -/
def occursIn (r : Regex α) (text : List α) : Bool := (search r none text).isSome

/-- the first way in which `kept` and then `hidden` match: how many characters each of them takes -/
def matchParts (kept hidden : Regex α) (c : Cursor α) : Option (Nat × Nat) :=
  (run kept c).findSome? fun d =>
    (matchLength hidden d).map fun n => (c.2.length - d.2.length, n)

/-- `pattern.sub`; `n` bounds the length of the text.  An empty match is passed over. -/
def substitute (kept hidden : Regex α) (marker : List α) : Nat → Option α → List α → List α
  | 0, _, text => text
  | _+1, _, [] => []
  | n+1, prev, x :: xs =>
    match matchParts kept hidden (prev, x :: xs) with
    | some (k, m) =>
      if k + m = 0 then x :: substitute kept hidden marker n (some x) xs
      else
        (x :: xs).take k ++ marker
          ++ substitute kept hidden marker n ((x :: xs).take (k + m)).getLast? ((x :: xs).drop (k + m))
    | none => x :: substitute kept hidden marker n (some x) xs

/-- the same, but a match is left as it is where `spare` says so of the text before it (from its end),
the match and the text after it -/
def substituteSparing (kept hidden : Regex α) (marker : List α)
    (spare : List α → List α → List α → Bool) : Nat → List α → List α → List α
  | 0, _, text => text
  | _+1, _, [] => []
  | n+1, before, x :: xs =>
    match matchParts kept hidden (before.head?, x :: xs) with
    | some (k, m) =>
      if k + m = 0 then x :: substituteSparing kept hidden marker spare n (x :: before) xs
      else
        let found := (x :: xs).take (k + m)
        let rest := (x :: xs).drop (k + m)
        (if spare before found rest then found else (x :: xs).take k ++ marker)
          ++ substituteSparing kept hidden marker spare n (found.reverse ++ before) rest
    | none => x :: substituteSparing kept hidden marker spare n (x :: before) xs

end Regex

section
variable {α : Type} [DecidableEq α]

/-- `text.replace(old, new)` for a nonempty `old`; `n` bounds the length of the text -/
def replaceFrom (old new : List α) : Nat → List α → List α
  | 0, text => text
  | _+1, [] => []
  | n+1, x :: xs =>
    if old.isPrefixOf (x :: xs) then new ++ replaceFrom old new n ((x :: xs).drop old.length)
    else x :: replaceFrom old new n xs

def replaceAll (old new text : List α) : List α := replaceFrom old new text.length text

end

/-! ## hiding parts of a text -/

section
variable {α : Type}

/-- `t` is `s` with some parts replaced by `m` -/
inductive Masked (m : List α) : List α → List α → Prop
  | nil : Masked m [] []
  | keep {s t : List α} (x : α) (h : Masked m s t) : Masked m (x :: s) (x :: t)
  | hide {s t : List α} (part : List α) (h : Masked m s t) : Masked m (part ++ s) (m ++ t)

/-- nothing that may stand over the edge of `m` -/
def Apart (s m : List α) : Prop :=
  (∀ x ∈ s.tails, x = [] ∨ ¬x <+: m ∧ ¬m <+: x) ∧ ∀ x ∈ m.tails, x = [] ∨ ¬x <+: s ∧ ¬s <+: x

instance [DecidableEq α] (s m : List α) : Decidable (Apart s m) := by
  unfold Apart
  infer_instance

namespace Masked

variable {m s t secret : List α}

theorem refl (m s : List α) : Masked m s s := by
  induction s with
  | nil => exact .nil
  | cons x s ih => exact .keep x ih

theorem append {s' t' : List α} (h : Masked m s t) (h' : Masked m s' t') :
    Masked m (s ++ s') (t ++ t') := by
  induction h with
  | nil => exact h'
  | keep x _ ih => exact .keep x ih
  | hide part _ ih =>
    rw [List.append_assoc, List.append_assoc]
    exact .hide part ih

theorem mask (part : List α) : Masked m part m := by
  have h : Masked m (part ++ []) (m ++ []) := .hide part .nil
  rwa [List.append_nil, List.append_nil] at h

theorem prefix_cases {x y z : List α} (h : x <+: y ++ z) : x <+: y ∨ y <+: x :=
  List.prefix_or_prefix_of_prefix h (List.prefix_append y z)

/-- there is no room for `m` in a shorter text -/
theorem eq_of_length_lt (h : Masked m s t) (hlt : t.length < m.length) : s = t := by
  induction h with
  | nil => rfl
  | keep x h ih =>
    rw [ih ((Nat.lt_succ_self _).trans hlt)]
  | hide part h ih =>
    rw [List.length_append] at hlt
    omega

/-- an end of the secret at the start of the text was there before -/
theorem starts_of_starts (ha : Apart secret m) (h : Masked m s t) :
    ∀ x, x <:+ secret → x <+: t → x <+: s := by
  induction h with
  | nil => exact fun x _ hx => hx
  | keep c h ih =>
    intro x hs hx
    cases x with
    | nil => exact List.nil_prefix
    | cons y x =>
      obtain ⟨rfl, htail⟩ := List.cons_prefix_cons.1 hx
      exact List.cons_prefix_cons.2 ⟨rfl, ih x ((List.suffix_cons y x).trans hs) htail⟩
  | hide part h ih =>
    intro x hs hx
    rcases ha.1 x ((List.mem_tails x secret).2 hs) with rfl | ⟨h1, h2⟩
    · exact List.nil_prefix
    · rcases prefix_cases hx with hx | hx
      · exact absurd hx h1
      · exact absurd hx h2

/-- a secret in `m ++ t` is one in `t`: it stands neither in `m` nor over its end -/
theorem infix_of_append (ha : Apart secret m) :
    ∀ e, e <:+ m → secret <:+: e ++ t → secret <:+: t := by
  intro e
  induction e with
  | nil => exact fun _ h => h
  | cons y e ih =>
    intro hs h
    rcases List.infix_cons_iff.1 h with h | h
    · rcases ha.2 (y :: e) ((List.mem_tails _ _).2 hs) with he | ⟨h1, h2⟩
      · exact nomatch he
      · rcases prefix_cases (y := y :: e) h with h | h
        · exact absurd h h2
        · exact absurd h h1
    · exact ih ((List.suffix_cons y e).trans hs) h

/-- a secret that has nothing in common with `m` was there before -/
theorem appears_of_appears (ha : Apart secret m) (h : Masked m s t) (ht : secret <:+: t) :
    secret <:+: s := by
  induction h with
  | nil => exact ht
  | keep x h ih =>
    rcases List.infix_cons_iff.1 ht with hp | hi
    · exact (starts_of_starts ha (.keep x h) secret (List.suffix_refl _) hp).isInfix
    · exact List.infix_cons_iff.2 (.inr (ih hi))
  | hide part h ih =>
    have hrest := ih (infix_of_append ha m (List.suffix_refl _) ht)
    exact hrest.trans (List.suffix_append _ _).isInfix

end Masked

/-! ## the operations hide parts -/

theorem masked_substitute (kept hidden : Regex α) (m : List α) :
    ∀ (n : Nat) (prev : Option α) (text : List α),
      Masked m text (Regex.substitute kept hidden m n prev text) := by
  intro n
  induction n with
  | zero => exact fun prev text => .refl m text
  | succ n ih =>
    intro prev text
    cases text with
    | nil => exact .nil
    | cons x xs =>
      rw [Regex.substitute]
      split
      · next k l h =>
        split
        · exact .keep x (ih _ _)
        · have hsplit : (x :: xs)
              = (x :: xs).take k ++ (((x :: xs).drop k).take l ++ (x :: xs).drop (k + l)) := by
            rw [← List.drop_drop, List.take_append_drop, List.take_append_drop]
          have hrest : Masked m (((x :: xs).drop k).take l ++ (x :: xs).drop (k + l))
              (m ++ Regex.substitute kept hidden m n ((x :: xs).take (k + l)).getLast?
                ((x :: xs).drop (k + l))) := .hide _ (ih _ _)
          rw [List.append_assoc]
          conv => enter [2]; rw [hsplit]
          exact (Masked.refl m _).append hrest
      · exact .keep x (ih _ _)

theorem masked_substituteSparing (kept hidden : Regex α) (m : List α)
    (spare : List α → List α → List α → Bool) :
    ∀ (n : Nat) (before text : List α),
      Masked m text (Regex.substituteSparing kept hidden m spare n before text) := by
  intro n
  induction n with
  | zero => exact fun before text => .refl m text
  | succ n ih =>
    intro before text
    cases text with
    | nil => exact .nil
    | cons x xs =>
      rw [Regex.substituteSparing]
      split
      · next k l h =>
        split
        · exact .keep x (ih _ _)
        · have hfound : Masked m ((x :: xs).take (k + l))
              (if spare before ((x :: xs).take (k + l)) ((x :: xs).drop (k + l))
                then (x :: xs).take (k + l) else (x :: xs).take k ++ m) := by
            split
            · exact .refl m _
            · rw [List.take_add]
              exact (Masked.refl m _).append (.mask _)
          have hall := hfound.append
            (ih (((x :: xs).take (k + l)).reverse ++ before) ((x :: xs).drop (k + l)))
          rwa [List.take_append_drop] at hall
      · exact .keep x (ih _ _)

section
variable [DecidableEq α]

theorem masked_replaceFrom (old m : List α) : ∀ (n : Nat) (text : List α),
    Masked m text (replaceFrom old m n text) := by
  intro n
  induction n with
  | zero => exact fun text => .refl m text
  | succ n ih =>
    intro text
    cases text with
    | nil => exact .nil
    | cons x xs =>
      rw [replaceFrom]
      split
      · have h := Masked.hide (m := m) ((x :: xs).take old.length) (ih ((x :: xs).drop old.length))
        rwa [List.take_append_drop] at h
      · exact .keep x (ih xs)

/-- what is replaced is gone -/
theorem not_infix_replaceFrom {old m : List α} (ha : Apart old m) (hne : old ≠ []) :
    ∀ (n : Nat) (text : List α), text.length ≤ n → ¬old <:+: replaceFrom old m n text := by
  intro n
  induction n with
  | zero =>
    intro text hn h
    obtain rfl := List.length_eq_zero_iff.1 (Nat.le_zero.1 hn)
    exact hne (List.infix_nil.1 h)
  | succ n ih =>
    intro text hn
    cases text with
    | nil => exact fun h => hne (List.infix_nil.1 h)
    | cons x xs =>
      rw [replaceFrom]
      split
      · intro h
        refine ih ((x :: xs).drop old.length) ?_ (Masked.infix_of_append ha m (List.suffix_refl _) h)
        have hpos := List.length_pos_of_ne_nil hne
        rw [List.length_drop]
        omega
      · next hp =>
        intro h
        rcases List.infix_cons_iff.1 h with h | h
        · have hmask : Masked m (x :: xs) (x :: replaceFrom old m n xs) :=
            .keep x (masked_replaceFrom old m n xs)
          exact hp (List.isPrefixOf_iff_prefix.2
            (hmask.starts_of_starts ha old (List.suffix_refl _) h))
        · exact ih xs (Nat.le_of_succ_le_succ hn) h

theorem masked_replaceAll (old m text : List α) : Masked m text (replaceAll old m text) :=
  masked_replaceFrom old m _ text

theorem not_infix_replaceAll {old m : List α} (ha : Apart old m) (hne : old ≠ []) (text : List α) :
    ¬old <:+: replaceAll old m text := not_infix_replaceFrom ha hne _ text (Nat.le_refl _)

end

end
