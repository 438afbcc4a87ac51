import Mathlib.Data.List.Infix

/-!
# Deleting delimiters from a stream

A stream comes in chunks, and delimiters are to be deleted from it.  A chunk may end inside of a
delimiter, so what may be the beginning of one is held back until more of the stream is there.

* `Delimiter`   where a delimiter starts, and what may be the beginning of one;
* `cut`         the texts between the delimiters, leftmost first, as for a stream that is there at once;
* `held`        the longest suffix that may be the beginning of a delimiter;
* `settle`      what is passed on and what is held back, in one pass from left to right;
* `settle_append`   it does not matter where a stream is cut;
* `settle_eq`       the pass gives what is left of the last text, after all the others.
-/

namespace Netops.Holdback

variable {α : Type}

structure Delimiter (α : Type) where
  /-- the length of the delimiter at the start of a text -/
  matchAt : List α → Option Nat
  /-- the text may be the beginning of a delimiter, but is none -/
  begun : List α → Bool

/-- a delimiter is known by its own characters, and its beginnings are begun -/
structure Delimiter.Lawful (d : Delimiter α) : Prop where
  pos : ∀ {s n}, d.matchAt s = some n → 0 < n ∧ n ≤ s.length
  extend : ∀ {s n} (t : List α), d.matchAt s = some n → d.matchAt (s ++ t) = some n
  inside : ∀ {s t n}, d.matchAt (s ++ t) = some n → n ≤ s.length → d.matchAt s = some n
  across : ∀ {s t n}, d.matchAt (s ++ t) = some n → s ≠ [] → s.length < n → d.begun s = true
  begun_left : ∀ {s t}, d.begun (s ++ t) = true → s ≠ [] → d.begun s = true
  begun_right : ∀ {s t}, d.begun (s ++ t) = true → d.matchAt t = none
  begun_nil : d.begun [] = false

section
variable (d : Delimiter α)

/-- the texts between the delimiters -/
def cut (s : List α) : List (List α) :=
  match s with
  | [] => [[]]
  | c :: rest =>
    match d.matchAt (c :: rest) with
    | some n => [] :: cut (rest.drop (n - 1))
    | none =>
      match cut rest with
      | [] => [[c]]
      | piece :: pieces => (c :: piece) :: pieces
termination_by s.length
decreasing_by all_goals grind

/-- the longest suffix that may be the beginning of a delimiter -/
def held : List α → List α
  | [] => []
  | c :: rest => if d.begun (c :: rest) then c :: rest else held rest

example : held d [] = [] := by rw [held]

/-- what is passed on, and what is held back -/
def settle (s : List α) : List α × List α :=
  match s with
  | [] => ([], [])
  | c :: rest =>
    if d.begun (c :: rest) then ([], c :: rest)
    else
      match d.matchAt (c :: rest) with
      | some n => settle (rest.drop (n - 1))
      | none => (c :: (settle rest).1, (settle rest).2)
termination_by s.length
decreasing_by all_goals grind

example : settle d [] = ([], []) := by rw [settle]

/-- the text after the last delimiter -/
def remainder (s : List α) : List α := (cut d s).getLastD []

end

section
variable {d : Delimiter α} (hd : d.Lawful)

theorem cut_ne_nil (s : List α) : cut d s ≠ [] := by
  unfold cut
  split
  · exact List.cons_ne_nil _ _
  · split
    · exact List.cons_ne_nil _ _
    · split
      · exact List.cons_ne_nil _ _
      · exact List.cons_ne_nil _ _

theorem cut_match {c : α} {rest : List α} {n : Nat} (h : d.matchAt (c :: rest) = some n) :
    cut d (c :: rest) = [] :: cut d (rest.drop (n - 1)) := by
  rw [cut, h]

theorem cut_other {c : α} {rest : List α} (h : d.matchAt (c :: rest) = none) :
    ∃ piece pieces, cut d rest = piece :: pieces ∧ cut d (c :: rest) = (c :: piece) :: pieces := by
  obtain ⟨piece, pieces, hcut⟩ := List.exists_cons_of_ne_nil (cut_ne_nil (d := d) rest)
  refine ⟨piece, pieces, hcut, ?_⟩
  rw [cut, h, hcut]

/-- a single text is the stream itself -/
theorem eq_of_cut_single {s piece : List α} (h : cut d s = [piece]) : piece = s := by
  induction s generalizing piece with
  | nil =>
    rw [cut] at h
    cases h
    rfl
  | cons c rest ih =>
    cases hm : d.matchAt (c :: rest) with
    | some n =>
      rw [cut_match hm] at h
      exact absurd (List.cons.inj h).2 (cut_ne_nil _)
    | none =>
      obtain ⟨first, pieces, hcut, hcons⟩ := cut_other hm
      rw [hcons] at h
      cases h
      rw [ih hcut]

theorem held_suffix (s : List α) : held d s <:+ s := by
  induction s with
  | nil => exact List.suffix_refl _
  | cons c rest ih =>
    rw [held]
    split_ifs
    · exact List.suffix_refl _
    · exact ih.trans (List.suffix_cons c rest)

/-- nothing is held back if and only if no suffix may be the beginning of a delimiter -/
theorem held_eq_nil_iff {s : List α} : held d s = [] ↔ ∀ q, q <:+ s → q ≠ [] → d.begun q = false := by
  induction s with
  | nil =>
    refine ⟨fun _ q hq hne => absurd (List.suffix_nil.1 hq) hne, fun _ => rfl⟩
  | cons c rest ih =>
    rw [held]
    constructor
    · intro h q hq hne
      split_ifs at h with hb
      rcases List.suffix_cons_iff.1 hq with rfl | hq
      · simpa using hb
      · exact ih.1 h q hq hne
    · intro h
      rw [if_neg (by rw [h _ (List.suffix_refl _) (List.cons_ne_nil _ _)]; exact Bool.false_ne_true)]
      exact ih.2 fun q hq => h q (hq.trans (List.suffix_cons c rest))

/-- only as much as a beginning is long has to be looked at -/
theorem held_drop {m : Nat} (hm : ∀ q, d.begun q = true → q.length ≤ m) (s : List α) :
    held d (s.drop (s.length - m)) = held d s := by
  induction s with
  | nil => rw [List.drop_nil]
  | cons c rest ih =>
    rcases Nat.lt_or_ge m (c :: rest).length with hlong | hshort
    · have hb : ¬d.begun (c :: rest) = true := fun h => absurd (hm _ h) (Nat.not_le_of_lt hlong)
      rw [held, if_neg hb, ← ih]
      rw [List.length_cons] at hlong ⊢
      rw [Nat.succ_sub (Nat.le_of_lt_succ hlong), List.drop_succ_cons]
    · rw [Nat.sub_eq_zero_of_le hshort, List.drop_zero]

theorem settle_begun {s : List α} (h : d.begun s = true) : settle d s = ([], s) := by
  cases s with
  | nil => rw [settle]
  | cons c rest => rw [settle, if_pos h]

theorem settle_match {c : α} {rest : List α} {n : Nat} (hb : d.begun (c :: rest) = false)
    (h : d.matchAt (c :: rest) = some n) : settle d (c :: rest) = settle d (rest.drop (n - 1)) := by
  rw [settle, if_neg (by rw [hb]; exact Bool.false_ne_true), h]

theorem settle_other {c : α} {rest : List α} (hb : d.begun (c :: rest) = false)
    (h : d.matchAt (c :: rest) = none) :
    settle d (c :: rest) = (c :: (settle d rest).1, (settle d rest).2) := by
  rw [settle, if_neg (by rw [hb]; exact Bool.false_ne_true), h]

include hd

/-- **It does not matter where the stream is cut:** what was held back is put before the next chunk. -/
theorem settle_append (s t : List α) : settle d (s ++ t) =
    ((settle d s).1 ++ (settle d ((settle d s).2 ++ t)).1, (settle d ((settle d s).2 ++ t)).2) := by
  -- by the length of the stream so far: a delimiter at its start takes away more than one element
  induction hlen : s.length using Nat.strong_induction_on generalizing s with
  | _ length ih =>
    cases s with
    | nil =>
      rw [settle]
      rfl
    | cons c rest =>
      cases hb : d.begun (c :: rest) with
      | true =>
        rw [settle_begun hb]
        rfl
      | false =>
        have hb' : d.begun (c :: (rest ++ t)) = false := by
          rw [Bool.eq_false_iff]
          intro htrue
          rw [hd.begun_left (s := c :: rest) htrue (List.cons_ne_nil _ _)] at hb
          exact nomatch hb
        rw [List.length_cons] at hlen
        cases hm : d.matchAt (c :: rest) with
        | some n =>
          have hm' := hd.extend t hm
          rw [List.cons_append] at hm' ⊢
          have hn := hd.pos hm
          rw [List.length_cons] at hn
          rw [settle_match hb hm, settle_match hb' hm', List.drop_append_of_le_length (by omega)]
          exact ih _ (by rw [List.length_drop]; omega) _ rfl
        | none =>
          -- a delimiter that starts here would be complete already, or begun
          have hm' : d.matchAt (c :: (rest ++ t)) = none := by
            cases hx : d.matchAt (c :: (rest ++ t)) with
            | none => rfl
            | some n =>
              rcases Nat.lt_or_ge (c :: rest).length n with hlong | hshort
              · rw [hd.across (s := c :: rest) hx (List.cons_ne_nil _ _) hlong] at hb
                exact nomatch hb
              · rw [hd.inside (s := c :: rest) hx hshort] at hm
                exact nomatch hm
          rw [List.cons_append, settle_other hb hm, settle_other hb' hm']
          have hrest := ih _ (by omega) rest rfl
          rw [hrest]
          rfl

/-- no delimiter is in what may be the beginning of one -/
theorem cut_begun {s t : List α} (h : d.begun (s ++ t) = true) : cut d t = [t] := by
  induction t generalizing s with
  | nil => rw [cut]
  | cons c rest ih =>
    have hrest : cut d rest = [rest] := ih (s := s ++ [c]) (by rw [List.append_assoc]; exact h)
    obtain ⟨piece, pieces, hcut, hcons⟩ := cut_other (hd.begun_right h)
    rw [hrest] at hcut
    cases hcut
    exact hcons

/-- the one pass passes on all but what is held back of the last text -/
theorem settle_eq (s : List α) :
    (settle d s).1 ++ (settle d s).2 = (cut d s).flatten ∧ (settle d s).2 = held d (remainder d s) := by
  induction hlen : s.length using Nat.strong_induction_on generalizing s with
  | _ length ih =>
    cases s with
    | nil =>
      rw [remainder, settle, cut]
      exact ⟨rfl, rfl⟩
    | cons c rest =>
      rw [List.length_cons] at hlen
      cases hb : d.begun (c :: rest) with
      | true =>
        have hcut := cut_begun hd (s := []) hb
        rw [settle_begun hb, remainder, hcut]
        refine ⟨by simp, ?_⟩
        show _ = held d (c :: rest)
        rw [held, if_pos hb]
      | false =>
        cases hm : d.matchAt (c :: rest) with
        | some n =>
          have hn := (hd.pos hm).1
          obtain ⟨hall, hheld⟩ := ih _ (by rw [List.length_drop]; omega) (rest.drop (n - 1)) rfl
          rw [settle_match hb hm, remainder, cut_match hm, List.flatten_cons, List.nil_append]
          refine ⟨hall, ?_⟩
          rw [hheld, remainder]
          obtain ⟨piece, pieces, hcut⟩ := List.exists_cons_of_ne_nil (cut_ne_nil (d := d) (rest.drop (n - 1)))
          rw [hcut]
          rfl
        | none =>
          obtain ⟨hall, hheld⟩ := ih _ (by omega) rest rfl
          obtain ⟨piece, pieces, hcut, hcons⟩ := cut_other hm
          rw [settle_other hb hm, remainder, hcons]
          rw [remainder] at hheld
          rw [hcut] at hall hheld
          refine ⟨by rw [List.flatten_cons, List.cons_append, List.cons_append, hall, List.flatten_cons], ?_⟩
          rw [hheld]
          cases pieces with
          | nil =>
            -- there is no delimiter: the text at hand is the whole rest
            obtain rfl := eq_of_cut_single hcut
            show held d piece = held d (c :: piece)
            rw [held, if_neg (by rw [hb]; exact Bool.false_ne_true)]
          | cons p ps => rfl

end

end Netops.Holdback
