import Mathlib.Data.List.Forall2
import Netops.Lib.Regex

/-!
# Words an expression cannot do without

A word is a list of sets of characters, one for every place.  `Found ws s` says that one of the words
`ws` stands in the text `s`.  Where every way to match an expression passes over one of the words
(`Needs`), a text without them is left alone: `substitute_of_not_found`, and `search_of_not_found`.

`exists_window` is for a search in parts: parts that overlap far enough lose no word.
-/

namespace Regex

variable {α : Type}

/-- a text is one of the word -/
def Spells (w : List (α → Bool)) (x : List α) : Prop := List.Forall₂ (fun p c => p c = true) w x

/-- one of the words stands at the start of the text -/
def Starts (ws : List (List (α → Bool))) (s : List α) : Prop := ∃ w ∈ ws, ∃ x, Spells w x ∧ x <+: s

/-- one of the words stands in the text -/
def Found (ws : List (List (α → Bool))) (s : List α) : Prop := ∃ w ∈ ws, ∃ x, Spells w x ∧ x <:+: s

theorem found_iff_starts {ws : List (List (α → Bool))} {s : List α} :
    Found ws s ↔ ∃ t, t <:+ s ∧ Starts ws t := by
  constructor
  · rintro ⟨w, hw, x, hx, hin⟩
    obtain ⟨t, hp, hs⟩ := List.infix_iff_prefix_suffix.1 hin
    exact ⟨t, hs, w, hw, x, hx, hp⟩
  · rintro ⟨t, ht, w, hw, x, hx, hp⟩
    exact ⟨w, hw, x, hx, hp.isInfix.trans ht.isInfix⟩

theorem Found.mono {ws : List (List (α → Bool))} {s t : List α} (h : Found ws s) (hst : s <:+: t) :
    Found ws t := by
  obtain ⟨w, hw, x, hx, hin⟩ := h
  exact ⟨w, hw, x, hx, hin.trans hst⟩

/-! ## what a match leaves -/

theorem repeatRun_suffix {f : Cursor α → List (Cursor α)}
    (hf : ∀ c, ∀ d ∈ f c, d.2 <:+ c.2) : ∀ (n : Nat) (c : Cursor α), ∀ d ∈ repeatRun f n c,
      d.2 <:+ c.2 := by
  intro n
  induction n with
  | zero =>
    intro c d hd
    rw [List.mem_singleton.1 hd]
  | succ n ih =>
    intro c d hd
    rcases List.mem_append.1 hd with hd | hd
    · obtain ⟨e, he, hd⟩ := List.mem_flatMap.1 hd
      exact (ih e d hd).trans (hf c e (List.mem_filter.1 he).1)
    · rw [List.mem_singleton.1 hd]

theorem lazyRun_suffix {f : Cursor α → List (Cursor α)}
    (hf : ∀ c, ∀ d ∈ f c, d.2 <:+ c.2) : ∀ (n : Nat) (c : Cursor α), ∀ d ∈ lazyRun f n c,
      d.2 <:+ c.2 := by
  intro n
  induction n with
  | zero =>
    intro c d hd
    rw [List.mem_singleton.1 hd]
  | succ n ih =>
    intro c d hd
    rcases List.mem_cons.1 hd with rfl | hd
    · exact List.suffix_refl _
    · obtain ⟨e, he, hd⟩ := List.mem_flatMap.1 hd
      exact (ih e d hd).trans (hf c e (List.mem_filter.1 he).1)

/-- what is left after a match is an end of the text -/
theorem run_suffix (r : Regex α) : ∀ c, ∀ d ∈ run r c, d.2 <:+ c.2 := by
  induction r with
  | empty =>
    intro c d hd
    rw [List.mem_singleton.1 hd]
  | char accepts =>
    rintro ⟨prev, s⟩ d hd
    cases s with
    | nil => exact nomatch hd
    | cons x s =>
      rw [run] at hd
      split at hd
      · rw [List.mem_singleton.1 hd]
        exact List.suffix_cons x s
      · exact nomatch hd
  | seq r s ihr ihs =>
    intro c d hd
    obtain ⟨e, he, hd⟩ := List.mem_flatMap.1 hd
    exact (ihs e d hd).trans (ihr c e he)
  | alt r s ihr ihs =>
    intro c d hd
    rcases List.mem_append.1 hd with hd | hd
    · exact ihr c d hd
    · exact ihs c d hd
  | star r ih => exact fun c d hd => repeatRun_suffix ih _ c d hd
  | after accepts =>
    intro c d hd
    rw [run] at hd
    split at hd
    · rw [List.mem_singleton.1 hd]
    · exact nomatch hd
  | ahead r =>
    intro c d hd
    rw [run] at hd
    split at hd
    · exact nomatch hd
    · rw [List.mem_singleton.1 hd]
  | lazy r ih => exact fun c d hd => lazyRun_suffix ih _ c d hd
  | «unless» r =>
    intro c d hd
    rw [run] at hd
    split at hd
    · rw [List.mem_singleton.1 hd]
    · exact nomatch hd

/-! ## words -/

theorem run_word {w : List (α → Bool)} : ∀ {c : Cursor α},
    run (word w) c ≠ [] ↔ ∃ x, Spells w x ∧ x <+: c.2 := by
  induction w with
  | nil =>
    intro c
    refine ⟨fun _ => ⟨[], .nil, List.nil_prefix⟩, fun _ h => ?_⟩
    exact nomatch h
  | cons p w ih =>
    rintro ⟨prev, s⟩
    have hseq : run (word (p :: w)) (prev, s)
        = (run (.char p) (prev, s)).flatMap (run (word w)) := rfl
    rw [hseq]
    cases s with
    | nil =>
      refine ⟨fun h => absurd rfl h, ?_⟩
      rintro ⟨x, hx, hp⟩
      cases hx with
      | cons _ _ => exact nomatch List.prefix_nil.1 hp
    | cons y s =>
      rw [run]
      by_cases hy : p y = true
      · rw [if_pos hy, List.flatMap_singleton, ih]
        constructor
        · rintro ⟨x, hx, hp⟩
          exact ⟨y :: x, .cons hy hx, List.cons_prefix_cons.2 ⟨rfl, hp⟩⟩
        · rintro ⟨x, hx, hp⟩
          cases hx with
          | cons hz hx =>
            exact ⟨_, hx, (List.cons_prefix_cons.1 hp).2⟩
      · rw [if_neg hy]
        refine ⟨fun h => absurd rfl h, ?_⟩
        rintro ⟨x, hx, hp⟩
        cases hx with
        | cons hz hx =>
          obtain ⟨rfl, hp⟩ := List.cons_prefix_cons.1 hp
          exact absurd hz hy

theorem run_alts (rs : List (Regex α)) (r : Regex α) (c : Cursor α) :
    run (rs.foldl .alt r) c ≠ [] ↔ run r c ≠ [] ∨ ∃ s ∈ rs, run s c ≠ [] := by
  induction rs generalizing r with
  | nil => simp
  | cons s rs ih =>
    simp only [List.foldl_cons, ih, run, ne_eq, List.append_eq_nil_iff, not_and_or, or_assoc,
      List.mem_cons, exists_eq_or_imp]

theorem run_oneOf (rs : List (Regex α)) (c : Cursor α) :
    run (oneOf rs) c ≠ [] ↔ ∃ r ∈ rs, run r c ≠ [] := by
  cases rs with
  | nil =>
    obtain ⟨prev, s⟩ := c
    cases s <;> simp [oneOf, run]
  | cons r rs => simp only [oneOf, run_alts, List.mem_cons, exists_eq_or_imp]

/-! ## expressions that need a word -/

/-- no match without one of the words in the text -/
def Needs (ws : List (List (α → Bool))) (r : Regex α) : Prop :=
  ∀ c, run r c ≠ [] → Found ws c.2

section
variable {ws : List (List (α → Bool))}

theorem needs_word {w : List (α → Bool)} (h : ∀ x, Spells w x → Found ws x) : Needs ws (word w) := by
  intro c hc
  obtain ⟨x, hx, hp⟩ := run_word.1 hc
  exact (h x hx).mono hp.isInfix

theorem needs_oneOf {rs : List (Regex α)} (h : ∀ r ∈ rs, Needs ws r) : Needs ws (oneOf rs) := by
  intro c hc
  obtain ⟨r, hr, hc⟩ := (run_oneOf rs c).1 hc
  exact h r hr c hc

theorem needs_seq_left {r s : Regex α} (h : Needs ws r) : Needs ws (.seq r s) := by
  intro c hc
  refine h c fun hr => hc ?_
  rw [run, hr]
  rfl

theorem needs_seq_right {r s : Regex α} (h : Needs ws s) : Needs ws (.seq r s) := by
  intro c hc
  rw [run] at hc
  obtain ⟨d, hd⟩ := List.exists_mem_of_ne_nil _ hc
  obtain ⟨e, he, hd⟩ := List.mem_flatMap.1 hd
  exact (h e (List.ne_nil_of_mem hd)).mono (run_suffix r c e he).isInfix

theorem matchLength_eq_none {r : Regex α} {c : Cursor α} : matchLength r c = none ↔ run r c = [] := by
  rw [matchLength, Option.map_eq_none_iff, List.head?_eq_none_iff]

/-- what is found is a match in an end of the text -/
theorem search_ne_none {r : Regex α} : ∀ {s : List α} {prev : Option α},
    search r prev s ≠ none → ∃ c : Cursor α, c.2 <:+ s ∧ run r c ≠ [] := by
  intro s
  induction s with
  | nil =>
    intro prev h
    rw [search, Ne, Option.map_eq_none_iff, matchLength_eq_none] at h
    exact ⟨(prev, []), List.suffix_refl _, h⟩
  | cons x s ih =>
    intro prev h
    rw [search] at h
    split at h
    · next n hn =>
      refine ⟨(prev, x :: s), List.suffix_refl _, fun hr => ?_⟩
      rw [matchLength_eq_none.2 hr] at hn
      exact nomatch hn
    · rw [Ne, Option.map_eq_none_iff] at h
      obtain ⟨c, hc, hr⟩ := ih h
      exact ⟨c, hc.trans (List.suffix_cons x s), hr⟩

theorem search_of_not_found {r : Regex α} (hr : Needs ws r) {s : List α} (h : ¬Found ws s)
    (prev : Option α) : search r prev s = none := by
  by_contra hs
  obtain ⟨c, hc, hrun⟩ := search_ne_none hs
  exact h ((hr c hrun).mono hc.isInfix)

/-- an expression that matches after any character is found at the latest there -/
theorem search_ne_none_of_suffix {r : Regex α} {t : List α} (hr : ∀ prev, run r (prev, t) ≠ []) :
    ∀ {s : List α}, t <:+ s → ∀ prev, search r prev s ≠ none := by
  intro s
  induction s with
  | nil =>
    intro hs prev h
    obtain rfl := List.suffix_nil.1 hs
    rw [search, Option.map_eq_none_iff, matchLength_eq_none] at h
    exact hr prev h
  | cons x s ih =>
    intro hs prev h
    rw [search] at h
    split at h
    · exact nomatch h
    · next hn =>
      rcases List.suffix_cons_iff.1 hs with rfl | hs
      · exact hr prev (matchLength_eq_none.1 hn)
      · exact ih hs (some x) (Option.map_eq_none_iff.1 h)

/-- a search for some words -/
theorem occursIn_words (s : List α) : occursIn (oneOf (ws.map word)) s = true ↔ Found ws s := by
  have hrun : ∀ c : Cursor α, run (oneOf (ws.map word)) c ≠ [] ↔ Starts ws c.2 := by
    intro c
    rw [run_oneOf]
    constructor
    · rintro ⟨r, hr, hc⟩
      obtain ⟨w, hw, rfl⟩ := List.mem_map.1 hr
      exact ⟨w, hw, run_word.1 hc⟩
    · rintro ⟨w, hw, hx⟩
      exact ⟨word w, List.mem_map.2 ⟨w, hw, rfl⟩, run_word.2 hx⟩
  rw [occursIn, Option.isSome_iff_ne_none, found_iff_starts]
  constructor
  · intro h
    obtain ⟨c, hc, hr⟩ := search_ne_none h
    exact ⟨c.2, hc, (hrun c).1 hr⟩
  · rintro ⟨t, ht, hs⟩
    exact search_ne_none_of_suffix (fun prev => (hrun (prev, t)).2 hs) ht none

theorem matchParts_of_not_found {kept hidden : Regex α} (hr : Needs ws (.seq kept hidden))
    {c : Cursor α} (h : ¬Found ws c.2) : matchParts kept hidden c = none := by
  have hnil : (run kept c).flatMap (run hidden) = [] := by
    by_contra hne
    exact h (hr c hne)
  rw [matchParts, List.findSome?_eq_none_iff]
  intro d hd
  rw [Option.map_eq_none_iff, matchLength_eq_none]
  exact List.flatMap_eq_nil_iff.1 hnil d hd

/-- a text without the words is left alone -/
theorem substitute_of_not_found {kept hidden : Regex α} (hr : Needs ws (.seq kept hidden))
    (m : List α) : ∀ (n : Nat) (prev : Option α) (s : List α), ¬Found ws s →
      substitute kept hidden m n prev s = s := by
  intro n
  induction n with
  | zero => exact fun prev s _ => rfl
  | succ n ih =>
    intro prev s h
    cases s with
    | nil => rfl
    | cons x s =>
      have htail : ¬Found ws s := fun hs => h (hs.mono (List.suffix_cons x s).isInfix)
      rw [substitute, matchParts_of_not_found hr h]
      dsimp only
      rw [ih (some x) s htail]

end

/-! ## parts that overlap -/

/-- a short part of a text stands in one of the windows of `k + m` characters, one every `k` -/
theorem exists_window {k m : Nat} (hk : 0 < k) {s x : List α} (hx : x <:+: s) (hne : x ≠ [])
    (hm : x.length ≤ m + 1) :
    ∃ i < (s.length + (k - 1)) / k, x <:+: (s.drop (i * k)).take (k + m) := by
  obtain ⟨a, b, rfl⟩ := hx
  have hpos := List.length_pos_of_ne_nil hne
  have hlow : a.length / k * k ≤ a.length := Nat.div_mul_le_self ..
  have hhigh : a.length < a.length / k * k + k := by
    have hdiv := Nat.div_add_mod a.length k
    have hmod := Nat.mod_lt a.length hk
    rw [Nat.mul_comm] at hdiv
    omega
  refine ⟨a.length / k, ?_, ?_⟩
  · rw [Nat.lt_iff_add_one_le, Nat.le_div_iff_mul_le hk, Nat.add_mul, Nat.one_mul]
    simp only [List.length_append]
    omega
  · rw [List.append_assoc, List.drop_append_of_le_length hlow]
    set before := a.drop (a.length / k * k) with hbefore
    have hlen : before.length < k := by
      rw [hbefore, List.length_drop]
      omega
    have hstart : before ++ x <+: (before ++ (x ++ b)).take (k + m) := by
      rw [List.prefix_take_iff, List.length_append]
      refine ⟨?_, by omega⟩
      rw [← List.append_assoc]
      exact List.prefix_append _ b
    exact (List.suffix_append before x).isInfix.trans hstart.isInfix

end Regex

section
variable {α : Type} [DecidableEq α]

theorem replaceFrom_of_not_infix {old : List α} (new : List α) : ∀ (n : Nat) (s : List α),
    ¬old <:+: s → replaceFrom old new n s = s := by
  intro n
  induction n with
  | zero => exact fun s _ => rfl
  | succ n ih =>
    intro s h
    cases s with
    | nil => rfl
    | cons x s =>
      have hhead : ¬old.isPrefixOf (x :: s) = true := fun hp =>
        h (List.isPrefixOf_iff_prefix.1 hp).isInfix
      have htail : ¬old <:+: s := fun hs => h (hs.trans (List.suffix_cons x s).isInfix)
      rw [replaceFrom, if_neg hhead, ih s htail]

theorem replaceAll_of_not_infix {old : List α} (new : List α) {s : List α} (h : ¬old <:+: s) :
    replaceAll old new s = s := replaceFrom_of_not_infix new _ s h

end
