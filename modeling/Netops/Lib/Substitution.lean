import Netops.Lib.Needles

/-!
# Substitution from place to place

`substituteSparing` goes over a text from left to right.  Here it is cut at the places of the text:
`Pattern.subFrom p text i` is what it makes of the text from the place `i` on.

* `subFrom_skip`     places without a match stay as they are;
* `subFrom_match`    a match is replaced, and one goes on after it;
* `search_first`     a search finds the first place;
* `words`            the words of an expression without repetition: `run_ne_nil_iff`.
-/

namespace Regex

variable {α : Type}

/-- what is matched, how much of it is kept, and what takes the place of the rest -/
structure Pattern (α : Type) where
  kept : Regex α
  hidden : Regex α
  marker : List α
  /-- a match that is left as it is -/
  spare : List α → List α → List α → Bool

/-- the place `i` of a text -/
def cursorAt (text : List α) (i : Nat) : Cursor α := ((text.take i).getLast?, text.drop i)

namespace Pattern

variable (p : Pattern α)

/-- `pattern.match(text, i)`: how many characters are kept and how many are hidden -/
def matchAt (text : List α) (i : Nat) : Option (Nat × Nat) := matchParts p.kept p.hidden (cursorAt text i)

/-- what a match of `k` and `m` characters at the place `i` is replaced by -/
def replacement (text : List α) (i k m : Nat) : List α :=
  let found := (text.drop i).take (k + m)
  if p.spare (text.take i).reverse found (text.drop (i + (k + m))) then found
  else (text.drop i).take k ++ p.marker

/-- `pattern.sub` -/
def sub (text : List α) : List α :=
  substituteSparing p.kept p.hidden p.marker p.spare text.length [] text

/-- what is made of the text from a place on -/
def subFrom (text : List α) (i : Nat) : List α :=
  substituteSparing p.kept p.hidden p.marker p.spare (text.length - i) (text.take i).reverse (text.drop i)

theorem subFrom_zero (text : List α) : p.subFrom text 0 = p.sub text := by
  rw [subFrom, Nat.sub_zero, List.take_zero, List.drop_zero]
  rfl

end Pattern

/-- the bound on the length does not matter -/
theorem substituteSparing_bound (kept hidden : Regex α) (marker : List α)
    (spare : List α → List α → List α → Bool) : ∀ (n m : Nat) (before text : List α),
      text.length ≤ n → text.length ≤ m → substituteSparing kept hidden marker spare n before text
        = substituteSparing kept hidden marker spare m before text := by
  intro n
  induction n with
  | zero =>
    intro m before text hn _
    obtain rfl := List.length_eq_zero_iff.1 (Nat.le_zero.1 hn)
    cases m <;> rfl
  | succ n ih =>
    intro m before text hn hm
    cases text with
    | nil => cases m <;> rfl
    | cons x xs =>
      cases m with
      | zero => exact absurd hm (Nat.not_succ_le_zero _)
      | succ m =>
        have hn' : xs.length ≤ n := Nat.le_of_succ_le_succ hn
        have hm' : xs.length ≤ m := Nat.le_of_succ_le_succ hm
        rw [substituteSparing, substituteSparing]
        split
        · next k l _ =>
          split_ifs with hpos
          · rw [ih m (x :: before) xs hn' hm']
          · have hlen : ((x :: xs).drop (k + l)).length ≤ xs.length := by
              rw [List.length_drop, List.length_cons]
              omega
            dsimp only
            rw [ih m _ _ (hlen.trans hn') (hlen.trans hm')]
        · rw [ih m (x :: before) xs hn' hm']

namespace Pattern

variable {p : Pattern α} {text : List α} {i j : Nat}

theorem head_reverse_take (text : List α) (i : Nat) : (text.take i).reverse.head? = (text.take i).getLast? :=
  List.head?_reverse

theorem subFrom_next (hi : i < text.length) (h : p.matchAt text i = none) :
    p.subFrom text i = text[i] :: p.subFrom text (i + 1) := by
  have hdrop : text.drop i = text[i] :: text.drop (i + 1) := List.drop_eq_getElem_cons hi
  have htake : (text.take (i + 1)).reverse = text[i] :: (text.take i).reverse := by
    rw [List.take_succ_eq_append_getElem hi, List.reverse_append]
    rfl
  rw [matchAt, cursorAt, hdrop] at h
  obtain ⟨n, hn⟩ : ∃ n, text.length - i = n + 1 := ⟨text.length - i - 1, by omega⟩
  rw [subFrom, hdrop, hn, substituteSparing, head_reverse_take, h]
  dsimp only
  rw [subFrom, htake, substituteSparing_bound p.kept p.hidden p.marker p.spare n (text.length - (i + 1))]
  · rw [List.length_drop]
    omega
  · rw [List.length_drop]

/-- places without a match stay as they are -/
theorem subFrom_skip (hij : i ≤ j) (hj : j ≤ text.length) (h : ∀ k, i ≤ k → k < j → p.matchAt text k = none) :
    p.subFrom text i = (text.drop i).take (j - i) ++ p.subFrom text j := by
  induction hij using Nat.decreasingInduction with
  | self => rw [Nat.sub_self, List.take_zero, List.nil_append]
  | of_succ i hij ih =>
    have hi : i < text.length := Nat.lt_of_lt_of_le hij hj
    have hsub : j - i = (j - (i + 1)) + 1 := by omega
    rw [subFrom_next hi (h i (Nat.le_refl i) hij), ih fun k hk hkj => h k (Nat.le_of_succ_le hk) hkj, hsub,
      List.drop_eq_getElem_cons hi, List.take_succ_cons, List.cons_append]

/-- a match is replaced -/
theorem subFrom_match {k m : Nat} (h : p.matchAt text i = some (k, m)) (hpos : 0 < k + m)
    (hend : i + (k + m) ≤ text.length) :
    p.subFrom text i = p.replacement text i k m ++ p.subFrom text (i + (k + m)) := by
  have hi : i < text.length := by omega
  have hdrop : text.drop i = text[i] :: text.drop (i + 1) := List.drop_eq_getElem_cons hi
  have hbefore : ((text.drop i).take (k + m)).reverse ++ (text.take i).reverse
      = (text.take (i + (k + m))).reverse := by
    rw [← List.reverse_append, ← List.take_add]
  rw [matchAt, cursorAt] at h
  obtain ⟨n, hn⟩ : ∃ n, text.length - i = n + 1 := ⟨text.length - i - 1, by omega⟩
  rw [hdrop] at h hbefore
  rw [subFrom, hdrop, hn, substituteSparing, head_reverse_take, h]
  dsimp only
  rw [if_neg (by omega), hbefore, ← hdrop, List.drop_drop, subFrom,
    substituteSparing_bound p.kept p.hidden p.marker p.spare n (text.length - (i + (k + m)))]
  · rfl
  · rw [List.length_drop]
    omega
  · rw [List.length_drop]

/-- nothing is left to match -/
theorem subFrom_end (hi : i ≤ text.length) (h : ∀ k, i ≤ k → k < text.length → p.matchAt text k = none) :
    p.subFrom text i = text.drop i := by
  rw [subFrom_skip hi (Nat.le_refl _) h, List.take_of_length_le (by rw [List.length_drop]), subFrom,
    List.drop_length, Nat.sub_self]
  exact List.append_nil _

end Pattern

/-! ## the first place -/

section
variable {r : Regex α} {P : List α → Prop}

/-- where it does not matter what comes before, a search finds the first place -/
theorem search_first (hP : ∀ prev s, run r (prev, s) ≠ [] ↔ P s) : ∀ (s : List α) (prev : Option α),
    match search r prev s with
    | some x => x.1 ≤ s.length ∧ P (s.drop x.1) ∧ ∀ j < x.1, ¬P (s.drop j)
    | none => ∀ j ≤ s.length, ¬P (s.drop j) := by
  have hat : ∀ prev s, matchLength r (prev, s) = none ↔ ¬P s := by
    intro prev s
    rw [matchLength_eq_none, ← hP prev s, not_not]
  intro s
  induction s with
  | nil =>
    intro prev
    rw [search]
    cases hm : matchLength r (prev, []) with
    | none =>
      intro j hj
      obtain rfl := Nat.le_zero.1 hj
      exact (hat prev []).1 hm
    | some n =>
      refine ⟨Nat.le_refl _, ?_, fun j hj => absurd hj (Nat.not_lt_zero j)⟩
      by_contra hnot
      rw [(hat prev []).2 hnot] at hm
      cases hm
  | cons x s ih =>
    intro prev
    rw [search]
    cases hm : matchLength r (prev, x :: s) with
    | some n =>
      refine ⟨Nat.zero_le _, ?_, fun j hj => absurd hj (Nat.not_lt_zero j)⟩
      by_contra hnot
      rw [(hat prev (x :: s)).2 hnot] at hm
      cases hm
    | none =>
      have hhere := (hat prev (x :: s)).1 hm
      have hrest := ih (some x)
      dsimp only
      cases hsearch : search r (some x) s with
      | none =>
        rw [hsearch] at hrest
        intro j hj
        cases j with
        | zero => exact hhere
        | succ j => exact hrest j (Nat.le_of_succ_le_succ hj)
      | some found =>
        rw [hsearch] at hrest
        refine ⟨Nat.succ_le_succ hrest.1, hrest.2.1, fun j hj => ?_⟩
        cases j with
        | zero => exact hhere
        | succ j => exact hrest.2.2 j (Nat.lt_of_succ_lt_succ hj)

end

/-! ## what a match takes -/

theorem matchParts_some {kept hidden : Regex α} {c : Cursor α} {k m : Nat}
    (h : matchParts kept hidden c = some (k, m)) :
    ∃ d ∈ run kept c, k = c.2.length - d.2.length ∧ k + m ≤ c.2.length := by
  obtain ⟨d, hd, hfound⟩ := List.exists_of_findSome?_eq_some h
  obtain ⟨n, hn, hkm⟩ := Option.map_eq_some_iff.1 hfound
  obtain ⟨rfl, rfl⟩ := Prod.mk.inj hkm
  rw [matchLength, Option.map_eq_some_iff] at hn
  obtain ⟨e, he, rfl⟩ := hn
  have hle := (run_suffix kept c d hd).length_le
  have hle' := (run_suffix hidden d e (List.mem_of_head? he)).length_le
  exact ⟨d, hd, rfl, by omega⟩

theorem mem_run_seq {r s : Regex α} {c d : Cursor α} : d ∈ run (.seq r s) c ↔ ∃ e ∈ run r c, d ∈ run s e :=
  List.mem_flatMap

/-! ## expressions without repetition -/

/-- no repetition, and nothing that only looks -/
def Plain : Regex α → Prop
  | .empty | .char _ => True
  | .seq r s | .alt r s => r.Plain ∧ s.Plain
  | _ => False

/-- the words that such an expression matches -/
def words : Regex α → List (List (α → Bool))
  | .empty => [[]]
  | .char accepts => [[accepts]]
  | .seq r s => (words r).flatMap fun v => (words s).map (v ++ ·)
  | .alt r s => words r ++ words s
  | _ => []

theorem Spells.append {v w : List (α → Bool)} {x y : List α} (h : Spells v x) (h' : Spells w y) :
    Spells (v ++ w) (x ++ y) := List.rel_append h h'

theorem Spells.split {v w : List (α → Bool)} {z : List α} (h : Spells (v ++ w) z) :
    ∃ x y, z = x ++ y ∧ Spells v x ∧ Spells w y := by
  induction v generalizing z with
  | nil => exact ⟨[], z, rfl, .nil, h⟩
  | cons p v ih =>
    cases h with
    | cons hp h =>
      obtain ⟨x, y, rfl, hx, hy⟩ := ih h
      exact ⟨_ :: x, y, rfl, .cons hp hx, hy⟩

/-- a match takes one of the words -/
theorem word_of_mem_run {r : Regex α} (hr : r.Plain) : ∀ {c d : Cursor α}, d ∈ run r c →
    ∃ w ∈ words r, ∃ x, Spells w x ∧ c.2 = x ++ d.2 := by
  induction r with
  | empty =>
    intro c d h
    obtain rfl := List.mem_singleton.1 h
    exact ⟨[], List.mem_singleton_self _, [], .nil, rfl⟩
  | char accepts =>
    rintro ⟨prev, s⟩ d h
    cases s with
    | nil => cases h
    | cons x s =>
      rw [run] at h
      split_ifs at h with hx
      · obtain rfl := List.mem_singleton.1 h
        exact ⟨[accepts], List.mem_singleton_self _, [x], .cons hx .nil, rfl⟩
      · cases h
  | seq r s ihr ihs =>
    intro c d h
    obtain ⟨e, he, hd⟩ := mem_run_seq.1 h
    obtain ⟨v, hv, x, hx, hc⟩ := ihr hr.1 he
    obtain ⟨w, hw, y, hy, he'⟩ := ihs hr.2 hd
    refine ⟨v ++ w, List.mem_flatMap.2 ⟨v, hv, List.mem_map.2 ⟨w, hw, rfl⟩⟩, x ++ y, hx.append hy, ?_⟩
    rw [hc, he', List.append_assoc]
  | alt r s ihr ihs =>
    intro c d h
    rcases List.mem_append.1 h with h | h
    · obtain ⟨w, hw, hx⟩ := ihr hr.1 h
      exact ⟨w, List.mem_append_left _ hw, hx⟩
    · obtain ⟨w, hw, hx⟩ := ihs hr.2 h
      exact ⟨w, List.mem_append_right _ hw, hx⟩
  | _ => exact hr.elim

/-- and every word can be taken -/
theorem mem_run_of_word {r : Regex α} (hr : r.Plain) : ∀ {w : List (α → Bool)}, w ∈ words r → ∀ {x : List α},
    Spells w x → ∀ (prev : Option α) (rest : List α), ∃ prev', (prev', rest) ∈ run r (prev, x ++ rest) := by
  induction r with
  | empty =>
    intro w hw x hx prev rest
    obtain rfl := List.mem_singleton.1 hw
    cases hx
    exact ⟨prev, List.mem_singleton_self _⟩
  | char accepts =>
    intro w hw x hx prev rest
    obtain rfl := List.mem_singleton.1 hw
    cases hx with
    | @cons _ y _ _ hy hx =>
      cases hx
      refine ⟨some y, ?_⟩
      rw [List.cons_append, run, if_pos hy]
      exact List.mem_singleton_self _
  | seq r s ihr ihs =>
    intro w hw z hz prev rest
    obtain ⟨v, hv, hw⟩ := List.mem_flatMap.1 hw
    obtain ⟨u, hu, rfl⟩ := List.mem_map.1 hw
    obtain ⟨x, y, rfl, hx, hy⟩ := hz.split
    obtain ⟨prev1, h1⟩ := ihr hr.1 hv hx prev (y ++ rest)
    obtain ⟨prev2, h2⟩ := ihs hr.2 hu hy prev1 rest
    rw [List.append_assoc]
    exact ⟨prev2, mem_run_seq.2 ⟨_, h1, h2⟩⟩
  | alt r s ihr ihs =>
    intro w hw x hx prev rest
    rcases List.mem_append.1 hw with hw | hw
    · obtain ⟨prev', h⟩ := ihr hr.1 hw hx prev rest
      exact ⟨prev', List.mem_append_left _ h⟩
    · obtain ⟨prev', h⟩ := ihs hr.2 hw hx prev rest
      exact ⟨prev', List.mem_append_right _ h⟩
  | _ => exact hr.elim

/-- an expression without repetition matches where one of its words stands -/
theorem run_ne_nil_iff {r : Regex α} (hr : r.Plain) (prev : Option α) (s : List α) :
    run r (prev, s) ≠ [] ↔ Starts (words r) s := by
  constructor
  · intro h
    obtain ⟨d, hd⟩ := List.exists_mem_of_ne_nil _ h
    obtain ⟨w, hw, x, hx, hs⟩ := word_of_mem_run hr hd
    exact ⟨w, hw, x, hx, d.2, hs.symm⟩
  · rintro ⟨w, hw, x, hx, rest, rfl⟩
    obtain ⟨prev', h⟩ := mem_run_of_word hr hw hx prev rest
    exact List.ne_nil_of_mem h

end Regex
