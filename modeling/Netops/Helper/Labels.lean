import Netops.Helper.Sanitize
import Netops.Lib.Substitution

/-!
# Assigned secrets (`sanitize.py`)

`_assigned` is a faster `pattern.sub`: it searches the labels of secrets in windows of the text, and tries
the whole pattern only at a label, or at the quote before it.

* `assigned`           the loop over the labels, `nextLabel` the search in windows;
* `nextLabel_spec`     the windows find the first label: one that a window cuts off has no other inside;
* `label_of_match`     a match has a label at its start, or after a quote there;
* `assigned_eq_sub`    the loop does what `pattern.sub` does.
-/

namespace Netops.Labels

open Regex
open Netops.Redaction (Text isSpace ignoringCase caseless exactly)
open Netops.Sanitize (sequence oneIn noneIn space redacted quotedRedacted capability)

/-! ## the patterns -/

/-- `[_ -]?` -/
def joint : Regex Nat := maybe (oneIn "_ -")

/-- `_SECRET_LABELS` -/
def secretLabel : Regex Nat :=
  oneOf [sequence [.alt (caseless "api") (caseless "access"), joint, caseless "token"], caseless "bearer",
    caseless "token", sequence [caseless "api", joint, caseless "key"], caseless "password", caseless "passwd",
    caseless "secret", caseless "community"]

def isQuote (n : Nat) : Bool := n = 34 || n = 39

/-- `(?P<prefix>…)` -/
def assignedPrefix (isWord : Nat → Bool) : Regex Nat :=
  sequence [.after (fun n => !(isWord n || n = 45)), maybe (.char isQuote), secretLabel, maybe (.char isQuote),
    .star space, oneIn ":=", .star space]

/-- `ASSIGNED_QUOTED_SECRET` with `_replace_quoted` -/
def quotedSecret (isWord : Nat → Bool) : Pattern Nat where
  kept := assignedPrefix isWord
  hidden := .alt (sequence [exactly "\"", .star (.char (noneIn "\"\r\n")), exactly "\""])
    (sequence [exactly "'", .star (.char (noneIn "'\r\n")), exactly "'"])
  marker := quotedRedacted
  spare _ _ _ := false

/-- `ASSIGNED_BARE_SECRET` with `_replace_bare` -/
def bareSecret (isWord : Nat → Bool) : Pattern Nat where
  kept := assignedPrefix isWord
  hidden := plus (.char fun n => !isSpace n && noneIn ",\x7d]\r\n" n)
  marker := redacted
  spare := capability

/-! ## the loops -/

def labelOverlap : Nat := 64

/-- `_next_label`; `none` is a search that does not end -/
def nextLabel (value : Text) (chunk : Nat) : Nat → Nat → Option (Option Nat)
  | 0, _ => none
  | fuel+1, position =>
    if position < value.length then
      let window := (value.take (min value.length (position + chunk + labelOverlap))).drop position
      match search secretLabel none window with
      | some found => some (some (position + found.1))
      | none => nextLabel value chunk fuel (position + chunk)
    else some none

/-- the match at a label: at the quote before it, or at the label -/
def labelMatch (p : Pattern Nat) (value : Text) (cursor start : Nat) : Option (Nat × Nat × Nat) :=
  let quoted :=
    if cursor + 1 ≤ start ∧ (value[start - 1]?).any isQuote = true then
      (p.matchAt value (start - 1)).map fun x => (start - 1, x)
    else none
  quoted.or ((p.matchAt value start).map fun x => (start, x))

/-- the loop of `_assigned` -/
def assignedLoop (p : Pattern Nat) (value : Text) (chunk : Nat) :
    Nat → List Text → Nat → Nat → Option Text
  | 0, _, _, _ => none
  | fuel+1, parts, cursor, position =>
    match nextLabel value chunk (value.length + 1) position with
    | none => none
    | some none => some (if parts = [] then value else (parts ++ [value.drop cursor]).flatten)
    | some (some start) =>
      match labelMatch p value cursor start with
      | none => assignedLoop p value chunk fuel parts cursor (start + 1)
      | some (at_, k, m) =>
        assignedLoop p value chunk fuel
          (parts ++ [(value.drop cursor).take (at_ - cursor), p.replacement value at_ k m])
          (at_ + (k + m)) (at_ + (k + m))

/-- `_assigned`: a loop that has not ended after so many passes does not end -/
def assigned (p : Pattern Nat) (value : Text) (chunk : Nat) : Option Text :=
  assignedLoop p value chunk (value.length + 1) [] 0 0

/-! ## labels -/

/-- the labels, with `_` for the character between two words -/
def labels : List (List Char) :=
  ["api_token", "apitoken", "access_token", "accesstoken", "bearer", "token", "api_key", "apikey", "password",
    "passwd", "secret", "community"].map String.toList

/-- what a character of a label stands for -/
def labelChar (c : Char) (n : Nat) : Bool :=
  if c = '_' then "_ -".toList.any (n = ·.toNat) else ignoringCase c n

def labelWords : List (List (Nat → Bool)) := labels.map fun w => w.map labelChar

/-- a label stands at the start of the text -/
abbrev Labelled (s : Text) : Prop := Starts labelWords s

theorem plain_secretLabel : secretLabel.Plain := by
  simp [secretLabel, oneOf, Sanitize.sequence, caseless, word, joint, maybe, oneIn, Plain]

theorem words_secretLabel : words secretLabel = labelWords := by
  rfl

theorem run_secretLabel (prev : Option Nat) (s : Text) : run secretLabel (prev, s) ≠ [] ↔ Labelled s := by
  rw [run_ne_nil_iff plain_secretLabel, words_secretLabel]

/-- the letters of the labels -/
def isLetter (c : Char) : Bool := c = '_' || (97 ≤ c.toNat && c.toNat ≤ 122)

theorem isLetter_labels : ∀ w ∈ labels, ∀ c ∈ w, isLetter c = true := by
  have hall : labels.all (fun w => w.all isLetter) = true := by decide +kernel
  exact fun w hw => List.all_eq_true.1 (List.all_eq_true.1 hall w hw)

theorem length_labels : ∀ w ∈ labels, 5 ≤ w.length ∧ w.length ≤ 12 := by decide +kernel

/-- no label stands in another one and ends before it -/
theorem labels_not_nested : ∀ w ∈ labels, ∀ v ∈ labels, ∀ d < 12, 0 < d → d + v.length < w.length →
    (w.drop d).take v.length ≠ v := by decide +kernel

/-- a character stands for one letter only -/
theorem labelChar_inj {c d : Char} (hc : isLetter c = true) (hd : isLetter d = true) {n : Nat}
    (h : labelChar c n = true) (h' : labelChar d n = true) : c = d := by
  have hcode : ∀ e : Char, isLetter e = true → labelChar e n = true →
      e = '_' ∧ (n = 95 ∨ n = 32 ∨ n = 45) ∨ e ≠ '_' ∧ 97 ≤ e.toNat ∧ e.toNat ≤ 122 ∧
        (n = e.toNat ∨ n + 32 = e.toNat ∨ n = 0x17f ∧ e.toNat = 115 ∨ n = 0x212a ∧ e.toNat = 107 ∨
          (n = 0x130 ∨ n = 0x131) ∧ e.toNat = 105) := by
    intro e he hn
    rw [labelChar] at hn
    by_cases hjoint : e = '_'
    · rw [if_pos hjoint] at hn
      exact .inl ⟨hjoint, by simpa using hn⟩
    · rw [if_neg hjoint, ignoringCase] at hn
      simp only [isLetter, Bool.or_eq_true, decide_eq_true_iff, Bool.and_eq_true, hjoint, false_or] at he
      simp only [Bool.or_eq_true, decide_eq_true_iff, Bool.and_eq_true] at hn
      refine .inr ⟨hjoint, he.1, he.2, ?_⟩
      rcases hn with (((hn | hn) | hn) | hn) | hn
      · exact .inl hn
      · exact .inr (.inl hn.2)
      · exact .inr (.inr (.inl ⟨hn.2, by rw [hn.1]; rfl⟩))
      · exact .inr (.inr (.inr (.inl ⟨hn.2, by rw [hn.1]; rfl⟩)))
      · exact .inr (.inr (.inr (.inr ⟨hn.2, by rw [hn.1]; rfl⟩)))
  rcases hcode c hc h with ⟨rfl, hn⟩ | ⟨-, hlow, hhigh, hn⟩
  · rcases hcode d hd h' with ⟨rfl, -⟩ | ⟨-, hlow, hhigh, hn'⟩
    · rfl
    · omega
  · rcases hcode d hd h' with ⟨rfl, hn'⟩ | ⟨-, hlow', hhigh', hn'⟩
    · omega
    · exact Char.toNat_inj.1 (by omega)

/-- a text spells one word only -/
theorem letters_eq {v w : List Char} (hv : ∀ c ∈ v, isLetter c = true) (hw : ∀ c ∈ w, isLetter c = true)
    {x : Text} (h : Spells (v.map labelChar) x) (h' : Spells (w.map labelChar) x) : v = w := by
  induction v generalizing w x with
  | nil =>
    cases h
    cases w with
    | nil => rfl
    | cons d w => exact nomatch h'
  | cons c v ih =>
    cases h with
    | cons hc h =>
      cases w with
      | nil => exact nomatch h'
      | cons d w =>
        cases h' with
        | cons hd h' =>
          have hcd : c = d := labelChar_inj (hv c List.mem_cons_self) (hw d List.mem_cons_self) hc hd
          rw [hcd, ih (fun e he => hv e (List.mem_cons_of_mem c he))
            (fun e he => hw e (List.mem_cons_of_mem d he)) h h']

theorem length_of_spells {w : List Char} {x : Text} (h : Spells (w.map labelChar) x) : x.length = w.length := by
  rw [← List.Forall₂.length_eq h, List.length_map]

/-- a label that stands in a part of the text, up to a place -/
theorem labelled_take {s : Text} {n : Nat} :
    Labelled (s.take n) ↔ ∃ w ∈ labels, w.length ≤ n ∧ ∃ x, Spells (w.map labelChar) x ∧ x <+: s := by
  constructor
  · rintro ⟨w', hw', x, hx, hp⟩
    obtain ⟨w, hw, rfl⟩ := List.mem_map.1 hw'
    refine ⟨w, hw, ?_, x, hx, hp.trans (List.take_prefix n s)⟩
    have hlen := hp.length_le
    rw [length_of_spells hx, List.length_take] at hlen
    omega
  · rintro ⟨w, hw, hn, x, hx, hp⟩
    refine ⟨w.map labelChar, List.mem_map.2 ⟨w, hw, rfl⟩, x, hx, ?_⟩
    exact List.prefix_take_iff.2 ⟨hp, by rw [length_of_spells hx]; exact hn⟩

theorem labelled_iff {s : Text} : Labelled s ↔ ∃ w ∈ labels, ∃ x, Spells (w.map labelChar) x ∧ x <+: s := by
  constructor
  · rintro ⟨w', hw', hx⟩
    obtain ⟨w, hw, rfl⟩ := List.mem_map.1 hw'
    exact ⟨w, hw, hx⟩
  · rintro ⟨w, hw, hx⟩
    exact ⟨w.map labelChar, List.mem_map.2 ⟨w, hw, rfl⟩, hx⟩

/-- a label that is cut off has no other one in the part that is left -/
theorem not_cut {s : Text} {n d : Nat} (hd : 0 < d) {w : List Char} (hw : w ∈ labels) (hcut : n < w.length)
    {x : Text} (hx : Spells (w.map labelChar) x) (hp : x <+: s) : ¬Labelled ((s.take n).drop d) := by
  intro h
  rw [List.drop_take] at h
  obtain ⟨v, hv, hlen, y, hy, hq⟩ := labelled_take.1 h
  have hvpos := (length_labels v hv).1
  have hwmax := (length_labels w hw).2
  have hylen := length_of_spells hy
  have hxlen := length_of_spells hx
  have hdrop : x.drop d <+: s.drop d := hp.drop d
  have hyx : y <+: x.drop d := by
    refine List.prefix_of_prefix_length_le hq hdrop ?_
    rw [List.length_drop]
    omega
  have hspell : Spells (((w.drop d).take v.length).map labelChar) y := by
    have htake : y = (x.drop d).take v.length := by
      rw [← hylen]
      exact List.prefix_iff_eq_take.1 hyx
    rw [htake, List.map_take, List.map_drop]
    exact List.forall₂_take v.length (List.forall₂_drop d hx)
  refine labels_not_nested w hw v hv d (by omega) hd (by omega) ?_
  refine letters_eq (fun c hc => ?_) (isLetter_labels v hv) hspell hy
  exact isLetter_labels w hw c (List.mem_of_mem_drop (List.mem_of_mem_take hc))

/-! ## the search in windows -/

/-- the first label from a place on -/
def First (value : Text) (position : Nat) : Option Nat → Prop
  | none => ∀ j, position ≤ j → ¬Labelled (value.drop j)
  | some start => position ≤ start ∧ start < value.length ∧ Labelled (value.drop start) ∧
      ∀ j, position ≤ j → j < start → ¬Labelled (value.drop j)

theorem not_labelled_nil : ¬Labelled [] := by
  intro h
  obtain ⟨w, hw, x, hx, hp⟩ := labelled_iff.1 h
  have hlen := length_of_spells hx
  have hpos := (length_labels w hw).1
  rw [List.prefix_nil.1 hp, List.length_nil] at hlen
  omega

/-- a label that stands in a window stands in the text -/
theorem labelled_window {value : Text} {position stop j : Nat}
    (h : Labelled (((value.take stop).drop position).drop j)) : Labelled (value.drop (position + j)) := by
  rw [List.drop_drop, List.drop_take] at h
  obtain ⟨w, hw, -, hx⟩ := labelled_take.1 h
  exact labelled_iff.2 ⟨w, hw, hx⟩

/-- the windows find the first label -/
theorem nextLabel_spec {value : Text} {chunk : Nat} (hchunk : 1 ≤ chunk) : ∀ fuel position : Nat,
    value.length - position < fuel →
      ∃ r, nextLabel value chunk fuel position = some r ∧ First value position r := by
  intro fuel
  induction fuel with
  | zero => exact fun position hfuel => absurd hfuel (Nat.not_lt_zero _)
  | succ fuel ih =>
    intro position hfuel
    rw [nextLabel]
    by_cases hpos : position < value.length
    · rw [if_pos hpos]
      have hfirst := search_first run_secretLabel
        ((value.take (min value.length (position + chunk + labelOverlap))).drop position) none
      dsimp only
      generalize hstop : min value.length (position + chunk + labelOverlap) = stop at hfirst
      cases hsearch : search secretLabel none ((value.take stop).drop position) with
      | some found =>
        rw [hsearch] at hfirst
        obtain ⟨hle, hhere, hbefore⟩ := hfirst
        have hlabel := labelled_window hhere
        refine ⟨some (position + found.1), rfl, Nat.le_add_right _ _, ?_, hlabel, fun j hj hjs => ?_⟩
        · by_contra hend
          rw [List.drop_of_length_le (by omega)] at hlabel
          exact not_labelled_nil hlabel
        · -- an earlier label would be cut off by the window, and the found one stands inside it
          intro hj'
          obtain ⟨w, hw, x, hx, hp⟩ := labelled_iff.1 hj'
          have hin : ((value.take stop).drop position).drop (j - position) = (value.drop j).take (stop - j) := by
            rw [List.drop_drop, List.drop_take, Nat.add_sub_cancel' hj]
          have hcut : stop - j < w.length := by
            by_contra hfits
            refine hbefore (j - position) (by omega) ?_
            rw [hin]
            exact labelled_take.2 ⟨w, hw, Nat.not_lt.1 hfits, x, hx, hp⟩
          refine not_cut (d := position + found.1 - j) (by omega) hw hcut hx hp ?_
          rw [← hin, List.drop_drop, show j - position + (position + found.1 - j) = found.1 by omega]
          exact hhere
      | none =>
        rw [hsearch] at hfirst
        obtain ⟨r, hr, hlater⟩ := ih (position + chunk) (by omega)
        have hnone : ∀ j, position ≤ j → j < position + chunk → ¬Labelled (value.drop j) := by
          intro j hj hjc hlabel
          obtain ⟨w, hw, x, hx, hp⟩ := labelled_iff.1 hlabel
          obtain ⟨hmin, hmax⟩ := length_labels w hw
          have hxlen := length_of_spells hx
          have hplen := hp.length_le
          rw [List.length_drop] at hplen
          have hover : labelOverlap = 64 := rfl
          refine hfirst (j - position) ?_ ?_
          · rw [List.length_drop, List.length_take, ← hstop]
            omega
          · rw [List.drop_drop, List.drop_take, Nat.add_sub_cancel' hj]
            exact labelled_take.2 ⟨w, hw, by omega, x, hx, hp⟩
        refine ⟨r, hr, ?_⟩
        cases r with
        | none =>
          intro j hj
          rcases Nat.lt_or_ge j (position + chunk) with hjc | hjc
          · exact hnone j hj hjc
          · exact hlater j hjc
        | some start =>
          obtain ⟨hle, hlt, hlabel, hbefore⟩ := hlater
          refine ⟨by omega, hlt, hlabel, fun j hj hjs => ?_⟩
          rcases Nat.lt_or_ge j (position + chunk) with hjc | hjc
          · exact hnone j hj hjc
          · exact hbefore j hjc hjs
    · rw [if_neg hpos]
      refine ⟨none, rfl, fun j hj hlabel => ?_⟩
      rw [List.drop_of_length_le (by omega)] at hlabel
      exact not_labelled_nil hlabel

/-! ## matches and labels -/

variable {p : Pattern Nat} {isWord : Nat → Bool} {value : Text}

/-- the character at a place is a quote -/
def quoteAt (value : Text) (i : Nat) : Prop := (value[i]?).any isQuote = true

/-- a match has a label at its start, or after a quote there -/
theorem label_of_match (hp : p.kept = assignedPrefix isWord) {i k m : Nat}
    (h : p.matchAt value i = some (k, m)) :
    (Labelled (value.drop i) ∨ quoteAt value i ∧ Labelled (value.drop (i + 1))) ∧ 5 ≤ k ∧
      i + (k + m) ≤ value.length := by
  obtain ⟨d, hd, hk, hkm⟩ := matchParts_some h
  rw [hp, assignedPrefix, Sanitize.sequence, List.foldr_cons, List.foldr_cons, List.foldr_cons] at hd
  obtain ⟨a, ha, hquote⟩ := mem_run_seq.1 hd
  obtain ⟨b, hb, hword⟩ := mem_run_seq.1 hquote
  obtain ⟨e, he, hrest⟩ := mem_run_seq.1 hword
  have hac : a = cursorAt value i := by
    rw [run] at ha
    split_ifs at ha
    · exact List.mem_singleton.1 ha
    · cases ha
  obtain rfl := hac
  obtain ⟨w', hw', x, hx, hbe⟩ := word_of_mem_run plain_secretLabel he
  rw [words_secretLabel] at hw'
  have hlabel : Labelled b.2 := ⟨w', hw', x, hx, e.2, hbe.symm⟩
  obtain ⟨w, hw, rfl⟩ := List.mem_map.1 hw'
  have hwlen := (length_labels w hw).1
  have hxlen := length_of_spells hx
  have hde : d.2.length ≤ e.2.length := (run_suffix _ e d hrest).length_le
  have hbc : b.2.length ≤ (cursorAt value i).2.length := (run_suffix _ _ b hb).length_le
  have hblen : b.2.length = x.length + e.2.length := by rw [hbe, List.length_append]
  have hlen : (cursorAt value i).2.length = value.length - i := List.length_drop
  refine ⟨?_, by omega, by omega⟩
  rcases List.mem_append.1 hb with hb | hb
  · right
    cases hdrop : value.drop i with
    | nil => rw [cursorAt, hdrop] at hb; cases hb
    | cons q s =>
      rw [cursorAt, hdrop, run] at hb
      split_ifs at hb with hq
      · obtain rfl := List.mem_singleton.1 hb
        have hget : value[i]? = some q := by rw [← List.head?_drop, hdrop]; rfl
        refine ⟨?_, ?_⟩
        · rw [quoteAt, hget]
          exact hq
        · rw [← List.drop_drop, hdrop]
          exact hlabel
      · cases hb
  · left
    obtain rfl := List.mem_singleton.1 hb
    exact hlabel

/-! ## the loop -/

/-- before the first label there is no match, but at the quote before it -/
theorem no_match_before (hp : p.kept = assignedPrefix isWord) {cursor position start i : Nat}
    (hquiet : ∀ i, cursor ≤ i → i < position → p.matchAt value i = none)
    (hfirst : First value position (some start))
    (hquote : start = i + 1 → quoteAt value i → p.matchAt value i = none)
    (hi : cursor ≤ i) (his : i < start) : p.matchAt value i = none := by
  rcases Nat.lt_or_ge i position with hpos | hpos
  · exact hquiet i hi hpos
  · cases hm : p.matchAt value i with
    | none => rfl
    | some found =>
      obtain ⟨hlabel | ⟨hq, hlabel⟩, -⟩ := label_of_match hp hm
      · exact absurd hlabel (hfirst.2.2.2 i hpos his)
      · by_cases hnext : i + 1 < start
        · exact absurd hlabel (hfirst.2.2.2 (i + 1) (by omega) hnext)
        · rw [hquote (by omega) hq] at hm
          exact nomatch hm

/-- the match at a label is the first one that can be there -/
theorem labelMatch_none {cursor start : Nat} (h : labelMatch p value cursor start = none) :
    p.matchAt value start = none ∧
      ∀ i, cursor ≤ i → start = i + 1 → quoteAt value i → p.matchAt value i = none := by
  rw [labelMatch, Option.or_eq_none_iff, Option.map_eq_none_iff] at h
  refine ⟨h.2, fun i hi hstart hq => ?_⟩
  have hfirst := h.1
  rw [hstart, Nat.add_sub_cancel, if_pos ⟨Nat.succ_le_succ hi, hq⟩, Option.map_eq_none_iff] at hfirst
  exact hfirst

theorem labelMatch_some {cursor start i k m : Nat} (hle : cursor ≤ start)
    (h : labelMatch p value cursor start = some (i, k, m)) :
    p.matchAt value i = some (k, m) ∧ cursor ≤ i ∧ i ≤ start ∧ start ≤ i + 1 ∧
      ∀ j, cursor ≤ j → j < i → start = j + 1 → quoteAt value j → p.matchAt value j = none := by
  rw [labelMatch, Option.or_eq_some_iff] at h
  rcases h with h | ⟨hnone, h⟩
  · split_ifs at h with hcond
    obtain ⟨found, hfound, hpair⟩ := Option.map_eq_some_iff.1 h
    obtain ⟨rfl, rfl⟩ := Prod.mk.inj hpair
    exact ⟨hfound, by omega, by omega, by omega, fun j _ hj hstart => absurd hstart (by omega)⟩
  · obtain ⟨found, hfound, hpair⟩ := Option.map_eq_some_iff.1 h
    obtain ⟨rfl, rfl⟩ := Prod.mk.inj hpair
    refine ⟨hfound, hle, Nat.le_refl _, Nat.le_succ _, fun j hj _ hstart hq => ?_⟩
    rw [hstart, Nat.add_sub_cancel, if_pos ⟨Nat.succ_le_succ hj, hq⟩, Option.map_eq_none_iff] at hnone
    exact hnone

/-- the loop makes of the rest of the text what `pattern.sub` makes of it -/
theorem assignedLoop_eq (hp : p.kept = assignedPrefix isWord) {chunk : Nat} (hchunk : 1 ≤ chunk) :
    ∀ (fuel : Nat) (parts : List Text) (cursor position : Nat), cursor ≤ position → position ≤ value.length →
      value.length - position < fuel → (∀ i, cursor ≤ i → i < position → p.matchAt value i = none) →
        (parts = [] → cursor = 0) →
          assignedLoop p value chunk fuel parts cursor position
            = some (parts.flatten ++ p.subFrom value cursor) := by
  intro fuel
  induction fuel with
  | zero => exact fun _ _ _ _ _ hfuel => absurd hfuel (Nat.not_lt_zero _)
  | succ fuel ih =>
    intro parts cursor position hcursor hposition hfuel hquiet hparts
    obtain ⟨r, hr, hfirst⟩ := @nextLabel_spec value chunk hchunk (value.length + 1) position (by omega)
    rw [assignedLoop, hr]
    cases r with
    | none =>
      have hend : p.subFrom value cursor = value.drop cursor := by
        refine Pattern.subFrom_end (by omega) fun i hi _ => ?_
        cases hm : p.matchAt value i with
        | none => rfl
        | some found =>
          rcases Nat.lt_or_ge i position with hpos | hpos
          · rw [hquiet i hi hpos] at hm
            exact nomatch hm
          · obtain ⟨hlabel | ⟨-, hlabel⟩, -⟩ := label_of_match hp hm
            · exact absurd hlabel (hfirst i hpos)
            · exact absurd hlabel (hfirst (i + 1) (by omega))
      dsimp only
      by_cases hnil : parts = []
      · rw [if_pos hnil, hend, hparts hnil, hnil]
        rfl
      · rw [if_neg hnil, hend, List.flatten_append, List.flatten_singleton]
    | some start =>
      obtain ⟨hstart, hlt, -, -⟩ := id hfirst
      dsimp only
      cases hmatch : labelMatch p value cursor start with
      | none =>
        obtain ⟨hhere, hquote⟩ := labelMatch_none hmatch
        refine ih parts cursor (start + 1) (by omega) (by omega) (by omega) (fun i hi his => ?_) hparts
        rcases Nat.lt_or_ge i start with hbefore | hbefore
        · exact no_match_before hp hquiet hfirst (hquote i hi) hi hbefore
        · obtain rfl : i = start := by omega
          exact hhere
      | some found =>
        obtain ⟨i, k, m⟩ := found
        obtain ⟨hm, hci, his, hsi, hquote⟩ := labelMatch_some (by omega) hmatch
        obtain ⟨-, hk, hend⟩ := label_of_match hp hm
        dsimp only
        rw [ih _ (i + (k + m)) (i + (k + m)) (Nat.le_refl _) hend (by omega)
          (fun j hj hj' => absurd hj (Nat.not_le.2 hj')) (fun h => absurd h (by simp))]
        have hskip : ∀ j, cursor ≤ j → j < i → p.matchAt value j = none := by
          intro j hj hji
          exact no_match_before hp hquiet hfirst (hquote j hj hji) hj (by omega)
        rw [Pattern.subFrom_skip hci (by omega) hskip, Pattern.subFrom_match hm (by omega) hend,
          List.flatten_append]
        simp only [List.flatten_cons, List.flatten_nil, List.append_nil, List.append_assoc]

/-- searching the labels in windows does what `pattern.sub` does -/
theorem assigned_eq_sub (isWord : Nat → Bool) (p : Pattern Nat)
    (hp : p = quotedSecret isWord ∨ p = bareSecret isWord) (value : Text) (chunk : Nat) (hchunk : 1 ≤ chunk) :
    assigned p value chunk = some (p.sub value) := by
  have hkept : p.kept = assignedPrefix isWord := by
    rcases hp with rfl | rfl <;> rfl
  rw [assigned, assignedLoop_eq hkept hchunk (value.length + 1) [] 0 0 (Nat.le_refl _) (Nat.zero_le _)
    (by omega) (fun i _ hi => absurd hi (Nat.not_lt_zero i)) (fun _ => rfl), List.flatten_nil, List.nil_append,
    Pattern.subFrom_zero]

/-- a window of one character, and labels that stand in one another -/
theorem assigned_eq_sub_accessToken :
    let isWord : Nat → Bool := fun n => (Char.ofNat n).isAlphanum || n = 95
    let text : String → Text := fun s => s.toList.map Char.toNat
    assigned (bareSecret isWord) (text "mytoken=1, 'access token' = x") 1
      = some ((bareSecret isWord).sub (text "mytoken=1, 'access token' = x")) ∧
    (bareSecret isWord).sub (text "mytoken=1, 'access token' = x")
      = text "mytoken=1, 'access token' = <REDACTED>" :=
  ⟨assigned_eq_sub _ _ (.inr rfl) _ 1 (Nat.le_refl 1), by decide +kernel⟩

end Netops.Labels
