import Mathlib.Data.List.Count
import Mathlib.Data.List.TakeWhile
import Netops.Lib.Holdback

/-!
# The pager of a FortiADC (`config_fortiadc.py`)

A FortiADC writes a prompt after each screen of a configuration and erases it with blanks.  `Normalizer`
takes these prompts out of the stream; a carriage return that is not part of one is an error.

* `pager`         the delimiter: `PAGER` and `_PARTIAL`;
* `Normalizer`    `feed` and `finish`, `run` for all chunks of a stream;
* `run_exact`     the chunks do not matter.
-/

namespace Netops.Pager
open Holdback

abbrev Bytes := List UInt8

/-- `--More-- \r` -/
def pagerHeader : Bytes := [45, 45, 77, 111, 114, 101, 45, 45, 32, 13]

/-- a whole prompt, with `k` blanks -/
def prompt (k : Nat) : Bytes := pagerHeader ++ (List.replicate k 32 ++ [13])

/-- the length of the match of `PAGER` at the start of a text -/
def pagerLength (s : Bytes) : Option Nat :=
  if pagerHeader.isPrefixOf s then
    let rest := s.drop pagerHeader.length
    let blanks := (rest.takeWhile fun b => b = 32).length
    if 1 ≤ blanks ∧ blanks ≤ 256 ∧ (rest.dropWhile fun b => b = 32).head? = some 13 then
      some (pagerHeader.length + blanks + 1)
    else none
  else none

/-- a full match of `_PARTIAL` -/
def isPartialPager (s : Bytes) : Bool := s ≠ [] && s.isPrefixOf (pagerHeader ++ List.replicate 256 32)

def pager : Delimiter UInt8 := ⟨pagerLength, isPartialPager⟩

/-- `_TAIL` -/
def pagerTail : Nat := 267

/-! ## the normalizer -/

inductive PagerError where
  | notNormalized
  | captureLimitExceeded
  | carriageReturn
  | insidePrompt

/-- the attributes, and what the consumer has got -/
structure Normalizer where
  maximum : Nat
  rawBytes : Nat
  tail : Bytes
  closed : Bool
  received : List Bytes

def Normalizer.new (maximum : Nat) : Normalizer := ⟨maximum, 0, [], false, []⟩

/-- `feed`: the error, if there is one, and the attributes after it -/
def Normalizer.feed (n : Normalizer) (data : Bytes) : Option PagerError × Normalizer :=
  if n.closed then (some .notNormalized, n)
  else
    let n := { n with rawBytes := n.rawBytes + data.length }
    if n.rawBytes > n.maximum then (some .captureLimitExceeded, { n with closed := true })
    else
      let pieces := cut pager (n.tail ++ data)
      let last := pieces.getLastD []
      let tail := held pager (last.drop (last.length - pagerTail))
      let chunk := pieces.dropLast.flatten ++ last.take (last.length - tail.length)
      let n := { n with tail := tail }
      if 13 ∈ chunk then (some .carriageReturn, { n with closed := true })
      else if chunk ≠ [] then (none, { n with received := n.received ++ [chunk] })
      else (none, n)

/-- `finish` -/
def Normalizer.finish (n : Normalizer) : Option PagerError × Normalizer :=
  if n.closed ∨ n.tail ≠ [] then (some .insidePrompt, { n with closed := true })
  else (none, { n with closed := true })

/-- all chunks of a stream; an error ends the run -/
def Normalizer.run (n : Normalizer) : List Bytes → Option PagerError × Normalizer
  | [] => n.finish
  | data :: chunks =>
    match n.feed data with
    | (some e, n) => (some e, n)
    | (none, n) => n.run chunks

/-! ## prompts -/

theorem pagerLength_eq_some_iff {s : Bytes} {n : Nat} :
    pagerLength s = some n ↔ ∃ k, 1 ≤ k ∧ k ≤ 256 ∧ prompt k <+: s ∧ n = (prompt k).length := by
  have hlength : ∀ k, (prompt k).length = pagerHeader.length + k + 1 := by
    intro k
    rw [prompt, List.length_append, List.length_append, List.length_replicate, List.length_singleton,
      Nat.add_assoc]
  constructor
  · intro h
    unfold pagerLength at h
    dsimp only at h
    split_ifs at h with hheader hblanks
    obtain ⟨rest, rfl⟩ := List.isPrefixOf_iff_prefix.1 hheader
    rw [List.drop_left] at hblanks h
    refine ⟨_, hblanks.1, hblanks.2.1, ?_, by rw [hlength]; exact (Option.some.inj h).symm⟩
    refine (List.prefix_append_right_inj _).2 ?_
    have htake : List.replicate (rest.takeWhile fun b => b = 32).length 32
        = rest.takeWhile fun b => b = 32 := by
      refine (List.eq_replicate_of_mem fun b hb => ?_).symm
      simpa using List.mem_takeWhile_imp hb
    rw [htake]
    nth_rewrite 2 [← List.takeWhile_append_dropWhile (p := fun b => decide (b = 32)) (l := rest)]
    refine (List.prefix_append_right_inj _).2 ?_
    obtain ⟨more, hmore⟩ := List.head?_eq_some_iff.1 hblanks.2.2
    rw [hmore]
    exact ⟨more, rfl⟩
  · rintro ⟨k, hk, hk', ⟨more, rfl⟩, rfl⟩
    have hblanks : ∀ b ∈ List.replicate k (32 : UInt8), decide (b = 32) = true := by
      intro b hb
      rw [List.eq_of_mem_replicate hb]
      rfl
    have htake : ((List.replicate k (32 : UInt8) ++ 13 :: more).takeWhile fun b => b = 32)
        = List.replicate k 32 := by
      rw [List.takeWhile_append_of_pos hblanks]
      simp
    have hdrop : ((List.replicate k (32 : UInt8) ++ 13 :: more).dropWhile fun b => b = 32)
        = 13 :: more := by
      rw [List.dropWhile_append_of_pos hblanks]
      rfl
    have hs : prompt k ++ more = pagerHeader ++ (List.replicate k 32 ++ 13 :: more) := by
      rw [prompt, List.append_assoc, List.append_assoc]
      rfl
    rw [pagerLength, hs, if_pos (List.isPrefixOf_iff_prefix.2 ⟨_, rfl⟩)]
    dsimp only
    rw [List.drop_left, htake, hdrop, List.length_replicate, if_pos ⟨hk, hk', rfl⟩, hlength]

theorem isPartialPager_iff {s : Bytes} :
    isPartialPager s = true ↔ s ≠ [] ∧ s <+: pagerHeader ++ List.replicate 256 32 := by
  rw [isPartialPager, Bool.and_eq_true, decide_eq_true_eq, List.isPrefixOf_iff_prefix]

/-- a beginning of a prompt that is not all of it -/
theorem prefix_of_prompt {s : Bytes} {k : Nat} (hk : k ≤ 256) (h : s <+: prompt k)
    (hlt : s.length < (prompt k).length) : s <+: pagerHeader ++ List.replicate 256 32 := by
  have hdrop : s <+: pagerHeader ++ List.replicate k 32 := by
    refine List.prefix_of_prefix_length_le h ?_ ?_
    · exact ⟨[13], by rw [prompt, List.append_assoc]⟩
    · rw [prompt, List.length_append, List.length_append, List.length_singleton] at hlt
      rw [List.length_append]
      omega
  refine hdrop.trans ((List.prefix_append_right_inj _).2 ?_)
  exact ⟨List.replicate (256 - k) 32, by rw [List.replicate_append_replicate, Nat.add_sub_cancel' hk]⟩

theorem pager_lawful : pager.Lawful where
  pos := by
    intro s n h
    obtain ⟨k, -, -, hfront, rfl⟩ := pagerLength_eq_some_iff.1 h
    exact ⟨List.length_pos_of_ne_nil (List.cons_ne_nil _ _), hfront.length_le⟩
  extend := by
    intro s n t h
    obtain ⟨k, hk, hk', hfront, rfl⟩ := pagerLength_eq_some_iff.1 h
    exact pagerLength_eq_some_iff.2 ⟨k, hk, hk', hfront.trans (List.prefix_append s t), rfl⟩
  inside := by
    intro s t n h hle
    obtain ⟨k, hk, hk', hfront, rfl⟩ := pagerLength_eq_some_iff.1 h
    exact pagerLength_eq_some_iff.2
      ⟨k, hk, hk', List.prefix_of_prefix_length_le hfront (List.prefix_append s t) hle, rfl⟩
  across := by
    intro s t n h hne hlt
    obtain ⟨k, hk, hk', hfront, rfl⟩ := pagerLength_eq_some_iff.1 h
    have hs := List.prefix_of_prefix_length_le (List.prefix_append s t) hfront (Nat.le_of_lt hlt)
    exact isPartialPager_iff.2 ⟨hne, prefix_of_prompt hk' hs hlt⟩
  begun_left := by
    intro s t h hne
    exact isPartialPager_iff.2 ⟨hne, (List.prefix_append s t).trans (isPartialPager_iff.1 h).2⟩
  begun_right := by
    intro s t h
    show pagerLength t = none
    rw [Option.eq_none_iff_forall_ne_some]
    intro n hn
    obtain ⟨k, -, -, hfront, -⟩ := pagerLength_eq_some_iff.1 hn
    -- a prompt has two carriage returns, and its beginning has one
    have htwo : (prompt k).count 13 ≤ (s ++ t).count 13 := by
      rw [List.count_append]
      exact Nat.le_add_left_of_le (hfront.sublist.count_le 13)
    have hone := (isPartialPager_iff.1 h).2.sublist.count_le 13
    have hblanks : ∀ j, (List.replicate j (32 : UInt8)).count 13 = 0 := fun j =>
      List.count_eq_zero.2 fun hin => absurd (List.eq_of_mem_replicate hin) (by decide)
    have hheader : pagerHeader.count 13 = 1 := by decide
    rw [prompt, List.count_append, List.count_append, hblanks, hheader] at htwo
    rw [@List.count_append _ _ _ pagerHeader, hblanks, hheader] at hone
    have hlast : ([13] : Bytes).count 13 = 1 := by decide
    omega
  begun_nil := rfl

theorem isPartialPager_length {q : Bytes} (h : pager.begun q = true) : q.length ≤ pagerTail := by
  have hle := (isPartialPager_iff.1 h).2.length_le
  rw [List.length_append, List.length_replicate] at hle
  exact hle.trans (by decide)

/-! ## chunks -/

/-- what a call passes on and holds back, as the one pass does -/
theorem feed_settles (buffer : Bytes) :
    held pager ((remainder pager buffer).drop ((remainder pager buffer).length - pagerTail))
      = (settle pager buffer).2 ∧
    (cut pager buffer).dropLast.flatten ++ (remainder pager buffer).take
      ((remainder pager buffer).length - (settle pager buffer).2.length) = (settle pager buffer).1 := by
  obtain ⟨hall, hheld⟩ := settle_eq pager_lawful buffer
  refine ⟨(held_drop (fun _ => isPartialPager_length) _).trans hheld.symm, ?_⟩
  have hcut : (cut pager buffer).dropLast.flatten ++ remainder pager buffer = (cut pager buffer).flatten := by
    have hlast := List.dropLast_append_getLast (cut_ne_nil (d := pager) buffer)
    rw [remainder, List.getLastD_eq_getLast?, List.getLast?_eq_some_getLast (cut_ne_nil _), Option.getD_some]
    nth_rewrite 3 [← hlast]
    rw [List.flatten_append, List.flatten_singleton]
  obtain ⟨front, hfront⟩ := held_suffix (d := pager) (remainder pager buffer)
  rw [← hheld] at hfront
  have htake : (remainder pager buffer).take
      ((remainder pager buffer).length - (settle pager buffer).2.length) = front := by
    have hlen := congrArg List.length hfront
    rw [List.length_append] at hlen
    have hdiff : (remainder pager buffer).length - (settle pager buffer).2.length = front.length := by omega
    rw [hdiff, ← hfront, List.take_left]
  rw [htake]
  rw [← hcut, ← hfront, ← List.append_assoc] at hall
  exact (List.append_cancel_right hall).symm

/-- the attributes after a stream -/
structure After (maximum : Nat) (stream : Bytes) (n : Normalizer) : Prop where
  hmaximum : n.maximum = maximum
  hraw : n.rawBytes = stream.length
  isOpen : n.closed = false
  htail : n.tail = (settle pager stream).2
  hreceived : n.received.flatten = (settle pager stream).1

theorem after_new (maximum : Nat) : After maximum [] (Normalizer.new maximum) where
  hmaximum := rfl
  hraw := rfl
  isOpen := rfl
  htail := by rw [settle]; rfl
  hreceived := by rw [settle]; rfl

/-- one chunk more: the call fails if it passes on a carriage return, and only then -/
theorem feed_step {maximum : Nat} {stream data : Bytes} {n : Normalizer} (h : After maximum stream n)
    (hle : (stream ++ data).length ≤ maximum) :
    (13 ∈ (settle pager ((settle pager stream).2 ++ data)).1 ∧ (n.feed data).1 ≠ none) ∨
      (13 ∉ (settle pager ((settle pager stream).2 ++ data)).1 ∧
        ∃ n', n.feed data = (none, n') ∧ After maximum (stream ++ data) n') := by
  obtain ⟨htail, hchunk⟩ := feed_settles (n.tail ++ data)
  rw [remainder] at htail hchunk
  have hlimit : ¬n.rawBytes + data.length > n.maximum := by
    rw [h.hraw, h.hmaximum, ← List.length_append]
    exact Nat.not_lt_of_le hle
  have happend := settle_append pager_lawful stream data
  rw [← h.htail] at happend ⊢
  rw [Normalizer.feed, if_neg (by rw [h.isOpen]; exact Bool.false_ne_true)]
  dsimp only
  rw [if_neg hlimit, htail, hchunk]
  by_cases hcr : 13 ∈ (settle pager (n.tail ++ data)).1
  · rw [if_pos hcr]
    exact .inl ⟨hcr, Option.some_ne_none _⟩
  · rw [if_neg hcr]
    refine .inr ⟨hcr, ?_⟩
    by_cases hne : (settle pager (n.tail ++ data)).1 = []
    · rw [if_neg (not_not.2 hne)]
      refine ⟨_, rfl, h.hmaximum, ?_, h.isOpen, ?_, ?_⟩
      · rw [List.length_append, ← h.hraw]
      · rw [happend]
      · rw [happend, hne, List.append_nil]
        exact h.hreceived
    · rw [if_pos hne]
      refine ⟨_, rfl, h.hmaximum, ?_, h.isOpen, ?_, ?_⟩
      · rw [List.length_append, ← h.hraw]
      · rw [happend]
      · rw [happend, List.flatten_append, List.flatten_singleton, h.hreceived]

/-- all chunks: the run succeeds if nothing is held back in the end and no carriage return was passed on -/
theorem run_after {maximum : Nat} {chunks : List Bytes} {stream : Bytes} {n : Normalizer}
    (h : After maximum stream n) (hcr : 13 ∉ (settle pager stream).1)
    (hle : (stream ++ chunks.flatten).length ≤ maximum) :
    ((n.run chunks).1 = none ↔ 13 ∉ (settle pager (stream ++ chunks.flatten)).1 ∧
      (settle pager (stream ++ chunks.flatten)).2 = []) ∧
    ((n.run chunks).1 = none →
      (n.run chunks).2.received.flatten = (settle pager (stream ++ chunks.flatten)).1) := by
  induction chunks generalizing stream n with
  | nil =>
    rw [List.flatten_nil, List.append_nil, Normalizer.run, Normalizer.finish, h.isOpen, h.htail]
    by_cases hnil : (settle pager stream).2 = []
    · rw [if_neg (by rw [hnil]; decide)]
      exact ⟨⟨fun _ => ⟨hcr, hnil⟩, fun _ => rfl⟩, fun _ => h.hreceived⟩
    · rw [if_pos (.inr hnil)]
      exact ⟨⟨fun hx => (nomatch hx), fun hx => absurd hx.2 hnil⟩, fun hx => (nomatch hx)⟩
  | cons data chunks ih =>
    rw [List.flatten_cons, ← List.append_assoc] at hle ⊢
    have hdata : (stream ++ data).length ≤ maximum := by
      rw [List.length_append] at hle
      omega
    have hfirst : ∀ t, (settle pager (stream ++ t)).1
        = (settle pager stream).1 ++ (settle pager ((settle pager stream).2 ++ t)).1 := fun t => by
      rw [settle_append pager_lawful stream t]
    rcases feed_step h hdata with ⟨hin, hfail⟩ | ⟨hout, n', hfeed, hafter⟩
    · -- the carriage return stays in what is passed on
      have hstay : 13 ∈ (settle pager (stream ++ data ++ chunks.flatten)).1 := by
        rw [settle_append pager_lawful (stream ++ data), hfirst data]
        exact List.mem_append_left _ (List.mem_append_right _ hin)
      have hrun : (n.run (data :: chunks)).1 ≠ none := by
        rw [Normalizer.run]
        cases hf : n.feed data with
        | mk e n' =>
          rw [hf] at hfail
          cases e with
          | none => exact absurd rfl hfail
          | some e => exact Option.some_ne_none _
      exact ⟨⟨fun hx => absurd hx hrun, fun hx => absurd hstay hx.1⟩, fun hx => absurd hx hrun⟩
    · have hrun : n.run (data :: chunks) = n'.run chunks := by rw [Normalizer.run, hfeed]
      rw [hrun]
      refine ih hafter ?_ hle
      rw [hfirst data, List.mem_append]
      exact fun hx => hx.elim hcr hout

/-! ## the whole stream at once -/

/-- the stream without its prompts -/
def withoutPagers (stream : Bytes) : Bytes := (cut pager stream).flatten

/-- a non-empty proper prefix of a prompt -/
def IsBegunPrompt (q : Bytes) : Prop :=
  q ≠ [] ∧ ∃ k, 1 ≤ k ∧ k ≤ 256 ∧ q <+: prompt k ∧ q ≠ prompt k

theorem isBegunPrompt_iff {q : Bytes} : IsBegunPrompt q ↔ pager.begun q = true := by
  refine Iff.trans (and_congr_right fun _ => ?_) isPartialPager_iff.symm
  constructor
  · rintro ⟨k, -, hk, hfront, hne⟩
    exact prefix_of_prompt hk hfront
      (lt_of_le_of_ne hfront.length_le fun he => hne (hfront.eq_of_length he))
  · intro h
    refine ⟨256, by decide, le_rfl, h.trans ⟨[13], by rw [prompt, List.append_assoc]⟩, ?_⟩
    rintro rfl
    have hle := h.length_le
    rw [prompt, List.length_append, List.length_append, List.length_append, List.length_replicate,
      List.length_singleton] at hle
    omega

/-- **The chunks do not matter.**  A stream within the limit is accepted if and only if without its
prompts it has no carriage return and does not end inside of a prompt; the consumer then gets the stream
without its prompts. -/
theorem run_exact {maximum : Nat} {chunks : List Bytes} (hle : chunks.flatten.length ≤ maximum) :
    (((Normalizer.new maximum).run chunks).1 = none ↔ 13 ∉ withoutPagers chunks.flatten ∧
      ∀ q, q <:+ remainder pager chunks.flatten → ¬IsBegunPrompt q) ∧
    (((Normalizer.new maximum).run chunks).1 = none →
      ((Normalizer.new maximum).run chunks).2.received.flatten = withoutPagers chunks.flatten) := by
  obtain ⟨hiff, hreceived⟩ := run_after (after_new maximum)
    (by rw [settle]; exact List.not_mem_nil) hle
  rw [List.nil_append] at hiff hreceived
  obtain ⟨hall, hheld⟩ := settle_eq pager_lawful chunks.flatten
  have hend : (settle pager chunks.flatten).2 = [] ↔
      ∀ q, q <:+ remainder pager chunks.flatten → ¬IsBegunPrompt q := by
    rw [hheld, held_eq_nil_iff]
    refine forall_congr' fun q => forall_congr' fun _ => ?_
    rw [isBegunPrompt_iff, Bool.not_eq_true]
    refine ⟨fun h => ?_, fun h _ => h⟩
    by_cases hq : q = []
    · rw [hq]
      rfl
    · exact h hq
  have hdeleted : (settle pager chunks.flatten).2 = [] →
      (settle pager chunks.flatten).1 = withoutPagers chunks.flatten := by
    intro hnil
    rw [withoutPagers, ← hall, hnil, List.append_nil]
  refine ⟨hiff.trans ?_, fun hok => ?_⟩
  · rw [hend]
    refine and_congr_left fun hq => ?_
    rw [hdeleted (hend.2 hq)]
  · rw [hreceived hok]
    exact hdeleted (hiff.1 hok).2

/-- a prompt in two chunks -/
def cutPrompt : List Bytes := [[97, 45, 45, 77, 111], [114, 101, 45, 45, 32, 13, 32, 13, 98]]

theorem run_exact_cut : cutPrompt.flatten.length ≤ 100 ∧
    ((Normalizer.new 100).run cutPrompt).1 = none ∧
    ((Normalizer.new 100).run cutPrompt).2.received.flatten = [97, 98] := by
  have hlength : cutPrompt.flatten.length ≤ 100 := by decide
  have hcut : cut pager cutPrompt.flatten = [[97], [98]] := by
    simp +decide [cutPrompt, cut, pager, pagerLength, pagerHeader]
  have hlast : ∀ q, q <:+ remainder pager cutPrompt.flatten → ¬IsBegunPrompt q := by
    intro q hq
    rw [remainder, hcut] at hq
    rw [isBegunPrompt_iff]
    have hall : ∀ q ∈ ([98] : Bytes).tails, ¬pager.begun q = true := by decide
    exact hall q ((List.mem_tails q _).2 hq)
  obtain ⟨hiff, hreceived⟩ := run_exact hlength
  have hnone := hiff.2 ⟨by rw [withoutPagers, hcut]; decide, hlast⟩
  refine ⟨hlength, hnone, ?_⟩
  rw [hreceived hnone, withoutPagers, hcut]
  rfl

end Netops.Pager
