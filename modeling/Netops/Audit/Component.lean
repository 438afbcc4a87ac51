import Netops.Lib.Json
import Netops.Lib.Utf8

/-!
# The audit log of a component (`netops_core/audit.py`)

A record is one line of JSON at the end of `path`; a full segment moves to `path.1`, and the older
segments move up.  A call may stop after any operation on the disk, and a write after any byte.

* `Op`, `rotateOps`   the renames of `_rotate`, in order;
* `record`            `Recorder.record`, up to where its `Fate` stops it;
* `history`           the segments that were removed, and those that are there, from the oldest on;
* `record_log`        each record that returned is one whole line of the history, in order.
-/

namespace Netops.Recorder

abbrev Bytes := List UInt8

def lineEnd : UInt8 := 10

/-- `Recorder.__init__` -/
structure Settings where
  segmentBytes : Nat
  retainedSegments : Nat
  segmentBytes_pos : 1 ≤ segmentBytes
  retainedSegments_pos : 1 ≤ retainedSegments

/-- the text of a record: not empty, and one line -/
structure Entry where
  text : Bytes
  nonempty : text ≠ []
  inline : lineEnd ∉ text

/-- `json.dumps(payload, separators=(",", ":"), sort_keys=True).encode()` -/
def Entry.ofPayload (fields : List (List Nat × Json.Value))
    (h : Json.PlainNumbers (Json.sorted (.obj fields)).leaves) : Entry where
  text := Utf8.encode (Json.dumps (Json.sorted (.obj fields)))
  nonempty := by
    rw [Json.sorted, Json.dumps, Json.write]
    exact fun h => nomatch h
  inline := by
    intro hb
    obtain ⟨c, hc, hb⟩ := List.mem_flatMap.1 hb
    have hcontrol := Json.dumps_noControl _ h c hc
    have hge : 32 ≤ lineEnd.toNat := by
      rcases Utf8.mem_utf8EncodeChar hb with he | he <;> omega
    exact absurd hge (by decide)

/-- a segment that was removed: where it stood, and whether all places for rotated segments were taken -/
structure Dropped where
  index : Nat
  full : Bool
  content : Bytes

/-- the disk, and the records that were tried so far with whether the call returned -/
structure Log where
  files : Nat → Option Bytes
  dropped : List Dropped
  calls : List (Entry × Bool)

def Log.start : Log := ⟨fun _ => none, [], []⟩

/-! ## rotation -/

inductive Op where
  /-- `os.unlink` -/
  | unlink (index : Nat)
  /-- `os.replace` of a segment to the next index -/
  | shift (index : Nat)

/-- `retained_segments - 1` -/
def Settings.oldest (s : Settings) : Nat := s.retainedSegments - 1

def occupied (files : Nat → Option Bytes) (index : Nat) : Bool := (files index).isSome

/-- `none` where the operation fails: the file is not there -/
def Op.exec (s : Settings) (l : Log) : Op → Option Log
  | .unlink index => (l.files index).map fun content =>
      { l with
        files := Function.update l.files index none
        dropped := l.dropped ++
          [⟨index, (List.range s.oldest).all fun i => occupied l.files (i + 1), content⟩] }
  | .shift index => (l.files index).map fun content =>
      { l with
        files := Function.update (Function.update l.files (index + 1) (some content)) index none }

/-- the segments below `free` move up, the highest first -/
def shifts : Nat → List Op
  | 0 => []
  | free+1 => .shift free :: shifts free

/-- the operations of `_rotate` -/
def rotateOps (s : Settings) (files : Nat → Option Bytes) : List Op :=
  if s.retainedSegments = 1 then [.unlink 0]
  else match (List.range s.oldest).find? fun i => !occupied files (i + 1) with
    | some i => shifts (i + 1)
    | none => .unlink s.oldest :: shifts s.oldest

/-- operations one after the other, up to one that fails -/
def runOps (s : Settings) : List Op → Log → Log × Bool
  | [], l => (l, true)
  | op :: ops, l => match op.exec s l with
    | none => (l, false)
    | some l => runOps s ops l

/-! ## a record -/

/-- how far a call gets -/
inductive Fate where
  /-- the lock or the first open fails -/
  | unopened
  /-- it stops in `_rotate`, after so many operations, or before the write -/
  | unwritten (operations : Nat)
  /-- it stops after so many bytes, and they stay: the process dies, or they cannot be cut off -/
  | torn (bytes : Nat)
  /-- the write fails and is undone -/
  | undone
  | done

/-- `_owned_descriptor` creates the file -/
def Log.opened (l : Log) : Log :=
  { l with files := Function.update l.files 0 (some ((l.files 0).getD [])) }

def Log.current (l : Log) : Bytes := (l.files 0).getD []

/-- bytes at the end of `path` -/
def Log.append (l : Log) (bytes : Bytes) : Log :=
  { l with files := Function.update l.files 0 (some (l.current ++ bytes)) }

/-- `_append` -/
def append (data : Bytes) (fate : Fate) (l : Log) : Log × Bool :=
  match fate with
  | .torn n => (l.append (data.take n), false)
  | .done => (l.append data, true)
  | _ => (l, false)

/-- `encoded.removeprefix(b"\n")` -/
def withoutLineEnd : Bytes → Bytes
  | [] => []
  | b :: bs => if b = lineEnd then bs else b :: bs

/-- `Recorder.record` on the disk -/
def write (s : Settings) (entry : Entry) (fate : Fate) (l : Log) : Log × Bool :=
  let encoded := entry.text ++ [lineEnd]
  if s.segmentBytes < encoded.length then (l, false)
  else match fate with
    | .unopened => (l, false)
    | _ =>
      let l := l.opened
      let data := if l.current ≠ [] ∧ l.current.getLast? ≠ some lineEnd then lineEnd :: encoded else encoded
      if l.current.length + data.length ≤ s.segmentBytes then append data fate l
      else
        let ops := rotateOps s l.files
        match fate with
        | .unwritten n => ((runOps s (ops.take n) l).1, false)
        | _ => match runOps s ops l with
          | (l, false) => (l, false)
          | (l, true) => append (withoutLineEnd data) fate l.opened

/-- `Recorder.record` -/
def record (s : Settings) (entry : Entry) (fate : Fate) (l : Log) : Log :=
  let r := write s entry fate l
  { r.1 with calls := l.calls ++ [(entry, r.2)] }

/-- calls one after the other -/
def run (s : Settings) (calls : List (Entry × Fate)) : Log :=
  calls.foldl (fun l c => record s c.1 c.2 l) .start

/-! ## reading -/

/-- the rotated segments, from the one with the highest index on -/
def rotated : Nat → (Nat → Option Bytes) → List Bytes
  | 0, _ => []
  | k+1, files => (files (k + 1)).toList ++ rotated k files

/-- the segments from the highest index down to `path` -/
def segments (s : Settings) (l : Log) : List Bytes := rotated s.oldest l.files ++ (l.files 0).toList

/-- the lines of a segment, each with whether it has an end -/
def lines : Bytes → List (Bytes × Bool)
  | [] => []
  | b :: bs =>
    if b = lineEnd then ([], true) :: lines bs
    else match lines bs with
      | [] => [([b], false)]
      | (l, ended) :: rest => (b :: l, ended) :: rest

/-- the line belongs to the call: it is a part of its record from the start on, and all of it if the call
returned -/
def Belongs (calls : List (Entry × Bool)) (line : Bytes × Bool) (n : Nat) : Prop :=
  ∃ c, calls[n]? = some c ∧ line.1 <+: c.1.text ∧ (c.2 = true → line = (c.1.text, true))

/-- the lines of the segment belong to these calls, one each -/
def Tagged (calls : List (Entry × Bool)) (content : Bytes) (tags : List Nat) : Prop :=
  List.Forall₂ (Belongs calls) (lines content) tags

/-! ## lines -/

section
variable {c d t : Bytes} {calls : List (Entry × Bool)} {tags : List Nat}

theorem lines_cons (b : UInt8) (c : Bytes) : lines (b :: c) =
    if b = lineEnd then ([], true) :: lines c
    else match lines c with
      | [] => [([b], false)]
      | (l, ended) :: rest => (b :: l, ended) :: rest := rfl

theorem lines_append (h : c = [] ∨ c.getLast? = some lineEnd) (d : Bytes) :
    lines (c ++ d) = lines c ++ lines d := by
  induction c with
  | nil => rfl
  | cons b c ih =>
    rw [List.cons_append, lines, lines]
    split
    · next hb =>
      have hc : c = [] ∨ c.getLast? = some lineEnd := by
        rcases h with h | h
        · exact nomatch h
        · cases c with
          | nil => exact .inl rfl
          | cons x c => exact .inr (by rwa [List.getLast?_cons_cons] at h)
      rw [ih hc, List.cons_append]
    · next hb =>
      cases c with
      | nil =>
        rcases h with h | h
        · exact nomatch h
        · exact absurd (Option.some.inj h) hb
      | cons x c =>
        have hc : (x :: c) = [] ∨ (x :: c).getLast? = some lineEnd := by
          rcases h with h | h
          · exact nomatch h
          · exact .inr (by rwa [List.getLast?_cons_cons] at h)
        rw [ih hc]
        cases hl : lines (x :: c) with
        | nil =>
          rw [lines] at hl
          split at hl
          · exact nomatch hl
          · split at hl <;> exact nomatch hl
        | cons l ls => rfl

/-- one line without an end -/
theorem lines_inline (hne : t ≠ []) (h : lineEnd ∉ t) : lines t = [(t, false)] := by
  induction t with
  | nil => exact absurd rfl hne
  | cons b t ih =>
    have hb : b ≠ lineEnd := fun he => h (he ▸ List.mem_cons_self ..)
    rw [lines, if_neg hb]
    cases t with
    | nil => rfl
    | cons x t => rw [ih (List.cons_ne_nil _ _) fun hm => h (List.mem_cons_of_mem _ hm)]

/-- an end at the end of a segment -/
theorem lines_ended (hne : c ≠ []) (h : c.getLast? ≠ some lineEnd) :
    ∃ init x, lines c = init ++ [(x, false)] ∧ lines (c ++ [lineEnd]) = init ++ [(x, true)] := by
  induction c with
  | nil => exact absurd rfl hne
  | cons b c ih =>
    cases c with
    | nil =>
      have hb : b ≠ lineEnd := fun he => h (by rw [he]; rfl)
      refine ⟨[], [b], ?_, ?_⟩
      · rw [lines, if_neg hb]
        rfl
      · rw [List.cons_append, lines, if_neg hb]
        rfl
    | cons y c =>
      rw [List.getLast?_cons_cons] at h
      obtain ⟨init, x, h1, h2⟩ := ih (List.cons_ne_nil _ _) h
      rw [List.cons_append, lines_cons b (y :: c), lines_cons b (y :: c ++ [lineEnd]), h1, h2]
      split
      · exact ⟨([], true) :: init, x, rfl, rfl⟩
      · cases init with
        | nil => exact ⟨[], b :: x, rfl, rfl⟩
        | cons l init => exact ⟨(b :: l.1, l.2) :: init, x, rfl, rfl⟩

/-! ## what belongs to a call -/

theorem forall₂_concat {α β : Type} {R : α → β → Prop} {as : List α} {a : α} {bs : List β}
    (h : List.Forall₂ R (as ++ [a]) bs) : ∃ front b, bs = front ++ [b] ∧ List.Forall₂ R as front ∧ R a b := by
  induction as generalizing bs with
  | nil =>
    cases h with
    | cons hab hnil =>
      cases hnil
      exact ⟨[], _, rfl, .nil, hab⟩
  | cons x as ih =>
    cases h with
    | @cons _ y _ ys hxy hrest =>
      obtain ⟨front, b, rfl, hfront, hb⟩ := ih hrest
      exact ⟨y :: front, b, rfl, .cons hxy hfront, hb⟩

theorem Tagged.later (h : Tagged calls c tags) (x : Entry × Bool) : Tagged (calls ++ [x]) c tags := by
  refine h.imp fun line n hb => ?_
  obtain ⟨call, hn, hrest⟩ := hb
  refine ⟨call, ?_, hrest⟩
  rw [List.getElem?_append_left (List.getElem?_eq_some_iff.1 hn).1, hn]

/-- the end of a line that was torn -/
theorem Tagged.ended (h : Tagged calls c tags) (hne : c ≠ []) (hlast : c.getLast? ≠ some lineEnd) :
    Tagged calls (c ++ [lineEnd]) tags := by
  obtain ⟨init, x, h1, h2⟩ := lines_ended hne hlast
  rw [Tagged, h1] at h
  rw [Tagged, h2]
  obtain ⟨front, n, rfl, hfront, call, hn, hprefix, hreturned⟩ := forall₂_concat h
  exact List.rel_append hfront (.cons ⟨call, hn, hprefix, fun hr => nomatch hreturned hr⟩ .nil)

/-- a part of a record at the end of a segment whose lines are ended -/
theorem Tagged.add (h : Tagged calls c tags) (hend : c = [] ∨ c.getLast? = some lineEnd) (entry : Entry)
    (n : Nat) {returned : Bool} (hreturned : returned = true → (entry.text ++ [lineEnd]).length ≤ n) :
    ∃ added, Tagged (calls ++ [(entry, returned)]) (c ++ (entry.text ++ [lineEnd]).take n) (tags ++ added) ∧
      (added = [] ∧ returned = false ∨ added = [calls.length]) := by
  have hlater := h.later (entry, returned)
  have hbelongs : ∀ {line : Bytes × Bool}, line.1 <+: entry.text →
      (returned = true → line = (entry.text, true)) → Belongs (calls ++ [(entry, returned)]) line calls.length :=
    fun hp hr => ⟨(entry, returned), by simp, hp, hr⟩
  rw [Tagged] at hlater
  by_cases hall : (entry.text ++ [lineEnd]).length ≤ n
  · refine ⟨[calls.length], ?_, .inr rfl⟩
    have hlines : lines (entry.text ++ [lineEnd]) = [(entry.text, true)] := by
      have hlast : entry.text.getLast? ≠ some lineEnd :=
        fun he => entry.inline (List.mem_of_getLast? he)
      obtain ⟨init, x, h1, h2⟩ := lines_ended entry.nonempty hlast
      rw [lines_inline entry.nonempty entry.inline] at h1
      cases init with
      | nil =>
        cases h1
        exact h2
      | cons l init => simp at h1
    rw [Tagged, List.take_of_length_le hall, lines_append hend, hlines]
    exact List.rel_append hlater (.cons (hbelongs List.prefix_rfl fun _ => rfl) .nil)
  · have hnot : returned = false := by
      cases returned with
      | false => rfl
      | true => exact absurd (hreturned rfl) hall
    have hle : n ≤ entry.text.length := by
      rw [List.length_append, List.length_singleton] at hall
      omega
    rw [List.take_append_of_le_length hle]
    by_cases hzero : entry.text.take n = []
    · refine ⟨[], ?_, .inl ⟨rfl, hnot⟩⟩
      rw [hzero, Tagged, List.append_nil, List.append_nil]
      exact hlater
    · refine ⟨[calls.length], ?_, .inr rfl⟩
      rw [Tagged, lines_append hend,
        lines_inline hzero fun hm => entry.inline (List.mem_of_mem_take hm)]
      refine List.rel_append hlater (.cons (hbelongs (List.take_prefix ..) fun hr => ?_) .nil)
      rw [hnot] at hr
      exact nomatch hr

end

/-! ## the order of the segments -/

section
variable {s : Settings} {files : Nat → Option Bytes} {l : Log} {c : Bytes} {i k : Nat}

theorem rotated_congr {files' : Nat → Option Bytes} (h : ∀ j, 1 ≤ j → j ≤ k → files' j = files j) :
    rotated k files' = rotated k files := by
  induction k with
  | zero => rfl
  | succ k ih =>
    rw [rotated, rotated, h (k + 1) (by omega) (Nat.le_refl _), ih fun j h1 h2 => h j h1 (by omega)]

/-- a segment that moves up to a free index keeps its place -/
theorem rotated_shift (hi : files (i + 2) = none) (hc : files (i + 1) = some c) (hk : i + 2 ≤ k) :
    rotated k (Function.update (Function.update files (i + 2) (some c)) (i + 1) none) = rotated k files := by
  induction k with
  | zero => omega
  | succ k ih =>
    by_cases hki : i + 2 = k + 1
    · obtain rfl : k = i + 1 := by omega
      have hrest : rotated i (Function.update (Function.update files (i + 2) (some c)) (i + 1) none) =
          rotated i files := by
        refine rotated_congr fun j _ hj => ?_
        rw [Function.update_of_ne (by omega), Function.update_of_ne (by omega)]
      rw [rotated, rotated, rotated, rotated, hrest, hi, hc, Function.update_self,
        Function.update_of_ne (by omega), Function.update_self]
      rfl
    · rw [rotated, rotated, ih (by omega), Function.update_of_ne (by omega),
        Function.update_of_ne (by omega)]

/-- the current segment becomes the last one that was rotated -/
theorem rotated_first (hi : files 1 = none) (hk : 1 ≤ k) :
    rotated k (Function.update (Function.update files 1 (some c)) 0 none) = rotated k files ++ [c] := by
  induction k with
  | zero => omega
  | succ k ih =>
    by_cases hk0 : k = 0
    · subst hk0
      rw [rotated, rotated, rotated, rotated, hi, Function.update_of_ne (by omega), Function.update_self]
      rfl
    · rw [rotated, rotated, ih (by omega), Function.update_of_ne (by omega),
        Function.update_of_ne (by omega), List.append_assoc]

/-- the segment with the highest index is read first -/
theorem rotated_unlink (hc : files (k + 1) = some c) :
    rotated (k + 1) files = c :: rotated (k + 1) (Function.update files (k + 1) none) := by
  have hrest : rotated k (Function.update files (k + 1) none) = rotated k files := by
    refine rotated_congr fun j _ hj => ?_
    rw [Function.update_of_ne (by omega)]
  rw [rotated, rotated, hrest, hc, Function.update_self]
  rfl

theorem segments_shift (hc : l.files i = some c) (hfree : l.files (i + 1) = none) (hi : i + 1 ≤ s.oldest) :
    segments s { l with
      files := Function.update (Function.update l.files (i + 1) (some c)) i none } = segments s l := by
  cases i with
  | zero =>
    rw [segments, segments]
    dsimp only
    rw [rotated_first hfree hi, hc, Function.update_self]
    exact List.append_nil _
  | succ i =>
    rw [segments, segments]
    dsimp only
    rw [rotated_shift hfree hc hi, Function.update_of_ne (by omega), Function.update_of_ne (by omega)]

theorem segments_unlink (hc : l.files s.oldest = some c) (h : 1 ≤ s.oldest) (dropped : List Dropped) :
    segments s l = c :: segments s { l with
      files := Function.update l.files s.oldest none
      dropped := dropped } := by
  obtain ⟨k, hk⟩ : ∃ k, s.oldest = k + 1 := ⟨s.oldest - 1, by omega⟩
  rw [segments, segments]
  dsimp only
  rw [hk] at hc ⊢
  rw [rotated_unlink hc, Function.update_of_ne (by omega)]
  rfl

end

/-! ## the invariant -/

/-- the calls to which the lines of the history belong, segment by segment -/
structure Inv (s : Settings) (l : Log) (lost kept : List (List Nat)) : Prop where
  dropped : List.Forall₂ (fun d tags => Tagged l.calls d.content tags) l.dropped lost
  segments : List.Forall₂ (Tagged l.calls) (segments s l) kept
  ordered : (lost.flatten ++ kept.flatten).Pairwise (· < ·)
  below : ∀ n ∈ lost.flatten ++ kept.flatten, n < l.calls.length
  returned : ∀ n call, l.calls[n]? = some call → call.2 = true → n ∈ lost.flatten ++ kept.flatten
  full : ∀ d ∈ l.dropped, d.full = true ∧ d.index = s.oldest
  bounded : ∀ i content, l.files i = some content → i ≤ s.oldest ∧ content.length ≤ s.segmentBytes

section
variable {s : Settings} {l : Log} {lost kept : List (List Nat)}

theorem inv_start (s : Settings) : Inv s .start [] [] where
  dropped := .nil
  segments := by
    have hnone : ∀ k, rotated k (fun _ => none) = [] := by
      intro k
      induction k with
      | zero => rfl
      | succ k ih => rw [rotated, ih]; rfl
    rw [Recorder.segments, Log.start, hnone]
    exact .nil
  ordered := .nil
  below := fun n h => nomatch h
  returned := fun n call h => nomatch h
  full := fun d h => nomatch h
  bounded := fun i content h => nomatch h

/-- a call that does not return -/
theorem Inv.failed (h : Inv s l lost kept) (entry : Entry) :
    Inv s { l with calls := l.calls ++ [(entry, false)] } lost kept where
  dropped := h.dropped.imp fun _ _ ht => ht.later _
  segments := h.segments.imp fun _ _ ht => ht.later _
  ordered := h.ordered
  below := by
    intro n hn
    have hlt := h.below n hn
    rw [List.length_append]
    omega
  returned := by
    intro n call hn hr
    by_cases hlt : n < l.calls.length
    · dsimp only at hn
      rw [List.getElem?_append_left hlt] at hn
      exact h.returned n call hn hr
    · dsimp only at hn
      rw [List.getElem?_append_right (by omega)] at hn
      have hcall := List.mem_of_getElem? hn
      rw [List.mem_singleton.1 hcall] at hr
      exact nomatch hr
  full := h.full
  bounded := h.bounded

/-- `path` is created -/
theorem Inv.opened (h : Inv s l lost kept) : ∃ kept', Inv s l.opened lost kept' := by
  cases hc : l.files 0 with
  | some c =>
    have hsame : l.opened = l := by
      rw [Log.opened, hc, Option.getD_some, ← hc, Function.update_eq_self]
    rw [hsame]
    exact ⟨kept, h⟩
  | none =>
    have hsegments : Recorder.segments s l.opened = Recorder.segments s l ++ [[]] := by
      rw [Recorder.segments, Recorder.segments, Log.opened, hc]
      dsimp only
      have hrotated : rotated s.oldest (Function.update l.files 0 (some [])) = rotated s.oldest l.files := by
        refine rotated_congr fun j hj _ => ?_
        rw [Function.update_of_ne (by omega)]
      rw [Option.getD_none, hrotated, Function.update_self]
      simp
    have hflat : (kept ++ [[]]).flatten = kept.flatten := by simp
    refine ⟨kept ++ [[]], h.dropped, ?_, ?_, ?_, ?_, h.full, ?_⟩
    · rw [hsegments]
      exact List.rel_append h.segments (.cons .nil .nil)
    · rw [hflat]
      exact h.ordered
    · rw [hflat]
      exact h.below
    · rw [hflat]
      exact h.returned
    · intro i content hi
      rw [Log.opened, hc] at hi
      dsimp only at hi
      by_cases hi0 : i = 0
      · subst hi0
        rw [Function.update_self] at hi
        cases hi
        exact ⟨Nat.zero_le _, Nat.zero_le _⟩
      · rw [Function.update_of_ne hi0] at hi
        exact h.bounded i content hi

/-- a segment moves up -/
theorem Inv.shift (h : Inv s l lost kept) {i : Nat} {c : Bytes} (hc : l.files i = some c)
    (hfree : l.files (i + 1) = none) (hi : i + 1 ≤ s.oldest) :
    Inv s { l with
      files := Function.update (Function.update l.files (i + 1) (some c)) i none } lost kept where
  dropped := h.dropped
  segments := by
    rw [segments_shift hc hfree hi]
    exact h.segments
  ordered := h.ordered
  below := h.below
  returned := h.returned
  full := h.full
  bounded := by
    intro j content hj
    dsimp only at hj
    by_cases hji : j = i
    · subst hji
      rw [Function.update_self] at hj
      exact nomatch hj
    · rw [Function.update_of_ne hji] at hj
      by_cases hji' : j = i + 1
      · subst hji'
        rw [Function.update_self] at hj
        exact ⟨hi, (h.bounded i content (Option.some.inj hj ▸ hc)).2⟩
      · rw [Function.update_of_ne hji'] at hj
        exact h.bounded j content hj

/-- the oldest segment is removed when there is no free index -/
theorem Inv.unlink (h : Inv s l lost kept) {c : Bytes} (hc : l.files s.oldest = some c) (hold : 1 ≤ s.oldest)
    {full : Bool} (hfull : full = true) : ∃ lost' kept', Inv s { l with
      files := Function.update l.files s.oldest none
      dropped := l.dropped ++ [⟨s.oldest, full, c⟩] } lost' kept' := by
  have hsegments := h.segments
  rw [segments_unlink hc hold (l.dropped ++ [⟨s.oldest, full, c⟩])] at hsegments
  cases hsegments with
  | @cons _ tags _ rest ht hrest =>
    have hflat : (lost ++ [tags]).flatten ++ rest.flatten = lost.flatten ++ (tags :: rest).flatten := by
      simp
    refine ⟨lost ++ [tags], rest, List.rel_append h.dropped (.cons ht .nil), hrest, ?_, ?_, ?_, ?_, ?_⟩
    · rw [hflat]
      exact h.ordered
    · rw [hflat]
      exact h.below
    · rw [hflat]
      exact h.returned
    · intro d hd
      rcases List.mem_append.1 hd with hd | hd
      · exact h.full d hd
      · rw [List.mem_singleton.1 hd]
        exact ⟨hfull, rfl⟩
    · intro j content hj
      dsimp only at hj
      by_cases hjo : j = s.oldest
      · subst hjo
        rw [Function.update_self] at hj
        exact nomatch hj
      · rw [Function.update_of_ne hjo] at hj
        exact h.bounded j content hj

/-! ## the steps of `_rotate` -/

/-- all indices below `free` are taken, and `free` is not -/
structure Room (s : Settings) (l : Log) (free : Nat) : Prop where
  unused : l.files free = none
  taken : ∀ i < free, (l.files i).isSome
  le : free ≤ s.oldest

/-- the segments below the free index move up, as far as the call gets -/
theorem Inv.shifts : ∀ {free : Nat} {l : Log} (n : Nat), Inv s l lost kept → Room s l free →
    Inv s (runOps s ((shifts free).take n) l).1 lost kept ∧
      (runOps s ((shifts free).take n) l).1.calls = l.calls := by
  intro free
  induction free with
  | zero =>
    intro l n h _
    rw [Recorder.shifts, List.take_nil]
    exact ⟨h, rfl⟩
  | succ free ih =>
    intro l n h hroom
    cases n with
    | zero => exact ⟨h, rfl⟩
    | succ n =>
      obtain ⟨c, hc⟩ := Option.isSome_iff_exists.1 (hroom.taken free (Nat.lt_succ_self _))
      rw [Recorder.shifts, List.take_succ_cons, runOps, Op.exec, hc]
      have hstep := h.shift hc hroom.unused hroom.le
      refine ih n hstep ⟨?_, ?_, Nat.le_of_succ_le hroom.le⟩
      · exact Function.update_self ..
      · intro i hi
        dsimp only
        rw [Function.update_of_ne (by omega), Function.update_of_ne (by omega)]
        exact hroom.taken i (by omega)

/-- all of them: the current segment is gone -/
theorem runOps_shifts : ∀ {free : Nat} {l : Log}, Room s l free →
    (runOps s (Recorder.shifts free) l).2 = true ∧ (runOps s (Recorder.shifts free) l).1.files 0 = none := by
  intro free
  induction free with
  | zero => exact fun hroom => ⟨rfl, hroom.unused⟩
  | succ free ih =>
    intro l hroom
    obtain ⟨c, hc⟩ := Option.isSome_iff_exists.1 (hroom.taken free (Nat.lt_succ_self _))
    rw [Recorder.shifts, runOps, Op.exec, hc]
    refine ih ⟨Function.update_self .., fun i hi => ?_, Nat.le_of_succ_le hroom.le⟩
    dsimp only
    rw [Function.update_of_ne (by omega), Function.update_of_ne (by omega)]
    exact hroom.taken i (by omega)

/-- the operations of a rotation: one segment may be removed, and the others move up -/
theorem rotateOps_cases (h : Inv s l lost kept) (h0 : (l.files 0).isSome) (hret : 2 ≤ s.retainedSegments) :
    (∃ free, rotateOps s l.files = Recorder.shifts free ∧ Room s l free) ∨
      ∃ l' lost' kept', rotateOps s l.files = .unlink s.oldest :: Recorder.shifts s.oldest ∧
        (Op.unlink s.oldest).exec s l = some l' ∧ Inv s l' lost' kept' ∧ l'.calls = l.calls ∧
        Room s l' s.oldest := by
  have hold : 1 ≤ s.oldest := by
    rw [Settings.oldest]
    omega
  rw [rotateOps, if_neg (by omega)]
  split
  · next i hi =>
    obtain ⟨hfree, hrange, hbefore⟩ := List.find?_range_eq_some.1 hi
    refine .inl ⟨i + 1, rfl, ?_, ?_, ?_⟩
    · simpa [occupied] using hfree
    · intro j hj
      rcases Nat.eq_zero_or_pos j with rfl | hpos
      · exact h0
      · have hone := hbefore (j - 1) (by omega)
        rw [show j - 1 + 1 = j by omega] at hone
        simpa [occupied] using hone
    · exact Nat.succ_le_of_lt (List.mem_range.1 hrange)
  · next hnone =>
    have htaken : ∀ i, 1 ≤ i → i ≤ s.oldest → (l.files i).isSome := by
      intro i h1 h2
      have hall := List.find?_eq_none.1 hnone (i - 1) (List.mem_range.2 (by omega))
      rw [show i - 1 + 1 = i by omega] at hall
      exact Option.isSome_iff_ne_none.2 (by simpa [occupied] using hall)
    obtain ⟨c, hc⟩ := Option.isSome_iff_exists.1 (htaken s.oldest hold (Nat.le_refl _))
    have hfull : ((List.range s.oldest).all fun i => occupied l.files (i + 1)) = true := by
      rw [List.all_eq_true]
      intro i hi
      exact htaken (i + 1) (by omega) (List.mem_range.1 hi)
    obtain ⟨lost', kept', hinv⟩ := h.unlink hc hold hfull
    refine .inr ⟨_, lost', kept', rfl, ?_, hinv, rfl, ?_, ?_, Nat.le_refl _⟩
    · rw [Op.exec, hc]
      rfl
    · exact Function.update_self ..
    · intro i hi
      dsimp only
      rw [Function.update_of_ne (by omega)]
      rcases Nat.eq_zero_or_pos i with rfl | hpos
      · exact h0
      · exact htaken i hpos (by omega)

/-! ## the write -/

/-- the current segment grows by a part of a record -/
theorem Inv.grow (h : Inv s l lost kept) {c c' : Bytes} (hc : l.files 0 = some c) {x : Entry × Bool}
    (hlen : c'.length ≤ s.segmentBytes)
    (htag : ∀ tags, Tagged l.calls c tags → ∃ added, Tagged (l.calls ++ [x]) c' (tags ++ added) ∧
      (added = [] ∧ x.2 = false ∨ added = [l.calls.length])) :
    ∃ kept', Inv s { l with
      files := Function.update l.files 0 (some c')
      calls := l.calls ++ [x] } lost kept' := by
  have hrotated : rotated s.oldest (Function.update l.files 0 (some c')) = rotated s.oldest l.files := by
    refine rotated_congr fun j hj _ => ?_
    rw [Function.update_of_ne (by omega)]
  have hsegments := h.segments
  rw [Recorder.segments, hc] at hsegments
  obtain ⟨front, tags, rfl, hfront, htags⟩ := forall₂_concat hsegments
  obtain ⟨added, hadded, hcases⟩ := htag tags htags
  have hold : lost.flatten ++ (front ++ [tags]).flatten = lost.flatten ++ (front.flatten ++ tags) := by simp
  have hnew : lost.flatten ++ (front ++ [tags ++ added]).flatten =
      (lost.flatten ++ (front.flatten ++ tags)) ++ added := by simp
  have hordered := h.ordered
  have hbelow := h.below
  have hreturned := h.returned
  rw [hold] at hordered hbelow hreturned
  have hsub : ∀ n ∈ added, n = l.calls.length := by
    rcases hcases with ⟨rfl, -⟩ | rfl
    · exact fun n hn => nomatch hn
    · exact fun n hn => List.mem_singleton.1 hn
  refine ⟨front ++ [tags ++ added], h.dropped.imp fun _ _ ht => ht.later _, ?_, ?_, ?_, ?_, h.full, ?_⟩
  · rw [Recorder.segments]
    dsimp only
    rw [hrotated, Function.update_self]
    exact List.rel_append (hfront.imp fun _ _ ht => ht.later _) (.cons hadded .nil)
  · rw [hnew, List.pairwise_append]
    refine ⟨hordered, ?_, fun a ha b hb => hsub b hb ▸ hbelow a ha⟩
    rcases hcases with ⟨rfl, -⟩ | rfl
    · exact .nil
    · exact List.pairwise_singleton _ _
  · intro n hn
    rw [hnew] at hn
    dsimp only
    rw [List.length_append, List.length_singleton]
    rcases List.mem_append.1 hn with hn | hn
    · exact Nat.lt_succ_of_lt (hbelow n hn)
    · rw [hsub n hn]
      exact Nat.lt_succ_self _
  · intro n call hn hr
    rw [hnew]
    dsimp only at hn
    by_cases hlt : n < l.calls.length
    · rw [List.getElem?_append_left hlt] at hn
      exact List.mem_append_left _ (hreturned n call hn hr)
    · rw [List.getElem?_append_right (by omega)] at hn
      obtain ⟨hindex, hx⟩ := List.getElem?_eq_some_iff.1 hn
      rw [List.length_singleton] at hindex
      have hn' : n = l.calls.length := by omega
      rcases hcases with ⟨-, hfalse⟩ | rfl
      · have hcall := List.mem_of_getElem? hn
        rw [List.mem_singleton.1 hcall, hfalse] at hr
        exact nomatch hr
      · exact List.mem_append_right _ (List.mem_singleton.2 hn')
  · intro i content hi
    dsimp only at hi
    by_cases hi0 : i = 0
    · subst hi0
      rw [Function.update_self] at hi
      cases hi
      exact ⟨Nat.zero_le _, hlen⟩
    · rw [Function.update_of_ne hi0] at hi
      exact h.bounded i content hi

/-- the bytes that `_append` writes: a record, after the end of a line that was torn -/
inductive Data (c : Bytes) (entry : Entry) : Bytes → Prop
  | ended (h : c = [] ∨ c.getLast? = some lineEnd) : Data c entry (entry.text ++ [lineEnd])
  | torn (hne : c ≠ []) (h : c.getLast? ≠ some lineEnd) :
      Data c entry (lineEnd :: (entry.text ++ [lineEnd]))

/-- some of these bytes are written -/
theorem Data.tagged {c data : Bytes} {entry : Entry} (h : Data c entry data) (n : Nat) (returned : Bool)
    (hreturned : returned = true → data.length ≤ n) {calls : List (Entry × Bool)} {tags : List Nat}
    (ht : Tagged calls c tags) :
    ∃ added, Tagged (calls ++ [(entry, returned)]) (c ++ data.take n) (tags ++ added) ∧
      (added = [] ∧ returned = false ∨ added = [calls.length]) := by
  cases h with
  | ended hend => exact ht.add hend entry n hreturned
  | torn hne hlast =>
    cases n with
    | zero =>
      have hnot : returned = false := by
        cases returned with
        | false => rfl
        | true => exact nomatch hreturned rfl
      refine ⟨[], ?_, .inl ⟨rfl, hnot⟩⟩
      rw [List.take_zero, List.append_nil, List.append_nil]
      exact ht.later _
    | succ n =>
      have hended := ht.ended hne hlast
      have hend : c ++ [lineEnd] = [] ∨ (c ++ [lineEnd]).getLast? = some lineEnd :=
        .inr (List.getLast?_concat ..)
      rw [List.take_succ_cons, ← List.singleton_append (l := List.take n _), ← List.append_assoc]
      refine hended.add hend entry n fun hr => ?_
      have hlen := hreturned hr
      rw [List.length_cons] at hlen
      omega

theorem Inv.append (h : Inv s l lost kept) {c data : Bytes} (hc : l.files 0 = some c) {entry : Entry}
    (hdata : Data c entry data) (hlen : c.length + data.length ≤ s.segmentBytes) (fate : Fate) :
    ∃ kept', Inv s { (append data fate l).1 with
      calls := l.calls ++ [(entry, (Recorder.append data fate l).2)] } lost kept' := by
  have hcurrent : l.current = c := by rw [Log.current, hc, Option.getD_some]
  cases fate with
  | torn n =>
    rw [Recorder.append, Log.append, hcurrent]
    refine h.grow hc ?_ fun tags ht => hdata.tagged n false (fun hr => nomatch hr) ht
    rw [List.length_append, List.length_take]
    omega
  | done =>
    rw [Recorder.append, Log.append, hcurrent]
    refine h.grow hc (by rwa [List.length_append]) fun tags ht => ?_
    have hall := hdata.tagged data.length true (fun _ => Nat.le_refl _) ht
    rwa [List.take_length] at hall
  | unopened => exact ⟨kept, h.failed entry⟩
  | unwritten n => exact ⟨kept, h.failed entry⟩
  | undone => exact ⟨kept, h.failed entry⟩

/-! ## a call -/

theorem opened_some (l : Log) : l.opened.files 0 = some l.current := by
  show Function.update l.files 0 _ 0 = _
  rw [Function.update_self]
  rfl

theorem opened_current (l : Log) : l.opened.current = l.current := by
  rw [Log.current, opened_some, Option.getD_some]

/-- the bytes that are written, before a rotation -/
def dataFor (c : Bytes) (entry : Entry) : Bytes :=
  if c ≠ [] ∧ c.getLast? ≠ some lineEnd then lineEnd :: (entry.text ++ [lineEnd])
  else entry.text ++ [lineEnd]

theorem dataFor_data (c : Bytes) (entry : Entry) : Data c entry (dataFor c entry) := by
  rw [dataFor]
  split
  · next h => exact .torn h.1 h.2
  · next h =>
    refine .ended ?_
    by_contra hnot
    obtain ⟨hne, hlast⟩ := not_or.1 hnot
    exact h ⟨hne, hlast⟩

theorem withoutLineEnd_dataFor (c : Bytes) (entry : Entry) :
    withoutLineEnd (dataFor c entry) = entry.text ++ [lineEnd] := by
  rw [dataFor]
  split
  · rw [withoutLineEnd, if_pos rfl]
  · cases ht : entry.text with
    | nil => exact absurd ht entry.nonempty
    | cons b bs =>
      rw [List.cons_append, withoutLineEnd, if_neg]
      intro hb
      exact entry.inline (by rw [ht, hb]; exact List.mem_cons_self ..)

/-- a rotation that stops somewhere -/
theorem Inv.rotate (h : Inv s l lost kept) (h0 : (l.files 0).isSome) (hret : 2 ≤ s.retainedSegments)
    (n : Nat) : ∃ lost' kept', Inv s (runOps s ((rotateOps s l.files).take n) l).1 lost' kept' ∧
      (runOps s ((rotateOps s l.files).take n) l).1.calls = l.calls := by
  rcases rotateOps_cases h h0 hret with ⟨free, hops, hroom⟩ | ⟨l', lost', kept', hops, hexec, hinv, hcalls, hroom⟩
  · rw [hops]
    exact ⟨lost, kept, h.shifts n hroom⟩
  · rw [hops]
    cases n with
    | zero => exact ⟨lost, kept, h, rfl⟩
    | succ n =>
      rw [List.take_succ_cons, runOps, hexec]
      dsimp only
      rw [← hcalls]
      exact ⟨lost', kept', hinv.shifts n hroom⟩

/-- a rotation to its end: there is no current segment -/
theorem rotate_done (h : Inv s l lost kept) (h0 : (l.files 0).isSome) (hret : 2 ≤ s.retainedSegments) :
    (runOps s (rotateOps s l.files) l).2 = true ∧ (runOps s (rotateOps s l.files) l).1.files 0 = none := by
  rcases rotateOps_cases h h0 hret with ⟨free, hops, hroom⟩ | ⟨l', lost', kept', hops, hexec, hinv, hcalls, hroom⟩
  · rw [hops]
    exact runOps_shifts hroom
  · rw [hops, runOps, hexec]
    exact runOps_shifts hroom

/-- the record fits into the current segment -/
theorem Inv.fits (h : Inv s l lost kept) (entry : Entry) (fate : Fate)
    (hlen : l.current.length + (dataFor l.current entry).length ≤ s.segmentBytes) :
    ∃ kept', Inv s { (Recorder.append (dataFor l.current entry) fate l.opened).1 with
      calls := l.calls ++ [(entry, (Recorder.append (dataFor l.current entry) fate l.opened).2)] } lost kept' := by
  obtain ⟨kept', hopened⟩ := h.opened
  exact hopened.append (opened_some l) (dataFor_data ..) hlen fate

/-- it goes to a new segment -/
theorem Inv.next (h : Inv s l lost kept) (hret : 2 ≤ s.retainedSegments) (entry : Entry) (fate : Fate)
    (hlen : (entry.text ++ [lineEnd]).length ≤ s.segmentBytes) : ∃ l' lost' kept',
      runOps s (rotateOps s l.opened.files) l.opened = (l', true) ∧
      Inv s { (Recorder.append (entry.text ++ [lineEnd]) fate l'.opened).1 with
        calls := l.calls ++ [(entry, (Recorder.append (entry.text ++ [lineEnd]) fate l'.opened).2)] }
        lost' kept' := by
  obtain ⟨kept₁, hopened⟩ := h.opened
  have h0 : (l.opened.files 0).isSome := by
    rw [opened_some]
    rfl
  obtain ⟨hdone, hgone⟩ := rotate_done hopened h0 hret
  obtain ⟨lost', kept', hinv, hcalls⟩ := hopened.rotate h0 hret (rotateOps s l.opened.files).length
  rw [List.take_length] at hinv hcalls
  generalize runOps s (rotateOps s l.opened.files) l.opened = r at hdone hgone hinv hcalls
  obtain ⟨l', ok⟩ := r
  dsimp only at hdone hgone hinv hcalls
  subst hdone
  obtain ⟨kept₂, hopened'⟩ := hinv.opened
  have hcurrent : l'.opened.files 0 = some [] := by
    rw [opened_some, Log.current, hgone]
    rfl
  have hcalls' : l'.opened.calls = l.calls := hcalls
  have hdata : Data [] entry (entry.text ++ [lineEnd]) := .ended (.inl rfl)
  obtain ⟨kept₃, hlast⟩ := hopened'.append hcurrent hdata (by rwa [List.length_nil, Nat.zero_add]) fate
  rw [hcalls'] at hlast
  exact ⟨l', lost', kept₃, rfl, hlast⟩

theorem Inv.record (h : Inv s l lost kept) (hret : 2 ≤ s.retainedSegments) (entry : Entry) (fate : Fate) :
    ∃ lost' kept', Inv s (record s entry fate l) lost' kept' := by
  have hwrite : ∀ r : Log × Bool, write s entry fate l = r →
      (∃ lost' kept', Inv s { r.1 with calls := l.calls ++ [(entry, r.2)] } lost' kept') →
      ∃ lost' kept', Inv s (Recorder.record s entry fate l) lost' kept' := by
    intro r hr hinv
    rw [Recorder.record, hr]
    exact hinv
  by_cases hlong : s.segmentBytes < (entry.text ++ [lineEnd]).length
  · exact hwrite _ (if_pos hlong) ⟨lost, kept, h.failed entry⟩
  · have hshort := Nat.le_of_not_lt hlong
    by_cases hfits : l.current.length + (dataFor l.current entry).length ≤ s.segmentBytes
    · obtain ⟨kept', hinv⟩ := h.fits entry fate hfits
      cases fate with
      | unopened => exact hwrite _ (if_neg hlong) ⟨lost, kept, h.failed entry⟩
      | _ =>
        refine hwrite _ ?_ ⟨lost, kept', hinv⟩
        unfold write
        dsimp only
        rw [if_neg hlong, opened_current]
        exact if_pos hfits
    · obtain ⟨l', lost', kept', hrun, hinv⟩ := h.next hret entry fate hshort
      cases fate with
      | unopened => exact hwrite _ (if_neg hlong) ⟨lost, kept, h.failed entry⟩
      | unwritten n =>
        obtain ⟨kept₁, hopened⟩ := h.opened
        have h0 : (l.opened.files 0).isSome := by
          rw [opened_some]
          rfl
        obtain ⟨lost₂, kept₂, hpart, hcalls⟩ := hopened.rotate h0 hret n
        have hfailed := hpart.failed entry
        have hcalls' : (runOps s ((rotateOps s l.opened.files).take n) l.opened).1.calls = l.calls := hcalls
        rw [hcalls'] at hfailed
        refine hwrite ((runOps s ((rotateOps s l.opened.files).take n) l.opened).1, false) ?_
          ⟨lost₂, kept₂, hfailed⟩
        unfold write
        dsimp only
        rw [if_neg hlong, opened_current]
        exact if_neg hfits
      | _ =>
        refine hwrite _ ?_ ⟨lost', kept', hinv⟩
        unfold write
        dsimp only
        rw [if_neg hlong, opened_current]
        refine (if_neg hfits).trans ?_
        rw [hrun]
        dsimp only
        rw [show (if l.current ≠ [] ∧ l.current.getLast? ≠ some lineEnd then
          lineEnd :: (entry.text ++ [lineEnd]) else entry.text ++ [lineEnd]) = dataFor l.current entry from rfl,
          withoutLineEnd_dataFor]

theorem Inv.run (hret : 2 ≤ s.retainedSegments) : ∀ (calls : List (Entry × Fate)) {l : Log}
    {lost kept : List (List Nat)}, Inv s l lost kept →
    ∃ lost' kept', Inv s (calls.foldl (fun l c => Recorder.record s c.1 c.2 l) l) lost' kept' := by
  intro calls
  induction calls with
  | nil => exact fun h => ⟨_, _, h⟩
  | cons c calls ih =>
    intro l lost kept h
    obtain ⟨lost', kept', hrecord⟩ := h.record hret c.1 c.2
    exact ih hrecord

theorem run_calls (s : Settings) (calls : List (Entry × Fate)) :
    (Recorder.run s calls).calls.map Prod.fst = calls.map Prod.fst := by
  have hall : ∀ (calls : List (Entry × Fate)) (l : Log),
      (calls.foldl (fun l c => Recorder.record s c.1 c.2 l) l).calls.map Prod.fst =
        l.calls.map Prod.fst ++ calls.map Prod.fst := by
    intro calls
    induction calls with
    | nil => exact fun l => (List.append_nil _).symm
    | cons c calls ih =>
      intro l
      rw [List.foldl_cons, ih]
      simp [Recorder.record]
  exact hall calls .start

/-- After any calls, each of which may stop anywhere: every line belongs to one call, in the order of
the calls; a call that returned has a whole line, in a segment that is still there or in one that was
removed as the oldest while no index was free; and no segment is too long. -/
theorem record_log (s : Settings) (hret : 2 ≤ s.retainedSegments) (calls : List (Entry × Fate)) :
    (run s calls).calls.map Prod.fst = calls.map Prod.fst ∧
    ∃ lost kept : List (List Nat),
      List.Forall₂ (fun d tags => Tagged (run s calls).calls d.content tags) (run s calls).dropped lost ∧
      List.Forall₂ (Tagged (run s calls).calls) (segments s (run s calls)) kept ∧
      (lost.flatten ++ kept.flatten).Pairwise (· < ·) ∧
      (∀ n call, (run s calls).calls[n]? = some call → call.2 = true →
        n ∈ lost.flatten ∨ n ∈ kept.flatten) ∧
      (∀ d ∈ (run s calls).dropped, d.full = true ∧ d.index = s.oldest) ∧
      ∀ i content, (run s calls).files i = some content → i ≤ s.oldest ∧ content.length ≤ s.segmentBytes := by
  refine ⟨run_calls s calls, ?_⟩
  obtain ⟨lost, kept, h⟩ := Inv.run hret calls (inv_start s)
  exact ⟨lost, kept, h.dropped, h.segments, h.ordered,
    fun n call hn hr => List.mem_append.1 (h.returned n call hn hr), h.full, h.bounded⟩

/-- `{}` -/
def emptyEntry : Entry := ⟨[123, 125], by decide, by decide⟩

def smallSettings : Settings := ⟨4, 2, by decide, by decide⟩

/-- the first record is torn, the second goes to a new segment -/
theorem record_log_torn : segments smallSettings (run smallSettings [(emptyEntry, .torn 1), (emptyEntry, .done)])
      = [[123], [123, 125, 10]] ∧
    ∃ lost kept : List (List Nat), (lost.flatten ++ kept.flatten).Pairwise (· < ·) ∧
      (1 ∈ lost.flatten ∨ 1 ∈ kept.flatten) := by
  refine ⟨by decide, ?_⟩
  obtain ⟨-, lost, kept, -, -, hordered, hreturned, -⟩ :=
    record_log smallSettings (by decide) [(emptyEntry, .torn 1), (emptyEntry, .done)]
  exact ⟨lost, kept, hordered, hreturned 1 (emptyEntry, true) rfl rfl⟩

end

end Netops.Recorder
