import Netops.Configuration.Records

/-!
# The comparison of two configurations

`compare` of `configuration.py`.

* `Capture`         a redacted text with its records, both as the redaction makes them;
* `compareCaptures`     the changed records, the changed lines, and whether nothing is changed;
* `compareCaptures_exact`   no change is missed, and none is reported that is not there.
-/

namespace Netops.Filter
open Probing

/-! ## the comparison -/

/-- a redacted text and its records, as the redaction makes them -/
structure Capture (serialized : Bool) where
  text : Stored serialized
  hidden : HiddenRecords
  pairs : List (Half × Half)
  recorded : HiddenRecords.empty.addAll pairs = some hidden

/-- `Content.sha256`: of all that was added -/
def Stored.sha256 {serialized : Bool} (c : Stored serialized) : List Char :=
  Sha256.hexdigest c.pieces.flatten

/-- `Content.__eq__` -/
def Stored.same {serialized : Bool} (a b : Stored serialized) : Bool :=
  a.content.total = b.content.total && a.sha256 = b.sha256

/-- the search in the records of a capture ends (`Capture.get_eq`) -/
def Capture.get {serialized : Bool} (c : Capture serialized) (key : Half) : Option Half :=
  (c.hidden.get key).getD none

/-- the keys of `ChangedRecords` -/
def changedRecords {serialized : Bool} (left right : Capture serialized) : List Half :=
  ((left.hidden.records.filter fun x => right.get x.1 ≠ some x.2).map Prod.fst) ++
    (right.hidden.records.filter fun x => left.get x.1 = none).map Prod.fst

/-- `zip_longest` -/
def zipLongest : List Bytes → List Bytes → List (Option Bytes × Option Bytes)
  | [], bs => bs.map fun b => (none, some b)
  | a :: as, bs => (some a, bs.head?) :: zipLongest as bs.tail

section
variable (serialized : Bool) (budget : Budget)

def Builder.put (data : Bytes) (out : Builder) : Except Failure Builder :=
  out.add byteBudget (serializedMarkers serialized) data

/-- a line of the difference, if there is one -/
def putLine (sign : String) (line : Option Bytes) (out : Builder) : Except Failure Builder :=
  match line with
  | none => .ok out
  | some line => out.put serialized (bytesOf sign ++ line)

/-- the lines of both sides; the first ones have two lines before them -/
def putDiff (wrote : Bool) (before after : Option Bytes) (out : Builder) : Except Failure Builder :=
  match (if wrote then .ok out else out.put serialized (bytesOf "--- base\n+++ other\n")) with
  | .error e => .error e
  | .ok out =>
    match putLine serialized "-" before out with
    | .error e => .error e
    | .ok out => putLine serialized "+" after out

/-- the loop over the lines of both texts -/
def diffLines : List (Option Bytes × Option Bytes) → Nat → Bool → Builder → Except Failure Builder
  | [], _, _, out => .ok out
  | (before, after) :: rest, n, wrote, out =>
    if before = after then diffLines rest (n + 1) wrote out
    else
      match putDiff serialized wrote before after out with
      | .error e => .error e
      | .ok out =>
        if budget.refusesAfter n then .error .budget else diffLines rest (n + 1) true out

/-- a text, the changed records, and whether nothing is changed -/
structure Compared where
  text : Content
  changed : List Half
  unchanged : Bool

/-- `compare`, after the two snapshots have been looked up -/
def compareCaptures (left right : Capture serialized) : Except Failure Compared :=
  let changed := changedRecords left right
  let equal := left.text.same right.text
  let orderChanged := left.hidden.order ≠ right.hidden.order
  let out : Except Failure Builder :=
    if !equal then
      diffLines serialized budget (zipLongest left.text.content.lines right.text.content.lines) 0 false .empty
    else if orderChanged then Builder.empty.put serialized (bytesOf "record order changed\n")
    else .ok .empty
  match out with
  | .error e => .error e
  | .ok out =>
    if budget.refusesAtEnd then .error .budget
    else .ok ⟨out.finish, changed, equal && changed.isEmpty && decide ¬orderChanged⟩

end

/-! ## what is compared -/

theorem Stored.total_eq {serialized : Bool} (c : Stored serialized) :
    c.content.total = c.content.data.length := by
  have hhas : c.built.Has c.pieces.flatten := by
    have hall : ∀ (pieces : List Bytes) (b b' : Builder) (data : Bytes), b.Has data →
        b.addAll c.maximum (c.forbidden ++ serializedMarkers serialized) pieces = .ok b' →
          b'.Has (data ++ pieces.flatten) := by
      intro pieces
      induction pieces with
      | nil =>
        intro b b' data hb h
        cases h
        rwa [List.flatten_nil, List.append_nil]
      | cons piece pieces ih =>
        intro b b' data hb h
        rw [Builder.addAll] at h
        split at h
        · rename_i b1 h1
          rw [List.flatten_cons, ← List.append_assoc]
          exact ih b1 b' _ (hb.added h1) h
        · cases h
    exact hall _ _ _ _ Builder.Has.empty c.made
  rw [← c.finished, hhas.finish]
  exact hhas.total

theorem Stored.same_iff {serialized : Bool} {a b : Stored serialized}
    (hsha : Sha256.hexdigest a.content.data = Sha256.hexdigest b.content.data →
      a.content.data = b.content.data) : a.same b = true ↔ a.content.data = b.content.data := by
  rw [Stored.same, Stored.sha256, Stored.sha256, ← a.fits.1, ← b.fits.1, Bool.and_eq_true,
    decide_eq_true_eq, decide_eq_true_eq]
  constructor
  · exact fun h => hsha h.2
  · intro h
    rw [a.total_eq, b.total_eq, h]
    exact ⟨rfl, rfl⟩

theorem flatten_halves_inj {l m : List Half}
    (h : (l.map Subtype.val).flatten = (m.map Subtype.val).flatten) : l = m := by
  induction l generalizing m with
  | nil =>
    cases m with
    | nil => rfl
    | cons y m =>
      have hlen := congrArg List.length h
      rw [List.map_cons, List.flatten_cons, List.length_append, y.2, List.map_nil, List.flatten_nil,
        List.length_nil] at hlen
      omega
  | cons x l ih =>
    cases m with
    | nil =>
      have hlen := congrArg List.length h
      rw [List.map_cons, List.flatten_cons, List.length_append, x.2, List.map_nil, List.flatten_nil,
        List.length_nil] at hlen
      omega
    | cons y m =>
      rw [List.map_cons, List.flatten_cons, List.map_cons, List.flatten_cons] at h
      obtain ⟨hx, hrest⟩ := List.append_inj h (by rw [x.2, y.2])
      rw [Subtype.ext hx, ih hrest]

section
variable {serialized : Bool} {left right : Capture serialized}

theorem Capture.sound (c : Capture serialized) : c.hidden.Sound :=
  (HiddenRecords.sound_empty.addAll c.recorded).1

theorem Capture.get_eq (c : Capture serialized) (key : Half) : c.get key = Dict.get key c.hidden.records := by
  rw [Capture.get, c.sound.get]
  rfl

theorem Capture.distinct (c : Capture serialized) : (Dict.keys c.hidden.records).Nodup :=
  c.sound.table.distinct

theorem order_eq_iff (hsha : left.hidden.order = right.hidden.order →
      left.hidden.ordered = right.hidden.ordered) :
    left.hidden.order = right.hidden.order ↔
      Dict.keys left.hidden.records = Dict.keys right.hidden.records := by
  have hkeys : ∀ c : Capture serialized,
      c.hidden.ordered = ((Dict.keys c.hidden.records).map Subtype.val).flatten := by
    intro c
    rw [c.sound.order, Dict.keys, List.map_map]
    rfl
  constructor
  · intro h
    have := hsha h
    rw [hkeys, hkeys] at this
    exact flatten_halves_inj this
  · intro h
    rw [HiddenRecords.order, HiddenRecords.order, hkeys, hkeys, h]

/-- each changed key once -/
theorem nodup_changedRecords : (changedRecords left right).Nodup := by
  rw [changedRecords, List.nodup_append]
  refine ⟨Dict.nodup_keys_filter _ left.distinct,
    Dict.nodup_keys_filter _ right.distinct, ?_⟩
  intro a ha b hb hab
  obtain ⟨x, hx, rfl⟩ := List.mem_map.1 ha
  obtain ⟨y, hy, rfl⟩ := List.mem_map.1 hb
  have hnone := of_decide_eq_true (List.mem_filter.1 hy).2
  rw [← hab, left.get_eq] at hnone
  obtain ⟨v, hv⟩ := Dict.exists_get (Dict.mem_keys (List.mem_filter.1 hx).1)
  rw [hnone] at hv
  exact nomatch hv

/-- the keys with another digest on the other side, or on one side only -/
theorem mem_changedRecords_iff {key : Half} : key ∈ changedRecords left right ↔
    Dict.get key left.hidden.records ≠ Dict.get key right.hidden.records := by
  rw [changedRecords, List.mem_append, List.mem_map, List.mem_map]
  constructor
  · rintro (⟨x, hx, rfl⟩ | ⟨x, hx, rfl⟩)
    · obtain ⟨hx, hne⟩ := List.mem_filter.1 hx
      have hne := of_decide_eq_true hne
      rw [right.get_eq] at hne
      rw [(Dict.get_eq_some_iff left.distinct).2 hx]
      exact hne.symm
    · obtain ⟨hx, hnone⟩ := List.mem_filter.1 hx
      have hnone := of_decide_eq_true hnone
      rw [left.get_eq] at hnone
      rw [hnone, (Dict.get_eq_some_iff right.distinct).2 hx]
      exact (Option.some_ne_none _).symm
  · intro hne
    cases hl : Dict.get key left.hidden.records with
    | some v =>
      refine .inl ⟨(key, v), List.mem_filter.2 ⟨Dict.mem_of_get hl, decide_eq_true ?_⟩, rfl⟩
      rw [right.get_eq]
      rw [hl] at hne
      exact hne.symm
    | none =>
      cases hr : Dict.get key right.hidden.records with
      | none => exact absurd (hl.trans hr.symm) hne
      | some v =>
        refine .inr ⟨(key, v), List.mem_filter.2 ⟨Dict.mem_of_get hr, decide_eq_true ?_⟩, rfl⟩
        rw [left.get_eq]
        exact hl

/-- the same keys in the same order with the same digests -/
theorem records_eq_iff : left.hidden.records = right.hidden.records ↔
    Dict.keys left.hidden.records = Dict.keys right.hidden.records ∧ changedRecords left right = [] := by
  constructor
  · intro h
    refine ⟨by rw [h], List.eq_nil_iff_forall_not_mem.2 fun key hkey => ?_⟩
    exact mem_changedRecords_iff.1 hkey (by rw [h])
  · rintro ⟨hkeys, hnil⟩
    have hget : ∀ key, Dict.get key left.hidden.records = Dict.get key right.hidden.records := by
      intro key
      by_contra hne
      have hmem := mem_changedRecords_iff.2 hne
      rw [hnil] at hmem
      exact nomatch hmem
    refine List.ext_getElem? fun i => ?_
    have hi : (left.hidden.records[i]?).map Prod.fst = (right.hidden.records[i]?).map Prod.fst := by
      rw [← List.getElem?_map, ← List.getElem?_map]
      exact congrArg (·[i]?) hkeys
    cases hl : left.hidden.records[i]? with
    | none =>
      rw [hl] at hi
      exact (Option.map_eq_none_iff.1 hi.symm).symm
    | some x =>
      rw [hl] at hi
      obtain ⟨y, hy, hxy⟩ := Option.map_eq_some_iff.1 hi.symm
      rw [hy]
      have hx := (Dict.get_eq_some_iff left.distinct).2 (List.mem_of_getElem? hl)
      have hy := (Dict.get_eq_some_iff right.distinct).2 (List.mem_of_getElem? hy)
      rw [hget, ← hxy, hy] at hx
      exact congrArg some (Prod.ext hxy.symm (Option.some.inj hx).symm)

/-! ### the changed lines -/

theorem exists_differing {as bs : List Bytes} (h : as ≠ bs) : ∃ p ∈ zipLongest as bs, p.1 ≠ p.2 := by
  induction as generalizing bs with
  | nil =>
    cases bs with
    | nil => exact absurd rfl h
    | cons b bs => exact ⟨(none, some b), List.mem_cons_self, (Option.some_ne_none b).symm⟩
  | cons a as ih =>
    cases bs with
    | nil => exact ⟨(some a, none), List.mem_cons_self, Option.some_ne_none a⟩
    | cons b bs =>
      by_cases hab : a = b
      · obtain ⟨p, hp, hne⟩ := @ih bs fun hrest => h (by rw [hab, hrest])
        exact ⟨p, List.mem_cons_of_mem _ hp, hne⟩
      · exact ⟨(some a, some b), List.mem_cons_self, fun he => hab (Option.some.inj he)⟩

theorem putLine_has {sign : String} {line : Option Bytes} {out out' : Builder} {data : Bytes}
    (hout : out.Has data) (h : putLine serialized sign line out = .ok out') :
    ∃ more, out'.Has (data ++ more) := by
  cases line with
  | none =>
    cases h
    exact ⟨[], by rwa [List.append_nil]⟩
  | some line => exact ⟨_, hout.added h⟩

/-- the two lines come with the first difference -/
theorem putDiff_has {wrote : Bool} {before after : Option Bytes} {out out' : Builder} {data : Bytes}
    (hout : out.Has data) (hwrote : wrote = true → data ≠ [])
    (h : putDiff serialized wrote before after out = .ok out') :
    ∃ more, out'.Has (data ++ more) ∧ data ++ more ≠ [] := by
  -- after the head there is something
  have hhead : ∀ out1, (if wrote then .ok out
      else out.put serialized (bytesOf "--- base\n+++ other\n")) = Except.ok out1 →
        ∃ head, out1.Has (data ++ head) ∧ data ++ head ≠ [] := by
    intro out1 h1
    cases wrote with
    | true =>
      cases h1
      exact ⟨[], by rwa [List.append_nil], by rw [List.append_nil]; exact hwrote rfl⟩
    | false =>
      refine ⟨_, hout.added h1, fun hnil => ?_⟩
      exact absurd (List.append_eq_nil_iff.1 hnil).2 (by decide)
  rw [putDiff] at h
  split at h
  · exact nomatch h
  · rename_i out1 h1
    obtain ⟨head, hhas, hne⟩ := hhead out1 h1
    split at h
    · exact nomatch h
    · rename_i out2 h2
      obtain ⟨m2, hhas2⟩ := putLine_has hhas h2
      obtain ⟨m3, hhas3⟩ := putLine_has hhas2 h
      refine ⟨head ++ m2 ++ m3, ?_, ?_⟩
      · rwa [← List.append_assoc, ← List.append_assoc]
      · rw [← List.append_assoc, ← List.append_assoc]
        exact fun hnil => hne (List.append_eq_nil_iff.1 (List.append_eq_nil_iff.1 hnil).1).1

/-- something is written if lines differ -/
theorem diffLines_has {budget : Budget} {pairs : List (Option Bytes × Option Bytes)} {n : Nat}
    {wrote : Bool} {out out' : Builder} {data : Bytes} (hout : out.Has data)
    (hwrote : wrote = true → data ≠ []) (h : diffLines serialized budget pairs n wrote out = .ok out') :
    ∃ more, out'.Has (data ++ more) ∧ ((data ≠ [] ∨ ∃ p ∈ pairs, p.1 ≠ p.2) → data ++ more ≠ []) := by
  induction pairs generalizing n wrote out data with
  | nil =>
    cases h
    refine ⟨[], by rwa [List.append_nil], ?_⟩
    rw [List.append_nil]
    exact fun h => h.elim id fun ⟨p, hp, _⟩ => (nomatch hp)
  | cons pair pairs ih =>
    obtain ⟨before, after⟩ := pair
    rw [diffLines] at h
    by_cases heq : before = after
    · rw [if_pos heq] at h
      obtain ⟨more, hmore, hne⟩ := ih hout hwrote h
      refine ⟨more, hmore, ?_⟩
      rintro (hdata | ⟨p, hp, hp'⟩)
      · exact hne (.inl hdata)
      · rcases List.mem_cons.1 hp with rfl | hp
        · exact absurd heq hp'
        · exact hne (.inr ⟨p, hp, hp'⟩)
    · rw [if_neg heq] at h
      split at h
      · exact nomatch h
      · rename_i out1 h1
        split_ifs at h
        obtain ⟨m1, hhas1, hne1⟩ := putDiff_has hout hwrote h1
        obtain ⟨more, hmore, hne⟩ := ih hhas1 (fun _ => hne1) h
        rw [List.append_assoc] at hmore hne
        exact ⟨m1 ++ more, hmore, fun _ => hne (.inl hne1)⟩

/-- the memory decides whether there is a result, not which one -/
theorem diffLines_free {serialized : Bool} {budget : Budget} {pairs : List (Option Bytes × Option Bytes)}
    {n : Nat} {wrote : Bool} {out out' : Builder}
    (h : diffLines serialized budget pairs n wrote out = .ok out') :
    diffLines serialized .free pairs n wrote out = .ok out' := by
  induction pairs generalizing n wrote out with
  | nil => exact h
  | cons pair pairs ih =>
    obtain ⟨before, after⟩ := pair
    rw [diffLines] at h ⊢
    by_cases heq : before = after
    · rw [if_pos heq] at h ⊢
      exact ih h
    · rw [if_neg heq] at h ⊢
      split at h
      · exact nomatch h
      · split_ifs at h
        rw [Budget.free, if_neg Bool.false_ne_true]
        exact ih h

theorem compareCaptures_free {budget : Budget} {c : Compared}
    (h : compareCaptures serialized budget left right = .ok c) :
    compareCaptures serialized .free left right = .ok c := by
  rw [compareCaptures] at h ⊢
  split at h
  · exact nomatch h
  · rename_i out hout
    have hfree : (if (!left.text.same right.text) = true then
          diffLines serialized .free (zipLongest left.text.content.lines right.text.content.lines) 0 false .empty
        else if left.hidden.order ≠ right.hidden.order then
          Builder.empty.put serialized (bytesOf "record order changed\n")
        else .ok .empty) = .ok out := by
      split_ifs at hout ⊢
      · exact diffLines_free hout
      · exact hout
      · exact hout
    rw [hfree]
    split_ifs at h
    exact h

/-- **No change is missed, and none is reported that is not there.**  SHA-256 is taken to be free of
collisions on the two texts and on the two orders of keys. -/
theorem compareCaptures_exact {budget : Budget} {c : Compared}
    (h : compareCaptures serialized budget left right = .ok c)
    (htext : Sha256.hexdigest left.text.content.data = Sha256.hexdigest right.text.content.data →
      left.text.content.data = right.text.content.data)
    (horder : left.hidden.order = right.hidden.order → left.hidden.ordered = right.hidden.ordered) :
    (c.unchanged = true ↔ left.text.content.data = right.text.content.data ∧
      left.hidden.records = right.hidden.records) ∧
    c.changed.Nodup ∧
    (∀ key, key ∈ c.changed ↔
      Dict.get key left.hidden.records ≠ Dict.get key right.hidden.records) ∧
    (c.text.data = [] ↔ left.text.content.data = right.text.content.data ∧
      Dict.keys left.hidden.records = Dict.keys right.hidden.records) := by
  have hsame := Stored.same_iff htext
  have hkeys := order_eq_iff horder
  rw [compareCaptures] at h
  split at h
  · cases h
  · rename_i out hout
    split_ifs at h
    cases h
    refine ⟨?_, nodup_changedRecords, fun key => mem_changedRecords_iff, ?_⟩
    · rw [Bool.and_eq_true, Bool.and_eq_true, hsame, List.isEmpty_iff, decide_eq_true_eq, not_not, hkeys,
        records_eq_iff, and_assoc]
      exact and_congr_right fun _ => and_comm
    · by_cases heq : left.text.same right.text = true
      · rw [heq] at hout
        rw [Bool.not_true, if_neg Bool.false_ne_true] at hout
        by_cases hord : left.hidden.order = right.hidden.order
        · rw [if_neg (not_not.2 hord)] at hout
          cases hout
          exact ⟨fun _ => ⟨hsame.1 heq, hkeys.1 hord⟩, fun _ => rfl⟩
        · rw [if_pos hord] at hout
          rw [(Builder.Has.empty.added hout).finish]
          exact ⟨fun hnil => absurd hnil (by decide), fun hboth => absurd (hkeys.2 hboth.2) hord⟩
      · have hdata : left.text.content.data ≠ right.text.content.data := fun he => heq (hsame.2 he)
        rw [if_pos (by simpa using heq)] at hout
        have hlines : left.text.content.lines ≠ right.text.content.lines := by
          intro hl
          rw [Content.lines_eq, Content.lines_eq] at hl
          rw [← (splits_linesOf left.text.content.data).flatten, hl, (splits_linesOf _).flatten] at hdata
          exact hdata rfl
        obtain ⟨more, hhas, hne⟩ := diffLines_has Builder.Has.empty
          (fun hf => absurd hf Bool.false_ne_true) hout
        rw [hhas.finish]
        exact ⟨fun hnil => absurd hnil (hne (.inr (exists_differing hlines))),
          fun hboth => absurd hboth.1 hdata⟩

end

/-- sixteen times the same byte -/
def half (b : UInt8) : Half := ⟨List.replicate 16 b, rfl⟩

/-- one record -/
def sampleRecord (value : UInt8) : HiddenRecords :=
  ⟨⟨[(half 1, half value)], (List.replicate 16 0).set 1 1⟩, List.replicate 16 1⟩

/-- the sample text with one record -/
def sampleCapture (value : UInt8) : Capture true where
  text := sampleStored
  hidden := sampleRecord value
  pairs := [(half 1, half value)]
  recorded := by
    have hgrown : HiddenRecords.empty.table.grown slotNumber = some (List.replicate 16 0) := by
      rw [Table.grown, if_neg (by decide)]
      rfl
    have hslot : slot slotNumber HiddenRecords.empty.table.data (half 1) (List.replicate 16 0)
        = some (1, none) := by decide
    have hadd : HiddenRecords.empty.table.add slotNumber (half 1) (half value)
        = some (true, (sampleRecord value).table) := by
      rw [Table.add, hgrown]
      dsimp only
      rw [hslot]
      rfl
    rw [HiddenRecords.addAll, HiddenRecords.add, hadd]
    rfl

/-- the value of the record is another one -/
theorem compareCaptures_exact_value : ∃ c,
    compareCaptures true ⟨fun _ => false, false⟩ (sampleCapture 2) (sampleCapture 3) = .ok c ∧
      c.unchanged = false ∧ half 1 ∈ c.changed ∧ c.text.data = [] := by
  have hordered : (sampleCapture 2).hidden.ordered = (sampleCapture 3).hidden.ordered := rfl
  have hsame : (sampleCapture 2).text.same (sampleCapture 3).text = true := by
    rw [Stored.same, Bool.and_eq_true, decide_eq_true_eq, decide_eq_true_eq]
    exact ⟨rfl, rfl⟩
  have hok : ∃ c, compareCaptures true ⟨fun _ => false, false⟩ (sampleCapture 2) (sampleCapture 3)
      = .ok c := by
    rw [compareCaptures, hsame, Bool.not_true, if_neg Bool.false_ne_true, HiddenRecords.order,
      HiddenRecords.order, hordered, if_neg (not_not.2 rfl)]
    exact ⟨_, rfl⟩
  obtain ⟨c, hc⟩ := hok
  obtain ⟨hunchanged, -, hchanged, htext⟩ := compareCaptures_exact hc (fun _ => rfl) (fun _ => hordered)
  refine ⟨c, hc, ?_, ?_, htext.2 ⟨rfl, rfl⟩⟩
  · rw [← Bool.not_eq_true, hunchanged]
    exact fun h => absurd h.2 (by decide)
  · exact (hchanged (half 1)).2 (by decide)

end Netops.Filter
