import Netops.Audit.Segments

/-!
# The audit log under torn writes

In every run of appends, each of which may be cut after any number of bytes, and recoveries:

* the segments hold the lines of the events that were written to their end, in order, and only
  `current.jsonl` may end in torn bytes;
* while it does, every append is refused and changes nothing;
* `recover` moves exactly the torn bytes to a file of their own.

The runs keep within retention and budget, so that no segment is removed, and the clock moves on
between two names.
-/

namespace Netops.Audit

/-! ## lines -/

def lines (events : List Json.Value) : Bytes := events.flatMap line

theorem lines_nil : lines [] = [] := rfl
theorem lines_cons (e : Json.Value) (es : List Json.Value) : lines (e :: es) = line e ++ lines es := rfl
theorem lines_append (es fs : List Json.Value) : lines (es ++ fs) = lines es ++ lines fs :=
  List.flatMap_append

/-- neither the end of a line nor a carriage return -/
def Inline (bs : Bytes) : Prop := ∀ b ∈ bs, b ≠ 10 ∧ b ≠ 13

theorem record_inline {depth : Nat} {e : Json.Value} (h : e.Printable depth) : Inline (record e) := by
  intro b hb
  obtain ⟨c, hc, hb⟩ := List.mem_flatMap.1 hb
  have hge : 32 ≤ b.toNat := by
    have hcontrol := Json.dumpsRaw_noControl e h c hc
    rcases Utf8.mem_utf8EncodeChar hb with he | he <;> omega
  constructor <;> (rintro rfl; revert hge; decide)

theorem splitLinesFrom_inline {bs rest : Bytes} (h : Inline bs) :
    splitLinesFrom false (bs ++ lineEnd :: rest) = bs :: splitLinesFrom false rest := by
  induction bs with
  | nil => rfl
  | cons b bs ih =>
    obtain ⟨h10, h13⟩ := h b (List.mem_cons_self ..)
    rw [List.cons_append, splitLinesFrom, if_neg h10, if_neg h13,
      ih fun x hx => h x (List.mem_cons_of_mem _ hx)]

theorem splitLinesFrom_lines {depth : Nat} {es : List Json.Value} (h : ∀ e ∈ es, e.Printable depth) :
    splitLinesFrom false (lines es) = es.map record := by
  induction es with
  | nil => rfl
  | cons e es ih =>
    rw [lines_cons, line, List.append_assoc, List.singleton_append,
      splitLinesFrom_inline (record_inline (h e (List.mem_cons_self ..))),
      ih fun x hx => h x (List.mem_cons_of_mem _ hx), List.map_cons]

theorem lines_getLast? (es : List Json.Value) : es = [] ∨ (lines es).getLast? = some lineEnd := by
  rcases List.eq_nil_or_concat es with rfl | ⟨es, e, rfl⟩
  · exact .inl rfl
  · right
    rw [List.concat_eq_append, lines_append, lines_cons, lines_nil, List.append_nil, line,
      ← List.append_assoc, List.getLast?_concat]

/-- what follows the last end of a line -/
theorem fragment_lines {es : List Json.Value} {torn : Bytes} (ht : lineEnd ∉ torn) :
    ((lines es ++ torn).reverse.takeWhile (· ≠ lineEnd)).reverse = torn := by
  have hall : ∀ b ∈ torn.reverse, decide (b ≠ lineEnd) = true := by
    intro b hb
    exact decide_eq_true fun he => ht (he ▸ List.mem_reverse.1 hb)
  rw [List.reverse_append, List.takeWhile_append_of_pos hall]
  have hnil : (lines es).reverse.takeWhile (fun b => decide (b ≠ lineEnd)) = [] := by
    rcases lines_getLast? es with rfl | h
    · rfl
    · obtain ⟨bs, hbs⟩ := List.getLast?_eq_some_iff.1 h
      rw [hbs, List.reverse_append]
      rfl
  rw [hnil, List.append_nil, List.reverse_reverse]

/-- the records of a segment are those of its events -/
theorem splitRecords_lines {depth : Nat} {es : List Json.Value} {torn : Bytes}
    (h : ∀ e ∈ es, e.Printable depth) (ht : lineEnd ∉ torn) :
    splitRecords (lines es ++ torn) = (es.map record, torn) := by
  have hlen : (lines es ++ torn).length - torn.length = (lines es).length := by
    rw [List.length_append, Nat.add_sub_cancel]
  simp only [splitRecords, fragment_lines ht, hlen, List.take_left, splitLinesFrom_lines h]

theorem incompleteTail_lines {es : List Json.Value} {torn : Bytes} (ht : lineEnd ∉ torn) :
    incompleteTail (lines es ++ torn) = true ↔ torn ≠ [] := by
  rcases List.eq_nil_or_concat torn with rfl | ⟨ts, t, rfl⟩
  · rcases lines_getLast? es with rfl | h <;> simp_all [incompleteTail, lines_nil]
  · have hne : t ≠ lineEnd := fun he => ht (by simp [he])
    simp [incompleteTail, List.concat_eq_append, ← List.append_assoc, hne]

/-- a record is read back as its event -/
theorem loadsLine_record {depth : Nat} {e : Json.Value} (h : e.Printable depth) :
    loadsLine depth (record e) = some e := by
  rw [loadsLine, record, Utf8.decodeAll_encode, Option.bind_some, Json.loads_dumpsRaw h]

/-! ## one append -/

/-- no segment is too old, and the event fits into the budget -/
structure Within (limits : Limits) (clock : Clock) (encoded : Bytes) (d : Directory) : Prop where
  retained : ∀ s ∈ d.rotated, clock.now ≤ s.modified + limits.retentionSeconds * 1000000000
  fits : d.size + encoded.length ≤ limits.budget

theorem expire_within {limits : Limits} {clock : Clock} {encoded : Bytes} {d : Directory}
    (h : Within limits clock encoded d) : expire limits clock.now d = d := by
  have hf : d.rotated.filter (fun s =>
      clock.now ≤ s.modified + limits.retentionSeconds * 1000000000) = d.rotated :=
    List.filter_eq_self.2 fun s hs => decide_eq_true (h.retained s hs)
  rw [expire, hf]

theorem makeRoom_fits {limits : Limits} {size : Nat} {d : Directory}
    (h : d.size + size ≤ limits.budget) (n : Nat) : makeRoom limits size n d = (true, d) := by
  cases n with
  | zero => rw [makeRoom, decide_eq_true h]
  | succ n => rw [makeRoom, if_pos h]

/-- the segment is full -/
def Full (limits : Limits) (size : Nat) (d : Directory) : Prop :=
  d.current ≠ none ∧ limits.segmentSize < d.content.length + size

/-- a rotation keeps the bytes -/
theorem rotate_spec (limits : Limits) (size : Nat) {stamp : Nat} {d : Directory}
    (hs : ∀ s ∈ d.rotated, s.stamp ≠ stamp) :
    (¬Full limits size d ∧ rotate limits stamp size d = d) ∨
    (Full limits size d ∧ ∃ modified, rotate limits stamp size d =
      ⟨d.rotated ++ [⟨stamp, d.content, modified⟩], none, d.quarantine⟩) := by
  obtain ⟨rotated, current, quarantine⟩ := d
  cases current with
  | none => exact .inl ⟨fun h => h.1 rfl, rfl⟩
  | some c =>
    obtain ⟨data, modified⟩ := c
    have hf : rotated.filter (·.stamp ≠ stamp) = rotated :=
      List.filter_eq_self.2 fun s h => decide_eq_true (hs s h)
    by_cases h : limits.segmentSize < data.length + size
    · exact .inr ⟨⟨nofun, h⟩, modified, by simp only [rotate, if_pos h, hf]; rfl⟩
    · exact .inl ⟨fun hfull => h hfull.2, by simp only [rotate, if_neg h]⟩

theorem rotate_size (limits : Limits) (size : Nat) {stamp : Nat} {d : Directory}
    (hs : ∀ s ∈ d.rotated, s.stamp ≠ stamp) : (rotate limits stamp size d).size = d.size := by
  rcases rotate_spec limits size hs with ⟨-, h⟩ | ⟨-, modified, h⟩
  · rw [h]
  · rw [h]
    simp [Directory.size, Directory.content]

/-- within retention and budget nothing is removed -/
theorem append_within {limits : Limits} {depth : Nat} {clock : Clock} {fate : Fate}
    {event : Json.Value} {d : Directory} (hp : event.Printable depth)
    (hw : Within limits clock (line event) d) (hs : ∀ s ∈ d.rotated, s.stamp ≠ clock.stamp) :
    append limits depth clock fate event d =
      if maxMessage * 2 < (line event).length then
        ⟨.error (.unavailable "Audit record exceeds the supported message size"), d, 0⟩
      else if incompleteTail d.content then ⟨.error (.unavailable incompleteMessage), d, 0⟩
      else writeRecord clock fate (line event) (rotate limits clock.stamp (line event).length d) := by
  have hfits := hw.fits
  rw [← rotate_size limits (line event).length hs] at hfits
  simp only [append, encode, if_pos hp, expire_within hw, makeRoom_fits hfits, if_true]

theorem append_unencodable {limits : Limits} {depth : Nat} {clock : Clock} {fate : Fate}
    {event : Json.Value} {d : Directory} (hp : ¬event.Printable depth) :
    append limits depth clock fate event d = ⟨.error .unencodable, d, 0⟩ := by
  simp only [append, encode, if_neg hp]

/-! ## runs -/

/-- the events that were written to their end, with the time up to which the clock was read -/
inductive Reach (limits : Limits) (depth : Nat) : Nat → Directory → List Json.Value → Prop
  | start (t : Nat) : Reach limits depth t ⟨[], none, []⟩ []
  | append {t t' : Nat} {d : Directory} {log : List Json.Value} (clock : Clock) (fate : Fate)
      (event : Json.Value) (h : Reach limits depth t d log)
      (hw : event.Printable depth → Within limits clock (line event) d)
      (hlate : t < clock.stamp) (hstamp : clock.stamp ≤ t') :
      Reach limits depth t' (append limits depth clock fate event d).directory
        (if (append limits depth clock fate event d).written = (line event).length then log ++ [event]
          else log)
  | recover {t t' : Nat} {d : Directory} {log : List Json.Value} (clock : Nat → Nat)
      (h : Reach limits depth t d log) (hlate : ∀ i, t < clock i)
      (hclock : ∀ i < d.segments.length, clock i ≤ t') (ht : t ≤ t') :
      Reach limits depth t' (recover depth clock d).2 log

/-- the longest segment -/
def segmentBound (limits : Limits) : Nat := max limits.segmentSize (maxMessage * 2)

/-- what the directory holds: the lines of the events, segment by segment, and torn bytes at the end
of the current one -/
structure Shape (limits : Limits) (depth t : Nat) (d : Directory) (log : List Json.Value)
    (closed : List (List Json.Value)) (last : List Json.Value) (torn : Bytes) : Prop where
  rotated : d.rotated.map Segment.data = closed.map lines
  content : d.content = lines last ++ torn
  events : closed.flatten ++ last = log
  printable : ∀ e ∈ log, e.Printable depth
  inline : lineEnd ∉ torn
  stamps : ∀ s ∈ d.rotated, s.stamp ≤ t
  quarantined : ∀ q ∈ d.quarantine, q.stamp ≤ t
  rotated_le : ∀ s ∈ d.rotated, s.data.length ≤ segmentBound limits
  content_le : d.content.length ≤ segmentBound limits

section
variable {limits : Limits} {depth t : Nat} {d : Directory} {log : List Json.Value}
  {closed : List (List Json.Value)} {last : List Json.Value} {torn : Bytes}

theorem Shape.later (h : Shape limits depth t d log closed last torn) {t' : Nat} (ht : t ≤ t') :
    Shape limits depth t' d log closed last torn :=
  { h with
    stamps := fun s hs => Nat.le_trans (h.stamps s hs) ht
    quarantined := fun q hq => Nat.le_trans (h.quarantined q hq) ht }

/-- a rotation closes the current segment, and leaves room for the event -/
theorem Shape.rotate (size : Nat) {t' stamp : Nat}
    (h : Shape limits depth t d log closed last []) (hs : t < stamp) (ht : stamp ≤ t') : ∃ closed' last',
    Shape limits depth t' (rotate limits stamp size d) log closed' last' [] ∧
      ((Audit.rotate limits stamp size d).content = [] ∨
        (Audit.rotate limits stamp size d).content.length + size ≤ limits.segmentSize) := by
  have hfresh : ∀ s ∈ d.rotated, s.stamp ≠ stamp := fun s hm he => by
    have := h.stamps s hm
    omega
  have hlater : Shape limits depth t' d log closed last [] := h.later (by omega)
  rcases rotate_spec limits size hfresh with ⟨hn, he⟩ | ⟨hf, modified, he⟩
  · refine ⟨closed, last, by rw [he]; exact hlater, ?_⟩
    rw [he]
    by_cases hc : d.current = none
    · exact .inl (by rw [Directory.content, hc]; rfl)
    · exact .inr (Nat.le_of_not_lt fun hl => hn ⟨hc, hl⟩)
  · refine ⟨closed ++ [last], [], ?_, .inl (by rw [he]; rfl)⟩
    rw [he]
    constructor
    · simp only [List.map_append, h.rotated, List.map_cons, List.map_nil, h.content, List.append_nil]
    · rfl
    · simp only [List.flatten_append, List.flatten_cons, List.flatten_nil, List.append_nil, h.events]
    · exact h.printable
    · exact h.inline
    · intro s hm
      rcases List.mem_append.1 hm with hm | hm
      · exact hlater.stamps s hm
      · rw [List.mem_singleton.1 hm]
        exact ht
    · exact hlater.quarantined
    · intro s hm
      rcases List.mem_append.1 hm with hm | hm
      · exact h.rotated_le s hm
      · rw [List.mem_singleton.1 hm]
        exact h.content_le
    · exact Nat.zero_le _

theorem line_length (event : Json.Value) : (line event).length = (record event).length + 1 := by
  rw [line, List.length_append, List.length_singleton]

/-- a cut line has no end -/
theorem take_line_inline {event : Json.Value} (hp : event.Printable depth) {n : Nat}
    (hn : n < (line event).length) : lineEnd ∉ (line event).take n := by
  have hle : n ≤ (record event).length := by
    rw [line_length] at hn
    omega
  rw [line, List.take_append_of_le_length hle]
  exact fun hm => (record_inline hp _ (List.mem_of_mem_take hm)).1 rfl

/-- bytes of an event at the end of the current segment -/
theorem Shape.write {event : Json.Value} {n modified : Nat}
    (h : Shape limits depth t d log closed last []) (hp : event.Printable depth)
    (hsize : d.content.length + (line event).length ≤ segmentBound limits) : ∃ last' torn',
    Shape limits depth t
      { d with current := some (d.content ++ (line event).take n, modified) }
      (if ((line event).take n).length = (line event).length then log ++ [event] else log)
      closed last' torn' := by
  have hle : (d.content ++ (line event).take n).length ≤ segmentBound limits := by
    rw [List.length_append, List.length_take]
    omega
  by_cases hn : (line event).length ≤ n
  · rw [List.take_of_length_le hn] at hle
    rw [List.take_of_length_le hn, if_pos rfl]
    refine ⟨last ++ [event], [],
      { h with
        content := ?_
        events := ?_
        printable := ?_
        content_le := hle }⟩
    · show d.content ++ line event = _
      rw [h.content, lines_append, lines_cons, lines_nil, List.append_nil, List.append_nil,
        List.append_nil]
    · rw [← List.append_assoc, h.events]
    · intro e he
      rcases List.mem_append.1 he with he | he
      · exact h.printable e he
      · rw [List.mem_singleton.1 he]
        exact hp
  · have hne : ((line event).take n).length ≠ (line event).length := by
      rw [List.length_take]
      omega
    rw [if_neg hne]
    refine ⟨last, (line event).take n,
      { h with
        content := ?_
        inline := ?_
        content_le := hle }⟩
    · show d.content ++ _ = _
      rw [h.content, List.append_nil]
    · exact take_line_inline hp (Nat.lt_of_not_le hn)

/-- a write that is not cut is one that is cut at the end -/
theorem writeRecord_done (clock : Clock) (encoded : Bytes) (d : Directory) :
    (writeRecord clock .done encoded d).directory
        = (writeRecord clock (.cut encoded.length) encoded d).directory ∧
      (writeRecord clock .done encoded d).written
        = (writeRecord clock (.cut encoded.length) encoded d).written := by
  simp only [writeRecord, List.take_length]
  split <;> exact ⟨rfl, rfl⟩

theorem Shape.append {t' : Nat} {clock : Clock} {fate : Fate} {event : Json.Value}
    (h : Shape limits depth t d log closed last torn)
    (hw : event.Printable depth → Within limits clock (line event) d) (hlate : t < clock.stamp)
    (hstamp : clock.stamp ≤ t') : ∃ closed' last' torn',
    Shape limits depth t' (append limits depth clock fate event d).directory
      (if (Audit.append limits depth clock fate event d).written = (line event).length then
        log ++ [event] else log) closed' last' torn' := by
  have hlater : Shape limits depth t' d log closed last torn := h.later (by omega)
  have hpos : 0 ≠ (line event).length := by
    rw [line_length]
    omega
  by_cases hp : event.Printable depth
  swap
  · rw [append_unencodable hp, if_neg hpos]
    exact ⟨closed, last, torn, hlater⟩
  have hfresh : ∀ s ∈ d.rotated, s.stamp ≠ clock.stamp := fun s hm he => by
    have := h.stamps s hm
    omega
  rw [append_within hp (hw hp) hfresh]
  by_cases hlong : maxMessage * 2 < (line event).length
  · rw [if_pos hlong, if_neg hpos]
    exact ⟨closed, last, torn, hlater⟩
  rw [if_neg hlong]
  by_cases htail : incompleteTail d.content = true
  · rw [if_pos htail, if_neg hpos]
    exact ⟨closed, last, torn, hlater⟩
  rw [if_neg htail]
  rw [h.content, incompleteTail_lines h.inline, not_not] at htail
  subst htail
  obtain ⟨closed', last', h', hroom⟩ := h.rotate (line event).length hlate hstamp
  generalize Audit.rotate limits clock.stamp (line event).length d = d' at h' hroom ⊢
  have hsize : d'.content.length + (line event).length ≤ segmentBound limits := by
    rw [segmentBound]
    rcases hroom with hroom | hroom
    · rw [hroom, List.length_nil]
      omega
    · omega
  have hnot : incompleteTail d'.content = false := by
    rw [← Bool.not_eq_true, h'.content, incompleteTail_lines h'.inline]
    simp
  have hcut : ∀ n, ∃ closed' last' torn',
      Shape limits depth t' (writeRecord clock (.cut n) (line event) d').directory
        (if (writeRecord clock (.cut n) (line event) d').written = (line event).length then
          log ++ [event] else log) closed' last' torn' := by
    intro n
    simp only [writeRecord, hnot, Bool.false_eq_true, if_false]
    exact ⟨closed', h'.write hp hsize⟩
  cases fate with
  | beforeOpen =>
    have hw0 : (writeRecord clock .beforeOpen (line event) d').written ≠ (line event).length := hpos
    rw [if_neg hw0]
    exact ⟨closed', last', [], h'⟩
  | cut n => exact hcut n
  | done =>
    obtain ⟨hdir, hwritten⟩ := writeRecord_done clock (line event) d'
    rw [hdir, hwritten]
    exact hcut _

/-! ## recovery -/

theorem mapM_ok {α β ε : Type} (f : α → Except ε β) (g : α → β) :
    ∀ l : List α, (∀ x ∈ l, f x = .ok (g x)) → l.mapM f = .ok (l.map g) := by
  intro l h
  induction l with
  | nil => rfl
  | cons x l ih =>
    rw [List.mapM_cons, h x (List.mem_cons_self ..), ih fun y hy => h y (List.mem_cons_of_mem _ hy)]
    rfl

theorem mapM_mem {α β ε : Type} {f : α → Except ε β} : ∀ {l : List α} {r : List β},
    l.mapM f = .ok r → ∀ x ∈ l, ∃ y, f x = .ok y := by
  intro l
  induction l with
  | nil => exact fun _ x hx => nomatch hx
  | cons a l ih =>
    intro r h x hx
    rw [List.mapM_cons] at h
    cases ha : f a with
    | error e => rw [ha] at h; exact nomatch h
    | ok y =>
      rw [ha] at h
      cases hl : l.mapM f with
      | error e => rw [hl] at h; exact nomatch h
      | ok ys =>
        rcases List.mem_cons.1 hx with rfl | hx
        · exact ⟨y, ha⟩
        · exact ih hl x hx

theorem mem_segments {name : SegmentName} {data : Bytes} (hm : (name, data) ∈ d.segments) :
    (∃ s ∈ d.rotated, data = s.data ∧ name ≠ .current) ∨
      (name = .current ∧ data = d.content) := by
  rcases List.mem_append.1 hm with hm | hm
  · left
    obtain ⟨x, hx, he⟩ := List.mem_map.1 hm
    have hx' := (List.perm_insertionSort _ _).mem_iff.1 hx
    obtain ⟨s, hs, rfl⟩ := List.mem_map.1 hx'
    cases he
    exact ⟨s, hs, rfl, nofun⟩
  · right
    obtain ⟨c, hc, he⟩ := List.mem_map.1 hm
    cases he
    refine ⟨rfl, ?_⟩
    rw [Directory.content, Option.mem_toList.1 hc]
    rfl

/-- a segment of lines is planned as it is -/
theorem planSegment_lines {es : List Json.Value} (bytes : Bytes) (name : SegmentName)
    (hp : ∀ e ∈ es, e.Printable depth) (hi : lineEnd ∉ bytes)
    (hle : (lines es ++ bytes).length ≤ segmentReadLimit) :
    planSegment depth (name, lines es ++ bytes)
      = .ok (if bytes = [] then none else some (name, bytes)) := by
  have hvalid : (es.map record).any (fun l => (loadsLine depth l).isNone) = false := by
    rw [List.any_eq_false]
    intro l hl
    obtain ⟨e, he, rfl⟩ := List.mem_map.1 hl
    rw [loadsLine_record (hp e he)]
    exact Bool.false_ne_true
  simp only [planSegment, if_neg (Nat.not_lt.2 hle), splitRecords_lines hp hi, hvalid]
  rfl

theorem Shape.mem_rotated (h : Shape limits depth t d log closed last torn) {s : Segment}
    (hs : s ∈ d.rotated) : ∃ es ∈ closed, s.data = lines es := by
  have hm : s.data ∈ closed.map lines := h.rotated ▸ List.mem_map_of_mem hs
  obtain ⟨es, hes, he⟩ := List.mem_map.1 hm
  exact ⟨es, hes, he.symm⟩

theorem Shape.printable_closed (h : Shape limits depth t d log closed last torn)
    {es : List Json.Value} (hes : es ∈ closed) : ∀ e ∈ es, e.Printable depth := by
  intro e he
  apply h.printable
  rw [← h.events]
  exact List.mem_append_left _ (List.mem_flatten.2 ⟨es, hes, he⟩)

theorem Shape.printable_last (h : Shape limits depth t d log closed last torn) :
    ∀ e ∈ last, e.Printable depth := by
  intro e he
  apply h.printable
  rw [← h.events]
  exact List.mem_append_right _ he

/-- what is planned: only the current segment has torn bytes -/
def torePlan (torn : Bytes) (segment : SegmentName × Bytes) : Option (SegmentName × Bytes) :=
  if segment.1 = .current ∧ torn ≠ [] then some (.current, torn) else none

theorem Shape.plan (h : Shape limits depth t d log closed last torn)
    (hread : ∀ s ∈ d.segments, s.2.length ≤ segmentReadLimit) :
    d.segments.mapM (planSegment depth) = .ok (d.segments.map (torePlan torn)) := by
  refine mapM_ok _ _ _ ?_
  rintro ⟨name, data⟩ hm
  have hle : data.length ≤ segmentReadLimit := hread _ hm
  rcases mem_segments hm with ⟨s, hs, rfl, hne⟩ | ⟨rfl, rfl⟩
  · obtain ⟨es, hes, he⟩ := h.mem_rotated hs
    rw [he] at hle
    have hplan := planSegment_lines [] name (h.printable_closed hes) (by simp)
      (by rwa [List.append_nil])
    rw [List.append_nil] at hplan
    rw [he, hplan, if_pos rfl, torePlan, if_neg fun hc => hne hc.1]
  · rw [h.content] at hle ⊢
    rw [planSegment_lines torn .current h.printable_last h.inline hle, torePlan]
    by_cases ht : torn = []
    · rw [if_pos ht, if_neg fun hc => hc.2 ht]
    · rw [if_neg ht, if_pos ⟨rfl, ht⟩]

theorem filterMap_plan (hc : torn ≠ [] → d.current ≠ none) :
    (d.segments.map (torePlan torn)).filterMap id
      = if torn = [] then [] else [(SegmentName.current, torn)] := by
  rw [List.filterMap_map, Function.id_comp]
  by_cases ht : torn = []
  · rw [if_pos ht]
    exact List.filterMap_eq_nil_iff.2 fun x _ => if_neg fun hc => hc.2 ht
  · rw [if_neg ht, Directory.segments, List.filterMap_append]
    have hrot : ∀ l : List (Nat × Bytes), (l.map fun s => (SegmentName.rotated s.1, s.2)).filterMap
        (torePlan torn) = [] := by
      intro l
      refine List.filterMap_eq_nil_iff.2 fun x hx => if_neg fun hc => ?_
      obtain ⟨s, -, rfl⟩ := List.mem_map.1 hx
      exact nomatch hc.1
    rw [hrot]
    obtain ⟨c, hcur⟩ := Option.ne_none_iff_exists'.1 (hc ht)
    rw [hcur]
    simp [torePlan, ht]

/-- the directory after `recover` -/
def recovered (d : Directory) (last : List Json.Value) (torn : Bytes) (now : Nat) : Directory :=
  if torn = [] then d
  else
    ⟨d.rotated, some (lines last, now), d.quarantine ++ [⟨.current, now, torn⟩]⟩

theorem Shape.recover (h : Shape limits depth t d log closed last torn)
    (hread : ∀ s ∈ d.segments, s.2.length ≤ segmentReadLimit) {clock : Nat → Nat} (hlate : t < clock 0) :
    (∃ results, (recover depth clock d).1 = .ok results) ∧
      (Audit.recover depth clock d).2 = recovered d last torn (clock 0) := by
  have hcur : torn ≠ [] → d.current ≠ none := by
    intro ht hn
    have hcontent := h.content
    rw [Directory.content, hn] at hcontent
    exact ht (List.append_eq_nil_iff.1 hcontent.symm).2
  rw [Audit.recover, h.plan hread]
  simp only [filterMap_plan hcur]
  by_cases ht : torn = []
  · rw [if_pos ht, recovered, if_pos ht, runPlan]
    exact ⟨⟨[], rfl⟩, rfl⟩
  · obtain ⟨c, hc⟩ := Option.ne_none_iff_exists'.1 (hcur ht)
    have hfresh : d.quarantine.any (fun p => p.segment = SegmentName.current && p.stamp = clock 0)
        = false := by
      rw [List.any_eq_false]
      intro q hq
      have hle := h.quarantined q hq
      have hne : q.stamp ≠ clock 0 := by omega
      simp [hne]
    have hdata : c.1 = lines last ++ torn := by
      rw [← h.content, Directory.content, hc]
      rfl
    have hcut : c.1.take (c.1.length - torn.length) = lines last := by
      rw [hdata, List.length_append, Nat.add_sub_cancel, List.take_left]
    rw [if_neg ht, recovered, if_neg ht, runPlan]
    simp only [hfresh, Bool.false_eq_true, if_false, runPlan]
    refine ⟨⟨_, rfl⟩, ?_⟩
    simp only [Directory.truncate, hc, Option.map_some, hcut]

/-- a segment that is too long to be read stops the recovery before it changes anything -/
theorem recover_unread (hread : ¬∀ s ∈ d.segments, s.2.length ≤ segmentReadLimit)
    (clock : Nat → Nat) : (recover depth clock d).2 = d := by
  rw [Audit.recover]
  cases hm : d.segments.mapM (planSegment depth) with
  | error e => rfl
  | ok plan =>
    refine absurd (fun s hs => ?_) hread
    obtain ⟨p, hp⟩ := mapM_mem hm s hs
    rw [planSegment] at hp
    split at hp
    · exact nomatch hp
    · next h => exact Nat.not_lt.1 h

theorem Shape.recovered (h : Shape limits depth t d log closed last torn) {now t' : Nat}
    (ht : t ≤ t') (hnow : torn ≠ [] → now ≤ t') :
    ∃ torn', Shape limits depth t' (recovered d last torn now) log closed last torn' := by
  have hlater : Shape limits depth t' d log closed last torn := h.later ht
  by_cases hn : torn = []
  · rw [Audit.recovered, if_pos hn]
    exact ⟨torn, hlater⟩
  · rw [Audit.recovered, if_neg hn]
    refine ⟨[],
      { hlater with
        content := ?_
        inline := by simp
        quarantined := ?_
        content_le := ?_ }⟩
    · exact (List.append_nil _).symm
    · intro q hq
      rcases List.mem_append.1 hq with hq | hq
      · exact hlater.quarantined q hq
      · rw [List.mem_singleton.1 hq]
        exact hnow hn
    · have hle := h.content_le
      rw [h.content, List.length_append] at hle
      exact Nat.le_trans (Nat.le_add_right _ _) hle

/-! ## every run -/

theorem segments_length (d : Directory) : torn ≠ [] → d.content = lines last ++ torn →
    0 < d.segments.length := by
  intro ht hc
  cases hcur : d.current with
  | none =>
    rw [Directory.content, hcur] at hc
    exact absurd (List.append_eq_nil_iff.1 hc.symm).2 ht
  | some c =>
    rw [Directory.segments, List.length_append, hcur]
    simp

theorem Reach.shape (h : Reach limits depth t d log) :
    ∃ closed last torn, Shape limits depth t d log closed last torn := by
  induction h with
  | start t =>
    refine ⟨[], [], [], rfl, rfl, rfl, ?_, ?_, ?_, ?_, ?_, Nat.zero_le _⟩ <;> simp
  | append clock fate event h hw hlate hstamp ih =>
    obtain ⟨closed, last, torn, hs⟩ := ih
    exact hs.append hw hlate hstamp
  | @recover _ _ d _ clock h hlate hclock ht ih =>
    obtain ⟨closed, last, torn, hs⟩ := ih
    refine ⟨closed, last, ?_⟩
    by_cases hread : ∀ s ∈ d.segments, s.2.length ≤ segmentReadLimit
    · rw [(hs.recover hread (hlate 0)).2]
      exact hs.recovered ht fun hn => hclock 0 (segments_length _ hn hs.content)
    · rw [recover_unread hread]
      exact ⟨torn, hs.later ht⟩

end

theorem append_torn {limits : Limits} {depth : Nat} {d : Directory}
    (ht : incompleteTail d.content = true) (clock : Clock) (fate : Fate) (event : Json.Value)
    (hr : ∀ s ∈ d.rotated, clock.now ≤ s.modified + limits.retentionSeconds * 1000000000) :
    (append limits depth clock fate event d).directory = d ∧
      (append limits depth clock fate event d).written = 0 ∧
      (event.Printable depth → ∃ message,
        (append limits depth clock fate event d).result = .error (.unavailable message)) ∧
      (¬event.Printable depth →
        (append limits depth clock fate event d).result = .error .unencodable) := by
  have hexpire : expire limits clock.now d = d := by
    rw [expire, List.filter_eq_self.2 fun s hs => decide_eq_true (hr s hs)]
  by_cases hp : event.Printable depth
  · simp only [append, encode, if_pos hp, hexpire, if_pos ht]
    split
    · exact ⟨rfl, rfl, fun _ => ⟨_, rfl⟩, fun h => absurd hp h⟩
    · exact ⟨rfl, rfl, fun _ => ⟨_, rfl⟩, fun h => absurd hp h⟩
  · rw [append_unencodable hp]
    exact ⟨rfl, rfl, fun h => absurd h hp, fun _ => rfl⟩

/-- in every run the segments hold the events that were written to their end, torn bytes stop every
append, and `recover` moves exactly these bytes away -/
theorem torn_writes {limits : Limits} {depth t : Nat} {d : Directory} {log : List Json.Value}
    (h : Reach limits depth t d log) :
    ∃ (closed : List (List Json.Value)) (last : List Json.Value) (torn : Bytes),
    (d.rotated.map Segment.data = closed.map lines ∧ d.content = lines last ++ torn ∧
      closed.flatten ++ last = log) ∧
    ((∀ es ∈ closed, splitRecords (lines es) = (es.map record, [])) ∧
      splitRecords d.content = (last.map record, torn) ∧
      ∀ e ∈ log, loadsLine depth (record e) = some e) ∧
    (incompleteTail d.content = true ↔ torn ≠ []) ∧
    (torn ≠ [] → ∀ clock fate event,
      (∀ s ∈ d.rotated, clock.now ≤ s.modified + limits.retentionSeconds * 1000000000) →
      (append limits depth clock fate event d).directory = d ∧
      (append limits depth clock fate event d).written = 0 ∧
      (event.Printable depth → ∃ message,
        (append limits depth clock fate event d).result = .error (.unavailable message)) ∧
      (¬event.Printable depth →
        (append limits depth clock fate event d).result = .error .unencodable)) ∧
    (∀ clock : Nat → Nat, (∀ i, t < clock i) →
      (∀ s ∈ d.segments, s.2.length ≤ segmentReadLimit) →
      (∃ results, (recover depth clock d).1 = .ok results) ∧
      (recover depth clock d).2 = recovered d last torn (clock 0)) ∧
    (limits.segmentSize ≤ segmentReadLimit →
      ∀ s ∈ d.segments, s.2.length ≤ segmentReadLimit) := by
  obtain ⟨closed, last, torn, hs⟩ := h.shape
  have htail : incompleteTail d.content = true ↔ torn ≠ [] := by
    rw [hs.content]
    exact incompleteTail_lines hs.inline
  refine ⟨closed, last, torn, ⟨hs.rotated, hs.content, hs.events⟩, ⟨?_, ?_, ?_⟩, htail, ?_, ?_, ?_⟩
  · intro es hes
    have hsplit := splitRecords_lines (hs.printable_closed hes) (List.not_mem_nil (a := lineEnd))
    rwa [List.append_nil] at hsplit
  · rw [hs.content]
    exact splitRecords_lines hs.printable_last hs.inline
  · exact fun e he => loadsLine_record (hs.printable e he)
  · exact fun hn => append_torn (htail.2 hn)
  · exact fun clock hlate hread => hs.recover hread (hlate 0)
  · rintro hsize ⟨name, data⟩ hm
    have hbound : segmentBound limits ≤ segmentReadLimit :=
      max_le hsize (by decide)
    rcases mem_segments hm with ⟨s, hrot, rfl, -⟩ | ⟨-, rfl⟩
    · exact Nat.le_trans (hs.rotated_le s hrot) hbound
    · exact Nat.le_trans hs.content_le hbound

section
/-- the settings a new instance gets -/
def defaultLimits : Limits :=
  { budget := 268435456, segmentSize := 16777216, retentionSeconds := 604800
    budget_ge := by decide, segment_ge := by decide, segment_le := by decide
    retention_pos := by decide }

def smallEvent : Json.Value := .obj [([97], .int 1)]

/-- the first event is cut after three bytes -/
def tornDirectory : Directory := ⟨[], some ([123, 34, 97], 1), []⟩

theorem reach_tornDirectory : Reach defaultLimits 10 1 tornDirectory [] := by
  have hstart : Reach defaultLimits 10 0 ⟨[], none, []⟩ [] := .start 0
  have hwithin : Within defaultLimits ⟨1, 1, 1⟩ (line smallEvent) ⟨[], none, []⟩ :=
    ⟨fun s hs => (nomatch hs), by decide +kernel⟩
  have hdir : (append defaultLimits 10 ⟨1, 1, 1⟩ (.cut 3) smallEvent ⟨[], none, []⟩).directory
      = tornDirectory := by decide +kernel
  have hwritten : (append defaultLimits 10 ⟨1, 1, 1⟩ (.cut 3) smallEvent ⟨[], none, []⟩).written
      ≠ (line smallEvent).length := by decide +kernel
  have h := hstart.append ⟨1, 1, 1⟩ (.cut 3) smallEvent (fun _ => hwithin) (by decide) (Nat.le_refl 1)
  rwa [hdir, if_neg hwritten] at h

theorem torn_writes_cut :
    (append defaultLimits 10 ⟨2, 2, 2⟩ .done smallEvent tornDirectory).directory = tornDirectory ∧
      (recover 10 (fun i => i + 3) tornDirectory).2
        = ⟨[], some ([], 3), [⟨.current, 3, [123, 34, 97]⟩]⟩ := by
  obtain ⟨closed, last, torn, ⟨-, hcontent, hlog⟩, -, htail, happend, -, -⟩ :=
    torn_writes reach_tornDirectory
  have htorn : torn ≠ [] := htail.1 (by decide)
  exact ⟨(happend htorn ⟨2, 2, 2⟩ .done smallEvent fun s hs => (nomatch hs)).1, by decide +kernel⟩

/-- an event that cannot be encoded is refused as such, also over torn bytes -/
theorem torn_unencodable :
    ¬ ∀ (d : Directory) (log : List Json.Value) (t : Nat), Reach defaultLimits 10 t d log →
      incompleteTail d.content = true → ∀ (clock : Clock) (fate : Fate) (event : Json.Value),
      ∃ message, (append defaultLimits 10 clock fate event d).result
        = .error (.unavailable message) := by
  intro h
  obtain ⟨message, hm⟩ := h tornDirectory [] 1 reach_tornDirectory (by decide) ⟨2, 2, 2⟩ .done
    (.str [0xd800])
  have he : (append defaultLimits 10 ⟨2, 2, 2⟩ .done (.str [0xd800]) tornDirectory).result
      = .error .unencodable := rfl
  rw [he] at hm
  exact nomatch hm

end

end Netops.Audit
