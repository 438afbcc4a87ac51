import Netops.Fortios.Parse

/-!
# Writing FortiOS command lines

What the parser makes of a line that the program writes itself: bare words, and words in quotes with
`\` and `"` escaped.

* `escaped`, `quoted`      `_escaped` and the quotes around it;
* `Piece`, `lineOf`        a line as its pieces, one blank between two of them;
* `tokenize_lineOf`        its words are the values of the pieces;
* `Closed`                 a text that is one logical line: a newline stands inside of quotes only,
                           and no carriage return stands at the end of a physical line;
* `logicalLines_joinNewlines`   texts of this kind, one after the other, come back as they are.
-/

namespace Netops.Fortios

/-! ## words -/

/-- `t.replace(c, new)` for one character -/
def replaceChar (c : Char) (new t : Text) : Text := t.flatMap fun x => if x = c then new else [x]

/-- `_escaped` -/
def escaped (t : Text) : Text := replaceChar '"' ['\\', '"'] (replaceChar '\\' ['\\', '\\'] t)

@[simp] theorem escaped_nil : escaped [] = [] := rfl

/-- one pass over the text does what the two replacements do -/
theorem escaped_cons (c : Char) (t : Text) :
    escaped (c :: t) = (if c = '\\' ∨ c = '"' then ['\\', c] else [c]) ++ escaped t := by
  unfold escaped replaceChar
  rw [List.flatMap_cons, List.flatMap_append]
  congr 1
  by_cases h1 : c = '\\'
  · subst h1
    decide
  · by_cases h2 : c = '"'
    · subst h2
      decide
    · simp [h1, h2]

theorem escaped_append (s t : Text) : escaped (s ++ t) = escaped s ++ escaped t := by
  induction s with
  | nil => rfl
  | cons c s ih => rw [List.cons_append, escaped_cons, escaped_cons, ih, List.append_assoc]

/-- the text in quotes -/
def inQuotes (t : Text) : Text := '"' :: (escaped t ++ ['"'])

/-- a word as it is written -/
inductive Piece where
  | bare (word : Text)
  | quoted (value : Text)

def Piece.text : Piece → Text
  | .bare w => w
  | .quoted v => inQuotes v

def Piece.value : Piece → Text
  | .bare w => w
  | .quoted v => v

/-- a character that stands for itself outside of quotes and ends nothing -/
def isPlain (c : Char) : Bool := !isBlank c && c ≠ '"' && c ≠ '\n'

/-- a bare word is not empty, is not the sign of an empty value, and has plain characters only -/
def Piece.ok : Piece → Bool
  | .bare w => w ≠ [] && w ≠ ['\'', '\''] && w.all isPlain
  | .quoted _ => true

/-- the pieces with one blank between two of them -/
def lineOf (ps : List Piece) : Text := joinWords (ps.map Piece.text)

theorem isPlain_iff {c : Char} : isPlain c = true ↔ isBlank c = false ∧ c ≠ '"' ∧ c ≠ '\n' := by
  simp [isPlain, and_assoc]

/-- after the word at hand comes the end or a blank -/
def Ends (rest : Text) : Prop := rest = [] ∨ ∃ more, rest = ' ' :: more

theorem emptyValueAt_iff {t : Text} : emptyValueAt t = true ↔
    ∃ rest, t = '\'' :: '\'' :: rest ∧ ∀ c ∈ rest.head?, isBlank c = true := by
  unfold emptyValueAt
  split
  · rename_i rest
    cases rest <;> simp
  · rename_i h
    constructor
    · intro hf
      exact absurd hf (by simp)
    · rintro ⟨rest, rfl, -⟩
      exact absurd rfl (h rest)

/-- inside of quotes an escaped text is read as it was -/
theorem tokenizeFrom_escaped (v current rest : Text) :
    tokenizeFrom current true false true false (escaped v ++ '"' :: rest) =
      tokenizeFrom (current ++ v) false false true false rest := by
  induction v generalizing current with
  | nil =>
    rw [escaped_nil, List.nil_append, List.append_nil]
    simp [tokenizeFrom]
  | cons c v ih =>
    have hstep : tokenizeFrom current true false true false (escaped (c :: v) ++ '"' :: rest) =
        tokenizeFrom (current ++ [c]) true false true false (escaped v ++ '"' :: rest) := by
      rw [escaped_cons]
      by_cases h : c = '\\' ∨ c = '"'
      · rw [if_pos h]
        simp [tokenizeFrom]
      · rw [if_neg h]
        obtain ⟨h1, h2⟩ := not_or.mp h
        simp [tokenizeFrom, h1, h2]
    rw [hstep, ih, List.append_assoc, List.singleton_append]

/-- the characters of a bare word, the first of them behind -/
theorem tokenizeFrom_plain {w current rest : Text} (hc : current ≠ []) (hw : w.all isPlain = true) :
    tokenizeFrom current false false false false (w ++ rest) =
      tokenizeFrom (current ++ w) false false false false rest := by
  induction w generalizing current with
  | nil => rw [List.nil_append, List.append_nil]
  | cons c w ih =>
    obtain ⟨h1, h2⟩ := Bool.and_eq_true_iff.mp (List.all_cons.symm.trans hw)
    obtain ⟨hb, hq, -⟩ := isPlain_iff.mp h1
    have hstep : tokenizeFrom current false false false false (c :: w ++ rest) =
        tokenizeFrom (current ++ [c]) false false false false (w ++ rest) := by
      simp [tokenizeFrom, hc, hb, hq]
    rw [hstep, ih (by simp) h2, List.append_assoc, List.singleton_append]

/-- the word at hand ends here -/
theorem tokenizeFrom_ends {current rest : Text} {quoted : Bool} (hc : current ≠ [] ∨ quoted = true)
    (hr : Ends rest) : tokenizeFrom current false false quoted false rest =
      current :: tokenize (rest.drop 1) := by
  rcases hr with rfl | ⟨more, rfl⟩
  · simp [tokenizeFrom, tokenize, hc]
  · have hb : isBlank ' ' = true := by decide
    have he : emptyValueAt (' ' :: more) = false := by simp [emptyValueAt]
    simp [tokenizeFrom, tokenize, hc, hb, he]

theorem tokenize_piece {p : Piece} (hp : p.ok = true) {rest : Text} (hr : Ends rest) :
    tokenize (p.text ++ rest) = p.value :: tokenize (rest.drop 1) := by
  cases p with
  | quoted v =>
    have hopen : tokenize ((Piece.quoted v).text ++ rest) =
        tokenizeFrom [] true false true false (escaped v ++ '"' :: rest) := by
      have he : emptyValueAt ('"' :: (escaped v ++ ('"' :: rest))) = false := by simp [emptyValueAt]
      simp [tokenize, tokenizeFrom, Piece.text, inQuotes, he]
    rw [hopen, tokenizeFrom_escaped, List.nil_append]
    exact tokenizeFrom_ends (.inr rfl) hr
  | bare w =>
    simp only [Piece.ok, Bool.and_eq_true, decide_eq_true_eq, ne_eq] at hp
    obtain ⟨⟨hne, hnot⟩, hall⟩ := hp
    obtain ⟨c, w, rfl⟩ := List.exists_cons_of_ne_nil hne
    obtain ⟨hc, hw⟩ := Bool.and_eq_true_iff.mp (List.all_cons.symm.trans hall)
    obtain ⟨hb, hq, -⟩ := isPlain_iff.mp hc
    -- two apostrophes are followed by another character of the word
    have he : emptyValueAt (c :: (w ++ rest)) = false := by
      rw [Bool.eq_false_iff]
      intro h
      obtain ⟨more, htwo, hmore⟩ := emptyValueAt_iff.mp h
      obtain ⟨hc1, hone⟩ := List.cons_eq_cons.mp htwo
      cases w with
      | nil =>
        rcases hr with rfl | ⟨m, rfl⟩
        · exact nomatch hone
        · exact absurd (List.cons_eq_cons.mp hone).1 (by decide)
      | cons d w =>
        obtain ⟨hd1, hrest⟩ := List.cons_eq_cons.mp hone
        cases w with
        | nil => exact hnot (by rw [hc1, hd1])
        | cons e w =>
          have hee : isBlank e = true := hmore e (by rw [← hrest]; rfl)
          have hp : isPlain e = true := List.all_eq_true.mp hw e (by simp)
          rw [(isPlain_iff.mp hp).1] at hee
          exact nomatch hee
    have hstep : tokenize (Piece.text (.bare (c :: w)) ++ rest) =
        tokenizeFrom [c] false false false false (w ++ rest) := by
      simp [tokenize, tokenizeFrom, Piece.text, he, hb, hq]
    rw [hstep, tokenizeFrom_plain (by simp) hw]
    exact tokenizeFrom_ends (.inl (by simp)) hr

/-- **The words of a line are the values of its pieces.** -/
theorem tokenize_lineOf {ps : List Piece} (h : ∀ p ∈ ps, p.ok = true) :
    tokenize (lineOf ps) = ps.map Piece.value := by
  induction ps with
  | nil => rfl
  | cons p ps ih =>
    have hp := h p List.mem_cons_self
    have hps := ih fun q hq => h q (List.mem_cons_of_mem _ hq)
    cases ps with
    | nil =>
      have := tokenize_piece hp (.inl rfl)
      rwa [List.append_nil] at this
    | cons q ps =>
      have := tokenize_piece hp (.inr ⟨lineOf (q :: ps), rfl⟩)
      rw [List.drop_succ_cons, List.drop_zero, hps] at this
      exact this

/-! ## lines -/

/-- `"\n".join(ts)` -/
def joinNewlines : List Text → Text
  | [] => []
  | [t] => t
  | t :: ts => t ++ '\n' :: joinNewlines ts

/-- the quotes, and whether the last character is a carriage return -/
structure Scan where
  state : Bool × Bool
  ret : Bool
  deriving DecidableEq

/-- one character of a logical line; a newline stands inside of quotes, not after a carriage return -/
def Scan.next (s : Scan) (c : Char) : Option Scan :=
  if c = '\n' ∧ (s.state.1 = false ∨ s.ret = true) then none
  else some ⟨quoteState s.state [c], c = '\r'⟩

def scan : Scan → Text → Option Scan
  | s, [] => some s
  | s, c :: cs => (s.next c).bind fun s => scan s cs

/-- one logical line, which may span several physical ones -/
def Closed (t : Text) : Prop := ∃ e, scan ⟨(false, false), false⟩ t = some ⟨(false, e), false⟩

theorem scan_append (s : Scan) (t u : Text) :
    scan s (t ++ u) = (scan s t).bind fun s => scan s u := by
  induction t generalizing s with
  | nil => rfl
  | cons c t ih =>
    rw [List.cons_append, scan, scan, Option.bind_assoc]
    exact congrArg _ (funext fun s => ih s)

theorem quoteState_cons (s : Bool × Bool) (c : Char) (t : Text) :
    quoteState s (c :: t) = quoteState (quoteState s [c]) t := by
  obtain ⟨q, e⟩ := s
  simp only [quoteState]
  split_ifs <;> rfl

/-- the state of a text without a newline -/
theorem scan_line {l : Text} (hl : '\n' ∉ l) (s : Scan) :
    scan s l = some ⟨quoteState s.state l, if l = [] then s.ret else l.getLast? = some '\r'⟩ := by
  induction l generalizing s with
  | nil => rfl
  | cons c l ih =>
    obtain ⟨hc, hl⟩ := not_or.mp (mt List.mem_cons.mpr hl)
    have hstep : s.next c = some ⟨quoteState s.state [c], c = '\r'⟩ := by
      simp [Scan.next, Ne.symm hc]
    rw [scan, hstep, Option.bind_some, ih hl, ← quoteState_cons]
    cases l <;> simp [List.getLast?_cons]

/-- a newline stands inside of quotes, not after a carriage return -/
theorem scan_newline {s s' : Scan} {t : Text} (h : scan s ('\n' :: t) = some s') :
    s.state.1 = true ∧ s.ret = false ∧ scan ⟨quoteState s.state ['\n'], false⟩ t = some s' := by
  rw [scan, Scan.next] at h
  split_ifs at h with hn
  · exact nomatch h
  · simp only [true_and, not_or, Bool.not_eq_false, Bool.not_eq_true] at hn
    exact ⟨hn.1, hn.2, h⟩

/-- the last character decides -/
theorem scan_ret {s s' : Scan} {t : Text} (h : scan s t = some s') :
    s'.ret = if t = [] then s.ret else t.getLast? = some '\r' := by
  induction t generalizing s with
  | nil =>
    cases h
    rfl
  | cons c t ih =>
    obtain ⟨s1, h1, h⟩ := Option.bind_eq_some_iff.mp h
    have hret : s1.ret = decide (c = '\r') := by
      unfold Scan.next at h1
      split_ifs at h1
      cases h1
      rfl
    rw [ih h, hret]
    cases t <;> simp [List.getLast?_cons]

/-- the text keeps the quotes closed -/
def Quiet (t : Text) : Prop := ∀ r, ∃ r', scan ⟨(false, false), r⟩ t = some ⟨(false, false), r'⟩

theorem Quiet.append {t u : Text} (ht : Quiet t) (hu : Quiet u) : Quiet (t ++ u) := by
  intro r
  obtain ⟨r1, h1⟩ := ht r
  obtain ⟨r2, h2⟩ := hu r1
  exact ⟨r2, by rw [scan_append, h1, Option.bind_some, h2]⟩

theorem Quiet.bare {w : Text} (hw : ∀ c ∈ w, c ≠ '"' ∧ c ≠ '\n') : Quiet w := by
  induction w with
  | nil => exact fun r => ⟨r, rfl⟩
  | cons c w ih =>
    obtain ⟨hq, hn⟩ := hw c List.mem_cons_self
    intro r
    obtain ⟨r', h⟩ := ih (fun c hc => hw c (List.mem_cons_of_mem _ hc)) (c = '\r')
    refine ⟨r', ?_⟩
    have hstep : Scan.next ⟨(false, false), r⟩ c = some ⟨(false, false), c = '\r'⟩ := by
      simp [Scan.next, quoteState, hn, hq]
    rw [scan, hstep, Option.bind_some, h]

theorem Quiet.closed {t : Text} (h : Quiet t) (hlast : t.getLast? ≠ some '\r') : Closed t := by
  obtain ⟨r, h⟩ := h false
  refine ⟨false, ?_⟩
  have hr := scan_ret h
  dsimp only at hr
  rw [h, hr]
  split_ifs <;> simp [hlast]

/-- no carriage return stands right before a newline -/
def noReturn : Text → Bool
  | [] => true
  | c :: t => !(c = '\r' && t.head? = some '\n') && noReturn t

/-- an escaped text leaves the quotes open -/
theorem scan_escaped {v : Text} (hv : noReturn v = true) {r : Bool}
    (hr : r = true → v.head? ≠ some '\n') :
    scan ⟨(true, false), r⟩ (escaped v) =
      some ⟨(true, false), if v = [] then r else v.getLast? = some '\r'⟩ := by
  induction v generalizing r with
  | nil => rfl
  | cons c v ih =>
    simp only [noReturn, Bool.and_eq_true, Bool.not_eq_true', Bool.and_eq_false_iff,
      decide_eq_false_iff_not] at hv
    have hstep : scan ⟨(true, false), r⟩ (escaped (c :: v)) =
        scan ⟨(true, false), c = '\r'⟩ (escaped v) := by
      rw [escaped_cons]
      by_cases h : c = '\\' ∨ c = '"'
      · rw [if_pos h]
        rcases h with rfl | rfl <;> simp [scan, Scan.next, quoteState]
      · rw [if_neg h]
        obtain ⟨h1, h2⟩ := not_or.mp h
        have hn : ¬(c = '\n' ∧ r = true) := fun hn => hr hn.2 (by rw [hn.1]; rfl)
        simp [scan, Scan.next, quoteState, h1, h2, hn]
    rw [hstep, ih hv.2 fun he => hv.1.resolve_left fun hc => hc (of_decide_eq_true he)]
    cases v <;> simp [List.getLast?_cons]

theorem Quiet.inQuotes {v : Text} (hv : noReturn v = true) : Quiet (inQuotes v) := by
  intro r
  refine ⟨false, ?_⟩
  have hopen : Scan.next ⟨(false, false), r⟩ '"' = some ⟨(true, false), false⟩ := by
    simp [Scan.next, quoteState]
  rw [Fortios.inQuotes, scan, hopen, Option.bind_some, scan_append,
    scan_escaped hv (r := false) (fun h => nomatch h), Option.bind_some]
  simp [scan, Scan.next, quoteState]

/-- no carriage return of a quoted piece is lost -/
def Piece.keeps : Piece → Bool
  | .bare _ => true
  | .quoted v => noReturn v

theorem Quiet.piece {p : Piece} (h1 : p.ok = true) (h2 : p.keeps = true) : Quiet p.text := by
  cases p with
  | bare w =>
    refine Quiet.bare fun c hc => ?_
    have hall : w.all isPlain = true := (Bool.and_eq_true_iff.mp h1).2
    exact (isPlain_iff.mp (List.all_eq_true.mp hall c hc)).2
  | quoted v => exact Quiet.inQuotes h2

theorem Quiet.lineOf {l : List Piece} (h1 : ∀ p ∈ l, p.ok = true) (h2 : ∀ p ∈ l, p.keeps = true) :
    Quiet (lineOf l) := by
  induction l with
  | nil => exact Quiet.bare fun c hc => nomatch hc
  | cons p l ih =>
    have hp := Quiet.piece (h1 p List.mem_cons_self) (h2 p List.mem_cons_self)
    cases l with
    | nil => exact hp
    | cons q l =>
      have hrest := ih (fun q hq => h1 q (List.mem_cons_of_mem _ hq))
        (fun q hq => h2 q (List.mem_cons_of_mem _ hq))
      have hblank : Quiet [' '] := Quiet.bare (by simp)
      exact hp.append (hblank.append hrest)

/-! ### the physical lines of a text -/

theorem splitLines_ne_nil (t : Text) : splitLines t ≠ [] := by
  cases t with
  | nil => exact List.cons_ne_nil _ _
  | cons c t =>
    rw [splitLines]
    split
    · exact List.cons_ne_nil _ _
    · split <;> exact List.cons_ne_nil _ _

theorem splitLines_append (t u : Text) :
    splitLines (t ++ '\n' :: u) = splitLines t ++ splitLines u := by
  induction t with
  | nil => simp [splitLines]
  | cons c t ih =>
    rw [List.cons_append, splitLines, splitLines]
    split_ifs with hc
    · rw [ih, List.cons_append]
    · obtain ⟨l, ls, hl⟩ := List.exists_cons_of_ne_nil (splitLines_ne_nil t)
      rw [ih, hl]
      rfl

theorem joinNewlines_splitLines (t : Text) : joinNewlines (splitLines t) = t := by
  induction t with
  | nil => rfl
  | cons c t ih =>
    obtain ⟨l, ls, hl⟩ := List.exists_cons_of_ne_nil (splitLines_ne_nil t)
    rw [hl] at ih
    rw [splitLines, hl]
    split_ifs with hc
    · subst hc
      rw [joinNewlines, ih, List.nil_append]
      exact List.cons_ne_nil _ _
    · rw [← ih]
      cases ls <;> rfl

theorem splitLines_no_newline (t : Text) : ∀ l ∈ splitLines t, '\n' ∉ l := by
  induction t with
  | nil => simp [splitLines]
  | cons c t ih =>
    obtain ⟨l, ls, hl⟩ := List.exists_cons_of_ne_nil (splitLines_ne_nil t)
    rw [hl] at ih
    rw [splitLines, hl]
    split_ifs with hc
    · simpa using ih
    · have hc' : ¬ '\n' = c := fun h => hc h.symm
      simpa [hc'] using ih

theorem physicalLines_append (t u : Text) :
    physicalLines (t ++ '\n' :: u) = (splitLines t).map dropReturn ++ physicalLines u := by
  unfold physicalLines
  dsimp only
  have hu := splitLines_ne_nil u
  rw [splitLines_append, List.getLast?_append_of_ne_nil _ hu, List.dropLast_append_of_ne_nil hu,
    ← List.map_append]
  split <;> rfl

/-! ### the logical lines of a text -/

theorem dropReturn_eq {l : Text}
    (h : (if l = [] then false else decide (l.getLast? = some '\r')) = false) :
    dropReturn l = l := by
  refine if_neg ?_
  split_ifs at h with hnil
  · rw [hnil]
    exact fun h => nomatch h
  · exact of_decide_eq_false h

theorem joinNewlines_cons {t : Text} {ts : List Text} (h : ts ≠ []) :
    joinNewlines (t :: ts) = t ++ '\n' :: joinNewlines ts := by
  cases ts with
  | nil => exact absurd rfl h
  | cons u ts => rfl

/-- the lines `ls` go on with a value whose quotes are open and close it -/
theorem joinLines_pending {ls : List Text} (hne : ls ≠ []) (hls : ∀ l ∈ ls, '\n' ∉ l) {p : Pending}
    {e : Bool} (h : scan ⟨p.state, false⟩ ('\n' :: joinNewlines ls) = some ⟨(false, e), false⟩)
    (number : Nat) (rest : List Text) :
    joinLines number (some p) (ls.map dropReturn ++ rest) =
      ((p.start, p.text ++ '\n' :: joinNewlines ls) :: (joinLines (number + ls.length) none rest).1,
        (joinLines (number + ls.length) none rest).2) := by
  induction ls generalizing p number with
  | nil => exact absurd rfl hne
  | cons l ls ih =>
    obtain ⟨-, -, h⟩ := scan_newline h
    have hl := hls l List.mem_cons_self
    by_cases hs : ls = []
    · subst hs
      rw [joinNewlines, scan_line hl, ← quoteState_cons] at h
      obtain ⟨hstate, hret⟩ := Scan.mk.inj (Option.some.inj h)
      rw [List.map_singleton, dropReturn_eq hret, List.singleton_append, joinLines]
      simp [hstate, joinNewlines]
    · rw [joinNewlines_cons hs, scan_append, scan_line hl, ← quoteState_cons, Option.bind_some] at h
      obtain ⟨hopen, hret, -⟩ := scan_newline h
      dsimp only at hopen hret
      have hgo := ih hs (fun l hl => hls l (List.mem_cons_of_mem _ hl))
        (p := ⟨p.start, p.text ++ '\n' :: l, quoteState p.state ('\n' :: l)⟩)
      rw [hret] at h
      rw [List.map_cons, dropReturn_eq hret, List.cons_append, joinLines]
      simp only [hopen, if_true]
      rw [hgo h, joinNewlines_cons hs, List.length_cons, Nat.add_right_comm, Nat.add_assoc]
      simp

theorem joinLines_closed {b : Text} (h : Closed b) (number : Nat) (rest : List Text) :
    joinLines number none ((splitLines b).map dropReturn ++ rest) =
      ((number, b) :: (joinLines (number + (splitLines b).length) none rest).1,
        (joinLines (number + (splitLines b).length) none rest).2) := by
  obtain ⟨e, h⟩ := h
  obtain ⟨l, ls, hsplit⟩ := List.exists_cons_of_ne_nil (splitLines_ne_nil b)
  have hjoin := joinNewlines_splitLines b
  have hlines := splitLines_no_newline b
  rw [hsplit] at hjoin hlines
  have hl := hlines l List.mem_cons_self
  rw [hsplit]
  by_cases hs : ls = []
  · subst hs
    rw [joinNewlines] at hjoin
    subst hjoin
    rw [scan_line hl] at h
    obtain ⟨hstate, hret⟩ := Scan.mk.inj (Option.some.inj h)
    rw [List.map_singleton, dropReturn_eq hret, List.singleton_append, joinLines]
    simp [hstate]
  · rw [joinNewlines_cons hs] at hjoin
    rw [← hjoin, scan_append, scan_line hl, Option.bind_some] at h
    obtain ⟨hopen, hret, -⟩ := scan_newline h
    dsimp only at hopen hret
    rw [hret] at h
    rw [List.map_cons, dropReturn_eq hret, List.cons_append, joinLines]
    simp only [hopen, if_true]
    rw [joinLines_pending (p := ⟨number, l, quoteState (false, false) l⟩) hs
      (fun l hl => hlines l (List.mem_cons_of_mem _ hl)) h, ← hjoin, List.length_cons,
      Nat.add_assoc, Nat.add_comm 1]

/-- the physical lines of texts that stand one after the other -/
def blockLines (bs : List Text) : List Text := bs.flatMap fun b => (splitLines b).map dropReturn

theorem joinLines_blocks {bs : List Text} (h : ∀ b ∈ bs, Closed b) (number : Nat) :
    (joinLines number none (blockLines bs)).1.map Prod.snd = bs ∧
      (joinLines number none (blockLines bs)).2 = none := by
  induction bs generalizing number with
  | nil => exact ⟨rfl, rfl⟩
  | cons b bs ih =>
    rw [blockLines, List.flatMap_cons, joinLines_closed (h b List.mem_cons_self)]
    obtain ⟨h1, h2⟩ := ih (fun b hb => h b (List.mem_cons_of_mem _ hb))
      (number + (splitLines b).length)
    exact ⟨congrArg (b :: ·) h1, h2⟩

theorem physicalLines_joinNewlines (bs : List Text) (hne : bs ≠ []) :
    physicalLines (joinNewlines bs ++ ['\n']) = blockLines bs := by
  induction bs with
  | nil => exact absurd rfl hne
  | cons b bs ih =>
    by_cases hs : bs = []
    · subst hs
      rw [joinNewlines, physicalLines_append]
      rfl
    · rw [joinNewlines_cons hs, List.append_assoc, List.cons_append, physicalLines_append, ih hs]
      rfl

/-- at the end of a text that is one logical line there is no newline -/
theorem Closed.physicalLines {b : Text} (h : Closed b) (hb : b ≠ []) :
    physicalLines b = (splitLines b).map dropReturn := by
  unfold Fortios.physicalLines
  dsimp only
  rw [if_neg]
  intro hlast
  obtain ⟨ls, hsplit⟩ := List.getLast?_eq_some_iff.mp hlast
  have hjoin := joinNewlines_splitLines b
  rw [hsplit] at hjoin
  by_cases hs : ls = []
  · rw [hs] at hjoin
    exact hb hjoin.symm
  · have hend : ∀ ls : List Text, ls ≠ [] → ∃ t, joinNewlines (ls ++ [[]]) = t ++ ['\n'] := by
      intro ls
      induction ls with
      | nil => exact fun h => absurd rfl h
      | cons l ls ih =>
        intro _
        by_cases hn : ls = []
        · exact ⟨l, by rw [hn]; rfl⟩
        · obtain ⟨t, ht⟩ := ih hn
          refine ⟨l ++ '\n' :: t, ?_⟩
          rw [List.cons_append, joinNewlines_cons (by simp), ht]
          simp
    obtain ⟨t, ht⟩ := hend ls hs
    obtain ⟨e, hscan⟩ := h
    rw [← hjoin, ht, scan_append] at hscan
    obtain ⟨s, -, hs⟩ := Option.bind_eq_some_iff.mp hscan
    obtain ⟨hopen, -, hend⟩ := scan_newline hs
    have hq : quoteState s.state ['\n'] = (false, e) :=
      (Scan.mk.inj (Option.some.inj hend)).1
    obtain ⟨⟨q, x⟩, r⟩ := s
    dsimp only at hopen
    subst hopen
    cases x <;> simp [quoteState] at hq

/-- **Texts that are one logical line each come back as they are.** -/
theorem logicalLines_joinNewlines {bs : List Text} (h : ∀ b ∈ bs, Closed b)
    (hend : ∀ b ∈ bs.getLast?, b ≠ []) :
    (logicalLines (joinNewlines bs)).1.map Prod.snd = bs ∧
      (logicalLines (joinNewlines bs)).2 = none := by
  have hlines : physicalLines (joinNewlines bs) = blockLines bs := by
    induction bs with
    | nil => rfl
    | cons b bs ih =>
      by_cases hs : bs = []
      · subst hs
        rw [joinNewlines, (h b List.mem_cons_self).physicalLines (hend b rfl)]
        simp [blockLines]
      · rw [joinNewlines_cons hs, physicalLines_append,
          ih (fun b hb => h b (List.mem_cons_of_mem _ hb))]
        · rfl
        · intro b hb
          exact hend b (by rw [List.getLast?_cons_of_ne_nil hs]; exact hb)
  rw [logicalLines, hlines]
  exact joinLines_blocks h 1

/-- the same with a newline at the end -/
theorem logicalLines_newline {bs : List Text} (h : ∀ b ∈ bs, Closed b) (hne : bs ≠ []) :
    (logicalLines (joinNewlines bs ++ ['\n'])).1.map Prod.snd = bs ∧
      (logicalLines (joinNewlines bs ++ ['\n'])).2 = none := by
  rw [logicalLines, physicalLines_joinNewlines bs hne]
  exact joinLines_blocks h 1

/-! ## what the parser reads -/

theorem strip_around {i b j : Text} (hi : ∀ c ∈ i, isSpace c = true) (hj : ∀ c ∈ j, isSpace c = true)
    (hne : b ≠ []) (hhead : ∀ c ∈ b.head?, isSpace c = false)
    (hlast : ∀ c ∈ b.getLast?, isSpace c = false) : strip (i ++ (b ++ j)) = b := by
  have hdrop : ∀ {t u : Text}, t ≠ [] → (∀ c ∈ t.head?, isSpace c = false) →
      (t ++ u).dropWhile isSpace = t ++ u := by
    intro t u hne ht
    obtain ⟨c, t, rfl⟩ := List.exists_cons_of_ne_nil hne
    rw [List.cons_append, List.dropWhile_cons_of_neg (by rw [ht c rfl]; exact Bool.false_ne_true)]
  have hrev : ∀ c ∈ j.reverse, isSpace c = true := fun c hc => hj c (List.mem_reverse.mp hc)
  have hback := hdrop (u := []) (List.reverse_ne_nil_iff.mpr hne)
    (by rw [List.head?_reverse]; exact hlast)
  rw [List.append_nil] at hback
  rw [strip, List.dropWhile_append_of_pos hi, hdrop hne hhead, List.reverse_append,
    List.dropWhile_append_of_pos hrev, hback, List.reverse_reverse]

theorem strip_indent {i b : Text} (hi : ∀ c ∈ i, isSpace c = true) (hne : b ≠ [])
    (hhead : ∀ c ∈ b.head?, isSpace c = false) (hlast : ∀ c ∈ b.getLast?, isSpace c = false) :
    strip (i ++ b) = b := by
  have h := strip_around (j := []) hi (fun c hc => nomatch hc) hne hhead hlast
  rwa [List.append_nil] at h

/-- the line is not skipped and has these words -/
structure Says (raw : Text) (words : List Text) : Prop where
  ne : strip raw ≠ []
  noComment : (strip raw).head? ≠ some '#'
  words : tokenize (strip raw) = words

theorem joinWords_cons {w : Text} {ws : List Text} (h : ws ≠ []) :
    joinWords (w :: ws) = w ++ ' ' :: joinWords ws := by
  cases ws with
  | nil => exact absurd rfl h
  | cons v ws => rfl

theorem getLast?_joinWords {ws : List Text} {w : Text} (hw : w ≠ []) :
    (joinWords (ws ++ [w])).getLast? = w.getLast? := by
  induction ws with
  | nil => rfl
  | cons v ws ih =>
    have hne : joinWords (ws ++ [w]) ≠ [] := by
      intro h
      rw [h] at ih
      exact hw (List.getLast?_eq_none_iff.mp ih.symm)
    rw [List.cons_append, joinWords_cons (by simp), List.getLast?_append_of_ne_nil _ (by simp),
      List.getLast?_cons_of_ne_nil hne, ih]

theorem Piece.text_ne_nil {p : Piece} (h : p.ok = true) : p.text ≠ [] := by
  cases p with
  | bare w =>
    simp only [Piece.ok, Bool.and_eq_true, decide_eq_true_eq] at h
    exact h.1.1
  | quoted v => exact List.cons_ne_nil _ _

/-- the end of the last piece is the end of the line -/
theorem getLast?_lineOf {l : List Piece} {p : Piece} (hp : p.ok = true) :
    (lineOf (l ++ [p])).getLast? = p.text.getLast? := by
  rw [lineOf, List.map_append, List.map_singleton]
  exact getLast?_joinWords (Piece.text_ne_nil hp)

/-- an indented line of pieces that starts with a command -/
theorem Says.line {i : Text} {c : Char} {w : Text} {l : List Piece} (hi : ∀ c ∈ i, isSpace c = true)
    (hok : ∀ p ∈ Piece.bare (c :: w) :: l, p.ok = true) (hc : isSpace c = false) (hn : c ≠ '#')
    (hlast : ∀ d ∈ (lineOf (.bare (c :: w) :: l)).getLast?, isSpace d = false) :
    Says (i ++ lineOf (.bare (c :: w) :: l)) ((c :: w) :: l.map Piece.value) := by
  have hhead : (lineOf (.bare (c :: w) :: l)).head? = some c := by
    cases l <;> rfl
  have hne : lineOf (.bare (c :: w) :: l) ≠ [] := by
    intro h
    rw [h] at hhead
    exact nomatch hhead
  have hstrip : strip (i ++ lineOf (.bare (c :: w) :: l)) = lineOf (.bare (c :: w) :: l) := by
    refine strip_indent hi hne ?_ hlast
    rw [hhead]
    intro d hd
    cases hd
    exact hc
  refine ⟨?_, ?_, ?_⟩
  · rw [hstrip]
    exact hne
  · rw [hstrip, hhead]
    exact fun h => hn (Option.some.inj h)
  · rw [hstrip, tokenize_lineOf hok]
    rfl

section
variable {s : Stack} {number : Nat} {raw : Text} {words : List Text}

theorem parseLine_config (h : Says raw ("config".toList :: words)) (hd : s.above.length < maxDepth) :
    parseLine s number raw = .ok (s.open .config (joinWords words) (.empty number words)) := by
  have hne : ¬(strip raw = [] ∨ (strip raw).head? = some '#') := not_or.mpr ⟨h.ne, h.noComment⟩
  have hdeep : ¬(("config".toList = "config".toList ∨ "config".toList = "edit".toList) ∧
      s.above.length + 1 > maxDepth) := fun hd' => absurd hd'.2 (by omega)
  unfold parseLine
  dsimp only
  rw [if_neg hne, h.words]
  dsimp only
  rw [if_neg hdeep, if_pos rfl]

theorem parseLine_edit (h : Says raw ("edit".toList :: words)) (hd : s.above.length < maxDepth) :
    parseLine s number raw = .ok (s.open .edit (words.headD []) (.empty number [])) := by
  have hne : ¬(strip raw = [] ∨ (strip raw).head? = some '#') := not_or.mpr ⟨h.ne, h.noComment⟩
  have hdeep : ¬(("edit".toList = "config".toList ∨ "edit".toList = "edit".toList) ∧
      s.above.length + 1 > maxDepth) := fun hd' => absurd hd'.2 (by omega)
  unfold parseLine
  dsimp only
  rw [if_neg hne, h.words]
  dsimp only
  rw [if_neg hdeep, if_neg (by decide), if_pos rfl]

theorem parseLine_set {name : Text} (h : Says raw ("set".toList :: name :: words)) :
    parseLine s number raw = .ok { s with node := s.node.setAttr name ⟨words, number, false⟩ } := by
  have hne : ¬(strip raw = [] ∨ (strip raw).head? = some '#') := not_or.mpr ⟨h.ne, h.noComment⟩
  unfold parseLine
  dsimp only
  rw [if_neg hne, h.words]
  rfl

theorem parseLine_unset {name : Text} (h : Says raw ["unset".toList, name]) :
    parseLine s number raw = .ok { s with node := s.node.setAttr name ⟨[], number, true⟩ } := by
  have hne : ¬(strip raw = [] ∨ (strip raw).head? = some '#') := not_or.mpr ⟨h.ne, h.noComment⟩
  unfold parseLine
  dsimp only
  rw [if_neg hne, h.words]
  rfl

theorem parseLine_next (h : Says raw ["next".toList]) (hs : s.above ≠ []) :
    parseLine s number raw = .ok s.close := by
  have hne : ¬(strip raw = [] ∨ (strip raw).head? = some '#') := not_or.mpr ⟨h.ne, h.noComment⟩
  unfold parseLine
  dsimp only
  rw [if_neg hne, h.words]
  dsimp only
  rw [if_neg (fun h => absurd h.1 (by decide)), if_neg (by decide), if_neg (by decide),
    if_neg (by decide), if_pos (by decide), if_neg hs, if_neg (fun h => absurd h.1 (by decide))]

theorem parseLine_end (h : Says raw ["end".toList]) (hs : s.above ≠ []) (hv : s.inVdom = false) :
    parseLine s number raw = .ok s.close := by
  have hne : ¬(strip raw = [] ∨ (strip raw).head? = some '#') := not_or.mpr ⟨h.ne, h.noComment⟩
  unfold parseLine
  dsimp only
  rw [if_neg hne, h.words]
  dsimp only
  rw [if_neg (fun h => absurd h.1 (by decide)), if_neg (by decide), if_neg (by decide),
    if_neg (by decide), if_pos (by decide), if_neg hs, if_neg (by rw [hv]; exact fun h => nomatch h.2)]

end

theorem parseLines_append (s : Stack) (l m : List (Nat × Text)) :
    parseLines s (l ++ m) = (parseLines s l).bind fun s => parseLines s m := by
  induction l generalizing s with
  | nil => rfl
  | cons x l ih =>
    obtain ⟨number, raw⟩ := x
    rw [List.cons_append, parseLines, parseLines]
    cases parseLine s number raw with
    | error e => rfl
    | ok s => exact ih s

end Netops.Fortios
