import Netops.Configuration.Policy

/-!
# The filtered view of a configuration

`filtered_content` of `configuration.py` and the `Content` and `ContentBuilder` of `config_buffers.py`.

* `Content`, `Content.lines`     content in chunks, and its lines with their newlines;
* `Builder.add`, `build`         how content comes to be: in pieces, with a limit, and withheld where a
                                 marker occurs;
* `Stored`                       a content that a builder has made;
* `filteredContent`              the loop over the lines with its two running indices;
* `near`, `grep`                 what the view is for: the lines near a line with the needle;
* `filteredContent_eq_grep`      the loop shows these lines and no others.
-/

namespace Netops.Filter

open Configuration (occurs)

abbrev Bytes := List UInt8

/-! ## content -/

/-- the length of a chunk (`CHUNK`) -/
def chunkLength : Nat := 65536

/-- `data.split(b"\n")` -/
def splitNewlines : Bytes → List Bytes
  | [] => [[]]
  | c :: cs =>
    if c = 10 then [] :: splitNewlines cs
    else match splitNewlines cs with
      | [] => [[c]]
      | l :: ls => (c :: l) :: ls

structure Content where
  chunks : List Bytes
  total : Nat

def linesFrom (pending : Bytes) : List Bytes → List Bytes
  | [] => if pending = [] then [] else [pending]
  | chunk :: rest =>
    let parts := splitNewlines (pending ++ chunk)
    parts.dropLast.map (· ++ [10]) ++ linesFrom (parts.getLastD []) rest

/-- `Content.lines` -/
def Content.lines (c : Content) : List Bytes := linesFrom [] c.chunks

def Content.data (c : Content) : Bytes := c.chunks.flatten

/-- why nothing is shown -/
inductive Failure where
  /-- invalid configuration filter -/
  | filter
  /-- redacted configuration exceeds safety cap -/
  | limit
  /-- redaction could not be verified; output withheld -/
  | unverifiable
  /-- configuration memory budget exhausted; output withheld -/
  | budget
  deriving DecidableEq, Repr

/-- `ContentBuilder`; the digest is left out -/
structure Builder where
  total : Nat
  buffer : Bytes
  chunks : List Bytes
  tail : Bytes

def Builder.empty : Builder := ⟨0, [], [], []⟩

/-- whole chunks are taken from the front of the buffer -/
def cutChunks (buffer : Bytes) : List Bytes × Bytes :=
  if chunkLength ≤ buffer.length then
    let (chunks, rest) := cutChunks (buffer.drop chunkLength)
    (buffer.take chunkLength :: chunks, rest)
  else ([], buffer)
termination_by buffer.length
decreasing_by
  rw [List.length_drop]
  have : 0 < chunkLength := by decide
  omega

/-- one less than the length of the longest marker -/
def overlap (markers : List Bytes) : Nat := (markers.map List.length).foldr max 0 - 1

section
variable (maximum : Nat) (markers : List Bytes)

/-- `ContentBuilder.add` -/
def Builder.add (data : Bytes) (b : Builder) : Except Failure Builder :=
  if b.total + data.length > maximum then .error .limit
  else
    let combined := b.tail ++ data
    if markers.any fun m => occurs m combined then .error .unverifiable
    else
      let (chunks, buffer) := cutChunks (b.buffer ++ data)
      .ok ⟨b.total + data.length, buffer, b.chunks ++ chunks,
        combined.drop (combined.length - overlap markers)⟩

/-- piece by piece -/
def Builder.addAll : List Bytes → Builder → Except Failure Builder
  | [], b => .ok b
  | data :: rest, b =>
    match b.add maximum markers data with
    | .ok b => b.addAll rest
    | .error e => .error e

end

/-- `ContentBuilder.finish` -/
def Builder.finish (b : Builder) : Content :=
  ⟨b.chunks ++ (if b.buffer = [] then [] else [b.buffer]), b.total⟩

/-- `_BYTE_BUDGET` -/
def byteBudget : Nat := 512 * 1024 * 1024

def bytesOf (s : String) : Bytes := s.toList.map fun c => UInt8.ofNat c.toNat

/-- what must not stand in the content of the small profile -/
def serializedMarkers (serialized : Bool) : List Bytes :=
  if serialized then [bytesOf "-----BEGIN", bytesOf "ENC ", bytesOf "$6$", bytesOf "$9$"] else []

/-- a content as the redaction leaves it: made by a builder that refuses the markers of its profile,
and secrets besides -/
structure Stored (serialized : Bool) where
  content : Content
  maximum : Nat
  forbidden : List Bytes
  pieces : List Bytes
  built : Builder
  small : maximum ≤ byteBudget
  nonempty : ∀ m ∈ forbidden, m ≠ []
  made : Builder.empty.addAll maximum (forbidden ++ serializedMarkers serialized) pieces = .ok built
  finished : built.finish = content

/-! ## the view -/

/-- `filter_arguments` -/
def filterArguments (contains : Option (List Char)) (context : Int) : Bool :=
  (match contains with
    | none => context = 0
    | some needle => 1 ≤ needle.length && needle.length ≤ 64 &&
        needle.all fun c => 32 ≤ c.toNat && c.toNat ≤ 126) &&
    (0 ≤ context && context ≤ 10)

/-- what `_budget` says of the memory at hand: whether it is asked after this line and refuses -/
structure Budget where
  refusesAfter : Nat → Bool
  refusesAtEnd : Bool

structure View where
  /-- the last lines, as many as `context` -/
  before : List (Bytes × Nat)
  out : Builder
  total : Nat
  matched : Nat
  lastWritten : Int
  through : Int

def View.start : View := ⟨[], .empty, 0, 0, -1, -1⟩

/-- `deque.append` with `maxlen` -/
def remember (maxlen : Nat) (before : List (Bytes × Nat)) (x : Bytes × Nat) : List (Bytes × Nat) :=
  (before ++ [x]).drop ((before ++ [x]).length - maxlen)

section
variable (serialized : Bool) (budget : Budget) (needle : Bytes) (context : Nat)

/-- the lines before a match that are not written yet -/
def catchUp : List (Bytes × Nat) → Builder → Int → Except Failure (Builder × Int)
  | [], out, last => .ok (out, last)
  | (line, index) :: rest, out, last =>
    if last < index then
      match out.add byteBudget (serializedMarkers serialized) line with
      | .ok out => catchUp rest out index
      | .error e => .error e
    else catchUp rest out last

/-- one line of the loop -/
def viewLine (v : View) (x : Bytes × Nat) : Except Failure View :=
  let (line, index) := x
  let hit := occurs needle line
  let caught :=
    if hit then catchUp serialized v.before v.out v.lastWritten else .ok (v.out, v.lastWritten)
  match caught with
  | .error e => .error e
  | .ok (out, last) =>
    let through : Int := if hit then index + context else v.through
    let written : Except Failure (Builder × Int) :=
      if index ≤ through ∧ last < index then
        match out.add byteBudget (serializedMarkers serialized) line with
        | .ok out => .ok (out, (index : Int))
        | .error e => .error e
      else .ok (out, last)
    match written with
    | .error e => .error e
    | .ok (out, last) =>
      if budget.refusesAfter index then .error .budget
      else .ok ⟨remember context v.before x, out, v.total + 1,
        v.matched + (if hit then 1 else 0), last, through⟩

def viewLines : List (Bytes × Nat) → View → Except Failure View
  | [], v => .ok v
  | x :: rest, v =>
    match viewLine serialized budget needle context v x with
    | .ok v => viewLines rest v
    | .error e => .error e

end

/-- `filtered_content`: the content, the number of lines and the number of lines with the needle -/
def filteredContent (budget : Budget) (text : Content) (contains : Option (List Char)) (context : Int)
    (serialized : Bool) : Except Failure (Content × Nat × Option Nat) :=
  if !filterArguments contains context then .error .filter
  else match contains with
    | none => .ok (text, 0, none)
    | some needle =>
      let needle := needle.map fun c => UInt8.ofNat c.toNat
      match viewLines serialized budget needle context.toNat text.lines.zipIdx .start with
      | .error e => .error e
      | .ok v =>
        if budget.refusesAtEnd then .error .budget
        else .ok (v.out.finish, v.total, some v.matched)

/-! ## what the view is for -/

/-- a line with the needle is at most `context` lines away -/
def near (hit : Bytes → Bool) (context : Nat) (ls : List Bytes) (i : Nat) : Bool :=
  ls.zipIdx.any fun x => hit x.1 && (x.2 ≤ i + context && i ≤ x.2 + context)

/-- the lines near a line with the needle, in order -/
def grep (hit : Bytes → Bool) (context : Nat) (ls : List Bytes) : List Bytes :=
  (ls.zipIdx.filter fun x => near hit context ls x.2).map Prod.fst

/-! ## lines -/

/-- a newline stands at the end of a line only -/
def IsLine (l : Bytes) : Prop := l ≠ [] ∧ 10 ∉ l.dropLast

/-- every line but the last one ends in a newline -/
def Lined : List Bytes → Prop
  | [] => True
  | [_] => True
  | l :: m :: ls => (∃ a, l = a ++ [10]) ∧ Lined (m :: ls)

theorem Lined.tail {l : Bytes} {ls : List Bytes} (h : Lined (l :: ls)) : Lined ls := by
  cases ls with
  | nil => exact trivial
  | cons m ls => exact h.2

theorem Lined.sublist {ws ls : List Bytes} (h : Lined ls) (hs : ws.Sublist ls) : Lined ws := by
  induction hs with
  | slnil => exact trivial
  | cons l _ ih => exact ih h.tail
  | cons_cons l hsub ih =>
    rename_i ws ls
    cases ws with
    | nil => exact trivial
    | cons w ws =>
      cases ls with
      | nil => exact nomatch hsub
      | cons m ls => exact ⟨h.1, ih h.2⟩

/-- the lines of some data -/
def linesOf (data : Bytes) : List Bytes := linesFrom [] [data]

theorem splitNewlines_ne_nil (t : Bytes) : splitNewlines t ≠ [] := by
  cases t with
  | nil => exact List.cons_ne_nil _ _
  | cons c t =>
    rw [splitNewlines]
    split
    · exact List.cons_ne_nil _ _
    · split <;> exact List.cons_ne_nil _ _

theorem splitNewlines_append (t u : Bytes) :
    splitNewlines (t ++ 10 :: u) = splitNewlines t ++ splitNewlines u := by
  induction t with
  | nil => simp [splitNewlines]
  | cons c t ih =>
    rw [List.cons_append, splitNewlines, splitNewlines]
    split_ifs with hc
    · rw [ih, List.cons_append]
    · obtain ⟨l, ls, hl⟩ := List.exists_cons_of_ne_nil (splitNewlines_ne_nil t)
      rw [ih, hl]
      rfl

theorem splitNewlines_single {t : Bytes} (h : 10 ∉ t) : splitNewlines t = [t] := by
  induction t with
  | nil => rfl
  | cons c t ih =>
    obtain ⟨hc, ht⟩ := not_or.mp (mt List.mem_cons.mpr h)
    rw [splitNewlines, if_neg (fun e => hc e.symm), ih ht]

theorem linesOf_nil : linesOf [] = [] := by decide

theorem linesOf_single {t : Bytes} (h : 10 ∉ t) (hne : t ≠ []) : linesOf t = [t] := by
  unfold linesOf linesFrom
  dsimp only
  rw [List.nil_append, splitNewlines_single h]
  simp [linesFrom, hne]

/-- the first line is taken off -/
theorem linesOf_cons {a rest : Bytes} (h : 10 ∉ a) :
    linesOf (a ++ 10 :: rest) = (a ++ [10]) :: linesOf rest := by
  have hne := splitNewlines_ne_nil rest
  unfold linesOf linesFrom
  dsimp only
  rw [List.nil_append, List.nil_append, splitNewlines_append, splitNewlines_single h,
    List.singleton_append]
  obtain ⟨l, ls, hl⟩ := List.exists_cons_of_ne_nil hne
  rw [hl]
  rfl

/-- how a line begins that has a newline, and what comes after it -/
theorem split_at_newline {t : Bytes} (h : 10 ∈ t) : ∃ a rest, t = a ++ 10 :: rest ∧ 10 ∉ a := by
  induction t with
  | nil => exact nomatch h
  | cons c t ih =>
    by_cases hc : c = 10
    · exact ⟨[], t, by rw [hc]; rfl, List.not_mem_nil⟩
    · have ht : 10 ∈ t := (List.mem_cons.mp h).resolve_left fun e => hc e.symm
      obtain ⟨a, rest, rfl, ha⟩ := ih ht
      refine ⟨c :: a, rest, rfl, ?_⟩
      rw [List.mem_cons]
      rintro (e | e)
      · exact hc e.symm
      · exact ha e

/-- what `linesOf` gives back -/
structure Splits (data : Bytes) (ls : List Bytes) : Prop where
  flatten : ls.flatten = data
  lines : ∀ l ∈ ls, IsLine l
  lined : Lined ls

theorem splits_linesOf (data : Bytes) : Splits data (linesOf data) := by
  induction h : data.length using Nat.strong_induction_on generalizing data with
  | _ n ih =>
    by_cases hin : 10 ∈ data
    · obtain ⟨a, rest, rfl, ha⟩ := split_at_newline hin
      have hrest := ih rest.length (by rw [← h]; simp; omega) rest rfl
      rw [linesOf_cons ha]
      refine ⟨?_, ?_, ?_⟩
      · rw [List.flatten_cons, hrest.flatten, List.append_assoc, List.singleton_append]
      · intro l hl
        rcases List.mem_cons.mp hl with rfl | hl
        · exact ⟨by simp, by rwa [List.dropLast_concat]⟩
        · exact hrest.lines l hl
      · cases hls : linesOf rest with
        | nil => exact trivial
        | cons m ls => exact ⟨⟨a, rfl⟩, hls ▸ hrest.lined⟩
    · by_cases hne : data = []
      · subst hne
        rw [linesOf_nil]
        exact ⟨rfl, fun l hl => absurd hl List.not_mem_nil, trivial⟩
      · rw [linesOf_single hin hne]
        refine ⟨by simp, ?_, trivial⟩
        intro l hl
        rw [List.mem_singleton.mp hl]
        exact ⟨hne, fun hm => hin (List.mem_of_mem_dropLast hm)⟩

/-- lines put together come apart again -/
theorem linesOf_flatten {ls : List Bytes} (h : ∀ l ∈ ls, IsLine l) (hl : Lined ls) :
    linesOf ls.flatten = ls := by
  induction ls with
  | nil => exact linesOf_nil
  | cons l ls ih =>
    obtain ⟨hne, hnl⟩ := h l List.mem_cons_self
    have hls := ih (fun m hm => h m (List.mem_cons_of_mem _ hm)) hl.tail
    cases ls with
    | nil =>
      rw [List.flatten_cons, List.flatten_nil, List.append_nil]
      by_cases hlast : l.getLast hne = 10
      · have hcut := List.dropLast_append_getLast hne
        rw [hlast] at hcut
        have := @linesOf_cons _ [] hnl
        rwa [hcut, linesOf_nil] at this
      · refine linesOf_single ?_ hne
        rw [← List.dropLast_append_getLast hne, List.mem_append, List.mem_singleton]
        rintro (hm | hm)
        · exact hnl hm
        · exact hlast hm.symm
    | cons m ls =>
      obtain ⟨⟨a, rfl⟩, -⟩ := hl
      rw [List.dropLast_concat] at hnl
      rw [List.flatten_cons, List.append_assoc, List.singleton_append, linesOf_cons hnl, hls]

/-- the whole lines of the first part come first; what is left of it goes on -/
theorem linesOf_append (t u : Bytes) :
    10 ∉ (splitNewlines t).getLastD [] ∧ linesOf (t ++ u) =
      (splitNewlines t).dropLast.map (· ++ [10]) ++ linesOf ((splitNewlines t).getLastD [] ++ u) := by
  induction h : t.length using Nat.strong_induction_on generalizing t with
  | _ n ih =>
    by_cases hin : 10 ∈ t
    · obtain ⟨a, rest, rfl, ha⟩ := split_at_newline hin
      obtain ⟨hlast, heq⟩ := ih rest.length (by rw [← h]; simp; omega) rest rfl
      obtain ⟨l, ls, hl⟩ := List.exists_cons_of_ne_nil (splitNewlines_ne_nil rest)
      have hjoin : a ++ 10 :: rest ++ u = a ++ 10 :: (rest ++ u) := by simp
      rw [splitNewlines_append, splitNewlines_single ha, hjoin, linesOf_cons ha, heq, hl]
      rw [hl] at hlast
      exact ⟨hlast, rfl⟩
    · rw [splitNewlines_single hin]
      exact ⟨hin, rfl⟩

/-- the lines do not depend on where the content is cut into chunks -/
theorem linesFrom_eq_linesOf {pending : Bytes} (h : 10 ∉ pending) (chunks : List Bytes) :
    linesFrom pending chunks = linesOf (pending ++ chunks.flatten) := by
  induction chunks generalizing pending with
  | nil =>
    rw [List.flatten_nil, List.append_nil, linesFrom]
    split_ifs with hp
    · rw [hp, linesOf_nil]
    · rw [linesOf_single h hp]
  | cons chunk chunks ih =>
    obtain ⟨hlast, heq⟩ := linesOf_append (pending ++ chunk) chunks.flatten
    rw [List.flatten_cons, ← List.append_assoc, heq, linesFrom, ih hlast]

theorem Content.lines_eq (c : Content) : c.lines = linesOf c.data :=
  linesFrom_eq_linesOf List.not_mem_nil c.chunks

/-! ## the builder -/

theorem occurs_iff {part t : Bytes} : occurs part t = true ↔ part <:+: t := by
  rw [occurs, List.any_eq_true]
  constructor
  · rintro ⟨rest, hrest, hp⟩
    exact (List.isPrefixOf_iff_prefix.mp hp).isInfix.trans ((List.mem_tails _ _).mp hrest).isInfix
  · rintro ⟨a, b, rfl⟩
    refine ⟨part ++ b, (List.mem_tails _ _).mpr ⟨a, by rw [List.append_assoc]⟩, ?_⟩
    exact List.isPrefixOf_iff_prefix.mpr (List.prefix_append _ _)

theorem cutChunks_flatten (buffer : Bytes) :
    (cutChunks buffer).1.flatten ++ (cutChunks buffer).2 = buffer := by
  fun_induction cutChunks buffer with
  | case1 buffer _ chunks rest hcut ih =>
    rw [hcut] at ih
    rw [List.flatten_cons, List.append_assoc, ih, List.take_append_drop]
  | case2 buffer _ => rfl

/-- no marker stands in the data -/
def Clean (markers : List Bytes) (data : Bytes) : Prop := ∀ m ∈ markers, ¬m <:+: data

theorem Clean.part {markers : List Bytes} {s t : Bytes} (h : Clean markers t) (hs : s <:+: t) :
    Clean markers s := fun m hm hin => h m hm (hin.trans hs)

theorem any_occurs_eq_false {markers : List Bytes} {data : Bytes} :
    (markers.any fun m => occurs m data) = false ↔ Clean markers data := by
  rw [List.any_eq_false]
  exact forall₂_congr fun m _ => by rw [occurs_iff]

/-- the builder has been given this data; the end in which a marker may have begun is kept -/
structure Builder.Has (b : Builder) (data : Bytes) : Prop where
  stored : b.chunks.flatten ++ b.buffer = data
  total : b.total = data.length
  tail : b.tail <:+ data

theorem Builder.Has.empty : Builder.empty.Has [] := ⟨rfl, rfl, List.suffix_rfl⟩

section
variable {maximum : Nat} {markers : List Bytes} {b b' : Builder} {data piece : Bytes}

/-- what is left of an addition that goes well -/
theorem Builder.add_cases (h : b.add maximum markers piece = .ok b') :
    b.total + piece.length ≤ maximum ∧ Clean markers (b.tail ++ piece) ∧
      b' = ⟨b.total + piece.length, (cutChunks (b.buffer ++ piece)).2,
        b.chunks ++ (cutChunks (b.buffer ++ piece)).1,
        (b.tail ++ piece).drop ((b.tail ++ piece).length - overlap markers)⟩ := by
  unfold Builder.add at h
  dsimp only at h
  split_ifs at h with h1 h2
  refine ⟨by omega, any_occurs_eq_false.mp (by simpa using h2), ?_⟩
  exact (Except.ok.inj h).symm

theorem Builder.Has.added (hb : b.Has data) (h : b.add maximum markers piece = .ok b') :
    b'.Has (data ++ piece) := by
  obtain ⟨-, -, rfl⟩ := Builder.add_cases h
  refine ⟨?_, ?_, ?_⟩
  · rw [List.flatten_append, List.append_assoc, cutChunks_flatten, ← List.append_assoc, hb.stored]
  · show b.total + piece.length = (data ++ piece).length
    rw [List.length_append, hb.total]
  · refine (List.drop_suffix _ _).trans ?_
    obtain ⟨a, ha⟩ := hb.tail
    exact ⟨a, by rw [← List.append_assoc, ha]⟩

/-- clean data that is not too long is taken -/
theorem Builder.add_ok (hb : b.Has data) (hlen : (data ++ piece).length ≤ maximum)
    (hclean : Clean markers (data ++ piece)) : ∃ b', b.add maximum markers piece = .ok b' := by
  have htail : b.tail ++ piece <:+: data ++ piece := by
    obtain ⟨a, ha⟩ := hb.tail
    exact ⟨a, [], by rw [List.append_nil, ← List.append_assoc, ha]⟩
  unfold Builder.add
  dsimp only
  rw [List.length_append] at hlen
  rw [if_neg (by rw [hb.total]; omega),
    if_neg (by rw [any_occurs_eq_false.mpr (hclean.part htail)]; exact Bool.false_ne_true)]
  exact ⟨_, rfl⟩

/-- several pieces, clean as a whole -/
theorem Builder.addAll_ok {pieces : List Bytes} (hb : b.Has data)
    (hlen : (data ++ pieces.flatten).length ≤ maximum)
    (hclean : Clean markers (data ++ pieces.flatten)) :
    ∃ b', b.addAll maximum markers pieces = .ok b' ∧ b'.Has (data ++ pieces.flatten) := by
  induction pieces generalizing b data with
  | nil => exact ⟨b, rfl, by rwa [List.flatten_nil, List.append_nil]⟩
  | cons piece pieces ih =>
    rw [List.flatten_cons, ← List.append_assoc] at hlen hclean ⊢
    have hpre : data ++ piece <+: data ++ piece ++ pieces.flatten := List.prefix_append _ _
    obtain ⟨b1, h1⟩ := Builder.add_ok hb (hpre.length_le.trans hlen) (hclean.part hpre.isInfix)
    obtain ⟨b2, h2, hh2⟩ := ih (hb.added h1) hlen hclean
    refine ⟨b2, ?_, hh2⟩
    rw [Builder.addAll, h1]
    exact h2

end

/-! ### what a builder has let through -/

theorem length_le_overlap {markers : List Bytes} {m : Bytes} (h : m ∈ markers) :
    m.length ≤ overlap markers + 1 := by
  have hmax : ∀ l : List Nat, ∀ n ∈ l, n ≤ l.foldr max 0 := by
    intro l
    induction l with
    | nil => exact fun n hn => absurd hn List.not_mem_nil
    | cons k l ih =>
      intro n hn
      rw [List.foldr_cons]
      rcases List.mem_cons.mp hn with rfl | hn
      · exact le_max_left _ _
      · exact (ih n hn).trans (le_max_right _ _)
  have hle := hmax (markers.map List.length) m.length (List.mem_map_of_mem h)
  unfold overlap
  omega

/-- a marker across the border begins in the end that is kept -/
theorem Clean.append {markers : List Bytes} {data piece : Bytes} (h : Clean markers data)
    (hend : Clean markers (data.drop (data.length - overlap markers) ++ piece)) :
    Clean markers (data ++ piece) := by
  rintro m hm ⟨u, v, huv⟩
  have hlen := length_le_overlap hm
  by_cases hin : (u ++ m).length ≤ data.length
  · have hpre : u ++ m <+: data :=
      List.prefix_of_prefix_length_le ⟨v, huv⟩ (List.prefix_append data piece) hin
    exact h m hm ((List.suffix_append u m).isInfix.trans hpre.isInfix)
  · rw [List.length_append] at hin
    refine hend m hm ?_
    have hle : data.length - overlap markers ≤ data.length := Nat.sub_le _ _
    rw [← List.drop_append_of_le_length hle, ← huv, List.append_assoc,
      List.drop_append_of_le_length (by omega)]
    exact ⟨_, v, List.append_assoc _ _ _⟩

/-- **What a builder has made is clean and not too long.** -/
theorem Builder.addAll_clean {maximum : Nat} {markers : List Bytes} {pieces : List Bytes}
    {b b' : Builder} {data : Bytes} (hb : b.Has data)
    (htail : b.tail = data.drop (data.length - overlap markers)) (hclean : Clean markers data)
    (hlen : data.length ≤ maximum) (h : b.addAll maximum markers pieces = .ok b') :
    b'.Has (data ++ pieces.flatten) ∧ Clean markers (data ++ pieces.flatten) ∧
      (data ++ pieces.flatten).length ≤ maximum := by
  induction pieces generalizing b data with
  | nil =>
    cases h
    rw [List.flatten_nil, List.append_nil]
    exact ⟨hb, hclean, hlen⟩
  | cons piece pieces ih =>
    rw [Builder.addAll] at h
    split at h
    · rename_i b1 h1
      have hb1 := hb.added h1
      obtain ⟨hl, hc, rfl⟩ := Builder.add_cases h1
      rw [List.flatten_cons, ← List.append_assoc]
      refine ih hb1 ?_ (hclean.append (htail ▸ hc)) ?_ h
      · show (b.tail ++ piece).drop ((b.tail ++ piece).length - overlap markers) = _
        by_cases hshort : data.length ≤ overlap markers
        · rw [htail, Nat.sub_eq_zero_of_le hshort, List.drop_zero]
        · have htl : b.tail.length = overlap markers := by
            rw [htail, List.length_drop]
            omega
          rw [List.length_append, List.length_append, htl, Nat.add_sub_cancel_left,
            show data.length + piece.length - overlap markers =
              (data.length - overlap markers) + piece.length by omega, ← List.drop_drop,
            List.drop_append_of_le_length (Nat.sub_le _ _), htail]
      · rw [List.length_append, ← hb.total]
        exact hl
    · exact nomatch h

/-! ## lines that are left out do not bring a marker together -/

theorem infix_sep {α : Type} {m x y : List α} {c : α} (h : m <:+: x ++ c :: y) (hc : c ∉ m) :
    m <:+: x ∨ m <:+: y := by
  obtain ⟨u, v, huv⟩ := h
  rcases List.append_eq_append_iff.mp huv with ⟨a, rfl, -⟩ | ⟨a, hum, hcv⟩
  · exact .inl ⟨u, a, rfl⟩
  · cases a with
    | nil =>
      rw [List.append_nil] at hum
      exact .inl ⟨u, [], by rw [List.append_nil, hum]⟩
    | cons d a =>
      obtain ⟨rfl, rfl⟩ := List.cons_eq_cons.mp hcv
      rcases List.append_eq_append_iff.mp hum with ⟨b, rfl, hm⟩ | ⟨b, rfl, hm⟩
      · refine absurd ?_ hc
        rw [hm]
        exact List.mem_append_right _ List.mem_cons_self
      · cases b with
        | nil =>
          refine absurd ?_ hc
          rw [← List.nil_append m, ← hm]
          exact List.mem_cons_self
        | cons e b =>
          obtain ⟨rfl, rfl⟩ := List.cons_eq_cons.mp hm
          exact .inr ⟨b, v, rfl⟩

theorem clean_flatten {markers : List Bytes} (hm : ∀ m ∈ markers, m ≠ [] ∧ 10 ∉ m)
    {ws : List Bytes} (hl : Lined ws) (hw : ∀ w ∈ ws, Clean markers w) : Clean markers ws.flatten := by
  induction ws with
  | nil =>
    intro m hmem hin
    exact (hm m hmem).1 (List.infix_nil.mp hin)
  | cons w ws ih =>
    have hrest := ih hl.tail fun v hv => hw v (List.mem_cons_of_mem _ hv)
    have hfirst := hw w List.mem_cons_self
    cases ws with
    | nil => rwa [List.flatten_cons, List.flatten_nil, List.append_nil]
    | cons v ws =>
      obtain ⟨⟨a, rfl⟩, -⟩ := hl
      intro m hmem hin
      rw [List.flatten_cons, List.append_assoc, List.singleton_append] at hin
      rcases infix_sep hin (hm m hmem).2 with h | h
      · exact hfirst m hmem (h.trans (List.prefix_append a [10]).isInfix)
      · exact hrest m hmem h

theorem serializedMarkers_ok (serialized : Bool) :
    ∀ m ∈ serializedMarkers serialized, m ≠ [] ∧ 10 ∉ m := by
  cases serialized with
  | false => exact fun m hm => absurd hm List.not_mem_nil
  | true => decide

/-- some of the lines of a stored content can be put into a new one -/
structure Fits (serialized : Bool) (data : Bytes) : Prop where
  short : data.length ≤ byteBudget
  clean : Clean (serializedMarkers serialized) data

theorem Stored.fits {serialized : Bool} (c : Stored serialized) :
    c.content.data = c.pieces.flatten ∧ Fits serialized c.content.data := by
  have hmarkers : ∀ m ∈ c.forbidden ++ serializedMarkers serialized, m ≠ [] := by
    intro m hm
    rcases List.mem_append.mp hm with h | h
    · exact c.nonempty m h
    · exact (serializedMarkers_ok serialized m h).1
  have hnil : Clean (c.forbidden ++ serializedMarkers serialized) [] :=
    fun m hm hin => hmarkers m hm (List.infix_nil.mp hin)
  obtain ⟨hhas, hclean, hlen⟩ := Builder.addAll_clean Builder.Has.empty List.drop_nil.symm hnil
    (Nat.zero_le _) c.made
  rw [List.nil_append] at hhas hclean hlen
  have hdata : c.content.data = c.pieces.flatten := by
    rw [← c.finished, ← hhas.stored, Content.data, Builder.finish, List.flatten_append]
    congr 1
    split_ifs with h
    · rw [h]
      rfl
    · simp
  rw [hdata]
  exact ⟨rfl, hlen.trans c.small, fun m hm => hclean m (List.mem_append_right _ hm)⟩

theorem sublist_flatten {α : Type} {ws ls : List (List α)} (h : ws.Sublist ls) :
    ws.flatten.Sublist ls.flatten := by
  induction h with
  | slnil => exact List.Sublist.slnil
  | cons l _ ih => exact ih.trans (List.sublist_append_right _ _)
  | cons_cons l _ ih => exact ih.append_left l

theorem Fits.sublist {serialized : Bool} {ls ws : List Bytes} (h : Fits serialized ls.flatten)
    (hl : Lined ls) (hs : ws.Sublist ls) : Fits serialized ws.flatten := by
  refine ⟨(sublist_flatten hs).length_le.trans h.short, ?_⟩
  refine clean_flatten (serializedMarkers_ok serialized) (hl.sublist hs) fun w hw => ?_
  obtain ⟨a, b, rfl⟩ := List.append_of_mem (hs.subset hw)
  rw [List.flatten_append, List.flatten_cons] at h
  exact h.clean.part ⟨a.flatten, b.flatten, List.append_assoc _ _ _⟩

/-! ## the loop -/

section
variable {hit : Bytes → Bool} {context : Nat} {ls : List Bytes} {l : Bytes} {i : Nat}

theorem near_iff : near hit context ls i = true ↔
    ∃ j m, ls[j]? = some m ∧ hit m = true ∧ j ≤ i + context ∧ i ≤ j + context := by
  rw [near, List.any_eq_true]
  constructor
  · rintro ⟨⟨m, j⟩, hm, h⟩
    simp only [Bool.and_eq_true, decide_eq_true_eq] at h
    exact ⟨j, m, List.mk_mem_zipIdx_iff_getElem?.mp hm, h⟩
  · rintro ⟨j, m, hm, h⟩
    refine ⟨(m, j), List.mk_mem_zipIdx_iff_getElem?.mpr hm, ?_⟩
    simp only [Bool.and_eq_true, decide_eq_true_eq]
    exact h

/-- one more line: a line near the old ones, or near the new one -/
theorem near_append : near hit context (ls ++ [l]) i = true ↔ near hit context ls i = true ∨
    hit l = true ∧ ls.length ≤ i + context ∧ i ≤ ls.length + context := by
  rw [near, near, List.zipIdx_append, List.any_append, Bool.or_eq_true]
  simp

theorem grep_append : grep hit context (ls ++ [l]) =
    ((ls.zipIdx.filter fun x => near hit context (ls ++ [l]) x.2).map Prod.fst) ++
      if near hit context (ls ++ [l]) ls.length = true then [l] else [] := by
  rw [grep, List.zipIdx_append, List.filter_append, List.map_append]
  congr 1
  by_cases h : near hit context (ls ++ [l]) ls.length = true <;> simp [h]

theorem grep_sublist : (grep hit context ls).Sublist ls := by
  have h := (List.filter_sublist (p := fun x => near hit context ls x.2) (l := ls.zipIdx)).map Prod.fst
  rwa [List.zipIdx_map_fst] at h

end

/-- where the loop stands after these lines -/
structure View.At (hit : Bytes → Bool) (context : Nat) (ls : List Bytes) (v : View) : Prop where
  total : v.total = ls.length
  matched : v.matched = ls.countP hit
  before : v.before = ls.zipIdx.drop (ls.length - context)
  out : v.out.Has (grep hit context ls).flatten
  below : v.lastWritten < ls.length
  /-- of the lines that are kept, those up to `lastWritten` have been written -/
  last : ∀ i < ls.length, ls.length ≤ i + context →
    (near hit context ls i = true ↔ (i : Int) ≤ v.lastWritten)
  /-- the lines to come that are near enough already -/
  through : ∀ i, ls.length ≤ i → ((i : Int) ≤ v.through ↔ near hit context ls i = true)

theorem pairwise_zipIdx (ls : List Bytes) : ls.zipIdx.Pairwise fun a b => a.2 < b.2 := by
  rw [← List.pairwise_map (f := Prod.snd) (R := (· < ·)), List.zipIdx_map_snd]
  exact List.pairwise_lt_range'

/-- the indices go up, so those up to a bound come first -/
theorem filter_le_append {ps : List (Bytes × Nat)} (h : ps.Pairwise fun a b => a.2 < b.2)
    (last : Int) :
    (ps.filter fun x => (x.2 : Int) ≤ last) ++ (ps.filter fun x => last < x.2) = ps := by
  induction ps with
  | nil => rfl
  | cons x ps ih =>
    obtain ⟨hx, hps⟩ := List.pairwise_cons.mp h
    by_cases hle : (x.2 : Int) ≤ last
    · have hlt : ¬last < x.2 := by omega
      rw [List.filter_cons_of_pos (by simpa using hle), List.filter_cons_of_neg (by simpa using hlt),
        List.cons_append, ih hps]
    · have hlt : last < x.2 := by omega
      have hnone : (ps.filter fun y => (y.2 : Int) ≤ last) = [] := by
        rw [List.filter_eq_nil_iff]
        intro y hy
        have := hx y hy
        simp only [decide_eq_true_eq]
        omega
      have hall : (ps.filter fun y => last < (y.2 : Int)) = ps := by
        rw [List.filter_eq_self]
        intro y hy
        have := hx y hy
        simp only [decide_eq_true_eq]
        omega
      rw [List.filter_cons_of_neg (by simpa using hle), hnone,
        List.filter_cons_of_pos (by simpa using hlt), hall, List.nil_append]

/-- all lines that are not written yet are written, in order -/
theorem catchUp_ok {serialized : Bool} {ps : List (Bytes × Nat)} {out out' : Builder} {last : Int}
    {k : Nat} (h : ps.Pairwise fun a b => a.2 < b.2) (hk : ∀ x ∈ ps, x.2 < k) (hlast : last < k)
    (hadd : out.addAll byteBudget (serializedMarkers serialized)
      ((ps.filter fun x => last < (x.2 : Int)).map Prod.fst) = .ok out') :
    ∃ last', catchUp serialized ps out last = .ok (out', last') ∧ last' < k := by
  induction ps generalizing out last with
  | nil =>
    cases hadd
    exact ⟨last, rfl, hlast⟩
  | cons x ps ih =>
    obtain ⟨line, index⟩ := x
    obtain ⟨hx, hps⟩ := List.pairwise_cons.mp h
    have hk' : ∀ x ∈ ps, x.2 < k := fun y hy => hk y (List.mem_cons_of_mem _ hy)
    rw [catchUp]
    by_cases hlt : last < (index : Int)
    · rw [if_pos hlt]
      rw [List.filter_cons_of_pos (by simpa using hlt), List.map_cons, Builder.addAll] at hadd
      split at hadd
      · rename_i out1 h1
        rw [h1]
        refine ih hps hk' (by exact_mod_cast hk _ List.mem_cons_self) ?_
        have hsame : (ps.filter fun y => last < (y.2 : Int)) =
            ps.filter fun y => (index : Int) < (y.2 : Int) := by
          refine List.filter_congr fun y hy => ?_
          have := hx y hy
          dsimp only at this
          rw [decide_eq_decide]
          omega
        rwa [hsame] at hadd
      · exact nomatch hadd
    · rw [if_neg hlt]
      rw [List.filter_cons_of_neg (by simpa using hlt)] at hadd
      exact ih hps hk' hlast hadd

section
variable {hit : Bytes → Bool} {context : Nat} {ls : List Bytes} {v : View}

/-- a match: the kept lines that are not written yet, and the line itself -/
theorem View.At.grep_hit (h : v.At hit context ls) {l : Bytes} (hl : hit l = true) :
    grep hit context (ls ++ [l]) = grep hit context ls ++
      ((v.before.filter fun x => v.lastWritten < (x.2 : Int)).map Prod.fst ++ [l]) := by
  have hself : near hit context (ls ++ [l]) ls.length = true :=
    near_append.mpr (.inr ⟨hl, by omega, by omega⟩)
  rw [grep_append, if_pos hself, ← List.append_assoc, h.before]
  congr 1
  rw [grep, ← List.map_append]
  congr 1
  -- the lines that are too far away, and the ones that are kept
  have hcut := List.take_append_drop (ls.length - context) ls.zipIdx
  have hfar : ∀ x ∈ ls.zipIdx.take (ls.length - context), x.2 + context < ls.length := by
    intro x hx
    obtain ⟨n, hn, rfl⟩ := List.mem_iff_getElem.mp hx
    rw [List.length_take] at hn
    rw [List.getElem_take, List.getElem_zipIdx]
    dsimp only
    omega
  have hkept : ∀ x ∈ ls.zipIdx.drop (ls.length - context), x.2 < ls.length ∧
      ls.length ≤ x.2 + context := by
    intro x hx
    obtain ⟨n, hn, rfl⟩ := List.mem_iff_getElem.mp hx
    rw [List.length_drop, List.length_zipIdx] at hn
    rw [List.getElem_drop, List.getElem_zipIdx]
    dsimp only
    omega
  have h1 : (ls.zipIdx.take (ls.length - context)).filter (fun x => near hit context (ls ++ [l]) x.2) =
      (ls.zipIdx.take (ls.length - context)).filter fun x => near hit context ls x.2 := by
    refine List.filter_congr fun x hx => ?_
    have := hfar x hx
    rw [Bool.eq_iff_iff, near_append]
    exact or_iff_left fun h => by omega
  have h2 : (ls.zipIdx.drop (ls.length - context)).filter (fun x => near hit context (ls ++ [l]) x.2) =
      ls.zipIdx.drop (ls.length - context) := by
    rw [List.filter_eq_self]
    intro x hx
    obtain ⟨hlt, hle⟩ := hkept x hx
    exact near_append.mpr (.inr ⟨hl, hle, by omega⟩)
  have h3 : (ls.zipIdx.drop (ls.length - context)).filter (fun x => near hit context ls x.2) =
      (ls.zipIdx.drop (ls.length - context)).filter fun x => (x.2 : Int) ≤ v.lastWritten := by
    refine List.filter_congr fun x hx => ?_
    obtain ⟨hlt, hle⟩ := hkept x hx
    rw [Bool.eq_iff_iff, h.last x.2 hlt hle, decide_eq_true_eq]
  have hsorted : (ls.zipIdx.drop (ls.length - context)).Pairwise fun a b => a.2 < b.2 :=
    (pairwise_zipIdx ls).sublist (List.drop_sublist _ _)
  have hsplit : ∀ p : Bytes × Nat → Bool, ls.zipIdx.filter p =
      (ls.zipIdx.take (ls.length - context)).filter p ++
        (ls.zipIdx.drop (ls.length - context)).filter p := by
    intro p
    rw [← List.filter_append, hcut]
  rw [hsplit, h1, h2, hsplit, h3, List.append_assoc, filter_le_append hsorted]

/-- no match: the line itself where it is near an earlier one -/
theorem grep_miss {l : Bytes} (hl : hit l = false) :
    grep hit context (ls ++ [l]) = grep hit context ls ++
      if near hit context ls ls.length = true then [l] else [] := by
  have hsame : ∀ i, near hit context (ls ++ [l]) i = near hit context ls i := by
    intro i
    rw [Bool.eq_iff_iff, near_append, hl]
    simp
  rw [grep_append, hsame, grep]
  simp only [hsame]

/-- the deque holds the last lines -/
theorem View.At.remember (h : v.At hit context ls) (l : Bytes) :
    remember context v.before (l, ls.length) =
      (ls ++ [l]).zipIdx.drop ((ls ++ [l]).length - context) := by
  have hsnoc : (ls ++ [l]).zipIdx = ls.zipIdx ++ [(l, ls.length)] := by
    rw [List.zipIdx_append]
    simp
  rw [Filter.remember, h.before, hsnoc]
  have hlen : (ls.zipIdx.drop (ls.length - context) ++ [(l, ls.length)]).length - context =
      ((ls ++ [l]).length - context) - (ls.length - context) := by
    simp only [List.length_append, List.length_drop, List.length_zipIdx, List.length_singleton]
    omega
  have hle : ls.length - context ≤ ls.zipIdx.length := by
    rw [List.length_zipIdx]
    omega
  rw [hlen, ← List.drop_append_of_le_length hle, List.drop_drop]
  congr 1
  rw [List.length_append]
  omega

/-- what holds after a match -/
theorem View.At.hit_next (h : v.At hit context ls) {l : Bytes} (hl : hit l = true) {out : Builder}
    (hout : out.Has (grep hit context (ls ++ [l])).flatten) :
    View.At hit context (ls ++ [l]) ⟨Filter.remember context v.before (l, ls.length), out, v.total + 1,
      v.matched + 1, ls.length, (ls.length : Int) + context⟩ where
  total := by rw [List.length_append, h.total]; rfl
  matched := by
    rw [List.countP_append, h.matched, List.countP_singleton, if_pos hl]
  before := h.remember l
  out := hout
  below := by
    simp only [List.length_append, List.length_singleton]
    omega
  last := by
    intro i hi hle
    rw [List.length_append, List.length_singleton] at hi hle
    rw [near_append]
    dsimp only
    constructor
    · intro _
      omega
    · intro _
      exact .inr ⟨hl, by omega, by omega⟩
  through := by
    intro i hi
    rw [List.length_append, List.length_singleton] at hi
    rw [near_append]
    dsimp only
    constructor
    · intro hle
      exact .inr ⟨hl, by omega, by omega⟩
    · rintro (hnear | ⟨-, -, hle⟩)
      · obtain ⟨j, m, hj, -, -, hle⟩ := near_iff.mp hnear
        have := (List.getElem?_eq_some_iff.mp hj).1
        omega
      · omega

/-- what holds after a line without the needle -/
theorem View.At.miss_next (h : v.At hit context ls) {l : Bytes} (hl : hit l = false) {out : Builder}
    (hout : out.Has (grep hit context (ls ++ [l])).flatten) :
    View.At hit context (ls ++ [l]) ⟨Filter.remember context v.before (l, ls.length), out, v.total + 1,
      v.matched, if near hit context ls ls.length = true then ls.length else v.lastWritten,
      v.through⟩ where
  total := by rw [List.length_append, h.total]; rfl
  matched := by
    rw [List.countP_append, h.matched, List.countP_singleton, if_neg (by rw [hl]; decide),
      Nat.add_zero]
  before := h.remember l
  out := hout
  below := by
    have := h.below
    simp only [List.length_append, List.length_singleton]
    split_ifs <;> omega
  last := by
    intro i hi hle
    rw [List.length_append, List.length_singleton] at hi hle
    have hnear : near hit context (ls ++ [l]) i = true ↔ near hit context ls i = true := by
      rw [near_append, hl]
      simp
    rw [hnear]
    dsimp only
    split_ifs with hself
    · -- the line that makes the new one near is near all lines between them
      refine ⟨fun _ => by omega, fun _ => ?_⟩
      obtain ⟨j, m, hj, hm, h1, h2⟩ := near_iff.mp hself
      have := (List.getElem?_eq_some_iff.mp hj).1
      exact near_iff.mpr ⟨j, m, hj, hm, by omega, by omega⟩
    · by_cases hi' : i = ls.length
      · have := h.below
        rw [hi']
        exact ⟨fun h => absurd h hself, fun h => by omega⟩
      · exact h.last i (by omega) (by omega)
  through := by
    intro i hi
    rw [List.length_append, List.length_singleton] at hi
    rw [h.through i (by omega), near_append, hl]
    simp

end

section
variable {serialized : Bool} {budget : Budget} {needle : Bytes} {context : Nat} {ls : List Bytes}
  {v : View} {l : Bytes}

/-- **One line of the loop.**  The memory is asked for after the line. -/
theorem viewLine_eq (h : v.At (occurs needle) context ls)
    (hfits : Fits serialized (grep (occurs needle) context (ls ++ [l])).flatten) :
    ∃ v', v'.At (occurs needle) context (ls ++ [l]) ∧
      viewLine serialized budget needle context v (l, ls.length) =
        if budget.refusesAfter ls.length then .error .budget else .ok v' := by
  have hfl : ([l] : List Bytes).flatten = l := by simp
  unfold viewLine
  dsimp only
  by_cases hl : occurs needle l = true
  · have hgrep := h.grep_hit hl
    have hkept : v.before.Pairwise fun a b => a.2 < b.2 := by
      rw [h.before]
      exact (pairwise_zipIdx ls).sublist (List.drop_sublist _ _)
    have hk : ∀ x ∈ v.before, x.2 < ls.length := by
      intro x hx
      rw [h.before] at hx
      exact List.snd_lt_of_mem_zipIdx (List.mem_of_mem_drop hx)
    have hall := hfits
    rw [hgrep, List.flatten_append, List.flatten_append, ← List.append_assoc, hfl] at hall
    -- first the lines before the match, then the line with the match
    have hp := List.prefix_append ((grep (occurs needle) context ls).flatten ++
      ((v.before.filter fun x => v.lastWritten < (x.2 : Int)).map Prod.fst).flatten) l
    obtain ⟨out1, h1, hout1⟩ := Builder.addAll_ok h.out (hp.length_le.trans hall.short)
      (hall.clean.part hp.isInfix)
    obtain ⟨last, hcatch, hlast⟩ := catchUp_ok hkept hk h.below h1
    obtain ⟨out2, h2⟩ := Builder.add_ok hout1 hall.short hall.clean
    refine ⟨_, @View.At.hit_next _ _ _ _ h _ hl out2 ?_, ?_⟩
    · rw [hgrep, List.flatten_append, List.flatten_append, ← List.append_assoc, hfl]
      exact hout1.added h2
    · simp only [hl, if_true, hcatch]
      rw [if_pos ⟨by omega, hlast⟩, h2]
  · have hl : occurs needle l = false := by simpa using hl
    have hgrep := @grep_miss _ context ls _ hl
    simp only [hl, if_false, Bool.false_eq_true]
    by_cases hself : near (occurs needle) context ls ls.length = true
    · rw [if_pos hself] at hgrep
      have hall := hfits
      rw [hgrep, List.flatten_append, hfl] at hall
      obtain ⟨out2, h2⟩ := Builder.add_ok h.out hall.short hall.clean
      refine ⟨_, @View.At.miss_next _ _ _ _ h _ hl out2 ?_, ?_⟩
      · rw [hgrep, List.flatten_append, hfl]
        exact h.out.added h2
      · rw [if_pos ⟨(h.through ls.length le_rfl).mpr hself, h.below⟩, h2, if_pos hself]
        rfl
    · rw [if_neg hself, List.append_nil] at hgrep
      refine ⟨_, @View.At.miss_next _ _ _ _ h _ hl v.out (hgrep ▸ h.out), ?_⟩
      rw [if_neg fun hc => mt (h.through ls.length le_rfl).mp hself hc.1, if_neg hself]
      rfl

/-- **All lines of the loop.** -/
theorem viewLines_eq {rest : List Bytes} (h : v.At (occurs needle) context ls)
    (hlined : Lined (ls ++ rest)) (hfits : Fits serialized (ls ++ rest).flatten) :
    ∃ v', v'.At (occurs needle) context (ls ++ rest) ∧
      viewLines serialized budget needle context (rest.zipIdx ls.length) v =
        if (List.range' ls.length rest.length).any budget.refusesAfter then .error .budget
        else .ok v' := by
  induction rest generalizing ls v with
  | nil => exact ⟨v, by rwa [List.append_nil], rfl⟩
  | cons l rest ih =>
    have hsnoc : ls ++ l :: rest = ls ++ [l] ++ rest := by simp
    have hsub : (grep (occurs needle) context (ls ++ [l])).Sublist (ls ++ l :: rest) := by
      rw [hsnoc]
      exact grep_sublist.trans (List.sublist_append_left _ _)
    obtain ⟨v1, h1, heq1⟩ := @viewLine_eq _ budget _ _ _ _ _ h (hfits.sublist hlined hsub)
    rw [hsnoc] at hlined hfits ⊢
    obtain ⟨v2, h2, heq2⟩ := ih h1 hlined hfits
    refine ⟨v2, h2, ?_⟩
    rw [List.length_append, List.length_singleton] at heq2
    rw [List.zipIdx_cons, viewLines, heq1, List.length_cons, List.range'_succ, List.any_cons]
    by_cases hb : budget.refusesAfter ls.length = true
    · simp [hb]
    · simp only [hb, Bool.false_eq_true, if_false, Bool.false_or]
      exact heq2

end

/-- the memory is refused while these lines are read, or at the end -/
def Budget.refuses (budget : Budget) (lines : Nat) : Bool :=
  (List.range' 0 lines).any budget.refusesAfter || budget.refusesAtEnd

theorem Builder.Has.finish {b : Builder} {data : Bytes} (h : b.Has data) : b.finish.data = data := by
  rw [← h.stored, Content.data, Builder.finish, List.flatten_append]
  congr 1
  split_ifs with hb
  · rw [hb]
    rfl
  · simp

theorem View.At.start (hit : Bytes → Bool) (context : Nat) : View.start.At hit context [] where
  total := rfl
  matched := rfl
  before := by simp [View.start]
  out := Builder.Has.empty
  below := by decide
  last := fun i hi => absurd hi (Nat.not_lt_zero i)
  through := by
    intro i _
    have hnear : near hit context [] i = false := rfl
    have hthrough : View.start.through = -1 := rfl
    rw [hnear, hthrough]
    exact ⟨fun h => by omega, fun h => absurd h Bool.false_ne_true⟩

/-- **The view is `grep` with context.**  For a content as the redaction leaves it and arguments that
are accepted, the view holds the lines near a line with the needle, with the number of lines and of
lines with the needle; only the memory may be refused. -/
theorem filteredContent_eq_grep {serialized : Bool} (c : Stored serialized) (budget : Budget)
    (needle : List Char) (context : Int) (h : filterArguments (some needle) context = true) :
    let hit := occurs (needle.map fun c => UInt8.ofNat c.toNat)
    let lines := c.content.lines
    if budget.refuses lines.length then
      filteredContent budget c.content (some needle) context serialized = .error .budget
    else ∃ r : Content,
      filteredContent budget c.content (some needle) context serialized =
        .ok (r, lines.length, some (lines.countP hit)) ∧
      r.lines = grep hit context.toNat lines := by
  intro hit lines
  obtain ⟨-, hfits⟩ := c.fits
  have hsplit : Splits c.content.data lines := by
    show Splits c.content.data c.content.lines
    rw [Content.lines_eq]
    exact splits_linesOf _
  rw [← hsplit.flatten] at hfits
  obtain ⟨v, hv, heq⟩ := @viewLines_eq _ budget _ _ _ _ lines
    (View.At.start hit context.toNat) hsplit.lined hfits
  rw [List.nil_append] at hv
  have hrun : filteredContent budget c.content (some needle) context serialized =
      if budget.refuses lines.length then .error .budget
      else .ok (v.out.finish, v.total, some v.matched) := by
    unfold filteredContent Budget.refuses
    rw [h]
    simp only [Bool.not_true, Bool.false_eq_true, if_false]
    rw [show c.content.lines.zipIdx = lines.zipIdx ([] : List Bytes).length from rfl, heq]
    rw [List.length_nil]
    by_cases h1 : (List.range' 0 lines.length).any budget.refusesAfter = true
    · simp [h1]
    · by_cases h2 : budget.refusesAtEnd = true
      · simp [h1, h2]
      · simp [h1, h2]
  rw [hrun]
  split_ifs with hb
  · rfl
  · refine ⟨v.out.finish, by rw [hv.total, hv.matched], ?_⟩
    rw [Content.lines_eq, hv.out.finish]
    refine linesOf_flatten (fun l hl => ?_) (hsplit.lined.sublist grep_sublist)
    exact hsplit.lines l (grep_sublist.subset hl)

/-- nothing is refused -/
def Budget.free : Budget := ⟨fun _ => false, false⟩

section
variable {serialized : Bool} {budget : Budget} {needle : Bytes} {context : Nat}

/-- the memory decides whether there is a result, not which one -/
theorem viewLine_free {v v' : View} {x : Bytes × Nat}
    (h : viewLine serialized budget needle context v x = .ok v') :
    viewLine serialized .free needle context v x = .ok v' := by
  obtain ⟨line, index⟩ := x
  rw [viewLine] at h ⊢
  dsimp only at h ⊢
  split at h
  · exact nomatch h
  · split at h
    · exact nomatch h
    · split at h
      · exact nomatch h
      · rw [Budget.free, if_neg Bool.false_ne_true]
        exact h

theorem viewLines_free {xs : List (Bytes × Nat)} {v v' : View}
    (h : viewLines serialized budget needle context xs v = .ok v') :
    viewLines serialized .free needle context xs v = .ok v' := by
  induction xs generalizing v with
  | nil => exact h
  | cons x xs ih =>
    rw [viewLines] at h ⊢
    split at h
    · rename_i v1 hv1
      rw [viewLine_free hv1]
      exact ih h
    · exact nomatch h

end

theorem filteredContent_free {serialized : Bool} {budget : Budget} {text : Content}
    {contains : Option (List Char)} {context : Int} {r : Content × Nat × Option Nat}
    (h : filteredContent budget text contains context serialized = .ok r) :
    filteredContent .free text contains context serialized = .ok r := by
  unfold filteredContent at h ⊢
  by_cases hargs : (!filterArguments contains context) = true
  · rw [if_pos hargs] at h
    exact nomatch h
  · rw [if_neg hargs] at h ⊢
    cases contains with
    | none => exact h
    | some needle =>
      dsimp only at h ⊢
      split at h
      · exact nomatch h
      · rename_i v hv
        rw [viewLines_free hv]
        split_ifs at h
        exact h

/-- a content of three lines -/
def sampleStored : Stored true where
  content := ⟨[bytesOf "a\nb\nc\n"], 6⟩
  maximum := byteBudget
  forbidden := []
  pieces := [bytesOf "a\nb\nc\n"]
  built := ⟨6, bytesOf "a\nb\nc\n", [], bytesOf "a\nb\nc\n"⟩
  small := le_rfl
  nonempty := fun _ hm => absurd hm List.not_mem_nil
  made := by
    have hcut : cutChunks (bytesOf "a\nb\nc\n") = ([], bytesOf "a\nb\nc\n") := by
      rw [cutChunks, if_neg (by decide)]
    unfold Builder.addAll Builder.add
    dsimp only
    rw [if_neg (by decide), if_neg (by decide)]
    rw [show Builder.empty.buffer ++ bytesOf "a\nb\nc\n" = bytesOf "a\nb\nc\n" from rfl, hcut]
    rfl
  finished := rfl

/-- the line with the needle and the ones next to it -/
theorem filteredContent_eq_grep_sample :
    filterArguments (some ['b']) 1 = true ∧ ∃ r : Content,
      filteredContent ⟨fun _ => false, false⟩ sampleStored.content (some ['b']) 1 true =
        .ok (r, 3, some 1) ∧ r.lines = [bytesOf "a\n", bytesOf "b\n", bytesOf "c\n"] := by
  have h := filteredContent_eq_grep sampleStored ⟨fun _ => false, false⟩ ['b'] 1 (by decide)
  rw [if_neg (by decide)] at h
  exact ⟨by decide, h⟩

/-- a needle of more than 64 characters is refused -/
theorem filteredContent_long_needle : ∃ needle : List Char,
    needle ≠ [] ∧ (needle.all fun c => 32 ≤ c.toNat && c.toNat ≤ 126) = true ∧
      filteredContent ⟨fun _ => false, false⟩ sampleStored.content (some needle) 0 true =
        .error .filter := by
  refine ⟨List.replicate 65 'a', by decide, by decide, ?_⟩
  unfold filteredContent
  rw [if_pos (by decide)]

end Netops.Filter
