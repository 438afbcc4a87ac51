import Netops.Configuration.Filter
import Netops.Lib.Sha256
import Netops.Lib.Utf8

/-!
# Content buffers (`config_buffers.py`)

The builder of `Netops.Configuration.Filter` with all that goes in and comes out: texts and bytes go in, and
a content with its digest comes out, which is read in pages.

* `ContentBuilder.add`, `finish`   the builder;
* `Content.page`                   a page, put together from the chunks that it touches;
* `Completed.pages`                the pages, each from where the one before it ended (`payload`);
* `page_eq`                        a page is a part of the data, whatever the chunks are;
* `buffers_exact`                  nothing is lost, and no marker gets through.
-/

namespace Netops.Filter

/-! ## texts and bytes -/

/-- what `add` is given -/
inductive Data where
  | text (s : List Char)
  | bytes (b : Bytes)

/-- why a call fails -/
inductive Raised where
  /-- a character or a byte that is not ASCII -/
  | unicode
  /-- configuration page offset is beyond completed content -/
  | beyond
  | content (e : Failure)
  deriving DecidableEq

/-- `text.encode("ascii")` -/
def encodeAscii (s : List Char) : Except Raised Bytes :=
  if s.all fun c => c.toNat < 128 then .ok (s.map fun c => UInt8.ofNat c.toNat) else .error .unicode

/-- `data.decode("ascii")` -/
def decodeAscii (b : Bytes) : Except Raised (List Char) :=
  if b.all fun x => x.toNat < 128 then .ok (b.map fun x => Char.ofNat x.toNat) else .error .unicode

def Data.encode : Data → Except Raised Bytes
  | .text s => encodeAscii s
  | .bytes b => .ok b

/-- the data of several calls, one after the other -/
def Data.join : List Data → Except Raised Bytes
  | [] => .ok []
  | d :: rest => match d.encode with
    | .error e => .error e
    | .ok b => (join rest).map (b ++ ·)

/-! ## the builder -/

structure ContentBuilder where
  maximum : Nat
  forbidden : List Bytes
  built : Builder
  /-- what the digest has been given -/
  digested : Bytes

/-- the markers that must not get through -/
def forbiddenMarkers (forbidden : List (List Char)) (serialized : Bool) : List Bytes :=
  (forbidden.filter (· ≠ [])).map Utf8.encode ++ serializedMarkers serialized

/-- `ContentBuilder(maximum, forbidden, serialized_markers)` -/
def ContentBuilder.new (maximum : Nat) (forbidden : List (List Char)) (serialized : Bool) : ContentBuilder :=
  ⟨maximum, forbiddenMarkers forbidden serialized, .empty, []⟩

def ContentBuilder.add (d : Data) (b : ContentBuilder) : Except Raised ContentBuilder :=
  match d.encode with
  | .error e => .error e
  | .ok data => match b.built.add b.maximum b.forbidden data with
    | .error e => .error (.content e)
    | .ok built => .ok { b with built, digested := b.digested ++ data }

/-- call after call, all of which succeed -/
def ContentBuilder.addAll : List Data → ContentBuilder → Except Raised ContentBuilder
  | [], b => .ok b
  | d :: rest, b => match b.add d with
    | .error e => .error e
    | .ok b => b.addAll rest

/-! ## the content -/

/-- a content and its digest -/
structure Completed where
  content : Content
  sha256 : List Char

def ContentBuilder.finish (b : ContentBuilder) : Completed := ⟨b.built.finish, Sha256.hexdigest b.digested⟩

/-- `Content.page`: the text and where it ends -/
def Content.page (c : Content) (offset limit : Nat) : Except Raised (List Char × Nat) :=
  if offset > c.total then .error .beyond
  else
    let stop := min c.total (offset + limit)
    let first := offset / chunkLength
    let last := if stop > offset then (stop - 1) / chunkLength else offset / chunkLength
    let data := if stop > offset then ((c.chunks.drop first).take (last + 1 - first)).flatten else []
    (decodeAscii ((data.drop (offset % chunkLength)).take (stop - offset))).map fun text => (text, stop)

/-- the pages from an offset on; `none` where they do not come to an end -/
def Content.pages (c : Content) (limits : Nat → Nat) : Nat → Nat → Nat → Option (Except Raised (List (List Char)))
  | 0, _, _ => none
  | fuel+1, n, offset => match c.page offset (limits n) with
    | .error e => some (.error e)
    | .ok (text, stop) =>
      -- `next_offset` of `payload`
      if stop < c.total then (pages c limits fuel (n + 1) stop).map fun rest => rest.map (text :: ·)
      else some (.ok [text])

/-! ## chunks of one length -/

section
variable {α : Type} {n : Nat} {full last : List (List α)}

theorem drop_chunks (hfull : ∀ c ∈ full, c.length = n) {i : Nat} (hi : i ≤ full.length) :
    ((full ++ last).drop i).flatten = (full ++ last).flatten.drop (i * n) := by
  induction i generalizing full with
  | zero => rw [Nat.zero_mul, List.drop_zero, List.drop_zero]
  | succ i ih =>
    cases full with
    | nil => exact absurd hi (Nat.not_succ_le_zero i)
    | cons c full =>
      have hc : c.length = n := hfull c List.mem_cons_self
      rw [List.cons_append, List.drop_succ_cons, List.flatten_cons,
        ih (fun d hd => hfull d (List.mem_cons_of_mem c hd)) (Nat.le_of_succ_le_succ hi), Nat.succ_mul,
        Nat.add_comm (i * n) n, ← List.drop_drop, ← hc, List.drop_left]

theorem take_chunks (hfull : ∀ c ∈ full, c.length = n) (hlast : last.flatten.length ≤ n)
    (hone : last.length ≤ 1) (k : Nat) :
    ((full ++ last).take k).flatten = (full ++ last).flatten.take (k * n) := by
  induction k generalizing full with
  | zero => rw [Nat.zero_mul, List.take_zero, List.take_zero, List.flatten_nil]
  | succ k ih =>
    cases full with
    | nil =>
      have hle : n ≤ (k + 1) * n := Nat.le_mul_of_pos_left n (Nat.succ_pos k)
      rw [List.nil_append, List.take_of_length_le (by omega), List.take_of_length_le (by omega)]
    | cons c full =>
      have hc : c.length = n := hfull c List.mem_cons_self
      have hwhole : c.take (n + k * n) = c := List.take_of_length_le (by omega)
      rw [List.cons_append, List.take_succ_cons, List.flatten_cons, List.flatten_cons,
        ih fun d hd => hfull d (List.mem_cons_of_mem c hd), Nat.succ_mul, Nat.add_comm (k * n) n,
        List.take_append, hc, Nat.add_sub_cancel_left, hwhole]

end

/-- whole chunks, and one that is not full -/
structure Content.Chunked (c : Content) : Prop where
  chunks : ∃ full last, c.chunks = full ++ last ∧ (∀ x ∈ full, x.length = chunkLength) ∧ last.length ≤ 1 ∧
    last.flatten.length ≤ chunkLength
  total : c.total = c.data.length

/-- the chunks that a page touches hold the page -/
theorem Content.Chunked.slice {c : Content} (h : c.Chunked) {offset stop : Nat} (hlt : offset < stop)
    (hstop : stop ≤ c.total) :
    (((c.chunks.drop (offset / chunkLength)).take
        ((stop - 1) / chunkLength + 1 - offset / chunkLength)).flatten.drop (offset % chunkLength)).take
          (stop - offset) = (c.data.drop offset).take (stop - offset) := by
  obtain ⟨full, last, hchunks, hfull, hone, hlast⟩ := h.chunks
  have htotal : c.data.length = full.length * chunkLength + last.flatten.length := by
    rw [Content.data, hchunks, List.flatten_append, List.length_append, List.length_flatten,
      List.map_congr_left hfull, List.map_const', List.sum_replicate_nat]
  rw [h.total] at hstop
  have hsize : 0 < chunkLength := by decide
  have hdiv := Nat.div_add_mod' offset chunkLength
  have hmod := Nat.mod_lt offset hsize
  have hend := Nat.lt_div_mul_add (a := stop - 1) hsize
  have hfirst : offset / chunkLength ≤ full.length := by
    refine Nat.lt_succ_iff.1 (Nat.div_lt_of_lt_mul ?_)
    rw [Nat.mul_succ, Nat.mul_comm]
    omega
  have hmono : offset / chunkLength ≤ (stop - 1) / chunkLength := Nat.div_le_div_right (by omega)
  have hdrop : (c.chunks.drop (offset / chunkLength)).flatten
      = c.data.drop (offset / chunkLength * chunkLength) := by
    rw [Content.data, hchunks]
    exact drop_chunks hfull hfirst
  have hrest : c.chunks.drop (offset / chunkLength) = full.drop (offset / chunkLength) ++ last := by
    rw [hchunks, List.drop_append_of_le_length hfirst]
  have htake : ∀ k, ((c.chunks.drop (offset / chunkLength)).take k).flatten
      = (c.data.drop (offset / chunkLength * chunkLength)).take (k * chunkLength) := by
    intro k
    rw [← hdrop, hrest]
    exact take_chunks (fun x hx => hfull x (List.mem_of_mem_drop hx)) hlast hone k
  have hroom : stop - offset ≤ ((stop - 1) / chunkLength + 1 - offset / chunkLength) * chunkLength
      - offset % chunkLength := by
    rw [Nat.sub_mul, Nat.succ_mul]
    omega
  rw [htake, List.drop_take, List.take_take, List.drop_drop, hdiv, Nat.min_eq_left hroom]

/-- **A page is a part of the data**, decoded. -/
theorem page_eq {c : Content} (h : c.Chunked) {offset : Nat} (hoffset : offset ≤ c.total) (limit : Nat) :
    c.page offset limit = (decodeAscii ((c.data.drop offset).take limit)).map fun text =>
      (text, min c.total (offset + limit)) := by
  rw [Content.page, if_neg (Nat.not_lt.2 hoffset)]
  dsimp only
  have htotal := h.total
  by_cases hlt : offset < min c.total (offset + limit)
  · rw [if_pos hlt, if_pos hlt, h.slice hlt (Nat.min_le_left _ _)]
    congr 2
    rcases Nat.le_total c.total (offset + limit) with hle | hle
    · rw [Nat.min_eq_left hle, List.take_of_length_le (by rw [List.length_drop]; omega),
        List.take_of_length_le (by rw [List.length_drop]; omega)]
    · rw [Nat.min_eq_right hle, Nat.add_sub_cancel_left]
  · rw [if_neg hlt, List.drop_nil, List.take_nil]
    congr 2
    rcases Nat.eq_zero_or_pos limit with rfl | hpos
    · rw [List.take_zero]
    · rw [List.drop_of_length_le (by omega), List.take_nil]

/-! ## the pages -/

theorem decodeAscii_ok {b : Bytes} {s : List Char} (h : decodeAscii b = .ok s) :
    (∀ x ∈ b, x.toNat < 128) ∧ s = b.map fun x => Char.ofNat x.toNat := by
  rw [decodeAscii] at h
  split_ifs at h with hall
  rw [List.all_eq_true] at hall
  exact ⟨fun x hx => decide_eq_true_iff.1 (hall x hx), (Except.ok.inj h).symm⟩

theorem decodeAscii_of {b : Bytes} (h : ∀ x ∈ b, x.toNat < 128) :
    decodeAscii b = .ok (b.map fun x => Char.ofNat x.toNat) := by
  rw [decodeAscii, if_pos]
  rw [List.all_eq_true]
  exact fun x hx => decide_eq_true_iff.2 (h x hx)

/-- **The pages are the data**, from any offset on. -/
theorem pages_eq {c : Content} (h : c.Chunked) (hascii : ∀ x ∈ c.data, x.toNat < 128) {limits : Nat → Nat}
    (hlimits : ∀ n, 1 ≤ limits n) : ∀ (fuel n offset : Nat), offset ≤ c.total → c.total - offset < fuel →
      ∃ texts, c.pages limits fuel n offset = some (.ok texts) ∧
        texts.flatten = (c.data.drop offset).map fun x => Char.ofNat x.toNat := by
  intro fuel
  induction fuel with
  | zero => exact fun n offset _ hfuel => absurd hfuel (Nat.not_lt_zero _)
  | succ fuel ih =>
    intro n offset hoffset hfuel
    have htext : decodeAscii ((c.data.drop offset).take (limits n))
        = .ok (((c.data.drop offset).take (limits n)).map fun x => Char.ofNat x.toNat) :=
      decodeAscii_of fun x hx => hascii x (List.mem_of_mem_drop (List.mem_of_mem_take hx))
    have htotal := h.total
    have hlimit := hlimits n
    rw [Content.pages, page_eq h hoffset, htext]
    dsimp only [Except.map]
    by_cases hmore : min c.total (offset + limits n) < c.total
    · have hstop : min c.total (offset + limits n) = offset + limits n := by omega
      obtain ⟨texts, hpages, hflat⟩ := ih (n + 1) (offset + limits n) (by omega) (by omega)
      rw [if_pos hmore, hstop, hpages]
      refine ⟨_, rfl, ?_⟩
      rw [List.flatten_cons, hflat, ← List.map_append, ← List.drop_drop, List.take_append_drop]
    · rw [if_neg hmore]
      refine ⟨_, rfl, ?_⟩
      rw [List.flatten_singleton, List.take_of_length_le (by rw [List.length_drop]; omega)]

/-! ## what a builder has -/

theorem cutChunks_lengths (buffer : Bytes) :
    (∀ x ∈ (cutChunks buffer).1, x.length = chunkLength) ∧ (cutChunks buffer).2.length < chunkLength := by
  fun_induction cutChunks buffer with
  | case1 buffer hlong chunks rest hcut ih =>
    rw [hcut] at ih
    refine ⟨fun x hx => ?_, ih.2⟩
    rcases List.mem_cons.1 hx with rfl | hx
    · rw [List.length_take, Nat.min_eq_left hlong]
    · exact ih.1 x hx
  | case2 buffer hshort => exact ⟨fun x hx => (by cases hx), Nat.not_le.1 hshort⟩

/-- all chunks of a builder are full, and the buffer is shorter -/
structure Builder.Full (b : Builder) : Prop where
  chunks : ∀ x ∈ b.chunks, x.length = chunkLength
  buffer : b.buffer.length < chunkLength

theorem Builder.Full.added {maximum : Nat} {markers : List Bytes} {piece : Bytes} {b b' : Builder}
    (hb : b.Full) (h : b.add maximum markers piece = .ok b') : b'.Full := by
  obtain ⟨-, -, rfl⟩ := Builder.add_cases h
  obtain ⟨hchunks, hbuffer⟩ := cutChunks_lengths (b.buffer ++ piece)
  refine ⟨fun x hx => ?_, hbuffer⟩
  rcases List.mem_append.1 hx with hx | hx
  · exact hb.chunks x hx
  · exact hchunks x hx

theorem Builder.Full.finish {b : Builder} {data : Bytes} (hb : b.Full) (hdata : b.Has data) :
    b.finish.Chunked := by
  refine ⟨⟨b.chunks, if b.buffer = [] then [] else [b.buffer], rfl, hb.chunks, ?_, ?_⟩, ?_⟩
  · split_ifs <;> simp
  · have := hb.buffer
    split_ifs
    · exact Nat.zero_le _
    · rw [List.flatten_singleton]
      omega
  · rw [hdata.finish]
    exact hdata.total

/-- the calls, as those of the builder inside -/
theorem addAll_built {calls : List Data} {b b' : ContentBuilder} (h : b.addAll calls = .ok b')
    (hb : b.built.Full) : ∃ pieces, Data.join calls = .ok pieces.flatten ∧
      b.built.addAll b.maximum b.forbidden pieces = .ok b'.built ∧ b'.built.Full ∧
      b'.digested = b.digested ++ pieces.flatten := by
  induction calls generalizing b with
  | nil =>
    cases h
    exact ⟨[], rfl, rfl, hb, (List.append_nil _).symm⟩
  | cons d calls ih =>
    rw [ContentBuilder.addAll] at h
    cases hd : d.encode with
    | error e =>
      rw [ContentBuilder.add, hd] at h
      exact nomatch h
    | ok data =>
      cases hadd : b.built.add b.maximum b.forbidden data with
      | error e =>
        rw [ContentBuilder.add, hd] at h
        dsimp only at h
        rw [hadd] at h
        exact nomatch h
      | ok built =>
        have hcall : b.add d = .ok { b with built, digested := b.digested ++ data } := by
          rw [ContentBuilder.add, hd]
          dsimp only
          rw [hadd]
        rw [hcall] at h
        obtain ⟨pieces, hjoin, hall, hfull, hdigest⟩ := ih h (hb.added hadd)
        refine ⟨data :: pieces, ?_, ?_, hfull, ?_⟩
        · rw [Data.join, hd, hjoin]
          rfl
        · rw [Builder.addAll, hadd]
          exact hall
        · rw [hdigest, List.flatten_cons, List.append_assoc]

/-- **Nothing is lost and no marker gets through.**  After calls of `add` that all succeed, the content has
the length and the digest of the data, its pages are parts of the data, decoded as ASCII, and its lines are
those of the data. -/
theorem buffers_exact (maximum : Nat) (forbidden : List (List Char)) (serialized : Bool) (calls : List Data)
    {b : ContentBuilder} (h : (ContentBuilder.new maximum forbidden serialized).addAll calls = .ok b) :
    ∃ data, Data.join calls = .ok data ∧
      b.finish.content.total = data.length ∧ b.finish.sha256 = Sha256.hexdigest data ∧
      (∀ offset limit, offset ≤ b.finish.content.total → b.finish.content.page offset limit
        = (decodeAscii ((data.drop offset).take limit)).map fun text =>
            (text, min data.length (offset + limit))) ∧
      (∀ text, decodeAscii data = .ok text → ∀ limits : Nat → Nat, (∀ n, 1 ≤ limits n) →
        ∃ N, ∀ fuel, N ≤ fuel → ∃ texts, b.finish.content.pages limits fuel 0 0 = some (.ok texts) ∧
          texts.flatten = text) ∧
      Splits data b.finish.content.lines ∧
      ∀ m ∈ forbiddenMarkers forbidden serialized, ¬m <:+: data := by
  have hempty : Builder.empty.Full := ⟨fun x hx => (nomatch hx), by decide⟩
  obtain ⟨pieces, hjoin, hall, hfull, hdigest⟩ := addAll_built h hempty
  have hmarkers : Clean (forbiddenMarkers forbidden serialized) [] := by
    intro m hm hin
    obtain rfl := List.infix_nil.1 hin
    rcases List.mem_append.1 hm with hm | hm
    · obtain ⟨s, hs, hnil⟩ := List.mem_map.1 hm
      have hne : s ≠ [] := decide_eq_true_iff.1 (List.mem_filter.1 hs).2
      obtain ⟨c, cs, rfl⟩ := List.exists_cons_of_ne_nil hne
      obtain ⟨x, xs, hx, -⟩ := Utf8.utf8EncodeChar_cons c
      rw [Utf8.encode_cons, hx] at hnil
      exact nomatch hnil
    · exact absurd rfl (serializedMarkers_ok serialized [] hm).1
  obtain ⟨hhas, hclean, -⟩ := Builder.addAll_clean Builder.Has.empty List.drop_nil.symm hmarkers
    (Nat.zero_le _) hall
  rw [List.nil_append] at hhas hclean
  have hdata : b.finish.content.data = pieces.flatten := hhas.finish
  have hchunked : b.finish.content.Chunked := hfull.finish hhas
  have htotal : b.finish.content.total = pieces.flatten.length := hhas.total
  refine ⟨pieces.flatten, hjoin, htotal, congrArg Sha256.hexdigest hdigest, ?_, ?_, ?_, hclean⟩
  · intro offset limit hoffset
    rw [page_eq hchunked hoffset, hdata, htotal]
  · intro text htext limits hlimits
    obtain ⟨hascii, rfl⟩ := decodeAscii_ok htext
    rw [← hdata] at hascii
    refine ⟨b.finish.content.total + 1, fun fuel hfuel => ?_⟩
    obtain ⟨texts, hpages, hflat⟩ := pages_eq hchunked hascii hlimits fuel 0 0 (Nat.zero_le _) (by omega)
    rw [hdata, List.drop_zero] at hflat
    exact ⟨texts, hpages, hflat⟩
  · rw [Content.lines_eq, hdata]
    exact splits_linesOf _

/-- a builder takes a few bytes as they are -/
theorem add_short {maximum : Nat} {markers : List Bytes} {data : Bytes} (hmax : data.length ≤ maximum)
    (hclean : (markers.any fun m => Configuration.occurs m data) = false) (hshort : data.length < chunkLength) :
    Builder.empty.add maximum markers data
      = .ok ⟨data.length, data, [], data.drop (data.length - overlap markers)⟩ := by
  have hcut : cutChunks data = ([], data) := by rw [cutChunks, if_neg (Nat.not_le.2 hshort)]
  unfold Builder.add Builder.empty
  dsimp only
  rw [List.nil_append, if_neg (by omega), hclean, hcut, if_neg Bool.false_ne_true, Nat.zero_add]
  rfl

/-- two lines, read in pages of one character -/
theorem buffers_exact_lines : ∃ b, (ContentBuilder.new 9 ["secret".toList] true).addAll
      [.text "a\nb".toList] = .ok b ∧
    ∃ data, Data.join [.text "a\nb".toList] = .ok data ∧ b.finish.content.lines.flatten = data ∧
      ∃ N, ∀ fuel, N ≤ fuel → ∃ texts, b.finish.content.pages (fun _ => 1) fuel 0 0 = some (.ok texts) ∧
        texts.flatten = "a\nb".toList := by
  have hadd := @add_short 9 (forbiddenMarkers ["secret".toList] true) [97, 10, 98] (by decide)
    (by decide +kernel) (by decide)
  have hall : (ContentBuilder.new 9 ["secret".toList] true).addAll [.text "a\nb".toList]
      = .ok ⟨9, forbiddenMarkers ["secret".toList] true, ⟨3, [97, 10, 98], [],
        [97, 10, 98].drop ([97, 10, 98].length - overlap (forbiddenMarkers ["secret".toList] true))⟩,
        [97, 10, 98]⟩ := by
    have hcall : (Data.text "a\nb".toList).encode = .ok [97, 10, 98] := by decide +kernel
    rw [ContentBuilder.addAll, ContentBuilder.add, hcall]
    dsimp only [ContentBuilder.new]
    rw [hadd]
    rfl
  obtain ⟨data, hjoin, -, -, -, hpages, hlines, -⟩ := buffers_exact 9 ["secret".toList] true _ hall
  have hdata : data = [97, 10, 98] := by
    have hdone : Data.join [.text "a\nb".toList] = .ok [97, 10, 98] := by decide +kernel
    exact Except.ok.inj (hjoin.symm.trans hdone)
  refine ⟨_, hall, data, hjoin, hlines.flatten, ?_⟩
  subst hdata
  exact hpages _ (by decide +kernel) (fun _ => 1) fun _ => Nat.le_refl 1

/-- bytes that are not ASCII are taken, and no page of them can be read -/
theorem page_not_ascii : ∃ b, (ContentBuilder.new 9 [] true).addAll [.bytes [0xff]] = .ok b ∧
    0 ≤ b.finish.content.total ∧ b.finish.content.page 0 1 = .error .unicode := by
  have hadd := @add_short 9 (forbiddenMarkers [] true) [0xff] (by decide) (by decide +kernel) (by decide)
  refine ⟨⟨9, forbiddenMarkers [] true, ⟨1, [0xff], [],
    [0xff].drop ([0xff].length - overlap (forbiddenMarkers [] true))⟩, [0xff]⟩, ?_, Nat.zero_le _, ?_⟩
  · rw [ContentBuilder.addAll, ContentBuilder.add]
    dsimp only [Data.encode, ContentBuilder.new]
    rw [hadd]
    rfl
  · decide +kernel

end Netops.Filter
