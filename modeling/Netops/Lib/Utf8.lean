import Mathlib.Data.List.Basic

/-!
# UTF-8, one byte at a time

The incremental decoder keeps the unfinished sequence at the end of what it has read: how many bytes
it still lacks, the bits so far, and between which bounds the next byte must lie.  A byte outside the
bounds is refused at once.

* `decode`          the characters of the bytes read so far, and what is left unfinished;
* `decode_append`   the bytes may come in pieces;
* `decodeAll_encode`;
* `decodeReplace`   decoding with a sign in the place of what cannot be decoded;
* `cutBack`         from a place in the bytes back to the start of a character: `cutBack_encode`.
-/

namespace Utf8

/-- an unfinished sequence; `missing` is one less than the number of bytes it lacks -/
structure Pending where
  bits : Nat
  missing : Nat
  low : Nat
  high : Nat
  deriving DecidableEq, Repr

/-- the first byte of a sequence -/
def first (b : Nat) : Option (Option Char × Option Pending) :=
  if b < 0x80 then some (some (Char.ofNat b), none)
  else if b < 0xc2 then none
  else if b < 0xe0 then some (none, some ⟨b - 0xc0, 0, 0x80, 0xbf⟩)
  else if b < 0xf0 then
    some (none, some ⟨b - 0xe0, 1, if b = 0xe0 then 0xa0 else 0x80, if b = 0xed then 0x9f else 0xbf⟩)
  else if b < 0xf5 then
    some (none, some ⟨b - 0xf0, 2, if b = 0xf0 then 0x90 else 0x80, if b = 0xf4 then 0x8f else 0xbf⟩)
  else none

/-- a byte after the first one -/
def next (p : Pending) (b : Nat) : Option (Option Char × Option Pending) :=
  if p.low ≤ b ∧ b ≤ p.high then
    let bits := p.bits * 64 + (b - 0x80)
    if p.missing = 0 then some (some (Char.ofNat bits), none)
    else some (none, some ⟨bits, p.missing - 1, 0x80, 0xbf⟩)
  else none

def step : Option Pending → UInt8 → Option (Option Char × Option Pending)
  | none, b => first b.toNat
  | some p, b => next p b.toNat

/-- `decoder.decode(data, final=False)`; `none` where it raises -/
def decode : Option Pending → List UInt8 → Option (List Char × Option Pending)
  | p, [] => some ([], p)
  | p, b :: bs => do
    let (c, p) ← step p b
    let (cs, p) ← decode p bs
    return (c.toList ++ cs, p)

/-- `data.decode("utf-8", "strict")` -/
def decodeAll (bs : List UInt8) : Option (List Char) :=
  match decode none bs with
  | some (cs, none) => some cs
  | _ => none

/-- `text.encode()` -/
def encode (cs : List Char) : List UInt8 := cs.flatMap String.utf8EncodeChar

theorem encode_nil : encode [] = [] := rfl
theorem encode_cons (c : Char) (cs : List Char) :
    encode (c :: cs) = String.utf8EncodeChar c ++ encode cs := rfl
theorem encode_append (cs ds : List Char) : encode (cs ++ ds) = encode cs ++ encode ds :=
  List.flatMap_append

/-- the bytes may come in pieces -/
theorem decode_append (as bs : List UInt8) (p : Option Pending) :
    decode p (as ++ bs) = (decode p as).bind fun x =>
      (decode x.2 bs).map fun y => (x.1 ++ y.1, y.2) := by
  induction as generalizing p with
  | nil =>
    cases h : decode p bs <;> simp [decode, h]
  | cons a as ih =>
    rw [List.cons_append, decode, decode]
    cases hs : step p a with
    | none => rfl
    | some x =>
      obtain ⟨c, q⟩ := x
      simp only [Option.bind_eq_bind, Option.bind_some, ih]
      cases hd : decode q as with
      | none => rfl
      | some y =>
        obtain ⟨cs, r⟩ := y
        cases hb : decode r bs <;> simp [hb]

/-! ## characters -/

theorem toNat_ofNat_valid {n : Nat} (h : n.isValidChar) : (Char.ofNat n).toNat = n := by
  rw [Char.ofNat, dif_pos h]
  rfl

theorem ofNat_eq_of_toNat {n : Nat} {c : Char} (h : n = c.toNat) : Char.ofNat n = c := by
  rw [h, Char.ofNat_toNat]

theorem toNat_byte {n : Nat} (h : n < 256) : (UInt8.ofNat n).toNat = n := by
  rw [UInt8.toNat_ofNat', Nat.mod_eq_of_lt h]

theorem toNat_valid (c : Char) : c.toNat < 0xd800 ∨ 0xdfff < c.toNat ∧ c.toNat < 0x110000 := by
  have h := c.valid
  simp only [UInt32.isValidChar, Nat.isValidChar] at h
  exact h

theorem first_two {k : Nat} (h : 2 ≤ k ∧ k < 32) :
    first (k + 0xc0) = some (none, some ⟨k, 0, 0x80, 0xbf⟩) := by
  rw [first, if_neg (by omega), if_neg (by omega), if_pos (by omega), Nat.add_sub_cancel]

theorem first_three {k : Nat} (h : k < 16) : first (k + 0xe0)
    = some (none, some ⟨k, 1, if k = 0 then 0xa0 else 0x80, if k = 13 then 0x9f else 0xbf⟩) := by
  have h0 : k + 0xe0 = 0xe0 ↔ k = 0 := by omega
  have h1 : k + 0xe0 = 0xed ↔ k = 13 := by omega
  rw [first, if_neg (by omega), if_neg (by omega), if_neg (by omega), if_pos (by omega),
    Nat.add_sub_cancel, if_congr h0 rfl rfl, if_congr h1 rfl rfl]

theorem first_four {k : Nat} (h : k < 5) : first (k + 0xf0)
    = some (none, some ⟨k, 2, if k = 0 then 0x90 else 0x80, if k = 4 then 0x8f else 0xbf⟩) := by
  have h0 : k + 0xf0 = 0xf0 ↔ k = 0 := by omega
  have h1 : k + 0xf0 = 0xf4 ↔ k = 4 := by omega
  rw [first, if_neg (by omega), if_neg (by omega), if_neg (by omega), if_neg (by omega),
    if_pos (by omega), Nat.add_sub_cancel, if_congr h0 rfl rfl, if_congr h1 rfl rfl]

theorem next_last {bits low high x : Nat} {c : Char} (hx : low ≤ x + 0x80 ∧ x + 0x80 ≤ high)
    (hc : bits * 64 + x = c.toNat) : next ⟨bits, 0, low, high⟩ (x + 0x80) = some (some c, none) := by
  rw [next, if_pos hx, Nat.add_sub_cancel]
  simp only [ofNat_eq_of_toNat hc, if_true]

theorem next_more {bits missing low high x m : Nat} (hx : low ≤ x + 0x80 ∧ x + 0x80 ≤ high)
    (hm : bits * 64 + x = m) : next ⟨bits, missing + 1, low, high⟩ (x + 0x80)
      = some (none, some ⟨m, missing, 0x80, 0xbf⟩) := by
  rw [next, if_pos hx, Nat.add_sub_cancel]
  simp only [hm, Nat.add_sub_cancel, if_neg (Nat.succ_ne_zero missing)]

theorem decode_char {p q : Option Pending} {b : UInt8} {c : Char} (h : step p b = some (some c, q))
    (bs : List UInt8) : decode p (b :: bs) = (decode q bs).map fun x => (c :: x.1, x.2) := by
  rw [decode, h]
  cases hd : decode q bs <;> simp [hd]

theorem decode_part {p q : Option Pending} {b : UInt8} (h : step p b = some (none, q))
    (bs : List UInt8) : decode p (b :: bs) = decode q bs := by
  rw [decode, h]
  cases hd : decode q bs <;> simp [hd]

/-- a character is read back from its bytes -/
theorem decode_encodeChar (c : Char) (bs : List UInt8) :
    decode none (String.utf8EncodeChar c ++ bs) = (decode none bs).map fun x => (c :: x.1, x.2) := by
  have hval : c.val.toNat = c.toNat := rfl
  have hv := toNat_valid c
  unfold String.utf8EncodeChar
  simp only [hval]
  generalize hn : c.toNat = n at hv
  have hlast : ∀ low high, low ≤ n % 64 + 0x80 ∧ n % 64 + 0x80 ≤ high →
      step (some ⟨n / 64, 0, low, high⟩) (UInt8.ofNat (n % 64 + 128)) = some (some c, none) := by
    intro low high h
    rw [step, toNat_byte (by omega)]
    exact next_last h (by omega)
  split_ifs with h1 h2 h3
  · have hs : step none (UInt8.ofNat n) = some (some c, none) := by
      rw [step, toNat_byte (by omega), first, if_pos (by omega), ofNat_eq_of_toNat hn.symm]
    exact decode_char hs bs
  · have hs : step none (UInt8.ofNat (n / 64 % 32 + 192))
        = some (none, some ⟨n / 64, 0, 0x80, 0xbf⟩) := by
      rw [step, toNat_byte (by omega), Nat.mod_eq_of_lt (by omega)]
      exact first_two (by omega)
    exact (decode_part hs _).trans (decode_char (hlast _ _ (by omega)) bs)
  · have hs : step none (UInt8.ofNat (n / 4096 % 16 + 224))
        = some (none, some ⟨n / 4096, 1, if n / 4096 = 0 then 0xa0 else 0x80,
          if n / 4096 = 13 then 0x9f else 0xbf⟩) := by
      rw [step, toNat_byte (by omega), Nat.mod_eq_of_lt (by omega)]
      exact first_three (by omega)
    have ht : step (some ⟨n / 4096, 1, if n / 4096 = 0 then 0xa0 else 0x80,
          if n / 4096 = 13 then 0x9f else 0xbf⟩) (UInt8.ofNat (n / 64 % 64 + 128))
        = some (none, some ⟨n / 64, 0, 0x80, 0xbf⟩) := by
      rw [step, toNat_byte (by omega)]
      refine next_more ?_ (by omega)
      constructor <;> split_ifs <;> omega
    exact (decode_part hs _).trans ((decode_part ht _).trans (decode_char (hlast _ _ (by omega)) bs))
  · have hs : step none (UInt8.ofNat (n / 262144 % 8 + 240))
        = some (none, some ⟨n / 262144, 2, if n / 262144 = 0 then 0x90 else 0x80,
          if n / 262144 = 4 then 0x8f else 0xbf⟩) := by
      rw [step, toNat_byte (by omega), Nat.mod_eq_of_lt (by omega)]
      exact first_four (by omega)
    have ht : step (some ⟨n / 262144, 2, if n / 262144 = 0 then 0x90 else 0x80,
          if n / 262144 = 4 then 0x8f else 0xbf⟩) (UInt8.ofNat (n / 4096 % 64 + 128))
        = some (none, some ⟨n / 4096, 1, 0x80, 0xbf⟩) := by
      rw [step, toNat_byte (by omega)]
      refine next_more ?_ (by omega)
      constructor <;> split_ifs <;> omega
    have hu : step (some ⟨n / 4096, 1, 0x80, 0xbf⟩) (UInt8.ofNat (n / 64 % 64 + 128))
        = some (none, some ⟨n / 64, 0, 0x80, 0xbf⟩) := by
      rw [step, toNat_byte (by omega)]
      exact next_more (by omega) (by omega)
    exact (decode_part hs _).trans ((decode_part ht _).trans ((decode_part hu _).trans
      (decode_char (hlast _ _ (by omega)) bs)))

theorem decode_encode (cs : List Char) (bs : List UInt8) :
    decode none (encode cs ++ bs) = (decode none bs).map fun x => (cs ++ x.1, x.2) := by
  induction cs with
  | nil => cases h : decode none bs <;> simp [encode_nil, h]
  | cons c cs ih =>
    rw [encode_cons, List.append_assoc, decode_encodeChar, ih]
    cases decode none bs <;> rfl

theorem decodeAll_encode (cs : List Char) : decodeAll (encode cs) = some cs := by
  have h := decode_encode cs []
  rw [List.append_nil] at h
  simp [decodeAll, h, decode]

/-- the bytes of a character are its code or not ASCII -/
theorem mem_utf8EncodeChar {c : Char} {b : UInt8} (h : b ∈ String.utf8EncodeChar c) :
    b.toNat = c.toNat ∨ 128 ≤ b.toNat := by
  have hval : c.val.toNat = c.toNat := rfl
  have hv := toNat_valid c
  unfold String.utf8EncodeChar at h
  simp only [hval] at h
  generalize c.toNat = n at hv h
  split_ifs at h with h1 h2 h3
  · simp only [List.mem_singleton] at h
    rw [h, toNat_byte (by omega)]
    exact .inl rfl
  · simp only [List.mem_cons, List.not_mem_nil, or_false] at h
    rcases h with rfl | rfl <;> (rw [toNat_byte (by omega)]; omega)
  · simp only [List.mem_cons, List.not_mem_nil, or_false] at h
    rcases h with rfl | rfl | rfl <;> (rw [toNat_byte (by omega)]; omega)
  · simp only [List.mem_cons, List.not_mem_nil, or_false] at h
    rcases h with rfl | rfl | rfl | rfl <;> (rw [toNat_byte (by omega)]; omega)

/-! ## between two characters -/

/-- not the first byte of a character -/
def continues (b : UInt8) : Bool := b &&& 0xC0 = 0x80

/-- back to the start of a character, but not behind `offset` -/
def cutBack (bs : List UInt8) (offset : Nat) : Nat → Nat
  | 0 => 0
  | e+1 => if offset < e + 1 ∧ bs[e+1]?.any continues = true then cutBack bs offset e else e + 1

theorem continues_ofNat : ∀ n < 256, continues (UInt8.ofNat n) = (128 ≤ n && n < 192) := by
  decide +kernel

/-- only the first byte of a character does not continue one -/
theorem utf8EncodeChar_cons (c : Char) : ∃ b bs, String.utf8EncodeChar c = b :: bs ∧
    continues b = false ∧ (∀ x ∈ bs, continues x = true) ∧ bs.length ≤ 3 := by
  have hval : c.val.toNat = c.toNat := rfl
  have hv := toNat_valid c
  have hnot : ∀ n, n < 256 → n < 128 ∨ 192 ≤ n → continues (UInt8.ofNat n) = false := by
    intro n hn h
    rw [continues_ofNat n hn, Bool.and_eq_false_iff, decide_eq_false_iff_not, decide_eq_false_iff_not]
    omega
  have htail : ∀ n, continues (UInt8.ofNat (n % 64 + 128)) = true := by
    intro n
    rw [continues_ofNat _ (by omega), Bool.and_eq_true, decide_eq_true_iff, decide_eq_true_iff]
    omega
  unfold String.utf8EncodeChar
  simp only [hval]
  generalize c.toNat = n at hv
  split_ifs with h1 h2 h3
  · exact ⟨_, _, rfl, hnot n (by omega) (by omega), by simp, by simp⟩
  · refine ⟨_, _, rfl, hnot (n / 64 % 32 + 192) (by omega) (by omega), fun x hx => ?_, by simp⟩
    rw [List.mem_singleton.1 hx]
    exact htail n
  · refine ⟨_, _, rfl, hnot (n / 4096 % 16 + 224) (by omega) (by omega), fun x hx => ?_, by simp⟩
    simp only [List.mem_cons, List.not_mem_nil, or_false] at hx
    rcases hx with rfl | rfl
    · exact htail (n / 64)
    · exact htail n
  · refine ⟨_, _, rfl, hnot (n / 262144 % 8 + 240) (by omega) (by omega), fun x hx => ?_, by simp⟩
    simp only [List.mem_cons, List.not_mem_nil, or_false] at hx
    rcases hx with rfl | rfl | rfl
    · exact htail (n / 4096)
    · exact htail (n / 64)
    · exact htail n

/-- the character that a place is in -/
theorem exists_cut (cs : List Char) : ∀ e, e ≤ (encode cs).length → ∃ as bs, cs = as ++ bs ∧
    (encode as).length ≤ e ∧ e < (encode as).length + 4 ∧
    (encode cs)[(encode as).length]?.any continues = false ∧
    ∀ j, (encode as).length < j → j ≤ e → (encode cs)[j]?.any continues = true := by
  induction cs with
  | nil =>
    intro e he
    obtain rfl : e = 0 := Nat.le_zero.1 he
    exact ⟨[], [], rfl, Nat.le_refl _, by simp [encode_nil], rfl, fun j hj hj' => by
      rw [encode_nil, List.length_nil] at hj
      omega⟩
  | cons c cs ih =>
    intro e he
    obtain ⟨b, bs, hb, hfirst, hrest, hlen⟩ := utf8EncodeChar_cons c
    have henc : encode (c :: cs) = b :: (bs ++ encode cs) := by rw [encode_cons, hb, List.cons_append]
    rw [henc, List.length_cons, List.length_append] at he
    by_cases hin : e ≤ bs.length
    · -- inside the first character
      refine ⟨[], c :: cs, rfl, Nat.zero_le _, ?_, ?_, ?_⟩
      · rw [encode_nil, List.length_nil]
        omega
      · rw [henc, encode_nil, List.length_nil, List.getElem?_cons_zero, Option.any_some, hfirst]
      · intro j hj hje
        rw [encode_nil, List.length_nil] at hj
        obtain ⟨k, rfl⟩ := Nat.exists_eq_add_of_lt hj
        have hk : k < bs.length := by omega
        rw [henc, Nat.zero_add, List.getElem?_cons_succ, List.getElem?_append_left hk,
          List.getElem?_eq_getElem hk, Option.any_some]
        exact hrest _ (List.getElem_mem hk)
    · obtain ⟨as, ds, rfl, hle, hlt, hstop, hgo⟩ := ih (e - (bs.length + 1)) (by omega)
      have hsize : (encode (c :: as)).length = bs.length + 1 + (encode as).length := by
        rw [encode_cons, hb, List.length_append, List.length_cons]
      have hat : ∀ j, (encode (c :: (as ++ ds)))[bs.length + 1 + j]? = (encode (as ++ ds))[j]? := by
        intro j
        rw [henc, Nat.add_right_comm, List.getElem?_cons_succ,
          List.getElem?_append_right (Nat.le_add_right _ _), Nat.add_sub_cancel_left]
      refine ⟨c :: as, ds, rfl, by omega, by omega, ?_, ?_⟩
      · rw [hsize, hat]
        exact hstop
      · intro j hj hje
        rw [hsize] at hj
        obtain ⟨k, rfl⟩ := Nat.exists_eq_add_of_le (show bs.length + 1 ≤ j by omega)
        rw [hat]
        exact hgo k (by omega) (by omega)

theorem cutBack_eq {bs : List UInt8} {offset stop : Nat} (hoffset : offset ≤ stop)
    (hstop : bs[stop]?.any continues = false) :
    ∀ e, stop ≤ e → (∀ j, stop < j → j ≤ e → bs[j]?.any continues = true) →
      cutBack bs offset e = stop := by
  intro e
  induction e with
  | zero =>
    intro he _
    rw [cutBack]
    omega
  | succ e ih =>
    intro he hgo
    rw [cutBack]
    rcases Nat.lt_or_ge stop (e + 1) with hlt | hge
    · rw [if_pos ⟨by omega, hgo _ hlt (Nat.le_refl _)⟩]
      exact ih (by omega) fun j hj hj' => hgo j hj (by omega)
    · obtain rfl : stop = e + 1 := by omega
      rw [hstop, if_neg fun h => nomatch h.2]

/-- **Cutting a text.**  From a place at most three bytes later one comes back to the end of a character. -/
theorem cutBack_encode (as bs : List Char) {e : Nat} (hlow : (encode as).length ≤ e)
    (hhigh : e ≤ (encode (as ++ bs)).length) : ∃ ps rs, bs = ps ++ rs ∧
      cutBack (encode (as ++ bs)) (encode as).length e = (encode (as ++ ps)).length ∧
      (encode (as ++ ps)).length ≤ e ∧ e < (encode (as ++ ps)).length + 4 ∧
      (e = (encode (as ++ bs)).length → e = (encode (as ++ ps)).length) := by
  have hall : (encode (as ++ bs)).length = (encode as).length + (encode bs).length := by
    rw [encode_append, List.length_append]
  rw [hall] at hhigh
  obtain ⟨ps, rs, rfl, hle, hlt, hstop, hgo⟩ := exists_cut bs (e - (encode as).length) (by omega)
  have hat : ∀ j, (encode (as ++ (ps ++ rs)))[(encode as).length + j]? = (encode (ps ++ rs))[j]? := by
    intro j
    rw [encode_append, List.getElem?_append_right (Nat.le_add_right _ _), Nat.add_sub_cancel_left]
  have hsize : (encode (as ++ ps)).length = (encode as).length + (encode ps).length := by
    rw [encode_append, List.length_append]
  refine ⟨ps, rs, rfl, ?_, by omega, by omega, fun he => ?_⟩
  · rw [hsize]
    refine cutBack_eq (Nat.le_add_right _ _) ?_ e (by omega) ?_
    · rw [hat]
      exact hstop
    · intro j hj hje
      obtain ⟨k, rfl⟩ := Nat.exists_eq_add_of_le (show (encode as).length ≤ j by omega)
      rw [hat]
      exact hgo k (by omega) (by omega)
  · -- no byte at the end could lead back
    by_contra hne
    have hbyte := hgo (encode (ps ++ rs)).length (by omega) (by omega)
    rw [List.getElem?_eq_none (Nat.le_refl _)] at hbyte
    exact nomatch hbyte

/-! ## with replacements -/

/-- U+FFFD -/
def replacementChar : Char := Char.ofNat 0xfffd

/-- `data.decode("utf-8", "replace")`: an unfinished sequence, or a byte that starts none, gives one sign -/
def decodeReplace : Option Pending → List UInt8 → List Char
  | none, [] => []
  | some _, [] => [replacementChar]
  | p, b :: bs =>
    match step p b with
    | some (c, q) => c.toList ++ decodeReplace q bs
    | none =>
      match p with
      | none => replacementChar :: decodeReplace none bs
      | some _ =>
        match first b.toNat with
        | some (c, q) => replacementChar :: (c.toList ++ decodeReplace q bs)
        | none => replacementChar :: replacementChar :: decodeReplace none bs

/-- what can be decoded is decoded -/
theorem decodeReplace_append {as : List UInt8} : ∀ {p q : Option Pending} {cs : List Char},
    decode p as = some (cs, q) → ∀ bs, decodeReplace p (as ++ bs) = cs ++ decodeReplace q bs := by
  induction as with
  | nil =>
    intro p q cs h bs
    obtain ⟨rfl, rfl⟩ := Prod.mk.inj (Option.some.inj h)
    rfl
  | cons a as ih =>
    intro p q cs h bs
    rw [decode] at h
    cases hs : step p a with
    | none => rw [hs] at h; exact nomatch h
    | some x =>
      obtain ⟨c, r⟩ := x
      rw [hs] at h
      cases hd : decode r as with
      | none => simp [hd] at h
      | some y =>
        obtain ⟨ds, u⟩ := y
        have heq : (c.toList ++ ds, u) = (cs, q) := by simpa [hd] using h
        obtain ⟨rfl, rfl⟩ := Prod.mk.inj heq
        have hstep : decodeReplace p (a :: (as ++ bs)) = c.toList ++ decodeReplace r (as ++ bs) := by
          cases p <;> simp only [decodeReplace, hs]
        rw [List.cons_append, hstep, ih hd bs, List.append_assoc]

theorem decodeReplace_encode (cs : List Char) (bs : List UInt8) :
    decodeReplace none (encode cs ++ bs) = cs ++ decodeReplace none bs := by
  refine decodeReplace_append ?_ bs
  have h := decode_encode cs []
  rw [List.append_nil] at h
  rw [h]
  simp [decode]

end Utf8
