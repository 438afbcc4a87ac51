import Mathlib
import Netops.Syslog.Parts

/-!
# What is encoded is decoded

* `Piece`, `partBody_pieces`   the body of a part, piece by piece: it is compact ASCII;
* `selectedPart_own`, `selectedPart_other`   what the decoder reads in a part;
* `Collected raw recordId d`   the invariant of the decoder: what it has is what was sent;
* `Collected.step`, `Collected.steps`        every message keeps it;
* `decode_encode`              the round trip.
-/

namespace Netops.Syslog

/-! ## texts -/

theorem scalar_toNat (c : Char) : Json.Scalar c.toNat := by
  rcases c.valid with h | ⟨h1, h2⟩
  · exact .inl h
  · exact .inr ⟨h1, h2⟩

theorem scalar_points {s : List Char} : ∀ p ∈ s.map Char.toNat, Json.Scalar p := by
  intro p hp
  obtain ⟨c, -, rfl⟩ := List.mem_map.mp hp
  exact scalar_toNat c

/-- a character that stands for itself in a string literal -/
def Plain (c : Char) : Prop := 32 ≤ c.toNat ∧ c.toNat ≤ 126 ∧ c ≠ '"' ∧ c ≠ '\\'

instance (c : Char) : Decidable (Plain c) := inferInstanceAs (Decidable (_ ∧ _))

theorem escape_plain {c : Char} (h : Plain c) : Json.escape c.toNat = [c] := by
  obtain ⟨h1, h2, h3, h4⟩ := h
  have hne : ∀ c' : Char, c ≠ c' → c.toNat ≠ c'.toNat := fun c' hc he => hc (Char.toNat_inj.mp he)
  have hq : c.toNat ≠ 34 := hne '"' h3
  have hb : c.toNat ≠ 92 := hne '\\' h4
  unfold Json.escape
  rw [if_neg hq, if_neg hb, if_neg (by omega), if_neg (by omega), if_neg (by omega),
    if_neg (by omega), if_neg (by omega), if_pos ⟨h1, h2⟩, Char.ofNat_toNat]

theorem quote_plain {s : List Char} (h : ∀ c ∈ s, Plain c) :
    Json.quote Json.escape (s.map Char.toNat) = '"' :: s ++ ['"'] := by
  have hflat : (s.map Char.toNat).flatMap Json.escape = s := by
    rw [List.flatMap_map]
    induction s with
    | nil => rfl
    | cons c s ih =>
      rw [List.flatMap_cons, escape_plain (h c (.head _)), ih fun d hd => h d (.tail _ hd)]
      rfl
  rw [Json.quote, hflat]

/-! ## pieces -/

/-- a piece of a compact text: a string, or characters outside strings -/
inductive Piece where
  | bare (cs : List Char)
  | quoted (cs : List Char)

namespace Piece

def text : Piece → List Char
  | .bare cs => cs
  | .quoted cs => '"' :: cs ++ ['"']

def Ok : Piece → Prop
  | .bare cs => ∀ c ∈ cs, Plain c ∧ c ≠ ' '
  | .quoted cs => ∀ c ∈ cs, Plain c

end Piece

theorem ofNat_toNat {c : Char} (h : c.toNat < 128) : (UInt8.ofNat c.toNat).toNat = c.toNat := by
  rw [UInt8.toNat_ofNat']
  exact Nat.mod_eq_of_lt (by omega)

theorem byte_ne {c : Char} (h : c.toNat < 128) {b : UInt8} (hb : c.toNat ≠ b.toNat) :
    UInt8.ofNat c.toNat ≠ b := by
  intro he
  exact hb (by rw [← he, ofNat_toNat h])

theorem Plain.byte {c : Char} (h : Plain c) :
    UInt8.ofNat c.toNat ≠ 34 ∧ UInt8.ofNat c.toNat ≠ 92 ∧ UInt8.ofNat c.toNat ≠ 9 ∧
      UInt8.ofNat c.toNat ≠ 13 ∧ UInt8.ofNat c.toNat ≠ 10 := by
  obtain ⟨h1, h2, h3, h4⟩ := h
  have hne : ∀ c' : Char, c ≠ c' → c.toNat ≠ c'.toNat := fun c' hc he => hc (Char.toNat_inj.mp he)
  have hq : c.toNat ≠ 34 := hne '"' h3
  have hb : c.toNat ≠ 92 := hne '\\' h4
  have hlt : c.toNat < 128 := by omega
  exact ⟨byte_ne hlt hq, byte_ne hlt hb, byte_ne hlt (b := 9) (by show _ ≠ 9; omega),
    byte_ne hlt (b := 13) (by show _ ≠ 13; omega), byte_ne hlt (b := 10) (by show _ ≠ 10; omega)⟩

theorem compactFrom_quoted {cs : List Char} (h : ∀ c ∈ cs, Plain c) (bs : Bytes) :
    compactFrom true false (ascii cs ++ 34 :: bs) = compactFrom false false bs := by
  induction cs with
  | nil => rfl
  | cons c cs ih =>
    obtain ⟨h1, h2, -⟩ := (h c (.head _)).byte
    show compactFrom true false (UInt8.ofNat c.toNat :: (ascii cs ++ 34 :: bs)) = _
    rw [compactFrom, if_pos rfl, if_neg (by decide), if_neg h2, if_neg h1]
    exact ih fun d hd => h d (.tail _ hd)

theorem compactFrom_bare {cs : List Char} (h : ∀ c ∈ cs, Plain c ∧ c ≠ ' ') (bs : Bytes) :
    compactFrom false false (ascii cs ++ bs) = compactFrom false false bs := by
  induction cs with
  | nil => rfl
  | cons c cs ih =>
    obtain ⟨hp, hs⟩ := h c (.head _)
    obtain ⟨h1, -, h3, h4, h5⟩ := hp.byte
    have h6 : UInt8.ofNat c.toNat ≠ 32 := byte_ne (by have := hp.2.1; omega)
      fun he => hs (Char.toNat_inj.mp he)
    show compactFrom false false (UInt8.ofNat c.toNat :: (ascii cs ++ bs)) = _
    rw [compactFrom, if_neg (by decide), if_neg h1, if_neg (by simp [h3, h4, h5, h6])]
    exact ih fun d hd => h d (.tail _ hd)

/-- a text of such pieces is compact -/
theorem compact_pieces {ps : List Piece} (h : ∀ x ∈ ps, x.Ok) :
    compact (ascii (ps.flatMap Piece.text)) = true := by
  unfold compact
  induction ps with
  | nil => rfl
  | cons x ps ih =>
    have hrest := ih fun y hy => h y (.tail _ hy)
    have hx := h x (.head _)
    rw [List.flatMap_cons, ascii, List.map_append]
    cases x with
    | bare cs => exact (compactFrom_bare hx _).trans hrest
    | quoted cs =>
      have hsplit : (Piece.quoted cs).text.map (fun c => UInt8.ofNat c.toNat)
          = 34 :: (ascii cs ++ [34]) := by
        simp [Piece.text, ascii]
      rw [hsplit]
      show compactFrom false false (34 :: (ascii cs ++ [34] ++ _)) = true
      rw [List.append_assoc, compactFrom, if_neg (by decide), if_pos rfl]
      exact (compactFrom_quoted hx _).trans hrest

theorem pieces_ascii {ps : List Piece} (h : ∀ x ∈ ps, x.Ok) :
    ∀ c ∈ ps.flatMap Piece.text, c.toNat < 128 := by
  intro c hc
  obtain ⟨x, hx, hc⟩ := List.mem_flatMap.mp hc
  have hok := h x hx
  cases x with
  | bare cs =>
    have hp := (hok c hc).1.2.1
    omega
  | quoted cs =>
    have hmem : c = '"' ∨ c ∈ cs := by simpa [Piece.text, or_comm] using hc
    rcases hmem with rfl | hmem
    · decide
    · have hp := (hok c hmem).2.1
      omega

/-! ## ASCII texts -/

theorem decodeUtf8_ascii {cs : List Char} (h : ∀ c ∈ cs, c.toNat < 128) :
    decodeUtf8 (ascii cs) = some cs := by
  have hflat : cs.flatMap String.utf8EncodeChar = ascii cs := by
    induction cs with
    | nil => rfl
    | cons c cs ih =>
      have hc : String.utf8EncodeChar c = [UInt8.ofNat c.toNat] :=
        if_pos (Nat.lt_succ_iff.mp (h c (.head _)))
      rw [List.flatMap_cons, hc, ih fun d hd => h d (.tail _ hd)]
      rfl
  have hencode : ByteArray.mk (ascii cs).toArray = cs.utf8Encode := by
    apply ByteArray.ext
    rw [List.utf8Encode, hflat, List.data_toByteArray]
  rw [decodeUtf8, hencode, List.utf8Decode?_utf8Encode]
  rfl

theorem ascii_small {cs : List Char} (h : ∀ c ∈ cs, c.toNat < 128) :
    (ascii cs).all (· < 128) = true := by
  rw [List.all_eq_true]
  intro b hb
  obtain ⟨c, hc, rfl⟩ := List.mem_map.mp hb
  have hlt := h c hc
  rw [decide_eq_true_eq, UInt8.lt_iff_toNat_lt, ofNat_toNat hlt]
  exact hlt

/-! ## the body of a part -/

section
variable (raw : Bytes) (recordId : String) (part : Nat)

/-- the fields of a part, in the order of their keys -/
def partFields : List (List Nat × Json.Value) :=
  [(points "data_b64", .str ((Base64.encode (chunk raw part)).map Char.toNat)),
    (points "part", .int part), (points "parts", .int (partCount raw)),
    (points "record_id", .str (points recordId)), (points "schema", .str (points schema)),
    (points "sha256", .str ((Sha256.hexdigest raw).map Char.toNat))]

theorem sorted_partRow : Json.sorted (partRow raw recordId part)
    = .obj (partFields raw recordId part) := rfl

/-- the body, piece by piece -/
def partPieces : List Piece :=
  [.bare ['{'], .quoted "data_b64".toList, .bare [':'], .quoted (Base64.encode (chunk raw part)),
    .bare [','], .quoted "part".toList, .bare [':'], .bare (Nat.toDigits 10 part),
    .bare [','], .quoted "parts".toList, .bare [':'], .bare (Nat.toDigits 10 (partCount raw)),
    .bare [','], .quoted "record_id".toList, .bare [':'], .quoted recordId.toList,
    .bare [','], .quoted "schema".toList, .bare [':'], .quoted schema.toList,
    .bare [','], .quoted "sha256".toList, .bare [':'], .quoted (Sha256.hexdigest raw), .bare ['}']]

end

section
variable {raw : Bytes} {recordId : String} {part : Nat}

/-- what holds of the characters below `b` one by one holds of them all -/
theorem char_forall_lt {b : Nat} {P : Char → Prop} (h : ∀ n < b, P (Char.ofNat n)) (c : Char)
    (hc : c.toNat < b) : P c := by
  have hn := h c.toNat hc
  rwa [Char.ofNat_toNat] at hn

theorem toNat_le {c d : Char} (h : c ≤ d) : c.toNat ≤ d.toNat := h

theorem plain_of_lowerHex {c : Char} (h : Sha256.lowerHex c = true) : Plain c ∧ c ≠ ' ' := by
  have hlt : c.toNat < 128 := by
    simp only [Sha256.lowerHex, Bool.or_eq_true, Bool.and_eq_true, decide_eq_true_eq] at h
    rcases h with ⟨-, h⟩ | ⟨-, h⟩ <;> exact Nat.lt_of_le_of_lt (toNat_le h) (by decide)
  exact char_forall_lt (P := fun c => Sha256.lowerHex c = true → Plain c ∧ c ≠ ' ') (by decide) c hlt h

theorem plain_of_digit {c : Char} (h : c.isDigit = true) : Plain c ∧ c ≠ ' ' := by
  refine plain_of_lowerHex ?_
  simp only [Char.isDigit, Bool.and_eq_true, decide_eq_true_eq] at h
  simp only [Sha256.lowerHex, Bool.or_eq_true, Bool.and_eq_true, decide_eq_true_eq]
  exact .inl h

theorem plain_of_alphabet {c : Char} (h : Base64.alphabet c = true) : Plain c := by
  have hlt : c.toNat < 128 := by
    simp only [Base64.alphabet, Char.isAlphanum, Char.isAlpha, Char.isUpper, Char.isLower, Char.isDigit,
      Bool.or_eq_true, Bool.and_eq_true, decide_eq_true_eq] at h
    rcases h with ((((⟨-, h⟩ | ⟨-, h⟩) | ⟨-, h⟩) | rfl) | rfl) | rfl
    · exact Nat.lt_of_le_of_lt (m := 90) h (by decide)
    · exact Nat.lt_of_le_of_lt (m := 122) h (by decide)
    · exact Nat.lt_of_le_of_lt (m := 57) h (by decide)
    all_goals decide
  exact char_forall_lt (P := fun c => Base64.alphabet c = true → Plain c) (by decide) c hlt h

theorem plain_recordId (hid : isId recordId = true) : ∀ c ∈ recordId.toList, Plain c := by
  intro c hc
  simp only [isId, Bool.and_eq_true, List.all_eq_true] at hid
  exact (plain_of_lowerHex (hid.2 c hc)).1

theorem plain_of_all {s : List Char} (h : s.all (fun c => decide (Plain c)) = true) : ∀ c ∈ s, Plain c :=
  List.all_iff_forall_prop.1 h

theorem dumps_partFields (hid : isId recordId = true) :
    Json.dumps (.obj (partFields raw recordId part))
      = (partPieces raw recordId part).flatMap Piece.text := by
  have h1 := quote_plain (s := Base64.encode (chunk raw part)) fun c hc =>
    plain_of_alphabet (Base64.encode_alphabet _ c hc)
  have h3 := quote_plain (s := Sha256.hexdigest raw) fun c hc =>
    (plain_of_lowerHex (Sha256.hexdigest_lowerHex hc)).1
  have hkey : ∀ s : String, (∀ c ∈ s.toList, Plain c) →
      Json.quote Json.escape (points s) = '"' :: s.toList ++ ['"'] := fun s hs => quote_plain hs
  simp only [partFields, Json.dumps, Json.write, Json.writeFields, Json.writeMoreFields, Json.intText, h1, h3,
    hkey "data_b64" (plain_of_all rfl), hkey "part" (plain_of_all rfl), hkey "parts" (plain_of_all rfl),
    hkey "record_id" (plain_of_all rfl), hkey "schema" (plain_of_all rfl), hkey "sha256" (plain_of_all rfl),
    hkey schema (plain_of_all rfl), hkey recordId (plain_recordId hid)]
  simp [partPieces, Piece.text]

theorem partPieces_ok (hid : isId recordId = true) : ∀ x ∈ partPieces raw recordId part, x.Ok := by
  have hdigits : ∀ n, (Piece.bare (Nat.toDigits 10 n)).Ok := fun n c hc =>
    plain_of_digit (Nat.isDigit_of_mem_toDigits (by decide) (by decide) hc)
  have hkey : ∀ s : String, (∀ c ∈ s.toList, Plain c) → (Piece.quoted s.toList).Ok := fun _ hs => hs
  have hbare : ∀ c : Char, Plain c ∧ c ≠ ' ' → (Piece.bare [c]).Ok := fun c hc d hd => by
    rw [List.mem_singleton.mp hd]
    exact hc
  have hdata : (Piece.quoted (Base64.encode (chunk raw part))).Ok := fun c hc =>
    plain_of_alphabet (Base64.encode_alphabet _ c hc)
  have hsha : (Piece.quoted (Sha256.hexdigest raw)).Ok := fun c hc =>
    (plain_of_lowerHex (Sha256.hexdigest_lowerHex hc)).1
  have hcolon := hbare ':' (by decide)
  have hcomma := hbare ',' (by decide)
  simp only [partPieces, List.forall_mem_cons]
  exact ⟨hbare '{' (by decide), hkey _ (plain_of_all rfl), hcolon, hdata, hcomma, hkey _ (plain_of_all rfl), hcolon,
    hdigits _, hcomma, hkey _ (plain_of_all rfl), hcolon, hdigits _, hcomma, hkey _ (plain_of_all rfl), hcolon,
    hkey _ (plain_recordId hid), hcomma, hkey _ (plain_of_all rfl), hcolon, hkey _ (plain_of_all rfl), hcomma,
    hkey _ (plain_of_all rfl), hcolon, hsha, hbare '}' (by decide), fun _ h => nomatch h⟩

theorem partBody_eq (hid : isId recordId = true) : partBody raw recordId part
    = ascii ((partPieces raw recordId part).flatMap Piece.text) := by
  rw [partBody, sorted_partRow, dumps_partFields hid]

theorem isId_length (hid : isId recordId = true) : recordId.toList.length = 32 := by
  simp only [isId, Bool.and_eq_true, decide_eq_true_eq] at hid
  exact hid.1

theorem chunk_length : (chunk raw part).length = min chunkBytes (raw.length - part * chunkBytes) := by
  simp [chunk]

theorem length_toDigits {n : Nat} (h : n ≤ maxParts) : (Nat.toDigits 10 n).length ≤ 4 :=
  (Nat.length_toDigits_le_iff (by decide) (by decide)).mpr (Nat.lt_of_le_of_lt h (by decide))

theorem key_lengths : ("data_b64".toList.length = 8 ∧ "part".toList.length = 4 ∧
    "parts".toList.length = 5 ∧ "record_id".toList.length = 9) ∧ "schema".toList.length = 6 ∧
    "sha256".toList.length = 6 ∧ schema.toList.length = 20 := by decide

theorem flatMap_text_length (ps : List Piece) :
    (ps.flatMap Piece.text).length = (ps.map fun x => x.text.length).sum := by
  rw [List.length_flatMap]

theorem partBody_length_eq (hid : isId recordId = true) : (partBody raw recordId part).length
    = (Base64.encode (chunk raw part)).length + (Nat.toDigits 10 part).length
      + (Nat.toDigits 10 (partCount raw)).length + recordId.toList.length
      + (Sha256.hexdigest raw).length + 91 := by
  rw [partBody_eq hid, ascii, List.length_map, flatMap_text_length]
  simp only [partPieces, List.map_cons, List.map_nil, List.sum_cons, List.sum_nil, Piece.text,
    List.length_append, List.length_cons, List.length_nil, key_lengths.1, key_lengths.2]
  clear hid
  omega

/-- the body of a part is short -/
theorem partBody_length (hid : isId recordId = true) (hpart : part ≤ maxParts)
    (hparts : partCount raw ≤ maxParts) : (partBody raw recordId part).length ≤ 1563 := by
  have hdata : (Base64.encode (chunk raw part)).length ≤ 1368 := by
    have hchunk : (chunk raw part).length ≤ 1024 := by
      rw [chunk_length]
      exact Nat.min_le_left _ _
    rw [Base64.encode_length]
    omega
  have h1 := length_toDigits hpart
  have h2 := length_toDigits hparts
  rw [partBody_length_eq hid, isId_length hid, Sha256.hexdigest_length]
  omega

theorem partFields_printable (hpart : part ≤ maxParts) (hparts : partCount raw ≤ maxParts)
    {depth : Nat} (hd : 1 ≤ depth) :
    (Json.Value.obj (partFields raw recordId part)).Printable depth := by
  obtain ⟨d, rfl⟩ : ∃ d, depth = d + 1 := ⟨depth - 1, by omega⟩
  have hint : ∀ n ≤ maxParts, (Nat.toDigits 10 ((n : Int).natAbs)).length ≤ Json.maxDigits :=
    fun n hn => Nat.le_trans (length_toDigits hn) (by decide)
  have hstr : ∀ (s : List Char) d, (Json.Value.str (s.map Char.toNat)).Printable d :=
    fun s d => by cases d <;> exact scalar_points
  have hnum : ∀ n ≤ maxParts, ∀ d, (Json.Value.int (n : Int)).Printable d :=
    fun n hn d => by cases d <;> exact hint n hn
  exact ⟨scalar_points, hstr _ d, scalar_points, hnum _ hpart d, scalar_points, hnum _ hparts d,
    scalar_points, hstr _ d, scalar_points, hstr _ d, scalar_points, hstr _ d, trivial⟩

/-- what `json.loads` finds in a part -/
theorem loads_partBody (hid : isId recordId = true) (hpart : part ≤ maxParts)
    (hparts : partCount raw ≤ maxParts) {depth : Nat} (hd : 1 ≤ depth) :
    (decodeUtf8 (partBody raw recordId part)).bind (Json.loads depth)
      = some (.obj (partFields raw recordId part)) := by
  rw [partBody_eq hid, decodeUtf8_ascii (pieces_ascii (partPieces_ok hid)), ← dumps_partFields hid]
  exact Json.loads_dumps (partFields_printable hpart hparts hd)

/-! ## what the decoder reads -/

theorem points_inj {a b : String} (h : points a = points b) : a = b := by
  have hlist := List.map_injective_iff.mpr (fun c d hc => Char.toNat_inj.mp hc) h
  exact String.toList_inj.mp hlist

theorem filter_recordId : (partFields raw recordId part).filter (fun f => f.1 = points "record_id")
    = [(points "record_id", .str (points recordId))] := rfl

theorem selectedPart_other {other : String} (hid : isId other = true) (hne : other ≠ recordId)
    (hpart : part ≤ maxParts) (hparts : partCount raw ≤ maxParts) {depth : Nat} (hd : 1 ≤ depth) :
    selectedPart depth (partBody raw other part) recordId = .ok none := by
  unfold selectedPart
  rw [loads_partBody hid hpart hparts hd]
  dsimp only
  rw [filter_recordId]
  dsimp only
  rw [if_pos fun he => hne (points_inj he)]

/-- the row of a part, as it is read -/
def ownRow (raw : Bytes) (recordId : String) (part : Nat) : Row :=
  ⟨points schema, points recordId, part, partCount raw, (Sha256.hexdigest raw).map Char.toNat,
    (Base64.encode (chunk raw part)).map Char.toNat⟩

theorem readBase64_encode (bs : Bytes) : readBase64 ((Base64.encode bs).map Char.toNat) = some bs := by
  have hsmall : ((Base64.encode bs).map Char.toNat).all (· < 128) = true := by
    rw [List.all_eq_true]
    intro n hn
    obtain ⟨c, hc, rfl⟩ := List.mem_map.mp hn
    have hp := (plain_of_alphabet (Base64.encode_alphabet _ c hc)).2.1
    exact decide_eq_true (by omega)
  have hback : ((Base64.encode bs).map Char.toNat).map Char.ofNat = Base64.encode bs := by
    rw [List.map_map]
    exact (List.map_congr_left fun c _ => Char.ofNat_toNat c).trans (List.map_id _)
  rw [readBase64, if_pos hsmall, hback, Base64.decode_encode]

theorem isSha_hexdigest : isSha ((Sha256.hexdigest raw).map Char.toNat) = true := by
  simp only [isSha, List.length_map, Sha256.hexdigest_length, decide_true, Bool.true_and, List.all_eq_true]
  intro n hn
  obtain ⟨c, hc, rfl⟩ := List.mem_map.mp hn
  have hhex := Sha256.hexdigest_lowerHex hc
  have hp := (plain_of_lowerHex hhex).1.2.1
  rw [Char.ofNat_toNat, hhex, Bool.and_true]
  exact decide_eq_true (by omega)

theorem readNumbers_partFields (hpart : part < partCount raw) (hparts : partCount raw ≤ maxParts) :
    readNumbers (partFields raw recordId part) = some (part, partCount raw) := by
  show (if 1 ≤ (partCount raw : Int) ∧ (partCount raw : Int) ≤ maxParts ∧ 0 ≤ (part : Int) ∧
    (part : Int) < partCount raw then _ else _) = _
  rw [if_pos (by omega)]
  rfl

theorem lt_partCount : part < partCount raw ↔ part * chunkBytes < raw.length := by
  unfold partCount chunkBytes
  omega

theorem readRow_partFields (hpart : part < partCount raw) (hparts : partCount raw ≤ maxParts) :
    readRow recordId (partFields raw recordId part)
      = .ok (ownRow raw recordId part, chunk raw part) := by
  have hkeys : ((partFields raw recordId part).map (·.1)).Perm fieldNames := by
    show (["data_b64", "part", "parts", "record_id", "schema", "sha256"].map points).Perm fieldNames
    decide
  have hlength : ¬ (part ≠ partCount raw - 1 ∧ (chunk raw part).length ≠ chunkBytes ∨
      part = partCount raw - 1 ∧ ¬ (1 ≤ (chunk raw part).length ∧
        (chunk raw part).length ≤ chunkBytes)) := by
    have hlt := lt_partCount.mp hpart
    rw [chunk_length]
    unfold partCount at hpart ⊢
    unfold chunkBytes at hlt hpart ⊢
    omega
  have hschema : field (partFields raw recordId part) "schema" = some (.str (points schema)) := rfl
  have hsha : field (partFields raw recordId part) "sha256"
    = some (.str ((Sha256.hexdigest raw).map Char.toNat)) := rfl
  have hdata : field (partFields raw recordId part) "data_b64"
    = some (.str ((Base64.encode (chunk raw part)).map Char.toNat)) := rfl
  unfold readRow
  rw [if_neg (by simp only [not_or, not_not]; exact ⟨rfl, hkeys⟩)]
  simp only [hschema, readNumbers_partFields hpart hparts, hsha, hdata, isSha_hexdigest,
    readBase64_encode, ne_eq, not_true_eq_false, if_false, Bool.true_eq_false, hlength]
  rfl

theorem selectedPart_own (hid : isId recordId = true) (hpart : part < partCount raw)
    (hparts : partCount raw ≤ maxParts) {depth : Nat} (hd : 1 ≤ depth) :
    selectedPart depth (partBody raw recordId part) recordId
      = .ok (some (ownRow raw recordId part, chunk raw part)) := by
  have hle : part ≤ maxParts := by omega
  have hascii : (partBody raw recordId part).all (· < 128) = true := by
    rw [partBody_eq hid]
    exact ascii_small (pieces_ascii (partPieces_ok hid))
  have hcompact : compact (partBody raw recordId part) = true := by
    rw [partBody_eq hid]
    exact compact_pieces (partPieces_ok hid)
  have hlength : (partBody raw recordId part).length ≤ 1563 := partBody_length hid hle hparts
  unfold selectedPart
  rw [loads_partBody hid hle hparts hd]
  dsimp only
  rw [filter_recordId]
  dsimp only
  rw [if_neg (not_not.mpr rfl), if_neg (not_not.mpr hascii), if_neg, readRow_partFields hpart hparts]
  · rfl
  · rw [hcompact]
    simp only [maxMessageBytes, Bool.true_eq_false, or_false]
    omega

/-! ## putting the parts together -/

theorem flatMap_chunk (raw : Bytes) (n : Nat) :
    (List.range n).flatMap (chunk raw) = raw.take (n * chunkBytes) := by
  induction n with
  | zero => simp
  | succ n ih =>
    rw [List.range_succ, List.flatMap_append, ih, List.flatMap_singleton, Nat.succ_mul, List.take_add]
    rfl

theorem chunks_join (raw : Bytes) : (List.range (partCount raw)).flatMap (chunk raw) = raw := by
  rw [flatMap_chunk]
  refine List.take_of_length_le ?_
  unfold partCount chunkBytes
  omega

/-- a list with the value `f n` at every key `n` it has -/
theorem lookup_of_mem {β : Type} {l : List (Nat × β)} {f : Nat → β} (h : ∀ x ∈ l, x.2 = f x.1)
    {n : Nat} (hn : n ∈ l.map (·.1)) : l.lookup n = some (f n) := by
  induction l with
  | nil => cases hn
  | cons x l ih =>
    obtain ⟨k, v⟩ := x
    by_cases hk : n = k
    · subst hk
      have hv : v = f n := h (n, v) (.head _)
      simp [List.lookup, hv]
    · have hn' : n ∈ l.map (·.1) := by simpa [hk] using hn
      have hbeq : (n == k) = false := by simpa using hk
      simp [List.lookup, hbeq, ih (fun y hy => h y (.tail _ hy)) hn']

theorem lookup_of_not_mem {β : Type} {l : List (Nat × β)} {n : Nat} (hn : n ∉ l.map (·.1)) :
    l.lookup n = none := by
  induction l with
  | nil => rfl
  | cons x l ih =>
    obtain ⟨k, v⟩ := x
    rw [List.map_cons, List.mem_cons, not_or] at hn
    have hbeq : (n == k) = false := by simpa using hn.1
    simp [List.lookup, hbeq, ih hn.2]

/-- as many different keys below `n` as there can be are all of them -/
theorem mem_of_length {l : List Nat} {n : Nat} (hnodup : l.Nodup) (hlt : ∀ k ∈ l, k < n)
    (hlen : l.length = n) {k : Nat} (hk : k < n) : k ∈ l := by
  have hsub : l.toFinset ⊆ Finset.range n := fun x hx =>
    Finset.mem_range.mpr (hlt x (List.mem_toFinset.mp hx))
  have hcard : (Finset.range n).card ≤ l.toFinset.card := by
    rw [Finset.card_range, List.toFinset_card_of_nodup hnodup, hlen]
  have heq := Finset.eq_of_subset_of_card_le hsub hcard
  rw [← List.mem_toFinset, heq]
  exact Finset.mem_range.mpr hk

/-- the identity of a record -/
def identityOf (raw : Bytes) : Nat × List Nat := (partCount raw, (Sha256.hexdigest raw).map Char.toNat)

theorem identityOf_fst : (identityOf raw).1 = partCount raw := rfl

theorem ownRow_part : (ownRow raw recordId part).part = part := rfl

theorem ownRow_identity :
    ((ownRow raw recordId part).parts, (ownRow raw recordId part).sha256) = identityOf raw := rfl

/-- **The invariant of the decoder**: what it has collected is what was sent. -/
structure Collected (raw : Bytes) (recordId : String) (d : Decoder) : Prop where
  warnings : d.warnings = []
  own : ∀ x ∈ d.selected, x.1 < partCount raw ∧ x.2 = (ownRow raw recordId x.1, chunk raw x.1)
  nodup : (d.selected.map (·.1)).Nodup
  identity : d.identity = none ∧ d.selected = [] ∨ d.identity = some (identityOf raw)
  completed : d.completed = if d.selected.length = partCount raw then some raw else none

/-- the part `n` is there -/
def Decoder.Has (d : Decoder) (n : Nat) : Prop := n ∈ d.selected.map (·.1)

section
variable {d : Decoder}

theorem Collected.part_of_has (h : Collected raw recordId d) {n : Nat} (hn : d.Has n) :
    d.part n = some (ownRow raw recordId n, chunk raw n) :=
  lookup_of_mem (f := fun n => (ownRow raw recordId n, chunk raw n)) (fun x hx => (h.own x hx).2) hn

theorem Collected.has_of_length (h : Collected raw recordId d)
    (hlen : d.selected.length = partCount raw) {n : Nat} (hn : n < partCount raw) : d.Has n := by
  refine mem_of_length h.nodup ?_ (by rw [List.length_map, hlen]) hn
  intro k hk
  obtain ⟨x, hx, rfl⟩ := List.mem_map.mp hk
  exact (h.own x hx).1

/-- with all parts there, the parts in their order are the record -/
theorem Collected.joined (h : Collected raw recordId d) (hall : ∀ n < partCount raw, d.Has n) :
    Decoder.joined d.selected (partCount raw) = raw := by
  have hcongr : ∀ n ∈ List.range (partCount raw),
      ((d.selected.lookup n).map (·.2)).getD [] = chunk raw n := by
    intro n hn
    have hpart := h.part_of_has (hall n (List.mem_range.mp hn))
    unfold Decoder.part at hpart
    rw [hpart]
    rfl
  unfold Decoder.joined
  rw [List.flatMap_congr hcongr]
  exact chunks_join raw

theorem Collected.length_of_has (h : Collected raw recordId d)
    (hall : ∀ n < partCount raw, d.Has n) : d.selected.length = partCount raw := by
  have hkeys : (d.selected.map (·.1)).toFinset = Finset.range (partCount raw) := by
    refine Finset.ext fun n => ?_
    rw [List.mem_toFinset, Finset.mem_range]
    refine ⟨fun hn => ?_, hall n⟩
    obtain ⟨x, hx, rfl⟩ := List.mem_map.mp hn
    exact (h.own x hx).1
  have hcard := List.toFinset_card_of_nodup h.nodup
  rw [hkeys, Finset.card_range, List.length_map] at hcard
  exact hcard.symm

/-- the selection with one more part: nothing changes if it was there -/
theorem Collected.put_of_has (h : Collected raw recordId d) {n : Nat} (hn : d.Has n) :
    d.put n (ownRow raw recordId n, chunk raw n) = d.selected := by
  have hany : d.selected.any (·.1 = n) = true := by
    obtain ⟨x, hx, hxn⟩ := List.mem_map.mp hn
    exact List.any_eq_true.mpr ⟨x, hx, decide_eq_true hxn⟩
  unfold Decoder.put
  rw [if_pos hany]
  refine (List.map_congr_left fun x hx => ?_).trans (List.map_id _)
  split
  · next hxn =>
    have hval := (h.own x hx).2
    subst hxn
    exact Prod.ext rfl hval.symm
  · rfl

theorem put_of_not_has {n : Nat} {x : Row × Bytes} (hn : ¬ d.Has n) :
    d.put n x = d.selected ++ [(n, x)] := by
  have hany : d.selected.any (·.1 = n) = false := by
    rw [List.any_eq_false]
    intro y hy hyn
    exact hn (List.mem_map.mpr ⟨y, hy, of_decide_eq_true hyn⟩)
  unfold Decoder.put
  rw [hany]
  rfl

/-- the decoder with the selection `selected`, completed if that is all -/
def Decoder.with (d : Decoder) (raw : Bytes) (selected : List (Nat × Row × Bytes)) : Decoder :=
  { d with
    selected := selected
    identity := some (identityOf raw)
    completed := if selected.length = partCount raw then some raw else none }

/-- a part of the record is accepted -/
theorem Collected.accept (h : Collected raw recordId d) (hlen : 1 ≤ raw.length)
    (hmax : raw.length ≤ maxRecordBytes) (hopen : d.completed = none) {n : Nat} {line : Nat}
    (hgood : Collected raw recordId (d.with raw (d.put n (ownRow raw recordId n, chunk raw n)))) :
    d.accept line (ownRow raw recordId n) (chunk raw n)
      = .ok (d.with raw (d.put n (ownRow raw recordId n, chunk raw n))) := by
  have hidentity : d.identity.getD (identityOf raw) = identityOf raw := by
    rcases h.identity with ⟨hi, -⟩ | hi <;> rw [hi] <;> rfl
  have hpart : ¬ ((d.part n).isSome ∧ d.part n ≠ some (ownRow raw recordId n, chunk raw n)) := by
    by_cases hn : d.Has n
    · simp [h.part_of_has hn]
    · have hnone : d.part n = none := lookup_of_not_mem hn
      simp [hnone]
  have hwhole : ¬ (¬ (1 ≤ raw.length ∧ raw.length ≤ maxRecordBytes) ∨
      (Sha256.hexdigest raw).map Char.toNat ≠ (identityOf raw).2) := by
    simp [hlen, hmax, identityOf]
  unfold Decoder.accept Decoder.with
  simp only [ownRow_part, ownRow_identity, hidentity]
  rw [if_neg (not_not.mpr rfl), if_neg hpart, identityOf_fst]
  by_cases hall : (d.put n (ownRow raw recordId n, chunk raw n)).length = partCount raw
  · have hjoin : Decoder.joined (d.put n (ownRow raw recordId n, chunk raw n)) (partCount raw) = raw :=
      hgood.joined fun m hm => hgood.has_of_length hall hm
    rw [if_pos hall, if_pos hall, hjoin, if_neg hwhole]
  · rw [if_neg hall, if_neg hall, hopen]

theorem Collected.put (h : Collected raw recordId d) {n : Nat} (hn : n < partCount raw) :
    Collected raw recordId (d.with raw (d.put n (ownRow raw recordId n, chunk raw n))) ∧
      ∀ m, (d.with raw (d.put n (ownRow raw recordId n, chunk raw n))).Has m ↔ d.Has m ∨ m = n := by
  by_cases hhas : d.Has n
  · rw [h.put_of_has hhas]
    exact ⟨⟨h.warnings, h.own, h.nodup, .inr rfl, rfl⟩,
      fun m => ⟨.inl, fun hm => hm.elim id fun he => he ▸ hhas⟩⟩
  · rw [put_of_not_has hhas]
    refine ⟨⟨h.warnings, fun x hx => ?_, ?_, .inr rfl, rfl⟩, fun m => ?_⟩
    · rcases List.mem_append.mp hx with hx | hx
      · exact h.own x hx
      · rw [List.mem_singleton.mp hx]
        exact ⟨hn, rfl⟩
    · show ((d.selected ++ [(n, ownRow raw recordId n, chunk raw n)]).map (·.1)).Nodup
      rw [List.map_append, List.nodup_append]
      refine ⟨h.nodup, List.nodup_singleton _, fun a ha b hb he => hhas ?_⟩
      have hbn : b = n := List.mem_singleton.mp hb
      rw [← hbn, ← he]
      exact ha
    · show m ∈ (d.selected ++ [(n, ownRow raw recordId n, chunk raw n)]).map (·.1) ↔ _
      rw [List.map_append, List.mem_append, List.map_singleton, List.mem_singleton]
      rfl

/-- a part of the record: the invariant stays, and the part is there -/
theorem Collected.step (h : Collected raw recordId d) (hid : isId recordId = true)
    (hlen : 1 ≤ raw.length) (hmax : raw.length ≤ maxRecordBytes) (hparts : partCount raw ≤ maxParts)
    {depth : Nat} (hd : 1 ≤ depth) {n : Nat} (hn : n < partCount raw) (line : Nat) :
    ∃ d', d.step depth recordId line (partBody raw recordId n) = .ok d' ∧
      Collected raw recordId d' ∧ ∀ m, d'.Has m ↔ d.Has m ∨ m = n := by
  obtain ⟨hgood, hhas⟩ := h.put hn
  unfold Decoder.step
  rw [selectedPart_own hid hn hparts hd]
  dsimp only
  by_cases hall : d.selected.length = partCount raw
  · -- complete: the part is there already, and it is the same
    have hn' := h.has_of_length hall hn
    have hcompleted : d.completed = some raw := by rw [h.completed, if_pos hall]
    have hidentity : d.identity = some (identityOf raw) := by
      rcases h.identity with ⟨-, hnil⟩ | hi
      · rw [hnil] at hall
        rw [← hall] at hn
        exact absurd hn (Nat.not_lt_zero n)
      · exact hi
    rw [if_pos (by rw [hcompleted]; rfl), if_neg]
    · exact ⟨d, rfl, h, fun m => ⟨.inl, fun hm => hm.elim id fun he => he ▸ hn'⟩⟩
    · rw [ownRow_identity, ownRow_part, hidentity, h.part_of_has hn']
      simp
  · have hopen : d.completed = none := by rw [h.completed, if_neg hall]
    rw [if_neg (by rw [hopen]; simp), h.accept hlen hmax hopen hgood]
    exact ⟨_, rfl, hgood, hhas⟩

end

/-! ## the messages -/

/-- a timestamp of the fixed form that names a moment -/
def ValidStamp (timestamp : String) : Prop :=
  matchesAll stampClasses timestamp.toList = true ∧ isMoment timestamp.toList = true

instance (timestamp : String) : Decidable (ValidStamp timestamp) := inferInstanceAs (Decidable (_ ∧ _))

theorem matchesAll_length {ps : List (Char → Bool)} {cs : List Char} (h : matchesAll ps cs = true) :
    cs.length = ps.length := by
  induction ps generalizing cs with
  | nil =>
    cases cs with
    | nil => rfl
    | cons c cs => cases h
  | cons p ps ih =>
    cases cs with
    | nil => cases h
    | cons c cs =>
      rw [matchesAll, Bool.and_eq_true] at h
      rw [List.length_cons, List.length_cons, ih h.2]

theorem header_ok {timestamp : String} (h : ValidStamp timestamp) :
    ∃ head, header timestamp = .ok head ∧ head.length = headerBytes := by
  have hstamp : timestamp.toList.length = 32 := (matchesAll_length h.1).trans rfl
  have hlength : (ascii "<134>1 ".toList ++ ascii timestamp.toList
      ++ ascii " - netops - - - ".toList).length = headerBytes := by
    simp only [ascii, List.length_append, List.length_map, hstamp]
    rfl
  refine ⟨_, ?_, hlength⟩
  unfold header
  rw [if_neg (by rw [h.1]; decide), if_neg (by rw [h.2]; decide)]
  exact if_neg (not_not.mpr hlength)

theorem validStamp_of_header {timestamp : String} {head : Bytes} (h : header timestamp = .ok head) :
    ValidStamp timestamp := by
  unfold header at h
  split at h
  · cases h
  · next h1 =>
    split at h
    · cases h
    · next h2 => exact ⟨Bool.eq_true_of_not_eq_false h1, Bool.eq_true_of_not_eq_false h2⟩

theorem partCount_le (hmax : raw.length ≤ maxRecordBytes) : partCount raw ≤ maxParts := by
  unfold maxRecordBytes maxMessage at hmax
  unfold partCount chunkBytes maxParts
  omega

theorem mapM_ok {β γ : Type} {f : β → Except String γ} {g : β → γ} {l : List β}
    (h : ∀ x ∈ l, f x = .ok (g x)) : l.mapM f = .ok (l.map g) := by
  induction l with
  | nil => rfl
  | cons x l ih =>
    rw [List.mapM_cons, h x (.head _), ih fun y hy => h y (.tail _ hy)]
    rfl

/-- **What is encoded**: the header and the body of every part, in order. -/
theorem encodeMessages_eq (hid : isId recordId = true) (hlen : 1 ≤ raw.length)
    (hmax : raw.length ≤ maxRecordBytes) {timestamp : String} {head : Bytes}
    (hhead : header timestamp = .ok head) (hsize : head.length = headerBytes) :
    encodeMessages raw recordId timestamp
      = .ok ((List.range (partCount raw)).map fun n => head ++ partBody raw recordId n) ∧
    ∀ n < partCount raw, (head ++ partBody raw recordId n).length ≤ maxMessageBytes := by
  have hparts := partCount_le hmax
  have hshort : ∀ n < partCount raw, (head ++ partBody raw recordId n).length ≤ maxMessageBytes := by
    intro n hn
    have hbody : (partBody raw recordId n).length ≤ 1563 :=
      partBody_length hid (Nat.le_trans (Nat.le_of_lt hn) hparts) hparts
    rw [List.length_append, hsize]
    exact Nat.le_trans (Nat.add_le_add_left hbody _) (by decide)
  refine ⟨?_, hshort⟩
  have hrange : ¬ (raw.length < 1 ∨ maxRecordBytes < raw.length) := by
    rw [not_or, Nat.not_lt, Nat.not_lt]
    exact ⟨hlen, hmax⟩
  unfold encodeMessages requireId
  rw [if_pos hid, hhead]
  show (if raw.length < 1 ∨ maxRecordBytes < raw.length then _ else _) = _
  rw [if_neg hrange]
  refine mapM_ok fun n hn => ?_
  exact if_neg (Nat.not_lt.mpr (hshort n (List.mem_range.mp hn)))

theorem encodeMessages_ok {timestamp : String} {messages : List Bytes}
    (h : encodeMessages raw recordId timestamp = .ok messages) : isId recordId = true ∧
      1 ≤ raw.length ∧ raw.length ≤ maxRecordBytes ∧ ValidStamp timestamp := by
  unfold encodeMessages requireId at h
  by_cases hid : isId recordId = true
  · by_cases hrange : raw.length < 1 ∨ maxRecordBytes < raw.length
    · rw [if_pos hid, if_pos hrange] at h
      cases h
    · cases hhead : header timestamp with
      | error e =>
        rw [if_pos hid, if_neg hrange, hhead] at h
        cases h
      | ok head =>
        rw [not_or, Nat.not_lt, Nat.not_lt] at hrange
        exact ⟨hid, hrange.1, hrange.2, validStamp_of_header hhead⟩
  · rw [if_neg hid] at h
    cases h

/-- the body of a message of the record -/
def IsPart (raw : Bytes) (recordId : String) (body : Bytes) : Prop :=
  ∃ timestamp messages, encodeMessages raw recordId timestamp = .ok messages ∧
    ∃ message ∈ messages, body = message.drop headerBytes

/-- the bodies are those of the parts, whatever the timestamp -/
theorem IsPart.eq_partBody {body : Bytes} (h : IsPart raw recordId body) :
    isId recordId = true ∧ partCount raw ≤ maxParts ∧
      ∃ n < partCount raw, body = partBody raw recordId n := by
  obtain ⟨timestamp, messages, hmessages, message, hmem, rfl⟩ := h
  obtain ⟨hid, hlen, hmax, hstamp⟩ := encodeMessages_ok hmessages
  obtain ⟨head, hhead, hsize⟩ := header_ok hstamp
  cases hmessages.symm.trans (encodeMessages_eq hid hlen hmax hhead hsize).1
  obtain ⟨n, hn, rfl⟩ := List.mem_map.mp hmem
  refine ⟨hid, partCount_le hmax, n, List.mem_range.mp hn, ?_⟩
  rw [← hsize, List.drop_left]

/-! ## the archive -/

/-- the archive holds parts of the record and parts of other records -/
def Archive (raw : Bytes) (recordId : String) (archive : List Bytes) : Prop :=
  ∀ body ∈ archive, IsPart raw recordId body ∨
    ∃ raw' recordId', recordId' ≠ recordId ∧ IsPart raw' recordId' body

theorem partNumber_inj {n m : Nat} (h : (Except.ok (some (ownRow raw recordId n, chunk raw n)) :
    Except String (Option (Row × Bytes))) = .ok (some (ownRow raw recordId m, chunk raw m))) :
    n = m := by
  injection h with h
  injection h with h
  exact congrArg (fun x => x.1.part) h

/-- every message of the archive keeps the invariant; what it holds of the record is there -/
theorem Collected.steps (hid : isId recordId = true) (hlen : 1 ≤ raw.length)
    (hmax : raw.length ≤ maxRecordBytes) {depth : Nat} (hd : 1 ≤ depth) {archive : List Bytes}
    (harchive : Archive raw recordId archive) {d : Decoder} (h : Collected raw recordId d)
    (line : Nat) : ∃ d', d.steps depth recordId line archive = .ok d' ∧ Collected raw recordId d' ∧
      (∀ m, d.Has m → d'.Has m) ∧ ∀ n < partCount raw, partBody raw recordId n ∈ archive → d'.Has n := by
  induction archive generalizing d line with
  | nil => exact ⟨d, rfl, h, fun _ hm => hm, fun _ _ hmem => nomatch hmem⟩
  | cons body rest ih =>
    have hparts := partCount_le hmax
    have hrest : Archive raw recordId rest := fun b hb => harchive b (.tail _ hb)
    -- one message: what it says about the record is there afterwards
    have hone : ∃ d₁, d.step depth recordId line body = .ok d₁ ∧ Collected raw recordId d₁ ∧
        (∀ m, d.Has m → d₁.Has m) ∧ ∀ n < partCount raw, partBody raw recordId n = body → d₁.Has n := by
      rcases harchive body (.head _) with hown | ⟨raw', recordId', hne, hother⟩
      · obtain ⟨-, -, k, hk, rfl⟩ := hown.eq_partBody
        obtain ⟨d₁, hstep, hgood, hhas⟩ := h.step hid hlen hmax hparts hd hk line
        refine ⟨d₁, hstep, hgood, fun m hm => (hhas m).mpr (.inl hm), fun n hn he => ?_⟩
        have hread := selectedPart_own hid hn hparts hd
        rw [he, selectedPart_own hid hk hparts hd] at hread
        exact (hhas n).mpr (.inr (partNumber_inj hread).symm)
      · obtain ⟨hid', hparts', k, hk, rfl⟩ := hother.eq_partBody
        have hread := selectedPart_other hid' hne (Nat.le_trans (Nat.le_of_lt hk) hparts') hparts' hd
        refine ⟨d, ?_, h, fun _ hm => hm, fun n hn he => ?_⟩
        · unfold Decoder.step
          rw [hread]
        · rw [← he, selectedPart_own hid hn hparts hd] at hread
          cases hread
    obtain ⟨d₁, hstep, hgood, hkeep, hnew⟩ := hone
    obtain ⟨d', hsteps, hgood', hkeep', hnew'⟩ := ih hrest hgood (line + 1)
    refine ⟨d', ?_, hgood', fun m hm => hkeep' m (hkeep m hm), fun n hn hmem => ?_⟩
    · rw [Decoder.steps, hstep]
      exact hsteps
    · rcases List.mem_cons.mp hmem with he | hmem
      · exact hkeep' n (hnew n hn he)
      · exact hnew' n hn hmem

end

theorem collected_initial {raw : Bytes} {recordId : String} (hlen : 1 ≤ raw.length) :
    Collected raw recordId Decoder.initial := by
  refine ⟨rfl, fun _ hx => (nomatch hx), List.nodup_nil, .inl ⟨rfl, rfl⟩, ?_⟩
  have hpos : ([] : List (Nat × Row × Bytes)).length ≠ partCount raw := by
    have hlt : 0 < partCount raw := lt_partCount.mpr (by omega)
    exact Nat.ne_of_lt hlt
  exact (if_neg hpos).symm

/-- the messages of a record, and how they are read back -/
structure RoundTrip (depth : Nat) (raw : Bytes) (recordId : String) : Prop where
  /-- the record is encoded, whatever the time, and every message is small -/
  encodes : ∀ timestamp, ValidStamp timestamp → ∃ messages,
    encodeMessages raw recordId timestamp = .ok messages ∧ messages.length = partCount raw ∧
      ∀ message ∈ messages, message.length ≤ maxMessageBytes
  /-- every archive with each part at least once, from deliveries at any times, in any order, as often
  as may be and between parts of other records, gives the record back without a warning -/
  decodes : ∀ archive, Archive raw recordId archive →
    (∀ n < partCount raw, ∃ timestamp messages message,
      encodeMessages raw recordId timestamp = .ok messages ∧ messages[n]? = some message ∧
        message.drop headerBytes ∈ archive) →
    decodeMessages depth archive recordId = .ok (raw, [])

/-- **What is encoded is decoded.** -/
theorem syslog_round_trip {depth : Nat} (hdepth : 1 ≤ depth) (raw : Bytes) (recordId : String)
    (hid : isId recordId = true) (hlen : 1 ≤ raw.length) (hmax : raw.length ≤ maxRecordBytes) :
    RoundTrip depth raw recordId := by
  refine ⟨fun timestamp hstamp => ?_, fun archive harchive hall => ?_⟩
  · obtain ⟨head, hhead, hsize⟩ := header_ok hstamp
    obtain ⟨heq, hshort⟩ := encodeMessages_eq hid hlen hmax hhead hsize
    refine ⟨_, heq, by rw [List.length_map, List.length_range], fun message hmem => ?_⟩
    obtain ⟨n, hn, rfl⟩ := List.mem_map.mp hmem
    exact hshort n (List.mem_range.mp hn)
  · obtain ⟨d, hsteps, hgood, -, hnew⟩ :=
      (collected_initial hlen).steps hid hlen hmax hdepth harchive 1
    have hhas : ∀ n < partCount raw, d.Has n := by
      intro n hn
      obtain ⟨timestamp, messages, message, hmessages, hget, hmem⟩ := hall n hn
      obtain ⟨-, -, -, hstamp⟩ := encodeMessages_ok hmessages
      obtain ⟨head, hhead, hsize⟩ := header_ok hstamp
      cases hmessages.symm.trans (encodeMessages_eq hid hlen hmax hhead hsize).1
      refine hnew n hn ?_
      rw [List.getElem?_map, List.getElem?_range hn] at hget
      cases hget
      rwa [← hsize, List.drop_left] at hmem
    have hcompleted : d.completed = some raw := by
      rw [hgood.completed, if_pos (hgood.length_of_has hhas)]
    unfold decodeMessages requireId
    rw [if_pos hid, hsteps]
    dsimp only
    rw [hcompleted, hgood.warnings]

/-- a record of one byte, sent and archived -/
theorem syslog_round_trip_byte : ∃ messages,
    encodeMessages [65] "0123456789abcdef0123456789abcdef" "2026-10-01T12:34:56.123456+00:00"
        = .ok messages ∧
      decodeMessages 1 (messages.map (·.drop headerBytes)) "0123456789abcdef0123456789abcdef"
        = .ok ([65], []) := by
  have h : RoundTrip 1 [65] "0123456789abcdef0123456789abcdef" :=
    syslog_round_trip (le_refl 1) [65] _ (by decide) (by decide) (by decide)
  obtain ⟨messages, hmessages, hcount, -⟩ :=
    h.encodes "2026-10-01T12:34:56.123456+00:00" (by decide)
  refine ⟨messages, hmessages, h.decodes _ ?_ ?_⟩
  · intro body hbody
    obtain ⟨message, hmem, rfl⟩ := List.mem_map.mp hbody
    exact .inl ⟨_, messages, hmessages, message, hmem, rfl⟩
  · intro n hn
    obtain ⟨message, hget⟩ : ∃ message, messages[n]? = some message :=
      ⟨_, List.getElem?_eq_getElem (hcount ▸ hn)⟩
    exact ⟨_, messages, message, hmessages, hget,
      List.mem_map.mpr ⟨message, List.mem_of_getElem? hget, rfl⟩⟩

end Netops.Syslog
