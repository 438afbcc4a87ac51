import Mathlib.Data.List.Range
import Netops.Configuration.Filter
import Netops.Lib.Probing
import Netops.Lib.Sha256

/-!
# The records of withheld values (`config_buffers.py`, `HiddenRecords`)

A record is a key for the place of a value and a digest of the value, sixteen bytes each.  The records stand
in a hash table with open addressing, and a digest follows the order of their keys.

* `HiddenRecords.add`, `get`, `records`   the operations;
* `HiddenRecords.Sound`                   what they keep;
* `accept`                                what the records are for: the first value for each key, in order;
* `hiddenRecords_map`                     the table does that.
-/

namespace Netops.Filter
open Probing

/-- sixteen bytes -/
abbrev Half := {b : Bytes // b.length = 16}

/-- `int.from_bytes(key[:8], "little")` -/
def slotNumber (key : Half) : Nat := (key.val.take 8).foldr (fun b n => b.toNat + 256 * n) 0

/-- the table, and what the digest of the order has been given -/
structure HiddenRecords where
  table : Table Half Half
  ordered : Bytes

def HiddenRecords.empty : HiddenRecords := ⟨⟨[], List.replicate 16 0⟩, []⟩

/-- why a record is not taken -/
inductive NotTaken where
  /-- ambiguous configuration record; output withheld -/
  | ambiguous
  /-- its number is too large for the index -/
  | overflow
  deriving DecidableEq

/-- an `array("I")` has smaller numbers only -/
def indexLimit : Nat := 4294967296

theorem indexLimit_pos : 0 < indexLimit := by
  unfold indexLimit
  omega

/-- `add`: why the record is not taken, if it is not; `none` is a search that does not end -/
def HiddenRecords.add (key value : Half) (h : HiddenRecords) : Option (Option NotTaken × HiddenRecords) :=
  match h.table.add slotNumber key value with
  | none => none
  | some (false, t) => some (some .ambiguous, { h with table := t })
  | some (true, t) =>
    if h.table.data.length + 1 < indexLimit then some (none, ⟨t, h.ordered ++ key.val⟩)
    else (h.table.grown slotNumber).map fun index => (some .overflow, { h with table := { h.table with index } })

/-- `get` -/
def HiddenRecords.get (key : Half) (h : HiddenRecords) : Option (Option Half) := h.table.get slotNumber key

/-- `records` -/
def HiddenRecords.records (h : HiddenRecords) : List (Half × Half) := h.table.data

/-- `len` -/
def HiddenRecords.length (h : HiddenRecords) : Nat := h.table.data.length

/-- `order.digest()` -/
def HiddenRecords.order (h : HiddenRecords) : List Char := Sha256.hexdigest h.ordered

/-- record after record; `none` where one of them is refused -/
def HiddenRecords.addAll : List (Half × Half) → HiddenRecords → Option HiddenRecords
  | [], h => some h
  | x :: rest, h =>
    match h.add x.1 x.2 with
    | some (none, h) => h.addAll rest
    | _ => none

/-- the same where the caller goes on after a refusal; `none` where a search does not end -/
def HiddenRecords.after : List (Half × Half) → HiddenRecords → Option HiddenRecords
  | [], h => some h
  | x :: rest, h =>
    match h.add x.1 x.2 with
    | none => none
    | some (_, h) => h.after rest

/-! ## what is kept -/

/-- the table is sound, and the order is that of the keys -/
structure HiddenRecords.Sound (h : HiddenRecords) : Prop where
  table : h.table.Sound slotNumber
  order : h.ordered = (h.table.data.map fun x => x.1.val).flatten

theorem HiddenRecords.sound_empty : HiddenRecords.empty.Sound := ⟨Probing.sound_empty, rfl⟩

/-- what one call leads to -/
theorem HiddenRecords.Sound.add {h : HiddenRecords} (hs : h.Sound) (key value : Half) :
    ∃ why h', h.add key value = some (why, h') ∧ h'.Sound ∧
      (why = none ↔ key ∉ Dict.keys h.records ∧ h.length + 1 < indexLimit) ∧
      h'.records = if why = none then h.records ++ [(key, value)] else h.records := by
  obtain ⟨t, added, hadd, ht, hiff, hdata⟩ := hs.table.add key value
  rw [HiddenRecords.add, hadd]
  cases added with
  | false =>
    refine ⟨some .ambiguous, _, rfl, ⟨ht, ?_⟩, ⟨fun he => (nomatch he), fun hk => ?_⟩, hdata⟩
    · rw [hdata]
      exact hs.order
    · exact nomatch hiff.2 hk.1
  | true =>
    dsimp only
    have hkey : key ∉ Dict.keys h.records := hiff.1 rfl
    by_cases hlimit : h.table.data.length + 1 < indexLimit
    · rw [if_pos hlimit]
      refine ⟨none, _, rfl, ⟨ht, ?_⟩, ⟨fun _ => ⟨hkey, hlimit⟩, fun _ => rfl⟩, hdata⟩
      dsimp only
      rw [hdata, if_pos rfl, List.map_append, List.flatten_append, ← hs.order]
      simp
    · rw [if_neg hlimit]
      obtain ⟨index, hgrown, hindexed, hsize, hlarge, hload⟩ := hs.table.grown
      rw [hgrown]
      refine ⟨some .overflow, _, rfl, ⟨⟨hs.table.distinct, hsize, hlarge, ?_, hindexed⟩, hs.order⟩,
        ⟨fun he => (nomatch he), fun hk => absurd hk.2 hlimit⟩, rfl⟩
      dsimp only
      omega

theorem HiddenRecords.Sound.get {h : HiddenRecords} (hs : h.Sound) (key : Half) :
    h.get key = some (Dict.get key h.records) := hs.table.get key

theorem HiddenRecords.Sound.addAll {h h' : HiddenRecords} (hs : h.Sound) {pairs : List (Half × Half)}
    (hadd : h.addAll pairs = some h') : h'.Sound ∧ h'.records = h.records ++ pairs := by
  induction pairs generalizing h with
  | nil =>
    cases hadd
    exact ⟨hs, (List.append_nil _).symm⟩
  | cons x pairs ih =>
    obtain ⟨why, h1, h1eq, hs1, -, hrecords⟩ := hs.add x.1 x.2
    rw [HiddenRecords.addAll, h1eq] at hadd
    cases why with
    | some why => exact nomatch hadd
    | none =>
      obtain ⟨hs', hall⟩ := ih hs1 hadd
      refine ⟨hs', ?_⟩
      rw [hall, hrecords, if_pos rfl, List.append_assoc]
      rfl

/-! ## a map -/

/-- a record is kept for a new key, while there is a number for it -/
def accept (kept : List (Half × Half)) (x : Half × Half) : List (Half × Half) :=
  if x.1 ∈ Dict.keys kept ∨ indexLimit ≤ kept.length + 1 then kept else kept ++ [x]

theorem HiddenRecords.Sound.accept {h : HiddenRecords} (hs : h.Sound) (x : Half × Half) :
    ∃ why h', h.add x.1 x.2 = some (why, h') ∧ h'.Sound ∧ h'.records = Filter.accept h.records x := by
  obtain ⟨why, h', hadd, hs', hiff, hrecords⟩ := hs.add x.1 x.2
  refine ⟨why, h', hadd, hs', hrecords.trans ?_⟩
  rw [Filter.accept]
  by_cases hwhy : why = none
  · obtain ⟨hkey, hlimit⟩ := hiff.1 hwhy
    rw [if_pos hwhy, if_neg]
    rintro (hk | hl)
    · exact hkey hk
    · exact absurd hlimit (Nat.not_lt.2 hl)
  · rw [if_neg hwhy, if_pos]
    by_contra hnot
    rw [not_or] at hnot
    exact hwhy (hiff.2 ⟨hnot.1, Nat.not_le.1 hnot.2⟩)

/-- a whole sequence of calls -/
theorem HiddenRecords.Sound.after {h : HiddenRecords} (hs : h.Sound) (calls : List (Half × Half)) :
    ∃ h', h.after calls = some h' ∧ h'.Sound ∧ h'.records = calls.foldl Filter.accept h.records := by
  induction calls generalizing h with
  | nil => exact ⟨h, rfl, hs, rfl⟩
  | cons x calls ih =>
    obtain ⟨why, h1, hadd, hs1, hrecords⟩ := hs.accept x
    obtain ⟨h', hafter, hs', hall⟩ := ih hs1
    refine ⟨h', ?_, hs', ?_⟩
    · rw [HiddenRecords.after, hadd]
      exact hafter
    · rw [hall, hrecords]
      rfl

theorem accept_length {kept : List (Half × Half)} (h : kept.length < indexLimit) (x : Half × Half) :
    (accept kept x).length < indexLimit := by
  rw [accept]
  split_ifs with hno
  · exact h
  · rw [not_or] at hno
    rw [List.length_append]
    exact Nat.not_le.1 hno.2

theorem foldl_accept_length (calls : List (Half × Half)) {kept : List (Half × Half)}
    (h : kept.length < indexLimit) : (calls.foldl accept kept).length < indexLimit := by
  induction calls generalizing kept with
  | nil => exact h
  | cons x calls ih => exact ih (accept_length h x)

/-- distinct keys are all taken while there are numbers for them -/
theorem foldl_accept_distinct (calls kept : List (Half × Half)) (hkeys : (Dict.keys (kept ++ calls)).Nodup)
    (hlimit : (kept ++ calls).length < indexLimit) : calls.foldl accept kept = kept ++ calls := by
  induction calls generalizing kept with
  | nil => exact (List.append_nil kept).symm
  | cons x calls ih =>
    have hsplit : kept ++ x :: calls = (kept ++ [x]) ++ calls := by rw [List.append_assoc]; rfl
    have hnew : x.1 ∉ Dict.keys kept := by
      intro hx
      rw [Dict.keys, List.map_append, List.map_cons] at hkeys
      exact (List.nodup_append.1 hkeys).2.2 x.1 hx x.1 List.mem_cons_self rfl
    have hroom : kept.length + 1 < indexLimit := by
      rw [List.length_append, List.length_cons] at hlimit
      omega
    have hstep : accept kept x = kept ++ [x] := by
      rw [accept, if_neg]
      rintro (hx | hx)
      · exact hnew hx
      · exact absurd hroom (Nat.not_lt.2 hx)
    rw [List.foldl_cons, hstep, hsplit]
    rw [hsplit] at hkeys hlimit
    exact ih (kept ++ [x]) hkeys hlimit

/-- **The records are a map.**  After any calls of `add`, every search ends, the records are the first ones
of their keys in the order of the calls, and `get` gives the value of a key.  A further `add` is refused for
a key that was added before, or when the numbers are used up, and then changes nothing. -/
theorem hiddenRecords_map (calls : List (Half × Half)) :
    ∃ h, HiddenRecords.empty.after calls = some h ∧ h.records = calls.foldl accept [] ∧
      (∀ key, h.get key = some (Dict.get key h.records)) ∧
      ∀ key value, ∃ why h', h.add key value = some (why, h') ∧
        (why ≠ none ↔ key ∈ Dict.keys h.records ∨ h.length + 1 = indexLimit) ∧
        (why ≠ none → h'.length = h.length ∧ h'.records = h.records ∧ ∀ k, h'.get k = h.get k) ∧
        (why = none → h'.records = h.records ++ [(key, value)] ∧
          ∀ k, h'.get k = some (if k = key then some value else Dict.get k h.records)) := by
  obtain ⟨h, hafter, hs, hrecords⟩ := HiddenRecords.sound_empty.after calls
  have hlength : h.length < indexLimit := by
    have hall : (calls.foldl accept []).length < indexLimit := foldl_accept_length calls indexLimit_pos
    have heq : h.length = (calls.foldl accept []).length := congrArg List.length hrecords
    omega
  refine ⟨h, hafter, hrecords, hs.get, fun key value => ?_⟩
  obtain ⟨why, h', hadd, hs', hiff, hnext⟩ := hs.add key value
  refine ⟨why, h', hadd, ?_, fun hwhy => ?_, fun hwhy => ?_⟩
  · rw [Ne, hiff, not_and_or, not_not]
    refine or_congr_right ⟨fun hl => ?_, fun hl => ?_⟩
    · omega
    · omega
  · rw [if_neg hwhy] at hnext
    refine ⟨congrArg List.length hnext, hnext, fun k => ?_⟩
    rw [hs'.get, hs.get, hnext]
  · rw [if_pos hwhy] at hnext
    refine ⟨hnext, fun k => ?_⟩
    rw [hs'.get, hnext, ← Dict.get_set, Dict.set_new (hiff.1 hwhy).1]

/-! ### the numbers are used up -/

/-- the first four bytes count -/
def countingKey (n : Nat) : Half :=
  ⟨[UInt8.ofNat (n % 256), UInt8.ofNat (n / 256 % 256), UInt8.ofNat (n / 65536 % 256),
    UInt8.ofNat (n / 16777216 % 256), 0, 0, 0, 0, 0, 0, 0, 0, 0, 0, 0, 0], rfl⟩

/-- a number that fits is its four bytes -/
theorem eq_four_bytes {n : Nat} (hn : n < indexLimit) : n = n % 256 + 256 * (n / 256 % 256)
    + 65536 * (n / 65536 % 256) + 16777216 * (n / 16777216 % 256) := by
  have h1 : n / 65536 = n / 256 / 256 := (Nat.div_div_eq_div_mul n 256 256).symm
  have h2 : n / 16777216 = n / 256 / 256 / 256 := by
    rw [Nat.div_div_eq_div_mul, Nat.div_div_eq_div_mul]
  have h3 : n / 256 / 256 / 256 < 256 := by
    rw [← h2]
    exact Nat.div_lt_of_lt_mul hn
  rw [h1, h2]
  omega

theorem countingKey_inj {m n : Nat} (hm : m < indexLimit) (hn : n < indexLimit)
    (h : countingKey m = countingKey n) : m = n := by
  have hbyte : ∀ {a b : Nat}, UInt8.ofNat (a % 256) = UInt8.ofNat (b % 256) → a % 256 = b % 256 := by
    intro a b hab
    have := congrArg UInt8.toNat hab
    rw [UInt8.toNat_ofNat', UInt8.toNat_ofNat'] at this
    omega
  have hval := congrArg Subtype.val h
  simp only [countingKey, List.cons.injEq] at hval
  obtain ⟨h0, h1, h2, h3, -⟩ := hval
  rw [eq_four_bytes hm, eq_four_bytes hn, hbyte h0, hbyte h1, hbyte h2, hbyte h3]

def countingCalls (n : Nat) : List (Half × Half) := (List.range n).map fun i => (countingKey i, countingKey i)

theorem keys_countingCalls (n : Nat) : Dict.keys (countingCalls n) = (List.range n).map countingKey := by
  rw [Dict.keys, countingCalls, List.map_map]
  rfl

/-- after so many records a new key is refused as well -/
theorem refused_at_limit {n : Nat} (hn : n + 1 = indexLimit) : ∃ h why h',
    countingKey n ∉ Dict.keys (countingCalls n) ∧ HiddenRecords.empty.after (countingCalls n) = some h ∧
      h.add (countingKey n) (countingKey n) = some (some why, h') := by
  have hsize : n < indexLimit := by omega
  have hnodup : (Dict.keys (countingCalls n)).Nodup := by
    rw [keys_countingCalls]
    refine List.Nodup.map_on (fun a ha b hb hab => ?_) List.nodup_range
    rw [List.mem_range] at ha hb
    exact countingKey_inj (ha.trans hsize) (hb.trans hsize) hab
  have hlen : (countingCalls n).length = n := by rw [countingCalls, List.length_map, List.length_range]
  have hnew : countingKey n ∉ Dict.keys (countingCalls n) := by
    rw [keys_countingCalls]
    intro hmem
    obtain ⟨i, hi, heq⟩ := List.mem_map.1 hmem
    rw [List.mem_range] at hi
    exact absurd (countingKey_inj (hi.trans hsize) hsize heq) (Nat.ne_of_lt hi)
  obtain ⟨h, hafter, hs, hrecords⟩ := HiddenRecords.sound_empty.after (countingCalls n)
  have hall : h.records = countingCalls n := by
    rw [hrecords]
    exact foldl_accept_distinct (countingCalls n) [] hnodup (by rw [List.nil_append, hlen]; exact hsize)
  have hlength : h.length = n := (congrArg List.length hall).trans hlen
  obtain ⟨why, h', hadd, -, hiff, -⟩ := hs.add (countingKey n) (countingKey n)
  cases why with
  | some why => exact ⟨h, why, h', hnew, hafter, hadd⟩
  | none =>
    have hroom := (hiff.1 rfl).2
    omega

/-- a key that was never added is refused -/
theorem hiddenRecords_overflow : ∃ (calls : List (Half × Half)) (key value : Half) (h h' : HiddenRecords)
    (why : NotTaken), key ∉ Dict.keys calls ∧ HiddenRecords.empty.after calls = some h ∧
      h.add key value = some (some why, h') := by
  have hn : 4294967295 + 1 = indexLimit := by rw [indexLimit]
  obtain ⟨h, why, h', hnew, hafter, hadd⟩ := refused_at_limit hn
  exact ⟨countingCalls 4294967295, countingKey 4294967295, countingKey 4294967295, h, h', why, hnew, hafter,
    hadd⟩

end Netops.Filter
