import Mathlib.Data.Finset.Card
import Mathlib.Data.List.Nodup
import Mathlib.Data.Nat.ModEq
import Netops.Lib.Dict

/-!
# A hash table with open addressing

The entries stand in a list in the order in which they came.  An index of slots leads to them: a slot is
`0`, or one more than the number of an entry.  The search for a key starts at the slot of its hash and goes
from slot to slot until it finds the key or an empty slot.  The index has a power of two of slots, and is
made twice as large before it is seven tenths full.

`none` stands for a search that does not end.

* `probe`, `slot`         the search;
* `place`, `add`, `get`   the operations;
* `Indexed`               some entries are in the index: the search for each of them is not interrupted;
* `Table.Sound`           what every operation keeps;
* `add_sound`, `get_sound`.
-/

namespace Netops.Probing

variable {K V : Type} [DecidableEq K]

structure Table (K V : Type) where
  data : List (K × V)
  index : List Nat

section
variable (hash : K → Nat)

/-- a slot number of an index of this size -/
def wrap (n size : Nat) : Nat := n &&& (size - 1)

/-- the search from a slot on: the slot where it ends, and the entry -/
def probe (data : List (K × V)) (key : K) (index : List Nat) : Nat → Nat → Option (Nat × Option Nat)
  | 0, _ => none
  | fuel + 1, slot =>
    match index.getD slot 0 with
    | 0 => some (slot, none)
    | i + 1 =>
      if (data[i]?).map Prod.fst = some key then some (slot, some i)
      else probe data key index fuel (wrap (slot + 1) index.length)

/-- a search that has not ended after all slots does not end -/
def slot (data : List (K × V)) (key : K) (index : List Nat) : Option (Nat × Option Nat) :=
  probe data key index index.length (wrap (hash key) index.length)

/-- the entries from number `i` on are put into an index -/
def place (data : List (K × V)) : List (K × V) → Nat → List Nat → Option (List Nat)
  | [], _, index => some index
  | x :: rest, i, index =>
    match slot hash data x.1 index with
    | none => none
    | some (s, _) => place data rest (i + 1) (index.set s (i + 1))

/-- the index with room for one more entry -/
def Table.grown (t : Table K V) : Option (List Nat) :=
  if (t.data.length + 1) * 10 ≥ t.index.length * 7 then
    place hash t.data t.data 0 (List.replicate (2 * t.index.length) 0)
  else some t.index

/-- whether the entry was added; a key that is there already is refused -/
def Table.add (key : K) (value : V) (t : Table K V) : Option (Bool × Table K V) :=
  match t.grown hash with
  | none => none
  | some index =>
    match slot hash t.data key index with
    | none => none
    | some (_, some _) => some (false, { t with index })
    | some (s, none) => some (true, ⟨t.data ++ [(key, value)], index.set s (t.data.length + 1)⟩)

def Table.get (key : K) (t : Table K V) : Option (Option V) :=
  match slot hash t.data key t.index with
  | none => none
  | some (_, none) => some none
  | some (_, some i) => some ((t.data[i]?).map Prod.snd)

/-! ## the search -/

theorem wrap_eq (n k : Nat) : wrap n (2 ^ k) = n % 2 ^ k := Nat.and_two_pow_sub_one_eq_mod n k

/-- the slot after `j` steps -/
def step (size : Nat) (key : K) (j : Nat) : Nat := (hash key + j) % size

/-- the first `m` entries are in the index, and nothing else -/
structure Indexed (data : List (K × V)) (m : Nat) (index : List Nat) : Prop where
  valid : ∀ p i, index.getD p 0 = i + 1 → i < m
  once : ∀ p q, index.getD p 0 = index.getD q 0 → index.getD p 0 ≠ 0 → p = q
  placed : ∀ i < m, ∀ key, (data[i]?).map Prod.fst = some key →
    ∃ j < index.length, index.getD (step hash index.length key j) 0 = i + 1 ∧
      ∀ j' < j, index.getD (step hash index.length key j') 0 ≠ 0

end

section
variable {hash : K → Nat} {data : List (K × V)} {m k : Nat} {index : List Nat}

theorem getD_replicate (size p : Nat) : (List.replicate size 0).getD p 0 = 0 := by
  rw [List.getD_eq_getElem?_getD, List.getElem?_replicate]
  split_ifs <;> rfl

omit [DecidableEq K] in
theorem indexed_empty (size : Nat) : Indexed hash data 0 (List.replicate size 0) where
  valid p i h := by
    rw [getD_replicate] at h
    exact nomatch h
  once p q _ h := by
    rw [getD_replicate] at h
    exact absurd rfl h
  placed i h := absurd h (Nat.not_lt_zero i)

omit [DecidableEq K] in
/-- as long as there are more slots than entries, one is empty -/
theorem Indexed.room (h : Indexed hash data m index) (hm : m < index.length) :
    ∃ p < index.length, index.getD p 0 = 0 := by
  by_contra hfull
  push Not at hfull
  -- otherwise the entries of the slots would be all different numbers up to `m`
  have hcard := Finset.card_le_card_of_injOn (s := Finset.range index.length)
    (t := Finset.range m) (fun p => index.getD p 0 - 1) ?_ ?_
  · rw [Finset.card_range, Finset.card_range] at hcard
    omega
  · intro p hp
    rw [Finset.mem_coe, Finset.mem_range] at hp ⊢
    have hne := hfull p hp
    exact h.valid p _ (Nat.succ_pred_eq_of_ne_zero hne).symm
  · intro p hp q hq heq
    rw [Finset.mem_coe, Finset.mem_range] at hp hq
    have hp' := hfull p hp
    have hq' := hfull q hq
    dsimp only at heq
    exact h.once p q (by omega) hp'

/-- the search goes on as long as it meets other entries -/
theorem probe_walk {size : Nat} (hsize : size = 2 ^ k) (hlen : index.length = size) {key : K} {j j' : Nat}
    (hj : j ≤ j') (hwalk : ∀ i, j ≤ i → i < j' → ∃ e, index.getD (step hash size key i) 0 = e + 1 ∧
      (data[e]?).map Prod.fst ≠ some key) {fuel : Nat} (hfuel : j' - j ≤ fuel) :
    probe data key index fuel (step hash size key j)
      = probe data key index (fuel - (j' - j)) (step hash size key j') := by
  induction hn : j' - j generalizing j fuel with
  | zero =>
    have : j = j' := by omega
    rw [this, Nat.sub_zero]
  | succ n ih =>
    obtain ⟨e, he, hkey⟩ := hwalk j le_rfl (by omega)
    obtain ⟨fuel, rfl⟩ : ∃ f, fuel = f + 1 := ⟨fuel - 1, by omega⟩
    have hnext : wrap (step hash size key j + 1) index.length = step hash size key (j + 1) := by
      rw [hlen, hsize, wrap_eq, step, step, Nat.mod_add_mod, Nat.add_assoc]
    rw [probe, he]
    dsimp only
    rw [if_neg hkey, hnext, ih (by omega) (fun i hi => hwalk i (by omega)) (by omega) (by omega)]
    congr 1
    omega

omit [DecidableEq K] in
theorem step_zero {size : Nat} (hsize : size = 2 ^ k) (key : K) : wrap (hash key) size = step hash size key 0 := by
  rw [hsize, wrap_eq, step, Nat.add_zero]

omit [DecidableEq K] in
/-- every slot is met -/
theorem exists_step {size : Nat} (key : K) {p : Nat} (hp : p < size) : ∃ j < size, step hash size key j = p := by
  refine ⟨(p + (size - hash key % size)) % size, Nat.mod_lt _ (by omega), ?_⟩
  have hlt : hash key % size < size := Nat.mod_lt _ (by omega)
  rw [step, Nat.add_mod_mod, ← Nat.mod_add_mod]
  have : hash key % size + (p + (size - hash key % size)) = p + size := by omega
  rw [this, Nat.add_mod_right, Nat.mod_eq_of_lt hp]

omit [DecidableEq K] in
/-- and no slot twice -/
theorem step_inj {size : Nat} {key : K} {i j : Nat} (hi : i < size) (hj : j < size)
    (h : step hash size key i = step hash size key j) : i = j := by
  have hmod : i ≡ j [MOD size] := Nat.ModEq.add_left_cancel' (hash key) h
  rwa [Nat.ModEq, Nat.mod_eq_of_lt hi, Nat.mod_eq_of_lt hj] at hmod

omit [DecidableEq K] in
/-- the first empty slot -/
theorem Indexed.first_empty (h : Indexed hash data m index) (hm : m < index.length) (key : K) :
    ∃ j < index.length, index.getD (step hash index.length key j) 0 = 0 ∧
      ∀ j' < j, index.getD (step hash index.length key j') 0 ≠ 0 := by
  obtain ⟨p, hp, hempty⟩ := h.room hm
  obtain ⟨j, hj, rfl⟩ := @exists_step _ hash _ key p hp
  have hex : ∃ j, index.getD (step hash index.length key j) 0 = 0 := ⟨j, hempty⟩
  refine ⟨Nat.find hex, lt_of_le_of_lt (Nat.find_min' hex hempty) hj, Nat.find_spec hex, ?_⟩
  exact fun j' hj' => Nat.find_min hex hj'

/-- a key that is not in the index: the search ends at the first empty slot -/
theorem Indexed.slot_none (h : Indexed hash data m index) (hsize : index.length = 2 ^ k)
    (hm : m < index.length) {key : K} (hkey : ∀ i < m, (data[i]?).map Prod.fst ≠ some key) :
    ∃ j < index.length, slot hash data key index = some (step hash index.length key j, none) ∧
      index.getD (step hash index.length key j) 0 = 0 ∧
      ∀ j' < j, index.getD (step hash index.length key j') 0 ≠ 0 := by
  obtain ⟨j, hj, hempty, hbefore⟩ := h.first_empty hm key
  refine ⟨j, hj, ?_, hempty, hbefore⟩
  have hwalk : ∀ i, 0 ≤ i → i < j → ∃ e, index.getD (step hash index.length key i) 0 = e + 1 ∧
      (data[e]?).map Prod.fst ≠ some key := by
    intro i _ hi
    obtain ⟨e, he⟩ := Nat.exists_eq_succ_of_ne_zero (hbefore i hi)
    exact ⟨e, he, hkey e (h.valid _ e he)⟩
  rw [slot, step_zero hsize, probe_walk hsize rfl (Nat.zero_le j) hwalk (by omega)]
  obtain ⟨f, hf⟩ : ∃ f, index.length - (j - 0) = f + 1 := ⟨index.length - j - 1, by omega⟩
  rw [hf, probe, hempty]

/-- the key of an entry: the search ends there -/
theorem Indexed.slot_some (h : Indexed hash data m index) (hsize : index.length = 2 ^ k)
    (hnodup : (Dict.keys data).Nodup) {i : Nat} (hi : i < m) {key : K}
    (hkey : (data[i]?).map Prod.fst = some key) :
    ∃ s, slot hash data key index = some (s, some i) := by
  obtain ⟨j, hj, hat, hbefore⟩ := h.placed i hi key hkey
  refine ⟨step hash index.length key j, ?_⟩
  have hsame : ∀ e, (data[e]?).map Prod.fst = some key → e = i := by
    intro e he
    have hget : ∀ n, (data[n]?).map Prod.fst = (Dict.keys data)[n]? := fun n => by
      rw [Dict.keys, List.getElem?_map]
    rw [hget] at he hkey
    have hlt : e < (Dict.keys data).length := (List.getElem?_eq_some_iff.1 he).1
    exact (List.getElem?_inj hlt hnodup).1 (he.trans hkey.symm)
  have hwalk : ∀ i', 0 ≤ i' → i' < j → ∃ e, index.getD (step hash index.length key i') 0 = e + 1 ∧
      (data[e]?).map Prod.fst ≠ some key := by
    intro i' _ hi'
    obtain ⟨e, he⟩ := Nat.exists_eq_succ_of_ne_zero (hbefore i' hi')
    refine ⟨e, he, fun hk => ?_⟩
    -- an entry is in one slot only
    obtain rfl := hsame e hk
    have hslot := h.once _ _ (he.trans hat.symm) (by omega)
    have := step_inj (by omega) hj hslot
    omega
  rw [slot, step_zero hsize, probe_walk hsize rfl (Nat.zero_le j) hwalk (by omega)]
  obtain ⟨f, hf⟩ : ∃ f, index.length - (j - 0) = f + 1 := ⟨index.length - j - 1, by omega⟩
  rw [hf, probe, hat]
  dsimp only
  rw [if_pos hkey]

/-! ## new entries -/

theorem getD_set (index : List Nat) (s v p : Nat) (hs : s < index.length) :
    (index.set s v).getD p 0 = if p = s then v else index.getD p 0 := by
  rw [List.getD_eq_getElem?_getD, List.getD_eq_getElem?_getD, List.getElem?_set]
  by_cases h : p = s
  · rw [if_pos h, if_pos h.symm, if_pos hs]
    rfl
  · rw [if_neg h, if_neg fun h' => h h'.symm]

omit [DecidableEq K] in
/-- one more entry, at the first empty slot of its search -/
theorem Indexed.extend {data' : List (K × V)} (h : Indexed hash data m index)
    (hdata : ∀ i < m, data'[i]? = data[i]?) {key : K} (hkey : (data'[m]?).map Prod.fst = some key)
    {j : Nat} (hj : j < index.length) (hempty : index.getD (step hash index.length key j) 0 = 0)
    (hbefore : ∀ j' < j, index.getD (step hash index.length key j') 0 ≠ 0) :
    Indexed hash data' (m + 1) (index.set (step hash index.length key j) (m + 1)) := by
  have hpos : 0 < index.length := by omega
  have hset := fun p => getD_set index (step hash index.length key j) (m + 1) p (Nat.mod_lt _ hpos)
  -- a slot that was not empty keeps its entry
  have hkeep : ∀ p, index.getD p 0 ≠ 0 →
      (index.set (step hash index.length key j) (m + 1)).getD p 0 = index.getD p 0 := by
    intro p hp
    rw [hset, if_neg]
    rintro rfl
    exact hp hempty
  constructor
  · intro p i hi
    rw [hset] at hi
    split_ifs at hi with hp
    · omega
    · exact Nat.lt_succ_of_lt (h.valid p i hi)
  · intro p q heq hne
    rw [hset, hset] at heq
    rw [hset] at hne
    split_ifs at heq hne with hp hq hq
    · rw [hp, hq]
    · have := h.valid q m heq.symm
      omega
    · have := h.valid p m heq
      omega
    · exact h.once p q heq hne
  · intro i hi key' hkey'
    rw [List.length_set]
    rcases Nat.lt_succ_iff_lt_or_eq.1 hi with hlt | rfl
    · rw [hdata i hlt] at hkey'
      obtain ⟨j', hj', hat, hchain⟩ := h.placed i hlt key' hkey'
      refine ⟨j', hj', ?_, fun j'' hj'' => ?_⟩
      · rw [hkeep _ (by omega), hat]
      · rw [hkeep _ (hchain j'' hj'')]
        exact hchain j'' hj''
    · rw [hkey] at hkey'
      cases hkey'
      refine ⟨j, hj, by rw [hset, if_pos rfl], fun j' hj' => ?_⟩
      rw [hkeep _ (hbefore j' hj')]
      exact hbefore j' hj'

omit [DecidableEq K] in
theorem key_ne_of_nodup {front rest : List (K × V)} {x : K × V}
    (hnodup : (Dict.keys (front ++ x :: rest)).Nodup) :
    ∀ i < front.length, ((front ++ x :: rest)[i]?).map Prod.fst ≠ some x.1 := by
  intro i hi hsame
  rw [List.getElem?_append_left hi] at hsame
  obtain ⟨y, hy, hyx⟩ := Option.map_eq_some_iff.1 hsame
  rw [Dict.keys, List.map_append, List.map_cons] at hnodup
  have hmem : x.1 ∈ front.map Prod.fst := by
    rw [← hyx]
    exact List.mem_map_of_mem (List.mem_of_getElem? hy)
  exact (List.nodup_append.1 hnodup).2.2 _ hmem _ List.mem_cons_self rfl

/-- all entries are put into a new index -/
theorem place_sound {front rest : List (K × V)} (hdata : data = front ++ rest)
    (hnodup : (Dict.keys data).Nodup) (h : Indexed hash data front.length index)
    (hsize : index.length = 2 ^ k) (hroom : data.length < index.length) :
    ∃ index', place hash data rest front.length index = some index' ∧
      Indexed hash data data.length index' ∧ index'.length = index.length := by
  induction rest generalizing front index with
  | nil =>
    rw [List.append_nil] at hdata
    rw [place, hdata]
    rw [hdata] at h
    exact ⟨index, rfl, h, rfl⟩
  | cons x rest ih =>
    have hlength : data.length = front.length + (rest.length + 1) := by
      rw [hdata, List.length_append, List.length_cons]
    obtain ⟨j, hj, hslot, hempty, hbefore⟩ := h.slot_none hsize (by omega) (by
      rw [hdata] at hnodup ⊢
      exact key_ne_of_nodup hnodup)
    have hkey : (data[front.length]?).map Prod.fst = some x.1 := by
      rw [hdata, List.getElem?_append_right le_rfl, Nat.sub_self]
      rfl
    have hnext := h.extend (fun _ _ => rfl) hkey hj hempty hbefore
    rw [place, hslot]
    dsimp only
    have := @ih _ (front ++ [x]) (by rw [hdata, List.append_assoc]; rfl)
      (by rw [List.length_append]; exact hnext) (by rw [List.length_set, hsize])
      (by rw [List.length_set]; exact hroom)
    rwa [List.length_append, List.length_set] at this

/-! ## tables -/

/-- what every operation keeps -/
structure Table.Sound (hash : K → Nat) (t : Table K V) : Prop where
  distinct : (Dict.keys t.data).Nodup
  size : ∃ k, t.index.length = 2 ^ k
  large : 16 ≤ t.index.length
  load : t.data.length * 10 < t.index.length * 7
  indexed : Indexed hash t.data t.data.length t.index

omit [DecidableEq K] in
theorem sound_empty : Table.Sound hash (⟨[], List.replicate 16 0⟩ : Table K V) where
  distinct := List.nodup_nil
  size := ⟨4, rfl⟩
  large := le_rfl
  load := by
    show 0 * 10 < (List.replicate 16 0).length * 7
    decide
  indexed := indexed_empty 16

variable {t : Table K V}

/-- there is room for one more entry -/
theorem Table.Sound.grown (h : t.Sound hash) : ∃ index, t.grown hash = some index ∧
    Indexed hash t.data t.data.length index ∧ (∃ k, index.length = 2 ^ k) ∧ 16 ≤ index.length ∧
      (t.data.length + 1) * 10 < index.length * 7 := by
  rw [Table.grown]
  have hload := h.load
  have hlarge := h.large
  obtain ⟨k, hk⟩ := h.size
  by_cases hfull : (t.data.length + 1) * 10 ≥ t.index.length * 7
  · rw [if_pos hfull]
    have hlen : (List.replicate (2 * t.index.length) 0).length = 2 ^ (k + 1) := by
      rw [List.length_replicate, hk, Nat.pow_succ, Nat.mul_comm]
    have hroom : t.data.length < (List.replicate (2 * t.index.length) 0).length := by
      rw [List.length_replicate]
      omega
    obtain ⟨index, hplace, hindexed, hlength⟩ := @place_sound _ _ _ hash _ _ _ [] t.data rfl h.distinct
      (indexed_empty _) hlen hroom
    rw [List.length_replicate] at hlength
    exact ⟨index, hplace, hindexed, ⟨k + 1, by rw [hlength, ← hlen, List.length_replicate]⟩, by omega, by omega⟩
  · rw [if_neg hfull]
    exact ⟨t.index, rfl, h.indexed, ⟨k, hk⟩, hlarge, by omega⟩

omit [DecidableEq K] in
theorem exists_entry {key : K} (h : key ∈ Dict.keys data) :
    ∃ i < data.length, (data[i]?).map Prod.fst = some key := by
  obtain ⟨x, hx, rfl⟩ := List.mem_map.1 h
  obtain ⟨i, hi, hget⟩ := List.getElem_of_mem hx
  exact ⟨i, hi, by rw [List.getElem?_eq_getElem hi, hget]; rfl⟩

omit [DecidableEq K] in
theorem no_entry {key : K} (h : key ∉ Dict.keys data) :
    ∀ i < data.length, (data[i]?).map Prod.fst ≠ some key := by
  intro i _ hsome
  obtain ⟨x, hx, rfl⟩ := Option.map_eq_some_iff.1 hsome
  exact h (Dict.mem_keys (List.mem_of_getElem? hx))

/-- **`add` ends, refuses a key that is there, and adds any other at the end.** -/
theorem Table.Sound.add (h : t.Sound hash) (key : K) (value : V) : ∃ t' added,
    t.add hash key value = some (added, t') ∧ t'.Sound hash ∧
      (added = true ↔ key ∉ Dict.keys t.data) ∧
      t'.data = if added then t.data ++ [(key, value)] else t.data := by
  obtain ⟨index, hgrown, hindexed, ⟨k, hk⟩, hlarge, hload⟩ := h.grown
  rw [Table.add, hgrown]
  dsimp only
  by_cases hkey : key ∈ Dict.keys t.data
  · obtain ⟨i, hi, hentry⟩ := exists_entry hkey
    obtain ⟨s, hslot⟩ := hindexed.slot_some hk h.distinct hi hentry
    rw [hslot]
    refine ⟨_, false, rfl, ⟨h.distinct, ⟨k, hk⟩, hlarge, ?_, hindexed⟩, ?_, rfl⟩
    · show t.data.length * 10 < index.length * 7
      omega
    · exact ⟨fun hf => (nomatch hf), fun hn => absurd hkey hn⟩
  · obtain ⟨j, hj, hslot, hempty, hbefore⟩ := hindexed.slot_none hk (by omega) (no_entry hkey)
    rw [hslot]
    refine ⟨_, true, rfl, ⟨?_, ⟨k, by rw [List.length_set, hk]⟩, ?_, ?_, ?_⟩, ?_, rfl⟩
    · show (Dict.keys (t.data ++ [(key, value)])).Nodup
      rw [Dict.keys, List.map_append]
      refine List.nodup_append.2 ⟨h.distinct, List.nodup_singleton _, ?_⟩
      intro a ha b hb hab
      obtain rfl := List.mem_singleton.1 hb
      rw [hab] at ha
      exact hkey ha
    · rw [List.length_set]
      exact hlarge
    · show (t.data ++ [(key, value)]).length * 10 < (index.set _ _).length * 7
      rw [List.length_append, List.length_set]
      exact hload
    · show Indexed hash (t.data ++ [(key, value)]) (t.data ++ [(key, value)]).length _
      rw [List.length_append]
      refine hindexed.extend (fun i hi => List.getElem?_append_left hi) ?_ hj hempty hbefore
      rw [List.getElem?_append_right le_rfl, Nat.sub_self]
      rfl
    · exact ⟨fun _ => hkey, fun _ => rfl⟩

/-- **`get` ends, and gives the value of the entry.** -/
theorem Table.Sound.get (h : t.Sound hash) (key : K) : t.get hash key = some (Dict.get key t.data) := by
  obtain ⟨k, hk⟩ := h.size
  have hload := h.load
  rw [Table.get]
  by_cases hkey : key ∈ Dict.keys t.data
  · obtain ⟨i, hi, hentry⟩ := exists_entry hkey
    obtain ⟨s, hslot⟩ := h.indexed.slot_some hk h.distinct hi hentry
    rw [hslot]
    dsimp only
    obtain ⟨x, hx, rfl⟩ := Option.map_eq_some_iff.1 hentry
    have hmem : (x.1, x.2) ∈ t.data := List.mem_of_getElem? hx
    rw [hx, (Dict.get_eq_some_iff h.distinct).2 hmem]
    rfl
  · obtain ⟨j, hj, hslot, -⟩ := h.indexed.slot_none hk (by omega) (no_entry hkey)
    rw [hslot, Dict.get_new hkey]

end

end Netops.Probing
