import Mathlib.Algebra.Ring.Nat
import Mathlib.Data.Char
import Mathlib.Data.List.Lex
import Mathlib.Data.List.Nodup
import Mathlib.Data.List.Perm.Basic
import Mathlib.Data.List.Sort

/-!
# Dictionaries that keep the order of insertion

A dictionary is the list of its items; a key that is set again keeps its place.

* `set`, `get`      `d[key] = value`, `d.get(key)`;
* `equal`           `d == e`;
* `last`            the value of a key in a list of items where it may stand more than once;
* `sorted`          `sorted(d.items())`;
* `sorted_eq_iff`   dictionaries that differ in order only are sorted alike;
* `map_perm_map_iff`   two lists whose images are permutations of each other.
-/

namespace Dict

variable {K V W : Type}

/-- the keys, in order -/
def keys (d : List (K × V)) : List K := d.map Prod.fst

theorem keys_map {d : List (K × V)} {f : K × V → K × W} (hf : ∀ x, (f x).1 = x.1) :
    keys (d.map f) = keys d := by
  unfold keys
  rw [List.map_map]
  exact List.map_congr_left fun x _ => hf x

theorem mem_keys {d : List (K × V)} {x : K × V} (h : x ∈ d) : x.1 ∈ keys d :=
  List.mem_map_of_mem h

theorem nodup_keys_filter {d : List (K × V)} (p : K × V → Bool) (h : (keys d).Nodup) :
    (keys (d.filter p)).Nodup :=
  h.sublist (List.filter_sublist.map Prod.fst)

/-- one key has one value -/
theorem eq_of_mem {d : List (K × V)} (h : (keys d).Nodup) {x y : K × V} (hx : x ∈ d) (hy : y ∈ d)
    (e : x.1 = y.1) : x = y :=
  List.inj_on_of_nodup_map h hx hy e

section
variable [DecidableEq K]

/-- `d[key] = value` -/
def set (key : K) (value : V) : List (K × V) → List (K × V)
  | [] => [(key, value)]
  | (k, v) :: rest => if k = key then (key, value) :: rest else (k, v) :: set key value rest

/-- `d.get(key)` -/
def get (key : K) : List (K × V) → Option V
  | [] => none
  | (k, v) :: rest => if k = key then some v else get key rest

theorem mem_of_get {key : K} {v : V} {d : List (K × V)} (h : get key d = some v) : (key, v) ∈ d := by
  induction d with
  | nil => exact (nomatch h)
  | cons x d ih =>
    obtain ⟨k, w⟩ := x
    rw [get] at h
    split_ifs at h with hk
    · cases h
      rw [hk]
      exact List.mem_cons_self
    · exact List.mem_cons_of_mem _ (ih h)

/-- an item of the new dictionary is the one that was set or an old one -/
theorem mem_set {key : K} {value : V} {d : List (K × V)} {x : K × V} (h : x ∈ set key value d) :
    x = (key, value) ∨ x ∈ d := by
  induction d with
  | nil => exact .inl (List.mem_singleton.mp h)
  | cons y d ih =>
    obtain ⟨k, w⟩ := y
    rw [set] at h
    split_ifs at h
    · rcases List.mem_cons.mp h with h | h
      · exact .inl h
      · exact .inr (List.mem_cons_of_mem _ h)
    · rcases List.mem_cons.mp h with h | h
      · exact .inr (h ▸ List.mem_cons_self)
      · exact (ih h).imp id (List.mem_cons_of_mem _)

theorem nodup_keys_set {d : List (K × V)} (key : K) (value : V) (h : (keys d).Nodup) :
    (keys (set key value d)).Nodup := by
  induction d with
  | nil => exact List.nodup_singleton _
  | cons y d ih =>
    obtain ⟨k, w⟩ := y
    obtain ⟨hk, hd⟩ := List.nodup_cons.mp h
    rw [set]
    split_ifs with e
    · subst e
      exact List.nodup_cons.mpr ⟨hk, hd⟩
    · refine List.nodup_cons.mpr ⟨fun hmem => ?_, ih hd⟩
      obtain ⟨x, hx, hxk⟩ := List.mem_map.mp hmem
      rcases mem_set hx with rfl | hx
      · exact e hxk.symm
      · exact hk (hxk ▸ mem_keys hx)

theorem mem_set_iff {key k : K} {value v : V} {d : List (K × V)} (h : (keys d).Nodup) :
    (k, v) ∈ set key value d ↔ k = key ∧ v = value ∨ k ≠ key ∧ (k, v) ∈ d := by
  induction d with
  | nil => simp [set]
  | cons y d ih =>
    obtain ⟨k', w⟩ := y
    obtain ⟨hk, hd⟩ := List.nodup_cons.mp h
    rw [set]
    split_ifs with e
    · subst e
      have hne : (k, v) ∈ d → k ≠ k' := by
        rintro hm rfl
        have hin : k ∈ keys d := mem_keys hm
        exact hk hin
      simp only [List.mem_cons, Prod.mk.injEq]
      tauto
    · have hne : k = k' → k ≠ key := fun h1 h2 => e (h1.symm.trans h2)
      simp only [List.mem_cons, Prod.mk.injEq, ih hd]
      tauto

theorem set_new {key : K} {value : V} {d : List (K × V)} (h : key ∉ keys d) :
    set key value d = d ++ [(key, value)] := by
  induction d with
  | nil => rfl
  | cons x d ih =>
    obtain ⟨k, v⟩ := x
    have hk : ¬k = key := fun e => h (by rw [e]; exact List.mem_cons_self)
    have hd : key ∉ keys d := fun hm => h (List.mem_cons_of_mem _ hm)
    rw [set, if_neg hk, ih hd, List.cons_append]

theorem get_new {key : K} {d : List (K × V)} (h : key ∉ keys d) : get key d = none := by
  cases hg : get key d with
  | none => rfl
  | some v => exact absurd (mem_keys (mem_of_get hg)) h

theorem exists_get {key : K} {d : List (K × V)} (h : key ∈ keys d) : ∃ v, get key d = some v := by
  induction d with
  | nil => exact absurd h List.not_mem_nil
  | cons x d ih =>
    obtain ⟨k, v⟩ := x
    rw [get]
    split_ifs with hk
    · exact ⟨v, rfl⟩
    · exact ih ((List.mem_cons.mp h).resolve_left fun e => hk e.symm)

theorem get_eq_some_iff {key : K} {v : V} {d : List (K × V)} (h : (keys d).Nodup) :
    get key d = some v ↔ (key, v) ∈ d := by
  constructor
  · exact mem_of_get
  · intro hm
    obtain ⟨w, hw⟩ := exists_get (mem_keys hm)
    rw [hw, Option.some.injEq]
    exact (Prod.mk.inj (eq_of_mem h (mem_of_get hw) hm rfl)).2

theorem get_map_values (f : K → V → W) (key : K) (d : List (K × V)) :
    get key (d.map fun x => (x.1, f x.1 x.2)) = (get key d).map (f key) := by
  induction d with
  | nil => rfl
  | cons x d ih =>
    obtain ⟨k, v⟩ := x
    rw [List.map_cons, get, get]
    split_ifs with hk
    · rw [← hk]
      rfl
    · exact ih

/-- setting a key that is there keeps the keys -/
theorem keys_set {key : K} {value : V} {d : List (K × V)} (h : key ∈ keys d) :
    keys (set key value d) = keys d := by
  induction d with
  | nil => exact absurd h List.not_mem_nil
  | cons x d ih =>
    obtain ⟨k, v⟩ := x
    rw [set]
    split_ifs with hk
    · rw [← hk]
      rfl
    · have hd : key ∈ keys d := (List.mem_cons.mp h).resolve_left fun e => hk e.symm
      exact congrArg (k :: ·) (ih hd)

theorem get_set (key k : K) (value : V) (d : List (K × V)) :
    get k (set key value d) = if k = key then some value else get k d := by
  induction d with
  | nil =>
    show (if key = k then some value else none) = if k = key then some value else none
    rw [if_congr eq_comm rfl rfl]
  | cons x d ih =>
    obtain ⟨k', v⟩ := x
    rw [set]
    split_ifs with h1 h2 h2
    · rw [get, if_pos h2.symm]
    · rw [get, get, if_neg (Ne.symm h2), if_neg (fun e => h2 (e.symm.trans h1))]
    · rw [get, if_neg (fun e => h1 (e.trans h2)), ih, if_pos h2]
    · rw [get, get, ih, if_neg h2]

/-- `del d[key]` -/
theorem get_filter_ne (key k : K) (d : List (K × V)) :
    get k (d.filter fun x => x.1 ≠ key) = if k = key then none else get k d := by
  induction d with
  | nil => rw [List.filter_nil, get, ite_self]
  | cons x d ih =>
    obtain ⟨k', v⟩ := x
    rw [List.filter_cons]
    by_cases hk : k' = key
    · subst hk
      rw [if_neg (by simp), ih, get]
      split_ifs with h1 h2
      · rfl
      · exact absurd h2.symm h1
      · rfl
    · rw [if_pos (by simpa using hk), get, get, ih]
      split_ifs with h1 h2
      · exact absurd (h1.trans h2) hk
      · rfl
      · rfl
      · rfl

theorem get_filter {d : List (K × V)} (h : (keys d).Nodup) (p : K × V → Bool) (key : K) :
    get key (d.filter p) = (get key d).filter fun v => p (key, v) := by
  refine Option.ext fun v => ?_
  rw [get_eq_some_iff (nodup_keys_filter p h), List.mem_filter, Option.filter_eq_some_iff,
    get_eq_some_iff h]

/-- `d == e`, where values are compared by `same` -/
def equal (same : V → V → Bool) (d e : List (K × V)) : Bool :=
  d.length = e.length && d.all fun x => (get x.1 e).any (same x.2)

theorem get_append (key : K) (d e : List (K × V)) : get key (d ++ e) = (get key d).or (get key e) := by
  induction d with
  | nil => rfl
  | cons x d ih =>
    obtain ⟨k, v⟩ := x
    rw [List.cons_append, get, get]
    split_ifs
    · rfl
    · exact ih

/-- of equal keys the last one counts -/
def last (key : K) (d : List (K × V)) : Option V :=
  (d.reverse.find? fun x => x.1 = key).map Prod.snd

theorem last_cons (key : K) (x : K × V) (d : List (K × V)) :
    last key (x :: d) = (last key d).or (if x.1 = key then some x.2 else none) := by
  rw [last, List.reverse_cons, List.find?_append, Option.map_or]
  congr 1
  by_cases h : x.1 = key <;> simp [h]

theorem mem_of_last {key : K} {v : V} {d : List (K × V)} (h : last key d = some v) : (key, v) ∈ d := by
  obtain ⟨x, hx, rfl⟩ := Option.map_eq_some_iff.mp h
  have hk : x.1 = key := by simpa using List.find?_some hx
  exact hk ▸ List.mem_reverse.mp (List.mem_of_find?_eq_some hx)

/-- a key that is there has a value -/
theorem last_isSome {key : K} {v : V} {d : List (K × V)} (h : (key, v) ∈ d) : (last key d).isSome := by
  rw [last, Option.isSome_map, List.find?_isSome]
  exact ⟨(key, v), List.mem_reverse.mpr h, by simp⟩

theorem last_eq_some_iff {key : K} {v : V} {d : List (K × V)} (hd : (keys d).Nodup) :
    last key d = some v ↔ (key, v) ∈ d := by
  refine ⟨mem_of_last, fun h => ?_⟩
  obtain ⟨w, hw⟩ := Option.isSome_iff_exists.mp (last_isSome h)
  have he := eq_of_mem hd h (mem_of_last hw) rfl
  rw [hw, (Prod.mk.inj he).2]

/-- the dictionary of some items: of equal keys the last one counts -/
theorem last_foldl_set (key : K) (pairs : List (K × V)) :
    last key (pairs.foldl (fun d f => set f.1 f.2 d) []) = last key pairs := by
  have hall : ∀ (pairs d : List (K × V)), (keys d).Nodup →
      (keys (pairs.foldl (fun d f => set f.1 f.2 d) d)).Nodup ∧
        ∀ v, (key, v) ∈ pairs.foldl (fun d f => set f.1 f.2 d) d ↔
          last key pairs = some v ∨ last key pairs = none ∧ (key, v) ∈ d := by
    intro pairs
    induction pairs with
    | nil => exact fun d hd => ⟨hd, fun v => by simp [last]⟩
    | cons x pairs ih =>
      intro d hd
      refine ⟨(ih _ (nodup_keys_set x.1 x.2 hd)).1, fun v => ?_⟩
      rw [List.foldl_cons, (ih _ (nodup_keys_set x.1 x.2 hd)).2, mem_set_iff hd, last_cons]
      cases hl : last key pairs with
      | some w => simp
      | none =>
        by_cases hx : x.1 = key
        · simp [hx, eq_comm]
        · have hx' : key ≠ x.1 := fun h => hx h.symm
          simp [hx, hx']
  obtain ⟨hd, hmem⟩ := hall pairs [] List.nodup_nil
  cases hl : last key pairs with
  | some w =>
    exact (last_eq_some_iff hd).mpr ((hmem w).mpr (.inl hl))
  | none =>
    rw [Option.eq_none_iff_forall_not_mem]
    intro v hv
    rcases (hmem v).mp ((last_eq_some_iff hd).mp hv) with h | ⟨-, h⟩
    · rw [hl] at h
      exact nomatch h
    · exact nomatch h

theorem nodup_keys_foldl_set (pairs d : List (K × V)) (hd : (keys d).Nodup) :
    (keys (pairs.foldl (fun d f => set f.1 f.2 d) d)).Nodup := by
  induction pairs generalizing d with
  | nil => exact hd
  | cons x pairs ih => exact ih _ (nodup_keys_set x.1 x.2 hd)

theorem get_eq_last {key : K} {d : List (K × V)} (hd : (keys d).Nodup) : get key d = last key d := by
  refine Option.ext fun v => ?_
  rw [get_eq_some_iff hd, last_eq_some_iff hd]

/-- the dictionary of some items -/
theorem get_foldl_set (key : K) (pairs : List (K × V)) :
    get key (pairs.foldl (fun d f => set f.1 f.2 d) []) = last key pairs := by
  rw [get_eq_last (nodup_keys_foldl_set pairs [] List.nodup_nil), last_foldl_set]

end

section
variable [LinearOrder K]

/-- `sorted(d.items())` -/
def sorted (d : List (K × V)) : List (K × V) := d.insertionSort fun a b => a.1 ≤ b.1

theorem sorted_perm (d : List (K × V)) : (sorted d).Perm d := List.perm_insertionSort _ d

theorem map_sorted {f : K × V → K × W} (hf : ∀ x, (f x).1 = x.1) (d : List (K × V)) :
    (sorted d).map f = sorted (d.map f) :=
  List.map_insertionSort _ _ f d fun a _ b _ => by rw [hf, hf]

/-- dictionaries that differ in the order of their items are sorted alike -/
theorem sorted_eq_iff {d e : List (K × V)} (hd : (keys d).Nodup) :
    sorted d = sorted e ↔ d.Perm e := by
  constructor
  · intro h
    exact (sorted_perm d).symm.trans (h ▸ sorted_perm e)
  · intro h
    have hle : ∀ x : List (K × V), (sorted x).Pairwise fun a b => a.1 ≤ b.1 := fun x => by
      have : Std.Total fun a b : K × V => a.1 ≤ b.1 := ⟨fun a b => le_total a.1 b.1⟩
      have : IsTrans (K × V) fun a b => a.1 ≤ b.1 := ⟨fun a b c => le_trans⟩
      exact List.pairwise_insertionSort _ x
    refine List.Perm.eq_of_pairwise ?_ (hle d) (hle e) ((sorted_perm d).trans (h.trans (sorted_perm e).symm))
    intro a b ha hb hab hba
    have ha' : a ∈ d := (sorted_perm d).mem_iff.mp ha
    have hb' : b ∈ d := h.mem_iff.mpr ((sorted_perm e).mem_iff.mp hb)
    exact eq_of_mem hd ha' hb' (le_antisymm hab hba)

end

/-- the images are permutations of each other when the lists match after a permutation -/
theorem map_perm_map_iff {α β γ : Type} {f : α → γ} {g : β → γ} {as : List α} {bs : List β} :
    (as.map f).Perm (bs.map g) ↔ ∃ cs : List β, cs.Perm bs ∧ as.map f = cs.map g := by
  constructor
  · intro h
    have hcomp := congrFun (congrFun (List.eq_map_comp_perm g) (as.map f)) bs
    obtain ⟨cs, he, hp⟩ := hcomp.mpr h
    exact ⟨cs, hp, he⟩
  · rintro ⟨cs, hp, he⟩
    rw [he]
    exact hp.map g

end Dict
