import Mathlib.Algebra.Order.Group.Defs
import Mathlib.Algebra.Order.Group.Basic
import Mathlib.Data.List.TakeWhile

/-!
# A limit in every window of time

The times at which something was allowed are kept in a queue; those that are a window old are dropped
from its head, and `cost` new ones are allowed when the limit leaves room for them.

* `prune`      what is left in the queue at a time;
* `Limited`    the queue is the end of the list of all times, and no set of times closer to each
               other than a window holds more of them than the limit;
* `Limited.prune`, `Limited.allow`    the operations keep that;
* `length_prune_le`   how much is dropped when an entry of the queue is a window old.
-/

namespace Window

variable {T : Type} [AddCommGroup T] [LinearOrder T] [IsOrderedAddMonoid T]

/-- what is less than a window old -/
def prune (window now : T) (queue : List T) : List T := queue.dropWhile fun t => t ≤ now - window

/-- no two of the times are a window apart -/
def Close (window : T) (within : T → Bool) : Prop :=
  ∀ x y, within x = true → within y = true → y < x + window

structure Limited (limit : Nat) (window now : T) (times queue : List T) : Prop where
  ordered : times.Pairwise (· ≤ ·)
  past : ∀ t ∈ times, t ≤ now
  queue_eq : ∃ old, times = old ++ queue ∧ ∀ t ∈ old, t ≤ now - window
  limited : ∀ within, Close window within → times.countP within ≤ limit

section
variable {limit : Nat} {window now : T} {times queue : List T}

omit [IsOrderedAddMonoid T] in
theorem limited_nil (limit : Nat) (window now : T) : Limited limit window now [] [] where
  ordered := .nil
  past := fun _ h => nomatch h
  queue_eq := ⟨[], rfl, fun _ h => nomatch h⟩
  limited := fun _ _ => Nat.zero_le _

theorem Limited.later (h : Limited limit window now times queue) {next : T} (hle : now ≤ next) :
    Limited limit window next times queue where
  ordered := h.ordered
  past := fun t ht => (h.past t ht).trans hle
  queue_eq := by
    obtain ⟨old, he, hold⟩ := h.queue_eq
    exact ⟨old, he, fun t ht => (hold t ht).trans (sub_le_sub_right hle window)⟩
  limited := h.limited

omit [IsOrderedAddMonoid T] in
theorem Limited.prune (h : Limited limit window now times queue) :
    Limited limit window now times (prune window now queue) where
  ordered := h.ordered
  past := h.past
  queue_eq := by
    obtain ⟨old, he, hold⟩ := h.queue_eq
    refine ⟨old ++ queue.takeWhile fun t => t ≤ now - window, ?_, fun t ht => ?_⟩
    · rw [List.append_assoc, Window.prune, List.takeWhile_append_dropWhile, he]
    · rcases List.mem_append.1 ht with ht | ht
      · exact hold t ht
      · simpa using List.mem_takeWhile_imp ht
  limited := h.limited

/-- the times that are close to now are in the queue -/
theorem Limited.countP_le (h : Limited limit window now times queue) {within : T → Bool}
    (hc : Close window within) (hnow : within now = true) : times.countP within ≤ queue.length := by
  obtain ⟨old, he, hold⟩ := h.queue_eq
  have hzero : old.countP within = 0 := by
    refine List.countP_eq_zero.2 fun t ht hw => ?_
    have hlt := hc t now hw hnow
    exact absurd (hold t ht) (not_le.2 (sub_lt_iff_lt_add.2 hlt))
  rw [he, List.countP_append, hzero, Nat.zero_add]
  exact List.countP_le_length

theorem Limited.allow (h : Limited limit window now times queue) {cost : Nat}
    (hroom : queue.length + cost ≤ limit) :
    Limited limit window now (times ++ List.replicate cost now) (queue ++ List.replicate cost now) where
  ordered := by
    refine List.pairwise_append.2 ⟨h.ordered, List.pairwise_replicate.2 (.inr le_rfl), fun a ha b hb => ?_⟩
    rw [List.eq_of_mem_replicate hb]
    exact h.past a ha
  past := by
    intro t ht
    rcases List.mem_append.1 ht with ht | ht
    · exact h.past t ht
    · exact (List.eq_of_mem_replicate ht).le
  queue_eq := by
    obtain ⟨old, he, hold⟩ := h.queue_eq
    exact ⟨old, by rw [he, List.append_assoc], hold⟩
  limited := by
    intro within hc
    rw [List.countP_append, List.countP_replicate]
    split_ifs with hnow
    · exact (Nat.add_le_add_right (h.countP_le hc hnow) cost).trans hroom
    · exact h.limited within hc

omit [IsOrderedAddMonoid T] in
/-- the queue is in order -/
theorem Limited.queue_ordered (h : Limited limit window now times queue) :
    queue.Pairwise (· ≤ ·) := by
  obtain ⟨old, he, -⟩ := h.queue_eq
  have hall := h.ordered
  rw [he] at hall
  exact (List.pairwise_append.1 hall).2.1

end

/-- when the entry at `index` is a window old, all up to it are dropped -/
theorem length_prune_le {window now t : T} {queue : List T} {index : Nat}
    (ho : queue.Pairwise (· ≤ ·)) (ht : queue[index]? = some t) (hold : t + window ≤ now) :
    (prune window now queue).length + (index + 1) ≤ queue.length := by
  induction queue generalizing index with
  | nil => exact nomatch ht
  | cons x queue ih =>
    obtain ⟨hx, ho⟩ := List.pairwise_cons.1 ho
    have htx : x ≤ t := by
      cases index with
      | zero => rw [Option.some.inj ht]
      | succ index => exact hx t (List.mem_of_getElem? ht)
    have hdrop : x ≤ now - window := htx.trans (le_sub_iff_add_le.2 hold)
    rw [prune, List.dropWhile_cons, if_pos (decide_eq_true hdrop), List.length_cons]
    cases index with
    | zero => exact Nat.add_le_add_right (List.dropWhile_suffix _).length_le 1
    | succ index => exact Nat.add_le_add_right (ih ho ht) 1

omit [IsOrderedAddMonoid T] in
/-- in an ordered queue the times that are left are those that are less than a window old -/
theorem length_prune {window now : T} {queue : List T} (ho : queue.Pairwise (· ≤ ·)) :
    (prune window now queue).length = queue.countP fun t => now - window < t := by
  induction queue with
  | nil => rfl
  | cons x queue ih =>
    obtain ⟨hx, ho⟩ := List.pairwise_cons.1 ho
    by_cases hold : x ≤ now - window
    · rw [prune, List.dropWhile_cons, if_pos (decide_eq_true hold), List.countP_cons_of_neg]
      · exact ih ho
      · simpa using hold
    · have hall : ∀ t ∈ x :: queue, now - window < t := by
        intro t ht
        rcases List.mem_cons.1 ht with rfl | ht
        · exact lt_of_not_ge hold
        · exact (lt_of_not_ge hold).trans_le (hx t ht)
      rw [prune, List.dropWhile_cons, if_neg (by simpa using hold)]
      exact (List.countP_eq_length.2 fun t ht => decide_eq_true (hall t ht)).symm

omit [IsOrderedAddMonoid T] in
/-- how much is left in the queue does not depend on when it was pruned before -/
theorem Limited.length_prune {limit : Nat} {window now : T} {times queue : List T}
    (h : Limited limit window now times queue) :
    (Window.prune window now queue).length = times.countP fun t => now - window < t := by
  obtain ⟨old, he, hold⟩ := h.queue_eq
  have hzero : old.countP (fun t => now - window < t) = 0 := by
    refine List.countP_eq_zero.2 fun t ht hlt => ?_
    exact absurd (of_decide_eq_true hlt) (not_lt.2 (hold t ht))
  rw [Window.length_prune h.queue_ordered, he, List.countP_append, hzero, Nat.zero_add]

end Window
